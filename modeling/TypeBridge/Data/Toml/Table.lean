import TypeBridge.Data.Value

/-!
# TOML tables

A document names the same table from several places, and what may be added to a table depends on how
it came to be: by a header of its own, by headers of tables inside it, or by the points of a key.
-/

namespace TypeBridge.Toml

/-- How a table came to be. -/
inductive Origin where
  /-- By its own header, or as the root. -/
  | header
  /-- By the header of a table inside it. -/
  | implied
  /-- By a key with points. -/
  | dotted
deriving DecidableEq

inductive Node where
  /-- A value, which nothing can be added to. -/
  | leaf (value : Value)
  | table (origin : Origin) (entries : List (String × Node))
  /-- A list of tables, one for each header. -/
  | tables (elements : List (List (String × Node)))

abbrev Entries := List (String × Node)

namespace Entries

/-- Put a node in the place of the one that a key has. -/
def replace (key : String) (node : Node) (entries : Entries) : Entries :=
  entries.map fun e => if e.1 == key then (key, node) else e

def without (key : String) (entries : Entries) : Entries :=
  entries.filter fun e => e.1 != key

/-- Change the table at the end of a path.  Tables that are missing on the way come into being as
`created`; in a list of tables the last one is meant.  A key with points does not lead into a table
that has its own header. -/
def within (created : Origin) (change : Origin → Entries → Option Entries) :
    List String → Origin → Entries → Option Entries
  | [], origin, entries => change origin entries
  | key :: path, _, entries =>
    match entries.lookup key with
    | none => do
      let inner ← within created change path created []
      some (entries ++ [(key, .table created inner)])
    | some (.leaf _) => none
    | some (.table origin inner) =>
      if created = .dotted ∧ origin = .header then
        none
      else do
        let changed ← within created change path origin inner
        some (entries.replace key (.table origin changed))
    | some (.tables elements) => do
      let last ← elements.getLast?
      let changed ← within created change path .header last
      some (entries.replace key (.tables (elements.dropLast ++ [changed])))

/-- Add a value under a new key. -/
def addLeaf (key : String) (value : Value) (entries : Entries) : Option Entries :=
  match entries.lookup key with
  | some _ => none
  | none => some (entries ++ [(key, .leaf value)])

/-- Add a value under a path; behind a point only tables that came to be by points take it. -/
def define (path : List String) (value : Value) (entries : Entries) : Option Entries := do
  let key ← path.getLast?
  let way := path.dropLast
  let add (origin : Origin) (inner : Entries) : Option Entries :=
    if way.isEmpty || origin = .dotted then addLeaf key value inner else none
  within .dotted add way .header entries

/-- Open the table of a header: a new one, or one that came to be by headers inside it, which moves
to the end of the table around it. -/
def openTable (path : List String) (entries : Entries) : Option Entries := do
  let key ← path.getLast?
  let add (_ : Origin) (inner : Entries) : Option Entries :=
    match inner.lookup key with
    | none => some (inner ++ [(key, .table .header [])])
    | some (.table .implied content) => some (inner.without key ++ [(key, .table .header content)])
    | some _ => none
  within .implied add path.dropLast .header entries

/-- Open another table of a list. -/
def openElement (path : List String) (entries : Entries) : Option Entries := do
  let key ← path.getLast?
  let add (_ : Origin) (inner : Entries) : Option Entries :=
    match inner.lookup key with
    | none => some (inner ++ [(key, .tables [[]])])
    | some (.tables elements) => some (inner.replace key (.tables (elements ++ [[]])))
    | some _ => none
  within .implied add path.dropLast .header entries

end Entries

mutual

/-- The value that a node stands for. -/
def Node.toValue : Node → Value
  | .leaf v => v
  | .table _ entries => .record (memberValues entries) true
  | .tables elements => .list (elementValues elements) true

def memberValues : List (String × Node) → List (Option String × Value)
  | [] => []
  | (key, node) :: rest => (some key, node.toValue) :: memberValues rest

def elementValues : List (List (String × Node)) → List Value
  | [] => []
  | entries :: rest => .record (memberValues entries) true :: elementValues rest

end

/-- The values of a table by their keys. -/
def Entries.values (entries : Entries) : List (String × Value) :=
  entries.map fun e => (e.1, e.2.toValue)

end TypeBridge.Toml
