import TypeBridge.Data.Toml.Scalar
import TypeBridge.Data.Toml.Table
import TypeBridge.Data.Toml.Text

/-!
# TOML documents

Values, and the lines of a document: headers, keys with their values, comments.
-/

namespace TypeBridge.Toml

/-! ## Comments and line ends -/

def dropComment : List Char → List Char
  | '#' :: rest => rest.dropWhile isTextChar
  | s => s

/-- The end of a line: blanks, perhaps a comment, and a line break or the end of the text. -/
def lineEnd (s : List Char) : Option (List Char) :=
  match dropComment (skipBlanks s) with
  | [] => some []
  | rest => lineBreak? rest

/-- Blanks, comments and line breaks inside a list; the first argument bounds how many lines. -/
def skipFill : Nat → List Char → Option (List Char)
  | 0, s => some s
  | bound + 1, s =>
    match skipBlanks s with
    | '#' :: rest => do
      let rest ← lineBreak? (rest.dropWhile isTextChar)
      skipFill bound rest
    | rest =>
      match lineBreak? rest with
      | some rest => skipFill bound rest
      | none => some rest

/-! ## Values -/

mutual

/-- A value and the text behind it, with `depth` containers around it. -/
def value (depth : Nat) : Nat → List Char → Option (Value × List Char)
  | 0, _ => none
  | bound + 1, s =>
    match s with
    | '[' :: rest => do
      if depth + 1 < depthLimit then
        let (vs, behind) ← listItems (depth + 1) bound rest
        some (.list vs true, behind)
      else
        none
    | '\x7b' :: rest => do
      if depth + 1 < depthLimit then
        match skipBlanks rest with
        | '\x7d' :: behind => some (.record [] true, behind)
        | rest =>
          let (entries, behind) ← inlineEntries (depth + 1) bound [] rest
          some (.ofEntries entries.values, behind)
      else
        none
    | '"' :: _ => (string s).map fun found => (.ofString found.1, found.2)
    | '\'' :: _ => (string s).map fun found => (.ofString found.1, found.2)
    | _ => scalar s

/-- The items of a list; a comma may stand behind the last. -/
def listItems (depth : Nat) : Nat → List Char → Option (List Value × List Char)
  | 0, _ => none
  | bound + 1, s => do
    match ← skipFill bound s with
    | ']' :: behind => some ([], behind)
    | rest =>
      let (v, rest) ← value depth bound rest
      match ← skipFill bound rest with
      | ',' :: rest =>
        let (vs, behind) ← listItems depth bound rest
        some (v :: vs, behind)
      | ']' :: behind => some ([v], behind)
      | _ => none

/-- The entries of an inline table on one line. -/
def inlineEntries (depth : Nat) : Nat → Entries → List Char → Option (Entries × List Char)
  | 0, _, _ => none
  | bound + 1, entries, s => do
    let (path, rest) ← key bound s
    match rest with
    | '=' :: rest =>
      let (v, rest) ← value depth bound (skipBlanks rest)
      let entries ← entries.define path v
      match skipBlanks rest with
      | ',' :: rest => inlineEntries depth bound entries rest
      | '\x7d' :: behind => some (entries, behind)
      | _ => none
    | _ => none

end

/-! ## Documents -/

/-- A document as far as it is read: the root table and the path of the table that keys go to. -/
structure Progress where
  root : Entries := []
  current : List String := []

/-- A header between brackets, and the rest of its line. -/
def header (bound : Nat) (closing : List Char) (s : List Char) :
    Option (List String × List Char) := do
  let (path, rest) ← key bound s
  if closing.isPrefixOf rest then
    let behind ← lineEnd (rest.drop closing.length)
    some (path, behind)
  else
    none

/-- A key and its value. -/
def keyValue (bound : Nat) (p : Progress) (s : List Char) : Option (Progress × List Char) := do
  let (path, rest) ← key bound s
  match rest with
  | '=' :: rest =>
    let (v, rest) ← value 0 bound (skipBlanks rest)
    let behind ← lineEnd rest
    let root ← Entries.within .implied (fun _ table => table.define path v) p.current .header p.root
    some ({ p with root }, behind)
  | _ => none

/-- One line that is not empty. -/
def statement (bound : Nat) (p : Progress) (s : List Char) : Option (Progress × List Char) :=
  match s with
  | '[' :: '[' :: rest => do
    let (path, behind) ← header bound [']', ']'] rest
    let root ← p.root.openElement path
    some (⟨root, path⟩, behind)
  | '[' :: rest => do
    let (path, behind) ← header bound [']'] rest
    let root ← p.root.openTable path
    some (⟨root, path⟩, behind)
  | _ => keyValue bound p s

/-- The rest of a document; the first argument bounds its length. -/
def statements : Nat → Progress → List Char → Option Progress
  | 0, _, _ => none
  | bound + 1, p, s =>
    match dropComment (skipBlanks s) with
    | [] => some p
    | rest =>
      match lineBreak? rest with
      | some rest => statements bound p rest
      | none => do
        if rest.length = (skipBlanks s).length then
          let (p, rest) ← statement (bound + 1) p rest
          statements bound p rest
        else
          none

/-- A byte order mark in front of a document does not count. -/
def dropMark : List Char → List Char
  | '\ufeff' :: rest => rest
  | s => s

/-- The root table of a document, with moments in the place of the tables that stand for them. -/
def read (text : String) : Option (List (String × Value)) := do
  let s := dropMark text.toList
  let p ← statements (2 * s.length + 2) {} s
  p.root.values.mapM fun e => (e.1, ·) <$> withMoments e.2

end TypeBridge.Toml
