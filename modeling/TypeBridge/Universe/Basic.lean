import TypeBridge.Universe.Declaration

/-!
# The universe

Every host declaration that a run may look at, and the providers of signatures that are only known
at run time.  Classes are kept in the order of their names, so two universes with the same classes
are equal; `Universe.Ordered` says so and `insert` keeps it.
-/

namespace TypeBridge

/-- What a provider returns: a text and the types it mentions. -/
structure Signature where
  text : String
  extraTypes : List HostType := []
deriving DecidableEq

/-- A provider gives its signature or says why it has none. -/
abbrev Provider := Except String Signature

/-- Providers by owner and name. -/
structure Providers where
  entries : List ((String × String) × Provider) := []

namespace Providers

def size (p : Providers) : Nat :=
  p.entries.length

def isEmpty (p : Providers) : Bool :=
  p.entries.isEmpty

def get? (p : Providers) (owner name : String) : Option Provider :=
  p.entries.lookup (owner, name)

/-- A provider registered again under the same owner and name replaces the earlier one. -/
def register (p : Providers) (owner name : String) (provider : Provider) : Providers :=
  ⟨p.entries.filter (fun e => e.1 != (owner, name)) ++ [((owner, name), provider)]⟩

/-- The types that providers bring along. -/
def extraTypes (p : Providers) : List HostType :=
  p.entries.flatMap fun e =>
    match e.2 with
    | .ok signature => signature.extraTypes
    | .error _ => []

end Providers

structure Universe where
  /-- In the order of their names, each name once. -/
  classes : List ClassDecl := []
  providers : Providers := {}

namespace Universe

def Ordered (u : Universe) : Prop :=
  (u.classes.map (·.name)).Pairwise (· < ·)

/-- Put a class where its name belongs, in place of one of the same name. -/
def insertByName (d : ClassDecl) : List ClassDecl → List ClassDecl
  | [] => [d]
  | c :: rest =>
    if d.name < c.name then
      d :: c :: rest
    else if d.name = c.name then
      d :: rest
    else
      c :: insertByName d rest

/-- Add or replace a class, with its type parameters bound. -/
def insert (u : Universe) (d : ClassDecl) : Universe :=
  { u with classes := insertByName d.bind u.classes }

/-- A universe of classes; of several with one name the last counts. -/
def ofClasses (ds : List ClassDecl) : Universe :=
  ds.foldl insert {}

def get? (u : Universe) (name : String) : Option ClassDecl :=
  u.classes.find? fun d => d.name == name

def contains (u : Universe) (name : String) : Bool :=
  (u.get? name).isSome

def register (u : Universe) (owner name : String) (provider : Provider) : Universe :=
  { u with providers := u.providers.register owner name provider }

theorem get?_name {u : Universe} {name : String} {d : ClassDecl} (h : u.get? name = some d) :
    d.name = name := by
  simpa using List.find?_some h

theorem get?_mem {u : Universe} {name : String} {d : ClassDecl} (h : u.get? name = some d) :
    d ∈ u.classes :=
  List.mem_of_find?_eq_some h

/-! ## Order -/

theorem mem_insertByName {d e : ClassDecl} {ds : List ClassDecl} (h : e ∈ insertByName d ds) :
    e = d ∨ e ∈ ds := by
  induction ds with
  | nil => exact .inl (List.mem_singleton.1 h)
  | cons c rest ih =>
    unfold insertByName at h
    split at h
    · exact List.mem_cons.1 h
    · split at h
      · exact (List.mem_cons.1 h).imp_right (List.mem_cons_of_mem c)
      · rcases List.mem_cons.1 h with rfl | h
        · exact .inr List.mem_cons_self
        · exact (ih h).imp_right (List.mem_cons_of_mem c)

theorem pairwise_insertByName (d : ClassDecl) {ds : List ClassDecl}
    (h : ds.Pairwise (·.name < ·.name)) : (insertByName d ds).Pairwise (·.name < ·.name) := by
  induction ds with
  | nil => exact List.pairwise_singleton _ d
  | cons c rest ih =>
    obtain ⟨front, behind⟩ := List.pairwise_cons.1 h
    unfold insertByName
    split
    · next lt =>
      refine List.pairwise_cons.2 ⟨fun e he => ?_, h⟩
      rcases List.mem_cons.1 he with rfl | he
      · exact lt
      · exact String.lt_trans lt (front e he)
    · next ge =>
      split
      · next eq => exact List.pairwise_cons.2 ⟨fun e he => eq ▸ front e he, behind⟩
      · next ne =>
        refine List.pairwise_cons.2 ⟨fun e he => ?_, ih behind⟩
        rcases mem_insertByName he with rfl | he
        · exact Std.lt_of_le_of_ne ge (Ne.symm ne)
        · exact front e he

theorem Ordered.empty : Ordered {} :=
  List.Pairwise.nil

theorem Ordered.insert {u : Universe} (h : u.Ordered) (d : ClassDecl) : (u.insert d).Ordered := by
  unfold Ordered at h ⊢
  rw [List.pairwise_map] at h ⊢
  exact pairwise_insertByName d.bind h

theorem Ordered.ofClasses (ds : List ClassDecl) : (Universe.ofClasses ds).Ordered := by
  unfold Universe.ofClasses
  suffices ∀ u : Universe, u.Ordered →
      (ds.foldl Universe.insert u).Ordered from this {} Ordered.empty
  induction ds with
  | nil => exact fun u h => h
  | cons d rest ih => exact fun u h => ih (u.insert d) (h.insert d)

end Universe

end TypeBridge
