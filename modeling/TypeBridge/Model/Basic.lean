import TypeBridge.Error
import TypeBridge.Target.Type

/-!
# The model

The declarations that a run has found, with at most one for each host type.  A model has them in
three lists, and the types that have one in a list of their own, which is what a new declaration is
held against.  That the lists agree is `Model.Kept`; `add` and `addExternal` keep it and refuse a
second declaration.
-/

namespace TypeBridge

structure Property where
  name : String
  /-- Override text where an override replaces the whole member. -/
  type : TargetType
  optional : Bool := false
  comments : List String := []
deriving Inhabited

structure Method where
  name : String
  params : List (String × TargetType) := []
  /-- Override text where an override replaces the whole member. -/
  result : TargetType
  /-- The parameters of the host's method; overloads differ in it. -/
  arity : Nat
  isStatic : Bool := false
  optional : Bool := false
  comments : List String := []
deriving Inhabited

/-- A declaration with properties and methods. -/
structure Bean where
  source : HostType
  symbol : Symbol
  typeParams : List String := []
  parents : List TargetType := []
  /-- Override text in place of the header. -/
  signature : Option String := none
  properties : List Property := []
  methods : List Method := []
  comments : List String := []

structure EnumMember where
  sourceName : String
  displayName : String
deriving DecidableEq

/-- A declaration of an enumeration, written as a union of literals. -/
structure Enumeration where
  source : HostType
  symbol : Symbol
  /-- Override text in place of the header. -/
  signature : Option String := none
  members : List EnumMember := []
  comments : List String := []

/-- A finished declaration from outside the standard pipeline. -/
structure External where
  source : HostType
  /-- The name by which the declaration is sorted. -/
  name : String
  body : String
deriving DecidableEq

inductive Declaration where
  | bean (bean : Bean)
  | enumeration (enumeration : Enumeration)

namespace Declaration

def source : Declaration → HostType
  | .bean b => b.source
  | .enumeration e => e.source

end Declaration

/-- Each list in the order of discovery. -/
structure Model where
  beans : List Bean := []
  enumerations : List Enumeration := []
  externals : List External := []
  /-- The types that have a declaration, of whatever kind. -/
  claimed : List HostType := []

namespace Model

def empty : Model := {}

/-- The types of the declarations, kind by kind. -/
def sources (m : Model) : List HostType :=
  m.beans.map (·.source) ++ m.enumerations.map (·.source) ++ m.externals.map (·.source)

def Distinct (m : Model) : Prop :=
  m.sources.Nodup

/-- The claimed types are those of the declarations, and no two declarations share one. -/
structure Kept (m : Model) : Prop where
  perm : m.claimed.Perm m.sources
  distinct : m.Distinct

def contains (m : Model) (source : HostType) : Bool :=
  m.claimed.contains source

def size (m : Model) : Nat :=
  m.claimed.length

def isEmpty (m : Model) : Bool :=
  m.claimed.isEmpty

/-- The bean that is written under a name. -/
def bean? (m : Model) (name : String) : Option Bean :=
  m.beans.find? fun b => b.symbol.name == name

/-- The enumeration that is written under a name. -/
def enumeration? (m : Model) (name : String) : Option Enumeration :=
  m.enumerations.find? fun e => e.symbol.name == name

/-! ## Additions -/

/-- A change of a model that may fail.  Behind a failure there is the model as the change left
it. -/
abbrev Change := ExceptT Failure (StateM Model) Unit

/-- Take a type for its only declaration. -/
def claim (source : HostType) : Change := do
  let m ← get
  if m.contains source then
    throw (.alreadyDeclared source)
  else
    set { m with claimed := m.claimed ++ [source] }

/-- The model with a declaration behind those of its kind. -/
def store (m : Model) : Declaration → Model
  | .bean b => { m with beans := m.beans ++ [b] }
  | .enumeration e => { m with enumerations := m.enumerations ++ [e] }

def storeExternal (m : Model) (e : External) : Model :=
  { m with externals := m.externals ++ [e] }

/-- The type of a declaration is claimed before the declaration is stored. -/
def declare (d : Declaration) : Change := do
  claim d.source
  modify (·.store d)

def declareExternal (e : External) : Change := do
  claim e.source
  modify (·.storeExternal e)

/-- The model behind a change that does not fail. -/
def changed (m : Model) (c : Change) : Except Failure Model :=
  match c.run m with
  | (.ok _, later) => .ok later
  | (.error f, _) => .error f

def add (m : Model) (d : Declaration) : Except Failure Model :=
  m.changed (declare d)

def addExternal (m : Model) (e : External) : Except Failure Model :=
  m.changed (declareExternal e)

/-- A claim that fails is the end of a change and leaves the model as it was. -/
theorem run_claim_bind (m : Model) (source : HostType) (next : Unit → Change) :
    (claim source >>= next).run m =
      if m.contains source then (.error (.alreadyDeclared source), m)
      else (next ()).run { m with claimed := m.claimed ++ [source] } := by
  change ExceptT.run ((if m.contains source then throw _ else set _ : Change) >>= next) m = _
  split <;> rfl

theorem run_declare (m : Model) (d : Declaration) :
    (declare d).run m =
      if m.contains d.source then (.error (.alreadyDeclared d.source), m)
      else (.ok (), { m with claimed := m.claimed ++ [d.source] }.store d) :=
  run_claim_bind m d.source _

theorem run_declareExternal (m : Model) (e : External) :
    (declareExternal e).run m =
      if m.contains e.source then (.error (.alreadyDeclared e.source), m)
      else (.ok (), { m with claimed := m.claimed ++ [e.source] }.storeExternal e) :=
  run_claim_bind m e.source _

theorem add_eq (m : Model) (d : Declaration) :
    m.add d =
      if m.contains d.source then .error (.alreadyDeclared d.source)
      else .ok ({ m with claimed := m.claimed ++ [d.source] }.store d) := by
  rw [add, changed, run_declare]
  cases m.contains d.source <;> rfl

theorem addExternal_eq (m : Model) (e : External) :
    m.addExternal e =
      if m.contains e.source then .error (.alreadyDeclared e.source)
      else .ok ({ m with claimed := m.claimed ++ [e.source] }.storeExternal e) := by
  rw [addExternal, changed, run_declareExternal]
  cases m.contains e.source <;> rfl

theorem add_eq_error_iff {m : Model} {d : Declaration} {f : Failure} :
    m.add d = .error f ↔ m.contains d.source = true ∧ f = .alreadyDeclared d.source := by
  rw [add_eq]
  split
  · next h => simp [h, eq_comm]
  · next h => simp [h]

theorem add_eq_ok_iff {m later : Model} {d : Declaration} :
    m.add d = .ok later ↔
      m.contains d.source = false ∧
      later = { m with claimed := m.claimed ++ [d.source] }.store d := by
  rw [add_eq]
  split
  · next h => simp [h]
  · next h => simp [h, eq_comm]

theorem addExternal_eq_ok_iff {m later : Model} {e : External} :
    m.addExternal e = .ok later ↔
      m.contains e.source = false ∧
      later = { m with claimed := m.claimed ++ [e.source] }.storeExternal e := by
  rw [addExternal_eq]
  split
  · next h => simp [h]
  · next h => simp [h, eq_comm]

/-! ## One declaration for each type -/

theorem length_sources (m : Model) :
    m.sources.length = m.beans.length + m.enumerations.length + m.externals.length := by
  simp [sources, Nat.add_assoc]

/-- A declaration that is stored puts one source among the others. -/
theorem sources_store (m : Model) (d : Declaration) :
    (m.store d).sources.Perm (m.sources ++ [d.source]) := by
  rw [List.perm_iff_count]
  intro source
  cases d with
  | bean b =>
    simp only [sources, store, Declaration.source, List.map_append, List.map_cons, List.map_nil,
      List.count_append]
    omega
  | enumeration e =>
    simp only [sources, store, Declaration.source, List.map_append, List.map_cons, List.map_nil,
      List.count_append]
    omega

theorem sources_storeExternal (m : Model) (e : External) :
    (m.storeExternal e).sources = m.sources ++ [e.source] := by
  simp [sources, storeExternal]

theorem sources_add {m later : Model} {d : Declaration} (h : m.add d = .ok later) :
    later.sources.Perm (m.sources ++ [d.source]) := by
  obtain ⟨-, rfl⟩ := add_eq_ok_iff.1 h
  exact sources_store _ d

theorem sources_addExternal {m later : Model} {e : External} (h : m.addExternal e = .ok later) :
    later.sources = m.sources ++ [e.source] := by
  obtain ⟨-, rfl⟩ := addExternal_eq_ok_iff.1 h
  exact sources_storeExternal _ e

theorem Kept.empty : Kept empty :=
  ⟨List.Perm.refl _, List.nodup_nil⟩

theorem Kept.contains_iff {m : Model} (h : m.Kept) {source : HostType} :
    m.contains source = true ↔ source ∈ m.sources := by
  rw [contains, List.contains_iff_mem, h.perm.mem_iff]

/-- What is claimed for a new source keeps a model, if a declaration with it is stored. -/
theorem Kept.of_perm {m later : Model} {source : HostType} (h : m.Kept)
    (hnew : m.contains source = false) (hclaimed : later.claimed = m.claimed ++ [source])
    (hsources : later.sources.Perm (m.sources ++ [source])) : later.Kept := by
  have hfresh : source ∉ m.sources := fun hmem => by
    rw [h.contains_iff.2 hmem] at hnew
    cases hnew
  refine ⟨?_, hsources.nodup_iff.2 (SymbolTable.nodup_append_singleton h.distinct hfresh)⟩
  rw [hclaimed]
  exact (h.perm.append_right [source]).trans hsources.symm

theorem Kept.add {m later : Model} {d : Declaration} (hm : m.Kept) (h : m.add d = .ok later) :
    later.Kept := by
  obtain ⟨hnew, rfl⟩ := add_eq_ok_iff.1 h
  refine hm.of_perm hnew ?_ (sources_add h)
  cases d <;> rfl

theorem Kept.addExternal {m later : Model} {e : External} (hm : m.Kept)
    (h : m.addExternal e = .ok later) : later.Kept := by
  obtain ⟨hnew, rfl⟩ := addExternal_eq_ok_iff.1 h
  exact hm.of_perm hnew rfl (.of_eq (sources_addExternal h))

end Model

end TypeBridge
