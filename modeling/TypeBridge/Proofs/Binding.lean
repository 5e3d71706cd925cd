import Mathlib.Data.List.Forall2
import TypeBridge.Proofs.Outcomes
import TypeBridge.Proofs.Subterm
import TypeBridge.Universe.Decode

/-!
# Type parameters in declarations

A declaration writes types in its super types and its members and in the tags on them, each in the
scope of the type parameters of the class and, in a method, of those of the method
(`ClassDecl.memberTypes`).  Binding makes a type variable of every part of such a type that is a
bare name in scope (`ScopedType.binds_bind`).  Whatever comes into a universe is bound, loaded or
inserted, so no part of a member's type is the bare name of a type parameter there
(`type_params_bound`).

The types that the tags on the class itself and on its constructors bring along
(`ClassDecl.looseTypes`) are not bound: the name of a type parameter stays a class in them
(`not_all_type_params_bound`).
-/

namespace TypeBridge

namespace HostType

mutual

theorem subterms_bind (params : List String) :
    ∀ t : HostType, (t.bind params).subterms = t.subterms.map (·.bind params)
  | .named n => by
    by_cases hn : n ∈ params
    · simp [bind, subterms, hn]
    · simp [bind, subterms, hn]
  | .generic r args => by simp [bind, subterms, subtermsAll_bindAll params args]
  | .array e => by simp [bind, subterms, subterms_bind params e]
  | .primitive _ => rfl
  | .typeVar _ => rfl

theorem subtermsAll_bindAll (params : List String) :
    ∀ ts : List HostType, subtermsAll (bindAll params ts) = (subtermsAll ts).map (·.bind params)
  | [] => rfl
  | t :: ts => by simp [bindAll, subtermsAll, subterms_bind params t, subtermsAll_bindAll params ts]

end

theorem bind_ne_named {params : List String} {n : String} (hn : n ∈ params) (t : HostType) :
    t.bind params ≠ .named n := by
  cases t with
  | named m =>
    unfold bind
    split
    · exact nofun
    · next hm =>
      rintro ⟨⟩
      exact hm hn
  | _ => simp [bind]

end HostType

/-! ## Types in scopes -/

/-- A type with the type parameters that it may use. -/
structure ScopedType where
  scope : List String
  type : HostType
deriving DecidableEq

namespace ScopedType

/-- No part of the type is the bare name of a type parameter in scope. -/
def Closed (s : ScopedType) : Prop :=
  ∀ n ∈ s.scope, .named n ∉ s.type.subterms

/-- Of the same scope and as many parts, with a type variable for every bare name in scope and for
no other. -/
structure Binds (s s' : ScopedType) : Prop where
  scope : s'.scope = s.scope
  length : s'.type.subterms.length = s.type.subterms.length
  typeVar : ∀ n ∈ s.scope, ∀ i : Nat, s.type.subterms[i]? = some (HostType.named n) →
    s'.type.subterms[i]? = some (HostType.typeVar n)
  named : ∀ n ∉ s.scope, ∀ i : Nat, s.type.subterms[i]? = some (HostType.named n) →
    s'.type.subterms[i]? = some (HostType.named n)

def bind (s : ScopedType) : ScopedType :=
  ⟨s.scope, s.type.bind s.scope⟩

theorem closed_bind (s : ScopedType) : s.bind.Closed := by
  intro n hn hmem
  obtain ⟨part, -, hpart⟩ := List.mem_map.1 (HostType.subterms_bind s.scope s.type ▸ hmem)
  exact HostType.bind_ne_named hn part hpart

theorem binds_bind (s : ScopedType) : s.Binds s.bind where
  scope := rfl
  length := by simp [bind, HostType.subterms_bind]
  typeVar n hn i hi := by simp [bind, HostType.subterms_bind, hi, HostType.bind, hn]
  named n hn i hi := by simp [bind, HostType.subterms_bind, hi, HostType.bind, hn]

end ScopedType

/-! ## Types in declarations -/

/-- The types that tags bring along. -/
def OverrideTag.scopedTypes (scope : List String) (tags : List OverrideTag) : List ScopedType :=
  (tags.flatMap (·.extraTypes)).map (⟨scope, ·⟩)

def FieldDecl.scopedTypes (params : List String) (f : FieldDecl) : List ScopedType :=
  ⟨params, f.type⟩ :: OverrideTag.scopedTypes params f.tags

def MethodDecl.scopedTypes (params : List String) (m : MethodDecl) : List ScopedType :=
  let scope := params ++ m.typeParams
  ⟨scope, m.returnType⟩ :: m.params.map (⟨scope, ·.type⟩) ++ OverrideTag.scopedTypes scope m.tags

/-- Without the types of the constructor's tags. -/
def ConstructorDecl.scopedTypes (params : List String) (c : ConstructorDecl) : List ScopedType :=
  c.params.map (⟨params, ·.type⟩)

namespace ClassDecl

/-- The types written in the super types and the members, without those of the tags on
constructors. -/
def memberTypes (d : ClassDecl) : List ScopedType :=
  d.superTypes.map (⟨d.typeParams, ·⟩) ++ d.fields.flatMap (·.scopedTypes d.typeParams) ++
    d.methods.flatMap (·.scopedTypes d.typeParams) ++
      d.constructors.flatMap (·.scopedTypes d.typeParams)

/-- The types that the tags on the class and on its constructors bring along. -/
def looseTypes (d : ClassDecl) : List ScopedType :=
  OverrideTag.scopedTypes d.typeParams d.tags ++
    d.constructors.flatMap (OverrideTag.scopedTypes d.typeParams ·.tags)

end ClassDecl

theorem OverrideTag.scopedTypes_bind (scope : List String) (tags : List OverrideTag) :
    OverrideTag.scopedTypes scope (tags.map (·.bind scope)) =
      (OverrideTag.scopedTypes scope tags).map (·.bind) := by
  have hextra (tag : OverrideTag) :
      (tag.bind scope).extraTypes = tag.extraTypes.map (·.bind scope) := by
    cases tag <;> rfl
  simp only [scopedTypes, List.flatMap_map, hextra, List.map_flatMap, List.map_map]
  rfl

theorem FieldDecl.scopedTypes_bind (params : List String) (f : FieldDecl) :
    (f.bind params).scopedTypes params = (f.scopedTypes params).map (·.bind) := by
  simp [scopedTypes, FieldDecl.bind, OverrideTag.scopedTypes_bind, ScopedType.bind]

theorem MethodDecl.scopedTypes_bind (params : List String) (m : MethodDecl) :
    (m.bind params).scopedTypes params = (m.scopedTypes params).map (·.bind) := by
  simp [scopedTypes, MethodDecl.bind, OverrideTag.scopedTypes_bind, ScopedType.bind, ParamDecl.bind]

theorem ConstructorDecl.scopedTypes_bind (params : List String) (c : ConstructorDecl) :
    (c.bind params).scopedTypes params = (c.scopedTypes params).map (·.bind) := by
  simp [scopedTypes, ConstructorDecl.bind, ScopedType.bind, ParamDecl.bind]

namespace ClassDecl

theorem memberTypes_bind (d : ClassDecl) : d.bind.memberTypes = d.memberTypes.map (·.bind) := by
  simp [memberTypes, ClassDecl.bind, List.flatMap_map, List.map_flatMap, FieldDecl.scopedTypes_bind,
    MethodDecl.scopedTypes_bind, ConstructorDecl.scopedTypes_bind, ScopedType.bind]

theorem looseTypes_bind (d : ClassDecl) : d.bind.looseTypes = d.looseTypes := by
  simp [looseTypes, ClassDecl.bind, ConstructorDecl.bind, List.flatMap_map]

end ClassDecl

/-! ## Universes -/

theorem Json.decode_map {α β : Type} (f : α → β) (decoder : Decoder α) (text : String) :
    Json.decode (fun v => f <$> decoder v) text = (Json.decode decoder text).map f := by
  unfold Json.decode
  obtain ⟨v, behind⟩ := Json.read text
  dsimp only
  cases decoder v with
  | error e => rfl
  | ok a =>
    cases behind with
    | none => rfl
    | some rest =>
      change (if rest.all Json.isBlank then Except.ok (f a) else .error DecodeError.malformed) =
        (if rest.all Json.isBlank then Except.ok a else .error DecodeError.malformed).map f
      split <;> rfl

namespace Universe

/-- The classes of a JSON text as they are written. -/
def written (json : String) : Except DecodeError (List ClassDecl) :=
  Json.decode shape.decode json

theorem ofJson_eq_ok_iff {json : String} {u : Universe} :
    ofJson json = .ok u ↔ ∃ ds, written json = .ok ds ∧ ofClasses ds = u := by
  rw [← except_map_eq_ok, written, ← Json.decode_map]
  rfl

theorem mem_classes_foldl_insert {ds : List ClassDecl} {u : Universe} {c : ClassDecl}
    (h : c ∈ (ds.foldl insert u).classes) : c ∈ u.classes ∨ ∃ d ∈ ds, d.bind = c := by
  induction ds generalizing u with
  | nil => exact .inl h
  | cons d ds ih =>
    rcases ih h with h | ⟨e, he, rfl⟩
    · rcases mem_insertByName h with rfl | h
      · exact .inr ⟨d, List.mem_cons_self, rfl⟩
      · exact .inl h
    · exact .inr ⟨e, List.mem_cons_of_mem d he, rfl⟩

end Universe

/-- **Type parameters are bound** in the super types and members of every class, from wherever it
came into the universe; what the tags on the class and its constructors bring along stays as it is
written. -/
theorem type_params_bound {json : String} {u : Universe} (hu : Universe.ofJson json = .ok u)
    (inserted : List ClassDecl) {c : ClassDecl}
    (hc : c ∈ (inserted.foldl Universe.insert u).classes) :
    (∀ s ∈ c.memberTypes, s.Closed) ∧
      ∃ ds, Universe.written json = .ok ds ∧ ∃ d ∈ ds ++ inserted, d.name = c.name ∧
        List.Forall₂ ScopedType.Binds d.memberTypes c.memberTypes ∧
        c.looseTypes = d.looseTypes := by
  obtain ⟨ds, hds, rfl⟩ := Universe.ofJson_eq_ok_iff.1 hu
  obtain ⟨d, hd, rfl⟩ : ∃ d ∈ ds ++ inserted, d.bind = c := by
    apply (Universe.mem_classes_foldl_insert (u := {}) ?_).resolve_left List.not_mem_nil
    rwa [List.foldl_append]
  rw [d.memberTypes_bind]
  refine ⟨fun s hs => ?_, ds, hds, d, hd, rfl, ?_, d.looseTypes_bind⟩
  · obtain ⟨s, -, rfl⟩ := List.mem_map.1 hs
    exact s.closed_bind
  · rw [List.forall₂_map_right_iff]
    exact List.forall₂_same.2 fun s _ => s.binds_bind

/-- The text of a class that mentions its type parameter in a tag. -/
def boxText : String :=
  "\x7b\"classes\":\x7b\"A\":\x7b\"type_params\":[\"T\"]," ++
    "\"tags\":[\x7b\"verbatim\":\x7b\"extra_types\":[\"T\"]\x7d\x7d]\x7d\x7d\x7d"

def boxDecl : ClassDecl where
  name := "A"
  typeParams := ["T"]
  tags := [.verbatim "" [.named "T"]]

theorem ofJson_boxText : Universe.ofJson boxText = .ok (Universe.ofClasses [boxDecl]) := by
  have hwritten : Universe.written boxText = .ok [boxDecl] := by decide +kernel
  exact Universe.ofJson_eq_ok_iff.2 ⟨[boxDecl], hwritten, rfl⟩

/-- An interface with a method that has a type parameter of its own. -/
def mapperDecl : ClassDecl where
  name := "M"
  kind := .interface
  typeParams := ["T"]
  methods :=
    [{ name := "map", returnType := .generic "List" [.named "R"],
       params := [{ type := .array (.named "T") }], typeParams := ["R"],
       tags := [.verbatim "Mapped" [.generic "T" [.named "T", .named "R"]]] }]

theorem type_params_bound_mapper :
    mapperDecl.bind ∈ ([mapperDecl].foldl Universe.insert (Universe.ofClasses [boxDecl])).classes ∧
      mapperDecl.bind.memberTypes.length = 3 ∧ ∀ s ∈ mapperDecl.bind.memberTypes, s.Closed := by
  have hmem :
      mapperDecl.bind ∈
        ([mapperDecl].foldl Universe.insert (Universe.ofClasses [boxDecl])).classes := by
    decide
  exact ⟨hmem, by decide, (type_params_bound ofJson_boxText [mapperDecl] hmem).1⟩

/-- What the tags on a class and on its constructors bring along may keep the bare name of a type
parameter. -/
theorem not_all_type_params_bound :
    ¬∀ (json : String) (u : Universe) (inserted : List ClassDecl), Universe.ofJson json = .ok u →
      ∀ c ∈ (inserted.foldl Universe.insert u).classes, ∀ s ∈ c.memberTypes ++ c.looseTypes,
        s.Closed := by
  intro h
  have hmem : boxDecl.bind ∈ (Universe.ofClasses [boxDecl]).classes := by decide
  have hclosed := h boxText _ [] ofJson_boxText boxDecl.bind hmem ⟨["T"], .named "T"⟩ (by decide)
  exact hclosed "T" List.mem_cons_self (HostType.self_mem_subterms _)

end TypeBridge
