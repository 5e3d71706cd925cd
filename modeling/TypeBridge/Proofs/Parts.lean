import TypeBridge.Proofs.Outline

/-!
# Parts of target types

What stands in a target type, and inside which function types (`TargetType.Part`).  The type of an
outline is put together from nested resolutions in the way of its last step, so whatever stands in
it and is not put together itself stands in the type of a nested resolution (`part_ofOpened`,
`part_wrap`).  In particular the type variables of a structural translation are those of its parts
(`variable_structural`).
-/

namespace TypeBridge

/-- `part` stands in a type, inside the function types `fs` of it, innermost first. -/
inductive TargetType.Part (part : TargetType) : TargetType → List TargetType → Prop
  | self : Part part part []
  | argument {symbol : Symbol} {args : List TargetType} {a : TargetType}
      {fs : List TargetType} (ha : a ∈ args)
      (h : Part part a fs) : Part part (.reference symbol args) fs
  | element {e : TargetType} {fs : List TargetType} (h : Part part e fs) : Part part (.array e) fs
  | value {v : TargetType} {fs : List TargetType} (h : Part part v fs) : Part part (.record v) fs
  | param {params : List (String × TargetType)} {result : TargetType} {p : String × TargetType}
      {fs : List TargetType} (hp : p ∈ params) (h : Part part p.2 fs) :
      Part part (.function params result) (fs ++ [.function params result])
  | result {params : List (String × TargetType)} {result : TargetType} {fs : List TargetType}
      (h : Part part result fs) :
      Part part (.function params result) (fs ++ [.function params result])

/-- An array, a record or a function type. -/
def TargetType.isComposite : TargetType → Bool
  | .array _ => true
  | .record _ => true
  | .function .. => true
  | _ => false

variable {u : Universe} {table : SymbolTable} {part : TargetType} {fs : List TargetType}

theorem part_ofOpened (hpart : part.isComposite = false) {o : Functional.Opened}
    {nested : HostType → Outline} (h : part.Part ((Outline.ofOpened o nested).realize table) fs) :
    ∃ t ∈ o.paramTypes ++ [o.resultType], ∃ inner, part.Part ((nested t).realize table) inner ∧
      fs = inner ++ [(Outline.ofOpened o nested).realize table] := by
  unfold Outline.ofOpened at h ⊢
  rw [Outline.realize_function] at h ⊢
  cases h with
  | self => cases hpart
  | param hp h =>
    rename_i p inner
    have hparam := (List.of_mem_zip (show (p.1, p.2) ∈ _ from hp)).2
    rw [List.map_map] at hparam
    obtain ⟨t, ht, htype⟩ := List.mem_map.1 hparam
    refine ⟨t, List.mem_append_left _ ht, inner, ?_, rfl⟩
    rw [← htype] at h
    exact h
  | result h => exact ⟨o.resultType, by simp, _, h, rfl⟩

theorem part_wrap (hpart : part.isComposite = false) {kind : Structural.Container} {o : Outline}
    (h : part.Part ((Outline.wrap kind o).realize table) fs) : part.Part (o.realize table) fs := by
  cases kind with
  | collection =>
    cases h with
    | self => cases hpart
    | element h => exact h
  | map =>
    cases h with
    | self => cases hpart
    | value h => exact h
  | optional => exact h

/-! ## Variables -/

variable {x : String} {nested : HostType → Outline}

theorem not_variable_any : ¬(TargetType.typeVar x).Part (Outline.any.realize table) fs := nofun

theorem variable_application {raw : String} {args : List HostType}
    (h : (TargetType.typeVar x).Part ((Outline.application u nested raw args).realize table) fs) :
    ∃ t ∈ Structural.parts u (.generic raw args),
      (TargetType.typeVar x).Part ((nested t).realize table) fs := by
  unfold Outline.application at h
  unfold Structural.parts
  cases hkind : Structural.Container.ofName? raw with
  | some kind =>
    simp only [hkind] at h ⊢
    have harg := part_wrap rfl h
    cases ha : kind.argument? args with
    | none =>
      rw [ha] at harg
      exact absurd harg not_variable_any
    | some t =>
      rw [ha] at harg
      exact ⟨t, by simp, harg⟩
  | none =>
    simp only [hkind] at h ⊢
    split at h
    · next hcontains =>
      rw [Outline.realize_reference] at h
      cases h with
      | argument ha h =>
        obtain ⟨o, ho, rfl⟩ := List.mem_map.1 ha
        obtain ⟨t, ht, rfl⟩ := List.mem_map.1 ho
        exact ⟨t, by simpa [hcontains] using ht, h⟩
    · exact absurd h not_variable_any

/-- A structural translation adds no variables to those of the parts. -/
theorem variable_structural {type : HostType}
    (h : (TargetType.typeVar x).Part ((Outline.structural u nested type).realize table) fs) :
    type = .typeVar x ∨
      ∃ t ∈ Structural.parts u type, (TargetType.typeVar x).Part ((nested t).realize table) fs := by
  cases type with
  | primitive p => cases h
  | typeVar name =>
    cases h with
    | self => exact .inl rfl
  | array e =>
    cases h with
    | element h => exact .inr ⟨e, List.mem_singleton_self e, h⟩
  | named name =>
    have hparts : Structural.parts u (.generic name []) = [] := Structural.parts_generic_nil u name
    obtain ⟨t, ht, -⟩ := variable_application h
    rw [hparts] at ht
    cases ht
  | generic raw args => exact .inr (variable_application h)

end TypeBridge
