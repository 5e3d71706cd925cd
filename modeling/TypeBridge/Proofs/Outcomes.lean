/-!
# Outcomes

An outcome put together from others, taken apart: which parts have had values, or which one has
failed first.
-/

namespace TypeBridge

variable {α β ε : Type}

theorem except_map_eq_ok {x : Except ε α} {f : α → β} {b : β} :
    x.map f = .ok b ↔ ∃ a, x = .ok a ∧ f a = b := by
  cases x <;> simp [Except.map]

theorem except_map_eq_error {x : Except ε α} {f : α → β} {e : ε} :
    x.map f = .error e ↔ x = .error e := by
  cases x <;> simp [Except.map]

theorem except_mapError_eq_ok {ε' : Type} {x : Except ε α} {f : ε → ε'} {a : α} :
    x.mapError f = .ok a ↔ x = .ok a := by
  cases x with
  | ok b =>
    change Except.ok b = Except.ok a ↔ _
    rw [Except.ok.injEq, Except.ok.injEq]
  | error e => exact iff_of_false nofun nofun

theorem except_mapError_eq_error {ε' : Type} {x : Except ε α} {f : ε → ε'} {e : ε'} :
    x.mapError f = .error e ↔ ∃ e', x = .error e' ∧ f e' = e := by
  cases x with
  | ok b => exact iff_of_false nofun (fun ⟨_, h, _⟩ => nomatch h)
  | error e' =>
    change Except.error (f e') = .error e ↔ _
    simp

theorem except_bind_eq_ok {x : Except ε α} {f : α → Except ε β} {b : β} :
    (x >>= f) = .ok b ↔ ∃ a, x = .ok a ∧ f a = .ok b := by
  cases x <;> simp [bind, Except.bind]

theorem except_bind_eq_error {x : Except ε α} {f : α → Except ε β} {e : ε} :
    (x >>= f) = .error e ↔ x = .error e ∨ ∃ a, x = .ok a ∧ f a = .error e := by
  cases x <;> simp [bind, Except.bind]

/-- A list of outcomes, each kept with what it is the outcome of. -/
theorem mapM_tagged {f : α → Except ε β} {xs : List α} {ys : List (α × β)}
    (h : (xs.mapM fun x => (f x).map (x, ·)) = .ok ys) :
    ys.map Prod.fst = xs ∧ ∀ y ∈ ys, f y.1 = .ok y.2 := by
  induction xs generalizing ys with
  | nil =>
    cases h
    exact ⟨rfl, fun y hy => nomatch hy⟩
  | cons x rest ih =>
    rw [List.mapM_cons] at h
    obtain ⟨y, hy, h⟩ := except_bind_eq_ok.1 h
    obtain ⟨zs, hzs, h⟩ := except_bind_eq_ok.1 h
    obtain ⟨b, hb, rfl⟩ := except_map_eq_ok.1 hy
    obtain ⟨hfst, hall⟩ := ih hzs
    cases h
    refine ⟨congrArg (x :: ·) hfst, fun y hy => ?_⟩
    rcases List.mem_cons.1 hy with rfl | hy
    · exact hb
    · exact hall y hy

theorem mapM_tagged_map {γ : Type} (f : α → Except ε β) (g : α → β → γ) (xs : List α) :
    (xs.mapM fun x => (f x).map (x, ·)).map (List.map fun p => g p.1 p.2) = xs.mapM fun x =>
      (f x).map (g x) := by
  induction xs with
  | nil => rfl
  | cons x rest ih =>
    rw [List.mapM_cons, List.mapM_cons, ← ih]
    cases f x with
    | error e => rfl
    | ok y => cases rest.mapM fun x => (f x).map (x, ·) <;> rfl

/-! ## First failures -/

/-- The first member of a list that `R` relates to anything, it relates to `y`. -/
def First (R : α → β → Prop) (xs : List α) (y : β) : Prop :=
  ∃ front x behind, xs = front ++ x :: behind ∧ (∀ z ∈ front, ∀ w, ¬R z w) ∧ R x y

section First

variable {R : α → β → Prop} {x : α} {xs ys : List α} {y : β}

theorem First.exists_mem (h : First R xs y) : ∃ x ∈ xs, R x y := by
  obtain ⟨front, x, behind, rfl, -, hxy⟩ := h
  exact ⟨x, List.mem_append_right _ List.mem_cons_self, hxy⟩

theorem first_congr {S : α → β → Prop} (h : ∀ x y, R x y ↔ S x y) :
    First R xs y ↔ First S xs y := by
  simp only [First, h]

theorem not_first_nil : ¬First R [] y := by
  intro h
  obtain ⟨x, hx, -⟩ := h.exists_mem
  cases hx

theorem first_append (hxs : ∀ x ∈ xs, ∀ w, ¬R x w) : First R (xs ++ ys) y ↔ First R ys y := by
  constructor
  · rintro ⟨front, x, behind, hsplit, hfront, hxy⟩
    rcases List.append_eq_append_iff.1 hsplit with ⟨more, rfl, rfl⟩ | ⟨more, rfl, hbehind⟩
    · exact ⟨more, x, behind, rfl, fun z hz => hfront z (List.mem_append_right _ hz), hxy⟩
    · cases more with
      | nil => exact ⟨[], x, behind, hbehind.symm, nofun, hxy⟩
      | cons z more =>
        obtain rfl : x = z := (List.cons.inj hbehind).1
        exact absurd hxy (hxs x (by simp) y)
  · rintro ⟨front, x, behind, rfl, hfront, hxy⟩
    refine ⟨xs ++ front, x, behind, (List.append_assoc ..).symm, fun z hz => ?_, hxy⟩
    exact (List.mem_append.1 hz).elim (hxs z) (hfront z)

theorem first_cons : First R (x :: xs) y ↔ R x y ∨ (∀ w, ¬R x w) ∧ First R xs y := by
  constructor
  · rintro ⟨front, z, behind, hsplit, hfront, hzy⟩
    cases front with
    | nil =>
      obtain rfl : x = z := (List.cons.inj hsplit).1
      exact .inl hzy
    | cons a front =>
      obtain ⟨rfl, rfl⟩ := List.cons.inj hsplit
      refine .inr ⟨hfront x List.mem_cons_self, front, z, behind, rfl, fun w hw => ?_, hzy⟩
      exact hfront w (List.mem_cons_of_mem x hw)
  · rintro (hxy | ⟨hnone, hrest⟩)
    · exact ⟨[], x, xs, rfl, nofun, hxy⟩
    · have hfront : ∀ z ∈ [x], ∀ w, ¬R z w := by simpa using hnone
      exact (first_append hfront).2 hrest

theorem exists_first (hx : x ∈ xs) (hxy : R x y) : ∃ w, First R xs w := by
  induction xs with
  | nil => cases hx
  | cons z rest ih =>
    by_cases hz : ∃ w, R z w
    · obtain ⟨w, hw⟩ := hz
      exact ⟨w, first_cons.2 (.inl hw)⟩
    · rcases List.mem_cons.1 hx with rfl | hx
      · exact absurd ⟨y, hxy⟩ hz
      · obtain ⟨w, hw⟩ := ih hx
        exact ⟨w, first_cons.2 (.inr ⟨fun w hzw => hz ⟨w, hzw⟩, hw⟩)⟩

end First

/-- Outcomes taken one after the other fail as the first of them that fails. -/
theorem mapM_eq_error_iff {f : α → Except ε β} {xs : List α} {e : ε} :
    xs.mapM f = .error e ↔ First (fun x e => f x = .error e) xs e := by
  induction xs with
  | nil => exact iff_of_false nofun not_first_nil
  | cons x rest ih =>
    rw [List.mapM_cons, first_cons, ← ih]
    cases hx : f x with
    | error g => simp [bind, Except.bind]
    | ok b => cases hrest : rest.mapM f <;> simp [bind, Except.bind, pure, Except.pure]

end TypeBridge
