import Mathlib.Data.List.Nodup
import Mathlib.Order.Basic

/-!
# Breadth-first search

`Search` is breadth-first search as a queue is worked off, without a bound.  Where what comes next
to an entry ranks behind it, and in the order of the entries (`Search.Ranked`), a search finds
entries in the order of their ranks (`Search.sorted`), and it finds all that comes next to them,
each with the key's entry of lowest rank (`Search.covers_next`).
-/

namespace TypeBridge

/-- The queue is taken from the front: an entry whose key was visited is passed over; a new one is
found, and what comes next to it goes to the back.  The search comes to an end where there is a list
of what is found. -/
inductive Search {α : Type} (key : α → String) (next : α → List α) :
    List String → List α → List α → Prop
  | done {visited : List String} : Search key next visited [] []
  | skip {visited : List String} {a : α} {queue found : List α} (hkey : key a ∈ visited)
      (h : Search key next visited queue found) : Search key next visited (a :: queue) found
  | visit {visited : List String} {a : α} {queue found : List α} (hkey : key a ∉ visited)
      (h : Search key next (key a :: visited) (queue ++ next a) found) :
      Search key next visited (a :: queue) (a :: found)

namespace Search

variable {α β ρ : Type} {key : α → String} {next : α → List α} {visited : List String}
  {queue found : List α}

/-- There is at most one outcome. -/
theorem unique {other : List α} (h : Search key next visited queue found)
    (h' : Search key next visited queue other) : found = other := by
  induction h generalizing other with
  | done =>
    cases h'
    rfl
  | skip hkey _ ih =>
    cases h' with
    | skip _ h' => exact ih h'
    | visit hnew _ => exact absurd hkey hnew
  | visit hnew _ ih =>
    cases h' with
    | skip hkey _ => exact absurd hkey hnew
    | visit _ h' => rw [ih h']

theorem of_dropWhile
    (h : Search key next visited (queue.dropWhile fun a => visited.contains (key a)) found) :
    Search key next visited queue found := by
  induction queue with
  | nil => exact h
  | cons a rest ih =>
    by_cases hkey : key a ∈ visited
    · rw [List.dropWhile_cons_of_pos (by simpa using hkey)] at h
      exact .skip hkey (ih h)
    · rwa [List.dropWhile_cons_of_neg (by simpa using hkey)] at h

/-- A search through images is the image of a search. -/
theorem exists_of_map {f : β → α} {next' : β → List β}
    (hnext : ∀ b, next (f b) = (next' b).map f) {queue' : List β}
    (h : Search key next visited (queue'.map f) found) :
    ∃ found', Search (key ∘ f) next' visited queue' found' ∧ found = found'.map f := by
  generalize hqueue : queue'.map f = queue at h
  induction h generalizing queue' with
  | done =>
    obtain rfl := List.map_eq_nil_iff.1 hqueue
    exact ⟨[], .done, rfl⟩
  | skip hkey _ ih =>
    obtain ⟨b, rest, rfl, rfl, rfl⟩ := List.map_eq_cons_iff.1 hqueue
    obtain ⟨found', h', rfl⟩ := ih rfl
    exact ⟨found', .skip hkey h', rfl⟩
  | visit hkey _ ih =>
    obtain ⟨b, rest, rfl, rfl, rfl⟩ := List.map_eq_cons_iff.1 hqueue
    have hqueue : (rest ++ next' b).map f = rest.map f ++ next (f b) := by
      rw [List.map_append, hnext]
    obtain ⟨found', h', rfl⟩ := ih hqueue
    exact ⟨b :: found', .visit hkey h', rfl⟩

theorem forall_found {P : α → Prop} (h : Search key next visited queue found)
    (hqueue : ∀ a ∈ queue, P a) (hnext : ∀ a, P a → ∀ b ∈ next a, P b) : ∀ a ∈ found, P a := by
  induction h with
  | done => exact nofun
  | skip _ _ ih => exact ih fun a ha => hqueue a (List.mem_cons_of_mem _ ha)
  | @visit visited a queue found _ _ ih =>
    have ha : P a := hqueue a List.mem_cons_self
    refine List.forall_mem_cons.2 ⟨ha, ih fun b hb => ?_⟩
    rcases List.mem_append.1 hb with hb | hb
    · exact hqueue b (List.mem_cons_of_mem _ hb)
    · exact hnext a ha b hb

theorem nodup_keys (h : Search key next visited queue found) :
    (found.map key).Nodup ∧ ∀ a ∈ found, key a ∉ visited := by
  induction h with
  | done => exact ⟨List.nodup_nil, nofun⟩
  | skip _ _ ih => exact ih
  | @visit visited a queue found hkey _ ih =>
    obtain ⟨hnodup, hnew⟩ := ih
    refine ⟨List.nodup_cons.2 ⟨fun hmem => ?_, hnodup⟩,
      List.forall_mem_cons.2 ⟨hkey, fun b hb hvisited => ?_⟩⟩
    · obtain ⟨b, hb, heq⟩ := List.mem_map.1 hmem
      exact hnew b hb (heq ▸ List.mem_cons_self)
    · exact hnew b hb (List.mem_cons_of_mem _ hvisited)

/-! ### Searches that go up in rank -/

/-- What comes next to an entry ranks behind it, is sorted, is before what comes next to a later
entry, and is before what comes next to any of it. -/
structure Ranked [LT ρ] (next : α → List α) (rank : α → ρ) : Prop where
  lt_next : ∀ a, ∀ b ∈ next a, rank a < rank b
  sorted_next : ∀ a, (next a).Pairwise (rank · < rank ·)
  next_lt_next : ∀ a b, rank a < rank b → ∀ x ∈ next a, ∀ y ∈ next b, rank x < rank y
  next_lt_next_next : ∀ a, ∀ x ∈ next a, ∀ y ∈ next a, ∀ z ∈ next y, rank x < rank z

/-- A queue is sorted, and all of it is before what comes next to any of it. -/
structure Queued [LT ρ] (next : α → List α) (rank : α → ρ) (queue : List α) : Prop where
  sorted : queue.Pairwise (rank · < rank ·)
  lt_next : ∀ a ∈ queue, ∀ b ∈ queue, ∀ x ∈ next b, rank a < rank x

section

variable [Preorder ρ] {rank : α → ρ}

theorem Queued.tail {a : α} (h : Queued next rank (a :: queue)) : Queued next rank queue :=
  ⟨(List.pairwise_cons.1 h.sorted).2,
    fun b hb c hc => h.lt_next b (List.mem_cons_of_mem _ hb) c (List.mem_cons_of_mem _ hc)⟩

theorem Queued.visit (hr : Ranked next rank) {a : α} (h : Queued next rank (a :: queue)) :
    Queued next rank (queue ++ next a) := by
  obtain ⟨hfront, hsorted⟩ := List.pairwise_cons.1 h.sorted
  have hback : ∀ b ∈ queue, ∀ x ∈ next a, rank b < rank x := fun b hb =>
    h.lt_next b (List.mem_cons_of_mem _ hb) a List.mem_cons_self
  refine ⟨List.pairwise_append.2 ⟨hsorted, hr.sorted_next a, hback⟩, fun b hb c hc x hx => ?_⟩
  rcases List.mem_append.1 hb with hb | hb <;> rcases List.mem_append.1 hc with hc | hc
  · exact h.tail.lt_next b hb c hc x hx
  · exact (hback b hb c hc).trans (hr.lt_next c x hx)
  · exact hr.next_lt_next a c (hfront c hc) b hb x hx
  · exact hr.next_lt_next_next a b hb c hc x hx

/-- Everything found behind the first entry of a queue ranks behind it. -/
theorem lt_found (hr : Ranked next rank) {a : α} (hq : Queued next rank (a :: queue))
    (h : Search key next visited (queue ++ next a) found) : ∀ b ∈ found, rank a < rank b := by
  refine h.forall_found (fun b hb => ?_) fun b hb x hx => hb.trans (hr.lt_next b x hx)
  rcases List.mem_append.1 hb with hb | hb
  · exact (List.pairwise_cons.1 hq.sorted).1 b hb
  · exact hr.lt_next a b hb

theorem sorted (hr : Ranked next rank) (hq : Queued next rank queue)
    (h : Search key next visited queue found) : found.Pairwise (rank · < rank ·) := by
  induction h with
  | done => exact List.Pairwise.nil
  | skip _ _ ih => exact ih hq.tail
  | visit _ h ih => exact List.pairwise_cons.2 ⟨lt_found hr hq h, ih (hq.visit hr)⟩

/-- An entry with the key of `a` is found, `a` itself or one before it. -/
def Covers (key : α → String) (rank : α → ρ) (found : List α) (a : α) : Prop :=
  ∃ b ∈ found, key b = key a ∧ (b = a ∨ rank b < rank a)

theorem Covers.cons {a b : α} (h : Covers key rank found a) : Covers key rank (b :: found) a := by
  obtain ⟨c, hc, hcovers⟩ := h
  exact ⟨c, List.mem_cons_of_mem _ hc, hcovers⟩

theorem covers_queue (hr : Ranked next rank) (hq : Queued next rank queue)
    (h : Search key next visited queue found) :
    ∀ a ∈ queue, key a ∈ visited ∨ Covers key rank found a := by
  induction h with
  | done => exact nofun
  | skip hkey _ ih => exact List.forall_mem_cons.2 ⟨.inl hkey, ih hq.tail⟩
  | @visit visited a queue found _ _ ih =>
    refine List.forall_mem_cons.2 ⟨.inr ⟨a, List.mem_cons_self, rfl, .inl rfl⟩, fun b hb => ?_⟩
    rcases ih (hq.visit hr) b (List.mem_append_left _ hb) with hvisited | hcovers
    · rcases List.mem_cons.1 hvisited with heq | hvisited
      · exact .inr ⟨a, List.mem_cons_self, heq.symm, .inr ((List.pairwise_cons.1 hq.sorted).1 b hb)⟩
      · exact .inl hvisited
    · exact .inr hcovers.cons

/-- What comes next to something found was visited before, or is covered by what is found. -/
theorem covers_next (hr : Ranked next rank) (hq : Queued next rank queue)
    (h : Search key next visited queue found) :
    ∀ a ∈ found, ∀ x ∈ next a, key x ∈ visited ∨ Covers key rank found x := by
  induction h with
  | done => exact nofun
  | skip _ _ ih => exact ih hq.tail
  | @visit visited a queue found _ h ih =>
    -- The key in front counts as visited in the rest of the search; its entry ranks before `x` in
    -- either case.
    have hcases : ∀ x, rank a < rank x → (key x ∈ key a :: visited ∨ Covers key rank found x) →
        key x ∈ visited ∨ Covers key rank (a :: found) x := by
      rintro x hlt (hvisited | hcovers)
      · rcases List.mem_cons.1 hvisited with heq | hvisited
        · exact .inr ⟨a, List.mem_cons_self, heq.symm, .inr hlt⟩
        · exact .inl hvisited
      · exact .inr hcovers.cons
    refine List.forall_mem_cons.2 ⟨fun x hx => ?_, fun b hb x hx => ?_⟩
    · exact hcases x (hr.lt_next a x hx)
        (covers_queue hr (hq.visit hr) h x (List.mem_append_right _ hx))
    · exact hcases x ((lt_found hr hq h b hb).trans (hr.lt_next b x hx))
        (ih (hq.visit hr) b hb x hx)

end

end Search

end TypeBridge
