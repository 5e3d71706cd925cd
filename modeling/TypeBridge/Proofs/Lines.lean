import Mathlib.Data.List.DropRight
import TypeBridge.Text.Blank
import TypeBridge.Text.Lines

/-!
# Lines and ends of texts

The pieces of a text are what stands between its line feeds, and its lines are nearly the same: a
line lacks the carriage return of its line break, and an empty piece at the end is no line
(`map_lines_or`).  A text is read line by line by `lineInduction`.

`dropEnds` takes off at both ends what satisfies a predicate.  Trimming a text is of this kind, and
so is the removal of empty lines around a comment.
-/

namespace TypeBridge.Text

variable {s t p a : List Char} {c : Char}

/-! ## Pieces and lines -/

theorem splitAtLineFeed_eq_splitOn (s : List Char) : splitAtLineFeed s = s.splitOn '\n' := by
  induction s with
  | nil => rfl
  | cons c rest ih =>
    rw [splitAtLineFeed, ih, List.splitOn_cons_eq_if_modifyHead]
    by_cases hc : c = '\n'
    · simp [hc]
    · cases hrest : rest.splitOn '\n' with
      | nil => exact absurd (ih.trans hrest) (splitAtLineFeed_ne_nil rest)
      | cons piece pieces => simp [hc]

theorem splitAtLineFeed_of_notMem (h : '\n' ∉ s) : splitAtLineFeed s = [s] := by
  rw [splitAtLineFeed_eq_splitOn, List.splitOn_eq_singleton h]

theorem splitAtLineFeed_append (s t : List Char) :
    splitAtLineFeed (s ++ '\n' :: t) = splitAtLineFeed s ++ splitAtLineFeed t := by
  simp only [splitAtLineFeed_eq_splitOn, List.splitOn_append_cons_self]

theorem splitAtLineFeed_line (h : '\n' ∉ a) (t : List Char) :
    splitAtLineFeed (a ++ '\n' :: t) = a :: splitAtLineFeed t := by
  rw [splitAtLineFeed_append, splitAtLineFeed_of_notMem h, List.singleton_append]

theorem splitAtLineFeed_intercalate {chunks : List (List Char)} (h : chunks ≠ []) :
    splitAtLineFeed (['\n'].intercalate chunks) = chunks.flatMap splitAtLineFeed := by
  induction chunks with
  | nil => exact absurd rfl h
  | cons c rest ih =>
    cases rest with
    | nil => simp
    | cons d rest =>
      rw [List.intercalate_cons_cons, List.append_assoc, List.singleton_append,
        splitAtLineFeed_append, ih (by simp), ← List.flatMap_cons]

/-- Lines with their line feeds, and a text behind them. -/
theorem splitAtLineFeed_lines {α : Type} {f : α → List Char} {items : List α}
    (h : ∀ x ∈ items, '\n' ∉ f x) (t : List Char) :
    splitAtLineFeed ((items.flatMap fun x => f x ++ ['\n']) ++ t) =
      items.map f ++ splitAtLineFeed t := by
  induction items with
  | nil => rfl
  | cons x rest ih =>
    have hrest := ih fun y hy => h y (List.mem_cons_of_mem x hy)
    rw [List.flatMap_cons, List.append_assoc, List.append_assoc, List.singleton_append,
      splitAtLineFeed_line (h x List.mem_cons_self), hrest, List.map_cons, List.cons_append]

theorem lines_of_notMem (h : '\n' ∉ s) : lines s = if s = [] then [] else [s] := by
  rw [lines, splitAtLineFeed_of_notMem h, linesOfPieces]

theorem lines_line (h : '\n' ∉ a) (t : List Char) :
    lines (a ++ '\n' :: t) = dropReturn a :: lines t := by
  obtain ⟨q, qs, hq⟩ := List.exists_cons_of_ne_nil (splitAtLineFeed_ne_nil t)
  rw [lines, lines, splitAtLineFeed_line h, hq, linesOfPieces]

/-- Induction on a text line by line. -/
@[elab_as_elim]
theorem lineInduction {motive : List Char → Prop} (last : ∀ s, '\n' ∉ s → motive s)
    (line : ∀ a t, '\n' ∉ a → motive t → motive (a ++ '\n' :: t)) (s : List Char) : motive s := by
  induction hn : s.length using Nat.strongRecOn generalizing s with
  | ind n ih =>
    by_cases h : '\n' ∈ s
    · obtain ⟨a, t, rfl, ha⟩ := List.eq_append_cons_of_mem h
      refine line a t ha (ih t.length ?_ t rfl)
      simp only [List.length_append, List.length_cons] at hn
      omega
    · exact last s h

theorem dropReturn_sublist (p : List Char) : (dropReturn p).Sublist p := by
  unfold dropReturn
  split
  · exact p.dropLast_sublist
  · exact List.Sublist.refl p

theorem lineFeed_notMem_of_mem_lines (h : p ∈ lines s) : '\n' ∉ p := by
  induction s using lineInduction with
  | last s hs =>
    rw [lines_of_notMem hs] at h
    split at h
    · cases h
    · obtain rfl := List.mem_singleton.1 h
      exact hs
  | line a t ha ih =>
    rw [lines_line ha] at h
    rcases List.mem_cons.1 h with rfl | h
    · exact fun hmem => ha ((dropReturn_sublist a).subset hmem)
    · exact ih h

/-- To a reader who does not see the carriage return of a line break, a text that is not empty and
ends within a line consists of its pieces. -/
theorem map_lines {β : Type} {f : List Char → β} (hf : ∀ p, f (dropReturn p) = f p) (hne : s ≠ [])
    (hend : s.getLast? ≠ some '\n') : (lines s).map f = (splitAtLineFeed s).map f := by
  induction s using lineInduction with
  | last s hs => rw [lines_of_notMem hs, if_neg hne, splitAtLineFeed_of_notMem hs]
  | line a t ha ih =>
    have ht : t ≠ [] := by
      rintro rfl
      simp at hend
    have htend : t.getLast? ≠ some '\n' := by
      obtain ⟨c, u, rfl⟩ := List.exists_cons_of_ne_nil ht
      simpa using hend
    rw [lines_line ha, splitAtLineFeed_line ha, List.map_cons, List.map_cons, hf, ih ht htend]

/-- Any other text has an empty piece more at its end. -/
theorem map_lines_or {β : Type} {f : List Char → β}
    (hf : ∀ p, f (dropReturn p) = f p) (s : List Char) :
    (splitAtLineFeed s).map f = (lines s).map f ∨
    (splitAtLineFeed s).map f = (lines s).map f ++ [f []] := by
  induction s using lineInduction with
  | last s hs =>
    rw [lines_of_notMem hs, splitAtLineFeed_of_notMem hs]
    by_cases hne : s = []
    · subst hne
      exact .inr rfl
    · rw [if_neg hne]
      exact .inl rfl
  | line a t ha ih =>
    rw [lines_line ha, splitAtLineFeed_line ha, List.map_cons, List.map_cons, hf, List.cons_append]
    exact ih.imp (congrArg _) (congrArg _)

/-! ## Both ends of a list -/

section

variable {α : Type} {q : α → Bool} {xs ys front back : List α}

/-- A list without what a predicate takes off at either end.  Both `trim` and the removal of empty
lines are of this kind. -/
def dropEnds (q : α → Bool) (xs : List α) : List α :=
  (xs.dropWhile q).rdropWhile q

theorem dropEnds_sublist (q : α → Bool) (xs : List α) : (dropEnds q xs).Sublist xs :=
  ((List.rdropWhile_prefix q _).sublist).trans (List.dropWhile_sublist q)

theorem dropEnds_eq_nil_iff : dropEnds q xs = [] ↔ ∀ x ∈ xs, q x = true := by
  rw [dropEnds, List.rdropWhile_eq_nil_iff, ← List.dropWhile_eq_nil_iff, List.dropWhile_idempotent,
    List.dropWhile_eq_nil_iff]

theorem rdropWhile_append_of_pos (h : ∀ y ∈ ys, q y = true) :
    (xs ++ ys).rdropWhile q = xs.rdropWhile q := by
  unfold List.rdropWhile
  rw [List.reverse_append, List.dropWhile_append_of_pos fun y hy => h y (List.mem_reverse.1 hy)]

theorem dropEnds_append_left (h : ∀ x ∈ front, q x = true) (xs : List α) :
    dropEnds q (front ++ xs) = dropEnds q xs := by
  rw [dropEnds, List.dropWhile_append_of_pos h, dropEnds]

theorem dropEnds_append_right (h : ∀ x ∈ back, q x = true) (xs : List α) :
    dropEnds q (xs ++ back) = dropEnds q xs := by
  rw [dropEnds, List.dropWhile_append]
  split
  · next hnone => rw [List.dropWhile_eq_nil_iff.2 h, dropEnds, List.isEmpty_iff.1 hnone]
  · exact rdropWhile_append_of_pos h

/-- Between two lists of which something stays everything stays. -/
theorem dropEnds_between (hfront : dropEnds q front ≠ []) (hback : dropEnds q back ≠ [])
    (middle : List α) :
    dropEnds q (front ++ middle ++ back) = front.dropWhile q ++ middle ++ back.rdropWhile q := by
  rw [Ne, dropEnds_eq_nil_iff] at hfront hback
  have hstart : front.dropWhile q ≠ [] := fun h => hfront (List.dropWhile_eq_nil_iff.1 h)
  have hend : back.reverse.dropWhile q ≠ [] := fun h =>
    hback fun x hx => List.dropWhile_eq_nil_iff.1 h x (List.mem_reverse.2 hx)
  unfold dropEnds List.rdropWhile
  simp [List.dropWhile_append, List.reverse_append, hstart, hend]

theorem dropEnds_eq_self_iff : dropEnds q xs = xs ↔ xs.dropWhile q = xs ∧ xs.rdropWhile q = xs := by
  constructor
  · intro h
    have hend : (dropEnds q xs).length ≤ (xs.dropWhile q).length :=
      (List.rdropWhile_prefix q _).length_le
    rw [h] at hend
    have hstart : xs.dropWhile q = xs := (List.dropWhile_sublist q).eq_of_length_le hend
    refine ⟨hstart, ?_⟩
    rwa [dropEnds, hstart] at h
  · rintro ⟨hstart, hend⟩
    rw [dropEnds, hstart, hend]

theorem dropEnds_of_forall_not (h : ∀ x ∈ xs, q x = false) : dropEnds q xs = xs := by
  have hstart : xs.dropWhile q = xs := List.dropWhile_eq_self_iff.2 fun hpos => by
    simp [h _ (List.getElem_mem hpos)]
  have hend : xs.rdropWhile q = xs := List.rdropWhile_eq_self_iff.2 fun hne => by
    simp [h _ (List.getLast_mem hne)]
  exact dropEnds_eq_self_iff.2 ⟨hstart, hend⟩

/-- What is not taken off stays. -/
theorem mem_dropWhile_of_not {x : α} (hx : x ∈ xs) (hq : q x = false) : x ∈ xs.dropWhile q := by
  rw [← List.takeWhile_append_dropWhile (p := q) (l := xs)] at hx
  refine (List.mem_append.1 hx).resolve_left fun htaken => ?_
  rw [List.mem_takeWhile_imp htaken] at hq
  cases hq

theorem mem_dropEnds_of_not {x : α} (hx : x ∈ xs) (hq : q x = false) : x ∈ dropEnds q xs := by
  have hstart := List.mem_reverse.2 (mem_dropWhile_of_not hx hq)
  exact List.mem_reverse.2 (mem_dropWhile_of_not hstart hq)

theorem dropWhile_eq_self_of_front (h : xs.dropWhile q = xs) (hys : ys <+: xs) :
    ys.dropWhile q = ys := by
  obtain ⟨rest, rfl⟩ := hys
  cases ys with
  | nil => rfl
  | cons y ys =>
    have hy : ¬q y = true := List.dropWhile_eq_self_iff.1 h (by simp)
    simp [hy]

theorem dropEnds_dropEnds (q : α → Bool) (xs : List α) :
    dropEnds q (dropEnds q xs) = dropEnds q xs := by
  have hstart : (xs.dropWhile q).dropWhile q = xs.dropWhile q := List.dropWhile_idempotent ..
  exact dropEnds_eq_self_iff.2
    ⟨dropWhile_eq_self_of_front hstart (List.rdropWhile_prefix ..), List.rdropWhile_idempotent ..⟩

theorem exists_ends_of_dropEnds_eq (h : dropEnds q xs = xs) (hne : xs ≠ []) :
    (∃ x t, xs = x :: t ∧ q x = false) ∧ ∃ t x, xs = t ++ [x] ∧ q x = false := by
  obtain ⟨hstart, hend⟩ := dropEnds_eq_self_iff.1 h
  constructor
  · obtain ⟨x, t, rfl⟩ := List.exists_cons_of_ne_nil hne
    have hx := List.dropWhile_eq_self_iff.1 hstart (by simp)
    exact ⟨x, t, rfl, by simpa using hx⟩
  · have hlast := List.rdropWhile_eq_self_iff.1 hend hne
    exact ⟨xs.dropLast, xs.getLast hne,
      (List.dropLast_concat_getLast hne).symm, by simpa using hlast⟩

theorem dropWhile_sublist_dropWhile (h : xs.Sublist ys) :
    (xs.dropWhile q).Sublist (ys.dropWhile q) := by
  induction h with
  | slnil => exact List.Sublist.refl _
  | @cons xs ys y h ih =>
    rw [List.dropWhile_cons]
    split
    · exact ih
    · exact ((List.dropWhile_sublist q).trans h).cons y
  | @cons_cons xs ys y h ih =>
    rw [List.dropWhile_cons, List.dropWhile_cons]
    split
    · exact ih
    · exact h.cons_cons y

end

/-! ## Trimming -/

theorem trim_eq_dropEnds (s : List Char) : trim s = dropEnds isBlank s :=
  rfl

theorem trim_blank_append {b : List Char} (h : ∀ c ∈ b, isBlank c = true) (s : List Char) :
    trim (b ++ s) = trim s :=
  dropEnds_append_left h s

theorem trim_dropReturn (p : List Char) : trim (dropReturn p) = trim p := by
  unfold dropReturn
  split
  · next h =>
    obtain ⟨front, rfl⟩ := List.getLast?_eq_some_iff.1 h
    rw [List.dropLast_concat, trim_eq_dropEnds, trim_eq_dropEnds,
      dropEnds_append_right (List.forall_mem_singleton.2 rfl)]
  · rfl

theorem trimStart_cons (hc : isBlank c = false) (s : List Char) : trimStart (c :: s) = c :: s := by
  simp [trimStart, hc]

theorem trim_of_ends {d : Char} (hc : isBlank c = false) (hd : isBlank d = false) (s : List Char) :
    trim (c :: (s ++ [d])) = c :: (s ++ [d]) := by
  rw [trim, trimStart_cons hc, ← List.cons_append, trimEnd_concat hd]

theorem dropLeading_eq_self {start : List Char} (h : ¬start <+: s) : dropLeading start s = s := by
  rw [dropLeading, if_neg (by simpa using h)]

theorem dropTrailing_eq_self {finish : List Char} (h : ¬finish <:+ s) :
    dropTrailing finish s = s := by
  rw [dropTrailing, if_neg (by simpa using h)]

theorem dropLeading_sublist (start s : List Char) : (dropLeading start s).Sublist s := by
  unfold dropLeading
  split
  · exact List.drop_sublist ..
  · exact List.Sublist.refl s

theorem dropTrailing_sublist (finish s : List Char) : (dropTrailing finish s).Sublist s := by
  unfold dropTrailing
  split
  · exact List.take_sublist ..
  · exact List.Sublist.refl s

end TypeBridge.Text
