import TypeBridge.Proofs.Comments

/-!
# Terminators in the text of a comment

A comment ends at the first terminator in its block, so its text must not have one.  The lines of a
comment are written as they are harvested.  Harvesting takes away a terminator at the end of a line,
and the star of one at the start, where it counts as a sign that opens or continues a comment.  A
terminator at any other place stays (`endsInside_iff`), and only these end a block too early
(`closedOnce_block_harvest_iff`).
-/

namespace TypeBridge.Comment

open Text

/-- What ends a comment. -/
def terminator : List Char :=
  ['*', '/']

/-- The text of a comment with one terminator, in front of the line feed that it ends with. -/
def ClosedOnce (s : List Char) : Prop :=
  (∃ front, s = front ++ terminator ++ ['\n']) ∧ ∀ front back,
    s = front ++ terminator ++ back → back = ['\n']

/-- A terminator stands in the text, behind `front`. -/
def TerminatorAt (front s : List Char) : Prop :=
  front ++ terminator <+: s

/-- The starts of a line behind which the star of a terminator counts as a sign that opens or
continues a comment. -/
def TakesStar (front : List Char) : Prop :=
  front = [] ∨ front = ['/', '*'] ∨ ∃ blanks, AllBlank blanks = true ∧
    front = ['/', '*', '*'] ++ blanks

/-- A raw line has a terminator that is neither at its end nor loses its star. -/
def EndsInside (line : List Char) : Prop :=
  ∃ front, ¬TakesStar front ∧ TerminatorAt front (trim line) ∧ trim line ≠ front ++ terminator

section

variable {s t front : List Char} {c : Char}

theorem terminator_infix_iff : terminator <:+: s ↔ ∃ front, TerminatorAt front s := by
  constructor
  · rintro ⟨front, back, h⟩
    exact ⟨front, back, h⟩
  · rintro ⟨front, back, h⟩
    exact ⟨front, back, h⟩

/-! ## Terminators in what is cut -/

theorem terminatorAt_cons_cons {d : Char} :
    TerminatorAt (c :: front) (d :: s) ↔ c = d ∧ TerminatorAt front s :=
  List.cons_prefix_cons

theorem terminatorAt_trimEnd : TerminatorAt front (trimEnd s) ↔ TerminatorAt front s := by
  constructor
  · exact fun h => h.trans (List.rdropWhile_prefix isBlank s)
  · rintro ⟨back, rfl⟩
    induction back using List.reverseRecOn with
    | nil =>
      have hkept : trimEnd (front ++ ['*'] ++ ['/']) = front ++ ['*'] ++ ['/'] :=
        trimEnd_concat (by decide)
      simp only [List.append_assoc, List.cons_append, List.nil_append] at hkept
      rw [List.append_nil, terminator, hkept]
      exact List.prefix_refl _
    | append_singleton back c ih =>
      rw [← List.append_assoc]
      by_cases hc : isBlank c = true
      · have hcut : trimEnd (front ++ terminator ++ back ++ [c]) =
            trimEnd (front ++ terminator ++ back) :=
          List.rdropWhile_concat_pos isBlank _ c hc
        rw [hcut]
        exact ih
      · rw [trimEnd_concat (by simpa using hc), List.append_assoc]
        exact List.prefix_append ..

/-- The blanks at the start of a text stand in front of every terminator. -/
theorem TerminatorAt.takeWhile_prefix (h : TerminatorAt front s) :
    s.takeWhile isBlank <+: front := by
  obtain ⟨back, rfl⟩ := h
  have hstar : isBlank '*' = false := by decide
  rw [List.append_assoc, List.takeWhile_append]
  split
  · simp [terminator, hstar]
  · exact List.takeWhile_prefix isBlank

theorem exists_terminatorAt_trimStart {P : List Char → Prop} :
    (∃ front, P (s.takeWhile isBlank ++ front) ∧ TerminatorAt front (trimStart s)) ↔
      ∃ front, P front ∧ TerminatorAt front s := by
  have hcut (front : List Char) : TerminatorAt (s.takeWhile isBlank ++ front) s ↔
      TerminatorAt front (trimStart s) := by
    have hs : s.takeWhile isBlank ++ trimStart s = s := List.takeWhile_append_dropWhile
    rw [TerminatorAt, List.append_assoc]
    nth_rewrite 2 [← hs]
    exact List.prefix_append_right_inj _
  constructor
  · rintro ⟨front, hP, h⟩
    exact ⟨_, hP, (hcut front).2 h⟩
  · rintro ⟨front, hP, h⟩
    obtain ⟨rest, rfl⟩ := h.takeWhile_prefix
    exact ⟨rest, hP, (hcut rest).1 h⟩

/-- A text that begins with no blank has no blanks in front of anything. -/
theorem eq_nil_of_blank (hs : trimStart s = s) (hblank : AllBlank front = true) (h : front <+: s) :
    front = [] := by
  cases front with
  | nil => rfl
  | cons c rest =>
    obtain ⟨back, rfl⟩ := h
    have hkept : isBlank c = false := by simpa [trimStart, List.dropWhile_eq_self_iff] using hs
    rw [AllBlank, List.all_cons, hkept] at hblank
    cases hblank

theorem trimStart_trimStart (s : List Char) : trimStart (trimStart s) = trimStart s :=
  List.dropWhile_idempotent ..

theorem trimStart_trim (s : List Char) : trimStart (trim s) = trim s :=
  (dropEnds_eq_self_iff.1 (dropEnds_dropEnds isBlank s)).1

theorem terminator_infix_trim : terminator <:+: trim s ↔ terminator <:+: s := by
  have hstart := exists_terminatorAt_trimStart (s := s) (P := fun _ => True)
  simp only [true_and] at hstart
  simp only [terminator_infix_iff, trim, terminatorAt_trimEnd, hstart]

/-- What is not blank in front of a terminator stays when the start of the text is cut. -/
theorem exists_ne_nil_terminatorAt_trimStart :
    (∃ front, front ≠ [] ∧ TerminatorAt front (trimStart s)) ↔
      ∃ front, AllBlank front = false ∧ TerminatorAt front s := by
  have hblanks : AllBlank (s.takeWhile isBlank) = true := List.all_takeWhile
  rw [← exists_terminatorAt_trimStart (s := s) (P := fun front => AllBlank front = false)]
  refine exists_congr fun front => and_congr_left fun h => ?_
  rw [AllBlank, List.all_append, ← AllBlank, hblanks, Bool.true_and, ← AllBlank, ← Bool.not_eq_true]
  refine not_congr ⟨fun hnil => hnil ▸ rfl, fun hblank => ?_⟩
  exact eq_nil_of_blank (trimStart_trimStart s) hblank ((List.prefix_append ..).trans h)

theorem terminatorAt_dropTrailing :
    TerminatorAt front (dropTrailing terminator s) ↔
      TerminatorAt front s ∧ s ≠ front ++ terminator := by
  by_cases hend : terminator <:+ s
  · obtain ⟨rest, rfl⟩ := hend
    rw [dropTrailing_append]
    constructor
    · intro h
      refine ⟨h.trans (List.prefix_append ..), fun heq => ?_⟩
      have hlength := h.length_le
      rw [List.append_cancel_right heq, List.length_append] at hlength
      simp only [terminator, List.length_cons, List.length_nil] at hlength
      omega
    · rintro ⟨⟨back, hback⟩, hne⟩
      rcases List.append_eq_append_iff.1 hback with ⟨more, hrest, -⟩ | ⟨more, hfront, hsplit⟩
      · exact ⟨more, hrest.symm⟩
      · -- the terminator at the end begins inside the one behind `front`: this is the same one
        rcases more with - | ⟨c, - | ⟨d, more⟩⟩
        · exact ⟨[], by simpa using hfront⟩
        · obtain ⟨rfl, -⟩ := List.cons.inj hsplit
          have hlast := congrArg List.getLast? hfront
          simp [terminator] at hlast
        · obtain ⟨rfl, hslash⟩ := List.cons.inj hsplit
          obtain ⟨rfl, hmore⟩ := List.cons.inj hslash
          obtain ⟨rfl, rfl⟩ := List.append_eq_nil_iff.1 hmore.symm
          exact absurd hfront.symm hne
  · rw [dropTrailing_eq_self hend]
    refine ⟨fun h => ⟨h, fun heq => hend ?_⟩, And.left⟩
    rw [heq]
    exact List.suffix_append ..

theorem exists_terminatorAt_dropStar :
    (∃ front, TerminatorAt front (dropLeading ['*'] s)) ↔
      ∃ front, front ≠ [] ∧ TerminatorAt front s := by
  by_cases hstar : ['*'] <+: s
  · obtain ⟨rest, rfl⟩ := hstar
    rw [dropLeading_append]
    constructor
    · rintro ⟨front, h⟩
      exact ⟨'*' :: front, List.cons_ne_nil _ _, terminatorAt_cons_cons.2 ⟨rfl, h⟩⟩
    · rintro ⟨front, hne, h⟩
      obtain ⟨c, front, rfl⟩ := List.exists_cons_of_ne_nil hne
      exact ⟨front, (terminatorAt_cons_cons.1 h).2⟩
  · rw [dropLeading_eq_self hstar]
    refine exists_congr fun front => ⟨fun h => ⟨?_, h⟩, And.right⟩
    rintro rfl
    exact hstar ((List.prefix_append ['*'] ['/']).trans h)

/-- Behind the sign that opens a comment, the terminators are those of the line that do not lose
their star. -/
theorem exists_terminatorAt_dropOpening (hs : trimStart s = s) :
    (∃ front, AllBlank front = false ∧ TerminatorAt front (dropLeading ['/', '*', '*'] s) ∧
        dropLeading ['/', '*', '*'] s ≠ front ++ terminator) ↔
      ∃ front, ¬TakesStar front ∧ TerminatorAt front s ∧ s ≠ front ++ terminator := by
  by_cases hopening : ['/', '*', '*'] <+: s
  · obtain ⟨rest, rfl⟩ := hopening
    rw [dropLeading_append]
    constructor
    · rintro ⟨front, hblank, h, hne⟩
      refine ⟨['/', '*', '*'] ++ front, ?_, by simpa [TerminatorAt] using h, by simpa using hne⟩
      rintro (hnil | hshort | ⟨blanks, hall, heq⟩)
      · cases hnil
      · cases hshort
      · rw [List.append_cancel_left heq, hall] at hblank
        cases hblank
    · rintro ⟨front, htakes, h, hne⟩
      rcases front with - | ⟨c, - | ⟨d, - | ⟨e, front⟩⟩⟩
      · exact absurd (.inl rfl) htakes
      · simp [TerminatorAt, terminator] at h
      · simp only [List.cons_append, terminatorAt_cons_cons] at h
        obtain ⟨rfl, rfl, -⟩ := h
        exact absurd (.inr (.inl rfl)) htakes
      · simp only [List.cons_append, List.nil_append, terminatorAt_cons_cons] at h
        obtain ⟨rfl, rfl, rfl, hrest⟩ := h
        refine ⟨front, ?_, hrest, by simpa using hne⟩
        rw [← Bool.not_eq_true]
        exact fun hblank => htakes (.inr (.inr ⟨front, hblank, rfl⟩))
  · rw [dropLeading_eq_self hopening]
    refine exists_congr fun front => and_congr_left fun h => ?_
    rw [← Bool.not_eq_true]
    refine not_congr ⟨fun hblank => .inl ?_, ?_⟩
    · exact eq_nil_of_blank hs hblank ((List.prefix_append ..).trans h.1)
    · rintro (rfl | rfl | ⟨blanks, -, rfl⟩)
      · rfl
      · exact absurd ((List.prefix_append ['/', '*', '*'] ['/']).trans h.1) hopening
      · exact absurd
          ((List.prefix_append ['/', '*', '*'] (blanks ++ terminator)).trans h.1) hopening

/-! ## Terminators in a line -/

/-- The terminators that a line keeps. -/
theorem endsInside_iff {line : List Char} : EndsInside line ↔ terminator <:+: bareLine line := by
  have hopened := exists_terminatorAt_dropOpening (trimStart_trim line)
  rw [bareLine, terminator_infix_trim, terminator_infix_iff, exists_terminatorAt_dropStar,
    exists_ne_nil_terminatorAt_trimStart]
  change EndsInside line ↔
    ∃ front, AllBlank front = false ∧
      TerminatorAt front
        (trimEnd (dropTrailing terminator (dropLeading ['/', '*', '*'] (trim line))))
  simp only [terminatorAt_trimEnd, terminatorAt_dropTrailing, hopened, EndsInside]

/-! ## Terminators in a block -/

/-- A terminator does not go across other characters than its own. -/
theorem terminator_infix_append_cons (hc : c ∉ terminator) :
    terminator <:+: s ++ c :: t ↔ terminator <:+: s ∨ terminator <:+: t := by
  have hafter : ¬terminator <+: c :: t := by
    rintro ⟨back, h⟩
    exact hc ((List.cons.inj h).1 ▸ List.mem_cons_self)
  have hacross : ¬∃ l₁ l₂, l₁ ≠ [] ∧ l₂ ≠ [] ∧ terminator = l₁ ++ l₂ ∧ l₁ <:+ s ∧
      l₂ <+: c :: t := by
    rintro ⟨l₁, l₂, -, hne, heq, -, ⟨back, h⟩⟩
    obtain ⟨d, rest, rfl⟩ := List.exists_cons_of_ne_nil hne
    rw [heq, ← (List.cons.inj h).1] at hc
    exact hc (List.mem_append_right _ List.mem_cons_self)
  rw [List.infix_append_iff_ne_nil, List.infix_cons_iff, or_iff_right hafter, or_iff_left hacross]

theorem not_terminator_infix_star : ¬terminator <:+: ['*'] := by decide

theorem terminator_infix_flatMap {α : Type} {f : α → List Char} {items : List α} :
    terminator <:+: (items.flatMap fun x => f x ++ ['\n']) ++ t ↔
      (∃ x ∈ items, terminator <:+: f x) ∨ terminator <:+: t := by
  induction items with
  | nil => simp
  | cons x rest ih =>
    rw [List.flatMap_cons, List.append_assoc, List.append_assoc, List.singleton_append,
      terminator_infix_append_cons (by decide), ih, ← or_assoc, List.exists_mem_cons_iff]

/-- A text that is closed by a terminator behind a space must not have another one. -/
theorem closedOnce_append_iff : ClosedOnce (s ++ [' ', '*', '/', '\n']) ↔ ¬terminator <:+: s := by
  constructor
  · rintro ⟨-, hlast⟩ ⟨front, back, rfl⟩
    have hback := hlast front (back ++ [' ', '*', '/', '\n']) (List.append_assoc ..)
    have hlength := congrArg List.length hback
    simp at hlength
  · intro hnone
    refine ⟨⟨s ++ [' '], by simp [terminator]⟩, fun front back h => ?_⟩
    -- counted from the end: a line feed, the slash of the last terminator, and text without a
    -- terminator
    rcases List.eq_nil_or_concat back with rfl | ⟨back, c, rfl⟩
    · have hend := congrArg List.getLast? h
      simp [terminator] at hend
    · rcases List.eq_nil_or_concat back with rfl | ⟨back, d, rfl⟩
      · have hend := congrArg List.getLast? h
        simpa using hend.symm
      · have hsplit : (s ++ ' ' :: ['*']) ++ ['/', '\n'] =
            (front ++ terminator ++ back) ++ [d, c] := by
          simpa using h
        have hinner : terminator <:+: s ++ ' ' :: ['*'] :=
          ⟨front, back, (List.append_inj' hsplit rfl).1.symm⟩
        rw [terminator_infix_append_cons (by decide), or_iff_left not_terminator_infix_star]
          at hinner
        exact absurd hinner hnone

end

section

variable {indent : String} {ls : List String}

theorem closedOnce_single_iff {l : String} (htrim : trim l.toList = l.toList)
    (hbreak : '\n' ∉ l.toList) :
    ClosedOnce (block indent [l]).toList ↔
      ¬terminator <:+: l.toList ∧ ¬terminator <:+: indent.toList ++ ['/', '*', '*'] := by
  have hblock : (block indent [l]).toList =
      (indent.toList ++ ['/', '*', '*'] ++ ' ' :: l.toList) ++ [' ', '*', '/', '\n'] := by
    simp [block, hbreak, trimmed, htrim]
  rw [hblock, closedOnce_append_iff, terminator_infix_append_cons (c := ' ') (by decide), not_or,
    and_comm]

theorem closedOnce_tallBlock_iff (htrim : ∀ l ∈ ls, trim l.toList = l.toList)
    (hbreak : ∀ l ∈ ls, '\n' ∉ l.toList) :
    ClosedOnce (tallBlock indent ls).toList ↔
      (∀ l ∈ ls, ¬terminator <:+: l.toList) ∧
        ¬terminator <:+: indent.toList ++ ['/', '*', '*'] := by
  have hclosing (body : List Char) :
      (indent.toList ++ ['/', '*', '*']) ++ '\n' ::
        (body ++ ((indent.toList ++ [' ', '*', '/']) ++ '\n' :: [])) =
        (indent.toList ++ ['/', '*', '*'] ++ '\n' :: (body ++ indent.toList)) ++
          [' ', '*', '/', '\n'] := by simp
  have hline (l : String) : terminator <:+: indent.toList ++ ([' ', '*', ' '] ++ l.toList) ↔
      terminator <:+: indent.toList ∨ terminator <:+: l.toList := by
    have hsplit : indent.toList ++ ([' ', '*', ' '] ++ l.toList) =
        indent.toList ++ ' ' :: (['*'] ++ ' ' :: l.toList) :=
      rfl
    rw [hsplit, terminator_infix_append_cons (by decide), terminator_infix_append_cons (by decide),
      or_iff_right not_terminator_infix_star]
  have hindent (h : terminator <:+: indent.toList) :
      terminator <:+: indent.toList ++ ['/', '*', '*'] :=
    h.trans (List.infix_append' [] _ _)
  rw [toList_tallBlock indent htrim hbreak, hclosing, closedOnce_append_iff,
    terminator_infix_append_cons (c := '\n') (by decide), terminator_infix_flatMap]
  simp only [hline]
  constructor
  · intro h
    refine ⟨fun l hl hmem => ?_, fun hopening => h (.inl hopening)⟩
    have hne : l ≠ "" := by
      rintro rfl
      revert hmem
      decide
    exact h (.inr (.inl ⟨l, List.mem_filter.2 ⟨hl, by simpa using hne⟩, .inr hmem⟩))
  · rintro ⟨hlines, hopening⟩ (h | ⟨l, hl, h | h⟩ | h)
    · exact hopening h
    · exact hopening (hindent h)
    · exact hlines l (List.mem_filter.1 hl).1 h
    · exact hopening (hindent h)

/-- A block is closed once if and only if neither its lines nor the indent with its first sign have
a terminator. -/
theorem closedOnce_block_iff (h : Harvested ls) (hne : ls ≠ []) :
    ClosedOnce (block indent ls).toList ↔
      (∀ l ∈ ls, ¬terminator <:+: l.toList) ∧
        ¬terminator <:+: indent.toList ++ ['/', '*', '*'] := by
  match ls, h with
  | [l], h =>
    rw [closedOnce_single_iff (h.trimmed l List.mem_cons_self) (h.unbroken l List.mem_cons_self),
      List.forall_mem_singleton]
  | first :: second :: rest, h => exact closedOnce_tallBlock_iff h.trimmed h.unbroken

/-- Only empty lines are lost at the ends of a comment. -/
theorem forall_mem_harvest_iff {P : String → Prop} (hempty : P "") (chunks : List String) :
    (∀ l ∈ harvest chunks, P l) ↔ ∀ c ∈ chunks, ∀ p ∈ lines c.toList, P (bareText p) := by
  rw [harvest_eq]
  constructor
  · intro h c hc p hp
    have hmem : bareText p ∈ lineTexts chunks := List.mem_flatMap.2 ⟨c, hc, List.mem_map_of_mem hp⟩
    cases hline : (bareText p).isEmpty with
    | true => rwa [String.isEmpty_iff.1 hline]
    | false => exact h _ (mem_dropEnds_of_not hmem hline)
  · intro h l hl
    obtain ⟨c, hc, hl⟩ := List.mem_flatMap.1 ((dropEnds_sublist ..).subset hl)
    obtain ⟨p, hp, rfl⟩ := List.mem_map.1 hl
    exact h c hc p hp

theorem forall_not_endsInside_iff (chunks : List String) :
    (∀ c ∈ chunks, ∀ p ∈ lines c.toList, ¬EndsInside p) ↔
      ∀ l ∈ harvest chunks, ¬terminator <:+: l.toList := by
  have hempty : ¬terminator <:+: "".toList := by decide
  rw [forall_mem_harvest_iff (P := fun l => ¬terminator <:+: l.toList) hempty]
  simp only [bareText, String.toList_ofList, endsInside_iff]

/-- **Terminators inside comments.**  The block of a comment has one terminator, at its end, if and
only if no raw line has one apart from its end and from the signs that open or continue a comment.
(An indent that has one itself, or makes one with the sign that opens the block, ends the block too
early as well.) -/
theorem closedOnce_block_harvest_iff {chunks : List String} (h : harvest chunks ≠ []) :
    ClosedOnce (block indent (harvest chunks)).toList ↔
      (∀ c ∈ chunks, ∀ p ∈ lines c.toList, ¬EndsInside p) ∧
        ¬terminator <:+: indent.toList ++ ['/', '*', '*'] := by
  rw [closedOnce_block_iff (harvested_harvest chunks) h, forall_not_endsInside_iff]

/-- Signs of a comment within its text, and one that ends it in front of the text. -/
theorem closedOnce_block_harvest_iff_signs :
    let chunks := ["/** Either * / or", " *", " */ both. */"]
    harvest chunks = ["Either * / or", "", "/ both."] ∧
    ClosedOnce (block "    " (harvest chunks)).toList := by
  intro chunks
  have hls : harvest chunks = ["Either * / or", "", "/ both."] := by decide
  have hne : harvest chunks ≠ [] := by simp [hls]
  have hlines : ∀ c ∈ chunks, ∀ p ∈ lines c.toList, ¬EndsInside p := by
    rw [forall_not_endsInside_iff, hls]
    simp [terminator, List.infix_cons_iff]
  exact ⟨hls, (closedOnce_block_harvest_iff hne).2 ⟨hlines, by decide⟩⟩

/-- A terminator within a line ends the comment there. -/
theorem not_all_blocks_closed_once :
    ¬∀ chunks : List String, harvest chunks ≠ [] →
      ClosedOnce (block "" (harvest chunks)).toList := by
  intro hall
  have hblock : (block "" (harvest ["Matches src/*/main."])).toList =
      "/** Matches src/".toList ++ terminator ++ "main. */\n".toList := by decide
  have hback := (hall ["Matches src/*/main."] (by decide)).2 _ _ hblock
  revert hback
  decide

end

end TypeBridge.Comment
