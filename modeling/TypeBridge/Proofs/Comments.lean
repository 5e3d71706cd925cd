import TypeBridge.Comment
import TypeBridge.Proofs.Lines

/-!
# Comments in chunks and in blocks

What becomes of the lines of a comment when it is cut into chunks, and when it is written and read
again.

A chunk is read piece by piece, where pieces are what stands between line feeds.  The carriage
return of a line break is a blank, and a line break at the end of a chunk opens a line that is empty
and goes with the empty lines there.  So only one thing is lost between a chunk and its pieces: a
chunk without any text has one piece, but no line.  Reading chunks one by one is therefore reading
them joined by line feeds, unless such a chunk stands inside the comment (`harvest_eq_joined_iff`).
The block of a comment leaves out empty lines in the same way, and gives back the others
(`harvest_block`).
-/

namespace TypeBridge.Comment

open Text

/-! ## Bare lines -/

/-- A raw line, or piece of a line, without the signs of a comment. -/
def bareText (line : List Char) : String :=
  String.ofList (bareLine line)

theorem bareText_dropReturn (p : List Char) : bareText (dropReturn p) = bareText p := by
  simp only [bareText, bareLine, trim_dropReturn]

theorem trim_bareLine (line : List Char) : trim (bareLine line) = bareLine line :=
  dropEnds_dropEnds ..

theorem bareLine_sublist (line : List Char) : (bareLine line).Sublist line := by
  have hopened :=
    (dropLeading_sublist ['/', '*', '*'] (trim line)).trans (dropEnds_sublist isBlank line)
  have hclosed := (dropTrailing_sublist ['*', '/'] _).trans hopened
  have hend := ((List.rdropWhile_prefix isBlank _).sublist).trans hclosed
  have hstart := (List.dropWhile_sublist isBlank).trans hend
  exact (dropEnds_sublist isBlank _).trans ((dropLeading_sublist ['*'] _).trans hstart)

/-! ## Comments in chunks -/

section

variable {chunks before after : List String} {c : String}

def lineTexts (chunks : List String) : List String :=
  chunks.flatMap fun c => (lines c.toList).map bareText

def pieceTexts (chunks : List String) : List String :=
  chunks.flatMap fun c => (splitAtLineFeed c.toList).map bareText

theorem harvest_eq (chunks : List String) :
    harvest chunks = dropEnds String.isEmpty (lineTexts chunks) := by
  unfold harvest lineTexts
  rw [List.map_flatMap]
  rfl

theorem lineTexts_cons (c : String) (chunks : List String) :
    lineTexts (c :: chunks) = lineTexts [c] ++ lineTexts chunks := by
  simp [lineTexts]

theorem pieceTexts_cons (c : String) (chunks : List String) :
    pieceTexts (c :: chunks) = pieceTexts [c] ++ pieceTexts chunks := by
  simp [pieceTexts]

/-- A chunk that has text and ends within a line is read piece by piece. -/
theorem lineTexts_eq (hne : c ≠ "") (hend : c.toList.getLast? ≠ some '\n') :
    lineTexts [c] = pieceTexts [c] := by
  have hchars : c.toList ≠ [] := fun h => hne (String.toList_eq_nil_iff.1 h)
  simp only [lineTexts, pieceTexts, List.flatMap_singleton]
  exact map_lines bareText_dropReturn hchars hend

/-- All lines of a chunk are lines of its pieces, and there is at most an empty one more. -/
theorem pieceTexts_singleton (c : String) :
    pieceTexts [c] = lineTexts [c] ∨ pieceTexts [c] = lineTexts [c] ++ [""] := by
  simp only [lineTexts, pieceTexts, List.flatMap_singleton]
  exact map_lines_or bareText_dropReturn c.toList

theorem lineTexts_sublist (chunks : List String) :
    (lineTexts chunks).Sublist (pieceTexts chunks) := by
  induction chunks with
  | nil => exact List.Sublist.refl _
  | cons c rest ih =>
    rw [lineTexts_cons, pieceTexts_cons]
    refine List.Sublist.append ?_ ih
    rcases pieceTexts_singleton c with h | h
    · rw [h]
    · rw [h]
      exact List.sublist_append_left ..

/-- Without any text in the lines there is none in the pieces. -/
theorem harvest_eq_nil_iff : harvest chunks = [] ↔ ∀ l ∈ pieceTexts chunks, l.isEmpty = true := by
  rw [harvest_eq, dropEnds_eq_nil_iff]
  constructor
  · intro h
    induction chunks with
    | nil => exact fun l hl => nomatch hl
    | cons c rest ih =>
      rw [lineTexts_cons, List.forall_mem_append] at h
      rw [pieceTexts_cons, List.forall_mem_append]
      refine ⟨?_, ih h.2⟩
      rcases pieceTexts_singleton c with hc | hc
      · rw [hc]
        exact h.1
      · rw [hc, List.forall_mem_append]
        exact ⟨h.1, by simp⟩
  · exact fun h l hl => h l ((lineTexts_sublist chunks).subset hl)

theorem lineTexts_of_harvest_eq_nil (h : harvest chunks = []) :
    ∀ l ∈ lineTexts chunks, l.isEmpty = true := by
  rw [harvest_eq, dropEnds_eq_nil_iff] at h
  exact h

theorem harvest_cons_eq_nil_iff : harvest (c :: chunks) = [] ↔
    harvest [c] = [] ∧ harvest chunks = [] := by
  simp only [harvest_eq_nil_iff]
  rw [pieceTexts_cons, List.forall_mem_append]

theorem harvest_singleton (c : String) :
    harvest [c] = dropEnds String.isEmpty (pieceTexts [c]) := by
  rw [harvest_eq]
  rcases pieceTexts_singleton c with h | h
  · rw [h]
  · rw [h, dropEnds_append_right (by simp)]

/-- Chunks joined by line feeds are read piece by piece. -/
theorem harvest_intercalate (chunks : List String) :
    harvest ["\n".intercalate chunks] = dropEnds String.isEmpty (pieceTexts chunks) := by
  rw [harvest_singleton]
  cases chunks with
  | nil => rfl
  | cons c rest =>
    have hpieces := @splitAtLineFeed_intercalate ((c :: rest).map String.toList) (by simp)
    simp only [pieceTexts, List.flatMap_singleton, String.toList_intercalate]
    change dropEnds String.isEmpty ((splitAtLineFeed (['\n'].intercalate _)).map bareText) = _
    rw [hpieces, List.flatMap_map, List.map_flatMap]

/-- An empty chunk does not matter where no text follows. -/
theorem dropEnds_append_pieceTexts (hend : ∀ c ∈ chunks, c.toList.getLast? ≠ some '\n')
    (h : ∀ before after, chunks = before ++ "" :: after → harvest after = [])
    (front : List String) :
    dropEnds String.isEmpty (front ++ lineTexts chunks) =
      dropEnds String.isEmpty (front ++ pieceTexts chunks) := by
  induction chunks generalizing front with
  | nil => rfl
  | cons c rest ih =>
    by_cases hc : c = ""
    · subst hc
      have hrest : harvest ("" :: rest) = [] := harvest_cons_eq_nil_iff.2 ⟨rfl, h [] rest rfl⟩
      rw [dropEnds_append_right (lineTexts_of_harvest_eq_nil hrest),
        dropEnds_append_right (harvest_eq_nil_iff.1 hrest)]
    · obtain ⟨hcend, hrestend⟩ := List.forall_mem_cons.1 hend
      rw [lineTexts_cons, pieceTexts_cons, lineTexts_eq hc hcend, ← List.append_assoc,
        ← List.append_assoc]
      refine ih hrestend (fun before after heq => ?_) _
      exact h (c :: before) after (congrArg (List.cons c) heq)

/-- An empty chunk between two parts of the text is a line of the joined text only. -/
theorem harvest_ne_of_between (hbefore : harvest before ≠ []) (hafter : harvest after ≠ []) :
    harvest (before ++ "" :: after) ≠ harvest ["\n".intercalate (before ++ "" :: after)] := by
  intro heq
  have hpieces {chunks : List String} (h : harvest chunks ≠ []) :
      dropEnds String.isEmpty (pieceTexts chunks) ≠ [] := by
    rw [Ne, dropEnds_eq_nil_iff, ← harvest_eq_nil_iff]
    exact h
  have hlines : lineTexts (before ++ "" :: after) = lineTexts before ++ [] ++ lineTexts after := by
    simp [lineTexts, lines_nil]
  have hjoined : pieceTexts (before ++ "" :: after) =
      pieceTexts before ++ [""] ++ pieceTexts after := by
    have hempty : (splitAtLineFeed []).map bareText = [""] := rfl
    simp [pieceTexts, hempty]
  have hfront :=
    (dropWhile_sublist_dropWhile (q := String.isEmpty) (lineTexts_sublist before)).length_le
  have hback :=
    (dropWhile_sublist_dropWhile (q := String.isEmpty) (lineTexts_sublist after).reverse).length_le
  rw [harvest_intercalate, harvest_eq, hlines, hjoined,
    dropEnds_between (hpieces hbefore) (hpieces hafter),
    dropEnds_between (harvest_eq before ▸ hbefore) (harvest_eq after ▸ hafter)] at heq
  have hlength := congrArg List.length heq
  simp only [List.length_append, List.rdropWhile, List.length_reverse, List.length_nil,
    List.length_singleton] at hlength
  omega

/-- If no empty chunk stands between two parts of the text, lines and pieces differ at the ends
only. -/
theorem dropEnds_lineTexts_eq (hend : ∀ c ∈ chunks, c.toList.getLast? ≠ some '\n')
    (h : ∀ before after, chunks = before ++ "" :: after → harvest before = [] ∨
      harvest after = []) :
    dropEnds String.isEmpty (lineTexts chunks) = dropEnds String.isEmpty (pieceTexts chunks) := by
  induction chunks with
  | nil => rfl
  | cons c rest ih =>
    obtain ⟨hcend, hrestend⟩ := List.forall_mem_cons.1 hend
    have htail (before after : List String) (heq : rest = before ++ "" :: after) :
        harvest (c :: before) = [] ∨ harvest after = [] :=
          h (c :: before) after (congrArg (List.cons c) heq)
    rw [lineTexts_cons, pieceTexts_cons]
    by_cases hc : harvest [c] = []
    · -- no text yet: the chunk goes with what is empty at the start
      rw [dropEnds_append_left (lineTexts_of_harvest_eq_nil hc),
        dropEnds_append_left (harvest_eq_nil_iff.1 hc)]
      refine ih hrestend fun before after heq => (htail before after heq).imp_left fun hbefore => ?_
      exact (harvest_cons_eq_nil_iff.1 hbefore).2
    · -- the text has begun: an empty chunk from here on is one at the end
      have hne : c ≠ "" := by
        rintro rfl
        exact hc rfl
      rw [lineTexts_eq hne hcend]
      refine dropEnds_append_pieceTexts hrestend (fun before after heq => ?_) _
      exact (htail before after heq).resolve_left fun hbefore =>
        hc (harvest_cons_eq_nil_iff.1 hbefore).1

/-- **Chunks and the text of a comment.**  Chunks that end within a line are read one by one like
the text that they are joined to by line feeds, if and only if no empty chunk stands between two
parts of the text. -/
theorem harvest_eq_joined_iff (hend : ∀ c ∈ chunks, c.toList.getLast? ≠ some '\n') :
    harvest chunks = harvest ["\n".intercalate chunks] ↔
      ∀ before after, chunks = before ++ "" :: after →
        harvest before = [] ∨ harvest after = [] := by
  constructor
  · rintro h before after rfl
    by_contra hboth
    obtain ⟨hbefore, hafter⟩ := not_or.1 hboth
    exact harvest_ne_of_between hbefore hafter h
  · intro h
    rw [harvest_intercalate, harvest_eq]
    exact dropEnds_lineTexts_eq hend h

/-- A comment line by line, with a line that is blank but not empty, a carriage return, and an empty
chunk before the text. -/
theorem harvest_eq_joined_iff_paragraphs :
    let chunks := ["", "/** First.", " * ", " * Second.\r", " */"]
    (∀ c ∈ chunks, c.toList.getLast? ≠ some '\n') ∧
      harvest chunks = harvest ["\n".intercalate chunks] ∧
      harvest chunks = ["First.", "", "Second."] := by
  intro chunks
  have hend : ∀ c ∈ chunks, c.toList.getLast? ≠ some '\n' := by decide
  have hothers : "" ∉ chunks.tail := by decide
  refine ⟨hend, (harvest_eq_joined_iff hend).2 fun before after heq => .inl ?_, by decide⟩
  cases before with
  | nil => rfl
  | cons c before =>
    have htail : chunks.tail = before ++ "" :: after := congrArg List.tail heq
    exact absurd (by simp [htail]) hothers

/-- An empty chunk between two paragraphs is lost. -/
theorem not_all_chunks_joined :
    ¬∀ chunks : List String, (∀ c ∈ chunks, c.toList.getLast? ≠ some '\n') →
      harvest chunks = harvest ["\n".intercalate chunks] := by
  intro hall
  have hend : ∀ c ∈ ["First."] ++ "" :: ["Second."], c.toList.getLast? ≠ some '\n' := by decide
  exact harvest_ne_of_between (by decide) (by decide) (hall _ hend)

end

/-! ## Harvested lines -/

/-- Lines without blanks at their ends and without line feeds, of which the first and the last are
not empty. -/
structure Harvested (ls : List String) : Prop where
  trimmed : ∀ l ∈ ls, trim l.toList = l.toList
  unbroken : ∀ l ∈ ls, '\n' ∉ l.toList
  starts : ls.head? ≠ some ""
  ends : ls.getLast? ≠ some ""

theorem harvested_harvest (chunks : List String) : Harvested (harvest chunks) := by
  rw [harvest_eq]
  have hline : ∀ l ∈ dropEnds String.isEmpty (lineTexts chunks),
      ∃ c ∈ chunks, ∃ p ∈ lines c.toList, bareText p = l := by
    intro l hl
    obtain ⟨c, hc, hl⟩ := List.mem_flatMap.1 ((dropEnds_sublist ..).subset hl)
    exact ⟨c, hc, List.mem_map.1 hl⟩
  have hends := exists_ends_of_dropEnds_eq (dropEnds_dropEnds String.isEmpty (lineTexts chunks))
  refine ⟨fun l hl => ?_, fun l hl => ?_, fun hhead => ?_, fun hlast => ?_⟩
  · obtain ⟨c, -, p, -, rfl⟩ := hline l hl
    rw [bareText, String.toList_ofList, trim_bareLine]
  · obtain ⟨c, -, p, hp, rfl⟩ := hline l hl
    rw [bareText, String.toList_ofList]
    exact fun hmem => lineFeed_notMem_of_mem_lines hp ((bareLine_sublist p).subset hmem)
  · obtain ⟨⟨l, t, heq, hl⟩, -⟩ := hends fun hnil => by simp [hnil] at hhead
    rw [heq] at hhead
    cases Option.some.inj hhead
    cases hl
  · obtain ⟨-, t, l, heq, hl⟩ := hends fun hnil => by simp [hnil] at hlast
    rw [heq, List.getLast?_concat] at hlast
    cases Option.some.inj hlast
    cases hl

/-! ## Blocks -/

section

variable {indent : String} {ls : List String} {l : List Char}

theorem bareLine_blank_append {b : List Char} (h : ∀ c ∈ b, isBlank c = true) (s : List Char) :
    bareLine (b ++ s) = bareLine s := by
  rw [bareLine, trim_blank_append h, bareLine]

/-- Text without blanks at its ends, found again between two blanks. -/
theorem trimStart_trimEnd_spaced (h : trim l = l) :
    trimStart (trimEnd (' ' :: l ++ [' '])) = l := by
  have hlast : trimEnd (' ' :: l ++ [' ']) = trimEnd (' ' :: l) :=
    rdropWhile_append_of_pos (List.forall_mem_singleton.2 rfl)
  rw [hlast]
  by_cases hne : l = []
  · subst hne
    rfl
  · obtain ⟨-, t, c, hl, hc⟩ := exists_ends_of_dropEnds_eq h hne
    obtain ⟨hstart, -⟩ := dropEnds_eq_self_iff.1 h
    have hkept : trimEnd (' ' :: l) = ' ' :: l := by
      rw [hl, ← List.cons_append, trimEnd_concat hc]
    rw [hkept]
    exact hstart

/-- A line between the signs that open and close a comment. -/
theorem bareLine_single (h : trim l = l) (hstar : l.head? ≠ some '*') :
    bareLine (['/', '*', '*', ' '] ++ l ++ [' ', '*', '/']) = l := by
  have hunstarred : ¬['*'] <+: l := by
    rintro ⟨t, rfl⟩
    exact hstar rfl
  have hwhole : trim (['/', '*', '*'] ++ ((' ' :: l ++ [' ']) ++ ['*', '/'])) =
      ['/', '*', '*'] ++ ((' ' :: l ++ [' ']) ++ ['*', '/']) := by
    have hends := trim_of_ends (c := '/') (d := '/') (by decide) (by decide)
      (['*', '*', ' '] ++ l ++ [' ', '*'])
    simpa using hends
  have hsplit : ['/', '*', '*', ' '] ++ l ++ [' ', '*', '/'] =
      ['/', '*', '*'] ++ ((' ' :: l ++ [' ']) ++ ['*', '/']) := by simp
  rw [bareLine, hsplit, hwhole, dropLeading_append, dropTrailing_append, trimStart_trimEnd_spaced h,
    dropLeading_eq_self hunstarred, h]

/-- A line behind the star that continues a comment. -/
theorem bareLine_continued (h : trim l = l) (hne : l ≠ []) (hend : ¬['*', '/'] <:+ l) :
    bareLine ([' ', '*', ' '] ++ l) = l := by
  obtain ⟨-, t, c, hl, hc⟩ := exists_ends_of_dropEnds_eq h hne
  have hblank : ∀ c ∈ [' '], isBlank c = true := List.forall_mem_singleton.2 rfl
  have hwhole : trim ('*' :: ' ' :: l) = '*' :: ' ' :: l := by
    rw [hl]
    exact trim_of_ends (by decide) hc (' ' :: t)
  have hopening : ¬['/', '*', '*'] <+: '*' :: ' ' :: l := by simp
  have hclosing : ¬['*', '/'] <:+ '*' :: ' ' :: l := by
    simp [List.suffix_cons_iff, hend]
  have hinner : trimStart (trimEnd ('*' :: ' ' :: l)) = '*' :: ' ' :: l := by
    have hkept : trimEnd ('*' :: ' ' :: l) = '*' :: ' ' :: l := by
      rw [hl, ← List.cons_append, ← List.cons_append, trimEnd_concat hc]
    rw [hkept, trimStart_cons (by decide)]
  have hsplit : [' ', '*', ' '] ++ l = [' '] ++ ('*' :: ' ' :: l) := rfl
  rw [hsplit, bareLine_blank_append hblank, bareLine, hwhole, dropLeading_eq_self hopening,
    dropTrailing_eq_self hclosing, hinner]
  have hstar : dropLeading ['*'] ('*' :: ' ' :: l) = [' '] ++ l :=
    dropLeading_append ['*'] (' ' :: l)
  rw [hstar, trim_blank_append hblank, h]

/-- The lines of a text line by line: one for each that is not empty. -/
theorem flatMap_lines (h : ∀ l ∈ ls, '\n' ∉ l.toList) :
    ls.flatMap (fun l => lines l.toList) = (ls.filter (!·.isEmpty)).map String.toList := by
  induction ls with
  | nil => rfl
  | cons l rest ih =>
    obtain ⟨hl, hrest⟩ := List.forall_mem_cons.1 h
    rw [List.flatMap_cons, lines_of_notMem hl, ih hrest]
    by_cases hempty : l = ""
    · subst hempty
      rfl
    · have hchars : l.toList ≠ [] := fun hnil => hempty (String.toList_eq_nil_iff.1 hnil)
      simp [hchars, hempty]

theorem toList_blockLine (indent : String) (h : trim l = l) (hne : l ≠ []) :
    (blockLine indent l).toList = indent.toList ++ ([' ', '*', ' '] ++ l) ++ ['\n'] := by
  have hblank : AllBlank l = false := by
    obtain ⟨-, t, c, rfl, hc⟩ := exists_ends_of_dropEnds_eq h hne
    simp [AllBlank, hc]
  simp [blockLine, hblank, h]

theorem toList_tallBlock (indent : String) (htrim : ∀ l ∈ ls, trim l.toList = l.toList)
    (hbreak : ∀ l ∈ ls, '\n' ∉ l.toList) :
    (tallBlock indent ls).toList = (indent.toList ++ ['/', '*', '*']) ++ '\n' ::
      (((ls.filter (!·.isEmpty)).flatMap fun l => indent.toList ++
        ([' ', '*', ' '] ++ l.toList) ++ ['\n']) ++
          ((indent.toList ++ [' ', '*', '/']) ++ '\n' :: [])) := by
  have hlines : (ls.filter (!·.isEmpty)).flatMap (fun l => (blockLine indent l.toList).toList) =
      (ls.filter (!·.isEmpty)).flatMap fun l =>
        indent.toList ++ ([' ', '*', ' '] ++ l.toList) ++ ['\n'] := by
    refine List.flatMap_congr fun l hl => ?_
    obtain ⟨hl, hkept⟩ := List.mem_filter.1 hl
    have hne : l.toList ≠ [] := by
      intro hnil
      rw [String.toList_eq_nil_iff.1 hnil] at hkept
      cases hkept
    exact toList_blockLine indent (htrim l hl) hne
  rw [← hlines]
  simp [tallBlock, flatMap_lines hbreak, String.toList_join, List.flatMap_map]

/-- What an indented line says does not depend on the indent. -/
theorem bareText_indent (hindent : ∀ c ∈ indent.toList, isBlank c = true ∧ c ≠ '\n')
    (s : List Char) : bareText (indent.toList ++ s) = bareText s := by
  rw [bareText, bareLine_blank_append fun c hc => (hindent c hc).1, bareText]

theorem notMem_indent (hindent : ∀ c ∈ indent.toList, isBlank c = true ∧ c ≠ '\n') (hl : '\n' ∉ l) :
    '\n' ∉ indent.toList ++ l := by
  intro hmem
  rcases List.mem_append.1 hmem with h | h
  · exact (hindent _ h).2 rfl
  · exact hl h

theorem harvest_tallBlock (hindent : ∀ c ∈ indent.toList, isBlank c = true ∧ c ≠ '\n')
    (htrim : ∀ l ∈ ls, trim l.toList = l.toList) (hbreak : ∀ l ∈ ls, '\n' ∉ l.toList)
    (hend : ∀ l ∈ ls, ¬['*', '/'] <:+ l.toList) :
    harvest [tallBlock indent ls] = ls.filter (!·.isEmpty) := by
  have hkept : ∀ l ∈ ls.filter (!·.isEmpty), l ∈ ls ∧ l.isEmpty = false := by
    intro l hl
    simpa using List.mem_filter.1 hl
  have hcontinued : ∀ l ∈ ls.filter (!·.isEmpty),
      '\n' ∉ indent.toList ++ ([' ', '*', ' '] ++ l.toList) := by
    intro l hl
    refine notMem_indent hindent ?_
    simpa using hbreak l (hkept l hl).1
  have hopening : bareText (indent.toList ++ ['/', '*', '*']) = "" := by
    rw [bareText_indent hindent]
    decide
  have hclosing : bareText (indent.toList ++ [' ', '*', '/']) = "" := by
    rw [bareText_indent hindent]
    decide
  have hread :
      (ls.filter (!·.isEmpty)).map
        (bareText ∘ fun l => indent.toList ++ ([' ', '*', ' '] ++ l.toList)) =
      ls.filter (!·.isEmpty) := by
    calc
      _ = (ls.filter (!·.isEmpty)).map id := by
        refine List.map_congr_left fun l hl => ?_
        obtain ⟨hl, hsome⟩ := hkept l hl
        have hne : l.toList ≠ [] := fun hnil => by simp [String.toList_eq_nil_iff.1 hnil] at hsome
        rw [Function.comp_apply, bareText_indent hindent, bareText,
          bareLine_continued (htrim l hl) hne (hend l hl), String.ofList_toList, id]
      _ = ls.filter (!·.isEmpty) := List.map_id _
  have hpieces : pieceTexts [tallBlock indent ls] = [""] ++ ls.filter (!·.isEmpty) ++ ["", ""] := by
    rw [pieceTexts, List.flatMap_singleton, toList_tallBlock indent htrim hbreak,
      splitAtLineFeed_line (notMem_indent hindent (by decide)), splitAtLineFeed_lines hcontinued,
      splitAtLineFeed_line (notMem_indent hindent (by decide)), List.map_cons, List.map_append,
      List.map_map, List.map_cons, hopening, hclosing, hread]
    rfl
  rw [harvest_singleton, hpieces, dropEnds_append_right (by simp), dropEnds_append_left (by simp)]
  exact dropEnds_of_forall_not fun l hl => (hkept l hl).2

theorem harvest_single {l : String} (hindent : ∀ c ∈ indent.toList, isBlank c = true ∧ c ≠ '\n')
    (htrim : trim l.toList = l.toList) (hbreak : '\n' ∉ l.toList)
    (hstar : l.toList.head? ≠ some '*') (hne : l ≠ "") : harvest [block indent [l]] = [l] := by
  have hblock : (block indent [l]).toList =
      (indent.toList ++ (['/', '*', '*', ' '] ++ l.toList ++ [' ', '*', '/'])) ++ '\n' :: [] := by
    simp [block, hbreak, trimmed, htrim]
  have hline : '\n' ∉ indent.toList ++ (['/', '*', '*', ' '] ++ l.toList ++ [' ', '*', '/']) := by
    refine notMem_indent hindent ?_
    simpa using hbreak
  have hpieces : pieceTexts [block indent [l]] = [l] ++ [""] := by
    rw [pieceTexts, List.flatMap_singleton, hblock, splitAtLineFeed_line hline, List.map_cons,
      bareText_indent hindent, bareText, bareLine_single htrim hstar, String.ofList_toList]
    rfl
  rw [harvest_singleton, hpieces, dropEnds_append_right (by simp)]
  exact dropEnds_of_forall_not (by simpa using hne)

/-- **Blocks read back.**  Written and read again, harvested lines lose their empty lines and
nothing else.  A line that stands alone must not begin like the continuation of a comment, and one
of several must not end like its end. -/
theorem harvest_block (hindent : ∀ c ∈ indent.toList, isBlank c = true ∧ c ≠ '\n')
    (h : Harvested ls) (hstar : ∀ l, ls = [l] → l.toList.head? ≠ some '*')
    (hend : 2 ≤ ls.length → ∀ l ∈ ls, ¬['*', '/'] <:+ l.toList) :
    harvest [block indent ls] = ls.filter (!·.isEmpty) ∧
    (harvest [block indent ls] = ls ↔ "" ∉ ls) := by
  have hread : harvest [block indent ls] = ls.filter (!·.isEmpty) := by
    match ls, h with
    | [], _ => rfl
    | [l], h =>
      have hne : l ≠ "" := fun hempty => h.starts (by rw [hempty]; rfl)
      obtain ⟨htrim, -⟩ := List.forall_mem_cons.1 h.trimmed
      obtain ⟨hbreak, -⟩ := List.forall_mem_cons.1 h.unbroken
      rw [harvest_single hindent htrim hbreak (hstar l rfl) hne]
      simp [hne]
    | first :: second :: rest, h =>
      exact harvest_tallBlock hindent h.trimmed h.unbroken (hend (by simp))
  refine ⟨hread, ?_⟩
  rw [hread, List.filter_eq_self]
  constructor
  · intro hall hempty
    cases hall "" hempty
  · intro hnone l hl
    have hne : l ≠ "" := fun hempty => hnone (hempty ▸ hl)
    simpa using hne

/-- Lines that begin like the signs of a comment, indented by a tab. -/
theorem harvest_block_signs :
    let ls := harvest ["/**", " * * Either", " * / or */ both", " * *", " */"]
    ls = ["* Either", "/ or */ both", "*"] ∧ harvest [block "\t" ls] = ls := by
  intro ls
  have hls : ls = ["* Either", "/ or */ both", "*"] := by decide
  have hindent : ∀ c ∈ "\t".toList, isBlank c = true ∧ c ≠ '\n' :=
    List.forall_mem_singleton.2 ⟨rfl, by decide⟩
  have hlonger : ∀ l, ls = [l] → l.toList.head? ≠ some '*' := by simp [hls]
  have hends : ∀ l ∈ ls, ¬['*', '/'] <:+ l.toList := by
    rw [hls]
    decide
  have hnone : "" ∉ ls := by simp [hls]
  exact ⟨hls, (harvest_block hindent (harvested_harvest _) hlonger fun _ => hends).2.2 hnone⟩

/-- The empty line between two paragraphs is lost. -/
theorem not_all_blocks_read_back :
    ¬∀ (indent : String) (ls : List String),
      (∀ c ∈ indent.toList, c = ' ' ∨ c = '\t') → Harvested ls →
      (∀ l, ls = [l] → l.toList.head? ≠ some '*') →
      (2 ≤ ls.length → ∀ l ∈ ls, ¬['*', '/'] <:+ l.toList) →
      harvest [block indent ls] = ls := by
  intro hall
  have hls : Harvested ["First.", "", "Second."] := ⟨by decide, by decide, by decide, by decide⟩
  have hlonger (l : String) (heq : ["First.", "", "Second."] = [l]) :
      l.toList.head? ≠ some '*' := by simp at heq
  have hread : harvest [block "" ["First.", "", "Second."]] ≠ ["First.", "", "Second."] := by decide
  exact hread (hall "" _ (by simp) hls hlonger fun _ => by decide)

end

end TypeBridge.Comment
