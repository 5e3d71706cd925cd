import Mathlib.Data.List.Basic
import TypeBridge.Proofs.Grammar

/-!
# Where reading fails

A text that is no type expression is refused at a place, counted in bytes.  The place is exact
(`failure_position_exact`): what stands before it begins some expression, and with what stands there
none goes on.  Only an array suffix is refused as a whole, so that two characters count where its
bracket stands.

`Reaches` follows the reader over a text.  The bytes it has counted are always those of a front of
the text, and what it still awaits is what makes an expression of that front
(`Reaches.exists_front`).  Every state awaits something (`exists_awaits`), so every front that the
reader passes begins an expression.
-/

namespace TypeBridge.Expression

open Text

/-! ## Every state awaits something -/

/-- The brackets that close all open argument lists. -/
def closings (frames : List Frame) : List Char :=
  List.replicate frames.length '>'

theorem exists_behindType (frames : List Frame) (u : HostType) :
    ∃ t, BehindType frames u (closings frames) t := by
  induction frames generalizing u with
  | nil => exact ⟨u, behindType_nil_iff.2 rfl⟩
  | cons frame outer ih =>
    obtain ⟨t, ht⟩ := ih (frame.close u)
    exact ⟨t, behindType_iff.2 (.inr (closes_cons_iff.2 (.inr ⟨_, blanks_self _, ht⟩)))⟩

theorem exists_behindName (frames : List Frame) (name : String) :
    ∃ t, BehindName frames name (closings frames) t := by
  obtain ⟨t, ht⟩ := exists_behindType frames (typeOfName name)
  exact ⟨t, behindName_iff.2 (.inr ht)⟩

theorem nameEnds_closings (frames : List Frame) : NameEnds (closings frames) := by
  cases frames with
  | nil => exact nofun
  | cons frame outer =>
    have hclose : isNameChar '>' = false := by decide +kernel
    rintro c ⟨⟩
    exact hclose

theorem exists_awaits (state : State) : ∃ s t, state.Awaits s t := by
  cases state with
  | start frames =>
    obtain ⟨t, ht⟩ := exists_behindName frames (String.ofList ['A'])
    have hname : isNameChar 'A' = true := by decide +kernel
    refine ⟨'A' :: closings frames, t, (beforeType_of_nameChar hname).2 ?_⟩
    exact ⟨[], closings frames, rfl, nofun, nameEnds_closings frames, ht⟩
  | inName chars frames =>
    obtain ⟨t, ht⟩ := exists_behindName frames (String.ofList chars)
    refine ⟨closings frames, t, [], closings frames, rfl, nofun, nameEnds_closings frames, ?_⟩
    rwa [List.append_nil]
  | afterName name frames => exact ⟨closings frames, exists_behindName frames name⟩
  | afterType u frames => exact ⟨closings frames, exists_behindType frames u⟩
  | bracket u frames =>
    obtain ⟨t, ht⟩ := exists_behindType frames (.array u)
    exact ⟨']' :: closings frames, t, closings frames, rfl, ht⟩

/-! ## Along a text -/

/-- Reading `s` comes to a state, with `taken` bytes behind it and `rest` to go. -/
inductive Reaches (s : String) : State → Nat → List Char → Prop
  | start : Reaches s (.start []) 0 s.toList
  | step {state next : State} {taken : Nat} {c : Char} {rest : List Char}
      (h : Reaches s state taken (c :: rest))
      (hstep : state.step c = .ok next) : Reaches s next (taken + c.utf8Size) rest

section Reaches

variable {s : String} {state : State} {taken : Nat} {rest : List Char}

theorem Reaches.run_eq (h : Reaches s state taken rest) :
    run (.start []) 0 s.toList = run state taken rest := by
  induction h with
  | start => rfl
  | step _ hstep ih => rw [ih, run, hstep]

/-- What the state awaits is what makes an expression of `front`. -/
def State.Continues (state : State) (front : String) : Prop :=
  ∀ more t, Expresses (front ++ String.ofList more) t ↔ state.Awaits more t

theorem append_cons (front : String) (c : Char) (rest : List Char) :
    front ++ String.ofList (c :: rest) = front ++ String.ofList [c] ++ String.ofList rest := by
  rw [String.append_assoc, ← String.ofList_append, List.singleton_append]

theorem continues_start : (State.start []).Continues "" := by
  intro more t
  rw [← awaits_start_iff]
  simp

theorem State.Continues.step {front : String} {next : State} {c : Char} (h : state.Continues front)
    (hstep : state.step c = .ok next) : next.Continues (front ++ String.ofList [c]) := by
  intro more t
  rw [← append_cons, h, awaits_cons_iff, hstep]
  simp

/-- The bytes that were taken are those of a front of the text, which the state continues. -/
theorem Reaches.exists_front (h : Reaches s state taken rest) :
    ∃ front : String, s = front ++ String.ofList rest ∧ front.utf8ByteSize = taken ∧
      state.Continues front := by
  induction h with
  | start => exact ⟨"", by simp, rfl, continues_start⟩
  | @step state next taken c rest _ hstep ih =>
    obtain ⟨front, hsplit, hbytes, hcontinues⟩ := ih
    have hchar : (String.ofList [c]).utf8ByteSize = c.utf8Size := String.utf8ByteSize_singleton
    refine ⟨front ++ String.ofList [c], ?_, ?_, hcontinues.step hstep⟩
    · rw [hsplit, append_cons]
    · rw [String.utf8ByteSize_append, hbytes, hchar]

theorem isValid_of_split {front behind : String} (h : s = front ++ behind)
    (hbytes : front.utf8ByteSize = taken) :
    taken ≤ s.utf8ByteSize ∧ String.Pos.Raw.IsValid s ⟨taken⟩ := by
  subst hbytes
  refine ⟨?_, String.Pos.Raw.isValid_iff_exists_append.2 ⟨front, behind, h, rfl⟩⟩
  rw [h, String.utf8ByteSize_append]
  exact Nat.le_add_right ..

/-- Nothing can be taken here. -/
def State.Stops (state : State) (rest : List Char) : Prop :=
  ∀ c ∈ rest.head?, ∀ next, state.step c ≠ .ok next

/-- A failure is where the reader stops, less what it gives back. -/
theorem Reaches.exists_stop {failure : Nat × ExpressionFault} (h : Reaches s state taken rest)
    (hrun : run state taken rest = .error failure) :
    ∃ state' taken' rest', Reaches s state' taken' rest' ∧ state'.Stops rest' ∧
      failure.1 = taken' - state'.held := by
  induction rest generalizing state taken with
  | nil =>
    refine ⟨state, taken, [], h, nofun, ?_⟩
    unfold run at hrun
    cases hfinish : state.finish with
    | ok t =>
      rw [hfinish] at hrun
      cases hrun
    | error fault =>
      rw [hfinish] at hrun
      cases hrun
      rfl
  | cons c rest ih =>
    unfold run at hrun
    cases hstep : state.step c with
    | ok next =>
      rw [hstep] at hrun
      exact ih (h.step hstep) hrun
    | error fault =>
      rw [hstep] at hrun
      cases hrun
      refine ⟨state, taken, c :: rest, h, ?_, rfl⟩
      rintro d ⟨⟩ next hnext
      cases hstep.symm.trans hnext

theorem eq_of_stepAfterType {u v : HostType} {frames outer : List Frame} {c : Char}
    (h : stepAfterType v frames c = .ok (.bracket u outer)) : c = '[' := by
  unfold stepAfterType at h
  split at h
  · cases h
  · split at h
    · assumption
    · split at h
      · cases h
      · split at h
        · cases h
        · split at h <;> cases h

theorem eq_of_stepAfterName {u : HostType} {name : String} {frames outer : List Frame} {c : Char}
    (h : stepAfterName name frames c = .ok (.bracket u outer)) : c = '[' := by
  unfold stepAfterName at h
  split at h
  · cases h
  · split at h
    · cases h
    · exact eq_of_stepAfterType h

theorem eq_of_step {u : HostType} {frames : List Frame} {c : Char}
    (h : state.step c = .ok (.bracket u frames)) : c = '[' := by
  cases state with
  | start frames =>
    simp only [State.step] at h
    split at h
    · cases h
    · split at h <;> cases h
  | inName chars frames =>
    simp only [State.step] at h
    split at h
    · cases h
    · exact eq_of_stepAfterName h
  | afterName name frames => exact eq_of_stepAfterName h
  | afterType u frames => exact eq_of_stepAfterType h
  | bracket u frames =>
    simp only [State.step] at h
    split at h <;> cases h

/-- Inside an array suffix the reader has just taken its bracket. -/
theorem Reaches.exists_before_bracket {u : HostType} {frames : List Frame}
    (h : Reaches s (.bracket u frames) taken rest) :
    ∃ state before, Reaches s state before ('[' :: rest) ∧
      state.step '[' = .ok (.bracket u frames) ∧
      taken = before + 1 := by
  cases h with
  | @step state _ before c _ h hstep =>
    obtain rfl := eq_of_step hstep
    exact ⟨state, before, h, hstep, rfl⟩

end Reaches

/-! ## Fronts -/

/-- Some expression begins with `front`. -/
def Viable (front : String) : Prop :=
  ∃ more t, Expresses (front ++ more) t

/-- No expression goes on behind `front` as `behind` does.  The bracket of an array suffix counts
with the character behind it. -/
inductive GoesNoFurther (front : String) : List Char → Prop
  | atEnd : GoesNoFurther front []
  | openSuffix : GoesNoFurther front ['[']
  | character {c : Char} {rest : List Char} (hc : c ≠ '[')
      (h : ¬Viable (front ++ String.ofList [c])) :
      GoesNoFurther front (c :: rest)
  | suffix {c : Char} {rest : List Char} (h : ¬Viable (front ++ String.ofList ['[', c])) :
      GoesNoFurther front ('[' :: c :: rest)

section Fronts

variable {s front : String} {state : State} {rest : List Char}

theorem Viable.of_append {more : String} (h : Viable (front ++ more)) : Viable front := by
  obtain ⟨behind, t, ht⟩ := h
  exact ⟨more ++ behind, t, by rwa [← String.append_assoc]⟩

theorem State.Continues.viable (h : state.Continues front) : Viable front := by
  obtain ⟨more, t, hawaits⟩ := exists_awaits state
  exact ⟨String.ofList more, t, (h more t).2 hawaits⟩

theorem State.Continues.not_viable {c : Char} (h : state.Continues front)
    (hstop : state.Stops (c :: rest)) : ¬Viable (front ++ String.ofList [c]) := by
  rintro ⟨more, t, ht⟩
  rw [← String.ofList_toList (s := more), ← append_cons] at ht
  obtain ⟨next, hnext, -⟩ := (awaits_cons_iff state).1 ((h (c :: more.toList) t).1 ht)
  exact hstop c rfl next hnext

theorem State.Continues.goesNoFurther (h : state.Continues front) (hstop : state.Stops rest) :
    GoesNoFurther front rest := by
  match rest with
  | [] => exact .atEnd
  | c :: rest =>
    have hcharacter := h.not_viable hstop
    by_cases hc : c = '['
    · subst hc
      match rest with
      | [] => exact .openSuffix
      | d :: rest =>
        refine .suffix fun hviable => hcharacter ?_
        rw [append_cons] at hviable
        exact hviable.of_append
    · exact .character hc hcharacter

/-- Behind the bracket of an array suffix the failure is that of the whole suffix. -/
theorem State.Continues.goesNoFurther_suffix (h : state.Continues (front ++ String.ofList ['[']))
    (hstop : state.Stops rest) : GoesNoFurther front ('[' :: rest) := by
  match rest with
  | [] => exact .openSuffix
  | c :: rest =>
    refine .suffix ?_
    rw [append_cons]
    exact h.not_viable hstop

theorem State.held_cases (state : State) :
    state.held = 0 ∨ ∃ u frames, state = .bracket u frames := by
  cases state with
  | bracket u frames => exact .inr ⟨u, frames, rfl⟩
  | _ => exact .inl rfl

end Fronts

/-- **The position of a failure is exact.**  A text that is no expression is refused with itself and
with a position that lies in it, between two characters, as do all places that the reader comes by.
The text before the position begins some expression, and none goes on with what stands there, if the
text does not end there or with the bracket of an array suffix. -/
theorem failure_position_exact {s : String} {e : ExpressionError} (h : read s = .error e) :
    e.input = s ∧ e.position ≤ s.utf8ByteSize ∧ String.Pos.Raw.IsValid s ⟨e.position⟩ ∧
      (∀ state taken rest, Reaches s state taken rest →
        run (.start []) 0 s.toList = run state taken rest ∧
        taken ≤ s.utf8ByteSize ∧ String.Pos.Raw.IsValid s ⟨taken⟩) ∧
      ∃ front behind, s = front ++ String.ofList behind ∧
        front.utf8ByteSize = e.position ∧ Viable front ∧
        GoesNoFurther front behind := by
  have hplaces : ∀ state taken rest, Reaches s state taken rest →
      run (.start []) 0 s.toList = run state taken rest ∧
      taken ≤ s.utf8ByteSize ∧ String.Pos.Raw.IsValid s ⟨taken⟩ := by
    intro state taken rest hreaches
    obtain ⟨front, hsplit, hbytes, -⟩ := hreaches.exists_front
    exact ⟨hreaches.run_eq, isValid_of_split hsplit hbytes⟩
  obtain ⟨failure, hrun, rfl⟩ : ∃ failure, run (.start []) 0 s.toList = .error failure ∧
      (⟨s, failure.1, failure.2⟩ : ExpressionError) = e := except_mapError_eq_error.1 h
  obtain ⟨state, taken, rest, hreaches, hstop, hposition⟩ := Reaches.start.exists_stop hrun
  suffices hfront : ∃ front behind, s = front ++ String.ofList behind ∧
      front.utf8ByteSize = failure.1 ∧
      Viable front ∧ GoesNoFurther front behind by
    obtain ⟨front, behind, hsplit, hbytes, hexact⟩ := hfront
    obtain ⟨hle, hvalid⟩ := isValid_of_split hsplit hbytes
    exact ⟨rfl, hle, hvalid, hplaces, front, behind, hsplit, hbytes, hexact⟩
  rcases state.held_cases with hheld | ⟨u, frames, rfl⟩
  · obtain ⟨front, hsplit, hbytes, hcontinues⟩ := hreaches.exists_front
    refine ⟨front, rest, hsplit, ?_, hcontinues.viable, hcontinues.goesNoFurther hstop⟩
    rw [hbytes, hposition, hheld, Nat.sub_zero]
  · obtain ⟨state, before, hbefore, hstep, rfl⟩ := hreaches.exists_before_bracket
    obtain ⟨front, hsplit, hbytes, hcontinues⟩ := hbefore.exists_front
    exact ⟨front, '[' :: rest, hsplit, hbytes.trans hposition.symm, hcontinues.viable,
      (hcontinues.step hstep).goesNoFurther_suffix hstop⟩

/-- Two bytes for each letter in front, and an array suffix that is refused as a whole. -/
theorem failure_position_exact_suffix :
    ∃ e, read "Ü<é [x" = .error e ∧ e.position = 6 ∧
      ∃ front behind, "Ü<é [x" = front ++ String.ofList behind ∧
        front.utf8ByteSize = 6 ∧ Viable front ∧
        GoesNoFurther front behind := by
  have hread : read "Ü<é [x" = .error ⟨"Ü<é [x", 6, .closingExpected⟩ := by decide +kernel
  obtain ⟨-, -, -, -, hfront⟩ := failure_position_exact hread
  exact ⟨_, hread, rfl, hfront⟩

end TypeBridge.Expression
