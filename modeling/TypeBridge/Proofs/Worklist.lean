import Mathlib.Data.List.Dedup
import Mathlib.Data.List.TakeWhile
import TypeBridge.Proofs.Discovery

/-!
# The worklist comes to an end

`Run.During` are the states of a run between two entries.  `Taken` and `step_eq_ok` say what the two
halves of a turn of the loop do, and every later result on runs is an induction over them.

A run of the standard pipeline is `Confined` to its candidates, of which each turn takes a new one.
So there are no more turns than candidates (`worklist_terminates`), and a larger budget changes
nothing.
-/

namespace TypeBridge

open Functional Resolving

namespace Run

variable {s : Setup} {mode : FunctionalMode} {types : List HostType} {roots : List HostType}
variable {r later after : Run} {e : Entry}

/-! ## One turn -/

/-- The states of a run between two entries. -/
inductive During (s : Setup) (roots : List HostType) : Run → Prop
  | start : During s roots (ofRoots roots)
  | step {r later after : Run} {e : Entry} (h : During s roots r)
      (hnext : r.next? = some (e, later))
      (hstep : later.step s e = .ok after) : During s roots after

/-- `later` is `r` with `e` taken off its queue to be worked on. -/
structure Taken (r : Run) (e : Entry) (later : Run) : Prop where
  fresh : e.type ∉ r.seen
  mem : e ∈ r.queue
  seen : later.seen = r.seen ++ [e.type]
  symbols : later.symbols = r.symbols
  model : later.model = r.model
  queue : ∀ x ∈ later.queue, x ∈ r.queue
  dropped : ∀ x ∈ r.queue, x.type ∈ later.seen ∨ x ∈ later.queue

theorem of_next? (h : r.next? = some (e, later)) :
    later = { r with queue := later.queue, seen := r.seen ++ [e.type] } ∧ e.type ∉ r.seen ∧
      ∃ front, r.queue = front ++ e :: later.queue ∧ ∀ x ∈ front, x.type ∈ r.seen := by
  have hsplit :=
    List.takeWhile_append_dropWhile (p := fun e => r.seen.contains e.type) (l := r.queue)
  unfold next? at h
  split at h
  · cases h
  · next first rest hdrop =>
    cases h
    rw [hdrop] at hsplit
    have hfirst := List.head?_dropWhile_not (fun e => r.seen.contains e.type) r.queue
    rw [hdrop] at hfirst
    refine ⟨rfl, by simpa using hfirst, _, hsplit.symm, fun x hx => ?_⟩
    simpa using List.mem_takeWhile_imp hx

theorem taken_of_next? (h : r.next? = some (e, later)) : Taken r e later := by
  obtain ⟨hlater, hfresh, front, hqueue, hfront⟩ := of_next? h
  have hseen : later.seen = r.seen ++ [e.type] := by rw [hlater]
  refine ⟨hfresh, ?_, hseen, by rw [hlater], by rw [hlater], fun x hx => ?_, fun x hx => ?_⟩
  · rw [hqueue]
    exact List.mem_append_right _ List.mem_cons_self
  · rw [hqueue]
    exact List.mem_append_right _ (List.mem_cons_of_mem _ hx)
  · rw [hqueue] at hx
    rw [hseen]
    rcases List.mem_append.1 hx with hx | hx
    · exact .inl (List.mem_append_left _ (hfront x hx))
    · rcases List.mem_cons.1 hx with rfl | hx
      · exact .inl (List.mem_append_right _ (List.mem_singleton_self _))
      · exact .inr hx

theorem seen_of_next?_eq_none (h : r.next? = none) : ∀ x ∈ r.queue, x.type ∈ r.seen := by
  unfold next? at h
  split at h
  · next hdrop =>
    intro x hx
    have hall := List.dropWhile_eq_nil_iff.1 hdrop x hx
    simpa using hall
  · cases h

theorem step_eq (hs : s.Acts mode types) (he : e.type ∈ types) (r : Run) :
    r.step s e = match contribution mode s.host s.settings e with
      | .error f => .error f
      | .ok c => { r with symbols := r.symbols.issueAll c.asked }.absorb
          (c.value (r.symbols.issueAll c.asked)) := by
  have hfollows := Setup.follows_contribute hs he
  unfold step
  cases hc : contribution mode s.host s.settings e with
  | error f =>
    rw [hc] at hfollows
    have herror := hfollows r.symbols
    cases hrun : (s.contribute e).run r.symbols with
    | mk result symbols =>
      rw [hrun] at herror
      cases herror
      rfl
  | ok c =>
    rw [hc] at hfollows
    rw [hfollows r.symbols]

theorem absorb_eq {c : Contribution} (h : c.externals = []) (r : Run) :
    r.absorb c = (match c.declaration with
      | some d => r.model.add d
      | none =>
          .ok r.model).map fun model => { r with model, queue := r.queue ++ c.discovered } := by
  unfold absorb
  rw [h]
  cases c.declaration with
  | none => rfl
  | some d =>
    cases hadd : r.model.add d with
    | error f => simp [hadd, Except.map, bind, Except.bind, pure, Except.pure]
    | ok m => simp [hadd, Except.map, bind, Except.bind, pure, Except.pure]

/-- What a turn that succeeds leaves behind. -/
structure Worked (mode : FunctionalMode) (s : Setup) (e : Entry) (later after : Run)
    (c : Script Contribution) :
    Prop where
  contribution : contribution mode s.host s.settings e = .ok c
  symbols : after.symbols = later.symbols.issueAll c.asked
  seen : after.seen = later.seen
  queue : after.queue = later.queue ++ (c.value after.symbols).discovered
  model : (match (c.value after.symbols).declaration with
    | some d => later.model.add d
    | none => .ok later.model) = .ok after.model

theorem worked_of_step (hs : s.Acts mode types) (he : e.type ∈ types)
    (h : later.step s e = .ok after) : ∃ c, Worked mode s e later after c := by
  rw [step_eq hs he] at h
  cases hc : contribution mode s.host s.settings e with
  | error f => rw [hc] at h; cases h
  | ok c =>
    rw [hc] at h
    dsimp only at h
    have hexternals : (c.value (later.symbols.issueAll c.asked)).externals = [] :=
      externals_eq_nil hc _
    rw [absorb_eq hexternals] at h
    cases hm : (match (c.value (later.symbols.issueAll c.asked)).declaration with
        | some d => later.model.add d
        | none => .ok later.model) with
    | error f => rw [hm] at h; cases h
    | ok m =>
      rw [hm] at h
      cases h
      exact ⟨c, hc, rfl, rfl, rfl, hm⟩

theorem step_ne_exhausted (hs : s.Acts mode types) (he : e.type ∈ types) (r : Run) :
    r.step s e ≠ .error .exhausted := by
  rw [step_eq hs he]
  cases hc : contribution mode s.host s.settings e with
  | error f =>
    intro h
    cases h
    exact contribution_ne_exhausted e hc
  | ok c =>
    dsimp only
    rw [absorb_eq (externals_eq_nil hc _)]
    cases hd : (c.value (r.symbols.issueAll c.asked)).declaration with
    | none => exact fun h => nomatch h
    | some d =>
      dsimp only
      cases hadd : r.model.add d with
      | ok m => exact fun h => nomatch h
      | error f =>
        intro h
        cases h
        exact nomatch (Model.add_eq_error_iff.1 hadd).2

/-! ## Whole runs -/

theorem During.of_drain (h : During s roots r) {bound : Nat} {last : Run}
    (hdrain : drain s bound r = .ok last) : During s roots last ∧ last.next? = none := by
  induction bound generalizing r with
  | zero =>
    unfold drain at hdrain
    split at hdrain
    · next hnext =>
      cases hdrain
      exact ⟨h, Option.isNone_iff_eq_none.1 hnext⟩
    · cases hdrain
  | succ bound ih =>
    unfold drain at hdrain
    split at hdrain
    · next hnext =>
      cases hdrain
      exact ⟨h, hnext⟩
    · next e later hnext =>
      split at hdrain
      · cases hdrain
      · next after hstep => exact ih (h.step hnext hstep) hdrain

theorem During.of_run {bound : Nat} {last : Run} (h : s.run bound roots = .ok last) :
    During s roots last ∧ last.next? = none := by
  unfold Setup.run at h
  split at h
  · cases h
  · exact During.of_drain .start h

/-- A run that fails has failed before its first turn, in a turn or for lack of budget. -/
theorem During.of_drain_error (h : During s roots r) {bound : Nat} {f : Failure}
    (hdrain : drain s bound r = .error f) :
    f = .exhausted ∨ ∃ r e later, During s roots r ∧ r.next? = some (e, later) ∧
    later.step s e = .error f := by
  induction bound generalizing r with
  | zero =>
    unfold drain at hdrain
    split at hdrain
    · cases hdrain
    · cases hdrain
      exact .inl rfl
  | succ bound ih =>
    unfold drain at hdrain
    split at hdrain
    · cases hdrain
    · next e later hnext =>
      split at hdrain
      · next failure hstep =>
        cases hdrain
        exact .inr ⟨r, e, later, h, hnext, hstep⟩
      · next after hstep => exact ih (h.step hnext hstep) hdrain

theorem During.of_run_error {bound : Nat} {f : Failure} (h : s.run bound roots = .error f) :
    (∃ name, Setup.unknownRoot? s.host roots = some name ∧ f = .unknownRoot name) ∨
    Setup.unknownRoot? s.host roots = none ∧ (f = .exhausted ∨
      ∃ r e later, During s roots r ∧ r.next? = some (e, later) ∧ later.step s e = .error f) := by
  unfold Setup.run at h
  split at h
  · next name hname =>
    cases h
    exact .inl ⟨name, hname, rfl⟩
  · next hnone => exact .inr ⟨hnone, During.of_drain_error .start h⟩

/-! ## Candidates -/

/-- A run that takes every type at most once, and none from outside `types`. -/
structure Confined (types : List HostType) (r : Run) : Prop where
  nodup : r.seen.Nodup
  seen : r.seen ⊆ types
  queue : ∀ e ∈ r.queue, e.type ∈ types

theorem confined_ofRoots (u : Universe) (roots : List HostType) :
    Confined (candidates u roots) (ofRoots roots) where
  nodup := List.nodup_nil
  seen := List.nil_subset _
  queue := fun e he => by
    obtain ⟨t, ht, rfl⟩ := List.mem_map.1 he
    exact List.mem_append_left _ ht

theorem Confined.length_le (h : Confined types r) : r.seen.length ≤ types.dedup.length :=
  h.nodup.length_le_of_subset fun _ ht => List.mem_dedup.2 (h.seen ht)

theorem Confined.taken (h : Confined types r) (ht : Taken r e later) : Confined types later where
  nodup := ht.seen ▸ SymbolTable.nodup_append_singleton h.nodup ht.fresh
  seen := by
    rw [ht.seen]
    exact List.append_subset.2 ⟨h.seen, List.cons_subset.2 ⟨h.queue e ht.mem, List.nil_subset _⟩⟩
  queue := fun x hx => h.queue x (ht.queue x hx)

theorem Confined.worked (h : Confined (candidates s.host roots) later) {c : Script Contribution}
    (hw : Worked mode s e later after c) : Confined (candidates s.host roots) after where
  nodup := hw.seen ▸ h.nodup
  seen := hw.seen ▸ h.seen
  queue := fun x hx => by
    rw [hw.queue] at hx
    rcases List.mem_append.1 hx with hx | hx
    · exact h.queue x hx
    · exact List.mem_append_right _
        (discovered_subset hw.contribution after.symbols (List.mem_map_of_mem hx))

theorem Confined.of_during (hs : s.Acts mode types) (htypes : candidates s.host roots ⊆ types)
    (h : During s roots r) : Confined (candidates s.host roots) r := by
  induction h with
  | start => exact confined_ofRoots ..
  | @step r later after e _ hnext hstep ih =>
    have ht := taken_of_next? hnext
    obtain ⟨c, hw⟩ := worked_of_step hs (htypes (ih.queue e ht.mem)) hstep
    exact (ih.taken ht).worked hw

/-- What holds at the start and is kept by every turn holds at every moment of a run. -/
theorem During.invariant (hs : s.Acts mode types) (htypes : candidates s.host roots ⊆ types)
    {P : Run → Prop} (start : P (ofRoots roots))
    (turn : ∀ {r later after : Run} {e : Entry} {c : Script Contribution}, P r → Taken r e later →
      e.type ∈ types → Worked mode s e later after c → P after) (h : During s roots r) : P r := by
  induction h with
  | start => exact start
  | @step r later after e hr hnext hstep ih =>
    have ht := taken_of_next? hnext
    have he : e.type ∈ types := htypes ((Confined.of_during hs htypes hr).queue e ht.mem)
    obtain ⟨c, hw⟩ := worked_of_step hs he hstep
    exact turn ih ht he hw

/-- A run that has taken as many types as there are candidates is done. -/
theorem Confined.next?_eq_none (h : Confined types r) (hfull : types.dedup.length ≤ r.seen.length) :
    r.next? = none := by
  cases hnext : r.next? with
  | none => rfl
  | some p =>
    obtain ⟨e, later⟩ := p
    have ht := taken_of_next? hnext
    have hle := (h.taken ht).length_le
    rw [ht.seen, List.length_append, List.length_singleton] at hle
    omega

/-! ## The end of the loop -/

section Agreement

variable {other : Setup} {types' : List HostType}

theorem drain_of_next?_eq_none (h : r.next? = none) (bound : Nat) : drain s bound r = .ok r := by
  cases bound <;> simp [drain, h]

/-- From a confined run on, budgets that cover the candidates not yet taken agree and suffice, also
for another setup in which the candidates bring the same. -/
theorem drain_eq (hs : s.Acts mode types) (ho : other.Acts mode types')
    (htypes : candidates s.host roots ⊆ types) (htypes' : candidates s.host roots ⊆ types')
    (hsame : ∀ e : Entry, e.type ∈ candidates s.host roots →
      contribution mode other.host other.settings e =
        contribution mode s.host s.settings e) (bound : Nat) :
    ∀ (bound' : Nat) (r : Run), Confined (candidates s.host roots) r →
      (candidates s.host roots).dedup.length ≤ r.seen.length + bound →
        (candidates s.host roots).dedup.length ≤ r.seen.length + bound' →
          drain s bound r ≠ .error .exhausted ∧ drain s bound r = drain other bound' r := by
  induction bound with
  | zero =>
    intro bound' r hr hbound _
    have hnext := hr.next?_eq_none hbound
    rw [drain_of_next?_eq_none hnext, drain_of_next?_eq_none hnext]
    exact ⟨fun h => (nomatch h), rfl⟩
  | succ bound ih =>
    intro bound' r hr hbound hbound'
    cases hnext : r.next? with
    | none =>
      rw [drain_of_next?_eq_none hnext, drain_of_next?_eq_none hnext]
      exact ⟨fun h => (nomatch h), rfl⟩
    | some p =>
      obtain ⟨e, later⟩ := p
      have ht := taken_of_next? hnext
      have hcandidate : e.type ∈ candidates s.host roots := hr.queue e ht.mem
      have he : e.type ∈ types := htypes hcandidate
      have hlater := hr.taken ht
      cases bound' with
      | zero =>
        have hnone := hr.next?_eq_none hbound'
        rw [hnext] at hnone
        cases hnone
      | succ bound' =>
        have hstep : later.step s e = later.step other e := by
          rw [step_eq hs he, step_eq ho (htypes' hcandidate), hsame e hcandidate]
        simp only [drain, hnext, ← hstep]
        cases hresult : later.step s e with
        | error f => exact ⟨fun h => step_ne_exhausted hs he later (hresult.trans h), rfl⟩
        | ok after =>
          obtain ⟨c, hw⟩ := worked_of_step hs he hresult
          have hcount : after.seen.length = r.seen.length + 1 := by
            rw [hw.seen, ht.seen, List.length_append, List.length_singleton]
          exact ih bound' after (hlater.worked hw) (by omega) (by omega)

/-- Two setups that know the same roots, and in which the candidates bring the same, run alike. -/
theorem run_congr (hs : s.Acts mode types) (ho : other.Acts mode types')
    (htypes : candidates s.host roots ⊆ types) (htypes' : candidates s.host roots ⊆ types')
    (hroots : Setup.unknownRoot? other.host roots = Setup.unknownRoot? s.host roots)
    (hsame : ∀ e : Entry, e.type ∈ candidates s.host roots →
      contribution mode other.host other.settings e = contribution mode s.host s.settings e)
    {bound bound' : Nat} (hbound : (candidates s.host roots).dedup.length ≤ bound)
    (hbound' : (candidates s.host roots).dedup.length ≤ bound') :
    s.run bound roots ≠ .error .exhausted ∧ s.run bound roots = other.run bound' roots := by
  unfold Setup.run
  rw [hroots]
  cases Setup.unknownRoot? s.host roots with
  | some name => exact ⟨fun h => (nomatch h), rfl⟩
  | none =>
    exact drain_eq hs ho htypes htypes' hsame bound bound' (ofRoots roots) (confined_ofRoots ..)
      (Nat.le_trans hbound (Nat.le_add_left ..)) (Nat.le_trans hbound' (Nat.le_add_left ..))

theorem run_eq (hs : s.Acts mode types) (ho : other.Acts mode types) (hhost : other.host = s.host)
    (hsettings : other.settings = s.settings) (htypes : candidates s.host roots ⊆ types)
    {bound bound' : Nat} (hbound : (candidates s.host roots).dedup.length ≤ bound)
    (hbound' : (candidates s.host roots).dedup.length ≤ bound') :
    s.run bound roots ≠ .error .exhausted ∧ s.run bound roots = other.run bound' roots :=
  run_congr hs ho htypes htypes (by rw [hhost]) (fun e _ => by rw [hhost, hsettings]) hbound hbound'

end Agreement

/-- The types that a run has taken at some moment, the one in work among them. -/
inductive Processes (s : Setup) (roots : List HostType) : List HostType → Prop
  | between {r : Run} (h : During s roots r) : Processes s roots r.seen
  | working {r later : Run} {e : Entry} (h : During s roots r) (hnext : r.next? = some (e, later)) :
      Processes s roots later.seen

end Run

/-- **The worklist of the standard pipeline ends.**  At every moment of a run the types taken so far
are pairwise distinct and among its roots, the bare classes of the universe and the types that tags
and providers bring along, so that there are no more of them than of these; and a budget of that
many types suffices, since beyond it and beyond the covering depth of resolutions the result is the
same. -/
theorem worklist_terminates (settings : Settings) (u : Universe) (roots : List HostType) :
    ∃ bound, bound = (candidates u roots).dedup.length ∧
      ∀ depth, (Budget.covering u roots).depth ≤ depth →
        let s := (Generator.standard settings).setup depth u
        (∀ taken, Run.Processes s roots taken →
          taken.Nodup ∧ taken ⊆ candidates u roots ∧ taken.length ≤ bound) ∧
        ∀ types, bound ≤ types → s.run types roots ≠ .error .exhausted ∧
          s.run types roots =
            ((Generator.standard settings).setup (Budget.covering u roots).depth u).run
              bound roots := by
  refine ⟨_, rfl, fun depth hdepth => ?_⟩
  have hs := standard_acts (u := u) settings hdepth
  have htypes : candidates u roots ⊆ u.writtenTypes ++ candidates u roots :=
    List.subset_append_right ..
  refine ⟨fun taken htaken => ?_, fun types hbound => ?_⟩
  · have hconfined : ∃ r : Run, taken = r.seen ∧ Run.Confined (candidates u roots) r := by
      cases htaken with
      | between h => exact ⟨_, rfl, Run.Confined.of_during hs htypes h⟩
      | working h hnext =>
        exact ⟨_, rfl, (Run.Confined.of_during hs htypes h).taken (Run.taken_of_next? hnext)⟩
    obtain ⟨r, rfl, hr⟩ := hconfined
    exact ⟨hr.nodup, hr.seen, hr.length_le⟩
  · have hcovering := standard_acts (u := u) settings (Nat.le_refl (Budget.covering u roots).depth)
    exact Run.run_eq hs hcovering rfl rfl htypes hbound
      (Nat.le_refl (candidates u roots).dedup.length)

/-- The standard setup for some roots, of the depth that covers them. -/
def standardSetup (settings : Settings) (u : Universe) (roots : List HostType) : Setup :=
  (Generator.standard settings).setup (Budget.covering u roots).depth u

/-- The run of the standard pipeline on its covering budget. -/
def standardRun (settings : Settings) (u : Universe) (roots : List HostType) : Except Failure Run :=
  (standardSetup settings u roots).run (Budget.covering u roots).types roots

theorem acts_standardSetup (settings : Settings) (u : Universe) (roots : List HostType) :
    (standardSetup settings u roots).Acts settings.functionalMode
      (u.writtenTypes ++ candidates u roots) :=
  standard_acts settings (Nat.le_refl _)

theorem length_candidates_le (u : Universe) (roots : List HostType) :
    (candidates u roots).dedup.length ≤ (Budget.covering u roots).types := by
  refine Nat.le_trans (List.dedup_sublist _).length_le (Nat.le_of_eq ?_)
  simp [candidates, Universe.discoverable, Universe.classTypes, Budget.covering, Nat.add_assoc]

/-- Beyond the covering depth the run is the same. -/
theorem standardRun_eq (settings : Settings) {u : Universe} {roots : List HostType} {depth : Nat}
    (hdepth : (Budget.covering u roots).depth ≤ depth) :
    standardRun settings u roots =
      ((Generator.standard settings).setup depth u).run (Budget.covering u roots).types roots :=
  (Run.run_eq (acts_standardSetup settings u roots) (standard_acts settings hdepth) rfl rfl
    (List.subset_append_right ..) (length_candidates_le u roots) (length_candidates_le u roots)).2

/-- The model with the documentation of the host. -/
def Model.documented (u : Universe) (m : Model) : Model :=
  { m with
    beans := m.beans.map (Enricher.documentBean u)
    enumerations := m.enumerations.map (Enricher.documentEnumeration u) }

/-- The model of a generator with the standard enrichment. -/
theorem Generator.model_eq_map (settings : Settings) (chain : Chain) (claimants : List Claimant)
    (selection : Selection) (budget : Budget) (u : Universe) (roots : List HostType) :
    let g : Generator := { settings, chain, claimants, selection }
    g.model budget u roots = ((g.setup budget.depth u).run budget.types roots).map fun r =>
      r.model.documented u := by
  intro g
  change (g.setup budget.depth u).run budget.types roots >>= _ = _
  cases (g.setup budget.depth u).run budget.types roots <;> rfl

theorem generate_eq (settings : Settings) (u : Universe) (roots : List HostType) :
    generate settings u roots =
      (standardRun settings u roots).map fun r => (r.model.documented u).render settings := by
  change (standardRun settings u roots >>= _) >>= _ = _
  cases standardRun settings u roots <;> rfl

end TypeBridge
