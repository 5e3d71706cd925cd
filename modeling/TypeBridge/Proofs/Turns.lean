import TypeBridge.Proofs.Declarations

/-!
# The turns of a run

Runs of any setup: whatever resolver its chain makes, and whatever claimants and selection of
members are plugged in.  `Run.Logged` tells a state of a run by the turns that have led to it, each
with what it has put into the queue.

The order of work is the order in which types enter the queue for the first time
(`Logged.eraseDups_enqueuedTypes`).  So every type has one turn: a claimant's or the chain's, and
only the chain's turns make beans and enumerations.  Where nobody claims anything the model cannot
refuse a declaration (`Logged.exists_absorb`), since its sources have all had their turn.
-/

namespace TypeBridge

open Resolving

/-! ## What the work on an entry brings -/

namespace Setup

variable {s : Setup} {e : Entry} {table last : SymbolTable}

/-- Some claimant takes the entry over. -/
def claims (s : Setup) (e : Entry) (table : SymbolTable) : Bool :=
  match ((s.firstClaim e s.claimants).run table).1 with
  | .ok (some _) => true
  | _ => false

theorem claims_of_no_claimants (h : s.claimants = []) (e : Entry) (table : SymbolTable) :
    s.claims e table = false := by
  unfold claims
  rw [h]
  rfl

theorem source_of_declare {source : HostType} {d : ClassDecl} {x : Declaration} {found : List Entry}
    (h : (s.declare source d).run table = (.ok (x, found), last)) : x.source = source := by
  unfold declare at h
  obtain ⟨signature, _, -, h⟩ := exists_of_run_bind h
  obtain ⟨symbol, _, -, h⟩ := exists_of_run_bind h
  dsimp only at h
  split at h
  · cases (eq_of_run_pure h).1
    rfl
  · obtain ⟨parents, _, -, h⟩ := exists_of_run_bind h
    obtain ⟨members, _, -, h⟩ := exists_of_run_bind h
    cases (eq_of_run_pure h).1
    rfl

theorem of_resolveEntry {c : Contribution} (h : (s.resolveEntry e).run table = (.ok c, last)) :
    c.externals = [] ∧ ∀ x ∈ c.declaration, x.source = e.type := by
  unfold resolveEntry at h
  obtain ⟨resolution, _, -, h⟩ := exists_of_run_bind h
  cases resolution with
  | none =>
    cases (eq_of_run_pure h).1
    exact ⟨rfl, nofun⟩
  | some r =>
    dsimp only at h
    split at h
    · cases (eq_of_run_pure h).1
      exact ⟨rfl, nofun⟩
    · obtain ⟨⟨x, found⟩, _, hdeclare, h⟩ := exists_of_run_bind h
      cases (eq_of_run_pure h).1
      refine ⟨rfl, fun y hy => ?_⟩
      obtain rfl : x = y := Option.some.inj hy
      exact source_of_declare hdeclare

/-- A claim brings external declarations only, and the chain at most one declaration, of the entry's
own type. -/
theorem of_contribute {c : Contribution} (h : (s.contribute e).run table = (.ok c, last)) :
    (s.claims e table = true ∧ c.declaration = none) ∨
    (s.claims e table = false ∧ c.externals = [] ∧ ∀ x ∈ c.declaration, x.source = e.type) := by
  unfold contribute at h
  obtain ⟨claim, later, hclaim, h⟩ := exists_of_run_bind h
  have hclaims : s.claims e table = claim.isSome := by
    unfold claims
    rw [hclaim]
    cases claim <;> rfl
  cases claim with
  | some claim =>
    cases (eq_of_run_pure h).1
    exact .inl ⟨hclaims, rfl⟩
  | none => exact .inr ⟨hclaims, of_resolveEntry h⟩

end Setup

theorem Model.generated_of_addExternal {m later : Model} {e : External}
    (h : m.addExternal e = .ok later) : later.generated = m.generated := by
  obtain ⟨-, rfl⟩ := Model.addExternal_eq_ok_iff.1 h
  rfl

theorem Model.of_addExternals {es : List External} {m later : Model}
    (h : es.foldlM Model.addExternal m = .ok later) :
    later.generated = m.generated ∧ later.sources = m.sources ++ es.map (·.source) ∧
      (m.Kept → later.Kept) := by
  induction es generalizing m with
  | nil =>
    cases h
    exact ⟨rfl, (List.append_nil _).symm, id⟩
  | cons e rest ih =>
    rw [List.foldlM_cons] at h
    obtain ⟨next, hnext, h⟩ := except_bind_eq_ok.1 h
    obtain ⟨hgenerated, hsources, hkept⟩ := ih h
    refine ⟨hgenerated.trans (Model.generated_of_addExternal hnext), ?_,
      fun hm => hkept (hm.addExternal hnext)⟩
    rw [hsources, Model.sources_addExternal hnext, List.append_assoc, List.map_cons,
      List.singleton_append]

/-! ## Logs -/

/-- A turn of the loop: the entry that was worked on, whether a claimant took it over, and the
entries that the work put into the queue. -/
structure Turn where
  entry : Entry
  claimed : Bool
  discovered : List Entry

/-- The types worked on, in order. -/
def workedTypes (log : List Turn) : List HostType :=
  log.map (·.entry.type)

/-- The types that were put into the queue, the roots first. -/
def enqueuedTypes (roots : List HostType) (log : List Turn) : List HostType :=
  roots ++ log.flatMap fun turn => turn.discovered.map (·.type)

namespace Run

variable {s : Setup} {roots : List HostType} {log : List Turn} {r later after : Run} {e : Entry}
variable {c : Contribution} {symbols : SymbolTable}

/-- The states of a run between two entries, each with the turns before it. -/
inductive Logged (s : Setup) (roots : List HostType) : List Turn → Run → Prop
  | start : Logged s roots [] (ofRoots roots)
  | turn {log : List Turn} {r later after : Run} {e : Entry} {c : Contribution}
      {symbols : SymbolTable}
      (h : Logged s roots log r) (hnext : r.next? = some (e, later))
      (hwork : (s.contribute e).run later.symbols = (.ok c, symbols))
      (habsorb : { later with symbols }.absorb c = .ok after) :
      Logged s roots (log ++ [⟨e, s.claims e later.symbols, c.discovered⟩]) after

theorem step_eq_ok (h : later.step s e = .ok after) :
    ∃ c symbols, (s.contribute e).run later.symbols = (.ok c, symbols) ∧
      { later with symbols }.absorb c = .ok after := by
  unfold step at h
  split at h
  · cases h
  · next c symbols hwork => exact ⟨c, symbols, hwork, h⟩

theorem During.exists_logged (h : During s roots r) : ∃ log, Logged s roots log r := by
  induction h with
  | start => exact ⟨[], .start⟩
  | step _ hnext hstep ih =>
    obtain ⟨log, hlog⟩ := ih
    obtain ⟨c, symbols, hwork, habsorb⟩ := step_eq_ok hstep
    exact ⟨_, hlog.turn hnext hwork habsorb⟩

/-! ## One turn -/

/-- `after` is `r` with a contribution taken up. -/
structure Absorbed (r : Run) (c : Contribution) (after : Run) : Prop where
  seen : after.seen = r.seen
  queue : after.queue = r.queue ++ c.discovered
  kept : r.model.Kept → after.model.Kept
  generated : ∀ x ∈ after.model.generated, x ∈ r.model.generated ∨ x ∈ c.declaration
  sources : ∀ t ∈ after.model.sources,
    t ∈ r.model.sources ∨ t ∈ c.externals.map (·.source) ∨ ∃ x ∈ c.declaration, t = x.source

theorem absorbed_of_absorb (h : r.absorb c = .ok after) : Absorbed r c after := by
  unfold absorb at h
  obtain ⟨external, hexternal, h⟩ := except_bind_eq_ok.1 h
  obtain ⟨hgenerated, hsources, hkept⟩ := Model.of_addExternals hexternal
  have hmem : ∀ t ∈ external.sources, t ∈ r.model.sources ∨ t ∈ c.externals.map (·.source) := by
    intro t ht
    rw [hsources] at ht
    exact List.mem_append.1 ht
  cases hd : c.declaration with
  | none =>
    rw [hd] at h
    cases h
    exact ⟨rfl, rfl, hkept, fun x hx => .inl (hgenerated ▸ hx), fun t ht =>
      (hmem t ht).imp_right .inl⟩
  | some d =>
    rw [hd] at h
    obtain ⟨model, hmodel, h⟩ := except_bind_eq_ok.1 h
    cases h
    refine ⟨rfl, rfl, fun hm => (hkept hm).add hmodel, fun x hx => ?_, fun t ht => ?_⟩
    · rcases Model.mem_generated_of_add hmodel hx with hx | rfl
      · exact .inl (hgenerated ▸ hx)
      · exact .inr hd
    · rcases List.mem_append.1 ((Model.sources_add hmodel).mem_iff.1 ht) with ht | ht
      · exact (hmem t ht).imp_right .inl
      · exact .inr (.inr ⟨d, hd, List.mem_singleton.1 ht⟩)

namespace Logged

/-! ## The order of work -/

theorem seen_eq (h : Logged s roots log r) : r.seen = workedTypes log := by
  induction h with
  | start => rfl
  | turn _ hnext _ habsorb ih =>
    rw [(absorbed_of_absorb habsorb).seen, workedTypes, List.map_append]
    rw [workedTypes] at ih
    rw [← ih, (of_next? hnext).1]
    rfl

theorem nodup (h : Logged s roots log r) : r.seen.Nodup := by
  induction h with
  | start => exact List.nodup_nil
  | turn _ hnext _ habsorb ih =>
    obtain ⟨hlater, hfresh, -⟩ := of_next? hnext
    rw [(absorbed_of_absorb habsorb).seen, hlater]
    exact SymbolTable.nodup_append_singleton ih hfresh

/-- Entries in front of the one that is taken were seen before. -/
theorem eraseDups_of_next? (h : r.next? = some (e, later)) :
    (later.seen ++ later.queue.map (·.type)).eraseDups =
      (r.seen ++ r.queue.map (·.type)).eraseDups := by
  obtain ⟨hlater, -, front, hqueue, hfront⟩ := of_next? h
  have hsubset : front.map (·.type) ⊆ r.seen := by
    intro t ht
    obtain ⟨x, hx, rfl⟩ := List.mem_map.1 ht
    exact hfront x hx
  have hseen : later.seen = r.seen ++ [e.type] := by rw [hlater]
  rw [hseen, hqueue, List.map_append, List.map_cons, List.append_assoc,
    ← List.append_assoc r.seen (front.map _)]
  rw [List.singleton_append]
  exact eraseDups_append_congr (eraseDups_append_of_subset hsubset).symm _

/-- **What is worked on or waits are the types ever put into the queue**, in the same order of their
first occurrences. -/
theorem eraseDups_enqueuedTypes (h : Logged s roots log r) :
    (enqueuedTypes roots log).eraseDups = (r.seen ++ r.queue.map (·.type)).eraseDups := by
  induction h with
  | start => simp [enqueuedTypes, ofRoots, Function.comp_def]
  | @turn log r later after e c symbols _ hnext _ habsorb ih =>
    have hturn := absorbed_of_absorb habsorb
    have hlog : enqueuedTypes roots (log ++ [⟨e, s.claims e later.symbols, c.discovered⟩]) =
        enqueuedTypes roots log ++ c.discovered.map (·.type) := by
      simp [enqueuedTypes]
    rw [hlog, hturn.seen, hturn.queue, List.map_append, ← List.append_assoc]
    exact eraseDups_append_congr (ih.trans (eraseDups_of_next? hnext).symm) _

/-- With the type that is taken next, the types worked on are the first of those enqueued, whatever
else is put into the queue. -/
theorem worked_prefix (h : Logged s roots log r) (hnext : r.next? = some (e, later))
    (more : List HostType) :
    workedTypes log ++ [e.type] <+: (enqueuedTypes roots log ++ more).eraseDups := by
  obtain ⟨hlater, hfresh, -⟩ := of_next? hnext
  have hseen : later.seen = workedTypes log ++ [e.type] := by rw [hlater, h.seen_eq]
  have hnodup : (workedTypes log ++ [e.type]).Nodup :=
    SymbolTable.nodup_append_singleton (h.seen_eq ▸ h.nodup) (h.seen_eq ▸ hfresh)
  have horder := h.eraseDups_enqueuedTypes.trans (eraseDups_of_next? hnext).symm
  rw [eraseDups_append_congr horder more, hseen, List.append_assoc]
  exact prefix_eraseDups_append hnodup _

theorem worked_eq (h : Logged s roots log r) (hnext : r.next? = none) :
    workedTypes log = (enqueuedTypes roots log).eraseDups := by
  have hsubset : r.queue.map (·.type) ⊆ r.seen := by
    intro t ht
    obtain ⟨x, hx, rfl⟩ := List.mem_map.1 ht
    exact seen_of_next?_eq_none hnext x hx
  rw [h.eraseDups_enqueuedTypes, eraseDups_append_of_subset hsubset, eraseDups_of_nodup h.nodup,
    h.seen_eq]

/-! ## Declarations -/

theorem kept (h : Logged s roots log r) : r.model.Kept := by
  induction h with
  | start => exact Model.Kept.empty
  | turn _ hnext _ habsorb ih =>
    refine (absorbed_of_absorb habsorb).kept ?_
    rw [(of_next? hnext).1]
    exact ih

theorem distinct (h : Logged s roots log r) : r.model.Distinct :=
  h.kept.distinct

/-- Beans and enumerations come from turns that nobody has claimed. -/
theorem exists_turn_of_generated (h : Logged s roots log r) :
    ∀ x ∈ r.model.generated, ∃ turn ∈ log, turn.claimed = false ∧ turn.entry.type = x.source := by
  induction h with
  | start => exact nofun
  | @turn log r later after e c symbols _ hnext hwork habsorb ih =>
    intro x hx
    rcases (absorbed_of_absorb habsorb).generated x hx with hold | hnew
    · rw [(of_next? hnext).1] at hold
      obtain ⟨turn, hturn, hx⟩ := ih x hold
      exact ⟨turn, List.mem_append_left _ hturn, hx⟩
    · rcases Setup.of_contribute hwork with ⟨-, hnone⟩ | ⟨hclaims, -, hsource⟩
      · rw [hnone] at hnew
        cases hnew
      · exact ⟨_, List.mem_append_right _ (List.mem_singleton_self _), hclaims,
          (hsource x hnew).symm⟩

/-- A claimed type has had its only turn. -/
theorem source_ne_of_claimed (h : Logged s roots log r) {turn : Turn} (hturn : turn ∈ log)
    (hclaimed : turn.claimed = true) : turn.entry.type ∉ r.model.generated.map (·.source) := by
  intro hmem
  obtain ⟨x, hx, hsource⟩ := List.mem_map.1 hmem
  obtain ⟨other, hother, hunclaimed, htype⟩ := h.exists_turn_of_generated x hx
  have hnodup : (workedTypes log).Nodup := h.seen_eq ▸ h.nodup
  have hsame : turn = other :=
    List.inj_on_of_nodup_map hnodup hturn hother (hsource.symm.trans htype.symm)
  rw [hsame, hunclaimed] at hclaimed
  cases hclaimed

/-! ## Without claimants -/

theorem sources_subset (hs : s.claimants = []) (h : Logged s roots log r) :
    r.model.sources ⊆ r.seen := by
  induction h with
  | start => exact List.nil_subset _
  | @turn log r later after e c symbols _ hnext hwork habsorb ih =>
    have hturn := absorbed_of_absorb habsorb
    obtain ⟨hlater, -, -⟩ := of_next? hnext
    have hmodel : later.model = r.model := by rw [hlater]
    have hseen : after.seen = r.seen ++ [e.type] := by rw [hturn.seen, hlater]
    rw [hseen]
    rcases Setup.of_contribute hwork with ⟨hclaims, -⟩ | ⟨-, hexternals, hsource⟩
    · rw [Setup.claims_of_no_claimants hs] at hclaims
      cases hclaims
    · intro t ht
      rcases hturn.sources t ht with hold | hexternal | ⟨x, hx, rfl⟩
      · exact List.mem_append_left _ (ih (hmodel ▸ hold))
      · rw [hexternals] at hexternal
        cases hexternal
      · exact List.mem_append_right _ (List.mem_singleton.2 (hsource x hx))

/-- The model takes every declaration that the chain makes. -/
theorem exists_absorb (hs : s.claimants = []) (h : Logged s roots log r)
    (hnext : r.next? = some (e, later))
    (hwork : (s.contribute e).run later.symbols = (.ok c, symbols)) :
    ∃ after, { later with symbols }.absorb c = .ok after := by
  obtain ⟨hlater, hfresh, -⟩ := of_next? hnext
  have hmodel : later.model = r.model := by rw [hlater]
  rcases Setup.of_contribute hwork with ⟨hclaims, -⟩ | ⟨-, hexternals, hsource⟩
  · rw [Setup.claims_of_no_claimants hs] at hclaims
    cases hclaims
  · rw [absorb_eq hexternals]
    cases hd : c.declaration with
    | none => exact ⟨_, rfl⟩
    | some x =>
      cases hadd : later.model.add x with
      | ok model => exact ⟨_, except_map_eq_ok.2 ⟨model, hadd, rfl⟩⟩
      | error f =>
        obtain ⟨hcontains, -⟩ := Model.add_eq_error_iff.1 hadd
        rw [hmodel, hsource x hd] at hcontains
        exact absurd (h.sources_subset hs (h.kept.contains_iff.1 hcontains)) hfresh

end Logged

end Run

/-- **Every type has one turn, under any extension.**  The types worked on are at every moment the
first of those put into the queue with repetitions left out, the one in work among them and whatever
its work puts there; in a run that succeeds they are all of these.  Then no two declarations have
one source, and no claimed type is the source of a bean or an enumeration.  A run fails for an
unknown root, for lack of budget or in such a turn, and without claimants it is never the model that
refuses what a turn brings. -/
theorem worked_once (s : Setup) (roots : List HostType) :
    (∀ log r, Run.Logged s roots log r →
      (workedTypes log).Nodup ∧ workedTypes log <+: (enqueuedTypes roots log).eraseDups ∧
      ∀ e later, r.next? = some (e, later) → e.type ∉ workedTypes log ∧
        ∀ more, workedTypes log ++ [e.type] <+: (enqueuedTypes roots log ++ more).eraseDups) ∧
    (∀ bound last, s.run bound roots = .ok last → ∃ log, Run.Logged s roots log last ∧
      workedTypes log = (enqueuedTypes roots log).eraseDups ∧ last.model.sources.Nodup ∧
      ∀ turn ∈ log, turn.claimed = true →
        turn.entry.type ∉ last.model.beans.map (·.source) ++
          last.model.enumerations.map (·.source)) ∧
    (∀ bound f, s.run bound roots = .error f → (∃ name, f = .unknownRoot name) ∨ f = .exhausted ∨
      ∃ log r e later, Run.Logged s roots log r ∧ r.next? = some (e, later) ∧
        later.step s e = .error f) ∧
    (s.claimants = [] → ∀ log r e later c symbols, Run.Logged s roots log r →
      r.next? = some (e, later) →
      (s.contribute e).run later.symbols = (.ok c, symbols) →
        ∃ after, { later with symbols }.absorb c = .ok after) := by
  refine ⟨fun log r h => ?_, fun bound last hrun => ?_, fun bound f hrun => ?_,
    fun hs log r e later c symbols h => ?_⟩
  · have hnodup : (workedTypes log).Nodup := h.seen_eq ▸ h.nodup
    refine ⟨hnodup, ?_, fun e later hnext => ⟨?_, h.worked_prefix hnext⟩⟩
    · rw [h.eraseDups_enqueuedTypes, h.seen_eq]
      exact prefix_eraseDups_append hnodup _
    · exact h.seen_eq ▸ (Run.of_next? hnext).2.1
  · obtain ⟨hduring, hnext⟩ := Run.During.of_run hrun
    obtain ⟨log, h⟩ := hduring.exists_logged
    refine ⟨log, h, h.worked_eq hnext, h.distinct, fun turn hturn hclaimed => ?_⟩
    have hne := h.source_ne_of_claimed hturn hclaimed
    rwa [Model.map_source_generated] at hne
  · rcases Run.During.of_run_error hrun with ⟨name, -, rfl⟩ |
      ⟨-, rfl | ⟨r, e, later, hduring, hnext, hstep⟩⟩
    · exact .inl ⟨name, rfl⟩
    · exact .inr (.inl rfl)
    · obtain ⟨log, h⟩ := hduring.exists_logged
      exact .inr (.inr ⟨log, r, e, later, h, hnext, hstep⟩)
  · exact h.exists_absorb hs

/-- With claimants it may: one that declares `B` on the way to `A` leaves no place for the class
`B`. -/
example :
    let u := Universe.ofClasses [{ name := "A" }, { name := "B" }]
    let claimant : Claimant :=
      { name := "both"
        claim := fun _ _ e =>
          pure (if e.type = .named "A" then some { declarations := [⟨.named "B", "B", "class B;"⟩] }
            else none) }
    { standardSetup {} u [] with claimants := [claimant] }.run 2 [.named "A", .named "B"] =
      .error (.alreadyDeclared (.named "B")) := rfl

end TypeBridge
