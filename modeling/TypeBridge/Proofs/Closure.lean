import TypeBridge.Proofs.Worklist

/-!
# The closure of the roots

`Setup.directDependents` lists what the work on a type has to discover, told by single resolutions
in fresh contexts: those of the type itself and, where it is declared, those of its header, its
super types and its members.  `Setup.Reached` is the least set of types with the roots that is
closed under this.

A run works on exactly that set and declares exactly its declarable classes (`closure_exact`).  The
invariant of the loop is `Run.Exact`: what is reached is seen or queued, and what is seen is
declared where it can be.
-/

namespace TypeBridge

open Functional Resolving

/-! ## Reached types -/

namespace Setup

/-- The resolution of a type before any symbol was issued, if it has one. -/
def resolution? (s : Setup) (site : Option Site) (type : HostType) : Option Resolution :=
  match ((s.resolver (s.context site) type).run {}).1 with
  | .ok resolution => resolution
  | .error _ => none

def dependentsAt (s : Setup) (site : Option Site) (type : HostType) : List HostType :=
  (s.resolution? site type).elim [] (·.dependents)

/-- The class that a type declares: the type is that class without arguments, and it resolves to a
reference. -/
def declarable? (s : Setup) (type : HostType) : Option ClassDecl :=
  (s.resolution? none type).elim none fun r => s.declaredClass? type r.type

def headerDependents (s : Setup) (d : ClassDecl) : List HostType :=
  match Override.ofSite s.host.providers (.type d) with
  | .ok (some r) => r.dependents
  | _ => []

def memberDependents (s : Setup) (source : HostType) (site : Site) : List HostType :=
  (site.ownType source :: site.paramTypes).flatMap (s.dependentsAt (some site))

def declarationDependents (s : Setup) (source : HostType) (d : ClassDecl) : List HostType :=
  s.headerDependents d ++
    if d.isEnum then []
    else d.superTypes.flatMap (s.dependentsAt none) ++
      (s.selection s.settings d).flatMap (s.memberDependents source)

def directDependents (s : Setup) (type : HostType) : List HostType :=
  s.dependentsAt none type ++ (s.declarable? type).elim [] (s.declarationDependents type)

/-- The least set of types that has the roots and all direct dependents of its members. -/
inductive Reached (s : Setup) (roots : List HostType) : HostType → Prop
  | root {t : HostType} (h : t ∈ roots) : Reached s roots t
  | dependent {t d : HostType} (h : Reached s roots t) (hd : d ∈ s.directDependents t) :
      Reached s roots d

theorem Reached.mono {s : Setup} {roots roots' : List HostType}
    (hroots : roots ⊆ roots') {t : HostType} (h : s.Reached roots t) : s.Reached roots' t := by
  induction h with
  | root ht => exact .root (hroots ht)
  | dependent _ hd ih => exact ih.dependent hd

/-! ## Direct dependents by answers -/

variable {s : Setup} {mode : FunctionalMode} {types : List HostType}

theorem resolution?_of_answer (hs : s.Acts mode types) {site : Option Site}
    {t : HostType} (ht : t ∈ types) {a : Answer} (ha : answer mode (s.context site) t = .ok a) :
    ∃ table, s.resolution? site t = some (a.script.value table) := by
  have hfollows := hs.follows site t ht
  rw [ha] at hfollows
  refine ⟨({} : SymbolTable).issueAll a.script.asked, ?_⟩
  unfold resolution?
  rw [hfollows {}]
  rfl

theorem dependentsAt_of_answer (hs : s.Acts mode types) {site : Option Site} {t : HostType}
    (ht : t ∈ types) {a : Answer} (ha : answer mode (s.context site) t = .ok a) :
    s.dependentsAt site t = a.dependents := by
  obtain ⟨table, hresolution⟩ := resolution?_of_answer hs ht ha
  unfold dependentsAt
  rw [hresolution]
  exact a.dependents_value table

theorem resolution?_none (hs : s.Acts mode types) {t : HostType} (ht : t ∈ types) :
    ∃ table, s.resolution? none t = some ((outline mode s.host [] t).resolution table) :=
  resolution?_of_answer hs ht (a := .outline (outline mode s.host [] t)) rfl

theorem dependentsAt_none (hs : s.Acts mode types) {t : HostType} (ht : t ∈ types) :
    s.dependentsAt none t = (outline mode s.host [] t).dependents :=
  dependentsAt_of_answer hs ht (a := .outline (outline mode s.host [] t)) rfl

theorem declarable?_eq (hs : s.Acts mode types) {t : HostType} (ht : t ∈ types) :
    s.declarable? t = declared? mode s.host t := by
  obtain ⟨table, hresolution⟩ := resolution?_none hs ht
  unfold declarable?
  rw [hresolution]
  exact declaredClass?_realize table t

theorem headerDependents_eq {d : ClassDecl} {header : Option Resolution}
    (h : Override.ofSite s.host.providers (.type d) = .ok header) :
    s.headerDependents d = header.elim [] (·.dependents) := by
  unfold headerDependents
  rw [h]
  cases header <;> rfl

/-- The types that a member is resolved for are among those that the setup acts on. -/
theorem Acts.siteTypes_subset (hs : s.Acts mode types) {source : HostType}
    (hsource : source ∈ types) {d : ClassDecl} (hd : d ∈ s.host.classes)
    {settings : Settings} {site : Site} (hsite : site ∈ Selection.declared settings d) :
    site.ownType source :: site.paramTypes ⊆ types := by
  intro t ht
  rcases mem_declared hsite with ⟨f, hf, rfl⟩ | ⟨method, hmethod, rfl⟩ | ⟨c, -, rfl⟩
  · obtain rfl := List.mem_singleton.1 ht
    exact hs.written d hd _ (ClassDecl.mem_writtenTypes_of_fields hf)
  · exact hs.written d hd t (ClassDecl.mem_writtenTypes_of_methods hmethod ht)
  · obtain rfl := List.mem_singleton.1 ht
    exact hsource

theorem mem_memberDependents (hs : s.Acts mode types) {source : HostType} (hsource : source ∈ types)
    {d : ClassDecl} (hd : d ∈ s.host.classes) {site : Site}
    (hsite : site ∈ Selection.declared s.settings d) {m : MemberAnswer}
    (hm : memberAnswer mode s.host source site = .ok m) (t : HostType) :
    t ∈ s.memberDependents source site ↔ t ∈ m.dependents := by
  have htypes := hs.siteTypes_subset hsource hd hsite
  unfold memberDependents
  -- With an override all types of a member have the same answer, without one each has its own.
  rcases memberAnswer_eq_ok hm with ⟨r, hoverride, rfl⟩ | ⟨hnone, rfl⟩
  · have hall : ∀ t ∈ site.ownType source :: site.paramTypes,
        s.dependentsAt (some site) t = r.dependents := fun t ht =>
      dependentsAt_of_answer hs (htypes ht) (answer_of_some hoverride t)
    rw [List.flatMap_congr hall]
    simp [MemberAnswer.dependents, MemberAnswer.answers, Answer.dependents]
  · have hall : ∀ t ∈ site.ownType source :: site.paramTypes,
        s.dependentsAt (some site) t = (outline mode s.host [] t).dependents := fun t ht =>
      dependentsAt_of_answer hs (htypes ht) (answer_of_none hnone t)
    rw [List.flatMap_congr hall]
    simp [MemberAnswer.dependents, MemberAnswer.answers, Answer.dependents]

theorem mem_declarationDependents (hs : s.Acts mode types) {source : HostType}
    (hsource : source ∈ types) {d : ClassDecl} (hd : d ∈ s.host.classes) {a : ClassAnswer}
    (ha : classAnswer mode s.host s.settings source d = .ok a) (t : HostType) :
    t ∈ s.declarationDependents source d ↔ t ∈ a.dependents := by
  unfold declarationDependents ClassAnswer.dependents
  obtain ⟨hheader, ⟨henum, hparents, hmembers⟩ | ⟨henum, hparents, hsites, hanswers⟩⟩ :=
    classAnswer_eq_ok ha
  · simp [headerDependents_eq hheader, henum, hparents, hmembers]
  · have hsuper : d.superTypes.flatMap (s.dependentsAt none) =
        a.parents.flatMap (·.dependents) := by
      rw [hparents, List.flatMap_map]
      exact List.flatMap_congr fun t ht =>
        dependentsAt_none hs (hs.written d hd t (ClassDecl.mem_writtenTypes_of_superTypes ht))
    have hmembers : t ∈ (s.selection s.settings d).flatMap (s.memberDependents source) ↔
        t ∈ a.members.flatMap (·.2.dependents) := by
      rw [hs.selection, ← hsites, List.flatMap_map, List.mem_flatMap, List.mem_flatMap]
      refine exists_congr fun p => and_congr_right fun hp => ?_
      exact mem_memberDependents hs hsource hd (hsites ▸ List.mem_map_of_mem hp) (hanswers p hp) t
    simp only [headerDependents_eq hheader, henum, Bool.false_eq_true, ↓reduceIte, hsuper,
      List.mem_append, hmembers, or_assoc]

/-- The work on an entry discovers the direct dependents of its type. -/
theorem mem_directDependents (hs : s.Acts mode types) {e : Entry} (he : e.type ∈ types)
    {c : Script Contribution} (hc : contribution mode s.host s.settings e = .ok c)
    (table : SymbolTable) (t : HostType) :
    t ∈ (c.value table).discovered.map (·.type) ↔ t ∈ s.directDependents e.type := by
  unfold directDependents
  rw [dependentsAt_none hs he, declarable?_eq hs he]
  cases hd : declared? mode s.host e.type with
  | none =>
    rw [(contribution_of_none hd hc table).2.2]
    simp
  | some d =>
    obtain ⟨a, ha, -, hvalue⟩ := contribution_of_some hd hc
    rw [(hvalue table).2.2, List.mem_append, List.mem_append, or_comm, Option.elim_some,
      mem_declarationDependents hs he (declared?_mem hd) ha]

end Setup

/-! ## The invariant of the loop -/

namespace ClassAnswer

theorem declaration_cases (settings : Settings) (source : HostType)
    (d : ClassDecl) (a : ClassAnswer) (table : SymbolTable) :
    (d.isEnum = true ∧ ∃ n : Enumeration, n.source = source ∧
      ((a.script settings source d).value table).1 = .enumeration n) ∨
    (d.isEnum = false ∧ ∃ b : Bean, b.source = source ∧
      ((a.script settings source d).value table).1 = .bean b) := by
  cases henum : d.isEnum with
  | true =>
    refine .inl ⟨rfl, ?_⟩
    rw [script_of_isEnum henum]
    exact ⟨_, rfl, rfl⟩
  | false =>
    refine .inr ⟨rfl, ?_⟩
    rw [script_of_not_isEnum henum]
    exact ⟨_, rfl, rfl⟩

end ClassAnswer

namespace Model

theorem eq_of_add_bean {m later : Model} {b : Bean} (h : m.add (.bean b) = .ok later) :
    later = { m with beans := m.beans ++ [b], claimed := m.claimed ++ [b.source] } :=
  (add_eq_ok_iff.1 h).2

theorem eq_of_add_enumeration {m later : Model} {n : Enumeration}
    (h : m.add (.enumeration n) = .ok later) :
    later = { m with enumerations := m.enumerations ++ [n], claimed := m.claimed ++ [n.source] } :=
  (add_eq_ok_iff.1 h).2

end Model

namespace Run

variable {s : Setup} {mode : FunctionalMode} {types : List HostType} {roots : List HostType}

/-- A type is seen or waits in the queue. -/
def Pending (r : Run) (t : HostType) : Prop :=
  t ∈ r.seen ∨ t ∈ r.queue.map (·.type)

/-- The types seen that declare a class of some kind, in the order of their declarations. -/
def declaring (s : Setup) (r : Run) (kind : ClassDecl → Bool) : List HostType :=
  r.seen.filter fun t => (s.declarable? t).any kind

/-- What a run has worked on and declared so far, and what it still has to. -/
structure Exact (s : Setup) (roots : List HostType) (r : Run) : Prop where
  start : ∀ t ∈ roots, r.Pending t
  closed : ∀ t ∈ r.seen, ∀ d ∈ s.directDependents t, r.Pending d
  sound : ∀ t, r.Pending t → s.Reached roots t
  beans : r.model.beans.map (·.source) = r.declaring s fun d => !d.isEnum
  enumerations : r.model.enumerations.map (·.source) = r.declaring s (·.isEnum)
  externals : r.model.externals = []
  kept : r.model.Kept

theorem Exact.distinct {r : Run} (h : Exact s roots r) : r.model.Distinct :=
  h.kept.distinct

theorem exact_ofRoots (s : Setup) (roots : List HostType) : Exact s roots (ofRoots roots) := by
  have hqueue : (ofRoots roots).queue.map (·.type) = roots := by
    simp [ofRoots, Function.comp_def]
  refine ⟨fun t ht => .inr (by rwa [hqueue]), fun t ht => (nomatch ht), fun t ht => ?_, rfl,
    rfl, rfl, Model.Kept.empty⟩
  rcases ht with ht | ht
  · cases ht
  · rw [hqueue] at ht
    exact .root ht

section Turn

variable {r later after : Run} {e : Entry} {c : Script Contribution}

theorem Worked.seen_eq (hw : Worked mode s e later after c) (ht : Taken r e later) :
    after.seen = r.seen ++ [e.type] :=
  hw.seen.trans ht.seen

/-- After a turn there are the direct dependents of the type that was taken besides what was pending
before. -/
theorem pending_turn_iff (hs : s.Acts mode types) (he : e.type ∈ types) (ht : Taken r e later)
    (hw : Worked mode s e later after c) (t : HostType) :
    after.Pending t ↔ r.Pending t ∨ t ∈ s.directDependents e.type := by
  have hdiscovered := Setup.mem_directDependents hs he hw.contribution after.symbols t
  have hqueue : after.queue.map (·.type) =
      later.queue.map (·.type) ++ (c.value after.symbols).discovered.map (·.type) := by
    rw [hw.queue, List.map_append]
  unfold Pending
  rw [hw.seen_eq ht, hqueue, List.mem_append, List.mem_append, List.mem_singleton, hdiscovered]
  constructor
  · rintro ((hseen | rfl) | hold | hnew)
    · exact .inl (.inl hseen)
    · exact .inl (.inr (List.mem_map_of_mem ht.mem))
    · obtain ⟨x, hx, rfl⟩ := List.mem_map.1 hold
      exact .inl (.inr (List.mem_map_of_mem (ht.queue x hx)))
    · exact .inr hnew
  · rintro ((hseen | hold) | hnew)
    · exact .inl (.inl hseen)
    · obtain ⟨x, hx, rfl⟩ := List.mem_map.1 hold
      rcases ht.dropped x hx with hseen | hqueue
      · rw [ht.seen, List.mem_append, List.mem_singleton] at hseen
        exact .inl hseen
      · exact .inr (.inl (List.mem_map_of_mem hqueue))
    · exact .inr (.inr hnew)

theorem declaring_turn (hw : Worked mode s e later after c) (ht : Taken r e later)
    (kind : ClassDecl → Bool) :
    after.declaring s kind =
      r.declaring s kind ++ if (s.declarable? e.type).any kind then [e.type] else [] := by
  unfold declaring
  rw [hw.seen_eq ht, List.filter_append, List.filter_singleton, cond_eq_ite]

theorem Worked.model_cases (hs : s.Acts mode types) (he : e.type ∈ types)
    (hw : Worked mode s e later after c) :
    (s.declarable? e.type = none ∧ after.model = later.model) ∨
    (∃ d b, s.declarable? e.type = some d ∧ d.isEnum = false ∧ b.source = e.type ∧
      after.model =
        { later.model with
          beans := later.model.beans ++ [b]
          claimed := later.model.claimed ++ [b.source] }) ∨
    ∃ d n, s.declarable? e.type = some d ∧ d.isEnum = true ∧ n.source = e.type ∧
      after.model =
        { later.model with
          enumerations := later.model.enumerations ++ [n]
          claimed := later.model.claimed ++ [n.source] } := by
  have hmodel := hw.model
  cases hd : declared? mode s.host e.type with
  | none =>
    rw [(contribution_of_none hd hw.contribution after.symbols).2.1] at hmodel
    exact .inl ⟨(Setup.declarable?_eq hs he).trans hd, (Except.ok.inj hmodel).symm⟩
  | some d =>
    have hclass : s.declarable? e.type = some d := (Setup.declarable?_eq hs he).trans hd
    obtain ⟨a, -, -, hvalue⟩ := contribution_of_some hd hw.contribution
    rw [(hvalue after.symbols).2.1] at hmodel
    dsimp only at hmodel
    rcases a.declaration_cases s.settings e.type d after.symbols with
      ⟨henum, n, hsource, hdecl⟩ | ⟨henum, b, hsource, hdecl⟩
    · rw [hdecl] at hmodel
      exact .inr (.inr ⟨d, n, hclass, henum, hsource, Model.eq_of_add_enumeration hmodel⟩)
    · rw [hdecl] at hmodel
      exact .inr (.inl ⟨d, b, hclass, henum, hsource, Model.eq_of_add_bean hmodel⟩)

theorem Worked.kept (hw : Worked mode s e later after c) (h : later.model.Kept) :
    after.model.Kept := by
  have hmodel := hw.model
  split at hmodel
  · exact h.add hmodel
  · exact Except.ok.inj hmodel ▸ h

theorem Exact.turn (hs : s.Acts mode types) (he : e.type ∈ types) (h : Exact s roots r)
    (ht : Taken r e later) (hw : Worked mode s e later after c) : Exact s roots after := by
  have hpending := pending_turn_iff hs he ht hw
  have hreached : s.Reached roots e.type := h.sound e.type (.inr (List.mem_map_of_mem ht.mem))
  have hmodel := hw.model_cases hs he
  rw [ht.model] at hmodel
  refine
    { start := fun t hroot => (hpending t).2 (.inl (h.start t hroot))
      closed := fun t hseen d hd => ?_
      sound := fun t ht => ?_
      beans := ?_
      enumerations := ?_
      externals := ?_
      kept := hw.kept (ht.model ▸ h.kept) }
  · rw [hw.seen_eq ht] at hseen
    rcases List.mem_append.1 hseen with hseen | hnew
    · exact (hpending d).2 (.inl (h.closed t hseen d hd))
    · obtain rfl := List.mem_singleton.1 hnew
      exact (hpending d).2 (.inr hd)
  · rcases (hpending t).1 ht with hold | hnew
    · exact h.sound t hold
    · exact hreached.dependent hnew
  · rw [declaring_turn hw ht, ← h.beans]
    rcases hmodel with ⟨hd, hm⟩ | ⟨d, b, hd, henum, hsource, hm⟩ | ⟨d, n, hd, henum, -, hm⟩
    · simp [hd, hm]
    · simp [hd, hm, henum, hsource]
    · simp [hd, hm, henum]
  · rw [declaring_turn hw ht, ← h.enumerations]
    rcases hmodel with ⟨hd, hm⟩ | ⟨d, b, hd, henum, -, hm⟩ | ⟨d, n, hd, henum, hsource, hm⟩
    · simp [hd, hm]
    · simp [hd, hm, henum]
    · simp [hd, hm, henum, hsource]
  · rcases hmodel with
      ⟨-, hm⟩ | ⟨d, b, -, -, -, hm⟩ | ⟨d, n, -, -, -, hm⟩ <;> simp [hm, h.externals]

end Turn

theorem Exact.of_during (hs : s.Acts mode types)
    (htypes : candidates s.host roots ⊆ types) {r : Run} (h : During s roots r) : Exact s roots r :=
  h.invariant hs htypes (exact_ofRoots s roots) fun hr ht he hw => hr.turn hs he ht hw

/-- Nothing is left of a run that has ended. -/
theorem Exact.mem_seen_iff {r : Run} (h : Exact s roots r) (hnext : r.next? = none) (t : HostType) :
    t ∈ r.seen ↔ s.Reached roots t := by
  have hpending : ∀ t, r.Pending t → t ∈ r.seen := by
    intro t ht
    rcases ht with ht | ht
    · exact ht
    · obtain ⟨x, hx, rfl⟩ := List.mem_map.1 ht
      exact seen_of_next?_eq_none hnext x hx
  refine ⟨fun ht => h.sound t (.inl ht), fun ht => ?_⟩
  induction ht with
  | root hroot => exact hpending _ (h.start _ hroot)
  | dependent _ hd ih => exact hpending _ (h.closed _ ih _ hd)

theorem Exact.mem_declaring_iff {r : Run} (h : Exact s roots r) (hnext : r.next? = none)
    (kind : ClassDecl → Bool) (t : HostType) :
    t ∈ r.declaring s kind ↔ s.Reached roots t ∧ ∃ d, s.declarable? t = some d ∧ kind d = true := by
  unfold declaring
  rw [List.mem_filter, h.mem_seen_iff hnext, Option.any_eq_true]

end Run

/-- **The closure is exact.**  A run of the standard pipeline that succeeds has worked, once each,
on exactly the types that are reached from its roots by direct dependents, and has one declaration
for each bare declared class among them that resolves to a reference, an enumeration or a bean as
the class is one or not. -/
theorem closure_exact (settings : Settings) (u : Universe) (roots : List HostType) {r : Run}
    (h : standardRun settings u roots = .ok r) :
    let s := standardSetup settings u roots
    r.seen.Nodup ∧ (∀ t, t ∈ r.seen ↔ s.Reached roots t) ∧
    (∀ t, t ∈ r.model.beans.map (·.source) ↔
      s.Reached roots t ∧ ∃ d, s.declarable? t = some d ∧ d.isEnum = false) ∧
    (∀ t, t ∈ r.model.enumerations.map (·.source) ↔
      s.Reached roots t ∧ ∃ d, s.declarable? t = some d ∧ d.isEnum = true) ∧
    r.model.sources.Nodup ∧ r.model.externals = [] := by
  intro s
  have hs := acts_standardSetup settings u roots
  have htypes : candidates u roots ⊆ u.writtenTypes ++ candidates u roots :=
    List.subset_append_right ..
  obtain ⟨hduring, hnext⟩ := Run.During.of_run h
  have hexact : Run.Exact s roots r := Run.Exact.of_during hs htypes hduring
  refine ⟨(Run.Confined.of_during hs htypes hduring).nodup, hexact.mem_seen_iff hnext, fun t => ?_,
    fun t => ?_, hexact.distinct, hexact.externals⟩
  · rw [hexact.beans, hexact.mem_declaring_iff hnext]
    simp
  · rw [hexact.enumerations, hexact.mem_declaring_iff hnext]

/-- A class that holds a list of enumerations reaches the enumeration. -/
theorem closure_exact_list_of_enumeration :
    let u := Universe.ofClasses
      [{ name := "A", fields := [{ name := "bs", type := .generic "List" [.named "B"] }] },
        { name := "B", kind := .enumeration, constants := [{ name := "X" }] }]
    ∃ r, standardRun {} u [.named "A"] = .ok r ∧ r.seen = [.named "A", .named "B"] ∧
      (standardSetup {} u [.named "A"]).Reached [.named "A"] (.named "B") ∧
      r.model.sources.Nodup := by
  intro u
  obtain ⟨r, hrun, hseen⟩ : ∃ r, standardRun {} u [.named "A"] = .ok r ∧
      r.seen = [.named "A", .named "B"] := ⟨_, rfl, rfl⟩
  obtain ⟨-, hreached, -, -, hdistinct, -⟩ := closure_exact {} u [.named "A"] hrun
  exact ⟨r, hrun, hseen, (hreached (.named "B")).1 (by simp [hseen]), hdistinct⟩

end TypeBridge
