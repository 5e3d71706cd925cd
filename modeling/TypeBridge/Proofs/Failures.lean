import TypeBridge.Proofs.Turns

/-!
# When a run fails

A run of the standard pipeline fails for a root that nobody knows or for the tags of a declaration,
and for nothing else.  `Universe.Unknown` and `Fault` are the two causes, told without the code that
looks for them, and `Setup.examined` are the declarations whose tags the work on a type looks at.
`run_fails_iff` says which cause counts: the first one in the order of work.
-/

namespace TypeBridge

open Functional Resolving

/-! ## Causes -/

/-- A root uses the class `name`, which is neither built in nor declared. -/
def Universe.Unknown (u : Universe) (root : HostType) (name : String) : Prop :=
  root.rawName? = some name ∧ Structural.Container.ofName? name = none ∧ u.get? name = none

/-- What is wrong with the tags of a declaration.  Several tags and a blank text are put down to the
declaration, a signature that is missing to the provider that should give it. -/
inductive Fault (providers : Providers) (site : Site) : Failure → Prop
  | several (htags : 2 ≤ site.tags.length) :
      Fault providers site (.ambiguousOverride site.qualifiedName)
  | blank {text : String} {extraTypes : List HostType}
      (htags : site.tags = [.verbatim text extraTypes])
      (hblank : Text.AllBlank text.toList) :
      Fault providers site (.blankOverride site.qualifiedName)
  | unregistered {name : String} {owner : Option String}
      (htags : site.tags = [.methodReference name owner])
      (hprovider : providers.get? (owner.getD site.owner.name) name = none) :
      Fault providers site (.noSignature (owner.getD site.owner.name ++ "::" ++ name) .unregistered)
  | failed {name reason : String} {owner : Option String}
      (htags : site.tags = [.methodReference name owner])
      (hprovider : providers.get? (owner.getD site.owner.name) name = some (.error reason)) :
      Fault providers site
        (.noSignature (owner.getD site.owner.name ++ "::" ++ name) (.failed reason))
  | blankSignature {name : String} {owner : Option String} {signature : Signature}
      (htags : site.tags = [.methodReference name owner])
      (hprovider : providers.get? (owner.getD site.owner.name) name = some (.ok signature))
      (hblank : Text.AllBlank signature.text.toList) :
      Fault providers site (.noSignature (owner.getD site.owner.name ++ "::" ++ name) .blankText)

/-- A class and, where it is not an enumeration, its enumerated members. -/
def ClassDecl.sites (settings : Settings) (d : ClassDecl) : List Site :=
  .type d :: if d.isEnum then [] else Selection.declared settings d

/-- The declarations whose tags the work on a type looks at, in order. -/
def Setup.examined (s : Setup) (t : HostType) : List Site :=
  (s.declarable? t).elim [] (·.sites s.settings)

/-! ## Roots -/

namespace Setup

variable {u : Universe} {roots : List HostType} {root : HostType} {name : String}

/-- The class that a root names without its being declared or built in. -/
def unknownName? (u : Universe) (root : HostType) : Option String :=
  match root.rawName? with
  | some name => if Structural.isBuiltin root || u.contains name then none else some name
  | none => none

theorem unknown_iff :
    u.Unknown root name ↔
      root.rawName? = some name ∧ ¬(Structural.isBuiltin root || u.contains name) = true := by
  unfold Universe.Unknown
  refine and_congr_right fun hraw => ?_
  simp [Structural.isBuiltin, Universe.contains, hraw]

theorem unknownName?_eq_some_iff : unknownName? u root = some name ↔ u.Unknown root name := by
  rw [unknown_iff, unknownName?]
  cases root.rawName? with
  | none => exact iff_of_false nofun fun h => nomatch h.1
  | some raw =>
    dsimp only
    by_cases hknown : (Structural.isBuiltin root || u.contains raw) = true
    · rw [if_pos hknown]
      refine iff_of_false nofun fun ⟨hraw, hunknown⟩ => ?_
      cases hraw
      exact hunknown hknown
    · rw [if_neg hknown]
      refine ⟨fun hraw => ?_, And.left⟩
      cases hraw
      exact ⟨rfl, hknown⟩

theorem unknownName?_eq_none_iff : unknownName? u root = none ↔ ∀ name, ¬u.Unknown root name := by
  rw [Option.eq_none_iff_forall_ne_some]
  exact forall_congr' fun name => not_congr unknownName?_eq_some_iff

theorem unknownRoot?_eq_some_iff : unknownRoot? u roots = some name ↔
    First u.Unknown roots name := by
  change roots.findSome? (unknownName? u) = some name ↔ _
  rw [List.findSome?_eq_some_iff]
  refine exists_congr fun front => exists_congr fun t => exists_congr fun behind =>
    and_congr_right fun _ => ?_
  rw [and_comm, unknownName?_eq_some_iff]
  refine and_congr_left' (forall₂_congr fun z _ => ?_)
  exact unknownName?_eq_none_iff

theorem unknownRoot?_eq_none_iff : unknownRoot? u roots = none ↔
    ∀ t ∈ roots, ∀ name, ¬u.Unknown t name := by
  change roots.findSome? (unknownName? u) = none ↔ _
  rw [List.findSome?_eq_none_iff]
  exact forall₂_congr fun t _ => unknownName?_eq_none_iff

end Setup

/-! ## Tags -/

namespace Override

variable {providers : Providers} {site : Site} {f : Failure}

theorem fault_of_ofTag {tag : OverrideTag} (htags : site.tags = [tag])
    (h : ofTag providers site tag = .error f) : Fault providers site f := by
  cases tag with
  | verbatim text extraTypes =>
    simp only [ofTag] at h
    split at h
    · next hblank =>
      cases h
      exact .blank htags hblank
    · cases h
  | methodReference name owner =>
    simp only [ofTag, ofProvider] at h
    split at h
    · next hprovider =>
      cases h
      exact .unregistered htags hprovider
    · next reason hprovider =>
      cases h
      exact .failed htags hprovider
    · next signature hprovider =>
      split at h
      · next hblank =>
        cases h
        exact .blankSignature htags hprovider hblank
      · cases h

theorem ofSite_eq_error_iff : ofSite providers site = .error f ↔ Fault providers site f := by
  constructor
  · intro h
    unfold ofSite at h
    split at h
    · cases h
    · next tag htags => exact fault_of_ofTag htags (except_map_eq_error.1 h)
    · next htags =>
      cases h
      exact .several (by simp [htags])
  · intro h
    cases h with
    | several htags =>
      unfold ofSite
      split
      · next hnone => simp [hnone] at htags
      · next hone => simp [hone] at htags
      · rfl
    | blank htags hblank => simp [ofSite, htags, ofTag, hblank, Except.map]
    | unregistered htags hprovider => simp [ofSite, htags, ofTag, ofProvider, hprovider, Except.map]
    | failed htags hprovider => simp [ofSite, htags, ofTag, ofProvider, hprovider, Except.map]
    | blankSignature htags hprovider hblank =>
      simp [ofSite, htags, ofTag, ofProvider, hprovider, hblank, Except.map]

theorem exists_ofSite_iff : (∃ r, ofSite providers site = .ok r) ↔
    ∀ f, ¬Fault providers site f := by
  cases h : ofSite providers site with
  | error f => exact iff_of_false nofun fun hnone => hnone f (ofSite_eq_error_iff.1 h)
  | ok r =>
    refine iff_of_true ⟨r, rfl⟩ fun f hf => ?_
    rw [← ofSite_eq_error_iff, h] at hf
    cases hf

end Override

/-! ## Classes and entries -/

section Entries

variable {mode : FunctionalMode} {u : Universe} {settings : Settings}
  {source : HostType} {d : ClassDecl}
variable {f : Failure}

theorem memberAnswer_eq_error_iff {site : Site} :
    memberAnswer mode u source site = .error f ↔ Fault u.providers site f := by
  unfold memberAnswer
  rw [except_map_eq_error, Override.ofSite_eq_error_iff]

/-- A class fails as the first of its faulty declarations. -/
theorem classAnswer_eq_error_iff :
    classAnswer mode u settings source d = .error f ↔
      First (Fault u.providers) (d.sites settings) f := by
  have hmember (site : Site) (g : Failure) :
      (memberAnswer mode u source site).map (site, ·) = .error g ↔ Fault u.providers site g := by
    rw [except_map_eq_error, memberAnswer_eq_error_iff]
  unfold classAnswer ClassDecl.sites
  -- The header comes before the members, which are looked at if it has an answer.
  rw [except_bind_eq_error, first_cons, Override.ofSite_eq_error_iff, ← Override.exists_ofSite_iff,
    ← exists_and_right]
  refine or_congr_right (exists_congr fun header => and_congr_right fun _ => ?_)
  cases d.isEnum with
  | true => exact iff_of_false nofun not_first_nil
  | false =>
    simp only [Bool.false_eq_true, ↓reduceIte]
    rw [except_bind_eq_error, mapM_eq_error_iff, first_congr hmember]
    exact or_iff_left fun ⟨_, _, h⟩ => nomatch h

variable {s : Setup} {types : List HostType} {e : Entry}

/-- The work on an entry fails as the first faulty one of the declarations that it looks at. -/
theorem contribution_eq_error_iff (hs : s.Acts mode types) (he : e.type ∈ types) :
    contribution mode s.host s.settings e = .error f ↔
      First (Fault s.host.providers) (s.examined e.type) f := by
  unfold contribution Setup.examined
  rw [Setup.declarable?_eq hs he]
  cases declared? mode s.host e.type with
  | none => exact iff_of_false nofun not_first_nil
  | some d =>
    dsimp only [Option.elim_some]
    rw [except_map_eq_error, classAnswer_eq_error_iff]

theorem faultless_of_contribution (hs : s.Acts mode types) (he : e.type ∈ types)
    {c : Script Contribution} (hc : contribution mode s.host s.settings e = .ok c) :
    ∀ site ∈ s.examined e.type, ∀ f, ¬Fault s.host.providers site f := by
  intro site hsite f hf
  obtain ⟨g, hg⟩ := exists_first hsite hf
  rw [← contribution_eq_error_iff hs he, hc] at hg
  cases hg

end Entries

/-! ## Runs -/

namespace Run

variable {s : Setup} {mode : FunctionalMode} {types : List HostType} {roots : List HostType}
variable {r later : Run} {e : Entry} {f : Failure}

/-- Nothing that was worked on is faulty. -/
theorem During.faultless (hs : s.Acts mode types) (htypes : candidates s.host roots ⊆ types)
    (h : During s roots r) :
    ∀ site ∈ r.seen.flatMap s.examined, ∀ f, ¬Fault s.host.providers site f := by
  refine h.invariant (P := fun r => ∀ site ∈ r.seen.flatMap s.examined, ∀ f,
    ¬Fault s.host.providers site f) hs htypes nofun fun hr ht he hw site hsite => ?_
  rw [hw.seen_eq ht, List.flatMap_append, List.mem_append, List.flatMap_singleton] at hsite
  exact hsite.elim (hr site) (faultless_of_contribution hs he hw.contribution site)

/-- A turn fails as the first faulty declaration that it looks at: the model takes whatever the
chain makes. -/
theorem During.step_eq_error_iff (hs : s.Acts mode types) (htypes : candidates s.host roots ⊆ types)
    (h : During s roots r) (hnext : r.next? = some (e, later)) :
    later.step s e = .error f ↔ First (Fault s.host.providers) (s.examined e.type) f := by
  have he : e.type ∈ types :=
    htypes ((Confined.of_during hs htypes h).queue e (taken_of_next? hnext).mem)
  obtain ⟨log, hlog⟩ := h.exists_logged
  rw [← contribution_eq_error_iff hs he, step_eq hs he]
  cases hc : contribution mode s.host s.settings e with
  | error g => simp only [Except.error.injEq]
  | ok c =>
    have hwork := Setup.follows_contribute hs he
    rw [hc] at hwork
    obtain ⟨after, hafter⟩ := hlog.exists_absorb hs.claimants hnext (hwork later.symbols)
    dsimp only
    rw [hafter]
    exact iff_of_false nofun nofun

/-- The loop passes through every state of the run. -/
theorem During.exists_drain_eq (h : During s roots r) :
    ∃ turns, ∀ bound, drain s (turns + bound) (ofRoots roots) = drain s bound r := by
  induction h with
  | start => exact ⟨0, fun bound => by rw [Nat.zero_add]⟩
  | @step r later after e _ hnext hstep ih =>
    obtain ⟨turns, hturns⟩ := ih
    refine ⟨turns + 1, fun bound => ?_⟩
    rw [Nat.add_right_comm, Nat.add_assoc, hturns (bound + 1)]
    simp only [drain, hnext, hstep]

theorem run_eq_error_of_step (hs : s.Acts mode types)
    (htypes : candidates s.host roots ⊆ types) {bound : Nat}
    (hbound : (candidates s.host roots).dedup.length ≤ bound)
    (hroots : Setup.unknownRoot? s.host roots = none) (h : During s roots r)
    (hnext : r.next? = some (e, later)) (hstep : later.step s e = .error f) :
    s.run bound roots = .error f := by
  obtain ⟨turns, hturns⟩ := h.exists_drain_eq
  -- A larger budget changes nothing, and the failing turn is within this one.
  have hlarger : (candidates s.host roots).dedup.length ≤ turns + (bound + 1) := by omega
  rw [(run_eq hs hs rfl rfl htypes hbound hlarger).2]
  unfold Setup.run
  rw [hroots]
  dsimp only
  rw [hturns (bound + 1)]
  simp only [drain, hnext, hstep]

/-- The types that are worked on are reached. -/
theorem Processes.reached (hs : s.Acts mode types) (htypes : candidates s.host roots ⊆ types)
    {taken : List HostType} (h : Processes s roots taken) : ∀ t ∈ taken, s.Reached roots t := by
  intro t ht
  cases h with
  | between h => exact (Exact.of_during hs htypes h).sound t (.inl ht)
  | @working r later e h hnext =>
    have hexact := Exact.of_during hs htypes h
    have htaken := taken_of_next? hnext
    rw [htaken.seen, List.mem_append, List.mem_singleton] at ht
    rcases ht with ht | rfl
    · exact hexact.sound t (.inl ht)
    · exact hexact.sound e.type (.inr (List.mem_map_of_mem htaken.mem))

/-- The first fault among the types taken, if there is one, is that of the turn that fails. -/
theorem exists_first_fault_iff (hs : s.Acts mode types) (htypes : candidates s.host roots ⊆ types) :
    (∃ taken, Processes s roots taken ∧
      First (Fault s.host.providers) (taken.flatMap s.examined) f) ↔
      ∃ r e later, During s roots r ∧ r.next? = some (e, later) ∧ later.step s e = .error f := by
  have hturn {r later : Run} {e : Entry} (h : During s roots r)
      (hnext : r.next? = some (e, later)) :
      First (Fault s.host.providers) (later.seen.flatMap s.examined) f ↔
        later.step s e = .error f := by
    rw [(taken_of_next? hnext).seen, List.flatMap_append, first_append (h.faultless hs htypes),
      List.flatMap_singleton, h.step_eq_error_iff hs htypes hnext]
  constructor
  · rintro ⟨taken, htaken, hfirst⟩
    cases htaken with
    | between h =>
      obtain ⟨site, hsite, hfault⟩ := hfirst.exists_mem
      exact absurd hfault (h.faultless hs htypes site hsite f)
    | working h hnext => exact ⟨_, _, _, h, hnext, (hturn h hnext).1 hfirst⟩
  · rintro ⟨r, e, later, h, hnext, hstep⟩
    exact ⟨later.seen, .working h hnext, (hturn h hnext).2 hstep⟩

theorem run_eq_error_iff (hs : s.Acts mode types)
    (htypes : candidates s.host roots ⊆ types) {bound : Nat}
    (hbound : (candidates s.host roots).dedup.length ≤ bound) :
    s.run bound roots = .error f ↔
      (∃ name, First s.host.Unknown roots name ∧ f = .unknownRoot name) ∨
      (∀ t ∈ roots, ∀ name, ¬s.host.Unknown t name) ∧
        ∃ taken, Processes s roots taken ∧
          First (Fault s.host.providers) (taken.flatMap s.examined) f := by
  rw [exists_first_fault_iff hs htypes, ← Setup.unknownRoot?_eq_none_iff]
  simp only [← Setup.unknownRoot?_eq_some_iff]
  constructor
  · intro h
    rcases During.of_run_error h with hname | ⟨hroots, rfl | hstep⟩
    · exact .inl hname
    · exact absurd h (run_eq hs hs rfl rfl htypes hbound hbound).1
    · exact .inr ⟨hroots, hstep⟩
  · rintro (⟨name, hname, rfl⟩ | ⟨hroots, r, e, later, h, hnext, hstep⟩)
    · unfold Setup.run
      rw [hname]
    · exact run_eq_error_of_step hs htypes hbound hroots h hnext hstep

/-- Whether a run fails is a matter of what its roots reach. -/
theorem exists_run_eq_error_iff (hs : s.Acts mode types)
    (htypes : candidates s.host roots ⊆ types) {bound : Nat}
    (hbound : (candidates s.host roots).dedup.length ≤ bound) :
    (∃ f, s.run bound roots = .error f) ↔
      (∃ t ∈ roots, ∃ name, s.host.Unknown t name) ∨
      ∃ t, s.Reached roots t ∧ ∃ site ∈ s.examined t, ∃ f, Fault s.host.providers site f := by
  constructor
  · rintro ⟨f, hf⟩
    rcases (run_eq_error_iff hs htypes hbound).1 hf with
      ⟨name, hfirst, -⟩ | ⟨-, taken, htaken, hfirst⟩
    · obtain ⟨t, ht, hunknown⟩ := hfirst.exists_mem
      exact .inl ⟨t, ht, name, hunknown⟩
    · obtain ⟨site, hsite, hfault⟩ := hfirst.exists_mem
      obtain ⟨t, ht, hsite⟩ := List.mem_flatMap.1 hsite
      exact .inr ⟨t, htaken.reached hs htypes t ht, site, hsite, f, hfault⟩
  · intro hcause
    cases h : s.run bound roots with
    | error f => exact ⟨f, rfl⟩
    | ok last =>
      obtain ⟨hduring, hnext⟩ := During.of_run h
      rcases hcause with ⟨t, ht, name, hunknown⟩ | ⟨t, hreached, site, hsite, f, hfault⟩
      · obtain ⟨name, hfirst⟩ := exists_first ht hunknown
        have hf := (run_eq_error_iff hs htypes hbound).2 (.inl ⟨name, hfirst, rfl⟩)
        rw [h] at hf
        cases hf
      · have hseen :
            t ∈ last.seen := ((Exact.of_during hs htypes hduring).mem_seen_iff hnext t).2 hreached
        exact absurd hfault
          (hduring.faultless hs htypes site (List.mem_flatMap.2 ⟨t, hseen, hsite⟩) f)

end Run

/-- **When a run fails.**  A run of the standard pipeline fails for the first root that nobody
knows, or else as the first faulty one of the declarations that its work looks at, in the order of
work.  It fails at all exactly if some root is unknown or some type that is reached declares a class
with a faulty declaration. -/
theorem run_fails_iff (settings : Settings) (u : Universe) (roots : List HostType) :
    let s := standardSetup settings u roots
    (∀ f, standardRun settings u roots = .error f ↔
      (∃ name, First u.Unknown roots name ∧ f = .unknownRoot name) ∨
      (∀ t ∈ roots, ∀ name, ¬u.Unknown t name) ∧
        ∃ taken, Run.Processes s roots taken ∧
          First (Fault u.providers) (taken.flatMap s.examined) f) ∧
    ((∃ f, standardRun settings u roots = .error f) ↔
      (∃ t ∈ roots, ∃ name, u.Unknown t name) ∨
      ∃ t, s.Reached roots t ∧ ∃ site ∈ s.examined t, ∃ f, Fault u.providers site f) := by
  intro s
  have hs : s.Acts settings.functionalMode (u.writtenTypes ++ candidates u roots) :=
    acts_standardSetup settings u roots
  have htypes : candidates u roots ⊆ u.writtenTypes ++ candidates u roots :=
    List.subset_append_right ..
  have hbound := length_candidates_le u roots
  exact ⟨fun f => Run.run_eq_error_iff hs htypes hbound,
    Run.exists_run_eq_error_iff hs htypes hbound⟩

/-- The failure of a run need not name the declaration at fault: that of `A.f` is put down to the
provider `P::sig`. -/
theorem not_all_failures_name_declaration :
    ¬∀ (settings : Settings) (u : Universe) (roots : List HostType) (f : Failure),
      standardRun settings u roots = .error f →
        ∀ taken front site behind, Run.Processes (standardSetup settings u roots) roots taken →
          taken.flatMap (standardSetup settings u roots).examined = front ++ site :: behind →
          (∀ x ∈ front, ∀ g, ¬Fault u.providers x g) → Fault u.providers site f →
            site.qualifiedName.toList <:+: f.message.toList := by
  intro h
  let field : FieldDecl :=
    { name := "f", type := .primitive .int, tags := [.methodReference "sig" (some "P")] }
  let d : ClassDecl := { name := "A", fields := [field] }
  let u := Universe.ofClasses [d]
  have hrun : standardRun {} u [.named "A"] = .error (.noSignature "P::sig" .unregistered) := rfl
  have hnext : (Run.ofRoots [.named "A"]).next? =
      some ({ type := .named "A" }, { queue := [], seen := [.named "A"] }) := rfl
  have htaken : Run.Processes (standardSetup {} u [.named "A"]) [.named "A"] [.named "A"] :=
    .working .start hnext
  have hfront : ∀ x ∈ [Site.type d], ∀ g, ¬Fault u.providers x g := by
    intro x hx
    obtain rfl := List.mem_singleton.1 hx
    exact Override.exists_ofSite_iff.1 ⟨none, rfl⟩
  have hfault : Fault u.providers (.field d field) (.noSignature "P::sig" .unregistered) :=
    @Fault.unregistered u.providers (.field d field) "sig" (some "P") rfl rfl
  have hnames :=
    h {} u [.named "A"] _ hrun [.named "A"] [.type d] (.field d field) [] htaken rfl hfront hfault
  -- The name has a point, the message has none.
  have hpoint : '.' ∈ (Failure.noSignature "P::sig" .unregistered).message.toList :=
    hnames.subset (show '.' ∈ (Site.field d field).qualifiedName.toList by decide +kernel)
  exact absurd hpoint (by decide +kernel)

end TypeBridge
