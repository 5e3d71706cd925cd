import TypeBridge.Proofs.Failures

/-!
# Members that are admitted besides

Settings of one functional mode differ for a run in the members that they admit and in nothing else:
a resolution does not read them (`Setup.resolution?_congr`).  Where more members are admitted, a
type has more direct dependents and more of its declarations are examined, so more is reached and
more can fail.

`Setup.Widened` compares two such setups type by type, and `sources_subset_of_admitted` is what
follows for two runs.  `Settings.Widens` says which changes of the settings admit no fewer members.
-/

namespace TypeBridge

open Functional Resolving

/-! ## Settings -/

/-- From `first` to `second` no kind of method is left out, no excluding marker is new, and there
are no including markers, or none of them is gone. -/
structure Settings.Widens (first second : Settings) : Prop where
  kinds : ∀ kind, Selection.admitsKind first kind = true → Selection.admitsKind second kind = true
  exclude : second.excludeMarkers ⊆ first.excludeMarkers
  keep : second.includeMarkers = [] ∨ first.includeMarkers ≠ [] ∧
    first.includeMarkers ⊆ second.includeMarkers

namespace Selection

variable {first second : Settings} {d : ClassDecl}

theorem anyMarker_mono {wanted wider markers : List String} (hsub : wanted ⊆ wider)
    (h : anyMarker wanted markers = true) : anyMarker wider markers = true := by
  obtain ⟨marker, hmarker, hwanted⟩ := List.any_eq_true.1 h
  exact List.any_eq_true.2 ⟨marker, hmarker, by simpa using hsub (by simpa using hwanted)⟩

theorem admitsMarkers_of_widens (h : first.Widens second) {markers : List String}
    (hadmits : admitsMarkers first d markers = true) : admitsMarkers second d markers = true := by
  simp only [admitsMarkers, Bool.and_eq_true, Bool.or_eq_true, Bool.not_eq_true'] at hadmits ⊢
  obtain ⟨hexclude, hinclude⟩ := hadmits
  constructor
  · cases hany : anyMarker second.excludeMarkers markers with
    | false => rfl
    | true => exact absurd (anyMarker_mono h.exclude hany) (by simp [hexclude])
  · rcases h.keep with hnone | ⟨hsome, hsub⟩
    · exact .inl (.inl (by simp [hnone]))
    · rcases hinclude with (hempty | hmember) | hclass
      · exact absurd (List.isEmpty_iff.1 hempty) hsome
      · exact .inl (.inr (anyMarker_mono hsub hmember))
      · exact .inr (anyMarker_mono hsub hclass)

/-- Wider settings admit every member that narrower ones admit. -/
theorem declared_subset_of_widens (h : first.Widens second) (d : ClassDecl) :
    declared first d ⊆ declared second d := by
  have hfields : (fields first d).Sublist (fields second d) := by
    refine List.monotone_filter_right d.fields fun f hf => ?_
    obtain ⟨hinstance, hmarkers⟩ := Bool.and_eq_true_iff.1 hf
    exact Bool.and_eq_true_iff.2 ⟨hinstance, admitsMarkers_of_widens h hmarkers⟩
  have hmethods : (methods first d).Sublist (methods second d) := by
    refine List.monotone_filter_right d.methods fun m hm => ?_
    obtain ⟨hkind, hmarkers⟩ := Bool.and_eq_true_iff.1 hm
    exact Bool.and_eq_true_iff.2 ⟨h.kinds m.kind hkind, admitsMarkers_of_widens h hmarkers⟩
  have hconstructors : (constructors first d).Sublist (constructors second d) := by
    refine List.monotone_filter_right d.constructors fun c hc => ?_
    obtain ⟨htagged, hmarkers⟩ := Bool.and_eq_true_iff.1 hc
    exact Bool.and_eq_true_iff.2 ⟨htagged, admitsMarkers_of_widens h hmarkers⟩
  exact (((hfields.map _).append (hmethods.map _)).append (hconstructors.map _)).subset

end Selection

/-! ## Two setups -/

namespace Setup

variable {s other : Setup} {mode : FunctionalMode} {types : List HostType}
  {roots : List HostType} {t : HostType}

/-- `other` works on the universe of `s` in the same mode and admits all members that `s` admits. -/
structure Widened (mode : FunctionalMode) (types : List HostType) (s other : Setup) : Prop where
  acts : s.Acts mode types
  actsOther : other.Acts mode types
  host : other.host = s.host
  members : ∀ d ∈ s.host.classes,
    Selection.declared s.settings d ⊆ Selection.declared other.settings d

/-- Settings besides the mode have no part in a resolution. -/
theorem resolution?_congr (hs : s.Acts mode types) (ho : other.Acts mode types)
    (hhost : other.host = s.host) (ht : t ∈ types) (site : Option Site) :
    other.resolution? site t = s.resolution? site t := by
  have hanswer : answer mode (other.context site) t = answer mode (s.context site) t := by
    simp only [answer, Override.ofContext, context, hhost]
  have hother := ho.follows site t ht
  have hthis := hs.follows site t ht
  rw [hanswer] at hother
  unfold resolution?
  cases ha : answer mode (s.context site) t with
  | error f =>
    rw [ha] at hother hthis
    rw [hother {}, hthis {}]
  | ok a =>
    rw [ha] at hother hthis
    rw [hother {}, hthis {}]

namespace Widened

variable (h : Widened mode types s other)
include h

theorem dependentsAt_eq (ht : t ∈ types) (site : Option Site) :
    other.dependentsAt site t = s.dependentsAt site t := by
  unfold dependentsAt
  rw [resolution?_congr h.acts h.actsOther h.host ht]

theorem declarable?_eq (ht : t ∈ types) : other.declarable? t = s.declarable? t := by
  rw [Setup.declarable?_eq h.acts ht, Setup.declarable?_eq h.actsOther ht, h.host]

theorem memberDependents_eq {source : HostType} (hsource : source ∈ types) {d : ClassDecl}
    (hd : d ∈ s.host.classes) {settings : Settings} {site : Site}
    (hsite : site ∈ Selection.declared settings d) :
    other.memberDependents source site = s.memberDependents source site := by
  have htypes := h.acts.siteTypes_subset hsource hd hsite
  exact List.flatMap_congr fun t ht => h.dependentsAt_eq (htypes ht) (some site)

theorem declarationDependents_subset {source : HostType} (hsource : source ∈ types) {d : ClassDecl}
    (hd : d ∈ s.host.classes) :
    s.declarationDependents source d ⊆ other.declarationDependents source d := by
  have hheader : other.headerDependents d = s.headerDependents d := by
    unfold headerDependents
    rw [h.host]
  have hsuper : d.superTypes.flatMap (other.dependentsAt none) =
      d.superTypes.flatMap (s.dependentsAt none) :=
    List.flatMap_congr fun t ht =>
      h.dependentsAt_eq (h.acts.written d hd t (ClassDecl.mem_writtenTypes_of_superTypes ht)) none
  unfold declarationDependents
  rw [hheader, hsuper, h.acts.selection, h.actsOther.selection]
  refine List.append_subset.2 ⟨List.subset_append_left .., List.subset_append_of_subset_right _ ?_⟩
  cases d.isEnum with
  | true => exact List.Subset.refl _
  | false =>
    refine List.append_subset.2
      ⟨List.subset_append_left .., List.subset_append_of_subset_right _ fun t ht => ?_⟩
    obtain ⟨site, hsite, ht⟩ := List.mem_flatMap.1 ht
    rw [← h.memberDependents_eq hsource hd hsite] at ht
    exact List.mem_flatMap.2 ⟨site, h.members d hd hsite, ht⟩

theorem directDependents_subset (ht : t ∈ types) :
    s.directDependents t ⊆ other.directDependents t := by
  unfold directDependents
  rw [h.dependentsAt_eq ht, h.declarable?_eq ht]
  refine List.append_subset.2 ⟨List.subset_append_left .., List.subset_append_of_subset_right _ ?_⟩
  cases hd : s.declarable? t with
  | none => exact List.Subset.refl _
  | some d =>
    rw [Setup.declarable?_eq h.acts ht] at hd
    exact h.declarationDependents_subset ht (declared?_mem hd)

/-- More declarations are examined in the work on a type. -/
theorem examined_subset (ht : t ∈ types) : s.examined t ⊆ other.examined t := by
  unfold examined
  rw [h.declarable?_eq ht]
  cases hd : s.declarable? t with
  | none => exact List.Subset.refl _
  | some d =>
    rw [Setup.declarable?_eq h.acts ht] at hd
    refine List.cons_subset_cons _ ?_
    cases d.isEnum with
    | true => exact List.Subset.refl _
    | false => exact h.members d (declared?_mem hd)

/-- More is reached, by induction on how it is reached. -/
theorem reached (htypes : ∀ t, other.Reached roots t → t ∈ types) (ht : s.Reached roots t) :
    other.Reached roots t := by
  induction ht with
  | root hroot => exact .root hroot
  | dependent _ hd ih => exact ih.dependent (h.directDependents_subset (htypes _ ih) hd)

end Widened

end Setup

/-! ## Two runs -/

namespace Run

variable {s other : Setup} {mode : FunctionalMode} {types : List HostType}
  {roots : List HostType} {r r' : Run}

theorem mem_candidates_of_reached (hs : s.Acts mode types)
    (htypes : candidates s.host roots ⊆ types) {bound : Nat} (h : s.run bound roots = .ok r)
    {t : HostType} (ht : s.Reached roots t) : t ∈ candidates s.host roots := by
  obtain ⟨hduring, hnext⟩ := During.of_run h
  exact (Confined.of_during hs htypes hduring).seen
    (((Exact.of_during hs htypes hduring).mem_seen_iff hnext t).2 ht)

theorem mem_sources_iff (hs : s.Acts mode types)
    (htypes : candidates s.host roots ⊆ types) {bound : Nat}
    (h : s.run bound roots = .ok r) (t : HostType) :
    t ∈ r.model.sources ↔ s.Reached roots t ∧ ∃ d, s.declarable? t = some d := by
  obtain ⟨hduring, hnext⟩ := During.of_run h
  have hexact := Exact.of_during hs htypes hduring
  unfold Model.sources
  rw [hexact.externals, List.map_nil, List.append_nil, ← Model.map_source_generated]
  exact hexact.mem_sources_generated_iff hnext t

theorem exists_run_of_widened (h : Setup.Widened mode types s other)
    (htypes : candidates s.host roots ⊆ types) {bound : Nat}
    (hbound : (candidates s.host roots).dedup.length ≤ bound)
    (hrun : other.run bound roots = .ok r') :
    ∃ r, s.run bound roots = .ok r ∧ r.model.sources ⊆ r'.model.sources := by
  have htypes' : candidates other.host roots ⊆ types := h.host ▸ htypes
  have hbound' : (candidates other.host roots).dedup.length ≤ bound := h.host ▸ hbound
  have hin : ∀ t, other.Reached roots t → t ∈ types := fun t ht =>
    htypes' (mem_candidates_of_reached h.actsOther htypes' hrun ht)
  cases hr : s.run bound roots with
  | error f =>
    -- What fails the narrower run is also met by the wider one.
    have hfails : ∃ f, other.run bound roots = .error f := by
      rw [exists_run_eq_error_iff h.actsOther htypes' hbound', h.host]
      rcases (exists_run_eq_error_iff h.acts htypes hbound).1 ⟨f, hr⟩ with
        hroot | ⟨t, ht, site, hsite, hfault⟩
      · exact .inl hroot
      · have ht' := h.reached hin ht
        exact .inr ⟨t, ht', site, h.examined_subset (hin t ht') hsite, hfault⟩
    obtain ⟨g, hg⟩ := hfails
    exact absurd (hrun.symm.trans hg) nofun
  | ok r =>
    refine ⟨r, rfl, fun t ht => ?_⟩
    obtain ⟨hreached, d, hd⟩ := (mem_sources_iff h.acts htypes hr t).1 ht
    have hreached' := h.reached hin hreached
    exact (mem_sources_iff h.actsOther htypes' hrun t).2
      ⟨hreached', d, (h.declarable?_eq (hin t hreached')).trans hd⟩

end Run

/-- **Admitting members only adds declarations.**  Where all members that the first settings admit
are admitted by the second ones, in the same mode, a run of the standard pipeline under the first
succeeds if one under the second does, and every type that it declares is declared under the second
as well. -/
theorem sources_subset_of_admitted {first second : Settings} {u : Universe}
    {roots : List HostType} {later : Run} (hmode : first.functionalMode = second.functionalMode)
    (hmembers : ∀ d ∈ u.classes, Selection.declared first d ⊆ Selection.declared second d)
    (h : standardRun second u roots = .ok later) :
    ∃ earlier, standardRun first u roots = .ok earlier ∧
      earlier.model.sources ⊆ later.model.sources := by
  have hwidened : Setup.Widened second.functionalMode (u.writtenTypes ++ candidates u roots)
      (standardSetup first u roots) (standardSetup second u roots) :=
    { acts := hmode ▸ acts_standardSetup first u roots
      actsOther := acts_standardSetup second u roots
      host := rfl
      members := hmembers }
  exact Run.exists_run_of_widened hwidened (List.subset_append_right ..)
    (length_candidates_le u roots) h

/-- Without the excluding marker, and with abstract methods, two more classes are found from `A`. -/
theorem sources_subset_of_admitted_marked :
    let u := Universe.ofClasses
      [{ name := "A", fields := [{ name := "b", type := .named "B" },
          { name := "c", type := .named "C", markers := ["Internal"] }] },
        { name := "B",
          methods :=
            [{ name := "all", returnType := .generic "List" [.named "D"], kind := .abstract }] },
        { name := "C", superTypes := [.named "B"] },
        { name := "D", kind := .enumeration, constants := [{ name := "X" }] }]
    let first : Settings := { excludeMarkers := ["Internal"] }
    let second : Settings := { emitAbstractMethods := true }
    first.functionalMode = second.functionalMode ∧
      (∀ d ∈ u.classes, Selection.declared first d ⊆ Selection.declared second d) ∧
      ∃ later, standardRun second u [.named "A"] = .ok later ∧
        later.model.sources = [.named "A", .named "B", .named "C", .named "D"] ∧
        ∃ earlier, standardRun first u [.named "A"] = .ok earlier ∧
          earlier.model.sources ⊆ later.model.sources := by
  intro u first second
  have hwidens : first.Widens second :=
    { kinds := fun kind h => by cases kind <;> cases h
      exclude := List.nil_subset _
      keep := .inl rfl }
  have hmembers : ∀ d ∈ u.classes,
      Selection.declared first d ⊆ Selection.declared second d := fun d _ =>
    Selection.declared_subset_of_widens hwidens d
  have hrun : (standardRun second u [.named "A"]).map (·.model.sources) =
      .ok [.named "A", .named "B", .named "C", .named "D"] := by decide +kernel
  obtain ⟨later, hlater, hsources⟩ := except_map_eq_ok.1 hrun
  have hmode : first.functionalMode = second.functionalMode := rfl
  exact ⟨hmode, hmembers, later, hlater, hsources, sources_subset_of_admitted hmode hmembers hlater⟩

end TypeBridge
