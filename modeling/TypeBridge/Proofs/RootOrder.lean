import TypeBridge.Proofs.Arrangement
import TypeBridge.Proofs.Failures
import TypeBridge.Proofs.Unnumbered

/-!
# The order of the roots

Two runs from the same roots in another order visit types in another order and number symbols
differently.  Where classes have simple names of their own, a symbol's name is the simple name of
its class whenever it is issued (`SymbolTable.Plain`), so the two runs declare the same types and
write each declaration alike.  Sorted by name, the two texts are equal (`generate_root_order`).
-/

namespace TypeBridge

open Functional Resolving

/-! ## Names -/

/-- Different classes have different simple names. -/
def Universe.SimplyNamed (u : Universe) : Prop :=
  ∀ c ∈ u.classes, ∀ d ∈ u.classes, simpleName c.name = simpleName d.name → c.name = d.name

theorem Universe.SimplyNamed.eq_of_symbolBase {u : Universe} (hu : u.SimplyNamed) {s t : HostType}
    (hs : s ∈ u.classTypes) (ht : t ∈ u.classTypes) (h : s.symbolBase = t.symbolBase) : s = t := by
  obtain ⟨c, hc, rfl⟩ := List.mem_map.1 hs
  obtain ⟨d, hd, rfl⟩ := List.mem_map.1 ht
  exact congrArg HostType.named (hu c hc d hd h)

namespace SymbolTable

/-- All symbols are those of classes, under their simple names. -/
def Plain (u : Universe) (table : SymbolTable) : Prop :=
  ∀ e ∈ table.issued, e.1 ∈ u.classTypes ∧ e.2.name = e.1.symbolBase

variable {u : Universe} {table : SymbolTable}

theorem name_notMem_of_plain (hu : u.SimplyNamed) (h : Plain u table) {t : HostType}
    (ht : t ∈ u.classTypes) (hnew : t ∉ table.types) : t.symbolBase ∉ table.names := by
  intro hmem
  obtain ⟨e, he, hname⟩ := List.mem_map.1 hmem
  obtain ⟨hclass, hbase⟩ := h e he
  have hsame : e.1 = t := hu.eq_of_symbolBase hclass ht (hbase.symm.trans hname)
  exact hnew (hsame ▸ List.mem_map_of_mem he)

theorem Plain.name_symbol (hu : u.SimplyNamed) (h : Plain u table) {t : HostType}
    (ht : t ∈ u.classTypes) : (table.symbol t).1.name = t.symbolBase := by
  unfold SymbolTable.symbol
  cases hg : table.get? t with
  | some known =>
    obtain ⟨front, behind, hissued, -⟩ := List.lookup_eq_some_iff.1 hg
    have hentry : (t, known) ∈ table.issued := by
      rw [hissued]
      exact List.mem_append_right _ List.mem_cons_self
    exact (h (t, known) hentry).2
  | none => exact freshName_of_notMem (name_notMem_of_plain hu h ht (notMem_types_of_get? hg))

theorem Plain.symbol (hu : u.SimplyNamed) (h : Plain u table) {t : HostType}
    (ht : t ∈ u.classTypes) : Plain u (table.symbol t).2 := by
  have hname := h.name_symbol hu ht
  unfold SymbolTable.symbol at hname ⊢
  cases hg : table.get? t with
  | some known => exact h
  | none =>
    rw [hg] at hname
    intro e he
    rcases List.mem_append.1 he with he | he
    · exact h e he
    · obtain rfl := List.mem_singleton.1 he
      exact ⟨ht, hname⟩

theorem Plain.issueAll (hu : u.SimplyNamed) (h : Plain u table) {types : List HostType}
    (htypes : types ⊆ u.classTypes) : Plain u (table.issueAll types) := by
  induction types generalizing table with
  | nil => exact h
  | cons t rest ih =>
    obtain ⟨ht, hrest⟩ := List.cons_subset.1 htypes
    exact ih (h.symbol hu ht) hrest

theorem Plain.sameNames (hu : u.SimplyNamed) {other : SymbolTable} (h : Plain u table)
    (ho : Plain u other) {types : List HostType} (htypes : types ⊆ u.classTypes) :
    table.SameNames other types := by
  intro t ht
  rw [h.name_symbol hu (htypes ht), ho.name_symbol hu (htypes ht)]

end SymbolTable

/-! ## What is asked for -/

section Asked

variable {mode : FunctionalMode} {u : Universe} {settings : Settings}

theorem declared?_mem_classTypes {t : HostType} {d : ClassDecl} (h : declared? mode u t = some d) :
    t ∈ u.classTypes := by
  rw [(Setup.eq_named_of_declared? h).1]
  exact List.mem_map_of_mem (Setup.declared?_mem h)

theorem asked_classAnswer_subset {source : HostType} {d : ClassDecl} {a : ClassAnswer}
    (ha : classAnswer mode u settings source d = .ok a) (hsource : source ∈ u.classTypes) :
    (a.script settings source d).asked ⊆ u.classTypes := by
  cases henum : d.isEnum with
  | true =>
    rw [ClassAnswer.script_of_isEnum henum]
    exact List.cons_subset.2 ⟨hsource, List.nil_subset _⟩
  | false =>
    rw [ClassAnswer.asked_of_not_isEnum henum]
    refine List.cons_subset.2 ⟨hsource, fun t ht => ?_⟩
    obtain ⟨x, hx, ht⟩ := List.mem_flatMap.1 ht
    rcases ClassAnswer.answers_cases ha hx with ⟨r, rfl, -⟩ | ⟨own, rfl⟩
    · cases ht
    · exact dependents_outline_subset _ _ ht

theorem asked_contribution_subset {e : Entry} {c : Script Contribution}
    (h : contribution mode u settings e = .ok c) : c.asked ⊆ u.classTypes := by
  cases hd : declared? mode u e.type with
  | none =>
    unfold contribution at h
    rw [hd] at h
    cases h
    exact dependents_outline_subset _ _
  | some d =>
    obtain ⟨a, ha, hasked, -⟩ := contribution_of_some hd h
    rw [hasked]
    exact List.append_subset.2 ⟨dependents_outline_subset _ _,
      asked_classAnswer_subset ha (declared?_mem_classTypes hd)⟩

end Asked

/-! ## Two runs -/

namespace Run

variable {s : Setup} {mode : FunctionalMode} {types : List HostType}
  {roots roots' : List HostType} {r r' : Run}

theorem Plain.of_during (hs : s.Acts mode types) (htypes : candidates s.host roots ⊆ types)
    (hu : s.host.SimplyNamed) (h : During s roots r) : r.symbols.Plain s.host := by
  refine h.invariant (P := fun r => r.symbols.Plain s.host) hs htypes nofun fun hr ht _ hw => ?_
  rw [hw.symbols, ht.symbols]
  exact hr.issueAll hu (asked_contribution_subset hw.contribution)

/-- What is written of a declaration is the same in every run that declares the type. -/
theorem Renders.written_eq (hu : s.host.SimplyNamed) {table other : SymbolTable}
    (ht : table.Plain s.host) (ho : other.Plain s.host) {x y : Declaration}
    (hx : Renders mode s table x) (hy : Renders mode s other y) (hsource : x.source = y.source)
    (settings : Settings) : x.written settings s.host = y.written settings s.host := by
  obtain ⟨d, a, hd, ha, -, hvalue⟩ := hx
  obtain ⟨d', a', hd', ha', -, hvalue'⟩ := hy
  -- Both declare the same class by the same answer, so only the tables differ.
  rw [← hsource] at hd' ha' hvalue'
  obtain rfl : d = d' := Option.some.inj (hd.symm.trans hd')
  obtain rfl : a = a' := Except.ok.inj (ha.symm.trans ha')
  have hasked := asked_classAnswer_subset ha (declared?_mem_classTypes hd)
  have hsame := a.upTo_script s.settings x.source d table other (ht.sameNames hu ho hasked)
  rw [← x.written_unnumbered, ← y.written_unnumbered, ← hvalue, ← hvalue']
  exact congrArg (Declaration.written settings s.host) hsame

/-- What is known of a run that has ended. -/
structure Finished (mode : FunctionalMode) (s : Setup) (roots : List HostType) (r : Run) :
    Prop where
  exact : Exact s roots r
  rendered : Rendered mode s r
  plain : r.symbols.Plain s.host
  done : r.next? = none

theorem Finished.of_run (hs : s.Acts mode types) (htypes : candidates s.host roots ⊆ types)
    (hu : s.host.SimplyNamed) {bound : Nat} (h : s.run bound roots = .ok r) :
    Finished mode s roots r := by
  obtain ⟨hduring, hdone⟩ := During.of_run h
  exact ⟨Exact.of_during hs htypes hduring, Rendered.of_during hs htypes hduring,
    Plain.of_during hs htypes hu hduring, hdone⟩

/-- More roots do not change what is written of a declaration. -/
theorem Finished.written_subset (hu : s.host.SimplyNamed) (h : Finished mode s roots r)
    (h' : Finished mode s roots' r') (hroots : roots ⊆ roots') (settings : Settings) :
    r.model.generated.map (·.written settings s.host) ⊆
      r'.model.generated.map (·.written settings s.host) := by
  intro w hw
  obtain ⟨x, hx, rfl⟩ := List.mem_map.1 hw
  obtain ⟨hreached, hd⟩ :=
    (h.exact.mem_sources_generated_iff h.done x.source).1 (List.mem_map_of_mem hx)
  have hsource := (h'.exact.mem_sources_generated_iff h'.done x.source).2 ⟨hreached.mono hroots, hd⟩
  obtain ⟨y, hy, hyx⟩ := List.mem_map.1 hsource
  rw [(h.rendered x hx).written_eq hu h.plain h'.plain (h'.rendered y hy) hyx.symm settings]
  exact List.mem_map_of_mem hy

theorem Finished.nodup_names (hu : s.host.SimplyNamed) (h : Finished mode s roots r)
    (settings : Settings) :
    ((r.model.generated.map (·.written settings s.host)).map Prod.fst).Nodup := by
  have hclass : ∀ t ∈ r.model.generated.map (·.source), t ∈ s.host.classTypes := by
    intro t ht
    obtain ⟨x, hx, rfl⟩ := List.mem_map.1 ht
    obtain ⟨d, a, hd, -⟩ := h.rendered x hx
    exact declared?_mem_classTypes hd
  have hnames : (r.model.generated.map (·.written settings s.host)).map Prod.fst =
      (r.model.generated.map (·.source)).map HostType.symbolBase := by
    rw [List.map_map, List.map_map]
    refine List.map_congr_left fun x hx => ?_
    have hsymbol := (h.rendered x hx).symbol_eq
    have hname := h.plain.name_symbol hu (hclass x.source (List.mem_map_of_mem hx))
    rw [Function.comp_apply, Function.comp_apply, Declaration.written_fst, hsymbol, hname]
  have hsources : (r.model.generated.map (·.source)).Nodup := by
    rw [Model.map_source_generated]
    exact h.exact.distinct.sublist (List.sublist_append_left ..)
  rw [hnames]
  exact hsources.map_on fun t ht x hx hbase => hu.eq_of_symbolBase (hclass t ht) (hclass x hx) hbase

theorem exists_run_eq_error_of_subset {bound bound' : Nat} (hs : s.Acts mode types)
    (htypes : candidates s.host roots ⊆ types) (htypes' : candidates s.host roots' ⊆ types)
    (hbound : (candidates s.host roots).dedup.length ≤ bound)
    (hbound' : (candidates s.host roots').dedup.length ≤ bound') (hroots : roots ⊆ roots')
    (h : ∃ f, s.run bound roots = .error f) : ∃ f, s.run bound' roots' = .error f := by
  rw [exists_run_eq_error_iff hs htypes' hbound']
  rcases (exists_run_eq_error_iff hs htypes hbound).1 h with
    ⟨t, ht, hunknown⟩ | ⟨t, hreached, hfault⟩
  · exact .inl ⟨t, hroots ht, hunknown⟩
  · exact .inr ⟨t, hreached.mono hroots, hfault⟩

end Run

/-! ## Sorted texts -/

namespace Model

theorem pairwise_sortByName (ds : List (String × String)) :
    (sortByName ds).Pairwise fun d e => d.1 ≤ e.1 :=
  (stablySorted_mergeSort Prod.fst ds).ordered.imp codes_le_iff.1

/-- Sorting by name forgets the order of declarations with names of their own. -/
theorem sortByName_congr {ds es : List (String × String)} (hds : (ds.map Prod.fst).Nodup)
    (hes : (es.map Prod.fst).Nodup) (h : ∀ d, d ∈ ds ↔ d ∈ es) : sortByName ds = sortByName es := by
  have hperm : ds.Perm es := (List.perm_ext_iff_of_nodup hds.of_map hes.of_map).2 h
  have hsorted : (sortByName ds).Perm (sortByName es) :=
    (List.mergeSort_perm ..).trans (hperm.trans (List.mergeSort_perm ..).symm)
  refine hsorted.eq_of_pairwise (fun d e hd he hde hed => ?_) (pairwise_sortByName ds)
    (pairwise_sortByName es)
  have hd' : d ∈ ds := (List.mergeSort_perm ..).mem_iff.1 hd
  have he' : e ∈ ds := (h e).2 ((List.mergeSort_perm ..).mem_iff.1 he)
  exact List.inj_on_of_nodup_map hds hd' he' (String.le_antisymm hde hed)

theorem declarations_documented (settings : Settings) (u : Universe) {m : Model}
    (h : m.externals = []) :
    (m.documented u).declarations settings = m.generated.map (·.written settings u) := by
  simp only [declarations, documented, generated, h, List.map_map, List.map_append, List.map_nil,
    List.append_nil]
  rfl

end Model

/-- **The order of the roots does not matter.**  Where classes have simple names of their own and
declarations are sorted, roots in another order, or some of them more than once, give the same
text. -/
theorem generate_root_order (settings : Settings) (u : Universe) (roots roots' : List HostType)
    (hu : u.SimplyNamed) (hsort : settings.sortDeclarations = true)
    (hroots : ∀ t, t ∈ roots ↔ t ∈ roots') {text : String}
    (h : generate settings u roots = .ok text) : generate settings u roots' = .ok text := by
  have hsub : roots ⊆ roots' := fun t ht => (hroots t).1 ht
  have hsub' : roots' ⊆ roots := fun t ht => (hroots t).2 ht
  -- One setup that is deep enough for both lists of roots.
  let depth := max (Budget.covering u roots).depth (Budget.covering u roots').depth
  let s := (Generator.standard settings).setup depth u
  let types := u.writtenTypes ++ candidates u roots
  have hs : s.Acts settings.functionalMode types := standard_acts settings (Nat.le_max_left ..)
  have htypes : candidates u roots ⊆ types := List.subset_append_right ..
  have hcandidates : candidates u roots' ⊆ candidates u roots :=
    List.append_subset.2 ⟨List.subset_append_of_subset_left _ hsub', List.subset_append_right ..⟩
  have htypes' : candidates u roots' ⊆ types := List.Subset.trans hcandidates htypes
  rw [generate_eq, standardRun_eq settings (Nat.le_max_left ..)] at h
  rw [generate_eq, standardRun_eq settings (Nat.le_max_right ..)]
  obtain ⟨r, hr, rfl⟩ := except_map_eq_ok.1 h
  cases hr' : s.run (Budget.covering u roots').types roots' with
  | error f =>
    obtain ⟨g, hg⟩ := Run.exists_run_eq_error_of_subset hs htypes' htypes
      (length_candidates_le u roots') (length_candidates_le u roots) hsub' ⟨f, hr'⟩
    exact absurd (hr.symm.trans hg) nofun
  | ok r' =>
    have hfinished := Run.Finished.of_run hs htypes hu hr
    have hfinished' := Run.Finished.of_run hs htypes' hu hr'
    have hsorted : Model.sortByName ((r.model.documented u).declarations settings) =
        Model.sortByName ((r'.model.documented u).declarations settings) := by
      rw [Model.declarations_documented settings u hfinished.exact.externals,
        Model.declarations_documented settings u hfinished'.exact.externals]
      refine Model.sortByName_congr (hfinished.nodup_names hu settings)
        (hfinished'.nodup_names hu settings) fun d => ?_
      have hto := hfinished.written_subset hu hfinished' hsub settings
      have hfrom := hfinished'.written_subset hu hfinished hsub' settings
      exact ⟨fun hd => hto hd, fun hd => hfrom hd⟩
    simp only [Except.map, Model.render, hsort, ↓reduceIte, hsorted]

/-- Two classes that refer to each other. -/
theorem generate_root_order_mutual :
    let u := Universe.ofClasses
      [{ name := "p.A", fields := [{ name := "b", type := .named "p.B" }] },
        { name := "p.B", fields := [{ name := "a", type := .generic "List" [.named "p.A"] }] }]
    ∃ text, generate {} u [.named "p.A", .named "p.B"] = .ok text ∧
      generate {} u [.named "p.B", .named "p.A", .named "p.B"] = .ok text := by
  intro u
  obtain ⟨text, htext⟩ : ∃ text, generate {} u [.named "p.A", .named "p.B"] = .ok text := ⟨_, rfl⟩
  have hu : ∀ c ∈ u.classes, ∀ d ∈ u.classes, simpleName c.name = simpleName d.name →
      c.name = d.name := by
    decide +kernel
  have hroots (t : HostType) :
      t ∈ [.named "p.A", .named "p.B"] ↔ t ∈ [.named "p.B", .named "p.A", .named "p.B"] := by
    simp only [List.mem_cons, List.not_mem_nil, or_false]
    exact ⟨Or.inr, fun h => h.elim Or.inr id⟩
  exact ⟨text, htext, generate_root_order {} u _ _ hu rfl hroots htext⟩

end TypeBridge
