import TypeBridge.Proofs.Declarations
import TypeBridge.Proofs.Parts

/-!
# References

Where a reference in the model leads.  A class is referred to in a nested resolution, where
functional interfaces further out are in progress, and declared or not after a resolution of its
own.  The two differ only for a use that is in progress itself: `mentions_outline` finds that use
around every such reference.

So all references lead to declarations but those to a functional interface from inside its own
function type (`references_declared`).  Such references exist (`not_all_references_declared`).
-/

namespace TypeBridge

open Functional Resolving

/-- `symbol` is referred to in a type, inside the function types `fs` of it, innermost first. -/
inductive TargetType.Mentions (symbol : Symbol) : TargetType → List TargetType → Prop
  | reference {args : List TargetType} : Mentions symbol (.reference symbol args) []
  | argument {other : Symbol} {args : List TargetType} {a : TargetType}
      {fs : List TargetType} (ha : a ∈ args)
      (h : Mentions symbol a fs) : Mentions symbol (.reference other args) fs
  | element {e : TargetType} {fs : List TargetType} (h : Mentions symbol e fs) :
      Mentions symbol (.array e) fs
  | value {v : TargetType} {fs : List TargetType} (h : Mentions symbol v fs) :
      Mentions symbol (.record v) fs
  | param {params : List (String × TargetType)} {result : TargetType} {p : String × TargetType}
      {fs : List TargetType} (hp : p ∈ params) (h : Mentions symbol p.2 fs) :
      Mentions symbol (.function params result) (fs ++ [.function params result])
  | result {params : List (String × TargetType)} {result : TargetType} {fs : List TargetType}
      (h : Mentions symbol result fs) :
      Mentions symbol (.function params result) (fs ++ [.function params result])

/-- A class is referred to where a reference to it stands. -/
theorem TargetType.mentions_iff {symbol : Symbol} {t : TargetType} {fs : List TargetType} :
    t.Mentions symbol fs ↔ ∃ args, (reference symbol args).Part t fs := by
  constructor
  · intro h
    induction h with
    | reference => exact ⟨_, .self⟩
    | argument ha _ ih => exact ih.imp fun _ h => .argument ha h
    | element _ ih => exact ih.imp fun _ h => .element h
    | value _ ih => exact ih.imp fun _ h => .value h
    | param hp _ ih => exact ih.imp fun _ h => .param hp h
    | result _ ih => exact ih.imp fun _ h => .result h
  · rintro ⟨args, h⟩
    induction h with
    | self => exact .reference
    | argument ha _ ih => exact .argument ha ih
    | element _ ih => exact .element ih
    | value _ ih => exact .value ih
    | param hp _ ih => exact .param hp ih
    | result _ ih => exact .result ih

theorem TargetType.not_mentions_of_isVerbatim {symbol : Symbol} {t : TargetType}
    {fs : List TargetType} (h : t.isVerbatim = true) : ¬t.Mentions symbol fs := by
  intro hmentions
  cases hmentions <;> cases h

variable {mode : FunctionalMode} {u : Universe} {table : SymbolTable} {symbol : Symbol}
  {fs : List TargetType}

/-! ## References of an outline -/

theorem mentions_ofOpened {o : Opened} {nested : HostType → Outline}
    (h : ((Outline.ofOpened o nested).realize table).Mentions symbol fs) :
    ∃ t ∈ o.paramTypes ++ [o.resultType], ∃ inner,
      ((nested t).realize table).Mentions symbol inner ∧
      fs = inner ++ [(Outline.ofOpened o nested).realize table] := by
  obtain ⟨args, h⟩ := TargetType.mentions_iff.1 h
  obtain ⟨t, ht, inner, hinner, hfs⟩ := part_ofOpened rfl h
  exact ⟨t, ht, inner, TargetType.mentions_iff.2 ⟨args, hinner⟩, hfs⟩

theorem mentions_wrap {kind : Structural.Container} {o : Outline}
    (h : ((Outline.wrap kind o).realize table).Mentions symbol fs) :
    (o.realize table).Mentions symbol fs := by
  obtain ⟨args, h⟩ := TargetType.mentions_iff.1 h
  exact TargetType.mentions_iff.2 ⟨args, part_wrap rfl h⟩

theorem exists_class_of_mentions {o : Outline} (h : (o.realize table).Mentions symbol fs) :
    ∃ name ∈ o.classes, symbol = (table.symbol (.named name)).1 := by
  induction o using Outline.nestedInduction generalizing fs with
  | primitive k => cases h
  | typeVar n => cases h
  | array e ih => cases h with | element h => exact ih h
  | record v ih => cases h with | value h => exact ih h
  | reference n args ih =>
    rw [Outline.realize_reference] at h
    rw [Outline.classes, Outline.classesOfList_eq_flatMap]
    cases h with
    | reference => exact ⟨n, List.mem_cons_self, rfl⟩
    | argument harg h =>
      obtain ⟨a, ha, rfl⟩ := List.mem_map.1 harg
      obtain ⟨name, hname, hsymbol⟩ := ih a ha h
      exact ⟨name, List.mem_cons_of_mem _ (List.mem_flatMap.2 ⟨a, ha, hname⟩), hsymbol⟩
  | function params result ihp ihr =>
    rw [Outline.realize, Outline.realizeParams_eq_map] at h
    rw [Outline.classes, Outline.classesOfParams_eq_flatMap]
    cases h with
    | param hparam h =>
      obtain ⟨p, hp, rfl⟩ := List.mem_map.1 hparam
      obtain ⟨name, hname, hsymbol⟩ := ihp p hp h
      exact ⟨name, List.mem_append_left _ (List.mem_flatMap.2 ⟨p, hp, hname⟩), hsymbol⟩
    | result h =>
      obtain ⟨name, hname, hsymbol⟩ := ihr h
      exact ⟨name, List.mem_append_right _ hname, hsymbol⟩

theorem mentions_structural {nested : HostType → Outline} {type : HostType}
    (h : ((Outline.structural u nested type).realize table).Mentions symbol fs) :
    (∃ name ∈ (Outline.structural u nested type).classes, type.rawName? = some name ∧
      symbol = (table.symbol (.named name)).1) ∨
    ∃ t ∈ Structural.parts u type, ((nested t).realize table).Mentions symbol fs := by
  rcases Outline.structural_cases u type with ⟨-, o, hleaf, heq⟩ | ⟨kind, t, hparts, heq⟩ |
    ⟨name, hname, -, -, heq⟩
  · rw [heq] at h
    obtain ⟨name, hmem, -⟩ := exists_class_of_mentions h
    rw [hleaf] at hmem
    cases hmem
  · rw [heq] at h
    exact .inr ⟨t, by simp [hparts], mentions_wrap h⟩
  · rw [heq] at h ⊢
    rw [Outline.realize_reference, List.map_map] at h
    cases h with
    | reference => exact .inl ⟨name, List.mem_cons_self, hname, rfl⟩
    | argument ha h =>
      obtain ⟨t, ht, rfl⟩ := List.mem_map.1 ha
      exact .inr ⟨t, ht, h⟩

/-! ## Classes of nested resolutions -/

theorem classes_subset_ofOpened {o : Opened} {nested : HostType → Outline} {t : HostType}
    (ht : t ∈ o.paramTypes ++ [o.resultType]) :
    (nested t).classes ⊆ (Outline.ofOpened o nested).classes := by
  unfold Outline.ofOpened
  rw [Outline.classes, Outline.classesOfParams_zip (length_parameterNames o nested),
    List.flatMap_map]
  rcases List.mem_append.1 ht with ht | ht
  · exact fun n hn => List.mem_append_left _ (List.mem_flatMap.2 ⟨t, ht, hn⟩)
  · obtain rfl := List.mem_singleton.1 ht
    exact List.subset_append_right ..

theorem classes_subset_structural {nested : HostType → Outline} {type t : HostType}
    (ht : t ∈ Structural.parts u type) :
    (nested t).classes ⊆ (Outline.structural u nested type).classes := by
  rcases Outline.structural_cases u type with
    ⟨hparts, -⟩ | ⟨kind, t', hparts, heq⟩ | ⟨name, -, -, -, heq⟩
  · rw [hparts] at ht
    cases ht
  · rw [hparts] at ht
    obtain rfl := List.mem_singleton.1 ht
    rw [heq]
    cases kind <;> exact List.Subset.refl _
  · rw [heq, Outline.classes, Outline.classesOfList_eq_flatMap, List.flatMap_map]
    exact fun n hn => List.mem_cons_of_mem _ (List.mem_flatMap.2 ⟨t, ht, hn⟩)

theorem classes_subset_of_call {inProgress : List HostType} {type : HostType}
    {c : List HostType × HostType} (hc : c ∈ calls mode u inProgress type) :
    (outline mode u c.1 c.2).classes ⊆ (outline mode u inProgress type).classes := by
  rcases calls_cases hc with ⟨o, ho, t, ht, rfl⟩ | ⟨ho, t, ht, rfl⟩
  · rw [outline_of_opened ho]
    exact classes_subset_ofOpened ht
  · rw [outline_of_not_opened ho]
    exact classes_subset_structural ht

/-! ## Uses in progress -/

/-- A use of a class that the chain declines to open is in progress, or no use of the class is
opened. -/
theorem opened?_eq_none {inProgress : List HostType} {type : HostType} {name : String}
    (hname : type.rawName? = some name) (h : opened? mode u inProgress type = none) :
    type ∈ inProgress ∨ opened? mode u [] (.named name) = none := by
  have heligible : eligible? mode u (.named name) = eligible? mode u type := by
    unfold eligible?
    rw [hname]
    rfl
  unfold opened? at h ⊢
  rw [heligible]
  cases he : eligible? mode u type with
  | none => exact .inr rfl
  | some d =>
    rw [he] at h
    dsimp only at h
    split at h
    · next hp => exact .inl (by simpa using hp)
    · refine .inr ?_
      simpa using h

/-- Among `fs` is the function type of a use of a class, with no classes besides `classes`. -/
def InsideUse (mode : FunctionalMode) (u : Universe) (table : SymbolTable) (classes : List String)
    (name : String) (fs : List TargetType) : Prop :=
  ∃ inProgress use, use.rawName? = some name ∧ (outline mode u inProgress use).realize table ∈ fs ∧
    (outline mode u inProgress use).classes ⊆ classes

theorem InsideUse.mono {classes more : List String} {name : String} {outer : List TargetType}
    (h : InsideUse mode u table classes name fs) (hclasses : classes ⊆ more) (hfs : fs ⊆ outer) :
    InsideUse mode u table more name outer := by
  obtain ⟨inProgress, use, hraw, hmem, hsub⟩ := h
  exact ⟨inProgress, use, hraw, hfs hmem, List.Subset.trans hsub hclasses⟩

/-- A reference is to a class that is not opened anywhere, or a use of that class is in progress
around it. -/
theorem mentions_outline {inProgress : List HostType} {type : HostType}
    (h : ((outline mode u inProgress type).realize table).Mentions symbol fs) :
    ∃ name ∈ (outline mode u inProgress type).classes, symbol = (table.symbol (.named name)).1 ∧
      (opened? mode u [] (.named name) = none ∨ (∃ use ∈ inProgress, use.rawName? = some name) ∨
        InsideUse mode u table (outline mode u inProgress type).classes name fs) := by
  induction inProgress, type using @outlineInduction mode u generalizing fs with
  | step inProgress type ih =>
    cases ho : opened? mode u inProgress type with
    | some o =>
      have houtline := outline_of_opened ho
      rw [houtline] at h
      obtain ⟨t, ht, inner, hinner, rfl⟩ := mentions_ofOpened h
      have hcall := mem_calls_of_opened ho ht
      obtain ⟨name, hname, hsymbol, hcase⟩ := ih _ hcall hinner
      refine ⟨name, classes_subset_of_call hcall hname, hsymbol, ?_⟩
      rcases hcase with hnone | ⟨use, huse, hraw⟩ | hinside
      · exact .inl hnone
      · rcases List.mem_cons.1 huse with rfl | huse
        · refine .inr (.inr ⟨inProgress, use, hraw, ?_, List.Subset.refl _⟩)
          rw [houtline]
          exact List.mem_append_right _ (List.mem_singleton_self _)
        · exact .inr (.inl ⟨use, huse, hraw⟩)
      · exact .inr (.inr (hinside.mono (classes_subset_of_call hcall) (List.subset_append_left ..)))
    | none =>
      have houtline := outline_of_not_opened ho
      rw [houtline] at h
      rcases mentions_structural h with ⟨name, hname, hraw, hsymbol⟩ | ⟨t, ht, hpart⟩
      · refine ⟨name, houtline ▸ hname, hsymbol, ?_⟩
        rcases opened?_eq_none hraw ho with hprogress | hnone
        · exact .inr (.inl ⟨type, hprogress, hraw⟩)
        · exact .inl hnone
      · have hcall := mem_calls_of_part ho ht
        obtain ⟨name, hname, hsymbol, hcase⟩ := ih _ hcall hpart
        refine ⟨name, classes_subset_of_call hcall hname, hsymbol, ?_⟩
        rcases hcase with hnone | hprogress | hinside
        · exact .inl hnone
        · exact .inr (.inl hprogress)
        · exact .inr (.inr (hinside.mono (classes_subset_of_call hcall) (List.Subset.refl _)))

/-! ## A resolution of its own -/

theorem declared?_of_not_opened {name : String}
    (hlibrary : Structural.Container.ofName? name = none) (hcontains : u.contains name = true)
    (h : opened? mode u [] (.named name) = none) :
    declared? mode u (.named name) = u.get? name := by
  have houtline : outline mode u [] (.named name) = .reference name [] := by
    rw [outline_of_not_opened h]
    simp only [Outline.structural, Outline.application, hlibrary, hcontains, ↓reduceIte,
      List.map_nil]
  simp only [declared?, houtline, Outline.isReference, ↓reduceIte]

/-- From some depth on the chain answers `type` with `t` in this context and issues no symbols. -/
def ChainAnswers (mode : FunctionalMode) (ctx : Context) (table : SymbolTable) (type : HostType)
    (t : TargetType) : Prop :=
  ∃ bound dependents, ∀ depth, bound ≤ depth →
    ((Chain.standard mode).resolver depth ctx type).run table = (.ok (some ⟨t, dependents⟩), table)

/-- The chain answers outlines outside any override; with all symbols issued it issues none. -/
theorem chainAnswers_of_untagged {ctx : Context} (huntagged : ctx.Untagged) {type : HostType}
    (hknown : (outline mode ctx.host ctx.inProgress type).dependents ⊆ table.types) :
    ChainAnswers mode ctx table type
      ((outline mode ctx.host ctx.inProgress type).realize table) := by
  refine ⟨need (arenaOf ctx.host type) (HostType.sizeAll (type :: ctx.host.writtenTypes))
    ctx.inProgress type, (outline mode ctx.host ctx.inProgress type).dependents,
    fun depth hdepth => ?_⟩
  have hfollows : Follows ((Chain.standard mode).resolver depth ctx type) _ :=
    follows_resolver depth ctx type (arena_arenaOf type) (mem_arenaOf type) hdepth
  rw [answer_of_untagged huntagged] at hfollows
  have hrun := hfollows table
  have hissued : table.issueAll (outline mode ctx.host ctx.inProgress type).dependents = table :=
    SymbolTable.issueAll_of_subset hknown
  simp only [Script.map, Answer.script, Outline.script, hissued] at hrun
  exact hrun

theorem chainAnswers_outline {ctx : Context} (hsite : ctx.site = none) {type : HostType}
    (hknown : (outline mode ctx.host ctx.inProgress type).dependents ⊆ table.types) :
    ChainAnswers mode ctx table type
      ((outline mode ctx.host ctx.inProgress type).realize table) := by
  refine chainAnswers_of_untagged (fun site h => ?_) hknown
  rw [hsite] at h
  cases h

/-! ## The references of a run -/

/-- **References lead to declarations.**  Every reference in a bean, at any depth, carries the
symbol of a declaration of the model, except that a functional interface which by itself resolves to
a function type, and so has no declaration, may be referred to from inside the function type that
one of its uses has become. -/
theorem references_declared (settings : Settings) (u : Universe) (roots : List HostType) {r : Run}
    (h : standardRun settings u roots = .ok r) {b : Bean} (hb : b ∈ r.model.beans) {t : TargetType}
    (ht : t ∈ b.types) (hmentions : t.Mentions symbol fs) :
    symbol ∈ r.model.generated.map (·.symbol) ∨
      ∃ name, r.symbols.get? (.named name) = some symbol ∧
        (∃ own, (standardSetup settings u roots).resolution? none (.named name) = some own ∧
          own.type.isFunction = true) ∧
        ∃ f ∈ fs, ∃ use inProgress, use.rawName? = some name ∧
          ChainAnswers settings.functionalMode { host := u, settings, inProgress }
            r.symbols use f := by
  have hs := acts_standardSetup settings u roots
  have htypes : candidates u roots ⊆ u.writtenTypes ++ candidates u roots :=
    List.subset_append_right ..
  obtain ⟨hduring, hnext⟩ := Run.During.of_run h
  have hexact : Run.Exact (standardSetup settings u roots) roots r :=
    Run.Exact.of_during hs htypes hduring
  have hrendered : Run.Rendered settings.functionalMode (standardSetup settings u roots) r :=
    Run.Rendered.of_during hs htypes hduring
  have hconfined : Run.Confined (candidates u roots) r := Run.Confined.of_during hs htypes hduring
  obtain ⟨d, a, hd, ha, hasked, hvalue⟩ :=
    hrendered (.bean b) (List.mem_append_left _ (List.mem_map_of_mem hb))
  obtain ⟨x, hx, rfl⟩ := ClassAnswer.type_of_mem_bean ha hvalue ht
  rcases ClassAnswer.answers_cases ha hx with ⟨own, rfl, hverbatim⟩ | ⟨type, rfl⟩
  · exact absurd hmentions (TargetType.not_mentions_of_isVerbatim hverbatim)
  · obtain ⟨name, hname, rfl, hcase⟩ := mentions_outline hmentions
    have hreached : (standardSetup settings u roots).Reached roots (.named name) :=
      Run.reached_of_mem_answers hs htypes hconfined hexact hb hd ha hx (List.mem_map_of_mem hname)
    have hknown : (outline settings.functionalMode u [] type).dependents ⊆
        r.symbols.types := fun t ht =>
      hasked (ClassAnswer.asked_subset_of_mem_answers ha hx ht)
    obtain ⟨hlibrary, hcontains⟩ := mem_classes_outline hname
    obtain ⟨c, hc⟩ := Option.isSome_iff_exists.1 hcontains
    have hcandidate : HostType.named name ∈ u.writtenTypes ++ candidates u roots :=
      htypes (hconfined.seen ((hexact.mem_seen_iff hnext _).2 hreached))
    cases ho : opened? settings.functionalMode u [] (.named name) with
    | none =>
      refine .inl (Run.symbol_mem_of_reached hexact hrendered hnext hreached (d := c) ?_)
      rw [Setup.declarable?_eq hs hcandidate]
      exact (declared?_of_not_opened hlibrary hcontains ho).trans hc
    | some o =>
      refine .inr ⟨name, ?_, ?_, ?_⟩
      · obtain ⟨symbol, hget⟩ := SymbolTable.exists_get?_of_mem (hknown (List.mem_map_of_mem hname))
        rw [hget, SymbolTable.symbol_of_get? hget]
      · obtain ⟨table, hown⟩ := Setup.resolution?_none hs hcandidate
        exact ⟨_, hown, congrArg (fun o => (o.realize table).isFunction) (outline_of_opened ho)⟩
      · rcases hcase with hnone | ⟨use, huse, -⟩ | ⟨stack, use, hraw, hmem, hsub⟩
        · cases hnone.symm.trans ho
        · cases huse
        · let ctx : Context := { host := u, settings, inProgress := stack }
          have hsite : ctx.site = none := rfl
          exact ⟨_, hmem, use, stack, hraw, chainAnswers_outline hsite fun t ht =>
            hknown (List.map_subset _ hsub ht)⟩

/-- A class with a field of a functional interface whose method returns the interface. -/
def selfReferring : Universe :=
  .ofClasses
    [{ name := "A", fields := [{ name := "run", type := .named "R" }] },
      { name := "R", kind := .interface,
        methods := [{ name := "next", returnType := .named "R", kind := .abstract }] }]

theorem run_selfReferring :
    ∃ r, standardRun {} selfReferring [.named "A"] = .ok r ∧
      r.model.beans.flatMap Bean.types = [.function [] (.reference ⟨1, "R"⟩ [])] ∧
      r.model.generated.map (·.symbol) = [⟨0, "A"⟩] :=
  ⟨_, rfl, rfl, rfl⟩

/-- The reference in `A` is inside the function type of `R`. -/
theorem references_declared_selfReferring :
    ∃ r name, standardRun {} selfReferring [.named "A"] = .ok r ∧
      r.symbols.get? (.named name) = some ⟨1, "R"⟩ ∧
      ∃ own,
        (standardSetup {} selfReferring [.named "A"]).resolution? none (.named name) = some own ∧
        own.type.isFunction = true := by
  obtain ⟨r, hrun, htypes, hsymbols⟩ := run_selfReferring
  have hmem :
      TargetType.function [] (.reference ⟨1, "R"⟩ []) ∈ r.model.beans.flatMap Bean.types := by
    rw [htypes]
    exact List.mem_singleton_self _
  obtain ⟨b, hb, ht⟩ := List.mem_flatMap.1 hmem
  rcases references_declared {} selfReferring [.named "A"] hrun hb ht (.result .reference) with
    hdeclared | ⟨name, hget, hown, -⟩
  · rw [hsymbols] at hdeclared
    exact absurd hdeclared (by decide)
  · exact ⟨r, name, hrun, hget, hown⟩

/-- The exception is met: `A` refers to `R`, which is not declared. -/
theorem not_all_references_declared :
    ¬∀ (settings : Settings) (u : Universe) (roots : List HostType) (r : Run),
      standardRun settings u roots = .ok r → ∀ b ∈ r.model.beans, ∀ t ∈ b.types, ∀ symbol fs,
        t.Mentions symbol fs → symbol ∈ r.model.generated.map (·.symbol) := by
  intro h
  obtain ⟨r, hrun, htypes, hsymbols⟩ := run_selfReferring
  have hmem :
      TargetType.function [] (.reference ⟨1, "R"⟩ []) ∈ r.model.beans.flatMap Bean.types := by
    rw [htypes]
    exact List.mem_singleton_self _
  obtain ⟨b, hb, ht⟩ := List.mem_flatMap.1 hmem
  have hdeclared := h {} selfReferring [.named "A"] r hrun b hb _ ht ⟨1, "R"⟩ _ (.result .reference)
  rw [hsymbols] at hdeclared
  exact absurd hdeclared (by decide)

end TypeBridge
