import TypeBridge.Proofs.Outcomes
import TypeBridge.Proofs.Outline

/-!
# What the standard chain answers

`answer` is the script of a resolution by the standard chain: the override of the declaration that
it is made for, or else the outline of the type.  A resolver of sufficient depth acts it out
(`follows_resolver`).  So it never declines, it fails only as the override does, and its symbols
alone depend on what was resolved before.
-/

namespace TypeBridge

open Functional Resolving

variable {mode : FunctionalMode} {nested : Resolver} {ctx : Context}

/-! ## Nested types -/

theorem follows_orAny {type : HostType} {outcome : Except Failure (Script Resolution)}
    (h : Follows (nested ctx type) (outcome.map (Script.map some))) :
    Follows (nested.orAny ctx type) outcome := by
  cases outcome with
  | error f => exact Follows.bind_error h
  | ok s =>
    intro table
    unfold Resolver.orAny
    rw [run_bind_of_ok (h table)]
    rfl

theorem follows_allOrAny {outlineOf : HostType → Outline} {types : List HostType}
    (h : ∀ t ∈ types, Follows (nested ctx t) (.ok ((outlineOf t).script.map some))) :
    Follows (nested.allOrAny ctx types)
      (.ok (.list (types.map fun t => (outlineOf t).script))) := by
  induction types with
  | nil => exact follows_pure []
  | cons t rest ih =>
    have hfirst : Follows (nested.orAny ctx t) (.ok (outlineOf t).script) :=
      follows_orAny (h t List.mem_cons_self)
    have hrest := ih fun t' ht' => h t' (List.mem_cons_of_mem t ht')
    exact hfirst.bind (q := .ok (.list (rest.map fun t => (outlineOf t).script))) (f := List.cons)
      fun table => hrest.bind_pure _

/-! ## Structural resolution -/

theorem follows_container {outlineOf : HostType → Outline} {kind : Structural.Container}
    {args : List HostType}
    (h : ∀ t ∈ kind.argument? args, Follows (nested ctx t) (.ok ((outlineOf t).script.map some))) :
    Follows (Structural.container nested ctx kind args)
      (.ok (Outline.wrap kind ((kind.argument? args).elim .any outlineOf)).script) := by
  unfold Structural.container
  cases harg : kind.argument? args with
  | none => cases kind <;> exact follows_pure _
  | some t =>
    have hinner : Follows (nested.orAny ctx t) (.ok (outlineOf t).script) :=
      follows_orAny (h t harg)
    cases kind <;> exact hinner.bind_pure _

theorem follows_application {outlineOf : HostType → Outline} {raw : String} {args : List HostType}
    (hkind : ∀ kind, Structural.Container.ofName? raw = some kind →
      ∀ t ∈ kind.argument? args, Follows (nested ctx t) (.ok ((outlineOf t).script.map some)))
    (hargs : Structural.Container.ofName? raw = none → ctx.host.contains raw = true →
      ∀ t ∈ args, Follows (nested ctx t) (.ok ((outlineOf t).script.map some))) :
    Follows (Structural.application nested ctx raw args)
      (.ok (Outline.application ctx.host outlineOf raw args).script) := by
  unfold Structural.application Outline.application
  cases hk : Structural.Container.ofName? raw with
  | some kind => exact follows_container (hkind kind hk)
  | none =>
    by_cases hc : ctx.host.contains raw = true
    · simp only [hc, ↓reduceIte]
      have hinner := follows_allOrAny (hargs hk hc)
      refine Follows.of_eq
        (s := Script.zip (fun symbol inner => ⟨.reference symbol (inner.map (·.type)),
          .named raw :: inner.flatMap (·.dependents)⟩) (.symbol (.named raw))
        (.list (args.map fun t => (outlineOf t).script))) ?_ ?_ fun table => ?_
      · exact Follows.bind (q := .ok _) (follows_symbolOf _) fun table => hinner.bind_pure _
      · simp only [Script.zip, Script.symbol, Script.asked_list, Outline.script,
          Outline.dependents_reference, List.flatMap_map]
        rfl
      · simp only [Script.zip, Script.symbol, Script.value_list, Outline.script, Outline.resolution,
          Outline.realize_reference, Outline.dependents_reference, List.map_map, List.flatMap_map]
        rfl
    · simp only [hc, Bool.false_eq_true, ↓reduceIte]
      exact follows_pure _

theorem follows_structural {outlineOf : HostType → Outline} {type : HostType}
    (h : ∀ t ∈ Structural.parts ctx.host type,
      Follows (nested ctx t) (.ok ((outlineOf t).script.map some))) :
    Follows (Structural.resolve nested ctx type)
      (.ok (Outline.structural ctx.host outlineOf type).script) := by
  cases type with
  | primitive p => exact follows_pure _
  | typeVar name => exact follows_pure _
  | array e =>
    have hinner : Follows (nested.orAny ctx e) (.ok (outlineOf e).script) :=
      follows_orAny (h e List.mem_cons_self)
    exact hinner.bind_pure _
  | named name =>
    refine follows_application (fun kind _ t ht => ?_) fun _ _ t ht => nomatch ht
    rw [Structural.argument?_nil] at ht
    cases ht
  | generic raw args =>
    refine follows_application (fun kind hk t ht => h t ?_) fun hk hc t ht => h t ?_
    · simpa [Structural.parts, hk] using ht
    · simpa [Structural.parts, hk, hc] using ht

/-! ## Functional interfaces -/

theorem length_parameterNames (o : Opened) (outlineOf : HostType → Outline) :
    (o.method.params.mapIdx parameterName).length = (o.paramTypes.map outlineOf).length := by
  simp [Opened.paramTypes]

theorem follows_opened {outlineOf : HostType → Outline} {o : Opened}
    (h : ∀ t ∈ o.paramTypes ++ [o.resultType],
      Follows (nested ctx t) (.ok ((outlineOf t).script.map some))) :
    Follows (o.resolve nested ctx) (.ok ((Outline.ofOpened o outlineOf).script.map some)) := by
  have hparams := follows_allOrAny fun t ht => h t (List.mem_append_left _ ht)
  have hresult : Follows (nested.orAny ctx o.resultType) (.ok (outlineOf o.resultType).script) :=
    follows_orAny (h o.resultType (by simp))
  have hlength := length_parameterNames o outlineOf
  refine Follows.of_eq
    (s := Script.zip (fun params result => some (functionType o.method params result))
      (.list (o.paramTypes.map fun t => (outlineOf t).script))
      (outlineOf o.resultType).script) ?_ ?_
    fun table => ?_
  · exact Follows.bind (q := .ok _) hparams fun table => hresult.bind_pure _
  · simp only [Script.zip, Script.map, Script.asked_list, Outline.script, Outline.ofOpened,
      Outline.dependents_function hlength, List.flatMap_map]
  · simp only [Script.zip, Script.map, Script.value_list, Outline.script, Outline.resolution,
      functionType, Outline.ofOpened, Outline.realize_function, Outline.dependents_function hlength,
      List.map_map, List.flatMap_map]
    rfl

/-! ## Overrides -/

namespace Override

def ofContext (ctx : Context) : Except Failure (Option Resolution) :=
  match ctx.site with
  | none => .ok none
  | some site => ofSite ctx.host.providers site

/-- An override is the text of the only tag, or of the provider that the tag names. -/
theorem ofSite_eq_some {providers : Providers} {site : Site} {r : Resolution}
    (h : ofSite providers site = .ok (some r)) :
    ∃ text extraTypes, ¬Text.AllBlank text.toList ∧ r = ⟨.verbatim text, extraTypes⟩ ∧
      (site.tags = [.verbatim text extraTypes] ∨ ∃ name owner,
        site.tags = [.methodReference name owner] ∧
        providers.get? (owner.getD site.owner.name) name = some (.ok ⟨text, extraTypes⟩)) := by
  unfold ofSite at h
  split at h
  · cases h
  · next tag htags =>
    obtain ⟨r', htag, hr⟩ := except_map_eq_ok.1 h
    cases hr
    cases tag with
    | verbatim text extraTypes =>
      simp only [ofTag] at htag
      split at htag
      · cases htag
      · next hblank =>
        cases htag
        exact ⟨text, extraTypes, hblank, rfl, .inl htags⟩
    | methodReference name owner =>
      simp only [ofTag, ofProvider] at htag
      split at htag
      · cases htag
      · cases htag
      · next signature hsignature =>
        split at htag
        · cases htag
        · next hblank =>
          cases htag
          exact ⟨signature.text, signature.extraTypes, hblank, rfl,
            .inr ⟨name, owner, htags, hsignature⟩⟩
  · cases h

theorem tags_of_ofSite_none {providers : Providers} {site : Site}
    (h : ofSite providers site = .ok none) : site.tags = [] := by
  unfold ofSite at h
  split at h
  · next htags => exact htags
  · obtain ⟨r, -, hr⟩ := except_map_eq_ok.1 h
    cases hr
  · cases h

theorem ofSite_verbatim {providers : Providers} {site : Site} {r : Resolution}
    (h : ofSite providers site = .ok (some r)) : r.type.isVerbatim = true := by
  obtain ⟨text, extraTypes, -, rfl, -⟩ := ofSite_eq_some h
  rfl

theorem ofTag_ne_exhausted (providers : Providers) (site : Site) (tag : OverrideTag) :
    ofTag providers site tag ≠ .error .exhausted := by
  cases tag with
  | verbatim text extraTypes =>
    simp only [ofTag]
    split <;> simp
  | methodReference name owner =>
    simp only [ofTag, ofProvider]
    split
    · simp
    · simp
    · split <;> simp

theorem ofSite_ne_exhausted (providers : Providers) (site : Site) :
    ofSite providers site ≠ .error .exhausted := by
  unfold ofSite
  split
  · simp
  · next tag _ => exact fun h => ofTag_ne_exhausted providers site tag (except_map_eq_error.1 h)
  · simp

theorem ofContext_ne_exhausted (ctx : Context) : ofContext ctx ≠ .error .exhausted := by
  unfold ofContext
  split
  · simp
  · next site _ => exact ofSite_ne_exhausted _ site

theorem process_eq (nested : Resolver) (ctx : Context) (type : HostType) :
    processor.process nested ctx type = MonadExcept.ofExcept (ofContext ctx) := by
  unfold ofContext
  change (match ctx.site with
    | none => pure none
    | some site => MonadExcept.ofExcept (ofSite ctx.host.providers site)) = _
  cases ctx.site <;> rfl

end Override

/-- There is no declaration that the type is resolved for, or it has no tags. -/
def Context.Untagged (ctx : Context) : Prop :=
  ∀ site ∈ ctx.site, site.tags = []

theorem Override.ofContext_of_untagged {ctx : Context} (h : ctx.Untagged) :
    ofContext ctx = .ok none := by
  unfold ofContext
  cases hsite : ctx.site with
  | none => rfl
  | some site =>
    have htags := h site hsite
    simp only [ofSite, htags]

/-! ## The chain -/

theorem follows_behindOverride {type : HostType}
    (h : ∀ c ∈ calls mode ctx.host ctx.inProgress type,
      Follows (nested { ctx with inProgress := c.1 } c.2)
        (.ok ((outline mode ctx.host c.1 c.2).script.map some))) :
    Follows (Chain.behindOverride mode nested ctx type)
      (.ok ((outline mode ctx.host ctx.inProgress type).script.map some)) := by
  rw [outline_eq]
  unfold Chain.behindOverride outlineStep
  cases ho : opened? mode ctx.host ctx.inProgress type with
  | some o =>
    exact follows_opened fun t ht => h (type :: ctx.inProgress, t) (mem_calls_of_opened ho ht)
  | none =>
    have hstructural : Follows (Structural.resolve nested ctx type)
        (.ok (Outline.structural ctx.host (outline mode ctx.host ctx.inProgress) type).script) :=
      follows_structural fun t ht => h (ctx.inProgress, t) (mem_calls_of_part ho ht)
    rw [map_eq_pure_bind]
    exact hstructural.bind_pure some

/-- What the standard chain has for a type: the override of the declaration that it is resolved for,
or an outline. -/
inductive Answer where
  | override (resolution : Resolution)
  | outline (outline : Outline)

namespace Answer

def script : Answer → Script Resolution
  | .override r => .pure r
  | .outline o => o.script

def dependents : Answer → List HostType
  | .override r => r.dependents
  | .outline o => o.dependents

def type (a : Answer) (table : SymbolTable) : TargetType :=
  (a.script.value table).type

def isVerbatim : Answer → Bool
  | .override r => r.type.isVerbatim
  | .outline _ => false

theorem dependents_value (a : Answer) (table : SymbolTable) :
    (a.script.value table).dependents = a.dependents := by
  cases a <;> rfl

theorem isVerbatim_type (a : Answer) (table : SymbolTable) :
    (a.type table).isVerbatim = a.isVerbatim := by
  cases a with
  | override r => rfl
  | outline o => exact o.isVerbatim_realize table

end Answer

def answer (mode : FunctionalMode) (ctx : Context) (type : HostType) : Except Failure Answer :=
  (Override.ofContext ctx).map fun
    | some override => .override override
    | none => .outline (outline mode ctx.host ctx.inProgress type)

theorem answer_of_untagged {mode : FunctionalMode} {ctx : Context} (h : ctx.Untagged)
    (type : HostType) :
    answer mode ctx type = .ok (.outline (outline mode ctx.host ctx.inProgress type)) := by
  rw [answer, Override.ofContext_of_untagged h]
  rfl

theorem answer_ne_exhausted (mode : FunctionalMode) (ctx : Context) (type : HostType) :
    answer mode ctx type ≠ .error .exhausted := by
  exact fun h => Override.ofContext_ne_exhausted ctx (except_map_eq_error.1 h)

/-- **A resolver of sufficient depth acts out the answer.** -/
theorem follows_resolver {limit : Nat} {types : List HostType} (depth : Nat) :
    ∀ (ctx : Context) (type : HostType), Arena ctx.host limit types → type ∈ types →
      need types limit ctx.inProgress type ≤ depth →
        Follows ((Chain.standard mode).resolver depth ctx type)
          ((answer mode ctx type).map fun a => a.script.map some) := by
  induction depth with
  | zero =>
    intro ctx type _ _ hd
    have hpos := type.one_le_size
    unfold need at hd
    omega
  | succ depth ih =>
    intro ctx type ha ht hd
    unfold Chain.resolver
    rw [Chain.first_standard, Override.process_eq]
    have hoverride := follows_ofExcept (Override.ofContext ctx)
    unfold answer at ih ⊢
    cases ho : Override.ofContext ctx with
    | error f =>
      rw [ho] at hoverride
      exact hoverride.bind_error
    | ok r =>
      cases r with
      | some override => exact follows_pure _
      | none =>
        refine follows_behindOverride fun c hc => ?_
        have hlt := need_lt ha ht hc
        have hdepth : need types limit c.1 c.2 ≤ depth :=
          Nat.le_of_lt_succ (Nat.lt_of_lt_of_le hlt hd)
        -- A nested context has the declaration of the outer one, so it has no override either.
        have hnested : Override.ofContext { ctx with inProgress := c.1 } = .ok none := ho
        have hcall := ih { ctx with inProgress := c.1 } c.2 ha (mem_of_mem_calls ha ht hc) hdepth
        rw [hnested] at hcall
        exact hcall

end TypeBridge
