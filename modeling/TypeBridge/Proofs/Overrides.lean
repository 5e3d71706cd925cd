import Mathlib.Data.List.Forall2
import TypeBridge.Proofs.Declarations

/-!
# Overrides in the model

Where the text of an override goes.  A bean of a successful run shows its class member by member
(`Bean.Shows`): a declaration with an override tag as the tag's text and nothing else, one without
tags in types that have no override text at any depth.  The latter rests on
`containsVerbatim_realize`: an outline has no place for such text, so no nested resolution can bring
any along.
-/

namespace TypeBridge

open Functional Resolving

/-! ## Outlines have no override text -/

theorem TargetType.someContainsVerbatim_eq (ts : List TargetType) :
    someContainsVerbatim ts = ts.any containsVerbatim := by
  induction ts with
  | nil => rfl
  | cons t rest ih => rw [someContainsVerbatim, List.any_cons, ih]

theorem TargetType.someParamContainsVerbatim_eq (ps : List (String × TargetType)) :
    someParamContainsVerbatim ps = ps.any fun p => p.2.containsVerbatim := by
  induction ps with
  | nil => rfl
  | cons p rest ih => rw [someParamContainsVerbatim, List.any_cons, ih]

theorem Outline.containsVerbatim_realize (table : SymbolTable) (o : Outline) :
    (o.realize table).containsVerbatim = false := by
  induction o using Outline.nestedInduction with
  | primitive k => rfl
  | typeVar n => rfl
  | array e ih => exact ih
  | record v ih => exact ih
  | reference n args ih =>
    rw [realize_reference, TargetType.containsVerbatim, TargetType.someContainsVerbatim_eq]
    refine List.any_eq_false.2 fun t ht => ?_
    obtain ⟨a, ha, rfl⟩ := List.mem_map.1 ht
    rw [ih a ha]
    exact Bool.false_ne_true
  | function params result ihp ihr =>
    rw [realize, realizeParams_eq_map, TargetType.containsVerbatim,
      TargetType.someParamContainsVerbatim_eq, ihr, Bool.or_false]
    refine List.any_eq_false.2 fun p hp => ?_
    obtain ⟨q, hq, rfl⟩ := List.mem_map.1 hp
    rw [Prod.map_snd, ihp q hq]
    exact Bool.false_ne_true

/-! ## What a declaration is shown as -/

/-- The text of the only tag of a declaration, its own or that of the provider it names. -/
inductive OverrideText (providers : Providers) (site : Site) : String → Prop
  | verbatim {text : String} {extraTypes : List HostType}
      (htags : site.tags = [.verbatim text extraTypes]) :
      OverrideText providers site text
  | provider {name : String} {owner : Option String} {signature : Signature}
      (htags : site.tags = [.methodReference name owner])
      (hprovider : providers.get? (owner.getD site.owner.name) name = some (.ok signature)) :
      OverrideText providers site signature.text

/-- The own type of a declaration and those of its parameters: the text of its only tag and no
parameters, or without tags types that have no override text. -/
def ShownAs (providers : Providers) (site : Site) (own : TargetType) (params : List TargetType) :
    Prop :=
  (∃ text, OverrideText providers site text ∧ own = .verbatim text ∧ params = []) ∨
  (site.tags = [] ∧ own.containsVerbatim = false ∧ ∀ t ∈ params, t.containsVerbatim = false)

/-- A property that shows a field. -/
structure Property.Shows (settings : Settings) (providers : Providers)
    (d : ClassDecl) (f : FieldDecl) (p : Property) : Prop where
  name : p.name = f.name
  optional : p.optional = Selection.anyMarker settings.optionalMarkers f.markers
  type : ShownAs providers (.field d f) p.type []

/-- A method that shows a method or a constructor; without an override it has all its parameters. -/
inductive Method.Shows (providers : Providers) (d : ClassDecl) : Site → Method → Prop
  | method {m : MethodDecl} {x : Method} (hname : x.name = m.name)
      (harity : x.arity = m.params.length)
      (hstatic : x.isStatic = (m.kind == .static)) (hoptional : x.optional = (m.kind == .default))
      (hparams : m.tags = [] → x.params.map (·.1) = m.params.mapIdx Functional.parameterName)
      (htypes : ShownAs providers (.method d m) x.result (x.params.map (·.2))) :
      Shows providers d (.method d m) x
  | constructor {c : ConstructorDecl} {x : Method} (hname : x.name = "constructor")
      (harity : x.arity = c.params.length)
      (htypes : ShownAs providers (.constructor d c) x.result (x.params.map (·.2))) :
      Shows providers d (.constructor d c) x

/-- A bean that shows a class: one property for each enumerated field and one method for each
enumerated method and constructor, in order, and above them the text of the class's own tag if it
has one. -/
structure Bean.Shows (settings : Settings) (providers : Providers) (d : ClassDecl) (b : Bean) :
    Prop where
  properties :
    List.Forall₂ (Property.Shows settings providers d) (Selection.fields settings d) b.properties
  methods :
    List.Forall₂ (Method.Shows providers d) ((Selection.methods settings d).map (.method d) ++
      (Selection.constructors settings d).map (.constructor d)) b.methods
  parents : ∀ t ∈ b.parents, t.containsVerbatim = false
  signature : (d.tags = [] ∧ b.signature = none) ∨
    ∃ text, OverrideText providers (.type d) text ∧ b.signature = some text

/-! ## Members -/

variable {mode : FunctionalMode} {u : Universe} {settings : Settings}
  {source : HostType} {d : ClassDecl}

theorem Override.overrideText_of_ofSite {providers : Providers} {site : Site} {r : Resolution}
    (h : ofSite providers site = .ok (some r)) :
    ∃ text, OverrideText providers site text ∧ r.type = .verbatim text := by
  obtain ⟨text, extraTypes, -, rfl, htags | ⟨name, owner, htags, hprovider⟩⟩ := ofSite_eq_some h
  · exact ⟨text, .verbatim htags, rfl⟩
  · exact ⟨text, .provider htags hprovider, rfl⟩

theorem shownAs_of_memberAnswer {site : Site} {m : MemberAnswer}
    (h : memberAnswer mode u source site = .ok m) (table : SymbolTable) :
    ShownAs u.providers site (m.own.type table) (m.params.map (·.type table)) := by
  rcases memberAnswer_eq_ok h with ⟨r, hoverride, rfl⟩ | ⟨hnone, rfl⟩
  · obtain ⟨text, htext, htype⟩ := Override.overrideText_of_ofSite hoverride
    exact .inl ⟨text, htext, htype, rfl⟩
  · refine .inr ⟨Override.tags_of_ofSite_none hnone, Outline.containsVerbatim_realize ..,
      fun t ht => ?_⟩
    rw [List.map_map] at ht
    obtain ⟨p, -, rfl⟩ := List.mem_map.1 ht
    exact Outline.containsVerbatim_realize ..

/-- Without tags all parameters are looked at. -/
theorem length_params_of_memberAnswer {site : Site} {m : MemberAnswer}
    (h : memberAnswer mode u source site = .ok m) (htags : site.tags = []) :
    m.params.length = site.paramTypes.length := by
  rcases memberAnswer_eq_ok h with ⟨r, hoverride, rfl⟩ | ⟨-, rfl⟩
  · obtain ⟨text, htext, -⟩ := Override.overrideText_of_ofSite hoverride
    cases htext with
    | verbatim hsome => exact nomatch htags.symm.trans hsome
    | provider hsome => exact nomatch htags.symm.trans hsome
  · exact List.length_map ..

/-- The field that a member is. -/
def Site.shownFields : Site → List FieldDecl
  | .field _ f => [f]
  | _ => []

/-- The member, if it is shown among the methods. -/
def Site.shownMethods : Site → List Site
  | .method d m => [.method d m]
  | .constructor d c => [.constructor d c]
  | _ => []

theorem flatMap_shownFields (settings : Settings) (d : ClassDecl) :
    (Selection.declared settings d).flatMap Site.shownFields = Selection.fields settings d := by
  simp [Selection.declared, List.flatMap_append, List.flatMap_map, Site.shownFields]

theorem flatMap_shownMethods (settings : Settings) (d : ClassDecl) :
    (Selection.declared settings d).flatMap Site.shownMethods =
      (Selection.methods settings d).map (.method d) ++
        (Selection.constructors settings d).map (.constructor d) := by
  simp [Selection.declared, List.flatMap_append, List.flatMap_map, Site.shownMethods,
    ← List.map_eq_flatMap]

theorem tags_ne_nil_of_constructor {c : ConstructorDecl}
    (h : Site.constructor d c ∈ Selection.declared settings d) : c.tags ≠ [] := by
  intro htags
  simp [Selection.declared, Selection.constructors, htags] at h

namespace MemberAnswer

variable {m : MemberAnswer}

theorem shows_properties {site : Site} (hsite : site ∈ Selection.declared settings d)
    (h : memberAnswer mode u source site = .ok m) (table : SymbolTable) :
    List.Forall₂ (Property.Shows settings u.providers d) site.shownFields
      ((m.script settings site).value table).properties := by
  rcases Setup.mem_declared hsite with ⟨f, -, rfl⟩ | ⟨f, -, rfl⟩ | ⟨c, -, rfl⟩
  · have hshown := shownAs_of_memberAnswer h table
    have hparams : m.params = [] := by
      rcases memberAnswer_eq_ok h with ⟨r, -, rfl⟩ | ⟨-, rfl⟩ <;> rfl
    rw [hparams] at hshown
    exact .cons ⟨rfl, rfl, hshown⟩ .nil
  · exact .nil
  · exact .nil

theorem value_params (m : MemberAnswer) (table : SymbolTable) :
    ((Script.list (m.params.map Answer.script)).value table).map (·.type) =
      m.params.map (·.type table) := by
  rw [Script.value_list, List.map_map, List.map_map]
  rfl

theorem shows_method {f : MethodDecl} (h : memberAnswer mode u source (.method d f) = .ok m)
    (table : SymbolTable) :
    Method.Shows u.providers d (.method d f)
      (Setup.Members.methodOf f (m.params.map (·.type table)) (m.own.type table)) := by
  have hshown := shownAs_of_memberAnswer h table
  have hnames : (f.params.mapIdx parameterName).length = f.params.length := List.length_mapIdx
  have hpaths : (Site.method d f).paramTypes.length = f.params.length := List.length_map ..
  have hle : (m.params.map (·.type table)).length ≤ (f.params.mapIdx parameterName).length := by
    rcases memberAnswer_eq_ok h with ⟨r, -, rfl⟩ | ⟨-, rfl⟩
    · exact Nat.zero_le _
    · simp [hpaths]
  refine .method rfl rfl rfl rfl (fun htags => ?_) ?_
  · have hlength := length_params_of_memberAnswer h htags
    refine List.map_fst_zip ?_
    rw [List.length_map, hlength, hpaths, hnames]
  · have htypes :
        (Setup.Members.methodOf f (m.params.map (·.type table))
          (m.own.type table)).params.map (·.2) = m.params.map (·.type table) :=
      List.map_snd_zip hle
    rw [htypes]
    exact hshown

theorem shows_constructor {c : ConstructorDecl} (htags : c.tags ≠ [])
    (h : memberAnswer mode u source (.constructor d c) = .ok m) (table : SymbolTable) :
    ∃ x, Setup.Members.methodOfConstructor? c (m.own.type table) = some x ∧
      Method.Shows u.providers d (.constructor d c) x := by
  rcases shownAs_of_memberAnswer h table with ⟨text, htext, hown, -⟩ | ⟨hnone, -⟩
  · rw [hown]
    exact ⟨_, rfl, .constructor rfl rfl (.inl ⟨text, htext, rfl, rfl⟩)⟩
  · exact absurd hnone htags

theorem shows_methods {site : Site} (hsite : site ∈ Selection.declared settings d)
    (h : memberAnswer mode u source site = .ok m) (table : SymbolTable) :
    List.Forall₂ (Method.Shows u.providers d) site.shownMethods
      ((m.script settings site).value table).methods := by
  rcases Setup.mem_declared hsite with ⟨f, -, rfl⟩ | ⟨f, -, rfl⟩ | ⟨c, -, rfl⟩
  · exact .nil
  · have hmethod := shows_method h table
    rw [← value_params] at hmethod
    exact .cons hmethod .nil
  · obtain ⟨x, hx, hshows⟩ := shows_constructor (tags_ne_nil_of_constructor hsite) h table
    have hvalue : ((m.script settings (.constructor d c)).value table).methods =
        (Setup.Members.methodOfConstructor? c (m.own.type table)).toList := rfl
    rw [hvalue, hx]
    exact .cons hshows .nil

end MemberAnswer

/-! ## Beans -/

namespace ClassAnswer

variable {a : ClassAnswer} {b : Bean} {table : SymbolTable}

/-- The enumerated members and their answers, side by side. -/
theorem forall₂_members (ha : classAnswer mode u settings source d = .ok a)
    (henum : d.isEnum = false) :
    List.Forall₂ (fun site p => site = p.1 ∧ p ∈ a.members)
      (Selection.declared settings d) a.members := by
  obtain ⟨-, ⟨htrue, -⟩ | ⟨-, -, hsites, -⟩⟩ := classAnswer_eq_ok ha
  · rw [henum] at htrue
    cases htrue
  · have hside : List.Forall₂ (fun site p => site = p.1 ∧ p ∈ a.members)
        (a.members.map Prod.fst) a.members :=
      List.forall₂_map_left_iff.2 (List.forall₂_same.2 fun p hp => ⟨rfl, hp⟩)
    rwa [hsites] at hside

/-- What relates every member to what its answer is shown as, relates the fields to the properties
of the bean. -/
theorem forall₂_properties (ha : classAnswer mode u settings source d = .ok a)
    (henum : d.isEnum = false) {P : FieldDecl → Property → Prop}
    (h : ∀ p ∈ a.members,
      List.Forall₂ P p.1.shownFields ((p.2.script settings p.1).value table).properties) :
    List.Forall₂ P (Selection.fields settings d) (a.shownMembers settings table).properties := by
  have hproperties : (a.shownMembers settings table).properties =
      a.members.flatMap fun p => ((p.2.script settings p.1).value table).properties :=
        List.flatMap_map ..
  rw [hproperties, ← flatMap_shownFields]
  refine List.rel_flatMap (forall₂_members ha henum) fun site p hp => ?_
  obtain ⟨rfl, hp⟩ := hp
  exact h p hp

/-- What relates every member to what its answer is shown as, relates the methods and constructors
to the methods of the bean. -/
theorem forall₂_methods (ha : classAnswer mode u settings source d = .ok a)
    (henum : d.isEnum = false) {P : Site → Method → Prop}
    (h : ∀ p ∈ a.members,
      List.Forall₂ P p.1.shownMethods ((p.2.script settings p.1).value table).methods) :
    List.Forall₂ P ((Selection.methods settings d).map (.method d) ++
      (Selection.constructors settings d).map (.constructor d))
        (a.shownMembers settings table).methods := by
  have hmethods : (a.shownMembers settings table).methods =
      a.members.flatMap fun p => ((p.2.script settings p.1).value table).methods :=
        List.flatMap_map ..
  rw [hmethods, ← flatMap_shownMethods]
  refine List.rel_flatMap (forall₂_members ha henum) fun site p hp => ?_
  obtain ⟨rfl, hp⟩ := hp
  exact h p hp

theorem shows_signature (ha : classAnswer mode u settings source d = .ok a) :
    (d.tags = [] ∧ a.signature = none) ∨
      ∃ text, OverrideText u.providers (.type d) text ∧ a.signature = some text := by
  have hheader := (classAnswer_eq_ok ha).1
  unfold signature
  cases hh : a.header with
  | none =>
    rw [hh] at hheader
    exact .inl ⟨Override.tags_of_ofSite_none hheader, rfl⟩
  | some r =>
    rw [hh] at hheader
    obtain ⟨text, htext, htype⟩ := Override.overrideText_of_ofSite hheader
    exact .inr ⟨text, htext, by rw [Option.bind_some, htype]; rfl⟩

/-- **The bean of an answer shows the class.** -/
theorem shows_bean (ha : classAnswer mode u settings source d = .ok a)
    (hb : ((a.script settings source d).value table).1 = .bean b) :
    b.Shows settings u.providers d := by
  obtain ⟨henum, rfl⟩ := eq_of_bean hb
  refine ⟨forall₂_properties ha henum fun p hp => ?_, forall₂_methods ha henum fun p hp => ?_,
    fun t ht => ?_, shows_signature ha⟩
  · obtain ⟨hsite, hanswer⟩ := site_mem ha hp
    exact MemberAnswer.shows_properties hsite hanswer table
  · obtain ⟨hsite, hanswer⟩ := site_mem ha hp
    exact MemberAnswer.shows_methods hsite hanswer table
  · obtain ⟨o, -, rfl⟩ := List.mem_map.1 (List.mem_filter.1 ht).1
    exact Outline.containsVerbatim_realize table o

end ClassAnswer

/-- **Overrides replace exactly the tagged declarations.**  Every bean of a successful run of the
standard pipeline is that of a class, and shows it: each enumerated member, and the header, by the
text of its tag where there is one, and everything else without override text. -/
theorem beans_show_classes (settings : Settings) (u : Universe) (roots : List HostType) {r : Run}
    (h : standardRun settings u roots = .ok r) {b : Bean} (hb : b ∈ r.model.beans) :
    ∃ d, b.source = .named d.name ∧ u.get? d.name = some d ∧ b.Shows settings u.providers d := by
  have hs := acts_standardSetup settings u roots
  have htypes : candidates u roots ⊆ u.writtenTypes ++ candidates u roots :=
    List.subset_append_right ..
  obtain ⟨hduring, -⟩ := Run.During.of_run h
  have hrendered : Run.Rendered settings.functionalMode (standardSetup settings u roots) r :=
    Run.Rendered.of_during hs htypes hduring
  obtain ⟨d, a, hd, ha, -, hvalue⟩ :=
    hrendered (.bean b) (List.mem_append_left _ (List.mem_map_of_mem hb))
  obtain ⟨hsource, hclass⟩ := Setup.eq_named_of_declared? hd
  exact ⟨d, hsource, hclass, ClassAnswer.shows_bean ha hvalue⟩

/-- A class whose constructor a provider writes, with a tagged field beside one without tags. -/
theorem beans_show_classes_constructor :
    let u := (Universe.ofClasses
      [{ name := "A"
         fields :=
          [{ name := "n", type := .primitive .int, tags := [.verbatim "readonly n?: number" []] },
            { name := "others", type := .generic "List" [.named "A"] }]
         constructors := [{ tags := [.methodReference "create" none] }] }]).register "A" "create"
      (.ok { text := "new (): A" })
    ∃ r b d, standardRun {} u [.named "A"] = .ok r ∧ r.model.beans = [b] ∧ b.source = .named "A" ∧
      u.get? "A" = some d ∧ b.Shows {} u.providers d := by
  intro u
  obtain ⟨r, b, hrun, hbeans, hsource⟩ : ∃ r b, standardRun {} u [.named "A"] = .ok r ∧
      r.model.beans = [b] ∧
      b.source = .named "A" := ⟨_, _, rfl, rfl, rfl⟩
  obtain ⟨d, hd, hclass, hshows⟩ :=
    beans_show_classes {} u [.named "A"] hrun (hbeans ▸ List.mem_singleton_self b)
  have hname : d.name = "A" := HostType.named.inj (hd.symm.trans hsource)
  rw [hname] at hclass
  exact ⟨r, b, d, hrun, hbeans, hsource, hclass, hshows⟩

end TypeBridge
