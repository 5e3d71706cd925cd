import Mathlib.Data.List.TakeWhile
import TypeBridge.Proofs.Closure
import TypeBridge.Proofs.OpenMethod
import TypeBridge.Proofs.Retyping

/-!
# Universes that a run cannot tell apart

A run looks up the names of the types in its sight: those of its candidates, of what the classes
write, and of their parts.  Where another universe has the same to say on these names, but for the
types of tagged members, the universe is `Mirrored` there, and what is generated is the same
(`Mirrored.generate_eq`).  Only where a functional interface leaves a method open, its first
declaration has to be the same as well.  That is one place in one class (`Universe.Opens`), not any
method that looks like it.

The two runs go in step all the way down: walks through hierarchies meet related classes, the same
methods are open and are declared in the same places, outlines and contributions are equal.
-/

namespace TypeBridge

open Functional

/-! ## Hierarchies -/

namespace Functional

variable {u v : Universe}

/-- Walks from related queues stay related, if parents are.  The bounds need not be equal, as long
as each covers the names that are still to be visited. -/
theorem walk_rel {R : ClassDecl × Bindings → ClassDecl × Bindings → Prop} {names : List String}
    (hname : ∀ e f, R e f → f.1.name = e.1.name ∧ e.1.name ∈ names)
    (hparents : ∀ e f, R e f → List.Forall₂ R (parents u e.1 e.2) (parents v f.1 f.2))
    {bound bound' : Nat} {visited : List String} {queue queue' : List (ClassDecl × Bindings)}
    (hbound : (names.filter fun name => !visited.contains name).length ≤ bound)
    (hbound' : (names.filter fun name => !visited.contains name).length ≤ bound')
    (hqueue : List.Forall₂ R queue queue') :
    List.Forall₂ R (walk u bound visited queue) (walk v bound' visited queue') := by
  induction hleft : (names.filter fun name => !visited.contains name).length using Nat.strongRecOn
    generalizing bound bound' visited queue queue' with
  | ind left ih =>
    have hdrop := rel_dropWhile (p := fun entry => visited.contains entry.1.name)
      (q := fun entry => visited.contains entry.1.name)
      (fun e f h => by rw [(hname e f h).1]) hqueue
    have hhead := List.head?_dropWhile_not (fun entry => visited.contains entry.1.name) queue
    generalize hq : queue.dropWhile (fun entry => visited.contains entry.1.name) =
      front at hdrop hhead
    generalize hq' : queue'.dropWhile (fun entry => visited.contains entry.1.name) = front' at hdrop
    cases hdrop with
    | nil =>
      rw [walk_of_dropWhile_eq_nil hq, walk_of_dropWhile_eq_nil hq']
      exact .nil
    | @cons e f rest rest' hfirst hrest =>
      -- The entry in front has not been visited, so neither walk is out of bounds here.
      obtain ⟨hsame, hmem⟩ := hname e f hfirst
      have hnew : e.1.name ∉ visited := by simpa using hhead
      have hless := length_filter_cons_lt hmem hnew
      obtain ⟨bound, rfl⟩ := Nat.exists_eq_succ_of_ne_zero (show bound ≠ 0 by omega)
      obtain ⟨bound', rfl⟩ := Nat.exists_eq_succ_of_ne_zero (show bound' ≠ 0 by omega)
      rw [walk_of_dropWhile_eq_cons hq, walk_of_dropWhile_eq_cons hq', hsame]
      refine .cons hfirst (ih _ (hleft ▸ hless) (by omega) (by omega) ?_ rfl)
      exact List.rel_append hrest (hparents e f hfirst)

end Functional

/-- On the names of `types`, `v` has the classes of `u`, up to the types of tagged members. -/
def Universe.AgreesOn (fixed : ClassDecl → ℕ → Prop) (types : List HostType) (u v : Universe) :
    Prop :=
  ∀ t ∈ types, ∀ name ∈ t.rawName?, Option.Rel (ClassDecl.Retyped fixed) (u.get? name) (v.get? name)

/-- What a run from `roots` looks at: its candidates, what the classes write, and the parts of all
these. -/
def Universe.inSight (u : Universe) (roots : List HostType) : List HostType :=
  (u.writtenTypes ++ candidates u roots).flatMap HostType.subterms

theorem arena_inSight (u : Universe) (roots : List HostType) :
    Arena u (HostType.sizeAll (u.writtenTypes ++ candidates u roots)) (u.inSight roots) :=
  Arena.ofSubterms (List.subset_append_left ..)

namespace Functional

variable {fixed : ClassDecl → ℕ → Prop} {u v : Universe} {limit : Nat}
  {types : List HostType} {d e : ClassDecl}

/-- An entry of a hierarchy in `u`, and the same one in another universe. -/
structure Beside (fixed : ClassDecl → ℕ → Prop) (u : Universe) (p q : ClassDecl × Bindings) :
    Prop where
  retyped : p.1.Retyped fixed q.1
  bindings : q.2 = p.2
  mem : p.1 ∈ u.classes

theorem parents_rel (ha : Arena u limit types) (huv : u.AgreesOn fixed types v)
    {p q : ClassDecl × Bindings} (h : Beside fixed u p q) :
    List.Forall₂ (Beside fixed u) (parents u p.1 p.2) (parents v q.1 q.2) := by
  have hsuper : q.1.superTypes = p.1.superTypes := h.retyped.superTypes
  unfold parents
  rw [hsuper, h.bindings]
  refine List.rel_filterMap (R := fun s t => t = s ∧ s ∈ p.1.superTypes) ?_
    (List.forall₂_same.2 fun t ht => ⟨rfl, ht⟩)
  rintro _ t ⟨rfl, ht⟩
  cases hraw : t.rawName? with
  | none =>
    simp only [hraw]
    exact .none
  | some name =>
    have hmem : t ∈ types := ha.written p.1 h.mem t (ClassDecl.mem_writtenTypes_of_superTypes ht)
    have hget := huv t hmem name hraw
    simp only [hraw, Option.bind_eq_bind, Option.bind_some]
    generalize hu : u.get? name = c?, v.get? name = c'? at hget ⊢
    cases hget with
    | none => exact .none
    | @some c c' hc => exact .some ⟨hc, by rw [hc.typeParams], Universe.get?_mem hu⟩

theorem hierarchy_rel (ha : Arena u limit types) (huv : u.AgreesOn fixed types v)
    (hlength : u.classes.length ≤ v.classes.length) (hd : d ∈ u.classes) (h : d.Retyped fixed e) :
    List.Forall₂ (Beside fixed u) (hierarchy u d) (hierarchy v e) := by
  have hcount :
      ((u.classes.map (·.name)).filter fun name => !([] : List String).contains name).length ≤
      u.classes.length := by
    simp
  refine walk_rel (fun p q hpq => ?_) (fun p q hpq => parents_rel ha huv hpq)
    (Nat.le_trans hcount (Nat.le_succ _)) (Nat.le_trans hcount (Nat.le_succ_of_le hlength))
    (.cons ⟨h, rfl, hd⟩ .nil)
  exact ⟨hpq.retyped.name, List.mem_map_of_mem hpq.mem⟩

/-! ## Open methods -/

theorem implemented_eq {ps qs : List (ClassDecl × Bindings)}
    (h : List.Forall₂ (Beside fixed u) ps qs) : implemented qs = implemented ps := by
  refine flatMap_eq_of_forall₂ (fun p q hpq => ?_) h
  refine map_eq_of_forall₂ (fun m n hm => hm.name)
    (List.rel_filter (fun m n hm => ?_) hpq.retyped.methods)
  cases hm <;> exact Iff.rfl

/-- An open method, and the same one in another universe. -/
structure SameOpen (p q : MethodDecl × Bindings) : Prop where
  retyped : p.1.Retyped q.1
  bindings : q.2 = p.2

theorem openMethods_rel {ps qs : List (ClassDecl × Bindings)}
    (h : List.Forall₂ (Beside fixed u) ps qs) :
    List.Forall₂ SameOpen (openMethods ps) (openMethods qs) := by
  unfold openMethods
  rw [implemented_eq h]
  refine List.rel_filter (fun p q hpq => ?_) (List.rel_flatMap h fun p q hpq => ?_)
  · have hname : q.1.name = p.1.name := hpq.retyped.name
    simp [hname]
  · refine List.rel_map (fun m n hm => ⟨hm, hpq.bindings⟩)
      (List.rel_filter (fun m n hm => ?_) hpq.retyped.methods)
    cases hm <;> exact Iff.rfl

theorem sameSignature_eq {p q p' q' : MethodDecl × Bindings} (hp : SameOpen p p')
    (hq : SameOpen q q') : sameSignature p'.1 q'.1 = sameSignature p.1 q.1 := by
  simp only [sameSignature, hp.retyped.name, hq.retyped.name, hp.retyped.length_params,
    hq.retyped.length_params]

theorem singleOpenMethod_rel (ha : Arena u limit types) (huv : u.AgreesOn fixed types v)
    (hlength : u.classes.length ≤ v.classes.length) (hd : d ∈ u.classes) (h : d.Retyped fixed e) :
    Option.Rel SameOpen (singleOpenMethod u d) (singleOpenMethod v e) := by
  have hopen := openMethods_rel (hierarchy_rel ha huv hlength hd h)
  unfold singleOpenMethod
  generalize openMethods (hierarchy u d) = ms, openMethods (hierarchy v e) = ns at hopen ⊢
  cases hopen with
  | nil => exact .none
  | @cons m n rest rest' hfirst hrest =>
    have hall :
        (rest'.all fun k => sameSignature n.1 k.1) = rest.all fun k => sameSignature m.1 k.1 := by
      have hmap := map_eq_of_forall₂ (fun k k' hk => sameSignature_eq hfirst hk) hrest
      simpa only [List.all_map, Function.id_comp] using congrArg (List.all · id) hmap
    simp only [hall]
    split
    · exact .some hfirst
    · exact .none

/-- The class and the place among its methods where a hierarchy declares an overload first. -/
def firstDeclaration? (entries : List (ClassDecl × Bindings)) (m : MethodDecl) :
    Option (ClassDecl × ℕ) :=
  entries.findSome? fun entry => (entry.1.methods.findIdx? (declares m)).map (entry.1, ·)

theorem getElem?_of_findIdx? {α : Type} {p : α → Bool} {xs : List α} {place : ℕ}
    (h : xs.findIdx? p = some place) : xs[place]? = xs.find? p := by
  obtain ⟨hlt, hp, hbefore⟩ := List.findIdx?_eq_some_iff_getElem.1 h
  rw [List.getElem?_eq_getElem hlt]
  refine (List.find?_eq_some_iff_getElem.2 ⟨hp, place, hlt, rfl, fun j hj => ?_⟩).symm
  simpa using hbefore j hj

theorem exists_firstDeclaration? {m n : MethodDecl} {b : Bindings}
    {entries : List (ClassDecl × Bindings)}
    (h : (declarations entries).find? (fun q => declares m q.1) = some (n, b)) :
    ∃ c place, firstDeclaration? entries m = some (c, place) ∧ c.methods[place]? = some n := by
  rw [declarations, List.find?_flatMap] at h
  obtain ⟨front, entry, back, rfl, hentry, hfront⟩ := List.findSome?_eq_some_iff.1 h
  rw [List.find?_map] at hentry
  obtain ⟨k, hfind, heq⟩ := Option.map_eq_some_iff.1 hentry
  obtain ⟨rfl, rfl⟩ := Prod.mk.inj heq
  cases hplace : entry.1.methods.findIdx? (declares m) with
  | none =>
    rw [List.findIdx?_eq_none_iff] at hplace
    have hdeclares : declares m k = true := List.find?_some hfind
    rw [hplace k (List.mem_of_find?_eq_some hfind)] at hdeclares
    cases hdeclares
  | some place =>
    refine ⟨entry.1, place, List.findSome?_eq_some_iff.2 ⟨front, entry, back, rfl, ?_, ?_⟩,
      (getElem?_of_findIdx? hplace).trans hfind⟩
    · rw [hplace, Option.map_some]
    · intro earlier hearlier
      have hnone := hfront earlier hearlier
      rw [List.find?_map, Option.map_eq_none_iff, List.find?_eq_none] at hnone
      rw [Option.map_eq_none_iff, List.findIdx?_eq_none_iff]
      exact fun l hl => by simpa using hnone l hl

/-- Classes of related universes declare an overload first in the same place. -/
theorem firstDeclaration?_rel {ps qs : List (ClassDecl × Bindings)} {m n : MethodDecl}
    (h : List.Forall₂ (Beside fixed u) ps qs) (hmn : m.Retyped n) :
    Option.Rel (fun x y => x.1.Retyped fixed y.1 ∧ y.2 = x.2) (firstDeclaration? ps m)
      (firstDeclaration? qs n) := by
  refine rel_findSome? (fun p q hpq => ?_) h
  have hdeclares (k k' : MethodDecl) (hk : k.Retyped k') : declares n k' = declares m k := by
    have hkind : k'.kind = k.kind := by cases hk <;> rfl
    simp only [declares, sameSignature, hkind, hmn.name, hmn.length_params, hk.name,
      hk.length_params]
  rw [findIdx?_eq_of_forall₂ hdeclares hpq.retyped.methods]
  cases p.1.methods.findIdx? (declares m) with
  | none => exact .none
  | some place => exact .some ⟨hpq.retyped, rfl⟩

end Functional

/-- This place of the class is where the hierarchy of some interface that may become a function type
first declares the method that the interface leaves open. -/
def Universe.Opens (mode : FunctionalMode) (u : Universe) (d : ClassDecl) (place : ℕ) : Prop :=
  ∃ c ∈ u.classes, isEligible mode c = true ∧ ∃ m inherited,
    singleOpenMethod u c = some (m, inherited) ∧
      firstDeclaration? (hierarchy u c) m = some (d, place)

/-- A universe `v` that has, on the names in sight of a run from `roots`, what `u` has, but for the
types of tagged members that are not in the place of an open method. -/
structure Universe.Mirrored (mode : FunctionalMode) (roots : List HostType) (u v : Universe) :
    Prop where
  providers : v.providers = u.providers
  length_le : u.classes.length ≤ v.classes.length
  candidates_subset : candidates u roots ⊆ candidates v roots
  agrees : u.AgreesOn (u.Opens mode) (u.inSight roots) v

namespace Universe.Mirrored

variable {mode : FunctionalMode} {roots : List HostType} {u v : Universe}

theorem singleOpenMethod_eq (h : u.Mirrored mode roots v) {d e : ClassDecl} (hd : d ∈ u.classes)
    (hde : d.Retyped (u.Opens mode) e) (heligible : isEligible mode d = true) :
    singleOpenMethod v e = singleOpenMethod u d := by
  have harena := arena_inSight u roots
  have hrel := singleOpenMethod_rel harena h.agrees h.length_le hd hde
  have hhierarchy := hierarchy_rel harena h.agrees h.length_le hd hde
  generalize hu : singleOpenMethod u d = p?, hv : singleOpenMethod v e = q? at hrel ⊢
  cases hrel with
  | none => rfl
  | @some p q hpq =>
    -- Both are read off in the same place, where the related classes have the same method.
    obtain ⟨c, place, hc, hp⟩ := exists_firstDeclaration? (find?_declarations hu)
    obtain ⟨c', place', hc', hq⟩ := exists_firstDeclaration? (find?_declarations hv)
    have hfirst := firstDeclaration?_rel hhierarchy hpq.retyped
    rw [hc, hc'] at hfirst
    obtain ⟨hclass, hplace⟩ := Option.rel_some_some.1 hfirst
    obtain rfl : place' = place := hplace
    have hopens : u.Opens mode c place' := ⟨d, hd, heligible, p.1, p.2, hu, hc⟩
    have hsame : q.1 = p.1 :=
      Option.some.inj (hq.symm.trans ((hclass.getElem?_methods hopens).trans hp))
    exact congrArg some (Prod.ext hsame hpq.bindings)

theorem opened?_eq (h : u.Mirrored mode roots v) {type : HostType} (ht : type ∈ u.inSight roots)
    (inProgress : List HostType) :
    opened? mode v inProgress type = opened? mode u inProgress type := by
  unfold opened? eligible?
  cases hraw : type.rawName? with
  | none => simp only [Option.bind_eq_bind, Option.bind_none]
  | some name =>
    have hget := h.agrees type ht name hraw
    simp only [Option.bind_eq_bind, Option.bind_some]
    generalize hu : u.get? name = d?, v.get? name = e? at hget ⊢
    cases hget with
    | none => rfl
    | @some d e hde =>
      simp only [Option.bind_some, hde.isEligible]
      cases heligible : isEligible mode d with
      | false => rfl
      | true =>
        simp only [↓reduceIte, h.singleOpenMethod_eq (Universe.get?_mem hu) hde heligible,
          hde.typeParams]

theorem contains_eq (h : u.Mirrored mode roots v) {type : HostType}
    (ht : type ∈ u.inSight roots) {name : String} (hname : type.rawName? = some name) :
    v.contains name = u.contains name := by
  have hget := h.agrees type ht name hname
  unfold Universe.contains
  generalize u.get? name = d?, v.get? name = e? at hget ⊢
  cases hget <;> rfl

/-- **In both universes a type resolves alike.** -/
theorem outline_eq (h : u.Mirrored mode roots v) {type : HostType} (ht : type ∈ u.inSight roots)
    (inProgress : List HostType) :
    outline mode v inProgress type = outline mode u inProgress type := by
  induction inProgress, type using @outlineInduction mode u with
  | step inProgress type ih =>
    have hcalls (c : List HostType × HostType) (hc : c ∈ calls mode u inProgress type) :
        outline mode v c.1 c.2 = outline mode u c.1 c.2 :=
      ih c hc (mem_of_mem_calls (arena_inSight u roots) ht hc)
    have hopened := h.opened?_eq ht inProgress
    cases ho : opened? mode u inProgress type with
    | some o =>
      rw [outline_of_opened ho, outline_of_opened (hopened.trans ho)]
      exact Outline.ofOpened_congr fun t ht =>
        hcalls (type :: inProgress, t) (mem_calls_of_opened ho ht)
    | none =>
      rw [outline_of_not_opened ho, outline_of_not_opened (hopened.trans ho)]
      rw [Outline.structural_of_contains fun name hname => h.contains_eq ht hname]
      exact Outline.structural_congr fun t ht => hcalls (inProgress, t) (mem_calls_of_part ho ht)

/-! ## Contributions -/

theorem memberAnswer_eq (h : u.Mirrored mode roots v) {s t : Site}
    (hst : s.Retyped (u.Opens mode) t) {source : HostType}
    (hsight : ∀ x ∈ s.ownType source :: s.paramTypes, x ∈ u.inSight roots) :
    memberAnswer mode v source t = memberAnswer mode u source s := by
  unfold memberAnswer
  rw [h.providers, hst.ofSite]
  cases hoverride : Override.ofSite u.providers s with
  | error f => rfl
  | ok override =>
    cases override with
    | some r => rfl
    | none =>
      -- Without an override there is no tag, and without a tag the types are the same.
      have htags : s.tags = [] := Override.tags_of_ofSite_none hoverride
      have hown := h.outline_eq (hsight _ List.mem_cons_self) []
      have hparams : (s.paramTypes.map fun x => Answer.outline (outline mode v [] x)) =
          s.paramTypes.map fun x => Answer.outline (outline mode u [] x) := by
        refine List.map_congr_left fun x hx => congrArg Answer.outline ?_
        exact h.outline_eq (hsight x (List.mem_cons_of_mem _ hx)) []
      simp only [Except.map, hst.ownType htags, hst.paramTypes htags, hown, hparams]

theorem declared_inSight {settings : Settings} {d : ClassDecl} (hd : d ∈ u.classes)
    {source : HostType} (hsource : source ∈ u.inSight roots) {s : Site}
    (hs : s ∈ Selection.declared settings d) :
    ∀ x ∈ s.ownType source :: s.paramTypes, x ∈ u.inSight roots := by
  have hwritten := (arena_inSight u roots).written d hd
  intro x hx
  rcases Setup.mem_declared hs with ⟨f, hf, rfl⟩ | ⟨m, hm, rfl⟩ | ⟨c, hc, rfl⟩
  · obtain rfl := List.mem_singleton.1 hx
    exact hwritten _ (ClassDecl.mem_writtenTypes_of_fields hf)
  · exact hwritten _ (ClassDecl.mem_writtenTypes_of_methods hm hx)
  · obtain rfl := List.mem_singleton.1 hx
    exact hsource

/-- The members bring the same, one by one, though they are not the same sites. -/
theorem memberScripts_eq (h : u.Mirrored mode roots v) (settings : Settings) {d e : ClassDecl}
    (hd : d ∈ u.classes) (hde : d.Retyped (u.Opens mode) e) {source : HostType}
    (hsource : source ∈ u.inSight roots) :
    ((Selection.declared settings e).mapM fun t => (memberAnswer mode v source t).map (t, ·)).map
        (List.map fun p => p.2.script settings p.1) =
      ((Selection.declared settings d).mapM fun s => (memberAnswer mode u source s).map (s, ·)).map
        (List.map fun p => p.2.script settings p.1) := by
  rw [mapM_tagged_map _ (MemberAnswer.script settings),
    mapM_tagged_map _ (MemberAnswer.script settings)]
  refine mapM_eq_of_forall₂ (hde.declared settings) fun s hs t hst => ?_
  rw [h.memberAnswer_eq hst (declared_inSight hd hsource hs)]
  have hscripts : MemberAnswer.script settings t = MemberAnswer.script settings s :=
    funext (MemberAnswer.script_of_retyped hst settings)
  rw [hscripts]

theorem declaration_eq (h : u.Mirrored mode roots v) (settings : Settings) {d e : ClassDecl}
    (hd : d ∈ u.classes) (hde : d.Retyped (u.Opens mode) e) {source : HostType}
    (hsource : source ∈ u.inSight roots) :
    (classAnswer mode v settings source e).map (·.script settings source e) =
      (classAnswer mode u settings source d).map (·.script settings source d) := by
  have hparents : d.superTypes.map (outline mode v []) = d.superTypes.map (outline mode u []) :=
    List.map_congr_left fun x hx =>
      h.outline_eq
        ((arena_inSight u roots).written d hd x (ClassDecl.mem_writtenTypes_of_superTypes hx)) []
  have hmembers := h.memberScripts_eq settings hd hde hsource
  unfold classAnswer
  rw [h.providers, (Site.Retyped.type hde).ofSite, hde.isEnum, hde.superTypes, hparents]
  cases Override.ofSite u.providers (.type d) with
  | error f => rfl
  | ok header =>
    cases d.isEnum with
    | true => exact congrArg Except.ok (ClassAnswer.script_of_retyped hde rfl rfl rfl source)
    | false =>
      simp only [Bool.false_eq_true, ↓reduceIte]
      cases hu : (Selection.declared settings d).mapM fun s =>
          (memberAnswer mode u source s).map (s, ·) with
      | error f =>
        rw [hu] at hmembers
        rw [except_map_eq_error.1 hmembers]
        rfl
      | ok ms =>
        rw [hu] at hmembers
        obtain ⟨ms', hv, hscripts⟩ := except_map_eq_ok.1 hmembers
        rw [hv]
        have hscript := ClassAnswer.script_of_retyped hde
          (a := ⟨header, d.superTypes.map (outline mode u []), ms⟩)
          (b := ⟨header, d.superTypes.map (outline mode u []), ms'⟩) rfl rfl hscripts source
        exact congrArg Except.ok hscript

theorem mem_inSight_of_candidate {type : HostType} (h : type ∈ candidates u roots) :
    type ∈ u.inSight roots :=
  List.mem_flatMap.2 ⟨type, List.mem_append_right _ h, type.self_mem_subterms⟩

theorem declared?_rel (h : u.Mirrored mode roots v) {type : HostType}
    (ht : type ∈ u.inSight roots) :
    Option.Rel (fun d e => d ∈ u.classes ∧ d.Retyped (u.Opens mode) e) (declared? mode u type)
      (declared? mode v type) := by
  cases type with
  | named name =>
    have hget := h.agrees (.named name) ht name rfl
    simp only [declared?, h.outline_eq ht]
    split
    · generalize hu : u.get? name = d?, v.get? name = e? at hget ⊢
      cases hget with
      | none => exact .none
      | some hde => exact .some ⟨Universe.get?_mem hu, hde⟩
    · exact .none
  | _ => exact .none

/-- **In both universes a candidate brings the same.** -/
theorem contribution_eq (h : u.Mirrored mode roots v) (settings : Settings) {e : Entry}
    (he : e.type ∈ candidates u roots) :
    contribution mode v settings e = contribution mode u settings e := by
  have hsight := mem_inSight_of_candidate he
  have hdeclared := h.declared?_rel hsight
  unfold contribution
  rw [h.outline_eq hsight]
  generalize declared? mode u e.type = d?, declared? mode v e.type = c? at hdeclared ⊢
  cases hdeclared with
  | none => rfl
  | @some d c hdc =>
    have hdeclaration := h.declaration_eq settings hdc.1 hdc.2 hsight
    let add (s : Script (Declaration × List Entry)) : Script Contribution :=
      (outline mode u [] e.type).script.zip (fun r p =>
        { declaration := some p.1, discovered := p.2 ++ r.dependents.map e.derive }) s
    -- A class answer is looked at through its script only.
    have hmap (a : Except Failure ClassAnswer) (c : ClassDecl) :
        (a.map fun x => add (x.script settings e.type c)) =
          (a.map (·.script settings e.type c)).map add := by
      cases a <;> rfl
    exact (hmap _ c).trans ((congrArg (Except.map add) hdeclaration).trans (hmap _ d).symm)

theorem unknownRoot?_eq (h : u.Mirrored mode roots v) :
    Setup.unknownRoot? v roots = Setup.unknownRoot? u roots := by
  unfold Setup.unknownRoot?
  rw [← List.head?_filterMap, ← List.head?_filterMap]
  refine congrArg List.head? (List.filterMap_congr fun t ht => ?_)
  have hsight : t ∈ u.inSight roots := mem_inSight_of_candidate (List.mem_append_left _ ht)
  cases hraw : t.rawName? with
  | none => rfl
  | some name => simp only [h.contains_eq hsight hraw]

/-! ## Documentation -/

theorem classOf?_rel (h : u.Mirrored mode roots v) {source : HostType}
    (hsource : source ∈ candidates u roots) :
    Option.Rel (ClassDecl.Retyped (u.Opens mode)) (Enricher.classOf? u source)
      (Enricher.classOf? v source) := by
  unfold Enricher.classOf?
  cases hraw : source.rawName? with
  | none => exact .none
  | some name => exact h.agrees source (mem_inSight_of_candidate hsource) name hraw

theorem documentBean_eq (h : u.Mirrored mode roots v) {b : Bean}
    (hb : b.source ∈ candidates u roots) :
    Enricher.documentBean v b = Enricher.documentBean u b := by
  have hclass := h.classOf?_rel hb
  unfold Enricher.documentBean
  generalize Enricher.classOf? u b.source = d?, Enricher.classOf? v b.source = e? at hclass ⊢
  cases hclass with
  | none => rfl
  | some hde =>
    simp only [hde.comments, Enricher.documentProperty_of_retyped hde,
      Enricher.documentMethod_of_retyped hde]

theorem documentEnumeration_eq (h : u.Mirrored mode roots v) {e : Enumeration}
    (he : e.source ∈ candidates u roots) :
    Enricher.documentEnumeration v e = Enricher.documentEnumeration u e := by
  have hclass := h.classOf?_rel he
  unfold Enricher.documentEnumeration
  generalize Enricher.classOf? u e.source = d?, Enricher.classOf? v e.source = c? at hclass ⊢
  cases hclass with
  | none => rfl
  | some hde => simp only [hde.comments]

/-! ## Runs -/

theorem standardRun_eq {settings : Settings} (h : u.Mirrored settings.functionalMode roots v) :
    standardRun settings v roots = standardRun settings u roots := by
  have hbudget : (candidates u roots).dedup.length ≤ (Budget.covering v roots).types := by
    have hsub : (candidates u roots).dedup ⊆ (candidates v roots).dedup := fun t ht =>
      List.mem_dedup.2 (h.candidates_subset (List.mem_dedup.1 ht))
    exact Nat.le_trans ((List.nodup_dedup _).length_le_of_subset hsub)
      (length_candidates_le v roots)
  have hsame := Run.run_congr (acts_standardSetup settings u roots)
    (acts_standardSetup settings v roots) (List.subset_append_right ..)
    (List.Subset.trans h.candidates_subset (List.subset_append_right ..)) h.unknownRoot?_eq
    (fun e he => h.contribution_eq settings he) (length_candidates_le u roots) hbudget
  exact hsame.2.symm

/-- **What cannot be told apart is written alike.** -/
theorem generate_eq {settings : Settings} (h : u.Mirrored settings.functionalMode roots v) :
    generate settings v roots = generate settings u roots := by
  rw [TypeBridge.generate_eq, TypeBridge.generate_eq, h.standardRun_eq]
  cases hrun : standardRun settings u roots with
  | error f => rfl
  | ok r =>
    have hs := acts_standardSetup settings u roots
    have hduring := (Run.During.of_run hrun).1
    have hexact := Run.Exact.of_during hs (List.subset_append_right ..) hduring
    have hconfined := Run.Confined.of_during hs (List.subset_append_right ..) hduring
    -- Documentation is looked up for the sources of declarations, which the run has worked on.
    have hcandidate (kind : ClassDecl → Bool) :
        r.declaring (standardSetup settings u roots) kind ⊆ candidates u roots :=
      List.Subset.trans (List.filter_subset_self _) hconfined.seen
    have hbeans : r.model.beans.map (Enricher.documentBean v) =
        r.model.beans.map (Enricher.documentBean u) :=
      List.map_congr_left fun b hb =>
        h.documentBean_eq (hcandidate _ (hexact.beans ▸ List.mem_map_of_mem hb))
    have henumerations : r.model.enumerations.map (Enricher.documentEnumeration v) =
        r.model.enumerations.map (Enricher.documentEnumeration u) :=
      List.map_congr_left fun e he =>
        h.documentEnumeration_eq (hcandidate _ (hexact.enumerations ▸ List.mem_map_of_mem he))
    simp only [Except.map, Model.documented, hbeans, henumerations]

end Universe.Mirrored

end TypeBridge
