import TypeBridge.Proofs.Instantiation
import TypeBridge.Proofs.Unmentioned

/-!
# Captured type variables

A use of a functional interface puts its arguments in by name, for variables with the names of the
interface's own type parameters.  It puts them into the signature of the open method, in which the
super types may have left variables of other classes, and in which there are those of the method
itself.  One of these that has the name of a parameter is captured.

Nothing else makes two uses differ.  Where no type mentions the interface, the types in its
signature resolve alike inside either use (`outline_eq_of_unmentioned`).  So the uses resolve alike
if and only if the super types leave no variable in the signature that has the name of a parameter
(`resolveAlike_uses_iff`), and if the super types of the interface do not pass its parameters on,
such a variable is a foreign one (`foreign_of_exposed`).
-/

namespace TypeBridge

/-! ## Inside uses of an unmentioned class -/

section

variable {mode : FunctionalMode} {u : Universe} {name : String} {inProgress other : List HostType}
  {type t : HostType}

theorem HostType.not_mentions_of_mem_subterms (h : ¬type.Mentions name) (ht : t ∈ type.subterms) :
    ¬t.Mentions name := by
  rintro ⟨part, hpart, hraw⟩
  exact h ⟨part, subterms_trans ht hpart, hraw⟩

/-- From a type that does not mention a class no resolution comes to one that does. -/
theorem not_mentions_of_mem_calls (hsilent : ∀ t ∈ u.writtenTypes, ¬t.Mentions name)
    (htype : ¬type.Mentions name) {c : List HostType × HostType}
    (hc : c ∈ calls mode u inProgress type) : ¬c.2.Mentions name := by
  have hmem : c.2 ∈ arenaOf u type := mem_of_mem_calls (arena_arenaOf type) (mem_arenaOf type) hc
  obtain ⟨whole, hwhole, hpart⟩ := List.mem_flatMap.1 hmem
  refine HostType.not_mentions_of_mem_subterms ?_ hpart
  rcases List.mem_cons.1 hwhole with rfl | hwritten
  · exact htype
  · exact hsilent whole hwritten

/-- To a type that does not mention a class it does not matter which of its uses are in progress. -/
theorem outline_eq_of_unmentioned (hsilent : ∀ t ∈ u.writtenTypes, ¬t.Mentions name)
    (hagree : ∀ t, ¬t.Mentions name → (t ∈ inProgress ↔ t ∈ other)) (htype : ¬type.Mentions name) :
    outline mode u inProgress type = outline mode u other type := by
  induction inProgress, type using @outlineInduction mode u generalizing other with
  | step inProgress type ih =>
    have hopened : Functional.opened? mode u other type =
        Functional.opened? mode u inProgress type := by
      simp [Functional.opened?, hagree type htype]
    cases ho : Functional.opened? mode u inProgress type with
    | some o =>
      rw [outline_of_opened ho, outline_of_opened (hopened.trans ho)]
      refine Outline.ofOpened_congr fun t ht => ?_
      have hcall := mem_calls_of_opened ho ht
      refine ih _ hcall (fun s hs => ?_) (not_mentions_of_mem_calls hsilent htype hcall)
      simp [hagree s hs]
    | none =>
      rw [outline_of_not_opened ho, outline_of_not_opened (hopened.trans ho)]
      refine Outline.structural_congr fun t ht => ?_
      have hcall := mem_calls_of_part ho ht
      exact ih _ hcall hagree (not_mentions_of_mem_calls hsilent htype hcall)

end

namespace Functional

section

variable {mode : FunctionalMode} {ctx : Context} {d i : ClassDecl} {m : MethodDecl}
  {inherited : Bindings}
variable {way : List Step} {s t type : HostType} {x : String} {table : SymbolTable}

/-! ## Types that resolve alike -/

/-- From every table, a resolver of sufficient depth answers both types with the same target type
and the same dependents, and leaves the same table. -/
def ResolveAlike (mode : FunctionalMode) (ctx : Context) (s t : HostType) : Prop :=
  ∀ depth, Nat.pow (HostType.sizeAll (s :: ctx.host.writtenTypes) + 1) 2 ≤ depth →
    Nat.pow (HostType.sizeAll (t :: ctx.host.writtenTypes) + 1) 2 ≤ depth → ∀ table : SymbolTable,
      ((Chain.standard mode).resolver depth ctx s).run table =
        ((Chain.standard mode).resolver depth ctx t).run table

theorem resolveAlike_iff (h : ctx.Untagged) :
    ResolveAlike mode ctx s t ↔
      outline mode ctx.host ctx.inProgress s = outline mode ctx.host ctx.inProgress t := by
  constructor
  · intro halike
    let depth := max (Nat.pow (HostType.sizeAll (s :: ctx.host.writtenTypes) + 1) 2)
      (Nat.pow (HostType.sizeAll (t :: ctx.host.writtenTypes) + 1) 2)
    have hrun := halike depth (Nat.le_max_left ..) (Nat.le_max_right ..) .empty
    rw [run_resolver_of_untagged mode h (Nat.le_max_left ..),
      run_resolver_of_untagged mode h (Nat.le_max_right ..)] at hrun
    obtain ⟨hresolution, htable⟩ := Prod.mk.inj hrun
    have htype := congrArg Resolution.type (Option.some.inj (Except.ok.inj hresolution))
    -- Both outlines can be read back from the one target type.
    have hs := TargetType.outline?_realize (SymbolTable.WF.empty.issueAll _)
      (SymbolTable.subset_types_issueAll .empty (outline mode ctx.host ctx.inProgress s).dependents)
    have ht := TargetType.outline?_realize (SymbolTable.WF.empty.issueAll _)
      (SymbolTable.subset_types_issueAll .empty (outline mode ctx.host ctx.inProgress t).dependents)
    change Outline.realize _ _ = Outline.realize _ _ at htype
    rw [htype, htable, ht] at hs
    exact (Option.some.inj hs).symm
  · intro houtline depth hs ht table
    rw [run_resolver_of_untagged mode h hs, run_resolver_of_untagged mode h ht, houtline]

/-- There is no other answer for a type variable than the variable. -/
theorem eq_typeVar_of_chainAnswers (h : ctx.Untagged) {answer : TargetType}
    (hanswer : ChainAnswers mode ctx table (.typeVar x) answer) : answer = .typeVar x := by
  have houtline : outline mode ctx.host ctx.inProgress (.typeVar x) = .typeVar x :=
    outline_of_not_opened rfl
  have hknown : (outline mode ctx.host ctx.inProgress (.typeVar x)).dependents ⊆ table.types := by
    rw [houtline]
    exact List.nil_subset _
  obtain ⟨bound, dependents, hrun⟩ := hanswer
  obtain ⟨bound', dependents', hown⟩ := chainAnswers_of_untagged h hknown
  have hleft := hrun (max bound bound') (Nat.le_max_left ..)
  have hright := hown (max bound bound') (Nat.le_max_right ..)
  rw [houtline] at hright
  have hsame := hleft.symm.trans hright
  have hresolution := Option.some.inj (Except.ok.inj (Prod.mk.inj hsame).1)
  exact congrArg Resolution.type hresolution

/-! ## What a use puts in -/

/-- A variable that the super types leave in the signature of the open method. -/
def Exposed (m : MethodDecl) (inherited : Bindings) (x : String) : Prop :=
  ∃ t ∈ m.signature, inherited.apply t = .typeVar x

theorem apply_of_forall_ne {params : List String} (h : ∀ x ∈ params, t ≠ .typeVar x)
    (args : List HostType) : (Bindings.ofArguments params args).apply t = t := by
  cases t with
  | typeVar x =>
    have hx : x ∉ params := fun hmem => h x hmem rfl
    have hnone : (Bindings.ofArguments params args).lookup x = none :=
      lookup_of_notMem (fun _ hq => List.mem_reverse.1 hq) hx
    change ((Bindings.ofArguments params args).lookup x).getD _ = _
    rw [hnone]
    rfl
  | _ => rfl

/-- If all arguments are the same type, every parameter becomes that type. -/
theorem apply_ofArguments_const {params : List String} (hx : x ∈ params) (k : HostType) :
    (Bindings.ofArguments params (params.map fun _ => k)).apply (.typeVar x) = k := by
  have hmem : (x, k) ∈ Bindings.ofArguments params (params.map fun _ => k) := by
    unfold Bindings.ofArguments
    rw [← List.map_prod_left_eq_zip, List.mem_reverse]
    exact List.mem_map.2 ⟨x, hx, rfl⟩
  have hall : ∀ entry ∈ Bindings.ofArguments params (params.map fun _ => k), entry.2 = k := by
    refine Bindings.forall_ofArguments (P := (· = k)) fun a ha => ?_
    obtain ⟨y, -, rfl⟩ := List.mem_map.1 ha
    rfl
  change ((Bindings.ofArguments params (params.map fun _ => k)).lookup x).getD _ = _
  cases hl : (Bindings.ofArguments params (params.map fun _ => k)).lookup x with
  | none => simpa using List.lookup_eq_none_iff.1 hl (x, k) hmem
  | some image =>
    obtain ⟨front, behind, hentries, -⟩ := List.lookup_eq_some_iff.1 hl
    have himage : (x, image) ∈ Bindings.ofArguments params (params.map fun _ => k) := by
      rw [hentries]
      exact List.mem_append_right _ List.mem_cons_self
    exact hall (x, image) himage

/-- Two function types of one method are the same if and only if its parameters and its result
are. -/
theorem ofOpened_eq_iff {use use' : Bindings} {nested nested' : HostType → Outline} :
    Outline.ofOpened ⟨m, inherited, use⟩ nested = .ofOpened ⟨m, inherited, use'⟩ nested' ↔
      ∀ t ∈ m.signature,
        nested (substitute inherited use t) = nested' (substitute inherited use' t) := by
  constructor
  · intro h
    obtain ⟨hzip, hresult⟩ := Outline.function.inj h
    have hparams : (Opened.paramTypes ⟨m, inherited, use⟩).map nested =
        (Opened.paramTypes ⟨m, inherited, use'⟩).map nested' := by
      have hlength := length_parameterNames ⟨m, inherited, use⟩ nested
      have hlength' := length_parameterNames ⟨m, inherited, use'⟩ nested'
      rw [← List.map_snd_zip hlength.ge, ← List.map_snd_zip hlength'.ge]
      exact congrArg (List.map Prod.snd) hzip
    intro t ht
    rcases List.mem_cons.1 ht with rfl | ht
    · exact hresult
    · obtain ⟨p, hp, rfl⟩ := List.mem_map.1 ht
      simp only [Opened.paramTypes, List.map_map] at hparams
      exact List.map_inj_left.1 hparams p hp
  · intro h
    have hparams : (Opened.paramTypes ⟨m, inherited, use⟩).map nested =
        (Opened.paramTypes ⟨m, inherited, use'⟩).map nested' := by
      simp only [Opened.paramTypes, List.map_map]
      exact List.map_congr_left fun p hp =>
        h p.type (List.mem_cons_of_mem _ (List.mem_map_of_mem hp))
    have hresult : nested (Opened.resultType ⟨m, inherited, use⟩) =
        nested' (Opened.resultType ⟨m, inherited, use'⟩) :=
      h m.returnType List.mem_cons_self
    rw [Outline.ofOpened, Outline.ofOpened, hparams, hresult]

/-! ## Uses with different arguments -/

theorem opened?_use {u : Universe} (heligible : isEligible mode d = true)
    (hd : u.get? d.name = some d) (hopen : singleOpenMethod u d = some (m, inherited))
    (hraw : type.rawName? = some d.name) :
    opened? mode u [] type = some ⟨m, inherited, .ofArguments d.typeParams (arguments type)⟩ := by
  have htype : eligible? mode u type = some d := by
    rw [eligible?_of_get? mode hraw hd, if_pos heligible]
  rw [opened?_of_eligible htype List.not_mem_nil, hopen]
  rfl

/-- Neither the signature of an open method nor what the super types put into it mentions an
unmentioned class. -/
theorem not_mentions_inherited {u : Universe} (hd : u.get? d.name = some d)
    (hopen : singleOpenMethod u d = some (m, inherited))
    (hsilent : ∀ t ∈ u.writtenTypes, ¬t.Mentions d.name) :
    ∀ p ∈ m.signature, ¬(inherited.apply p).Mentions d.name := by
  intro p hp
  obtain ⟨e, he, hm, rfl⟩ := singleOpenMethod_mem hopen
  have hclasses := mem_classes_of_mem_hierarchy (Universe.get?_mem hd)
  have hwritten : p ∈ u.writtenTypes :=
    List.mem_flatMap.2 ⟨e.1, hclasses e he, ClassDecl.mem_writtenTypes_of_methods hm hp⟩
  refine Bindings.apply_of_forall (P := fun t => ¬t.Mentions d.name) ?_ (hsilent p hwritten)
  refine forall_bound_hierarchy (P := fun t => ¬t.Mentions d.name)
    (fun c hc type htype a ha => ?_) e he
  have hsuper : type ∈ u.writtenTypes :=
    List.mem_flatMap.2 ⟨c.1, hclasses c hc, ClassDecl.mem_writtenTypes_of_superTypes htype⟩
  exact HostType.not_mentions_of_mem_subterms (hsilent type hsuper)
    (subterms_subset_of_mem_arguments ha (HostType.self_mem_subterms a))

section

variable {u : Universe} (heligible : isEligible mode d = true) (hd : u.get? d.name = some d)
variable (hopen : singleOpenMethod u d = some (m, inherited))

include heligible hd hopen

theorem outline_use_eq_iff (hs : s.rawName? = some d.name) (ht : t.rawName? = some d.name) :
    outline mode u [] s = outline mode u [] t ↔ ∀ p ∈ m.signature,
      outline mode u [s] (substitute inherited (.ofArguments d.typeParams (arguments s)) p) =
        outline mode u [t] (substitute inherited (.ofArguments d.typeParams (arguments t)) p) := by
  rw [outline_of_opened (opened?_use heligible hd hopen hs),
    outline_of_opened (opened?_use heligible hd hopen ht)]
  exact ofOpened_eq_iff

/-- Where no variable with the name of a parameter is exposed, it does not matter what a use has for
arguments. -/
theorem outline_use_eq (hsilent : ∀ t ∈ u.writtenTypes, ¬t.Mentions d.name)
    (hkept : ∀ x ∈ d.typeParams, ¬Exposed m inherited x) (hs : s.rawName? = some d.name)
    (ht : t.rawName? = some d.name) : outline mode u [] s = outline mode u [] t := by
  refine (outline_use_eq_iff heligible hd hopen hs ht).2 fun p hp => ?_
  have hsignature : ∀ args,
      substitute inherited (.ofArguments d.typeParams args) p = inherited.apply p := by
    intro args
    exact apply_of_forall_ne (fun x hx heq => hkept x hx ⟨p, hp, heq⟩) args
  rw [hsignature, hsignature]
  refine outline_eq_of_unmentioned hsilent (fun r hr => ?_)
    (not_mentions_inherited hd hopen hsilent p hp)
  have hother {use : HostType} (huse : use.rawName? = some d.name) : r ∉ [use] := by
    intro hmem
    obtain rfl := List.mem_singleton.1 hmem
    exact hr ⟨r, HostType.self_mem_subterms r, huse⟩
  simp only [hother hs, hother ht]

/-- An exposed variable with the name of a parameter shows the argument of a use. -/
theorem outline_use_ne (hx : x ∈ d.typeParams) (hexposed : Exposed m inherited x) :
    outline mode u [] (.generic d.name (d.typeParams.map fun _ => .primitive .int)) ≠
      outline mode u [] (.generic d.name (d.typeParams.map fun _ => .primitive .boolean)) := by
  intro heq
  obtain ⟨p, hp, happly⟩ := hexposed
  have hshown := (outline_use_eq_iff heligible hd hopen rfl rfl).1 heq p hp
  have hput (k : HostType) :
      substitute inherited (.ofArguments d.typeParams (d.typeParams.map fun _ => k)) p = k := by
    rw [substitute, happly, apply_ofArguments_const hx]
  simp only [arguments, hput] at hshown
  rw [outline_of_not_opened rfl, outline_of_not_opened rfl] at hshown
  cases hshown

end

/-- In a fresh context the interface may become a function type.  It leaves a method open, for which
its super types put something in, and which is first declared at the end of a way. -/
structure Opens (mode : FunctionalMode) (ctx : Context) (d : ClassDecl) (m : MethodDecl)
    (inherited : Bindings) (way : List Step) (i : ClassDecl) : Prop where
  untagged : ctx.Untagged
  fresh : ctx.inProgress = []
  eligible : isEligible mode d = true
  get? : ctx.host.get? d.name = some d
  open_eq : singleOpenMethod ctx.host d = some (m, inherited)
  declared : DeclaredAt ctx.host d m way i

/-- Uses of an interface that no type mentions resolve alike, whatever their arguments, if and only
if no variable with the name of a parameter is exposed. -/
theorem resolveAlike_uses_iff (h : Opens mode ctx d m inherited way i)
    (hsilent : ∀ t ∈ ctx.host.writtenTypes, ¬t.Mentions d.name) :
    (∀ args args' : List HostType, args.length = args'.length →
      ResolveAlike mode ctx (.generic d.name args) (.generic d.name args')) ↔
      ∀ x ∈ d.typeParams, ¬Exposed m inherited x := by
  constructor
  · intro halike x hx hexposed
    have huses := halike (d.typeParams.map fun _ => .primitive .int)
      (d.typeParams.map fun _ => .primitive .boolean) (by simp)
    rw [resolveAlike_iff h.untagged, h.fresh] at huses
    exact outline_use_ne h.eligible h.get? h.open_eq hx hexposed huses
  · intro hkept args args' _
    rw [resolveAlike_iff h.untagged, h.fresh]
    exact outline_use_eq h.eligible h.get? h.open_eq hsilent hkept rfl rfl

/-! ## Foreign variables -/

/-- A variable that the interface has nothing to do with: a type parameter of the method, or a
variable of another class of the hierarchy, which has it as a type parameter or holds it unbound. -/
def Foreign (u : Universe) (d : ClassDecl) (m : MethodDecl) (x : String) : Prop :=
  x ∈ m.typeParams ∨ ∃ e, Reaches u d e ∧ e ≠ d ∧ (x ∈ e.typeParams ∨ e.Stray x)

theorem foreign_of_signature {u : Universe} {e : ClassDecl} (hreach : Reaches u d e)
    (hne : e ≠ d) {s : ScopedType} (hs : s ∈ e.signatureTypes)
    (hscope : s.scope ⊆ e.typeParams ++ m.typeParams) (hx : .typeVar x ∈ s.type.subterms) :
    Foreign u d m x := by
  rcases ClassDecl.mem_scope_or_stray hs hx with hmem | hstray
  · rcases List.mem_append.1 (hscope hmem) with hclass | hmethod
    · exact .inr ⟨e, hreach, hne, .inl hclass⟩
    · exact .inl hmethod
  · exact .inr ⟨e, hreach, hne, .inr hstray⟩

/-- If the super types of the interface do not pass the parameter on, a variable that is bound under
its name on the way up is foreign. -/
theorem foreign_of_bound {u : Universe} (hd : u.get? d.name = some d)
    (hsuper : ∀ t ∈ d.superTypes, .typeVar x ∉ t.subterms) {entry : ClassDecl × Bindings}
    (hentry : entry ∈ hierarchy u d) : ∀ q ∈ entry.2, q.2 = .typeVar x → Foreign u d m x := by
  refine forall_bound_hierarchy (P := fun t => t = .typeVar x → Foreign u d m x)
    (fun e he type htype a ha hx => ?_) entry hentry
  have hpart : .typeVar x ∈ type.subterms :=
    subterms_subset_of_mem_arguments ha (hx ▸ HostType.self_mem_subterms a)
  by_cases heq : e.1 = d
  · exact absurd hpart (hsuper type (heq ▸ htype))
  · have hreach : Reaches u d e.1 := (mem_hierarchy_iff hd).1 ⟨e.2, he⟩
    exact foreign_of_signature hreach heq (ClassDecl.mem_signatureTypes_of_superTypes htype)
      (List.subset_append_left ..) hpart

/-- If the method is inherited, and the super types of the interface do not pass the parameter on, a
variable that is exposed under its name is foreign. -/
theorem foreign_of_exposed (h : Opens mode ctx d m inherited way i) (hinherited : i ≠ d)
    (hsuper : ∀ t ∈ d.superTypes, .typeVar x ∉ t.subterms) (hexposed : Exposed m inherited x) :
    Foreign ctx.host d m x := by
  obtain ⟨t, ht, happly⟩ := hexposed
  obtain ⟨entry, hentry, -, hbound⟩ := singleOpenMethod_mem h.open_eq
  have hreach : Reaches ctx.host d i := exists_leads_iff.1 ⟨way, h.declared.leads⟩
  -- the image of `t` is bound on the way up, or it is `t` itself
  refine Bindings.apply_of_forall (P := fun t => t = .typeVar x → Foreign ctx.host d m x) ?_
    (fun hx => ?_) happly
  · intro q hq
    exact foreign_of_bound h.get? hsuper hentry q (hbound ▸ hq)
  · exact foreign_of_signature hreach hinherited
      (ClassDecl.mem_signatureTypes_of_methods h.declared.mem ht) (List.Subset.refl _)
      (hx ▸ HostType.self_mem_subterms t)

/-- A variable stays if the interface has no parameter of its name, nor the class of the method one
that the super types put something in for. -/
theorem substitute_typeVar_of_notMem (hleads : Leads ctx.host d way i) (hx : x ∉ d.typeParams)
    (hi : x ∈ i.typeParams → (arrive d way).2.apply (.typeVar x) = .typeVar x)
    (args : List HostType) :
    substitute (arrive d way).2 (.ofArguments d.typeParams args) (.typeVar x) = .typeVar x := by
  have hinherited : (arrive d way).2.apply (.typeVar x) = .typeVar x := by
    by_cases hmem : x ∈ i.typeParams
    · exact hi hmem
    · exact apply_arrive_of_notMem hleads hmem
  rw [substitute, hinherited]
  refine apply_of_forall_ne (fun y hy heq => ?_) args
  obtain rfl := HostType.typeVar.inj heq
  exact hx hy

/-- A use is resolved to a function type, in which the type parameters of the method stand where the
method has them, apart from those that have the name of a parameter that something is put in for. -/
theorem exists_function_of_use (h : Opens mode ctx d m inherited way i)
    (hraw : type.rawName? = some d.name) {depth : Nat}
    (hdepth : Nat.pow (HostType.sizeAll (type :: ctx.host.writtenTypes) + 1) 2 ≤ depth)
    (table : SymbolTable) :
    ∃ r params result later,
      ((Chain.standard mode).resolver depth ctx type).run table = (.ok (some r), later) ∧
      r.type = .function params result ∧ params.map (·.1) = m.params.mapIdx parameterName ∧
      ∀ x ∈ m.typeParams, x ∉ d.typeParams →
        (x ∈ i.typeParams → inherited.apply (.typeVar x) = .typeVar x) →
        List.Forall₂ (fun p q => p.type = .typeVar x → q.2 = .typeVar x) m.params params ∧
        (m.returnType = .typeVar x → result = .typeVar x) := by
  obtain rfl := h.declared.bindings_eq h.get? h.open_eq
  have hopened : opened? mode ctx.host [] type = some _ :=
    opened?_use h.eligible h.get? h.open_eq hraw
  rw [← h.fresh] at hopened
  have hinner : Context.Untagged { ctx with inProgress := type :: ctx.inProgress } := h.untagged
  obtain ⟨r, params, result, later, hrun, htype, hnames, hparams, hresult⟩ :=
    run_resolver_of_opened h.untagged hopened hdepth table
  refine ⟨r, params, result, later, hrun, htype, hnames, fun x _ hx hi => ⟨?_, fun hreturn => ?_⟩⟩
  · rw [Opened.paramTypes, List.forall₂_map_left_iff, List.forall₂_map_right_iff] at hparams
    refine hparams.imp fun p q hanswer hp => ?_
    rw [hp, substitute_typeVar_of_notMem h.declared.leads hx hi] at hanswer
    exact eq_typeVar_of_chainAnswers hinner hanswer
  · rw [Opened.resultType, hreturn, substitute_typeVar_of_notMem h.declared.leads hx hi] at hresult
    exact eq_typeVar_of_chainAnswers hinner hresult

/-- **Capture of type variables.**  If no type mentions an interface, its uses resolve alike if and
only if the super types leave no variable with the name of one of its parameters in the signature of
the open method; if that is inherited and the super types of the interface do not pass its
parameters on, such a variable is a foreign one.  Every use is resolved to a function type, in which
a type parameter of the method stays unless the interface has one of the same name, or the class of
the method has and the super types put something in for it. -/
theorem foreign_variables_kept (h : Opens mode ctx d m inherited way i) :
    ((∀ t ∈ ctx.host.writtenTypes, ¬t.Mentions d.name) →
      ((∀ args args' : List HostType, args.length = args'.length →
        ResolveAlike mode ctx (.generic d.name args) (.generic d.name args')) ↔
        ∀ x ∈ d.typeParams, ¬Exposed m inherited x) ∧
      (i ≠ d → (∀ t ∈ d.superTypes, ∀ x ∈ d.typeParams, .typeVar x ∉ t.subterms) →
        ∀ x ∈ d.typeParams, Exposed m inherited x → Foreign ctx.host d m x)) ∧
    ∀ type : HostType, type.rawName? = some d.name → ∀ depth,
      Nat.pow (HostType.sizeAll (type :: ctx.host.writtenTypes) + 1) 2 ≤ depth →
      ∀ table : SymbolTable, ∃ r params result later,
        ((Chain.standard mode).resolver depth ctx type).run table = (.ok (some r), later) ∧
        r.type = .function params result ∧ params.map (·.1) = m.params.mapIdx parameterName ∧
        ∀ x ∈ m.typeParams, x ∉ d.typeParams →
          (x ∈ i.typeParams → inherited.apply (.typeVar x) = .typeVar x) →
          List.Forall₂ (fun p q => p.type = .typeVar x → q.2 = .typeVar x) m.params params ∧
          (m.returnType = .typeVar x → result = .typeVar x) := by
  refine ⟨fun hsilent => ⟨?_, fun hinherited hsuper x hx hexposed => ?_⟩,
    fun type hraw depth hdepth table => ?_⟩
  · exact resolveAlike_uses_iff h hsilent
  · exact foreign_of_exposed h hinherited (fun t ht => hsuper t ht x hx) hexposed
  · exact exists_function_of_use h hraw hdepth table

end

section

def sourceGet : MethodDecl where
  name := "get"
  returnType := .typeVar "T"
  kind := .abstract
  typeParams := ["U"]
  params := [{ name := some "seed", type := .typeVar "U" }]

/-- An interface whose method has a type parameter of its own. -/
def sourceDecl : ClassDecl where
  name := "Source"
  kind := .interface
  typeParams := ["T"]
  methods := [sourceGet]

/-- An interface below it, which uses it raw. -/
def parserDecl (param : String) : ClassDecl where
  name := "Parser"
  kind := .interface
  typeParams := [param]
  superTypes := [.named "Source"]

def parserContext (param : String) : Context where
  host := { classes := [parserDecl param, sourceDecl] }
  settings := {}

def toSource : Step where
  place := 0
  type := .named "Source"
  parent := sourceDecl

theorem declaredAt_source (param : String) :
    DeclaredAt (parserContext param).host (parserDecl param) sourceGet ([] ++ [toSource])
      sourceDecl := by
  refine .of_leftmost (.up .here ⟨rfl, rfl⟩) List.mem_cons_self (by decide) fun w e hw hlength => ?_
  cases hw with
  | here => rfl
  | up hw hs => simp at hlength

theorem opens_parserDecl (param : String) :
    Opens .structural (parserContext param) (parserDecl param) sourceGet []
      ([] ++ [toSource]) sourceDecl where
  untagged := fun _ hsite => nomatch hsite
  fresh := rfl
  eligible := rfl
  get? := rfl
  open_eq := rfl
  declared := declaredAt_source param

/-- With a parameter of another name nothing is captured, of the class above or of the method. -/
theorem foreign_variables_kept_parserDecl :
    (∀ args args' : List HostType, args.length = args'.length →
      ResolveAlike .structural (parserContext "S") (.generic "Parser" args)
        (.generic "Parser" args')) ∧
    ∃ r p result later,
      ((Chain.standard .structural).resolver 100 (parserContext "S")
        (.generic "Parser" [.primitive .int])).run .empty =
        (.ok (some r), later) ∧
      r.type = .function [(p, .typeVar "U")] result := by
  have hsilent : ∀ t ∈ (parserContext "S").host.writtenTypes, ¬t.Mentions "Parser" := by decide
  obtain ⟨hargs, huse⟩ := foreign_variables_kept (opens_parserDecl "S")
  refine ⟨(hargs hsilent).1.2 fun x hx hexposed => ?_, ?_⟩
  · obtain rfl := List.mem_singleton.1 hx
    obtain ⟨t, ht, happly⟩ := hexposed
    rcases List.mem_cons.1 ht with rfl | ht
    · exact absurd happly (by decide)
    · obtain rfl := List.mem_singleton.1 ht
      exact absurd happly (by decide)
  · obtain ⟨r, params, result, later, hrun, htype, -, hkept⟩ :=
      huse (.generic "Parser" [.primitive .int]) rfl 100 (by decide) .empty
    obtain ⟨hparams, -⟩ := hkept "U" List.mem_cons_self (by decide) fun _ => rfl
    obtain ⟨⟨name, own⟩, rest, hown, hrest, rfl⟩ := List.forall₂_cons_left_iff.1 hparams
    obtain rfl := List.forall₂_nil_left_iff.1 hrest
    obtain rfl : own = .typeVar "U" := hown rfl
    exact ⟨r, name, result, later, hrun, htype⟩

/-- The parameter of the interface captures the one of the class above in the first case, and the
one of the method in the second. -/
theorem not_all_foreign_variables_kept :
    (¬∀ (mode : FunctionalMode) (ctx : Context) (d i : ClassDecl) (m : MethodDecl)
      (inherited : Bindings) (way : List Step), Opens mode ctx d m inherited way i → i ≠ d →
      (∀ t ∈ d.superTypes, ∀ x ∈ d.typeParams, .typeVar x ∉ t.subterms) →
      (∀ t ∈ ctx.host.writtenTypes, ¬t.Mentions d.name) → ∀ args args' : List HostType,
      args.length = args'.length →
      ResolveAlike mode ctx (.generic d.name args) (.generic d.name args')) ∧
    ¬∀ (mode : FunctionalMode) (ctx : Context) (d i : ClassDecl) (m : MethodDecl)
      (inherited : Bindings) (way : List Step), Opens mode ctx d m inherited way i →
      ∀ type : HostType, type.rawName? = some d.name →
      ∀ depth, Nat.pow (HostType.sizeAll (type :: ctx.host.writtenTypes) + 1) 2 ≤ depth →
      ∀ table : SymbolTable, ∀ r params result later,
      ((Chain.standard mode).resolver depth ctx type).run table = (.ok (some r), later) →
      r.type = .function params result → ∀ x ∈ m.typeParams,
      List.Forall₂ (fun p q => p.type = .typeVar x → q.2 = .typeVar x) m.params params := by
  constructor
  · intro hall
    have hsilent : ∀ t ∈ (parserContext "T").host.writtenTypes, ¬t.Mentions "Parser" := by decide
    have hsuper : ∀ t ∈ (parserDecl "T").superTypes, ∀ x ∈ (parserDecl "T").typeParams,
        .typeVar x ∉ t.subterms := by
      decide
    have hother : sourceDecl ≠ parserDecl "T" := by decide
    have huses := hall _ _ _ _ _ _ _ (opens_parserDecl "T") hother hsuper hsilent
    have hkept := (resolveAlike_uses_iff (opens_parserDecl "T") hsilent).1 huses
    exact hkept "T" List.mem_cons_self ⟨.typeVar "T", List.mem_cons_self, rfl⟩
  · intro hall
    let use : HostType := .generic "Parser" [.primitive .int]
    obtain ⟨r, later, hrun, htype⟩ : ∃ r later,
        ((Chain.standard .structural).resolver 100 (parserContext "U") use).run .empty =
          (.ok (some r), later) ∧
        r.type = .function [("seed", .primitive .number)] (.typeVar "T") := ⟨_, _, rfl, rfl⟩
    have hparams := hall _ _ _ _ _ _ _ (opens_parserDecl "U") use rfl 100
      (by decide) .empty r _ _ later hrun htype "U" List.mem_cons_self
    obtain ⟨_, _, hown, -, heq⟩ := List.forall₂_cons_left_iff.1 hparams
    obtain ⟨rfl, -⟩ := List.cons.inj heq
    cases hown rfl

end

end Functional

end TypeBridge
