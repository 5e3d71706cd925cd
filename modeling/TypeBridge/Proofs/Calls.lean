import TypeBridge.Proofs.Subterm

/-!
# Nested resolutions

`calls` lists the resolutions that the standard chain asks for while it resolves a type outside any
override, each with the interfaces in progress there.  The chain's answer depends on the nested
resolver at these calls only (`first_standard_congr`).

The calls of a member of an arena stay in the arena (`mem_of_mem_calls`), since only whole variables
are substituted and their images are written somewhere.  With every call `need` goes down: a
functional interface puts a new type in progress, and all other calls go to a part of the type
(`need_lt`).
-/

namespace TypeBridge

open Functional

/-! ## Functional interfaces -/

namespace Functional

/-- The method that an interface leaves open, at a use, with what is substituted into its
signature. -/
structure Opened where
  method : MethodDecl
  inherited : Bindings
  use : Bindings

namespace Opened

def paramTypes (o : Opened) : List HostType :=
  o.method.params.map fun p => substitute o.inherited o.use p.type

def resultType (o : Opened) : HostType :=
  substitute o.inherited o.use o.method.returnType

/-- The function type of the method, resolved in the context inside it. -/
def resolve (o : Opened) (nested : Resolver) (inner : Context) : Resolving (Option Resolution) := do
  let params ← nested.allOrAny inner o.paramTypes
  let result ← nested.orAny inner o.resultType
  pure (some (functionType o.method params result))

end Opened

/-- The open method of the interface that `type` uses, unless that use is in progress. -/
def opened? (mode : FunctionalMode) (u : Universe) (inProgress : List HostType) (type : HostType) :
    Option Opened :=
  match eligible? mode u type with
  | none => none
  | some d =>
    if inProgress.contains type then
      none
    else
      (singleOpenMethod u d).map fun m => ⟨m.1, m.2, .ofArguments d.typeParams (arguments type)⟩

theorem process_of_opened? (mode : FunctionalMode) (nested : Resolver) (ctx : Context)
    (type : HostType) :
    (processor mode).process nested ctx type =
      match opened? mode ctx.host ctx.inProgress type with
      | none => pure none
      | some o => o.resolve nested { ctx with inProgress := type :: ctx.inProgress } := by
  unfold processor opened?
  cases he : eligible? mode ctx.host type with
  | none => simp only [he]
  | some d =>
    simp only [he, synthesize]
    cases hp : ctx.inProgress.contains type with
    | true => rfl
    | false =>
      cases hm : singleOpenMethod ctx.host d with
      | none => rfl
      | some m => rfl

theorem opened?_eq_some {mode : FunctionalMode} {u : Universe} {inProgress : List HostType}
    {type : HostType} {o : Opened} (h : opened? mode u inProgress type = some o) :
    ∃ d, eligible? mode u type = some d ∧ type ∉ inProgress ∧
      singleOpenMethod u d = some (o.method, o.inherited) ∧
      o.use = .ofArguments d.typeParams (arguments type) := by
  unfold opened? at h
  cases he : eligible? mode u type with
  | none => simp only [he] at h; cases h
  | some d =>
    simp only [he] at h
    split at h
    · cases h
    · next hp =>
      obtain ⟨m, hm, rfl⟩ := Option.map_eq_some_iff.1 h
      exact ⟨d, rfl, by simpa using hp, hm, rfl⟩

theorem opened?_of_eligible {mode : FunctionalMode} {u : Universe}
    {inProgress : List HostType} {type : HostType} {d : ClassDecl}
    (h : eligible? mode u type = some d) (hfresh : type ∉ inProgress) :
    opened? mode u inProgress type =
      (singleOpenMethod u d).map fun m =>
        ⟨m.1, m.2, .ofArguments d.typeParams (arguments type)⟩ := by
  simp [opened?, h, hfresh]

theorem eligible?_of_get? (mode : FunctionalMode) {u : Universe} {type : HostType} {d : ClassDecl}
    (htype : type.rawName? = some d.name) (hd : u.get? d.name = some d) :
    eligible? mode u type = if isEligible mode d then some d else none := by
  simp [eligible?, htype, hd]

theorem eligible?_eq_some {mode : FunctionalMode} {u : Universe} {type : HostType} {d : ClassDecl}
    (h : eligible? mode u type = some d) :
    type.rawName? = some d.name ∧ u.get? d.name = some d ∧ isEligible mode d := by
  unfold eligible? at h
  cases hr : type.rawName? with
  | none => simp [hr] at h
  | some name =>
    cases hg : u.get? name with
    | none => simp [hr, hg] at h
    | some c =>
      obtain ⟨he, rfl⟩ : isEligible mode c = true ∧ c = d := by simpa [hr, hg] using h
      have hname : c.name = name := Universe.get?_name hg
      exact ⟨congrArg some hname.symm, hname ▸ hg, he⟩

theorem eligible?_mem {mode : FunctionalMode} {u : Universe} {type : HostType} {d : ClassDecl}
    (h : eligible? mode u type = some d) : d ∈ u.classes := by
  exact Universe.get?_mem (eligible?_eq_some h).2.1

/-! ## What bindings put in -/

theorem Bindings.forall_ofArguments {P : HostType → Prop} {args : List HostType}
    {params : List String} (h : ∀ a ∈ args, P a) :
    ∀ entry ∈ Bindings.ofArguments params args, P entry.2 := by
  intro entry he
  have hzip : entry ∈ params.zip args := List.mem_reverse.1 he
  exact h entry.2 (List.of_mem_zip (show (entry.1, entry.2) ∈ params.zip args from hzip)).2

/-- What a type has, and everything that is put in for variables, the type has after that. -/
theorem Bindings.apply_of_forall {P : HostType → Prop} {b : Bindings}
    (h : ∀ entry ∈ b, P entry.2) {t : HostType} (ht : P t) : P (b.apply t) := by
  cases t with
  | typeVar name =>
    change P ((b.lookup name).getD (.typeVar name))
    cases hl : b.lookup name with
    | none => exact ht
    | some image =>
      obtain ⟨front, behind, hb, -⟩ := List.lookup_eq_some_iff.1 hl
      exact h (name, image) (by simp [hb])
  | _ => exact ht

/-! ## Along a hierarchy -/

/-- What holds of the start of a walk and passes to parents on it holds of everything on the
walk. -/
theorem walk_forall {P : ClassDecl × Bindings → Prop} {u : Universe} (bound : Nat) :
    ∀ (visited : List String) (queue : List (ClassDecl × Bindings)), (∀ e ∈ queue, P e) →
      (∀ e ∈ walk u bound visited queue, P e → ∀ p ∈ parents u e.1 e.2, P p) →
        ∀ e ∈ walk u bound visited queue, P e := by
  induction bound with
  | zero => intro visited queue _ _ e he; cases he
  | succ bound ih =>
    intro visited queue hq hparents e he
    have hsub : queue.dropWhile (fun entry => visited.contains entry.1.name) ⊆ queue :=
      (List.dropWhile_sublist _).subset
    unfold walk at hparents he
    split at he
    · cases he
    · next first rest hdrop =>
      rw [hdrop] at hsub hparents
      have hfirst : P first := hq first (hsub List.mem_cons_self)
      rcases List.mem_cons.1 he with rfl | he
      · exact hfirst
      · refine ih _ _ (fun x hx => ?_) (fun x hx => hparents x (List.mem_cons_of_mem _ hx)) e he
        rcases List.mem_append.1 hx with hx | hx
        · exact hq x (hsub (List.mem_cons_of_mem _ hx))
        · exact hparents first List.mem_cons_self hfirst x hx

theorem mem_args_of_mem_arguments {t a : HostType} (h : a ∈ arguments t) :
    ∃ r args, t = .generic r args ∧ a ∈ args := by
  cases t with
  | generic r args => exact ⟨r, args, rfl, h⟩
  | _ => cases h

theorem mem_parents {u : Universe} {d : ClassDecl} {b : Bindings} {p : ClassDecl × Bindings}
    (h : p ∈ parents u d b) : ∃ type ∈ d.superTypes, p.1 ∈ u.classes ∧
      p.2 = .ofArguments p.1.typeParams ((arguments type).map b.apply) := by
  unfold parents at h
  obtain ⟨type, htype, hp⟩ := List.mem_filterMap.1 h
  cases hr : type.rawName? with
  | none => simp [hr] at hp
  | some name =>
    cases hg : u.get? name with
    | none => simp [hr, hg] at hp
    | some c =>
      obtain rfl : (c, Bindings.ofArguments c.typeParams ((arguments type).map b.apply)) = p := by
        simpa [hr, hg] using hp
      exact ⟨type, htype, Universe.get?_mem hg, rfl⟩

/-- What the arguments of all super types along a hierarchy have, everything has that is bound on
it. -/
theorem forall_bound_hierarchy {P : HostType → Prop} {u : Universe} {d : ClassDecl}
    (h : ∀ e ∈ hierarchy u d, ∀ t ∈ e.1.superTypes, ∀ a ∈ arguments t, P a) :
    ∀ e ∈ hierarchy u d, ∀ entry ∈ e.2, P entry.2 := by
  refine walk_forall _ _ _ (fun e he => ?_) fun e he hbound p hp => ?_
  · obtain rfl := List.mem_singleton.1 he
    exact fun entry hentry => nomatch hentry
  · obtain ⟨type, htype, -, hb⟩ := mem_parents hp
    rw [hb]
    refine Bindings.forall_ofArguments fun a ha => ?_
    obtain ⟨t, ht, rfl⟩ := List.mem_map.1 ha
    exact Bindings.apply_of_forall hbound (h e he type htype t ht)

theorem mem_classes_of_mem_hierarchy {u : Universe} {d : ClassDecl} (hd : d ∈ u.classes) :
    ∀ e ∈ hierarchy u d, e.1 ∈ u.classes := by
  refine walk_forall _ _ _ (fun e he => ?_) fun e _ _ p hp => ?_
  · obtain rfl := List.mem_singleton.1 he
    exact hd
  · obtain ⟨-, -, hmem, -⟩ := mem_parents hp
    exact hmem

theorem singleOpenMethod_mem {u : Universe} {d : ClassDecl} {m : MethodDecl × Bindings}
    (h : singleOpenMethod u d = some m) :
    ∃ e ∈ hierarchy u d, m.1 ∈ e.1.methods ∧ m.2 = e.2 := by
  have hopen : m ∈ openMethods (hierarchy u d) := by
    unfold singleOpenMethod at h
    split at h
    · cases h
    · next first rest heq =>
      split at h
      · cases h
        rw [heq]
        exact List.mem_cons_self
      · cases h
  obtain ⟨e, he, hm⟩ := List.mem_flatMap.1 (List.mem_filter.1 hopen).1
  obtain ⟨method, hmethod, rfl⟩ := List.mem_map.1 hm
  exact ⟨e, he, (List.mem_filter.1 hmethod).1, rfl⟩

/-- What a type in the signature of an open method has, it has after the substitution, if the
arguments of the use and those of all super types along the hierarchy have it. -/
theorem substitute_of_forall {P : HostType → Prop} {u : Universe} {d : ClassDecl} {m : MethodDecl}
    {inherited : Bindings} (hopen : singleOpenMethod u d = some (m, inherited))
    (hsuper : ∀ e ∈ hierarchy u d, ∀ t ∈ e.1.superTypes, ∀ a ∈ arguments t, P a) {type : HostType}
    (harguments : ∀ a ∈ arguments type, P a) {t : HostType} (ht : P t) :
    P (substitute inherited (.ofArguments d.typeParams (arguments type)) t) := by
  obtain ⟨e, he, -, rfl⟩ := singleOpenMethod_mem hopen
  have hinherited : P (e.2.apply t) :=
    Bindings.apply_of_forall (forall_bound_hierarchy hsuper e he) ht
  exact Bindings.apply_of_forall (Bindings.forall_ofArguments harguments) hinherited

theorem mem_arguments_of_arena {u : Universe} {limit : Nat} {types : List HostType}
    (ha : Arena u limit types) {t : HostType} (ht : t ∈ types) : ∀ a ∈ arguments t, a ∈ types := by
  intro a hmem
  obtain ⟨r, args, rfl, hargs⟩ := mem_args_of_mem_arguments hmem
  exact ha.argument ht a hargs

theorem opened?_within {mode : FunctionalMode} {u : Universe} {limit : Nat} {types : List HostType}
    (ha : Arena u limit types) {inProgress : List HostType} {type : HostType} (ht : type ∈ types)
    {o : Opened} (h : opened? mode u inProgress type = some o) :
    ∀ t ∈ o.paramTypes ++ [o.resultType], t ∈ types := by
  obtain ⟨d, hd, -, hm, huse⟩ := opened?_eq_some h
  obtain ⟨e, he, hmethod, -⟩ := singleOpenMethod_mem hm
  have hclass : ∀ e ∈ hierarchy u d, e.1 ∈ u.classes :=
    mem_classes_of_mem_hierarchy (eligible?_mem hd)
  have hwritten : ∀ t ∈ o.method.returnType :: o.method.params.map (·.type), t ∈ types :=
    fun t hw => ha.written e.1 (hclass e he) t (ClassDecl.mem_writtenTypes_of_methods hmethod hw)
  have hsuper : ∀ e ∈ hierarchy u d, ∀ t ∈ e.1.superTypes, ∀ a ∈ arguments t,
      a ∈ types := fun e he t ht =>
    mem_arguments_of_arena ha
      (ha.written e.1 (hclass e he) t (ClassDecl.mem_writtenTypes_of_superTypes ht))
  have hsubstituted : ∀ t ∈ types, substitute o.inherited o.use t ∈ types := fun t hmem => by
    rw [huse]
    exact substitute_of_forall hm hsuper (mem_arguments_of_arena ha ht) hmem
  intro t hmem
  rcases List.mem_append.1 hmem with hparam | hresult
  · obtain ⟨p, hp, rfl⟩ := List.mem_map.1 hparam
    exact hsubstituted _ (hwritten p.type (List.mem_cons_of_mem _ (List.mem_map_of_mem hp)))
  · obtain rfl := List.mem_singleton.1 hresult
    exact hsubstituted _ (hwritten _ List.mem_cons_self)

end Functional

/-! ## Structural resolution -/

namespace Structural

/-- The parts of a type that its structural translation looks at. -/
def parts (u : Universe) : HostType → List HostType
  | .array e => [e]
  | .generic raw args =>
    match Container.ofName? raw with
    | some kind => (kind.argument? args).toList
    | none => if u.contains raw then args else []
  | _ => []

theorem argument?_mem {kind : Container} {args : List HostType} {t : HostType}
    (h : kind.argument? args = some t) : t ∈ args := by
  cases kind with
  | collection => exact List.mem_of_getElem? h
  | map => exact List.mem_of_getElem? h
  | optional => exact List.mem_of_getElem? h

theorem argument?_nil (kind : Container) : kind.argument? [] = none := by
  cases kind <;> rfl

theorem parts_generic_nil (u : Universe) (raw : String) : parts u (.generic raw []) = [] := by
  simp only [parts, argument?_nil, Option.toList_none, ite_self]
  cases Container.ofName? raw <;> rfl

theorem mem_parts {u : Universe} {type t : HostType} (h : t ∈ parts u type) :
    type = .array t ∨ ∃ raw args, type = .generic raw args ∧ t ∈ args := by
  cases type with
  | array e =>
    obtain rfl := List.mem_singleton.1 h
    exact .inl rfl
  | generic raw args =>
    refine .inr ⟨raw, args, rfl, ?_⟩
    simp only [parts] at h
    split at h
    · exact argument?_mem (Option.mem_toList.1 h)
    · split at h
      · exact h
      · cases h
  | _ => cases h

theorem size_lt_of_mem_parts {u : Universe} {type t : HostType} (h : t ∈ parts u type) :
    t.size < type.size := by
  rcases mem_parts h with rfl | ⟨raw, args, rfl, hargs⟩
  · simp [HostType.size]
  · have hle := HostType.size_le_sizeAll hargs
    simp only [HostType.size]
    omega

end Structural

/-! ## The calls of the chain -/

/-- The nested resolutions of a type outside any override: the interfaces in progress there, and the
type. -/
def calls (mode : FunctionalMode) (u : Universe) (inProgress : List HostType) (type : HostType) :
    List (List HostType × HostType) :=
  match opened? mode u inProgress type with
  | some o => (o.paramTypes ++ [o.resultType]).map (type :: inProgress, ·)
  | none => (Structural.parts u type).map (inProgress, ·)

section

variable {mode : FunctionalMode} {u : Universe} {inProgress : List HostType} {type t : HostType}
variable {c : List HostType × HostType}

theorem mem_calls_of_opened {o : Opened} (ho : opened? mode u inProgress type = some o)
    (ht : t ∈ o.paramTypes ++ [o.resultType]) :
    (type :: inProgress, t) ∈ calls mode u inProgress type := by
  unfold calls
  rw [ho]
  exact List.mem_map_of_mem ht

theorem mem_calls_of_part (ho : opened? mode u inProgress type = none)
    (ht : t ∈ Structural.parts u type) : (inProgress, t) ∈ calls mode u inProgress type := by
  unfold calls
  rw [ho]
  exact List.mem_map_of_mem ht

/-- A call is for a type of the signature, inside the interface, or for a part of the type. -/
theorem calls_cases (hc : c ∈ calls mode u inProgress type) :
    (∃ o, opened? mode u inProgress type = some o ∧
      ∃ t ∈ o.paramTypes ++ [o.resultType], c = (type :: inProgress, t)) ∨
    opened? mode u inProgress type = none ∧ ∃ t ∈ Structural.parts u type, c = (inProgress, t) := by
  unfold calls at hc
  cases ho : opened? mode u inProgress type with
  | some o =>
    rw [ho] at hc
    obtain ⟨t, ht, rfl⟩ := List.mem_map.1 hc
    exact .inl ⟨o, rfl, t, ht, rfl⟩
  | none =>
    rw [ho] at hc
    obtain ⟨t, ht, rfl⟩ := List.mem_map.1 hc
    exact .inr ⟨rfl, t, ht, rfl⟩

end

theorem mem_of_mem_calls {mode : FunctionalMode} {u : Universe} {limit : Nat}
    {types : List HostType} (ha : Arena u limit types) {inProgress : List HostType}
    {type : HostType} (ht : type ∈ types) {c : List HostType × HostType}
    (hc : c ∈ calls mode u inProgress type) : c.2 ∈ types := by
  rcases calls_cases hc with ⟨o, ho, t, hmem, rfl⟩ | ⟨-, t, hmem, rfl⟩
  · exact opened?_within ha ht ho t hmem
  · rcases Structural.mem_parts hmem with rfl | ⟨raw, args, rfl, hargs⟩
    · exact ha.element ht
    · exact ha.argument ht t hargs

/-- A bound on the depth of a resolution: the types of the arena that are not in progress, each of
them with a way down one type, and the way down this one. -/
def need (types : List HostType) (limit : Nat) (inProgress : List HostType) (type : HostType) :
    Nat :=
  (types.filter fun t => !inProgress.contains t).length * (limit + 1) + type.size

/-- With one more visited, there is one less to go. -/
theorem length_filter_cons_lt {α : Type} [BEq α] [LawfulBEq α] {items visited : List α} {item : α}
    (hitem : item ∈ items) (hnew : item ∉ visited) :
    (items.filter fun x => !(item :: visited).contains x).length <
      (items.filter fun x => !visited.contains x).length := by
  have hsplit : (items.filter fun x => !(item :: visited).contains x) =
      (items.filter fun x => !visited.contains x).filter (· != item) := by
    rw [List.filter_filter]
    refine List.filter_congr fun x _ => ?_
    rw [List.contains_cons, Bool.not_or]
    rfl
  rw [hsplit]
  refine List.length_filter_lt_length_iff_exists.2 ⟨item, ?_, by simp⟩
  exact List.mem_filter.2 ⟨hitem, by simpa using hnew⟩

theorem need_lt {mode : FunctionalMode} {u : Universe} {limit : Nat} {types : List HostType}
    (ha : Arena u limit types) {inProgress : List HostType} {type : HostType} (ht : type ∈ types)
    {c : List HostType × HostType} (hc : c ∈ calls mode u inProgress type) :
    need types limit c.1 c.2 < need types limit inProgress type := by
  have hsize : c.2.size ≤ limit := ha.size_le c.2 (mem_of_mem_calls ha ht hc)
  rcases calls_cases hc with ⟨o, ho, t, -, rfl⟩ | ⟨-, t, hmem, rfl⟩
  · obtain ⟨-, -, hp, -, -⟩ := opened?_eq_some ho
    have hfew := length_filter_cons_lt ht hp
    have hmul := Nat.mul_le_mul_right (limit + 1) (Nat.succ_le_of_lt hfew)
    have hone := type.one_le_size
    simp only [need, Nat.succ_mul] at hmul hsize ⊢
    omega
  · exact Nat.add_lt_add_left (Structural.size_lt_of_mem_parts hmem) _

/-! ## Only the calls matter -/

/-- Two resolvers agree at the calls that are listed, made from `ctx`. -/
def Resolver.AgreeAt (nested other : Resolver) (ctx : Context)
    (cs : List (List HostType × HostType)) : Prop :=
  ∀ c ∈ cs, nested { ctx with inProgress := c.1 } c.2 = other { ctx with inProgress := c.1 } c.2

theorem Resolver.orAny_congr {nested other : Resolver} {ctx : Context} {t : HostType}
    (h : nested ctx t = other ctx t) : nested.orAny ctx t = other.orAny ctx t := by
  unfold Resolver.orAny
  rw [h]

theorem Resolver.allOrAny_congr {nested other : Resolver} {ctx : Context} {ts : List HostType}
    (h : ∀ t ∈ ts, nested ctx t = other ctx t) :
    nested.allOrAny ctx ts = other.allOrAny ctx ts := by
  induction ts with
  | nil => rfl
  | cons t ts ih =>
    unfold Resolver.allOrAny
    rw [orAny_congr (h t List.mem_cons_self), ih fun t' ht' => h t' (List.mem_cons_of_mem t ht')]

theorem Structural.resolve_congr {nested other : Resolver} {ctx : Context} {type : HostType}
    (h : ∀ t ∈ parts ctx.host type, nested ctx t = other ctx t) :
    resolve nested ctx type = resolve other ctx type := by
  cases type with
  | primitive p => rfl
  | typeVar name => rfl
  | array e =>
    have he := Resolver.orAny_congr (h e List.mem_cons_self)
    simp only [resolve, he]
  | named name =>
    simp only [resolve, application, container, argument?_nil, Resolver.allOrAny]
  | generic raw args =>
    simp only [parts] at h
    simp only [resolve, application]
    cases hk : Container.ofName? raw with
    | some kind =>
      rw [hk] at h
      simp only [container]
      cases harg : kind.argument? args with
      | none => rfl
      | some t =>
        have ht := Resolver.orAny_congr (h t (by simp [harg]))
        simp only [ht]
    | none =>
      rw [hk] at h
      by_cases hcontains : ctx.host.contains raw = true
      · have hargs : nested.allOrAny ctx args = other.allOrAny ctx args :=
          Resolver.allOrAny_congr fun t ht => h t (by simpa [hcontains] using ht)
        simp only [hcontains, ↓reduceIte, hargs]
      · simp only [hcontains, Bool.false_eq_true, ↓reduceIte]

/-- What the chain does behind its first link: the function type of an interface, or the structural
translation. -/
def Chain.behindOverride (mode : FunctionalMode) (nested : Resolver) (ctx : Context)
    (type : HostType) : Resolving (Option Resolution) :=
  match opened? mode ctx.host ctx.inProgress type with
  | some o => o.resolve nested { ctx with inProgress := type :: ctx.inProgress }
  | none => some <$> Structural.resolve nested ctx type

theorem Chain.first_standard (mode : FunctionalMode) (nested : Resolver) (ctx : Context)
    (type : HostType) :
    first nested ctx type (standard mode) = (do
      match ← Override.processor.process nested ctx type with
      | some resolution => pure (some resolution)
      | none => behindOverride mode nested ctx type) := by
  have hbehind : first nested ctx type [Functional.processor mode, Structural.processor] =
      behindOverride mode nested ctx type := by
    simp only [first, process_of_opened?, behindOverride]
    cases opened? mode ctx.host ctx.inProgress type with
    | some o => simp only [Opened.resolve, bind_assoc, pure_bind]
    | none => simp only [Structural.processor, pure_bind, map_eq_pure_bind, bind_assoc]
  rw [← hbehind]
  rfl

/-- **The chain's answer depends on the nested resolver at the calls only.** -/
theorem Chain.first_standard_congr {mode : FunctionalMode} {nested other : Resolver} {ctx : Context}
    {type : HostType} (h : nested.AgreeAt other ctx (calls mode ctx.host ctx.inProgress type)) :
    first nested ctx type (standard mode) = first other ctx type (standard mode) := by
  have hbehind : behindOverride mode nested ctx type = behindOverride mode other ctx type := by
    unfold behindOverride
    cases ho : opened? mode ctx.host ctx.inProgress type with
    | some o =>
      have hcalls : ∀ t ∈ o.paramTypes ++ [o.resultType],
          nested { ctx with inProgress := type :: ctx.inProgress } t =
            other { ctx with inProgress := type :: ctx.inProgress } t := fun t ht =>
        h (type :: ctx.inProgress, t) (mem_calls_of_opened ho ht)
      have hparams := Resolver.allOrAny_congr fun t ht => hcalls t (List.mem_append_left _ ht)
      have hresult := Resolver.orAny_congr (hcalls o.resultType (by simp))
      simp only [Opened.resolve, hparams, hresult]
    | none =>
      have hparts : ∀ t ∈ Structural.parts ctx.host type, nested ctx t = other ctx t := fun t ht =>
        h (ctx.inProgress, t) (mem_calls_of_part ho ht)
      simp only [Structural.resolve_congr hparts]
  rw [first_standard, first_standard, hbehind]
  rfl

end TypeBridge
