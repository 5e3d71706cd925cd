import TypeBridge.Proofs.Locality
import TypeBridge.Proofs.OpenMethod
import TypeBridge.Proofs.Scopes

/-!
# Inherited methods at a use

A use of a functional interface shows the signature of its open method with the arguments of the use
put in.  The method may be declared far up the hierarchy, and then each step of the way there has a
mapping of its own, from the parameters of the class above to what the class below applies it to.
The mappings are composed as simultaneous substitutions (`along`), and each of them in the names of
its own class, so that equal names of different classes are not confused.

Where the super types on the way have variables or types without variables for arguments, the
bindings of the hierarchy are this composition (`apply_arrive`).  So a use shows the method as the
composition followed by the assignment of its arguments has it (`inherited_method_shown`).  Only the
variables of the declaring class are meant to be replaced, but another one that has the name of a
parameter of the interface is replaced as well, and where the chain declines a type there is no
resolution of it to show (`not_all_inherited_methods_shown`).
-/

namespace TypeBridge

/-! ## Substitution -/

namespace HostType

mutual

/-- The type with something put in for every variable at once. -/
def subst (σ : String → HostType) : HostType → HostType
  | .primitive p => .primitive p
  | .named n => .named n
  | .generic r args => .generic r (substAll σ args)
  | .typeVar x => σ x
  | .array e => .array (subst σ e)

def substAll (σ : String → HostType) : List HostType → List HostType
  | [] => []
  | a :: rest => subst σ a :: substAll σ rest

end

theorem substAll_eq_map (σ : String → HostType) (ts : List HostType) :
    substAll σ ts = ts.map (subst σ) := by
  induction ts with
  | nil => rfl
  | cons t ts ih => simp only [substAll, List.map_cons, ih]

def VariableFree (t : HostType) : Prop :=
  ∀ x, .typeVar x ∉ t.subterms

theorem VariableFree.subst_eq {t : HostType} (h : t.VariableFree) (σ : String → HostType) :
    t.subst σ = t := by
  induction t using nestedInduction with
  | primitive p => rfl
  | named n => rfl
  | typeVar x => exact absurd (self_mem_subterms _) (h x)
  | array e ih => exact congrArg array (ih fun x hx => h x (List.mem_cons_of_mem _ hx))
  | generic r args ih =>
    have hargs : args.map (subst σ) = args.map id := List.map_congr_left fun a ha =>
      ih a ha fun x hx => h x (subterms_trans (mem_subterms_of_mem_args ha) hx)
    rw [subst, substAll_eq_map, hargs, List.map_id]

end HostType

namespace Functional

/-! ## Parameters and arguments -/

/-- Each parameter becomes the argument in its place, other variables stay. -/
def assign (params : List String) (args : List HostType) (x : String) : HostType :=
  ((params.zip args).lookup x).getD (.typeVar x)

section

variable {params : List String} {args : List HostType} {x : String}

theorem lookup_of_notMem {entries : Bindings} (h : ∀ q ∈ entries, q ∈ params.zip args)
    (hx : x ∉ params) : entries.lookup x = none := by
  refine List.lookup_eq_none_iff.2 fun q hq => ?_
  have hne : x ≠ q.1 := fun heq => hx (heq ▸ (List.of_mem_zip (h q hq)).1)
  simpa using hne

theorem lookup_reverse_zip (h : params.Nodup) (args : List HostType) (x : String) :
    (params.zip args).reverse.lookup x = (params.zip args).lookup x := by
  induction params generalizing args with
  | nil => rfl
  | cons y rest ih =>
    obtain ⟨hnew, hrest⟩ := List.nodup_cons.1 h
    cases args with
    | nil => rfl
    | cons a others =>
      rw [List.zip_cons_cons, List.reverse_cons, List.lookup_append, ih hrest others]
      by_cases hx : x = y
      · subst hx
        have hnone : (rest.zip others).lookup x = none := lookup_of_notMem (fun _ hq => hq) hnew
        simp [hnone]
      · have hy : (x == y) = false := by simpa using hx
        simp [List.lookup_cons, hy]

/-- Of distinct parameters it does not matter which place counts. -/
theorem apply_ofArguments (h : params.Nodup) (args : List HostType) (x : String) :
    (Bindings.ofArguments params args).apply (.typeVar x) = assign params args x := by
  change ((params.zip args).reverse.lookup x).getD _ = _
  rw [lookup_reverse_zip h, assign]

/-- A parameter has one argument, and has it also when something is done to all arguments. -/
theorem exists_assign_map (hlength : args.length = params.length) (hx : x ∈ params) :
    ∃ a ∈ args, ∀ f : HostType → HostType, assign params (args.map f) x = f a := by
  induction params generalizing args with
  | nil => cases hx
  | cons y rest ih =>
    cases args with
    | nil => cases hlength
    | cons a others =>
      by_cases heq : x = y
      · exact ⟨a, List.mem_cons_self, fun f => by simp [assign, heq]⟩
      · have hy : (x == y) = false := by simpa using heq
        obtain ⟨b, hb, hassign⟩ := ih (Nat.succ.inj hlength) ((List.mem_cons.1 hx).resolve_left heq)
        refine ⟨b, List.mem_cons_of_mem a hb, fun f => ?_⟩
        rw [← hassign f, assign, assign, List.map_cons, List.zip_cons_cons, List.lookup_cons, hy]

end

/-! ## Along a way -/

section

variable {u : Universe} {d e i : ClassDecl} {m : MethodDecl} {way : List Step} {x : String}

/-- What a way up makes of the variables of the class that it leads to, in the variables of the
class where it starts: the composition of the mappings of its steps. -/
def along (way : List Step) : String → HostType :=
  way.foldl (fun σ s x => (assign s.parent.typeParams (arguments s.type) x).subst σ) .typeVar

theorem along_append (way : List Step) (s : Step) (x : String) :
    along (way ++ [s]) x = (assign s.parent.typeParams (arguments s.type) x).subst (along way) := by
  simp [along]

/-- Each super type on the way has as many arguments as its class has parameters, and they are type
parameters of the class below or have no variables. -/
def Parameterized (d : ClassDecl) (way : List Step) : Prop :=
  ∀ front s, front ++ [s] <+: way → (arguments s.type).length = s.parent.typeParams.length ∧
    ∀ a ∈ arguments s.type, a.VariableFree ∨ ∃ x ∈ (arrive d front).1.typeParams, a = .typeVar x

theorem parameterized_nil (d : ClassDecl) : Parameterized d [] :=
  fun front s h => absurd (List.prefix_nil.1 h) (by simp)

theorem parameterized_append {s : Step} : Parameterized d (way ++ [s]) ↔ Parameterized d way ∧
    (arguments s.type).length = s.parent.typeParams.length ∧
      ∀ a ∈ arguments s.type, a.VariableFree ∨ ∃ x ∈ (arrive d way).1.typeParams,
        a = .typeVar x := by
  constructor
  · exact fun h =>
      ⟨fun front t ht => h front t (ht.trans (List.prefix_append ..)), h way s List.prefix_rfl⟩
  · rintro ⟨h, hs⟩ front t ht
    rcases List.prefix_concat_iff.1 ht with heq | ht
    · obtain ⟨rfl, hlast⟩ := List.append_inj' heq rfl
      obtain rfl := List.singleton_inj.1 hlast
      exact hs
    · exact h front t ht

theorem Bindings.apply_of_variableFree (b : Bindings) {t : HostType} (h : t.VariableFree) :
    b.apply t = t := by
  cases t with
  | typeVar x => exact absurd (HostType.self_mem_subterms _) (h x)
  | _ => rfl

/-- With one step more, a parameter of the class above becomes an argument without variables or a
parameter of the class below, in the composition as well as in what is bound. -/
theorem image_append {s : Step} (hleads : Leads u d way e) (hs : s.From u e)
    (hway : Parameterized d (way ++ [s])) (hnodup : ∀ c ∈ u.classes, c.typeParams.Nodup)
    (hx : x ∈ s.parent.typeParams) :
    (∃ t, t.VariableFree ∧ along (way ++ [s]) x = t ∧
      (arrive d (way ++ [s])).2.apply (.typeVar x) = t) ∨
    ∃ y ∈ e.typeParams, along (way ++ [s]) x = along way y ∧
      (arrive d (way ++ [s])).2.apply (.typeVar x) = (arrive d way).2.apply (.typeVar y) := by
  obtain ⟨-, hlength, hargs⟩ := parameterized_append.1 hway
  obtain ⟨a, ha, hassign⟩ := exists_assign_map hlength hx
  have hown : assign s.parent.typeParams (arguments s.type) x = a := by simpa using hassign id
  have hparent : s.parent.typeParams.Nodup := by
    obtain ⟨name, -, hget⟩ := Option.bind_eq_some_iff.1 hs.parent
    exact hnodup s.parent (Universe.get?_mem hget)
  rw [along_append, hown, arrive_append, Step.bindings, apply_ofArguments hparent, hassign]
  rcases hargs a ha with hfree | ⟨y, hy, rfl⟩
  · exact .inl ⟨a, hfree, hfree.subst_eq _, Bindings.apply_of_variableFree _ hfree⟩
  · rw [hleads.arrive_eq] at hy
    exact .inr ⟨y, hy, rfl, rfl⟩

/-- The image of a variable along a way is a variable of the class at the start, or has no
variables. -/
theorem along_cases (hleads : Leads u d way e) (hway : Parameterized d way)
    (hnodup : ∀ c ∈ u.classes, c.typeParams.Nodup) (hx : x ∈ e.typeParams) :
    (along way x).VariableFree ∨ ∃ y ∈ d.typeParams, along way x = .typeVar y := by
  induction hleads generalizing x with
  | here => exact .inr ⟨x, hx, rfl⟩
  | up hleads hs ih =>
    rcases image_append hleads hs hway hnodup hx with ⟨t, hfree, hlong, -⟩ | ⟨y, hy, hlong, -⟩
    · exact .inl (hlong ▸ hfree)
    · rw [hlong]
      exact ih (parameterized_append.1 hway).1 hy

/-- **What is bound at the end of a way is the composition of the mappings along it.** -/
theorem apply_arrive (hleads : Leads u d way e) (hway : Parameterized d way)
    (hnodup : ∀ c ∈ u.classes, c.typeParams.Nodup) (hx : x ∈ e.typeParams) :
    (arrive d way).2.apply (.typeVar x) = along way x := by
  induction hleads generalizing x with
  | here => rfl
  | up hleads hs ih =>
    rcases image_append hleads hs hway hnodup hx with ⟨t, -, hlong, hbound⟩ | ⟨y, hy, hlong, hbound⟩
    · exact hbound.trans hlong.symm
    · rw [hlong, hbound]
      exact ih (parameterized_append.1 hway).1 hy

/-- Only parameters of the class at the end are bound there. -/
theorem apply_arrive_of_notMem (hleads : Leads u d way e) (hx : x ∉ e.typeParams) :
    (arrive d way).2.apply (.typeVar x) = .typeVar x := by
  cases hleads with
  | here => rfl
  | @up way e s hleads hs =>
    have hnone :
        (Bindings.ofArguments s.parent.typeParams
          ((arguments s.type).map (arrive d way).2.apply)).lookup x =
        none := lookup_of_notMem (fun _ hq => List.mem_reverse.1 hq) hx
    rw [arrive_append, Step.bindings]
    change (List.lookup x _).getD _ = _
    rw [hnone]
    rfl

/-! ## Where a method is declared -/

/-- A way is known by the places of its steps. -/
theorem Leads.eq_of_rank_eq {v w : List Step} (hv : Leads u d v e) (hw : Leads u d w i)
    (h : rank v = rank w) : v = w := by
  obtain ⟨hlength, hplaces⟩ : v.length = w.length ∧ v.map (·.place) = w.map (·.place) := by
    simpa [rank] using h
  clear h
  induction hv generalizing w i with
  | here => exact (List.length_eq_zero_iff.1 hlength.symm).symm
  | @up v e s hv hs ih =>
    cases hw with
    | here => simp at hlength
    | @up w f t hw ht =>
      rw [List.map_append, List.map_append] at hplaces
      obtain ⟨hfront, hplace⟩ := List.append_inj' hplaces rfl
      obtain rfl := ih hw (by simpa using hlength) hfront
      obtain rfl : e = f := hv.arrive_eq.symm.trans hw.arrive_eq
      obtain ⟨place, type, parent⟩ := s
      obtain ⟨place', type', parent'⟩ := t
      obtain rfl : place = place' := by simpa using hplace
      obtain rfl : type = type' := Option.some.inj (hs.type.symm.trans ht.type)
      obtain rfl : parent = parent' := Option.some.inj (hs.parent.symm.trans ht.parent)
      rfl

/-- The way leads to a class that declares the method, and no way before it leads to a class that
declares the same overload as abstract. -/
structure DeclaredAt (u : Universe) (d : ClassDecl) (m : MethodDecl) (way : List Step)
    (i : ClassDecl) : Prop where
  leads : Leads u d way i
  mem : m ∈ i.methods
  first : ∀ {w e}, Leads u d w e → (∃ n ∈ e.methods, declares m n = true) → ¬rank w < rank way

theorem not_lt_of_forall_eq_zero {l zeros : List ℕ} (hzeros : ∀ n ∈ zeros, n = 0)
    (hlength : l.length = zeros.length) : ¬l < zeros := by
  induction zeros generalizing l with
  | nil => exact List.not_lt_nil l
  | cons z zeros ih =>
    cases l with
    | nil => cases hlength
    | cons n l =>
      obtain rfl := hzeros z List.mem_cons_self
      rw [List.cons_lt_cons_iff]
      rintro (hlt | ⟨-, hlt⟩)
      · exact Nat.not_lt_zero n hlt
      · exact ih (fun k hk => hzeros k (List.mem_cons_of_mem 0 hk)) (Nat.succ.inj hlength) hlt

/-- A way that takes the first super type each time is the first of its length, so it leads to the
first declaration of a method if no shorter way leads to a class with methods. -/
theorem DeclaredAt.of_leftmost (hleads : Leads u d way i) (hm : m ∈ i.methods)
    (hleft : ∀ s ∈ way, s.place = 0)
    (hshorter : ∀ w e, Leads u d w e → w.length < way.length → e.methods = []) :
    DeclaredAt u d m way i where
  leads := hleads
  mem := hm
  first {w e} hw hdeclared hlt := by
    obtain ⟨n, hn, -⟩ := hdeclared
    rcases rank_lt_iff.1 hlt with hlength | ⟨hlength, hplaces⟩
    · rw [hshorter w e hw hlength] at hn
      cases hn
    · have hzeros : ∀ n ∈ way.map (·.place), n = 0 := List.forall_mem_map.2 hleft
      exact not_lt_of_forall_eq_zero hzeros (by simpa using hlength) hplaces

theorem exists_declaredAt (hd : u.get? d.name = some d) {b : Bindings}
    (h : singleOpenMethod u d = some (m, b)) :
    ∃ way i, DeclaredAt u d m way i ∧ b = (arrive d way).2 := by
  obtain ⟨ways, htour⟩ := exists_tour hd
  have hfind := find?_declarations h
  rw [htour.hierarchy_eq, declarations, List.flatMap_map, List.find?_flatMap] at hfind
  obtain ⟨front, way, back, rfl, hway, hfront⟩ := List.findSome?_eq_some_iff.1 hfind
  obtain ⟨n, hn, heq⟩ := List.mem_map.1 (List.mem_of_find?_eq_some hway)
  obtain ⟨rfl, rfl⟩ := Prod.mk.inj heq
  refine ⟨way, _, ⟨htour.leads way (by simp), hn, fun {w e} hw hdeclared hlt => ?_⟩, rfl⟩
  obtain ⟨k, hk, hdeclares⟩ := hdeclared
  obtain ⟨v, hv, rfl, hrank⟩ := htour.first hw
  have hbefore : rank v < rank way := by
    rcases hrank with rfl | hvw
    · exact hlt
    · exact hvw.trans hlt
  -- What comes before `way` on the tour does not declare the method, and the rest does not come
  -- before it.
  rcases List.mem_append.1 hv with hv | hv
  · exact List.find?_eq_none.1 (hfront v hv) (k, (arrive d v).2) (List.mem_map_of_mem hk) hdeclares
  · have hsorted := (List.pairwise_append.1 htour.sorted).2.1
    rcases List.mem_cons.1 hv with rfl | hv
    · exact lt_irrefl _ hbefore
    · exact lt_asymm hbefore ((List.pairwise_cons.1 hsorted).1 v hv)

theorem DeclaredAt.declares (h : DeclaredAt u d m way i) (habstract : m.kind = .abstract) :
    ∃ n ∈ i.methods, declares m n = true :=
  ⟨m, h.mem, by simp [Functional.declares, habstract, sameSignature_iff]⟩

/-- What the method comes with is bound along the way to its declaration. -/
theorem DeclaredAt.bindings_eq (hd : u.get? d.name = some d) {b : Bindings}
    (hopen : singleOpenMethod u d = some (m, b)) (h : DeclaredAt u d m way i) :
    b = (arrive d way).2 := by
  obtain ⟨v, e, hv, rfl⟩ := exists_declaredAt hd hopen
  obtain ⟨rest, heq, -⟩ := singleOpenMethod_eq_some_iff.1 hopen
  have habstract : m.kind = .abstract := (mem_openMethods.1 (heq ▸ List.mem_cons_self)).2.1
  have hrank : rank v = rank way := le_antisymm (not_lt.1 (hv.first h.leads (h.declares habstract)))
    (not_lt.1 (h.first hv.leads (hv.declares habstract)))
  rw [hv.leads.eq_of_rank_eq h.leads hrank]

/-! ## The function type of a use -/

/-- A type in the signature of a method of `i`, as a use of `d` with these arguments shows it: of a
variable of `i` the image along the way, with the arguments put in.  A variable that `i` does not
have is taken for one of `d`: it becomes the argument for the parameter of that name, and stays if
there is none.  All other types are shown as declared, even if there are variables inside. -/
def shown (d i : ClassDecl) (way : List Step) (args : List HostType) : HostType → HostType
  | .typeVar x =>
    if x ∈ i.typeParams then (along way x).subst (assign d.typeParams args)
    else assign d.typeParams args x
  | t => t

theorem substitute_eq_shown (hd : u.get? d.name = some d) (hleads : Leads u d way i)
    (hway : Parameterized d way) (hnodup : ∀ c ∈ u.classes, c.typeParams.Nodup)
    (args : List HostType) (t : HostType) :
    substitute (arrive d way).2 (.ofArguments d.typeParams args) t = shown d i way args t := by
  have huse := apply_ofArguments (hnodup d (Universe.get?_mem hd)) args
  cases t with
  | typeVar x =>
    change (Bindings.ofArguments d.typeParams args).apply ((arrive d way).2.apply (.typeVar x)) =
      if x ∈ i.typeParams then _ else _
    split
    · next hx =>
      rw [apply_arrive hleads hway hnodup hx]
      rcases along_cases hleads hway hnodup hx with hfree | ⟨y, -, hy⟩
      · rw [hfree.subst_eq, Bindings.apply_of_variableFree _ hfree]
      · rw [hy]
        exact huse y
    · next hx =>
      rw [apply_arrive_of_notMem hleads hx]
      exact huse x
  | _ => rfl

/-- A use that is resolved to the function type of a method that `i` declares, at the end of `way`.
Each super type on the way has as many arguments as there are parameters, and they are variables or
types without variables; no class repeats a parameter. -/
structure Inherits (mode : FunctionalMode) (ctx : Context) (type : HostType) (d : ClassDecl)
    (m : MethodDecl) (inherited : Bindings) (way : List Step) (i : ClassDecl) : Prop where
  eligible : eligible? mode ctx.host type = some d
  fresh : type ∉ ctx.inProgress
  open_eq : singleOpenMethod ctx.host d = some (m, inherited)
  declared : DeclaredAt ctx.host d m way i
  parameterized : Parameterized d way
  nodup : ∀ c ∈ ctx.host.classes, c.typeParams.Nodup

/-- A variable in the signature of a method belongs to its class or to the method itself, or is one
that the class has not declared. -/
theorem DeclaredAt.mem_scope_of_signature (h : DeclaredAt u d m way i)
    (hx : .typeVar x ∈ m.signature) : x ∈ i.typeParams ∨ x ∈ m.typeParams ∨ i.Stray x := by
  have hsignature := ClassDecl.mem_signatureTypes_of_methods h.mem hx
  have hscope := ClassDecl.mem_scope_or_stray hsignature (HostType.self_mem_subterms _)
  rwa [List.mem_append, or_assoc] at hscope

/-- **An inherited method at a use.**  Take a use of an interface that may become a function type,
not in progress, and the method that the interface leaves open.  Let the first way to its
declaration have super types with as many arguments as there are parameters, each a variable or a
type without variables, and let no class repeat a parameter.  Then the use is resolved to the
function type of the method, inside the use and with one parameter for each of the method.  A
variable of the declaring class is first replaced by its image along the way, into which the
arguments of the use are put for the parameters of the interface, all at once.  Another variable is
replaced by the argument for the parameter of the interface that has its name, if there is one.  Any
other type is resolved as declared, and whatever the chain declines is written as `any`.

The other variables are type parameters of the method, or the declaring class has not declared them,
which happens in no universe that was read. -/
theorem inherited_method_shown {mode : FunctionalMode} {ctx : Context} {type : HostType}
    {inherited : Bindings} (h : Inherits mode ctx type d m inherited way i) :
    let inner : Context := { ctx with inProgress := type :: ctx.inProgress }
    let image := shown d i way (arguments type)
    (∀ nested : Resolver, (processor mode).process nested ctx type = do
      let params ← nested.allOrAny inner (m.params.map fun p => image p.type)
      let result ← nested.orAny inner (image m.returnType)
      pure (some (functionType m params result))) ∧
    (ctx.Untagged →
      ∀ depth, Nat.pow (HostType.sizeAll (type :: ctx.host.writtenTypes) + 1) 2 ≤ depth →
      ∀ table : SymbolTable, ∃ r params result later,
        ((Chain.standard mode).resolver depth ctx type).run table = (.ok (some r), later) ∧
        r.type = .function params result ∧ params.map (·.1) = m.params.mapIdx parameterName ∧
        List.Forall₂ (fun p t => ChainAnswers mode inner later (image p.type) t) m.params
          (params.map (·.2)) ∧
        ChainAnswers mode inner later (image m.returnType) result) ∧
    (∀ x, .typeVar x ∈ m.signature → x ∈ i.typeParams ∨ x ∈ m.typeParams ∨ i.Stray x) ∧
    ∀ json, Universe.ofJson json = .ok ctx.host → ∀ x, ¬i.Stray x := by
  intro inner image
  obtain ⟨heligible, hfresh, hopen, hdeclared, hway, hnodup⟩ := h
  obtain ⟨-, hd, -⟩ := eligible?_eq_some heligible
  obtain rfl := hdeclared.bindings_eq hd hopen
  let o : Opened := ⟨m, (arrive d way).2, .ofArguments d.typeParams (arguments type)⟩
  have hopened : opened? mode ctx.host ctx.inProgress type = some o := by
    rw [opened?_of_eligible heligible hfresh, hopen]
    rfl
  have hsubstitute := substitute_eq_shown hd hdeclared.leads hway hnodup (arguments type)
  have hparams : o.paramTypes = m.params.map fun p => image p.type :=
    List.map_congr_left fun p _ => hsubstitute p.type
  have hresult : o.resultType = image m.returnType := hsubstitute m.returnType
  refine ⟨fun nested => ?_, fun huntagged depth hdepth table => ?_, fun x hx => ?_,
    fun json hjson x => ?_⟩
  · rw [process_of_opened?, hopened, ← hparams, ← hresult]
    rfl
  · obtain ⟨r, params, result, later, hrun, htype, hnames, hanswers, hanswer⟩ :=
      run_resolver_of_opened huntagged hopened hdepth table
    rw [hparams, List.forall₂_map_left_iff] at hanswers
    rw [hresult] at hanswer
    exact ⟨r, params, result, later, hrun, htype, hnames, hanswers, hanswer⟩
  · exact hdeclared.mem_scope_of_signature hx
  · have hclass : i ∈ ctx.host.classes := Universe.get?_mem (hdeclared.leads.get? hd)
    exact Universe.not_stray_of_ofJson hjson hclass

end

section

def crossingApply : MethodDecl where
  name := "apply"
  returnType := .typeVar "B"
  kind := .abstract
  params := [{ name := some "a", type := .typeVar "A" }, { type := .array (.typeVar "A") }]

def crossingTop : ClassDecl where
  name := "Top"
  kind := .interface
  typeParams := ["A", "B"]
  methods := [crossingApply]

def crossingMiddle : ClassDecl where
  name := "Middle"
  kind := .interface
  typeParams := ["A", "B"]
  superTypes := [.generic "Top" [.typeVar "B", .array (.primitive .int)]]

def crossingBottom : ClassDecl where
  name := "Bottom"
  kind := .interface
  typeParams := ["A", "B"]
  superTypes := [.generic "Middle" [.typeVar "B", .typeVar "A"]]

/-- The parameters of each interface are named `A` and `B`, but the super types change their
places. -/
def crossing : Universe :=
  .ofClasses [crossingTop, crossingMiddle, crossingBottom]

def toMiddle : Step where
  place := 0
  type := .generic "Middle" [.typeVar "B", .typeVar "A"]
  parent := crossingMiddle

def toTop : Step where
  place := 0
  type := .generic "Top" [.typeVar "B", .array (.primitive .int)]
  parent := crossingTop

theorem parameterized_toTop : Parameterized crossingBottom ([] ++ [toMiddle] ++ [toTop]) := by
  refine parameterized_append.2 ⟨parameterized_append.2 ⟨parameterized_nil _, rfl, ?_⟩, rfl, ?_⟩
  · simp [toMiddle, arguments, arrive, crossingBottom]
  · simp [toTop, toMiddle, arguments, arrive, crossingMiddle, HostType.VariableFree,
      HostType.subterms]

theorem declaredAt_top : DeclaredAt crossing crossingBottom crossingApply
    ([] ++ [toMiddle] ++ [toTop]) crossingTop := by
  refine .of_leftmost (.up (.up .here ⟨rfl, rfl⟩) ⟨rfl, rfl⟩) List.mem_cons_self (by decide)
    fun w e hw hlength => ?_
  cases hw with
  | here => rfl
  | up hw hs =>
    cases hw with
    | here =>
      have htype := List.mem_singleton.1 (List.mem_of_getElem? hs.type)
      have hparent := hs.parent
      rw [htype] at hparent
      have hmiddle : crossingMiddle = _ := Option.some.inj hparent
      rw [← hmiddle]
      rfl
    | up hw ht =>
      rw [List.length_append, List.length_append] at hlength
      exact absurd hlength (Nat.not_lt.2 (Nat.le_add_left ..))

def crossingContext : Context where
  host := crossing
  settings := {}

theorem inherits_crossingApply (args : List HostType) : ∃ inherited,
    Inherits .structural crossingContext (.generic "Bottom" args) crossingBottom crossingApply
      inherited ([] ++ [toMiddle] ++ [toTop]) crossingTop :=
  ⟨_, rfl, List.not_mem_nil, rfl, declaredAt_top, parameterized_toTop, by decide⟩

/-- Seen from `Bottom`, the `A` of `Top` is `A` again, and its `B` has no variables.  The `B` in the
argument for `A` is one of the use, and nothing is put in for it. -/
theorem inherited_method_shown_crossing :
    let use : HostType := .generic "Bottom" [.generic "List" [.typeVar "B"], .typeVar "A"]
    let inner : Context := { crossingContext with inProgress := [use] }
    ∃ inherited, Inherits .structural crossingContext use crossingBottom crossingApply inherited
        ([] ++ [toMiddle] ++ [toTop]) crossingTop ∧
      ∀ nested : Resolver, (processor .structural).process nested crossingContext use = (do
        let params ← nested.allOrAny inner [.generic "List" [.typeVar "B"], .array (.typeVar "A")]
        let result ← nested.orAny inner (.array (.primitive .int))
        pure (some (functionType crossingApply params result))) := by
  intro use inner
  obtain ⟨inherited, huse⟩ := inherits_crossingApply (arguments use)
  exact ⟨inherited, huse, fun nested => (inherited_method_shown huse).1 nested⟩

/-- What would be shown if only the variables of `i` were replaced. -/
def shownOwn (d i : ClassDecl) (way : List Step) (args : List HostType) : HostType → HostType
  | .typeVar x =>
    if x ∈ i.typeParams then (along way x).subst (assign d.typeParams args) else .typeVar x
  | t => t

def strayGet : MethodDecl where
  name := "get"
  returnType := .typeVar "T"
  kind := .abstract

/-- An interface with a variable that it does not declare. -/
def strayTop : ClassDecl where
  name := "Top"
  kind := .interface
  typeParams := ["U"]
  methods := [strayGet]

def strayBottom : ClassDecl where
  name := "Bottom"
  kind := .interface
  typeParams := ["T"]
  superTypes := [.generic "Top" [.primitive .int]]

def strayContext : Context where
  host := .ofClasses [strayTop, strayBottom]
  settings := {}

def toStrayTop : Step where
  place := 0
  type := .generic "Top" [.primitive .int]
  parent := strayTop

theorem inherits_strayGet (args : List HostType) : ∃ inherited,
    Inherits .structural strayContext (.generic "Bottom" args) strayBottom strayGet inherited
      ([] ++ [toStrayTop]) strayTop := by
  have hdeclared :
      DeclaredAt strayContext.host strayBottom strayGet ([] ++ [toStrayTop]) strayTop := by
    refine .of_leftmost (.up .here ⟨rfl, rfl⟩) List.mem_cons_self (by decide)
      fun w e hw hlength => ?_
    cases hw with
    | here => rfl
    | up hw hs => simp at hlength
  have hway : Parameterized strayBottom ([] ++ [toStrayTop]) :=
    parameterized_append.2 ⟨parameterized_nil _, rfl, by
      simp [toStrayTop, arguments, HostType.VariableFree, HostType.subterms]⟩
  exact ⟨_, rfl, List.not_mem_nil, rfl, hdeclared, hway, by decide⟩

/-- A variable that the class of the method has not declared is taken for a parameter of the
interface.  A type that the chain declines has no resolution, and the function has `any` there. -/
theorem not_all_inherited_methods_shown :
    (¬∀ (mode : FunctionalMode) (ctx : Context) (type : HostType) (d i : ClassDecl) (m : MethodDecl)
      (inherited : Bindings) (way : List Step), Inherits mode ctx type d m inherited way i →
      (arguments type).length = d.typeParams.length → m.typeParams = [] →
      let inner : Context := { ctx with inProgress := type :: ctx.inProgress }
      let image := shownOwn d i way (arguments type)
      ∀ chain : Chain, processor mode ∈ chain → ∀ depth,
        (processor mode).process (chain.resolver depth) ctx type = do
          let params ← (chain.resolver depth).allOrAny inner (m.params.map fun p => image p.type)
          let result ← (chain.resolver depth).orAny inner (image m.returnType)
          pure (some (functionType m params result))) ∧
    ¬∀ (mode : FunctionalMode) (ctx : Context) (type : HostType) (d i : ClassDecl) (m : MethodDecl)
      (inherited : Bindings) (way : List Step), Inherits mode ctx type d m inherited way i →
      (arguments type).length = d.typeParams.length → m.typeParams = [] →
      let inner : Context := { ctx with inProgress := type :: ctx.inProgress }
      let image := shownOwn d i way (arguments type)
      ∀ chain : Chain, processor mode ∈ chain → ∀ depth table r later,
        ((processor mode).process (chain.resolver depth) ctx type).run table =
          (.ok (some r), later) →
        ∃ params result before after, r.type = .function params result.type ∧
          (chain.resolver depth inner (image m.returnType)).run before =
            (.ok (some result), after) := by
  constructor
  · intro hall
    let use : HostType := .generic "Bottom" [.primitive .string]
    let chain := Chain.standard .structural
    obtain ⟨inherited, huse⟩ := inherits_strayGet (arguments use)
    have hmem : processor .structural ∈ chain := by simp [chain, Chain.standard]
    have hshown : ((processor .structural).process (chain.resolver 100) strayContext use).run
        .empty = (.ok (some { type := .function [] (.primitive .string) }), .empty) := rfl
    have hclaimed := congrArg (fun c => c.run .empty)
      (hall _ _ _ _ _ _ _ _ huse rfl rfl chain hmem 100)
    -- What is claimed comes to a function that returns the variable.
    cases hshown.symm.trans hclaimed
  · intro hall
    let use : HostType := .generic "Bottom" [.primitive .string, .primitive .boolean]
    obtain ⟨inherited, huse⟩ := inherits_crossingApply (arguments use)
    obtain ⟨params, result, before, after, -, hresult⟩ :=
      hall _ _ _ _ _ _ _ _ huse rfl rfl
        [processor .structural] List.mem_cons_self 100 .empty _ _ rfl
    -- The processor declines the type of the result, an array.
    cases hresult

end

end Functional

end TypeBridge
