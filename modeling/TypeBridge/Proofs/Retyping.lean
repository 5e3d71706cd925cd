import Mathlib.Data.List.Forall2
import TypeBridge.Model.Enrich
import TypeBridge.Proofs.Contribution

/-!
# Other types on tagged members

`Universe.Retyped` relates two universes that differ at most in the types that tagged members
declare: the type of a field, the result and the parameters of a method, the parameters of a
constructor, whose number and names stay.  Methods in given places of given classes may be held
fixed.

A tagged member answers its override, so a related member gives the same part of a declaration
(`MemberAnswer.script_of_retyped`), and the documentation of a class does not look at types at all.
-/

namespace TypeBridge

open Functional

/-! ## Related lists -/

section Lists

variable {α β γ : Type} {R : α → β → Prop} {xs : List α} {ys : List β}

theorem map_eq_of_forall₂ {f : α → γ} {g : β → γ} (hfg : ∀ x y, R x y → g y = f x)
    (h : List.Forall₂ R xs ys) : ys.map g = xs.map f := by
  induction h with
  | nil => rfl
  | cons hxy _ ih => rw [List.map_cons, List.map_cons, hfg _ _ hxy, ih]

theorem flatMap_eq_of_forall₂ {f : α → List γ} {g : β → List γ} (hfg : ∀ x y, R x y → g y = f x)
    (h : List.Forall₂ R xs ys) : ys.flatMap g = xs.flatMap f := by
  rw [List.flatMap_def, List.flatMap_def, map_eq_of_forall₂ hfg h]

theorem mapM_eq_of_forall₂ {ε : Type} {f : α → Except ε γ} {g : β → Except ε γ}
    (h : List.Forall₂ R xs ys) (hfg : ∀ x ∈ xs, ∀ y, R x y → g y = f x) :
    ys.mapM g = xs.mapM f := by
  induction h with
  | nil => rfl
  | @cons x y rest _ hxy _ ih =>
    have hrest := ih fun z hz => hfg z (List.mem_cons_of_mem x hz)
    rw [List.mapM_cons, List.mapM_cons, hfg x List.mem_cons_self y hxy, hrest]

theorem rel_find? {p : α → Bool} {q : β → Bool} (hpq : ∀ x y, R x y → q y = p x)
    (h : List.Forall₂ R xs ys) : Option.Rel R (xs.find? p) (ys.find? q) := by
  induction h with
  | nil => exact .none
  | @cons x y _ _ hxy _ ih =>
    rw [List.find?_cons, List.find?_cons, hpq x y hxy]
    cases p x with
    | true => exact .some hxy
    | false => exact ih

theorem rel_dropWhile {p : α → Bool} {q : β → Bool} (hpq : ∀ x y, R x y → q y = p x)
    (h : List.Forall₂ R xs ys) : List.Forall₂ R (xs.dropWhile p) (ys.dropWhile q) := by
  induction h with
  | nil => exact .nil
  | @cons x y _ _ hxy hrest ih =>
    rw [List.dropWhile_cons, List.dropWhile_cons, hpq x y hxy]
    cases p x with
    | true => exact ih
    | false => exact .cons hxy hrest

theorem findIdx?_eq_of_forall₂ {p : α → Bool} {q : β → Bool} (hpq : ∀ x y, R x y → q y = p x)
    (h : List.Forall₂ R xs ys) : ys.findIdx? q = xs.findIdx? p := by
  induction h with
  | nil => rfl
  | cons hxy _ ih => rw [List.findIdx?_cons, List.findIdx?_cons, hpq _ _ hxy, ih]

theorem rel_findSome? {δ : Type} {S : γ → δ → Prop} {f : α → Option γ} {g : β → Option δ}
    (hfg : ∀ x y, R x y → Option.Rel S (f x) (g y)) (h : List.Forall₂ R xs ys) :
    Option.Rel S (xs.findSome? f) (ys.findSome? g) := by
  induction h with
  | nil => exact .none
  | @cons x y _ _ hxy _ ih =>
    have hfirst := hfg x y hxy
    rw [List.findSome?_cons, List.findSome?_cons]
    generalize f x = a?, g y = b? at hfirst ⊢
    cases hfirst with
    | none => exact ih
    | some hab => exact .some hab

end Lists

/-! ## Declarations -/

inductive FieldDecl.Retyped : FieldDecl → FieldDecl → Prop
  | same (f : FieldDecl) : Retyped f f
  | tagged (f : FieldDecl) (type : HostType) (htags : f.tags ≠ []) : Retyped f { f with type }

inductive MethodDecl.Retyped : MethodDecl → MethodDecl → Prop
  | same (m : MethodDecl) : Retyped m m
  | tagged (m : MethodDecl) (params : List ParamDecl) (returnType : HostType) (htags : m.tags ≠ [])
      (hnames : params.map (·.name) = m.params.map (·.name)) :
      Retyped m { m with params, returnType }

inductive ConstructorDecl.Retyped : ConstructorDecl → ConstructorDecl → Prop
  | same (c : ConstructorDecl) : Retyped c c
  | tagged (c : ConstructorDecl) (params : List ParamDecl) (htags : c.tags ≠ [])
      (hnames : params.map (·.name) = c.params.map (·.name)) : Retyped c { c with params }

/-- What `fixed` says of a class are the places of methods that keep their types even where they are
tagged. -/
inductive ClassDecl.Retyped (fixed : ClassDecl → ℕ → Prop) : ClassDecl → ClassDecl → Prop
  | members (d : ClassDecl) {fields : List FieldDecl} {methods : List MethodDecl}
      {constructors : List ConstructorDecl}
      (hfields : List.Forall₂ FieldDecl.Retyped d.fields fields)
      (hmethods : List.Forall₂ MethodDecl.Retyped d.methods methods)
      (hfixed : ∀ place, fixed d place → methods[place]? = d.methods[place]?)
      (hconstructors : List.Forall₂ ConstructorDecl.Retyped d.constructors constructors) :
      Retyped fixed d { d with fields, methods, constructors }

/-- `v` is `u` with other types on some tagged members. -/
structure Universe.Retyped (fixed : ClassDecl → ℕ → Prop) (u v : Universe) : Prop where
  providers : v.providers = u.providers
  classes : List.Forall₂ (ClassDecl.Retyped fixed) u.classes v.classes

variable {fixed : ClassDecl → ℕ → Prop}

theorem ClassDecl.Retyped.refl (d : ClassDecl) : d.Retyped fixed d :=
  .members d (List.forall₂_same.2 fun f _ => .same f) (List.forall₂_same.2 fun m _ => .same m)
    (fun _ _ => rfl) (List.forall₂_same.2 fun c _ => .same c)

namespace ClassDecl.Retyped

variable {d e : ClassDecl}

theorem name (h : d.Retyped fixed e) : e.name = d.name := by
  cases h
  rfl

theorem superTypes (h : d.Retyped fixed e) : e.superTypes = d.superTypes := by
  cases h
  rfl

theorem typeParams (h : d.Retyped fixed e) : e.typeParams = d.typeParams := by
  cases h
  rfl

theorem comments (h : d.Retyped fixed e) : e.comments = d.comments := by
  cases h
  rfl

theorem isEnum (h : d.Retyped fixed e) : e.isEnum = d.isEnum := by
  cases h
  rfl

theorem isEligible (h : d.Retyped fixed e) (mode : FunctionalMode) :
    Functional.isEligible mode e = Functional.isEligible mode d := by
  cases h
  rfl

theorem methods (h : d.Retyped fixed e) : List.Forall₂ MethodDecl.Retyped d.methods e.methods := by
  cases h
  assumption

theorem getElem?_methods (h : d.Retyped fixed e) {place : ℕ} (hplace : fixed d place) :
    e.methods[place]? = d.methods[place]? := by
  cases h with
  | members hfields hmethods hfixed hconstructors => exact hfixed place hplace

end ClassDecl.Retyped

theorem MethodDecl.Retyped.name {m n : MethodDecl} (h : m.Retyped n) : n.name = m.name := by
  cases h <;> rfl

theorem MethodDecl.Retyped.length_params {m n : MethodDecl} (h : m.Retyped n) :
    n.params.length = m.params.length := by
  cases h with
  | same => rfl
  | tagged params returnType htags hnames => simpa using congrArg List.length hnames

/-- Tags are no types. -/
theorem ClassDecl.Retyped.extraTypes {d e : ClassDecl} (h : d.Retyped fixed e) :
    e.extraTypes = d.extraTypes := by
  cases h with
  | members hfields hmethods hfixed hconstructors =>
    have hf := flatMap_eq_of_forall₂ (f := FieldDecl.tags) (g := FieldDecl.tags)
      (fun _ _ hxy => by cases hxy <;> rfl) hfields
    have hm := flatMap_eq_of_forall₂ (f := MethodDecl.tags) (g := MethodDecl.tags)
      (fun _ _ hxy => by cases hxy <;> rfl) hmethods
    have hc := flatMap_eq_of_forall₂ (f := ConstructorDecl.tags) (g := ConstructorDecl.tags)
      (fun _ _ hxy => by cases hxy <;> rfl) hconstructors
    simp only [ClassDecl.extraTypes, hf, hm, hc]

/-! ## Sites -/

inductive Site.Retyped (fixed : ClassDecl → ℕ → Prop) : Site → Site → Prop
  | type {d e : ClassDecl} (h : d.Retyped fixed e) : Retyped fixed (.type d) (.type e)
  | field {d e : ClassDecl} {f g : FieldDecl} (h : d.Retyped fixed e) (hf : f.Retyped g) :
      Retyped fixed (.field d f) (.field e g)
  | method {d e : ClassDecl} {m n : MethodDecl} (h : d.Retyped fixed e) (hm : m.Retyped n) :
      Retyped fixed (.method d m) (.method e n)
  | constructor {d e : ClassDecl} {c c' : ConstructorDecl} (h : d.Retyped fixed e)
      (hc : c.Retyped c') :
      Retyped fixed (.constructor d c) (.constructor e c')

namespace Site.Retyped

variable {s t : Site}

theorem tags (h : s.Retyped fixed t) : t.tags = s.tags := by
  cases h with
  | type h => cases h; rfl
  | field h hf => cases hf <;> rfl
  | method h hm => cases hm <;> rfl
  | constructor h hc => cases hc <;> rfl

theorem ownerName (h : s.Retyped fixed t) : t.owner.name = s.owner.name := by
  cases h with
  | type h => cases h; rfl
  | field h hf => cases h; rfl
  | method h hm => cases h; rfl
  | constructor h hc => cases h; rfl

theorem memberName? (h : s.Retyped fixed t) : t.memberName? = s.memberName? := by
  cases h with
  | type h => rfl
  | field h hf => cases hf <;> rfl
  | method h hm => cases hm <;> rfl
  | constructor h hc => rfl

/-- An override is a matter of the tags and the name of a member. -/
theorem ofSite (h : s.Retyped fixed t) (providers : Providers) :
    Override.ofSite providers t = Override.ofSite providers s := by
  have hname : t.qualifiedName = s.qualifiedName := by
    unfold Site.qualifiedName
    rw [h.memberName?, h.ownerName]
  unfold Override.ofSite
  rw [h.tags, hname]
  cases s.tags with
  | nil => rfl
  | cons tag rest =>
    have htag : Override.ofTag providers t tag = Override.ofTag providers s tag := by
      cases tag with
      | verbatim text extraTypes => simp only [Override.ofTag, hname]
      | methodReference name owner => simp only [Override.ofTag, h.ownerName]
    cases rest with
    | nil => exact congrArg (Except.map some) htag
    | cons => rfl

theorem ownType (h : s.Retyped fixed t) (htags : s.tags = []) (source : HostType) :
    t.ownType source = s.ownType source := by
  cases h with
  | type h => rfl
  | field h hf =>
    cases hf with
    | same => rfl
    | tagged type hne => exact absurd htags hne
  | method h hm =>
    cases hm with
    | same => rfl
    | tagged params returnType hne hnames => exact absurd htags hne
  | constructor h hc => rfl

theorem paramTypes (h : s.Retyped fixed t) (htags : s.tags = []) : t.paramTypes = s.paramTypes := by
  cases h with
  | type h => rfl
  | field h hf => rfl
  | method h hm =>
    cases hm with
    | same => rfl
    | tagged params returnType hne hnames => exact absurd htags hne
  | constructor h hc => rfl

end Site.Retyped

/-- The members to declare are chosen without regard to types. -/
theorem ClassDecl.Retyped.declared {d e : ClassDecl} (h : d.Retyped fixed e) (settings : Settings) :
    List.Forall₂ (Site.Retyped fixed) (Selection.declared settings d)
      (Selection.declared settings e) := by
  have hclass := h
  cases h with
  | members hfields hmethods hfixed hconstructors =>
    refine List.rel_append (List.rel_append ?_ ?_) ?_
    · refine List.rel_map (fun f g hf => .field hclass hf)
        (List.rel_filter (fun f g hf => ?_) hfields)
      cases hf <;> exact Iff.rfl
    · refine List.rel_map (fun m n hm => .method hclass hm)
        (List.rel_filter (fun m n hm => ?_) hmethods)
      cases hm <;> exact Iff.rfl
    · refine List.rel_map (fun c c' hc => .constructor hclass hc)
        (List.rel_filter (fun c c' hc => ?_) hconstructors)
      cases hc <;> exact Iff.rfl

/-! ## Parts of declarations -/

/-- Parameters are named by their names and places. -/
theorem mapIdx_parameterName_congr {params params' : List ParamDecl}
    (h : params'.map (·.name) = params.map (·.name)) :
    params'.mapIdx parameterName = params.mapIdx parameterName := by
  have hsplit (ps : List ParamDecl) : ps.mapIdx parameterName =
      (ps.map (·.name)).mapIdx fun index name => name.getD (TargetType.positionalName index) := by
    refine List.ext_getElem? fun i => ?_
    simp only [List.getElem?_mapIdx, List.getElem?_map, Option.map_map]
    rfl
  rw [hsplit, hsplit, h]

theorem Setup.Members.methodOf_of_retyped {m n : MethodDecl} (h : m.Retyped n)
    (params : List TargetType) (result : TargetType) :
    methodOf n params result = methodOf m params result := by
  cases h with
  | same => rfl
  | tagged ps returnType htags hnames =>
    have hlength : ps.length = m.params.length := by simpa using congrArg List.length hnames
    simp only [methodOf, mapIdx_parameterName_congr hnames, hlength]

theorem Setup.Members.methodOfConstructor?_of_retyped {c c' : ConstructorDecl} (h : c.Retyped c')
    (result : TargetType) : methodOfConstructor? c' result = methodOfConstructor? c result := by
  cases h with
  | same => rfl
  | tagged ps htags hnames =>
    have hlength : ps.length = c.params.length := by simpa using congrArg List.length hnames
    simp only [methodOfConstructor?, hlength]

theorem Setup.Members.ofSite_of_retyped {s t : Site} (h : s.Retyped fixed t) (settings : Settings) :
    ofSite settings t = ofSite settings s := by
  funext own params
  have hfound : (own :: params).flatMap (·.found t) = (own :: params).flatMap (·.found s) := by
    simp only [Resolution.found, h.ownerName, h.memberName?]
  cases h with
  | type h => rfl
  | field h hf =>
    simp only [ofSite, hfound]
    cases hf <;> rfl
  | method h hm => simp only [ofSite, hfound, methodOf_of_retyped hm]
  | constructor h hc => simp only [ofSite, hfound, methodOfConstructor?_of_retyped hc]

theorem MemberAnswer.script_of_retyped {s t : Site} (h : s.Retyped fixed t) (settings : Settings)
    (a : MemberAnswer) : a.script settings t = a.script settings s := by
  unfold MemberAnswer.script
  rw [Setup.Members.ofSite_of_retyped h]

theorem ClassAnswer.script_of_retyped {d e : ClassDecl} (h : d.Retyped fixed e)
    {settings : Settings} {a b : ClassAnswer} (hheader : b.header = a.header)
    (hparents : b.parents = a.parents)
    (hmembers : (b.members.map fun p => p.2.script settings p.1) = a.members.map
      fun p => p.2.script settings p.1) (source : HostType) :
    b.script settings source e = a.script settings source d := by
  have hfound : b.foundByHeader e = a.foundByHeader d := by
    simp only [foundByHeader, hheader, h.name]
  have hsignature : b.signature = a.signature := by
    simp only [signature, hheader]
  cases henum : d.isEnum with
  | true =>
    rw [script_of_isEnum henum, script_of_isEnum (h.isEnum.trans henum)]
    refine congrArg (Script.map · (.symbol source)) (funext fun symbol => ?_)
    simp only [enumeration, hfound, hsignature]
    cases h
    rfl
  | false =>
    have hof : parentsOf e = parentsOf d := by
      funext rs
      simp only [parentsOf, h.name]
    have hscript : b.membersScript settings = a.membersScript settings :=
      congrArg (fun scripts => (Script.list scripts).map Setup.Members.concat) hmembers
    have hparts : Script.zip Prod.mk (b.parentsScript e) (b.membersScript settings) =
        Script.zip Prod.mk (a.parentsScript d) (a.membersScript settings) := by
      rw [parentsScript, parentsScript, hparents, hof, hscript]
    rw [script_of_not_isEnum henum, script_of_not_isEnum (h.isEnum.trans henum), hparts]
    refine congrArg (Script.zip · (.symbol source) _) (funext fun symbol => funext fun parts => ?_)
    simp only [bean, hfound, hsignature, h.typeParams]

/-! ## Documentation -/

theorem Enricher.documentProperty_of_retyped {d e : ClassDecl} (h : d.Retyped fixed e) :
    documentProperty e = documentProperty d := by
  funext p
  cases h with
  | @members fields methods constructors hfields hmethods hfixed hconstructors =>
    have hfind := rel_find? (p := fun f => f.name == p.name) (q := fun f => f.name == p.name)
      (fun f g hf => by cases hf <;> rfl) hfields
    unfold documentProperty
    dsimp only
    generalize d.fields.find? (fun f => f.name == p.name) = f?,
      fields.find? (fun f => f.name == p.name) = g? at hfind ⊢
    cases hfind with
    | none => rfl
    | some hf => cases hf <;> rfl

theorem Enricher.documentMethod_of_retyped {d e : ClassDecl} (h : d.Retyped fixed e) :
    documentMethod e = documentMethod d := by
  funext m
  cases h with
  | @members fields methods constructors hfields hmethods hfixed hconstructors =>
    have hfind := rel_find? (p := fun n => n.name == m.name && n.params.length == m.arity)
      (q := fun n => n.name == m.name && n.params.length == m.arity)
      (fun n n' hn => by rw [hn.length_params]; cases hn <;> rfl) hmethods
    unfold documentMethod
    dsimp only
    generalize d.methods.find? (fun n => n.name == m.name && n.params.length == m.arity) = n?,
      methods.find? (fun n => n.name == m.name && n.params.length == m.arity) = k? at hfind ⊢
    cases hfind with
    | none => rfl
    | some hn => cases hn <;> rfl

end TypeBridge
