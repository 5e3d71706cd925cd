import TypeBridge.Proofs.Turns

/-!
# Where members come from

Runs of any generator with the standard enrichment, whatever processors, claimants and selection are
plugged in.  Every member of a bean is what a selected site brings: it has the name, the marks and
the parameters that are declared there, and the types that the chain has for it at that site
(`Setup.Brings`).

`Setup.brings_of_addMember` is one site, and the members of a declaration follow by induction on the
sites.  A bean of a run is what `declare` has made in one of its turns, and documentation changes
comments only, so the same holds of every bean of a model (`Generator.declares_of_model`).
-/

namespace TypeBridge

open Functional Resolving

theorem exists_mem_of_forall₂ {α β : Type} {R : α → β → Prop} {xs : List α} {ys : List β}
    (h : List.Forall₂ R xs ys) {y : β} (hy : y ∈ ys) : ∃ x ∈ xs, R x y := by
  induction h with
  | nil => cases hy
  | cons hxy _ ih =>
    rcases List.mem_cons.1 hy with rfl | hy
    · exact ⟨_, List.mem_cons_self, hxy⟩
    · obtain ⟨x, hx, hxy⟩ := ih hy
      exact ⟨x, List.mem_cons_of_mem _ hx, hxy⟩

namespace Setup

variable {s : Setup} {source : HostType} {site : Site} {table last : SymbolTable}

/-! ## One site -/

/-- A type that the chain has for a host type at a site. -/
def ResolvesTo (s : Setup) (site : Site) (type : HostType) (target : TargetType) : Prop :=
  ∃ table last found, (s.resolveAt site type).run table = (.ok (target, found), last)

/-- What a site brings into the declaration of `source`, with any comment.  A method whose result is
override text has no parameters, and a constructor is a member if it has such a text. -/
inductive Brings (s : Setup) (source : HostType) : Site → Members → Prop
  | type {d : ClassDecl} : Brings s source (.type d) {}
  | field {d : ClassDecl} {f : FieldDecl} {type : TargetType} {comments : List String}
      {discovered : List Entry}
      (htype : s.ResolvesTo (.field d f) f.type type) :
      Brings s source (.field d f)
        { properties := [{ Members.propertyOf s.settings f type with comments }], discovered }
  | method {d : ClassDecl} {m : MethodDecl} {params : List TargetType} {result : TargetType}
      {comments : List String}
      {discovered : List Entry} (hresult : s.ResolvesTo (.method d m) m.returnType result)
      (hwritten : result.isVerbatim = false)
      (hparams : List.Forall₂ (fun p t => s.ResolvesTo (.method d m) p.type t) m.params params) :
      Brings s source (.method d m)
        { methods := [{ Members.methodOf m params result with comments }], discovered }
  | replaced {d : ClassDecl} {m : MethodDecl} {result : TargetType} {comments : List String}
      {discovered : List Entry}
      (hresult : s.ResolvesTo (.method d m) m.returnType result)
      (hverbatim : result.isVerbatim = true) :
      Brings s source (.method d m)
        { methods := [{ Members.methodOf m [] result with comments }], discovered }
  | constructor {d : ClassDecl} {c : ConstructorDecl} {result : TargetType} {comments : List String}
      {discovered : List Entry} (hresult : s.ResolvesTo (.constructor d c) source result)
      (hverbatim : result.isVerbatim = true) :
      Brings s source (.constructor d c)
        { methods := [{ name := "constructor", result, arity := c.params.length, comments }],
          discovered }
  | silent {d : ClassDecl} {c : ConstructorDecl} {result : TargetType} {discovered : List Entry}
      (hresult : s.ResolvesTo (.constructor d c) source result)
      (hsilent : result.isVerbatim = false) :
      Brings s source (.constructor d c) { discovered }

theorem of_resolveParams {index : Nat} {params : List ParamDecl}
    {named : List (String × TargetType)} {found : List Entry}
    (h : (s.resolveParams site index params).run table = (.ok (named, found), last)) :
    ∃ types, List.Forall₂ (fun p t => s.ResolvesTo site p.type t) params types ∧
      named = (params.mapIdx fun i p => parameterName (index + i) p).zip types := by
  induction params generalizing index table last named found with
  | nil =>
    cases (eq_of_run_pure h).1
    exact ⟨[], .nil, rfl⟩
  | cons p rest ih =>
    obtain ⟨⟨type, _⟩, later, hfirst, h⟩ := exists_of_run_bind h
    obtain ⟨⟨others, _⟩, _, hrest, h⟩ := exists_of_run_bind h
    cases (eq_of_run_pure h).1
    obtain ⟨types, htypes, rfl⟩ := ih hrest
    refine ⟨type :: types, .cons ⟨_, _, _, hfirst⟩ htypes, ?_⟩
    simp only [List.mapIdx_cons, List.zip_cons_cons, Nat.add_zero, Nat.add_assoc, Nat.add_comm 1]
    rfl

theorem brings_of_buildMethod {d : ClassDecl} {m : MethodDecl} {x : Method} {found : List Entry}
    (h : (s.buildMethod (.method d m) m).run table = (.ok (x, found), last)) :
    s.Brings source (.method d m) { methods := [x], discovered := found } := by
  rw [buildMethod_eq] at h
  obtain ⟨⟨result, byResult⟩, later, hresult, h⟩ := exists_of_run_bind h
  obtain ⟨⟨params, _⟩, _, hparams, h⟩ := exists_of_run_bind h
  cases (eq_of_run_pure h).1
  cases hverbatim : result.isVerbatim with
  | true =>
    simp only [hverbatim, ↓reduceIte] at hparams
    cases (eq_of_run_pure hparams).1
    have hbrings : s.Brings source (.method d m)
        { methods := [Members.methodOf m [] result], discovered := byResult ++ [] } :=
      .replaced ⟨_, _, _, hresult⟩ hverbatim
    simpa only [Members.methodOf, List.zip_nil_right] using hbrings
  | false =>
    simp only [hverbatim, Bool.false_eq_true, ↓reduceIte] at hparams
    obtain ⟨types, htypes, rfl⟩ := of_resolveParams hparams
    simp only [Nat.zero_add]
    exact .method ⟨_, _, _, hresult⟩ hverbatim htypes

theorem brings_of_buildConstructor {d : ClassDecl} {c : ConstructorDecl} {x : Option Method}
    {found : List Entry}
    (h : (s.buildConstructor (.constructor d c) source c).run table = (.ok (x, found), last)) :
    s.Brings source (.constructor d c) { methods := x.toList, discovered := found } := by
  rw [buildConstructor_eq] at h
  obtain ⟨⟨result, _⟩, _, hresult, h⟩ := exists_of_run_bind h
  cases (eq_of_run_pure h).1
  unfold Members.methodOfConstructor?
  cases hverbatim : result.isVerbatim with
  | true => exact .constructor ⟨_, _, _, hresult⟩ hverbatim
  | false => exact .silent ⟨_, _, _, hresult⟩ hverbatim

/-- A site adds what it brings to the members so far. -/
theorem brings_of_addMember {ms after : Members}
    (h : (s.addMember source ms site).run table = (.ok after, last)) :
    ∃ part, s.Brings source site part ∧ after = ms.append part := by
  cases site with
  | type d =>
    cases (eq_of_run_pure h).1
    exact ⟨{}, .type, by simp [Members.append]⟩
  | field d f =>
    obtain ⟨⟨p, found⟩, _, hbuild, h⟩ := exists_of_run_bind h
    obtain ⟨⟨type, _⟩, _, htype, hbuild⟩ := exists_of_run_bind hbuild
    cases (eq_of_run_pure hbuild).1
    cases (eq_of_run_pure h).1
    have hbrings : s.Brings source (.field d f)
        { properties := [Members.propertyOf s.settings f type], discovered := found } :=
          .field ⟨_, _, _, htype⟩
    exact ⟨_, hbrings, by simp [Members.append, Members.propertyOf]⟩
  | method d m =>
    obtain ⟨⟨x, found⟩, _, hbuild, h⟩ := exists_of_run_bind h
    cases (eq_of_run_pure h).1
    exact ⟨_, brings_of_buildMethod hbuild, by simp [Members.append]⟩
  | constructor d c =>
    obtain ⟨⟨x, found⟩, _, hbuild, h⟩ := exists_of_run_bind h
    cases (eq_of_run_pure h).1
    exact ⟨_, brings_of_buildConstructor hbuild, by simp [Members.append]⟩

/-! ## Declarations -/

theorem brings_of_foldlM {sites : List Site} {ms after : Members}
    (h : (sites.foldlM (s.addMember source) ms).run table = (.ok after, last)) :
    ∃ parts, List.Forall₂ (s.Brings source) sites parts ∧
      after = parts.foldl Members.append ms := by
  induction sites generalizing ms table with
  | nil =>
    cases (eq_of_run_pure h).1
    exact ⟨[], .nil, rfl⟩
  | cons site rest ih =>
    rw [List.foldlM_cons] at h
    obtain ⟨next, _, hsite, h⟩ := exists_of_run_bind h
    obtain ⟨part, hpart, rfl⟩ := brings_of_addMember hsite
    obtain ⟨parts, hparts, rfl⟩ := ih h
    exact ⟨part :: parts, .cons hpart hparts, rfl⟩

/-- The members of a bean are what the selected sites of a class bring, in order. -/
def MadeFrom (s : Setup) (d : ClassDecl) (b : Bean) : Prop :=
  ∃ parts, List.Forall₂ (s.Brings b.source) (s.selection s.settings d) parts ∧
    b.properties = parts.flatMap (·.properties) ∧ b.methods = parts.flatMap (·.methods)

theorem madeFrom_of_declare {d : ClassDecl} {b : Bean} {found : List Entry}
    (h : (s.declare source d).run table = (.ok (.bean b, found), last)) : s.MadeFrom d b := by
  unfold declare at h
  obtain ⟨signature, _, -, h⟩ := exists_of_run_bind h
  obtain ⟨symbol, _, -, h⟩ := exists_of_run_bind h
  dsimp only at h
  split at h
  · cases (eq_of_run_pure h).1
  · obtain ⟨parents, _, -, h⟩ := exists_of_run_bind h
    obtain ⟨members, _, hmembers, h⟩ := exists_of_run_bind h
    cases (eq_of_run_pure h).1
    obtain ⟨parts, hparts, rfl⟩ := brings_of_foldlM hmembers
    refine ⟨parts, hparts, ?_⟩
    simp [foldl_append, Members.append, Members.concat]

/-- A bean of a class of the universe, with the members of that class. -/
def Declares (s : Setup) (b : Bean) : Prop :=
  ∃ d, b.source = .named d.name ∧ s.host.get? d.name = some d ∧ s.MadeFrom d b

theorem named_of_declaredClass? {t : TargetType} {d : ClassDecl}
    (h : s.declaredClass? source t = some d) :
    source = .named d.name ∧ s.host.get? d.name = some d := by
  unfold declaredClass? at h
  split at h
  · next name =>
    split at h
    · rw [Universe.get?_name h]
      exact ⟨rfl, h⟩
    · cases h
  · cases h

theorem declares_of_contribute {e : Entry} {c : Contribution}
    (h : (s.contribute e).run table = (.ok c, last)) {b : Bean}
    (hb : c.declaration = some (.bean b)) : s.Declares b := by
  unfold contribute at h
  obtain ⟨claim, _, -, h⟩ := exists_of_run_bind h
  cases claim with
  | some claim =>
    cases (eq_of_run_pure h).1
    cases hb
  | none =>
    dsimp only at h
    unfold resolveEntry at h
    obtain ⟨resolution, _, -, h⟩ := exists_of_run_bind h
    cases resolution with
    | none =>
      cases (eq_of_run_pure h).1
      cases hb
    | some r =>
      dsimp only at h
      split at h
      · cases (eq_of_run_pure h).1
        cases hb
      · next d hclass =>
        obtain ⟨⟨x, found⟩, _, hdeclare, h⟩ := exists_of_run_bind h
        cases (eq_of_run_pure h).1
        cases hb
        obtain ⟨hnamed, hget⟩ := named_of_declaredClass? hclass
        exact ⟨d, (source_of_declare hdeclare).trans hnamed, hget, madeFrom_of_declare hdeclare⟩

end Setup

/-! ## Runs -/

theorem Run.During.declares {s : Setup} {roots : List HostType} {r : Run} (h : During s roots r) :
    ∀ b ∈ r.model.beans, s.Declares b := by
  suffices ∀ b, Declaration.bean b ∈ r.model.generated → s.Declares b from fun b hb =>
    this b (List.mem_append_left _ (List.mem_map_of_mem hb))
  induction h with
  | start => exact fun b hb => nomatch hb
  | step _ hnext hstep ih =>
    intro b hb
    obtain ⟨c, symbols, hwork, habsorb⟩ := step_eq_ok hstep
    rcases (absorbed_of_absorb habsorb).generated _ hb with hold | hnew
    · rw [(of_next? hnext).1] at hold
      exact ih b hold
    · exact Setup.declares_of_contribute hwork hnew

/-! ## Models -/

namespace Enricher

theorem exists_documentProperty (d : ClassDecl) (p : Property) :
    ∃ comments, documentProperty d p = { p with comments } := by
  unfold documentProperty
  split
  · exact ⟨_, rfl⟩
  · exact ⟨p.comments, rfl⟩

theorem exists_documentMethod (d : ClassDecl) (m : Method) :
    ∃ comments, documentMethod d m = { m with comments } := by
  unfold documentMethod
  split
  · exact ⟨_, rfl⟩
  · exact ⟨m.comments, rfl⟩

end Enricher

namespace Setup

variable {s : Setup} {source : HostType} {site : Site} {b : Bean}

/-- The members of a part with the comments that a class has for them. -/
def Members.documented (d : ClassDecl) (ms : Members) : Members :=
  { ms with
    properties := ms.properties.map (Enricher.documentProperty d)
    methods := ms.methods.map (Enricher.documentMethod d) }

theorem Brings.documented {part : Members} (h : s.Brings source site part) (d : ClassDecl) :
    s.Brings source site (part.documented d) := by
  cases h with
  | type => exact .type
  | field htype =>
    obtain ⟨comments, hp⟩ := Enricher.exists_documentProperty d _
    rw [Members.documented, List.map_singleton, hp]
    exact .field htype
  | method hresult hwritten hparams =>
    obtain ⟨comments, hm⟩ := Enricher.exists_documentMethod d _
    rw [Members.documented, List.map_singleton, hm]
    exact .method hresult hwritten hparams
  | replaced hresult hverbatim =>
    obtain ⟨comments, hm⟩ := Enricher.exists_documentMethod d _
    rw [Members.documented, List.map_singleton, hm]
    exact .replaced hresult hverbatim
  | constructor hresult hverbatim =>
    obtain ⟨comments, hm⟩ := Enricher.exists_documentMethod d _
    rw [Members.documented, List.map_singleton, hm]
    exact .constructor hresult hverbatim
  | silent hresult hsilent => exact .silent hresult hsilent

theorem Declares.documented (h : s.Declares b) (u : Universe) :
    s.Declares (Enricher.documentBean u b) := by
  unfold Enricher.documentBean
  split
  · next c _ =>
    obtain ⟨d, hsource, hget, parts, hparts, hproperties, hmethods⟩ := h
    refine ⟨d, hsource, hget, parts.map (Members.documented c), ?_, ?_, ?_⟩
    · exact List.forall₂_map_right_iff.2 (hparts.imp fun site part hpart => hpart.documented c)
    · simp only [hproperties, List.map_flatMap, List.flatMap_map, Members.documented]
    · simp only [hmethods, List.map_flatMap, List.flatMap_map, Members.documented]
  · exact h

end Setup

namespace Generator

variable {settings : Settings} {chain : Chain} {claimants : List Claimant} {selection : Selection}
variable {budget : Budget} {u : Universe} {roots : List HostType} {m : Model}

/-- **Every member is that of a selected site**, whatever is plugged in. -/
theorem declares_of_model
    (h : ({ settings, chain, claimants, selection } : Generator).model budget u roots = .ok m) :
    ∀ b ∈ m.beans,
      (({ settings, chain, claimants, selection } : Generator).setup budget.depth u).Declares
        b := by
  rw [model_eq_map] at h
  obtain ⟨r, hrun, rfl⟩ := except_map_eq_ok.1 h
  intro b hb
  obtain ⟨bare, hbare, rfl⟩ := List.mem_map.1 hb
  exact ((Run.During.of_run hrun).1.declares bare hbare).documented u

end Generator

end TypeBridge
