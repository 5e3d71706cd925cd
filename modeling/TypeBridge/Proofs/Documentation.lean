import TypeBridge.Proofs.OpenMethod
import TypeBridge.Proofs.Overrides

/-!
# Documentation in the model

Whose comment a declaration has, and whose its members have.  A declaration keeps the type it comes
from, and gets the comment of that class.  A property and a method only keep names and a number of
parameters.  So a property gets the comment of the first field of its name that the class declares,
and a method that of the first method of its name and number of parameters (`Bean.Documented`),
whether the settings show these or not.  That is the member's own comment if no declaration before
its own agrees with it in the key.
-/

namespace TypeBridge

open Functional Resolving

/-! ## The first with a key -/

section

variable {α κ : Type} [BEq κ] [LawfulBEq κ] {key : α → κ} {xs : List α} {x y : α} {k : κ}

/-- An element of a list that no earlier one shares its key with. -/
def FirstBy (key : α → κ) (xs : List α) (x : α) : Prop :=
  ∃ before after, xs = before ++ x :: after ∧ ∀ y ∈ before, key y ≠ key x

theorem find?_eq_some_iff_firstBy : xs.find? (fun y => key y == k) = some x ↔
    key x = k ∧ FirstBy key xs x := by
  rw [List.find?_eq_some_iff_append]
  constructor
  · rintro ⟨hx, before, after, rfl, hbefore⟩
    obtain rfl : key x = k := by simpa using hx
    refine ⟨rfl, before, after, rfl, fun y hy => ?_⟩
    simpa using hbefore y hy
  · rintro ⟨rfl, before, after, rfl, hbefore⟩
    refine ⟨by simp, before, after, rfl, fun y hy => ?_⟩
    simpa using hbefore y hy

/-- There is only one element that is the first with a key. -/
theorem FirstBy.eq (hx : FirstBy key xs x) (hy : FirstBy key xs y) (hkey : key x = key y) :
    x = y := by
  have hfindx := find?_eq_some_iff_firstBy.2 ⟨hkey, hx⟩
  have hfindy := find?_eq_some_iff_firstBy.2 ⟨rfl, hy⟩
  exact Option.some.inj (hfindx.symm.trans hfindy)

theorem exists_firstBy (h : x ∈ xs) : ∃ y, FirstBy key xs y ∧ key y = key x := by
  cases hfind : xs.find? (fun y => key y == key x) with
  | none =>
    have hx := List.find?_eq_none.1 hfind x h
    simp at hx
  | some y =>
    obtain ⟨hkey, hy⟩ := find?_eq_some_iff_firstBy.1 hfind
    exact ⟨y, hy, hkey⟩

end

/-! ## Documented members -/

/-- The raw comment on a declaration.  A constructor has none. -/
def Site.comments : Site → List String
  | .type d => d.comments
  | .field _ f => f.comments
  | .method _ m => m.comments
  | .constructor .. => []

/-- The property of a field, with the comment of the first field of that name. -/
structure Property.Documented (d : ClassDecl) (f : FieldDecl) (p : Property) : Prop where
  name : p.name = f.name
  first : ∃ g, FirstBy FieldDecl.name d.fields g ∧ g.name = f.name ∧
    p.comments = Comment.harvest g.comments
  own : FirstBy FieldDecl.name d.fields f → p.comments = Comment.harvest f.comments

/-- The method of a method or a constructor, with the comment of the first method of that name and
number of parameters.  A constructor goes by the name that is written for it, and has no comment if
no method goes by that name. -/
inductive Method.Documented (d : ClassDecl) : Site → Method → Prop
  | method {m : MethodDecl} {x : Method} (hname : x.name = m.name)
      (harity : x.arity = m.params.length)
      (hfirst : ∃ g, FirstBy overload d.methods g ∧ overload g = overload m ∧
        x.comments = Comment.harvest g.comments)
      (hown : FirstBy overload d.methods m → x.comments = Comment.harvest m.comments) :
      Documented d (.method d m) x
  | constructor {c : ConstructorDecl} {x : Method} (hname : x.name = "constructor")
      (harity : x.arity = c.params.length)
      (hnone : (∀ g ∈ d.methods, overload g ≠ ("constructor", c.params.length)) → x.comments = [])
      (hfirst : ∀ g, FirstBy overload d.methods g → overload g = ("constructor", c.params.length) →
        x.comments = Comment.harvest g.comments) :
      Documented d (.constructor d c) x

/-- A bean with the comment of its class, and a documented member for each enumerated one, in
order. -/
structure Bean.Documented (settings : Settings) (d : ClassDecl) (b : Bean) : Prop where
  comments : b.comments = Comment.harvest d.comments
  properties : List.Forall₂ (Property.Documented d) (Selection.fields settings d) b.properties
  methods : List.Forall₂ (Method.Documented d) ((Selection.methods settings d).map (.method d) ++
    (Selection.constructors settings d).map (.constructor d)) b.methods

/-! ## Enrichment -/

namespace Enricher

variable {u : Universe} {d : ClassDecl} {f : FieldDecl} {m : MethodDecl}

theorem comments_documentProperty {g : FieldDecl} {p : Property}
    (h : FirstBy FieldDecl.name d.fields g) (hname : g.name = p.name) :
    (documentProperty d p).comments = Comment.harvest g.comments := by
  have hfind := find?_eq_some_iff_firstBy.2 ⟨hname, h⟩
  rw [documentProperty, hfind]

theorem name_documentProperty (d : ClassDecl) (p : Property) :
    (documentProperty d p).name = p.name := by
  unfold documentProperty
  split <;> rfl

theorem documented_documentProperty {p : Property} (hf : f ∈ d.fields) (hname : p.name = f.name) :
    (documentProperty d p).Documented d f := by
  refine ⟨(name_documentProperty d p).trans hname, ?_, fun hown =>
    comments_documentProperty hown hname.symm⟩
  obtain ⟨g, hg, hkey⟩ : ∃ g, FirstBy FieldDecl.name d.fields g ∧ g.name = f.name :=
    exists_firstBy hf
  exact ⟨g, hg, hkey, comments_documentProperty hg (hkey.trans hname.symm)⟩

theorem find?_overload (d : ClassDecl) (x : Method) :
    d.methods.find? (fun n => n.name == x.name && n.params.length == x.arity) =
      d.methods.find? fun n => overload n == (x.name, x.arity) :=
  rfl

theorem comments_documentMethod {g : MethodDecl} {x : Method} (h : FirstBy overload d.methods g)
    (hkey : overload g = (x.name, x.arity)) :
    (documentMethod d x).comments = Comment.harvest g.comments := by
  have hfind := find?_eq_some_iff_firstBy.2 ⟨hkey, h⟩
  rw [documentMethod, find?_overload, hfind]

theorem comments_documentMethod_of_none {x : Method}
    (h : ∀ g ∈ d.methods, overload g ≠ (x.name, x.arity)) :
    (documentMethod d x).comments = x.comments := by
  have hfind : d.methods.find? (fun n => overload n == (x.name, x.arity)) = none :=
    List.find?_eq_none.2 fun g hg => by simpa using h g hg
  rw [documentMethod, find?_overload, hfind]

theorem name_documentMethod (d : ClassDecl) (x : Method) : (documentMethod d x).name = x.name := by
  unfold documentMethod
  split <;> rfl

theorem arity_documentMethod (d : ClassDecl) (x : Method) :
    (documentMethod d x).arity = x.arity := by
  unfold documentMethod
  split <;> rfl

/-- The method of a declared method. -/
theorem documented_documentMethod {x : Method} (hm : m ∈ d.methods)
    (hkey : overload m = (x.name, x.arity)) : (documentMethod d x).Documented d (.method d m) := by
  obtain ⟨hname, harity⟩ := Prod.mk.inj hkey
  refine .method ?_ ?_ ?_ fun hown => comments_documentMethod hown hkey
  · rw [name_documentMethod, hname]
  · rw [arity_documentMethod, harity]
  · obtain ⟨g, hg, hfirst⟩ : ∃ g, FirstBy overload d.methods g ∧
        overload g = overload m := exists_firstBy hm
    exact ⟨g, hg, hfirst, comments_documentMethod hg (hfirst.trans hkey)⟩

/-- The method of a constructor, before which there is no comment. -/
theorem documented_documentMethod_constructor {x : Method} {c : ConstructorDecl}
    (hname : x.name = "constructor") (harity : x.arity = c.params.length)
    (hnone : x.comments = []) : (documentMethod d x).Documented d (.constructor d c) := by
  have hkey : (x.name, x.arity) = ("constructor", c.params.length) := by rw [hname, harity]
  refine .constructor ?_ ?_ (fun hforeign => ?_) fun g hg hfirst =>
    comments_documentMethod hg (hfirst.trans hkey.symm)
  · rw [name_documentMethod, hname]
  · rw [arity_documentMethod, harity]
  · rw [comments_documentMethod_of_none (hkey ▸ hforeign), hnone]

end Enricher

/-! ## Beans -/

variable {mode : FunctionalMode} {u : Universe} {settings : Settings}
  {source : HostType} {d : ClassDecl}

namespace MemberAnswer

variable {m : MemberAnswer} {site : Site}

theorem documented_properties (hsite : site ∈ Selection.declared settings d) (table : SymbolTable) :
    List.Forall₂ (fun f p => (Enricher.documentProperty d p).Documented d f) site.shownFields
      ((m.script settings site).value table).properties := by
  rcases Setup.mem_declared hsite with ⟨f, hf, rfl⟩ | ⟨f, -, rfl⟩ | ⟨c, -, rfl⟩
  · exact .cons (Enricher.documented_documentProperty hf rfl) .nil
  · exact .nil
  · exact .nil

theorem documented_methods (hsite : site ∈ Selection.declared settings d)
    (h : memberAnswer mode u source site = .ok m) (table : SymbolTable) :
    List.Forall₂ (fun s x => (Enricher.documentMethod d x).Documented d s) site.shownMethods
      ((m.script settings site).value table).methods := by
  rcases Setup.mem_declared hsite with ⟨f, -, rfl⟩ | ⟨f, hf, rfl⟩ | ⟨c, -, rfl⟩
  · exact .nil
  · exact .cons (Enricher.documented_documentMethod hf rfl) .nil
  · obtain ⟨x, hx, -⟩ := shows_constructor (tags_ne_nil_of_constructor hsite) h table
    have hvalue : ((m.script settings (.constructor d c)).value table).methods =
        (Setup.Members.methodOfConstructor? c (m.own.type table)).toList := rfl
    rw [hvalue, hx]
    unfold Setup.Members.methodOfConstructor? at hx
    split at hx
    · obtain rfl := Option.some.inj hx
      exact .cons (Enricher.documented_documentMethod_constructor rfl rfl rfl) .nil
    · cases hx

end MemberAnswer

theorem ClassAnswer.documented_bean {a : ClassAnswer} {table : SymbolTable}
    {b : Bean} {name : String} (ha : classAnswer mode u settings (.named name) d = .ok a)
    (hclass : u.get? name = some d)
    (hb : ((a.script settings (.named name) d).value table).1 = .bean b) :
    (Enricher.documentBean u b).Documented settings d := by
  obtain ⟨henum, rfl⟩ := eq_of_bean hb
  have hfound : Enricher.classOf? u (.named name) = some d := hclass
  simp only [Enricher.documentBean, hfound]
  refine ⟨rfl, List.forall₂_map_right_iff.2 ?_, List.forall₂_map_right_iff.2 ?_⟩
  · refine forall₂_properties ha henum fun p hp => ?_
    exact MemberAnswer.documented_properties (site_mem ha hp).1 table
  · refine forall₂_methods ha henum fun p hp => ?_
    obtain ⟨hsite, hanswer⟩ := site_mem ha hp
    exact MemberAnswer.documented_methods hsite hanswer table

/-! ## The model -/

theorem source_documentBean (u : Universe) (b : Bean) :
    (Enricher.documentBean u b).source = b.source := by
  unfold Enricher.documentBean
  split <;> rfl

theorem source_documentEnumeration (u : Universe) (e : Enumeration) :
    (Enricher.documentEnumeration u e).source = e.source := by
  unfold Enricher.documentEnumeration
  split <;> rfl

theorem model_standard (settings : Settings) (u : Universe) (roots : List HostType) :
    (Generator.standard settings).model (Budget.covering u roots) u roots =
      (standardRun settings u roots).map fun r => r.model.documented u :=
  Generator.model_eq_map settings (Chain.standard settings.functionalMode)
    [] Selection.declared _ u roots

/-- **Whose comments a model has.**  In every model of the standard pipeline beans and enumerations
have the comments of their classes, and the members of a bean the comments of the first declarations
with their keys, which are their own if no declaration before them has the same key. -/
theorem model_documented (settings : Settings) (u : Universe) (roots : List HostType) {m : Model}
    (h : (Generator.standard settings).model (Budget.covering u roots) u roots = .ok m) :
    (∀ b ∈ m.beans, ∃ d, b.source = .named d.name ∧ u.get? d.name = some d ∧
      b.Documented settings d) ∧
      ∀ e ∈ m.enumerations, ∃ d, e.source = .named d.name ∧ u.get? d.name = some d ∧
        e.comments = Comment.harvest d.comments := by
  rw [model_standard] at h
  obtain ⟨r, hrun, rfl⟩ := except_map_eq_ok.1 h
  constructor
  · intro b hb
    obtain ⟨bare, hbare, rfl⟩ := List.mem_map.1 hb
    obtain ⟨d, a, hsource, hclass, ha, -, hvalue⟩ := exists_answer_of_mem_beans hrun hbare
    rw [hsource] at ha hvalue
    refine ⟨d, ?_, hclass, ClassAnswer.documented_bean ha hclass hvalue⟩
    rw [source_documentBean, hsource]
  · intro e he
    obtain ⟨bare, hbare, rfl⟩ := List.mem_map.1 he
    have hmem : Declaration.enumeration bare ∈ r.model.generated :=
      List.mem_append_right _ (List.mem_map_of_mem hbare)
    obtain ⟨d, -, hsource, hclass, -⟩ := exists_answer_of_mem_generated hrun hmem
    have hnamed : bare.source = .named d.name := hsource
    have hfound : Enricher.classOf? u bare.source = some d := by rw [hnamed]; exact hclass
    refine ⟨d, ?_, hclass, ?_⟩
    · rw [source_documentEnumeration, hnamed]
    · simp only [Enricher.documentEnumeration, hfound]

/-- A table with overloads of one name: one is left out, and two have the same number of
parameters. -/
def lookupTable : ClassDecl where
  name := "Table"
  comments := ["/** Rows by key. */"]
  fields := [{ name := "mode", type := .named "Mode", comments := ["How keys compare."] }]
  methods :=
    [{ name := "find", returnType := .primitive .int, kind := .static, comments := ["Left out."] },
      { name := "find", params := [{ type := .primitive .int }], returnType := .primitive .int,
        comments := ["By number."] },
      { name := "find", params := [{ type := .named "String" }], returnType := .primitive .int,
        comments := ["By name."] }]
  constructors := [{ tags := [.verbatim "new (): Table" []] }]

def lookupUniverse : Universe :=
  .ofClasses [lookupTable, { name := "Mode", kind := .enumeration, comments := ["A comparison."] }]

def lookupSettings : Settings where
  emitOtherMethods := true

theorem model_lookupUniverse :
    ∃ m b e,
      (Generator.standard lookupSettings).model
        (Budget.covering lookupUniverse [.named "Table"]) lookupUniverse [.named "Table"] = .ok m ∧
      m.beans = [b] ∧ m.enumerations = [e] ∧ b.source = .named "Table" ∧
      b.methods.map (·.comments) = [["By number."], ["By number."], []] :=
  ⟨_, _, _, rfl, rfl, rfl, rfl, rfl⟩

theorem model_documented_lookupUniverse :
    ∃ (m : Model) (b : Bean) (e : Enumeration) (d c : ClassDecl),
      (Generator.standard lookupSettings).model
        (Budget.covering lookupUniverse [.named "Table"]) lookupUniverse [.named "Table"] = .ok m ∧
      m.beans = [b] ∧ b.source = .named d.name ∧ b.Documented lookupSettings d ∧
      m.enumerations = [e] ∧ e.source = .named c.name ∧
      e.comments = Comment.harvest c.comments := by
  obtain ⟨m, b, e, hmodel, hbeans, henumerations, -⟩ := model_lookupUniverse
  obtain ⟨hbean, henumeration⟩ :=
    model_documented lookupSettings lookupUniverse [.named "Table"] hmodel
  obtain ⟨d, hd, -, hdocumented⟩ := hbean b (hbeans ▸ List.mem_singleton_self b)
  obtain ⟨c, hc, -, hcomments⟩ := henumeration e (henumerations ▸ List.mem_singleton_self e)
  exact ⟨m, b, e, d, c, hmodel, hbeans, hd, hdocumented, henumerations, hc, hcomments⟩

/-- The second of two overloads with the same number of parameters has the comment of the first. -/
theorem not_all_comments_own :
    ¬∀ (settings : Settings) (u : Universe) (roots : List HostType) (m : Model),
      (Generator.standard settings).model (Budget.covering u roots) u roots = .ok m →
      ∀ b ∈ m.beans, ∀ d, b.source = .named d.name → u.get? d.name = some d →
        List.Forall₂ (fun s x => x.comments = Comment.harvest (Site.comments s))
          ((Selection.methods settings d).map (.method d) ++
            (Selection.constructors settings d).map (.constructor d))
          b.methods := by
  intro hall
  obtain ⟨m, b, e, hmodel, hbeans, -, hsource, hmethods⟩ := model_lookupUniverse
  have hclass : lookupUniverse.get? lookupTable.name = some lookupTable := rfl
  have hown := hall lookupSettings lookupUniverse [.named "Table"] m hmodel b
    (hbeans ▸ List.mem_singleton_self b) lookupTable hsource hclass
  have hcomments : ((Selection.methods lookupSettings lookupTable).map (Site.method lookupTable) ++
      (Selection.constructors lookupSettings lookupTable).map (Site.constructor lookupTable)).map
        (fun s => Comment.harvest (Site.comments s)) = b.methods.map (·.comments) := by
    rw [← List.forall₂_eq_eq_eq, List.forall₂_map_left_iff, List.forall₂_map_right_iff]
    exact hown.imp fun s x h => h.symm
  rw [hmethods] at hcomments
  revert hcomments
  decide

end TypeBridge
