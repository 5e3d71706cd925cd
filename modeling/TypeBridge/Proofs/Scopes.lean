import TypeBridge.Proofs.Decoding
import TypeBridge.Proofs.Overrides
import TypeBridge.Proofs.References

/-!
# Type variables in scope

Where the type variables of a declaration come from.  A variable is carried along from the type that
a class writes, or it enters where a functional interface is opened: the signature of the open
method is written in the scope of another class, and the arguments of the use are substituted into
it, but only where a parameter, the result or an argument on the way up the hierarchy is exactly a
variable.  `variable_outline` tells the two apart, with one `LeavesOpen` for all that a substitution
leaves behind.

So every variable in a bean is a type parameter of its class, apart from those of the method it
stands in, those that a use leaves open inside its own function type, and those that a class holds
unbound (`type_variables_in_scope`).  All three are met (`not_all_type_variables_in_scope`), the
last only in universes that are not read from a text.
-/

namespace TypeBridge

open Functional

variable {settings : Settings} {u : Universe} {table : SymbolTable} {d : ClassDecl}
variable {x : String} {fs : List TargetType}

/-! ## Variables where they are written -/

theorem HostType.Expressible.typeVar_notMem {t : HostType} (h : t.Expressible) :
    .typeVar x ∉ t.subterms := by
  induction h with
  | primitive p => simp [subterms]
  | named _ _ => simp [subterms]
  | generic _ _ _ ih => simpa [subterms, subtermsAll_eq_flatMap] using ih
  | array _ ih => simpa [subterms] using ih

/-- The variables of an expressible type are those it is bound with. -/
theorem ScopedType.mem_scope_of_bind {s : ScopedType} (h : s.type.Expressible)
    (hx : .typeVar x ∈ s.bind.type.subterms) : x ∈ s.scope := by
  obtain ⟨part, hpart, heq⟩ := List.mem_map.1 (HostType.subterms_bind s.scope s.type ▸ hx)
  cases part with
  | named n =>
    unfold HostType.bind at heq
    split at heq
    · next hn =>
      cases heq
      exact hn
    · cases heq
  | typeVar n =>
    cases heq
    exact absurd hpart h.typeVar_notMem
  | _ => cases heq

namespace ClassDecl

/-- The types that a class writes in its super types, its fields and the signatures of its
methods. -/
def signatureTypes (d : ClassDecl) : List ScopedType :=
  d.superTypes.map (⟨d.typeParams, ·⟩) ++ d.fields.map (⟨d.typeParams, ·.type⟩) ++
    d.methods.flatMap fun m => m.signature.map (⟨d.typeParams ++ m.typeParams, ·⟩)

/-- A class writes a variable where it has no type parameter of that name in scope. -/
def Stray (d : ClassDecl) (x : String) : Prop :=
  ∃ s ∈ d.signatureTypes, .typeVar x ∈ s.type.subterms ∧ x ∉ s.scope

theorem mem_scope_or_stray {s : ScopedType} (hs : s ∈ d.signatureTypes)
    (hx : .typeVar x ∈ s.type.subterms) : x ∈ s.scope ∨ d.Stray x := by
  by_cases hscope : x ∈ s.scope
  · exact .inl hscope
  · exact .inr ⟨s, hs, hx, hscope⟩

theorem mem_signatureTypes_of_superTypes {t : HostType} (h : t ∈ d.superTypes) :
    ⟨d.typeParams, t⟩ ∈ d.signatureTypes := by
  simp [signatureTypes, h]

theorem mem_signatureTypes_of_fields {f : FieldDecl} (h : f ∈ d.fields) :
    ⟨d.typeParams, f.type⟩ ∈ d.signatureTypes := by
  have hfield : ScopedType.mk d.typeParams f.type ∈ d.fields.map (⟨d.typeParams, ·.type⟩) :=
    List.mem_map.2 ⟨f, h, rfl⟩
  exact List.mem_append_left _ (List.mem_append_right _ hfield)

theorem mem_signatureTypes_of_methods {m : MethodDecl} (h : m ∈ d.methods) {t : HostType}
    (ht : t ∈ m.signature) : ⟨d.typeParams ++ m.typeParams, t⟩ ∈ d.signatureTypes :=
  List.mem_append_right _ (List.mem_flatMap.2 ⟨m, h, List.mem_map.2 ⟨t, ht, rfl⟩⟩)

theorem signatureTypes_bind (d : ClassDecl) :
    d.bind.signatureTypes = d.signatureTypes.map (·.bind) := by
  simp [signatureTypes, ClassDecl.bind, List.flatMap_map, List.map_flatMap, FieldDecl.bind,
    MethodDecl.bind, MethodDecl.signature, ParamDecl.bind, ScopedType.bind, Function.comp_def]

theorem Expressible.signatureTypes (h : d.Expressible) :
    ∀ s ∈ d.signatureTypes, s.type.Expressible := by
  intro s hs
  rcases List.mem_append.1 hs with hs | hs
  · rcases List.mem_append.1 hs with hs | hs
    · obtain ⟨t, ht, rfl⟩ := List.mem_map.1 hs
      exact h.superTypes t ht
    · obtain ⟨f, hf, rfl⟩ := List.mem_map.1 hs
      exact h.fields f hf
  · obtain ⟨m, hm, hs⟩ := List.mem_flatMap.1 hs
    obtain ⟨t, ht, rfl⟩ := List.mem_map.1 hs
    exact h.methods m hm t ht

theorem Expressible.not_stray_bind (h : d.Expressible) : ¬d.bind.Stray x := by
  rintro ⟨s, hs, hx, hscope⟩
  rw [signatureTypes_bind] at hs
  obtain ⟨written, hwritten, rfl⟩ := List.mem_map.1 hs
  exact hscope (ScopedType.mem_scope_of_bind (s := written) (h.signatureTypes written hwritten) hx)

end ClassDecl

/-- In a universe that is read every variable is declared where it is written. -/
theorem Universe.not_stray_of_ofJson {json : String} (hu : ofJson json = .ok u)
    (hd : d ∈ u.classes) : ¬d.Stray x := by
  obtain ⟨ds, hds, rfl⟩ := ofJson_eq_ok_iff.1 hu
  obtain ⟨e, he, rfl⟩ := (mem_classes_foldl_insert hd).resolve_left List.not_mem_nil
  exact (expressible_of_written hds e he).not_stray_bind

/-! ## Uses of functional interfaces -/

/-- The variable is a type parameter of the method `m`, or of a class in the hierarchy of `d`, or
such a class writes it where it is not declared. -/
def Belongs (u : Universe) (d : ClassDecl) (m : MethodDecl) (x : String) : Prop :=
  x ∈ m.typeParams ∨ ∃ e ∈ hierarchy u d, x ∈ e.1.typeParams ∨ e.1.Stray x

/-- A use of a functional interface leaves a variable open: it still stands in the signature of the
open method when the arguments of the use are substituted, and it belongs to that method or to a
class in the hierarchy of the interface. -/
inductive LeavesOpen (mode : FunctionalMode) (u : Universe) (use : HostType) (x : String) : Prop
  | intro {d : ClassDecl} {m : MethodDecl} {inherited : Bindings} {t : HostType}
      (heligible : eligible? mode u use = some d)
      (hopen : singleOpenMethod u d = some (m, inherited)) (ht : t ∈ m.signature)
      (hx : .typeVar x ∈
        (substitute inherited (.ofArguments d.typeParams (arguments use)) t).subterms)
      (hbelongs : Belongs u d m x) : LeavesOpen mode u use x

theorem subterms_subset_of_mem_arguments {t a : HostType} (h : a ∈ arguments t) :
    a.subterms ⊆ t.subterms := by
  obtain ⟨r, args, rfl, hargs⟩ := mem_args_of_mem_arguments h
  exact HostType.subterms_trans (HostType.mem_subterms_of_mem_args hargs)

theorem belongs_of_signature {m : MethodDecl} {inherited : Bindings}
    (hopen : singleOpenMethod u d = some (m, inherited)) {t : HostType} (ht : t ∈ m.signature)
    (hx : .typeVar x ∈ t.subterms) : Belongs u d m x := by
  obtain ⟨e, he, hm, -⟩ := singleOpenMethod_mem hopen
  rcases ClassDecl.mem_scope_or_stray (ClassDecl.mem_signatureTypes_of_methods hm ht) hx with
    hscope | hstray
  · rcases List.mem_append.1 hscope with hclass | hmethod
    · exact .inr ⟨e, he, .inl hclass⟩
    · exact .inl hmethod
  · exact .inr ⟨e, he, .inr hstray⟩

/-- After the substitution a variable is one of the use or belongs to the method or its
hierarchy. -/
theorem variable_substitute {m : MethodDecl} {inherited : Bindings} {use : HostType}
    (hopen : singleOpenMethod u d = some (m, inherited)) {t : HostType} (ht : t ∈ m.signature)
    (hx : .typeVar x ∈
      (substitute inherited (.ofArguments d.typeParams (arguments use)) t).subterms) :
    .typeVar x ∈ use.subterms ∨ Belongs u d m x := by
  refine substitute_of_forall (P := fun t => .typeVar x ∈ t.subterms →
    .typeVar x ∈ use.subterms ∨ Belongs u d m x) hopen ?_ ?_ ?_ hx
  · -- an argument on the way up is written by the class whose super type it is in
    intro e he s hs a ha hx
    have hwritten := subterms_subset_of_mem_arguments ha hx
    exact .inr
      (.inr ⟨e, he,
        ClassDecl.mem_scope_or_stray (ClassDecl.mem_signatureTypes_of_superTypes hs) hwritten⟩)
  · intro a ha hx
    exact .inl (subterms_subset_of_mem_arguments ha hx)
  · intro hx
    exact .inr (belongs_of_signature hopen ht hx)

/-- Among the function types `fs` is that of a use which leaves the variable open. -/
def LeftOpen (settings : Settings) (u : Universe) (table : SymbolTable) (x : String)
    (fs : List TargetType) : Prop :=
  ∃ f ∈ fs, ∃ use inProgress, LeavesOpen settings.functionalMode u use x ∧
    ChainAnswers settings.functionalMode { host := u, settings, inProgress } table use f

theorem LeftOpen.mono {outer : List TargetType} (h : LeftOpen settings u table x fs)
    (hfs : fs ⊆ outer) : LeftOpen settings u table x outer := by
  obtain ⟨f, hf, huse⟩ := h
  exact ⟨f, hfs hf, huse⟩

theorem Functional.Opened.exists_signature {o : Opened} {t : HostType}
    (ht : t ∈ o.paramTypes ++ [o.resultType]) :
    ∃ s ∈ o.method.signature, t = substitute o.inherited o.use s := by
  rcases List.mem_append.1 ht with ht | ht
  · obtain ⟨p, hp, rfl⟩ := List.mem_map.1 ht
    exact ⟨p.type, List.mem_cons_of_mem _ (List.mem_map_of_mem hp), rfl⟩
  · obtain rfl := List.mem_singleton.1 ht
    exact ⟨o.method.returnType, List.mem_cons_self, rfl⟩

theorem subterms_subset_of_mem_parts {t part : HostType} (h : part ∈ Structural.parts u t) :
    part.subterms ⊆ t.subterms := by
  rcases Structural.mem_parts h with rfl | ⟨raw, args, rfl, hargs⟩
  · exact List.subset_cons_self ..
  · exact HostType.subterms_trans (HostType.mem_subterms_of_mem_args hargs)

/-- A variable of an outline is one of the type, or a use around it leaves it open.  What comes in
with the arguments of a use goes on to the type that the use stands in. -/
theorem variable_outline {inProgress : List HostType} {type : HostType}
    (hknown : (outline settings.functionalMode u inProgress type).dependents ⊆ table.types)
    (h : (TargetType.typeVar x).Part
      ((outline settings.functionalMode u inProgress type).realize table) fs) :
    .typeVar x ∈ type.subterms ∨ LeftOpen settings u table x fs := by
  induction inProgress, type using @outlineInduction settings.functionalMode u generalizing fs with
  | step inProgress type ih =>
    have hnested : ∀ c ∈ calls settings.functionalMode u inProgress type,
        (outline settings.functionalMode u c.1 c.2).dependents ⊆ table.types := fun c hc =>
      List.Subset.trans (List.map_subset _ (classes_subset_of_call hc)) hknown
    cases ho : opened? settings.functionalMode u inProgress type with
    | some o =>
      rw [outline_of_opened ho] at h
      obtain ⟨t, ht, inner, hinner, rfl⟩ := part_ofOpened rfl h
      have hcall := mem_calls_of_opened ho ht
      rcases ih _ hcall (hnested _ hcall) hinner with hx | hopen
      · obtain ⟨d, hd, -, hm, huse⟩ := opened?_eq_some ho
        obtain ⟨s, hs, rfl⟩ := Opened.exists_signature ht
        rw [huse] at hx
        rcases variable_substitute hm hs hx with huse | hbelongs
        · exact .inl huse
        · refine .inr ⟨_, List.mem_append_right _ (List.mem_singleton_self _), type, inProgress,
            .intro hd hm hs hx hbelongs, ?_⟩
          rw [← outline_of_opened ho]
          exact chainAnswers_outline rfl hknown
      · exact .inr (hopen.mono (List.subset_append_left ..))
    | none =>
      rw [outline_of_not_opened ho] at h
      rcases variable_structural h with rfl | ⟨t, ht, hpart⟩
      · exact .inl (HostType.self_mem_subterms _)
      · have hcall := mem_calls_of_part ho ht
        exact (ih _ hcall (hnested _ hcall) hpart).imp_left (subterms_subset_of_mem_parts ht ·)

/-! ## Variables of a declaration -/

/-- Every variable of a type, at any depth, is in scope, unless the class writes it where it is not
declared or a use leaves it open inside its function type. -/
def TargetType.ScopedIn (settings : Settings) (u : Universe) (table : SymbolTable) (d : ClassDecl)
    (scope : List String) (t : TargetType) : Prop :=
  ∀ x fs, (typeVar x).Part t fs → x ∈ scope ∨ d.Stray x ∨ LeftOpen settings u table x fs

/-- The type parameters in scope in the types of a member. -/
def Site.scope : Site → List String
  | .method d m => d.typeParams ++ m.typeParams
  | site => site.owner.typeParams

/-- A bean of a class with its type parameters, in whose types the variables are in scope: in the
types of a method also the type parameters of the method that it shows. -/
structure Bean.Scoped (settings : Settings) (u : Universe) (table : SymbolTable) (d : ClassDecl)
    (b : Bean) : Prop where
  typeParams : b.typeParams = d.typeParams
  parents : ∀ t ∈ b.parents, t.ScopedIn settings u table d b.typeParams
  properties : ∀ p ∈ b.properties, p.type.ScopedIn settings u table d b.typeParams
  methods : List.Forall₂
    (fun (site : Site) (m : Method) => ∀ t ∈ m.result :: m.params.map (·.2),
      t.ScopedIn settings u table d site.scope)
    ((Selection.methods settings d).map (.method d) ++
      (Selection.constructors settings d).map (.constructor d))
    b.methods

theorem scopedIn_outline {s : ScopedType} (hs : s ∈ d.signatureTypes)
    (hknown : (outline settings.functionalMode u [] s.type).dependents ⊆ table.types) :
    ((outline settings.functionalMode u [] s.type).realize table).ScopedIn settings u
      table d s.scope := by
  intro x fs h
  rcases variable_outline hknown h with hx | hopen
  · exact (ClassDecl.mem_scope_or_stray hs hx).imp_right .inl
  · exact .inr (.inr hopen)

theorem scopedIn_of_isVerbatim {t : TargetType} (ht : t.isVerbatim = true) (scope : List String) :
    t.ScopedIn settings u table d scope := by
  intro x fs h
  cases h <;> cases ht

/-- The types that a member without an override is translated from are written in its scope. -/
theorem mem_signatureTypes_of_site {site : Site} (hsite : site ∈ Selection.declared settings d)
    (htags : site.tags = []) {source t : HostType}
    (ht : t ∈ site.ownType source :: site.paramTypes) : ⟨site.scope, t⟩ ∈ d.signatureTypes := by
  rcases Setup.mem_declared hsite with ⟨f, hf, rfl⟩ | ⟨m, hm, rfl⟩ | ⟨c, -, rfl⟩
  · obtain rfl := List.mem_singleton.1 ht
    exact ClassDecl.mem_signatureTypes_of_fields hf
  · exact ClassDecl.mem_signatureTypes_of_methods hm ht
  · exact absurd htags (tags_ne_nil_of_constructor hsite)

theorem scopedIn_member {site : Site} (hsite : site ∈ Selection.declared settings d)
    {source : HostType} {m : MemberAnswer}
    (h : memberAnswer settings.functionalMode u source site = .ok m) {a : Answer}
    (ha : a ∈ m.answers) (hknown : a.script.asked ⊆ table.types) :
    (a.type table).ScopedIn settings u table d site.scope := by
  rcases memberAnswer_eq_ok h with ⟨r, hoverride, rfl⟩ | ⟨hnone, rfl⟩
  · obtain rfl := List.mem_singleton.1 ha
    exact scopedIn_of_isVerbatim (Override.ofSite_verbatim hoverride) site.scope
  · obtain ⟨t, ht, rfl⟩ : ∃ t ∈ site.ownType source :: site.paramTypes,
        Answer.outline (outline settings.functionalMode u [] t) = a := List.mem_map.1 ha
    exact scopedIn_outline
      (mem_signatureTypes_of_site hsite (Override.tags_of_ofSite_none hnone) ht) hknown

theorem scope_of_mem_properties {site : Site} (hsite : site ∈ Selection.declared settings d)
    {m : MemberAnswer} {p : Property} (hp : p ∈ ((m.script settings site).value table).properties) :
    site.scope = d.typeParams := by
  rcases Setup.mem_declared hsite with ⟨f, -, rfl⟩ | ⟨f, -, rfl⟩ | ⟨c, -, rfl⟩
  · rfl
  · cases hp
  · cases hp

theorem Site.eq_of_mem_shownMethods {site s : Site} (h : s ∈ site.shownMethods) : s = site := by
  cases site with
  | method => exact List.mem_singleton.1 h
  | constructor => exact List.mem_singleton.1 h
  | _ => cases h

theorem ClassAnswer.scoped_bean {source : HostType} {a : ClassAnswer} {b : Bean}
    (ha : classAnswer settings.functionalMode u settings source d = .ok a)
    (hb : ((a.script settings source d).value table).1 = .bean b)
    (hknown : (a.script settings source d).asked ⊆ table.types) : b.Scoped settings u table d := by
  obtain ⟨henum, rfl⟩ := eq_of_bean hb
  have hmember : ∀ p ∈ a.members,
      ∀ t ∈ memberTypes ((p.2.script settings p.1).value table).properties
        ((p.2.script settings p.1).value table).methods,
        t.ScopedIn settings u table d p.1.scope := by
    intro p hp t ht
    obtain ⟨hsite, hanswer⟩ := site_mem ha hp
    obtain ⟨x, hx, rfl⟩ := type_of_mem_member hsite p.2 table ht
    have hasked :=
      asked_subset_of_mem_answers ha (List.mem_append_right _ (List.mem_flatMap.2 ⟨p, hp, hx⟩))
    exact scopedIn_member hsite hanswer hx (List.Subset.trans hasked hknown)
  refine ⟨rfl, fun t ht => ?_, fun q hq => ?_, forall₂_methods ha henum fun p hp => ?_⟩
  · obtain ⟨o, ho, rfl⟩ := List.mem_map.1 (List.mem_filter.1 ht).1
    obtain ⟨type, htype, rfl⟩ := exists_of_mem_parents ha ho
    have hasked := asked_subset_of_mem_answers ha (List.mem_append_left _ (List.mem_map_of_mem ho))
    exact scopedIn_outline (ClassDecl.mem_signatureTypes_of_superTypes htype)
      (List.Subset.trans hasked hknown)
  · obtain ⟨part, hpart, hq⟩ := List.mem_flatMap.1 hq
    obtain ⟨p, hp, rfl⟩ := List.mem_map.1 hpart
    have hscope := scope_of_mem_properties (site_mem ha hp).1 hq
    have hscoped := hmember p hp q.type (List.mem_append_left _ (List.mem_map_of_mem hq))
    rwa [hscope] at hscoped
  · obtain ⟨hsite, hanswer⟩ := site_mem ha hp
    have hlength := (MemberAnswer.shows_methods hsite hanswer table).length_eq
    refine List.forall₂_iff_zip.2 ⟨hlength, fun {site x} hzip t ht => ?_⟩
    obtain ⟨hmem, hx⟩ := List.of_mem_zip hzip
    rw [Site.eq_of_mem_shownMethods hmem]
    exact hmember p hp t (List.mem_append_right _ (List.mem_flatMap.2 ⟨x, hx, ht⟩))

/-- **Type variables stay in scope.**  Every variable in a bean of a successful run is a type
parameter of its class, or in the types of a method one of the method.  Apart from these there are
only variables that a functional interface leaves open inside the function type of a use, and
variables that a class holds unbound, of which a universe that is read has none. -/
theorem type_variables_in_scope (settings : Settings) (u : Universe)
    (roots : List HostType) {r : Run} (h : standardRun settings u roots = .ok r) {b : Bean}
    (hb : b ∈ r.model.beans) :
    (∃ d, b.source = .named d.name ∧ u.get? d.name = some d ∧ b.Scoped settings u r.symbols d) ∧
      ∀ json, Universe.ofJson json = .ok u → ∀ d ∈ u.classes, ∀ x, ¬d.Stray x := by
  obtain ⟨d, a, hsource, hclass, ha, hasked, hvalue⟩ := exists_answer_of_mem_beans h hb
  exact ⟨⟨d, hsource, hclass, ClassAnswer.scoped_bean ha hvalue hasked⟩,
    fun json hjson d hd x => Universe.not_stray_of_ofJson hjson hd⟩

/-- A class with a functional interface used raw and applied, and a method with a type parameter. -/
def openDecls : List ClassDecl :=
  [{ name := "A", typeParams := ["U"],
     fields :=
       [{ name := "f", type := .named "F" }, { name := "g", type := .generic "F" [.named "U"] }],
     methods := [{ name := "map", returnType := .named "R", typeParams := ["R"] }] },
    { name := "F", kind := .interface, typeParams := ["T"],
      methods := [{ name := "get", returnType := .named "T", kind := .abstract }] }]

def openSettings : Settings where
  emitOtherMethods := true

theorem run_openDecls :
    ∃ r b, standardRun openSettings (.ofClasses openDecls) [.named "A"] = .ok r ∧
      r.model.beans = [b] ∧ b.typeParams = ["U"] ∧
      b.properties.map (·.type) = [.function [] (.typeVar "T"), .function [] (.typeVar "U")] ∧
      b.methods.map (·.result) = [.typeVar "R"] :=
  ⟨_, _, rfl, rfl, rfl, rfl, rfl⟩

theorem type_variables_in_scope_openDecls :
    ∃ r b d, standardRun openSettings (.ofClasses openDecls) [.named "A"] = .ok r ∧
      r.model.beans = [b] ∧
      b.source = .named d.name ∧ b.Scoped openSettings (.ofClasses openDecls) r.symbols d := by
  obtain ⟨r, b, hrun, hbeans, -⟩ := run_openDecls
  have hb : b ∈ r.model.beans := hbeans ▸ List.mem_singleton_self b
  obtain ⟨⟨d, hsource, -, hscoped⟩, -⟩ :=
    type_variables_in_scope openSettings _ [.named "A"] hrun hb
  exact ⟨r, b, d, hrun, hbeans, hsource, hscoped⟩

/-- The exceptions are met: by the raw use of a functional interface, by the type parameter of a
method, and by a class that holds a variable unbound. -/
theorem not_all_type_variables_in_scope :
    (∃ r b, standardRun openSettings (.ofClasses openDecls) [.named "A"] = .ok r ∧
      b ∈ r.model.beans ∧
      (∃ p ∈ b.properties, ∃ x fs, (TargetType.typeVar x).Part p.type fs ∧ x ∉ b.typeParams) ∧
      ∃ m ∈ b.methods, ∃ x fs, (TargetType.typeVar x).Part m.result fs ∧ x ∉ b.typeParams) ∧
    ∃ r b,
      standardRun {}
        (.ofClasses [{ name := "S", fields := [{ name := "v", type := .typeVar "V" }] }])
        [.named "S"] = .ok r ∧ b ∈ r.model.beans ∧
      ∃ p ∈ b.properties, ∃ x fs, (TargetType.typeVar x).Part p.type fs ∧ x ∉ b.typeParams := by
  obtain ⟨r, b, hrun, hbeans, hparams, hproperties, hmethods⟩ := run_openDecls
  have hproperty : TargetType.function [] (.typeVar "T") ∈ b.properties.map (·.type) := by
    rw [hproperties]
    exact List.mem_cons_self
  have hmethod : TargetType.typeVar "R" ∈ b.methods.map (·.result) := by
    rw [hmethods]
    exact List.mem_cons_self
  obtain ⟨p, hp, hptype⟩ := List.mem_map.1 hproperty
  obtain ⟨m, hm, hresult⟩ := List.mem_map.1 hmethod
  have hopen : (TargetType.typeVar "T").Part p.type [.function [] (.typeVar "T")] := by
    rw [hptype]
    exact .result .self
  have hown : (TargetType.typeVar "R").Part m.result [] := by
    rw [hresult]
    exact .self
  have hout : "T" ∉ b.typeParams ∧ "R" ∉ b.typeParams := by
    rw [hparams]
    decide
  refine ⟨⟨r, b, hrun, hbeans ▸ List.mem_singleton_self b, ⟨p, hp, _, _, hopen, hout.1⟩, m, hm, _,
    _, hown, hout.2⟩, ?_⟩
  exact ⟨_, _, rfl, List.mem_cons_self, _, List.mem_cons_self, "V", [], .self, by decide⟩

end TypeBridge
