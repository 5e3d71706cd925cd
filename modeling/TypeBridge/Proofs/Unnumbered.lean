import TypeBridge.Proofs.Declarations

/-!
# Identifiers do not show

A text shows the names of symbols and not their identifiers.  `unnumbered` forgets the identifiers
in a type, a member or a declaration, and what is written of a declaration is what is written of the
unnumbered one (`Declaration.written_unnumbered`).

`Script.UpTo` says of a script that its values at two tables with the same names agree in some
respect.  It composes like scripts do, so the declarations of one answer are the same but for
identifiers, whatever tables they are written with (`ClassAnswer.upTo_script`).
-/

namespace TypeBridge

/-! ## Types -/

def Symbol.unnumbered (s : Symbol) : Symbol :=
  { s with id := 0 }

namespace TargetType

mutual

def unnumbered : TargetType → TargetType
  | .primitive k => .primitive k
  | .array e => .array (unnumbered e)
  | .record v => .record (unnumbered v)
  | .reference s args => .reference s.unnumbered (unnumberedList args)
  | .typeVar n => .typeVar n
  | .function params result => .function (unnumberedParams params) (unnumbered result)
  | .verbatim text => .verbatim text

def unnumberedList : List TargetType → List TargetType
  | [] => []
  | t :: rest => unnumbered t :: unnumberedList rest

def unnumberedParams : List (String × TargetType) → List (String × TargetType)
  | [] => []
  | (n, t) :: rest => (n, unnumbered t) :: unnumberedParams rest

end

theorem unnumberedList_eq_map (ts : List TargetType) : unnumberedList ts = ts.map unnumbered := by
  induction ts with
  | nil => rfl
  | cons t ts ih => rw [unnumberedList, ih, List.map_cons]

theorem unnumberedParams_eq_map (ps : List (String × TargetType)) :
    unnumberedParams ps = ps.map (Prod.map id unnumbered) := by
  induction ps with
  | nil => rfl
  | cons p ps ih => rw [unnumberedParams, ih, List.map_cons, Prod.map, id]

theorem isFunction_unnumbered (t : TargetType) : t.unnumbered.isFunction = t.isFunction := by
  cases t <;> rfl

theorem isReference_unnumbered (t : TargetType) : t.unnumbered.isReference = t.isReference := by
  cases t <;> rfl

theorem isVerbatim_unnumbered (t : TargetType) : t.unnumbered.isVerbatim = t.isVerbatim := by
  cases t <;> rfl

mutual

theorem render_unnumbered : ∀ t : TargetType, t.unnumbered.render = t.render
  | .primitive _ => rfl
  | .typeVar _ => rfl
  | .verbatim _ => rfl
  | .array e => congrArg₂ renderElement (isFunction_unnumbered e) (render_unnumbered e)
  | .record v => congrArg ("Record<string, " ++ · ++ ">") (render_unnumbered v)
  | .reference _ [] => rfl
  | .reference s (a :: rest) =>
    congrArg (s.name ++ "<" ++ · ++ ">") (renderList_unnumbered (a :: rest))
  | .function params result =>
    congrArg₂ ("(" ++ · ++ ") => " ++ ·) (renderParams_unnumbered params) (render_unnumbered result)

theorem renderList_unnumbered :
    ∀ ts : List TargetType, renderList (unnumberedList ts) = renderList ts
  | [] => rfl
  | [t] => render_unnumbered t
  | t :: x :: rest =>
    congrArg₂ (· ++ ", " ++ ·) (render_unnumbered t) (renderList_unnumbered (x :: rest))

theorem renderParams_unnumbered :
    ∀ ps : List (String × TargetType), renderParams (unnumberedParams ps) = renderParams ps
  | [] => rfl
  | [(n, t)] => congrArg (Text.parameterName n ++ ": " ++ ·) (render_unnumbered t)
  | (n, t) :: p :: rest =>
    congrArg₂ (Text.parameterName n ++ ": " ++ · ++ ", " ++ ·) (render_unnumbered t)
      (renderParams_unnumbered (p :: rest))

end

end TargetType

/-! ## Members -/

/-- The line of a member: override text as it is, or what is written around the text of its type. -/
def memberLine (t : TargetType) (written : String → String) : String :=
  match t with
  | .verbatim text => text ++ ";\n"
  | t => written t.render

theorem memberLine_of_not_isVerbatim {t : TargetType} (h : t.isVerbatim = false)
    (written : String → String) : memberLine t written = written t.render := by
  cases t with
  | verbatim text => cases h
  | _ => rfl

theorem memberLine_unnumbered (t : TargetType) (written : String → String) :
    memberLine t.unnumbered written = memberLine t written := by
  have hrender := t.render_unnumbered
  cases t with
  | verbatim text => rfl
  | _ => exact congrArg written hrender

namespace Property

def unnumbered (p : Property) : Property :=
  { p with type := p.type.unnumbered }

theorem line_eq (p : Property) :
    p.line = memberLine p.type fun type =>
      Text.propertyName p.name ++ optionalMark p.optional ++ ": " ++ type ++ ";\n" := by
  unfold line memberLine
  cases p.type <;> rfl

theorem render_unnumbered (indent : String) (p : Property) :
    p.unnumbered.render indent = p.render indent := by
  rw [render, render, line_eq, line_eq, unnumbered, memberLine_unnumbered]

end Property

namespace Method

def unnumbered (m : Method) : Method :=
  { m with
    params := m.params.map (Prod.map id TargetType.unnumbered)
    result := m.result.unnumbered }

theorem line_eq (m : Method) :
    m.line = memberLine m.result fun result =>
      (if m.isStatic then "static " else "") ++ m.name ++ optionalMark m.optional ++ "("
        ++ TargetType.renderParams m.params ++ "): " ++ result ++ ";\n" := by
  unfold line memberLine
  cases m.result <;> rfl

theorem render_unnumbered (indent : String) (m : Method) :
    m.unnumbered.render indent = m.render indent := by
  have hparams := TargetType.renderParams_unnumbered m.params
  rw [TargetType.unnumberedParams_eq_map] at hparams
  rw [render, render, line_eq, line_eq, unnumbered, memberLine_unnumbered, hparams]

end Method

/-! ## Declarations -/

namespace Bean

def unnumbered (b : Bean) : Bean :=
  { b with
    symbol := b.symbol.unnumbered
    parents := b.parents.map TargetType.unnumbered
    properties := b.properties.map Property.unnumbered
    methods := b.methods.map Method.unnumbered }

theorem header_unnumbered (b : Bean) : b.unnumbered.header = b.header := by
  have hparents := TargetType.renderList_unnumbered b.parents
  rw [TargetType.unnumberedList_eq_map] at hparents
  unfold header unnumbered
  simp only [hparents, List.isEmpty_map]
  rfl

theorem render_unnumbered (indent : String) (b : Bean) :
    b.unnumbered.render indent = b.render indent := by
  have hproperties : b.unnumbered.properties.map (·.render indent) =
      b.properties.map (·.render indent) := by
    simp only [unnumbered, List.map_map, Function.comp_def, Property.render_unnumbered]
  have hmethods : b.unnumbered.methods.map (·.render indent) = b.methods.map (·.render indent) := by
    simp only [unnumbered, List.map_map, Function.comp_def, Method.render_unnumbered]
  rw [render, render, header_unnumbered, hproperties, hmethods]
  rfl

theorem sortMembers_unnumbered (b : Bean) :
    b.unnumbered.sortMembers = b.sortMembers.unnumbered := by
  unfold sortMembers unnumbered
  simp only [Bean.mk.injEq, true_and, and_true]
  exact ⟨(List.map_mergeSort (f := Property.unnumbered) fun p _ q _ => rfl).symm,
    (List.map_mergeSort (f := Method.unnumbered) fun m _ n _ => rfl).symm⟩

end Bean

namespace Enricher

theorem documentProperty_unnumbered (d : ClassDecl) (p : Property) :
    documentProperty d p.unnumbered = (documentProperty d p).unnumbered := by
  have hname : p.unnumbered.name = p.name := rfl
  unfold documentProperty
  rw [hname]
  cases d.fields.find? fun f => f.name == p.name <;> rfl

theorem documentMethod_unnumbered (d : ClassDecl) (m : Method) :
    documentMethod d m.unnumbered = (documentMethod d m).unnumbered := by
  have hname : m.unnumbered.name = m.name := rfl
  have harity : m.unnumbered.arity = m.arity := rfl
  unfold documentMethod
  rw [hname, harity]
  cases d.methods.find? fun n => n.name == m.name && n.params.length == m.arity <;> rfl

theorem documentBean_unnumbered (u : Universe) (b : Bean) :
    documentBean u b.unnumbered = (documentBean u b).unnumbered := by
  have hsource : b.unnumbered.source = b.source := rfl
  unfold documentBean
  rw [hsource]
  cases classOf? u b.source with
  | none => rfl
  | some d =>
    simp only [Bean.unnumbered, List.map_map, Function.comp_def, documentProperty_unnumbered,
      documentMethod_unnumbered]

end Enricher

def Enumeration.unnumbered (n : Enumeration) : Enumeration :=
  { n with symbol := n.symbol.unnumbered }

theorem Enricher.documentEnumeration_unnumbered (u : Universe) (n : Enumeration) :
    documentEnumeration u n.unnumbered = (documentEnumeration u n).unnumbered := by
  have hsource : n.unnumbered.source = n.source := rfl
  unfold documentEnumeration
  rw [hsource]
  cases classOf? u n.source <;> rfl

namespace Declaration

def unnumbered : Declaration → Declaration
  | .bean b => .bean b.unnumbered
  | .enumeration n => .enumeration n.unnumbered

/-- The name and the text of a declaration, once it is documented. -/
def written (settings : Settings) (u : Universe) : Declaration → String × String
  | .bean b =>
    let documented := Enricher.documentBean u b
    (documented.symbol.name,
      (if settings.sortMembers then documented.sortMembers else documented).render settings.indent)
  | .enumeration n =>
    let documented := Enricher.documentEnumeration u n
    (documented.symbol.name, documented.render)

/-- **Identifiers do not show.** -/
theorem written_unnumbered (settings : Settings) (u : Universe) (x : Declaration) :
    x.unnumbered.written settings u = x.written settings u := by
  cases x with
  | bean b =>
    simp only [unnumbered, written, Enricher.documentBean_unnumbered, Bean.sortMembers_unnumbered]
    cases settings.sortMembers <;>
      simp only [Bool.false_eq_true, ↓reduceIte, Bean.render_unnumbered] <;> rfl
  | enumeration n =>
    simp only [unnumbered, written, Enricher.documentEnumeration_unnumbered]
    rfl

theorem written_fst (settings : Settings) (u : Universe) (x : Declaration) :
    (x.written settings u).1 = x.symbol.name := by
  cases x with
  | bean b =>
    change (Enricher.documentBean u b).symbol.name = b.symbol.name
    unfold Enricher.documentBean
    cases Enricher.classOf? u b.source <;> rfl
  | enumeration n =>
    change (Enricher.documentEnumeration u n).symbol.name = n.symbol.name
    unfold Enricher.documentEnumeration
    cases Enricher.classOf? u n.source <;> rfl

end Declaration

/-! ## Scripts up to identifiers -/

/-- The symbols that two tables have for some types have the same names. -/
def SymbolTable.SameNames (table other : SymbolTable) (types : List HostType) : Prop :=
  ∀ t ∈ types, (table.symbol t).1.name = (other.symbol t).1.name

namespace Script

variable {α β γ δ ε ζ : Type}

/-- The values at tables with the same names agree under `f`. -/
def UpTo (f : α → δ) (s : Script α) : Prop :=
  ∀ table other : SymbolTable, table.SameNames other s.asked → f (s.value table) = f (s.value other)

theorem UpTo.map {s : Script α} {f : α → δ} {g : β → ε} {h : α → β} (hs : s.UpTo f)
    (hg : ∀ a b, f a = f b → g (h a) = g (h b)) : (s.map h).UpTo g :=
  fun table other hnames => hg _ _ (hs table other hnames)

theorem UpTo.zip {s : Script α} {t : Script β} {f : α → δ} {g : β → ε} {h : α → β → γ} {k : γ → ζ}
    (hs : s.UpTo f) (ht : t.UpTo g)
    (hk : ∀ a a' b b', f a = f a' → g b = g b' → k (h a b) = k (h a' b')) :
    (Script.zip h s t).UpTo k := by
  intro table other hnames
  have hfirst := hs table other fun x hx => hnames x (List.mem_append_left _ hx)
  have hsecond := ht table other fun x hx => hnames x (List.mem_append_right _ hx)
  exact hk _ _ _ _ hfirst hsecond

theorem upTo_list {f : α → δ} {ss : List (Script α)} (h : ∀ s ∈ ss, s.UpTo f) :
    (list ss).UpTo (List.map f) := by
  intro table other hnames
  rw [value_list, value_list, List.map_map, List.map_map]
  refine List.map_congr_left fun s hs => h s hs table other fun x hx => hnames x ?_
  rw [asked_list]
  exact List.mem_flatMap.2 ⟨s, hs, hx⟩

theorem upTo_symbol (t : HostType) : (symbol t).UpTo Symbol.unnumbered := by
  intro table other hnames
  have hname := hnames t List.mem_cons_self
  exact congrArg (Symbol.mk 0) hname

end Script

namespace Outline

theorem upTo_script (o : Outline) : o.script.UpTo (·.type.unnumbered) := by
  intro table other hnames
  change (o.realize table).unnumbered = (o.realize other).unnumbered
  change table.SameNames other o.dependents at hnames
  induction o using nestedInduction with
  | primitive k => rfl
  | typeVar n => rfl
  | array e ih => exact congrArg TargetType.array (ih hnames)
  | record v ih => exact congrArg TargetType.record (ih hnames)
  | reference n args ih =>
    rw [dependents_reference] at hnames
    have hsymbol : (table.symbol (.named n)).1.unnumbered =
        (other.symbol (.named n)).1.unnumbered :=
      congrArg (Symbol.mk 0) (hnames _ List.mem_cons_self)
    have hargs : ∀ a ∈ args,
        (a.realize table).unnumbered = (a.realize other).unnumbered := fun a ha =>
      ih a ha fun t ht => hnames t (List.mem_cons_of_mem _ (List.mem_flatMap.2 ⟨a, ha, ht⟩))
    rw [realize_reference, realize_reference, TargetType.unnumbered, TargetType.unnumbered, hsymbol,
      TargetType.unnumberedList_eq_map, TargetType.unnumberedList_eq_map, List.map_map,
      List.map_map]
    exact congrArg _ (List.map_congr_left hargs)
  | function params result ihp ihr =>
    rw [dependents_params] at hnames
    have hresult := ihr fun t ht => hnames t (List.mem_append_right _ ht)
    have hparams : ∀ p ∈ params,
        (p.2.realize table).unnumbered = (p.2.realize other).unnumbered := fun p hp =>
      ihp p hp fun t ht => hnames t (List.mem_append_left _ (List.mem_flatMap.2 ⟨p, hp, ht⟩))
    rw [realize, realize, realizeParams_eq_map, realizeParams_eq_map, TargetType.unnumbered,
      TargetType.unnumbered, hresult, TargetType.unnumberedParams_eq_map,
      TargetType.unnumberedParams_eq_map, List.map_map, List.map_map]
    refine congrArg (TargetType.function · _) (List.map_congr_left fun p hp => ?_)
    exact congrArg (Prod.mk p.1) (hparams p hp)

end Outline

theorem Answer.upTo_script (a : Answer) : a.script.UpTo (·.type.unnumbered) := by
  cases a with
  | override r => exact fun _ _ _ => rfl
  | outline o => exact o.upTo_script

/-! ## Declarations up to identifiers -/

namespace Setup.Members

/-- The members without their identifiers. -/
def unnumbered (ms : Members) : List Property × List Method :=
  (ms.properties.map Property.unnumbered, ms.methods.map Method.unnumbered)

theorem unnumbered_concat (parts : List Members) :
    (concat parts).unnumbered =
      ((parts.map unnumbered).flatMap Prod.fst, (parts.map unnumbered).flatMap Prod.snd) := by
  simp only [unnumbered, concat, List.map_flatMap, List.flatMap_map]

theorem unnumbered_methodOf (m : MethodDecl) (params : List TargetType) (result : TargetType) :
    (methodOf m params result).unnumbered =
      methodOf m (params.map TargetType.unnumbered) result.unnumbered := by
  simp only [Method.unnumbered, methodOf, Method.mk.injEq, and_true, true_and]
  exact (List.zip_map_right ..).symm

theorem unnumbered_methodOfConstructor? (c : ConstructorDecl) (result : TargetType) :
    (methodOfConstructor? c result).map Method.unnumbered =
      methodOfConstructor? c result.unnumbered := by
  unfold methodOfConstructor?
  rw [TargetType.isVerbatim_unnumbered]
  cases result.isVerbatim <;> rfl

/-- The member that a site is, by the types of its resolutions. -/
theorem unnumbered_ofSite (settings : Settings) (site : Site) {own own' : Resolution}
    {params params' : List Resolution} (hown : own.type.unnumbered = own'.type.unnumbered)
    (hparams : params.map (·.type.unnumbered) = params'.map (·.type.unnumbered)) :
    (ofSite settings site own params).unnumbered =
      (ofSite settings site own' params').unnumbered := by
  cases site with
  | type d => rfl
  | field d f =>
    simp only [unnumbered, ofSite, List.map_cons, List.map_nil, Property.unnumbered,
      propertyOf, hown]
  | method d m =>
    have htypes : (params.map (·.type)).map TargetType.unnumbered =
        (params'.map (·.type)).map TargetType.unnumbered := by
      rw [List.map_map, List.map_map]
      exact hparams
    simp only [unnumbered, ofSite, List.map_cons, List.map_nil, unnumbered_methodOf, hown, htypes]
  | constructor d c =>
    simp only [unnumbered, ofSite, List.map_nil, ← Option.toList_map,
      unnumbered_methodOfConstructor?, hown]

end Setup.Members

theorem MemberAnswer.upTo_script (settings : Settings) (site : Site) (m : MemberAnswer) :
    (m.script settings site).UpTo Setup.Members.unnumbered := by
  have hparams :
      (Script.list (m.params.map Answer.script)).UpTo (List.map (·.type.unnumbered)) := by
    refine Script.upTo_list fun s hs => ?_
    obtain ⟨a, -, rfl⟩ := List.mem_map.1 hs
    exact a.upTo_script
  exact m.own.upTo_script.zip hparams fun own own' params params' hown hparams =>
    Setup.Members.unnumbered_ofSite settings site hown hparams

namespace ClassAnswer

theorem upTo_parentsScript (d : ClassDecl) (a : ClassAnswer) :
    (a.parentsScript d).UpTo fun parents => parents.1.map TargetType.unnumbered := by
  have houtlines :
      (Script.list (a.parents.map Outline.script)).UpTo (List.map (·.type.unnumbered)) := by
    refine Script.upTo_list fun s hs => ?_
    obtain ⟨o, -, rfl⟩ := List.mem_map.1 hs
    exact o.upTo_script
  have hfilter (rs : List Resolution) : (parentsOf d rs).1.map TargetType.unnumbered =
      (rs.map (·.type.unnumbered)).filter (·.isReference) := by
    have hmap : rs.map (·.type.unnumbered) = (rs.map (·.type)).map TargetType.unnumbered :=
      (List.map_map ..).symm
    rw [hmap, List.filter_map, parentsOf]
    simp only [Function.comp_def, TargetType.isReference_unnumbered]
  refine houtlines.map fun rs rs' h => ?_
  rw [hfilter, hfilter, h]

theorem upTo_membersScript (settings : Settings) (a : ClassAnswer) :
    (a.membersScript settings).UpTo Setup.Members.unnumbered := by
  have hparts : (Script.list (a.members.map fun p => p.2.script settings p.1)).UpTo
      (List.map Setup.Members.unnumbered) := by
    refine Script.upTo_list fun s hs => ?_
    obtain ⟨p, -, rfl⟩ := List.mem_map.1 hs
    exact p.2.upTo_script settings p.1
  refine hparts.map fun parts parts' h => ?_
  rw [Setup.Members.unnumbered_concat, Setup.Members.unnumbered_concat, h]

/-- **Two tables with the same names give an answer the same declaration but for identifiers.** -/
theorem upTo_script (settings : Settings) (source : HostType) (d : ClassDecl) (a : ClassAnswer) :
    (a.script settings source d).UpTo (·.1.unnumbered) := by
  cases henum : d.isEnum with
  | true =>
    rw [script_of_isEnum henum]
    refine (Script.upTo_symbol source).map fun symbol symbol' h => ?_
    simp only [enumeration, Declaration.unnumbered, Enumeration.unnumbered, h]
  | false =>
    rw [script_of_not_isEnum henum]
    have hparts :
        (Script.zip Prod.mk (a.parentsScript d) (a.membersScript settings)).UpTo fun parts =>
        (parts.1.1.map TargetType.unnumbered, parts.2.unnumbered) :=
      (a.upTo_parentsScript d).zip (a.upTo_membersScript settings) fun _ _ _ _ hparents hmembers =>
        Prod.ext hparents hmembers
    refine (Script.upTo_symbol source).zip hparts
      fun symbol symbol' parts parts' hsymbol hparts => ?_
    obtain ⟨hparents, hmembers⟩ := Prod.mk.inj hparts
    obtain ⟨hproperties, hmethods⟩ := Prod.mk.inj hmembers
    simp only [bean, Declaration.unnumbered, Bean.unnumbered, hsymbol, hparents, hproperties,
      hmethods]

end ClassAnswer

end TypeBridge
