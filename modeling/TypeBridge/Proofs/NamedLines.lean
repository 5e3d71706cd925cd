import TypeBridge.Proofs.ParameterNames
import TypeBridge.Resolution.Standard

/-!
# Members that keep their names

A member is written by its name, or as a bare text.  The model has one mark for the latter: the type
of the member itself is override text.  So a member shows its name if and only if the chain has not
resolved its own type to such a text (`Setup.Brings.shows`), and a processor that does so for an
ordinary type takes the names of members away that carry no tag (`not_all_untagged_members_named`).

`Processor.LeavesText` are the processors that do not: where there is no tag they resolve to
override text only inside other types.  Those of the standard chain are among them.  With such
processors only, the bare lines are those of tagged members (`untagged_members_named`).
-/

namespace TypeBridge

open Resolving

/-! ## Processors that leave text to tags -/

/-- Without a tag no type is override text as a whole. -/
def Resolver.LeavesText (resolve : Resolver) : Prop :=
  ∀ (ctx : Context) (type : HostType) (table last : SymbolTable) (r : Resolution), ctx.Untagged →
    (resolve ctx type).run table = (.ok (some r), last) → r.type.isVerbatim = false

/-- A processor whose answers are no override text without a tag, as long as those for nested types
are none. -/
def Processor.LeavesText (p : Processor) : Prop :=
  ∀ nested : Resolver, nested.LeavesText → Resolver.LeavesText (p.process nested)

section

variable {nested : Resolver} {ctx : Context} {type : HostType}
  {table last : SymbolTable} {r : Resolution}

theorem Resolver.LeavesText.orAny (h : nested.LeavesText) (hctx : ctx.Untagged)
    (hrun : (nested.orAny ctx type).run table = (.ok r, last)) : r.type.isVerbatim = false := by
  obtain ⟨answer, later, hanswer, hrun⟩ := exists_of_run_bind hrun
  cases answer with
  | none =>
    obtain ⟨rfl, -⟩ := eq_of_run_pure hrun
    rfl
  | some found =>
    obtain ⟨rfl, -⟩ := eq_of_run_pure hrun
    exact h ctx type table later r hctx hanswer

/-- The first answer is that of some processor. -/
theorem Chain.leavesText_first {chain : Chain} (h : ∀ p ∈ chain, p.LeavesText)
    (hnested : nested.LeavesText) :
    Resolver.LeavesText fun ctx type => Chain.first nested ctx type chain := by
  intro ctx type table last r hctx hrun
  induction chain generalizing table with
  | nil => exact absurd (eq_of_run_pure hrun).1 nofun
  | cons p rest ih =>
    obtain ⟨hp, hrest⟩ := List.forall_mem_cons.1 h
    obtain ⟨answer, later, hanswer, hrun⟩ := exists_of_run_bind hrun
    cases answer with
    | none => exact ih hrest later hrun
    | some found =>
      obtain rfl := Option.some.inj (eq_of_run_pure hrun).1
      exact hp nested hnested ctx type table later r hctx hanswer

theorem Chain.leavesText_resolver {chain : Chain} (h : ∀ p ∈ chain, p.LeavesText) (depth : Nat) :
    (chain.resolver depth).LeavesText := by
  induction depth with
  | zero => exact fun ctx type table last r _ hrun => absurd (congrArg Prod.fst hrun) nofun
  | succ depth ih => exact Chain.leavesText_first h ih

theorem Override.leavesText_processor : Override.processor.LeavesText := by
  intro nested _ ctx type table last r hctx hrun
  rw [process_eq, ofContext_of_untagged hctx] at hrun
  exact absurd (eq_of_run_pure hrun).1 nofun

theorem Functional.leavesText_processor (mode : FunctionalMode) : (processor mode).LeavesText := by
  intro nested _ ctx type table last r _ hrun
  obtain ⟨d, m, inherited, params, result, -, -, -, rfl⟩ := of_processor hrun
  rfl

namespace Structural

/-- Of the containers only an optional one passes a text on. -/
theorem not_isVerbatim_of_container (h : nested.LeavesText) (hctx : ctx.Untagged) {kind : Container}
    {args : List HostType} (hrun : (container nested ctx kind args).run table = (.ok r, last)) :
    r.type.isVerbatim = false := by
  unfold container at hrun
  split at hrun
  · obtain ⟨inner, _, hinner, hrun⟩ := exists_of_run_bind hrun
    obtain ⟨rfl, -⟩ := eq_of_run_pure hrun
    cases kind with
    | collection => rfl
    | map => rfl
    | optional => exact h.orAny hctx hinner
  · obtain ⟨rfl, -⟩ := eq_of_run_pure hrun
    cases kind <;> rfl

theorem not_isVerbatim_of_application (h : nested.LeavesText) (hctx : ctx.Untagged) {raw : String}
    {args : List HostType} (hrun : (application nested ctx raw args).run table = (.ok r, last)) :
    r.type.isVerbatim = false := by
  unfold application at hrun
  split at hrun
  · exact not_isVerbatim_of_container h hctx hrun
  · split at hrun
    · obtain ⟨symbol, _, -, hrun⟩ := exists_of_run_bind hrun
      obtain ⟨inner, _, -, hrun⟩ := exists_of_run_bind hrun
      obtain ⟨rfl, -⟩ := eq_of_run_pure hrun
      rfl
    · obtain ⟨rfl, -⟩ := eq_of_run_pure hrun
      rfl

theorem leavesText_processor : processor.LeavesText := by
  intro nested hnested ctx type table last r hctx hrun
  obtain ⟨answer, later, hresolve, hrun⟩ := exists_of_run_bind hrun
  obtain rfl := Option.some.inj (eq_of_run_pure hrun).1
  cases type with
  | primitive kind =>
    obtain ⟨rfl, -⟩ := eq_of_run_pure hresolve
    rfl
  | typeVar name =>
    obtain ⟨rfl, -⟩ := eq_of_run_pure hresolve
    rfl
  | array element =>
    obtain ⟨inner, _, -, hresolve⟩ := exists_of_run_bind hresolve
    obtain ⟨rfl, -⟩ := eq_of_run_pure hresolve
    rfl
  | named name => exact not_isVerbatim_of_application hnested hctx hresolve
  | generic raw args => exact not_isVerbatim_of_application hnested hctx hresolve

end Structural

theorem Chain.leavesText_of_mem_standard {mode : FunctionalMode} {p : Processor}
    (h : p ∈ Chain.standard mode) : p.LeavesText := by
  simp only [Chain.standard, List.mem_cons, List.not_mem_nil, or_false] at h
  rcases h with rfl | rfl | rfl
  · exact Override.leavesText_processor
  · exact Functional.leavesText_processor mode
  · exact Structural.leavesText_processor

end

/-! ## The lines of a site -/

namespace Setup

variable {s : Setup} {source : HostType} {site : Site} {part : Members}

/-- The lines of the members that a site brings, without their comments. -/
def Members.lines (ms : Members) : List String :=
  ms.properties.map (·.line) ++ ms.methods.map (·.line)

/-- The line of a member by its name: that of a field with the mark of an optional one, and that of
a method with all its parameters.  Types and constructors have none. -/
inductive ShowsName (s : Setup) : Site → List String → Prop
  | type {d : ClassDecl} : ShowsName s (.type d) []
  | field {d : ClassDecl} {f : FieldDecl} {type : TargetType}
      (htype : s.ResolvesTo (.field d f) f.type type)
      (hwritten : type.isVerbatim = false) :
      ShowsName s (.field d f) [Text.propertyName f.name
        ++ optionalMark (Selection.anyMarker s.settings.optionalMarkers f.markers) ++ ": " ++
          type.render ++ ";\n"]
  | method {d : ClassDecl} {m : MethodDecl} {params : List TargetType} {result : TargetType}
      (hresult : s.ResolvesTo (.method d m) m.returnType result)
      (hwritten : result.isVerbatim = false)
      (hparams : List.Forall₂ (fun p t => s.ResolvesTo (.method d m) p.type t) m.params params) :
      ShowsName s (.method d m) [(if m.kind == .static then "static " else "") ++ m.name
        ++ optionalMark (m.kind == .default) ++ "(" ++
          parameterList m.writtenNames (params.map TargetType.render)
        ++ "): " ++ result.render ++ ";\n"]
  | constructor {d : ClassDecl} {c : ConstructorDecl} : ShowsName s (.constructor d c) []

/-- The bare line of a member whose own type is override text. -/
def ShowsText (s : Setup) (source : HostType) (site : Site) (lines : List String) : Prop :=
  ∃ text, s.ResolvesTo site (site.ownType source) (.verbatim text) ∧ lines = [text ++ ";\n"]

theorem exists_text_of_isVerbatim {t : TargetType} (h : t.isVerbatim = true) :
    ∃ text, t = .verbatim text := by
  cases t with
  | verbatim text => exact ⟨text, rfl⟩
  | _ => cases h

/-- A site shows its name or a text, by what its own type resolves to. -/
theorem Brings.shows (h : s.Brings source site part) :
    s.ShowsName site part.lines ∨ s.ShowsText source site part.lines := by
  cases h with
  | type => exact .inl .type
  | @field d f type comments discovered htype =>
    cases hverbatim : type.isVerbatim with
    | true =>
      obtain ⟨text, rfl⟩ := exists_text_of_isVerbatim hverbatim
      exact .inr ⟨text, htype, rfl⟩
    | false =>
      refine .inl ?_
      simp only [Members.lines, List.map_cons, List.map_nil, List.append_nil, Property.line_eq,
        Members.propertyOf]
      rw [memberLine_of_not_isVerbatim hverbatim]
      exact .field htype hverbatim
  | @method d m params result comments discovered hresult hwritten hparams =>
    refine .inl ?_
    simp only [Members.lines, List.map_cons, List.map_nil, List.nil_append]
    rw [Members.line_methodOf m hparams.length_eq.symm hwritten comments]
    exact .method hresult hwritten hparams
  | replaced hresult hverbatim =>
    obtain ⟨text, rfl⟩ := exists_text_of_isVerbatim hverbatim
    exact .inr ⟨text, hresult, rfl⟩
  | constructor hresult hverbatim =>
    obtain ⟨text, rfl⟩ := exists_text_of_isVerbatim hverbatim
    exact .inr ⟨text, hresult, rfl⟩
  | silent => exact .inl .constructor

/-- Where text is left to tags, a bare line tells of a tag. -/
theorem ShowsText.tags_ne_nil {lines : List String} (hs : s.resolver.LeavesText)
    (h : s.ShowsText source site lines) : site.tags ≠ [] := by
  intro htags
  obtain ⟨text, ⟨table, last, found, hrun⟩, -⟩ := h
  have huntagged : (s.context (some site)).Untagged :=
    fun other hother => Option.some.inj hother ▸ htags
  obtain ⟨r, _, hresolves, hrun⟩ := exists_of_run_bind hrun
  have hverbatim := hs.orAny huntagged hresolves
  rw [← (Prod.mk.inj (eq_of_run_pure hrun).1).1] at hverbatim
  cases hverbatim

end Setup

/-! ## The lines of a bean -/

/-- **Which members keep their names.**  In a bean of any run each selected site shows its name, or
the text that the chain has for its own type.  If beside the standard processors the chain has only
such as leave text to tags, the bare lines are those of sites with tags, and every site without a
tag shows its name. -/
theorem untagged_members_named (settings : Settings) (chain : Chain) (claimants : List Claimant)
    (selection : Selection) (budget : Budget) (u : Universe) (roots : List HostType) {m : Model}
    (h : ({ settings, chain, claimants, selection } : Generator).model budget u roots = .ok m)
    {b : Bean} (hb : b ∈ m.beans) :
    let s := ({ settings, chain, claimants, selection } : Generator).setup budget.depth u
    ∃ (d : ClassDecl) (parts : List Setup.Members), b.source = .named d.name ∧
      u.get? d.name = some d ∧
      b.properties = parts.flatMap (·.properties) ∧ b.methods = parts.flatMap (·.methods) ∧
      List.Forall₂ (fun site part => s.ShowsName site part.lines ∨
        s.ShowsText b.source site part.lines) (selection settings d) parts ∧
      ((∀ p ∈ chain, p ∈ Chain.standard settings.functionalMode ∨ p.LeavesText) →
        List.Forall₂ (fun site part => s.ShowsName site part.lines ∨
          site.tags ≠ [] ∧ s.ShowsText b.source site part.lines) (selection settings d) parts) := by
  intro s
  obtain ⟨d, hsource, hget, parts, hparts, hproperties, hmethods⟩ :=
    Generator.declares_of_model h b hb
  refine ⟨d, parts, hsource, hget, hproperties, hmethods, hparts.imp fun site part hbrings =>
    hbrings.shows, fun hchain => ?_⟩
  have hs : s.resolver.LeavesText := Chain.leavesText_resolver (fun p hp =>
    (hchain p hp).elim Chain.leavesText_of_mem_standard id) budget.depth
  exact hparts.imp fun site part hbrings => hbrings.shows.imp_right fun htext =>
    ⟨htext.tags_ne_nil hs, htext⟩

/-- A processor for one host type. -/
def writing (type : HostType) (target : TargetType) : Processor where
  name := "Writing"
  process _ _ other := pure (if other = type then some { type := target } else none)

theorem leavesText_writing (type : HostType) {target : TargetType} (h : target.isVerbatim = false) :
    (writing type target).LeavesText := by
  intro nested _ ctx other table last r _ hrun
  have hanswer := (eq_of_run_pure hrun).1
  split at hanswer
  · obtain rfl := Option.some.inj hanswer
    exact h
  · cases hanswer

/-- A class with dates, and a tagged field beside them. -/
def dated : ClassDecl where
  name := "A"
  fields := [{ name := "created", type := .named "Date" },
    { name := "note", type := .primitive .string, tags := [.verbatim "note?: Note" []] }]
  methods := [{ name := "parse", params := [⟨some "text", .primitive .string⟩],
                returnType := .named "Date" }]

def dates : Universe :=
  ⟨[dated], {}⟩

/-- A generator that writes dates as a given type. -/
def dateGenerator (target : TargetType) : Generator where
  settings := { emitOtherMethods := true, sortMembers := false }
  chain := (Chain.standard .structural).insertAt 0 (writing (.named "Date") target)

def dateBudget : Budget :=
  .covering dates [.named "A"]

theorem untagged_members_named_dates :
    let g := dateGenerator (.primitive .string)
    let s := g.setup dateBudget.depth dates
    (g.generate dateBudget dates [.named "A"]).toOption =
      some ("\ninterface A \x7b\n    created: string;\n" ++
        "    note?: Note;\n\n    parse(text: string): string;\n\x7d\n") ∧
    ∃ (m : Model) (b : Bean) (d : ClassDecl) (parts : List Setup.Members),
      g.model dateBudget dates [.named "A"] = .ok m ∧ b ∈ m.beans ∧ b.source = .named d.name ∧
      List.Forall₂ (fun site part => s.ShowsName site part.lines ∨
        site.tags ≠ [] ∧
        s.ShowsText b.source site part.lines) (g.selection g.settings d) parts := by
  intro g s
  refine ⟨by decide +kernel, ?_⟩
  obtain ⟨m, b, hmodel, hbeans⟩ : ∃ m b,
      g.model dateBudget dates [.named "A"] = .ok m ∧ m.beans = [b] :=
    ⟨_, _, rfl, rfl⟩
  have hb : b ∈ m.beans := hbeans ▸ List.mem_singleton_self b
  obtain ⟨d, parts, hsource, -, -, -, -, hshown⟩ := untagged_members_named g.settings g.chain
    g.claimants g.selection dateBudget dates [.named "A"] hmodel hb
  refine ⟨m, b, d, parts, hmodel, hb, hsource, hshown fun p hp => ?_⟩
  rcases List.mem_cons.1 hp with rfl | hp
  · exact .inr (leavesText_writing _ rfl)
  · exact .inl hp

/-- Dates that are written as a text take the names of their members away. -/
theorem not_all_untagged_members_named :
    (¬∀ (settings : Settings) (chain : Chain) (budget : Budget) (u : Universe)
      (roots : List HostType) (m : Model),
        ({ settings, chain } : Generator).model budget u roots = .ok m → ∀ b ∈ m.beans, ∀ d,
          b.source = .named d.name → u.get? d.name = some d → ∀ f ∈ Selection.fields settings d,
          f.tags = [] →
          ∃ p ∈ b.properties, ∃ rest, p.line = Text.propertyName f.name
            ++ optionalMark (Selection.anyMarker settings.optionalMarkers f.markers) ++
              ":" ++ rest) ∧
    ((dateGenerator (.verbatim "Date")).generate dateBudget dates [.named "A"]).toOption =
      some "\ninterface A \x7b\n    Date;\n    note?: Note;\n\n    Date;\n\x7d\n" := by
  refine ⟨fun hall => ?_, by decide +kernel⟩
  let g := dateGenerator (.verbatim "Date")
  obtain ⟨m, b, hmodel, hbeans, hsource⟩ : ∃ m b,
      g.model dateBudget dates [.named "A"] = .ok m ∧ m.beans = [b] ∧
    b.source = .named dated.name := ⟨_, _, rfl, rfl, rfl⟩
  have hlines : ((g.model dateBudget dates [.named "A"]).toOption.elim [] fun m =>
      m.beans.flatMap fun b => b.properties.map (·.line)) = ["Date;\n", "note?: Note;\n"] := by
        decide +kernel
  obtain ⟨p, hp, rest, hline⟩ := hall g.settings g.chain dateBudget dates [.named "A"] m hmodel b
    (hbeans ▸ List.mem_singleton_self b) dated hsource rfl
    { name := "created", type := .named "Date" } (by decide) rfl
  have hmem : p.line ∈ ["Date;\n", "note?: Note;\n"] := by
    rw [← hlines, hmodel]
    exact List.mem_flatMap.2 ⟨b, hbeans ▸ List.mem_singleton_self b, List.mem_map_of_mem hp⟩
  have hname : Text.propertyName "created" = "created" := by decide
  have hstart : p.line.toList.head? = some 'c' := by
    rw [hline, hname]
    simp
  have hnone : ∀ line ∈ ["Date;\n", "note?: Note;\n"], line.toList.head? ≠ some 'c' := by decide
  exact hnone p.line hmem hstart

end TypeBridge
