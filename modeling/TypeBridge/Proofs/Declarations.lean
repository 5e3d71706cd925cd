import TypeBridge.Proofs.Closure

/-!
# The declarations of a run

Every declaration in the model of a run is the one that the answer for its class gives, with the
symbols of the run's table (`Run.Rendered`).  Symbols that are issued later do not change it.  So
what is to be known of the types in a bean can be read off answers.
-/

namespace TypeBridge

open Functional Resolving

/-! ## Types of a declaration -/

def memberTypes (properties : List Property) (methods : List Method) : List TargetType :=
  properties.map (·.type) ++ methods.flatMap fun m => m.result :: m.params.map (·.2)

theorem exists_part_of_mem_memberTypes {parts : List Setup.Members} {t : TargetType}
    (h : t ∈ memberTypes (Setup.Members.concat parts).properties
      (Setup.Members.concat parts).methods) :
    ∃ part ∈ parts, t ∈ memberTypes part.properties part.methods := by
  rcases List.mem_append.1 h with h | h
  · obtain ⟨p, hp, rfl⟩ := List.mem_map.1 h
    obtain ⟨part, hpart, hp⟩ := List.mem_flatMap.1 hp
    exact ⟨part, hpart, List.mem_append_left _ (List.mem_map_of_mem hp)⟩
  · obtain ⟨m, hm, ht⟩ := List.mem_flatMap.1 h
    obtain ⟨part, hpart, hm⟩ := List.mem_flatMap.1 hm
    exact ⟨part, hpart, List.mem_append_right _ (List.mem_flatMap.2 ⟨m, hm, ht⟩)⟩

/-- All target types of a bean. -/
def Bean.types (b : Bean) : List TargetType :=
  b.parents ++ memberTypes b.properties b.methods

def Declaration.symbol : Declaration → Symbol
  | .bean b => b.symbol
  | .enumeration n => n.symbol

def Model.generated (m : Model) : List Declaration :=
  m.beans.map .bean ++ m.enumerations.map .enumeration

theorem Model.map_source_generated (m : Model) :
    m.generated.map (·.source) = m.beans.map (·.source) ++ m.enumerations.map (·.source) := by
  rw [generated, List.map_append, List.map_map, List.map_map]
  rfl

theorem Model.mem_generated_of_add {m later : Model} {d x : Declaration} (h : m.add d = .ok later)
    (hx : x ∈ later.generated) : x ∈ m.generated ∨ x = d := by
  cases d with
  | bean b =>
    rw [Model.eq_of_add_bean h] at hx
    rcases List.mem_append.1 hx with hx | hx
    · rw [List.map_append] at hx
      rcases List.mem_append.1 hx with hx | hx
      · exact .inl (List.mem_append_left _ hx)
      · exact .inr (List.mem_singleton.1 hx)
    · exact .inl (List.mem_append_right _ hx)
  | enumeration n =>
    rw [Model.eq_of_add_enumeration h] at hx
    rcases List.mem_append.1 hx with hx | hx
    · exact .inl (List.mem_append_left _ hx)
    · rw [List.map_append] at hx
      rcases List.mem_append.1 hx with hx | hx
      · exact .inl (List.mem_append_right _ hx)
      · exact .inr (List.mem_singleton.1 hx)

namespace ClassAnswer

variable {mode : FunctionalMode} {u : Universe} {settings : Settings}
  {source : HostType} {d : ClassDecl}
variable {a : ClassAnswer}

def answers (a : ClassAnswer) : List Answer :=
  a.parents.map .outline ++ a.members.flatMap (·.2.answers)

theorem source_declaration (settings : Settings) (source : HostType)
    (d : ClassDecl) (a : ClassAnswer) (table : SymbolTable) :
    ((a.script settings source d).value table).1.source = source := by
  rcases a.declaration_cases settings source d table with ⟨-, n, hsource, h⟩ | ⟨-, b, hsource, h⟩
  · rw [h]
    exact hsource
  · rw [h]
    exact hsource

theorem symbol_declaration (settings : Settings) (source : HostType)
    (d : ClassDecl) (a : ClassAnswer) (table : SymbolTable) :
    ((a.script settings source d).value table).1.symbol = (table.symbol source).1 := by
  cases henum : d.isEnum with
  | true => rw [script_of_isEnum henum]; rfl
  | false => rw [script_of_not_isEnum henum]; rfl

theorem dependents_subset_of_mem_answers {x : Answer} (h : x ∈ a.answers) :
    x.dependents ⊆ a.dependents := by
  intro t ht
  rcases List.mem_append.1 h with h | h
  · obtain ⟨o, ho, rfl⟩ := List.mem_map.1 h
    exact List.mem_append_left _ (List.mem_append_right _ (List.mem_flatMap.2 ⟨o, ho, ht⟩))
  · obtain ⟨p, hp, hx⟩ := List.mem_flatMap.1 h
    exact List.mem_append_right _
      (List.mem_flatMap.2 ⟨p, hp, List.mem_flatMap.2 ⟨x, hx, ht⟩⟩)

theorem answers_cases (ha : classAnswer mode u settings source d = .ok a) {x : Answer}
    (h : x ∈ a.answers) :
    (∃ r, x = .override r ∧ r.type.isVerbatim = true) ∨ ∃ t,
      x = .outline (outline mode u [] t) := by
  rcases List.mem_append.1 h with h | h
  · obtain ⟨o, ho, rfl⟩ := List.mem_map.1 h
    obtain ⟨t, -, rfl⟩ := exists_of_mem_parents ha ho
    exact .inr ⟨t, rfl⟩
  · obtain ⟨p, hp, hx⟩ := List.mem_flatMap.1 h
    rcases memberAnswer_eq_ok (site_mem ha hp).2 with ⟨r, hoverride, hm⟩ | ⟨-, hm⟩
    · obtain rfl : x = .override r := by
        rw [hm] at hx
        simpa [MemberAnswer.answers] using hx
      exact .inl ⟨r, rfl, Override.ofSite_verbatim hoverride⟩
    · rw [hm] at hx
      rcases List.mem_cons.1 hx with rfl | hx
      · exact .inr ⟨_, rfl⟩
      · obtain ⟨t, -, rfl⟩ := List.mem_map.1 hx
        exact .inr ⟨t, rfl⟩

theorem asked_member {site : Site} (m : MemberAnswer) :
    (m.script settings site).asked = m.answers.flatMap (·.script.asked) := by
  simp only [MemberAnswer.script, Script.zip, Script.asked_list, MemberAnswer.answers,
    List.flatMap_cons, List.flatMap_map]

theorem asked_of_not_isEnum (h : d.isEnum = false) (settings : Settings) (source : HostType)
    (a : ClassAnswer) :
    (a.script settings source d).asked = source :: a.answers.flatMap (·.script.asked) := by
  rw [script_of_not_isEnum h]
  simp only [Script.zip, Script.symbol, parentsScript, membersScript, Script.map, Script.asked_list,
    List.flatMap_map, asked_member, answers, List.flatMap_append, List.flatMap_assoc,
    List.singleton_append]
  rfl

theorem asked_subset_of_mem_answers (ha : classAnswer mode u settings source d = .ok a) {x : Answer}
    (h : x ∈ a.answers) : x.script.asked ⊆ (a.script settings source d).asked := by
  obtain ⟨-, ⟨-, hparents, hmembers⟩ | ⟨henum, -, -, -⟩⟩ := classAnswer_eq_ok ha
  · rw [answers, hparents, hmembers] at h
    cases h
  · rw [asked_of_not_isEnum henum]
    exact fun t ht => List.mem_cons_of_mem _ (List.mem_flatMap.2 ⟨x, h, ht⟩)

theorem type_of_mem_member {site : Site} (hsite : site ∈ Selection.declared settings d)
    (m : MemberAnswer) (table : SymbolTable) {t : TargetType}
    (ht : t ∈ memberTypes ((m.script settings site).value table).properties
      ((m.script settings site).value table).methods) : ∃ x ∈ m.answers, t = x.type table := by
  have hown : m.own ∈ m.answers := List.mem_cons_self
  rcases Setup.mem_declared hsite with ⟨f, -, rfl⟩ | ⟨f, -, rfl⟩ | ⟨c, -, rfl⟩
  · obtain rfl := List.mem_singleton.1 ht
    exact ⟨m.own, hown, rfl⟩
  · simp only [MemberAnswer.script, Script.zip, Setup.Members.ofSite, memberTypes, List.map_nil,
      List.nil_append, List.flatMap_cons, List.flatMap_nil, List.append_nil] at ht
    rcases List.mem_cons.1 ht with rfl | ht
    · exact ⟨m.own, hown, rfl⟩
    · obtain ⟨p, hp, rfl⟩ := List.mem_map.1 ht
      have hparam := (List.of_mem_zip (show (p.1, p.2) ∈ _ from hp)).2
      rw [Script.value_list, List.map_map, List.map_map] at hparam
      obtain ⟨x, hx, hxt⟩ := List.mem_map.1 hparam
      exact ⟨x, List.mem_cons_of_mem _ hx, hxt.symm⟩
  · simp only [MemberAnswer.script, Script.zip, Setup.Members.ofSite, memberTypes, List.map_nil,
      List.nil_append, Setup.Members.methodOfConstructor?] at ht
    split at ht
    · obtain rfl : t = _ := by simpa using ht
      exact ⟨m.own, hown, rfl⟩
    · cases ht

/-- The members that are shown, with the symbols of a table. -/
def shownMembers (settings : Settings) (a : ClassAnswer) (table : SymbolTable) : Setup.Members :=
  .concat (a.members.map fun p => (p.2.script settings p.1).value table)

/-- A bean is put together from the answers for its class. -/
theorem eq_of_bean {table : SymbolTable} {b : Bean}
    (hb : ((a.script settings source d).value table).1 = .bean b) :
    d.isEnum = false ∧ b =
      { source, symbol := (table.symbol source).1, typeParams := d.typeParams
        parents := (a.parents.map (·.realize table)).filter (·.isReference)
        signature := a.signature
        properties := (a.shownMembers settings table).properties
        methods := (a.shownMembers settings table).methods } := by
  cases henum : d.isEnum with
  | true =>
    rw [script_of_isEnum henum] at hb
    cases hb
  | false =>
    rw [script_of_not_isEnum henum] at hb
    cases hb
    refine ⟨rfl, ?_⟩
    simp only [parentsScript, parentsOf, membersScript, Script.zip, Script.map, Script.value_list,
      List.map_map]
    rfl

/-- Every type in a bean is an answer, with the symbols of the table. -/
theorem type_of_mem_bean (ha : classAnswer mode u settings source d = .ok a)
    {table : SymbolTable} {b : Bean} (hb : ((a.script settings source d).value table).1 = .bean b)
    {t : TargetType} (ht : t ∈ b.types) : ∃ x ∈ a.answers, t = x.type table := by
  obtain ⟨-, rfl⟩ := eq_of_bean hb
  rcases List.mem_append.1 ht with ht | ht
  · obtain ⟨o, ho, rfl⟩ := List.mem_map.1 (List.mem_filter.1 ht).1
    exact ⟨.outline o, List.mem_append_left _ (List.mem_map_of_mem ho), rfl⟩
  · obtain ⟨part, hpart, ht⟩ := exists_part_of_mem_memberTypes ht
    obtain ⟨p, hp, rfl⟩ := List.mem_map.1 hpart
    obtain ⟨x, hx, rfl⟩ := type_of_mem_member (site_mem ha hp).1 p.2 table ht
    exact ⟨x, List.mem_append_right _ (List.mem_flatMap.2 ⟨p, hp, hx⟩), rfl⟩

end ClassAnswer

/-! ## Along a run -/

namespace Run

variable {s : Setup} {mode : FunctionalMode} {types : List HostType} {roots : List HostType}
variable {r later after : Run} {e : Entry} {c : Script Contribution}

/-- A declaration that is written with the symbols of a table, which has all of them. -/
def Renders (mode : FunctionalMode) (s : Setup) (table : SymbolTable) (x : Declaration) : Prop :=
  ∃ d a, declared? mode s.host x.source = some d ∧
    classAnswer mode s.host s.settings x.source d = .ok a ∧
    (a.script s.settings x.source d).asked ⊆ table.types ∧
    ((a.script s.settings x.source d).value table).1 = x

theorem Renders.grows {table table' : SymbolTable} {x : Declaration} (h : Renders mode s table x)
    (hgrows : table.Grows table') : Renders mode s table' x := by
  obtain ⟨d, a, hd, ha, hasked, hx⟩ := h
  refine ⟨d, a, hd, ha, fun t ht => hgrows.types_subset (hasked ht), ?_⟩
  rw [(a.script s.settings x.source d).stable hasked hgrows, hx]

theorem Renders.symbol_eq {table : SymbolTable} {x : Declaration} (h : Renders mode s table x) :
    x.symbol = (table.symbol x.source).1 := by
  obtain ⟨d, a, -, -, -, hx⟩ := h
  rw [← a.symbol_declaration s.settings x.source d table, hx]

/-- All declarations of a run are written with its symbols. -/
def Rendered (mode : FunctionalMode) (s : Setup) (r : Run) : Prop :=
  ∀ x ∈ r.model.generated, Renders mode s r.symbols x

theorem Rendered.turn (h : Rendered mode s r) (ht : Taken r e later)
    (hw : Worked mode s e later after c) : Rendered mode s after := by
  have hgrows : r.symbols.Grows after.symbols := by
    rw [hw.symbols, ← ht.symbols]
    exact SymbolTable.grows_issueAll ..
  have hmodel := hw.model
  rw [ht.model] at hmodel
  cases hd : declared? mode s.host e.type with
  | none =>
    rw [(contribution_of_none hd hw.contribution after.symbols).2.1] at hmodel
    intro x hx
    rw [← Except.ok.inj hmodel] at hx
    exact (h x hx).grows hgrows
  | some d =>
    obtain ⟨a, ha, hasked, hvalue⟩ := contribution_of_some hd hw.contribution
    rw [(hvalue after.symbols).2.1] at hmodel
    intro x hx
    rcases Model.mem_generated_of_add hmodel hx with hx | rfl
    · exact (h x hx).grows hgrows
    · have hknown : c.asked ⊆ after.symbols.types := by
        rw [hw.symbols]
        exact SymbolTable.subset_types_issueAll ..
      rw [hasked] at hknown
      have hsource := a.source_declaration s.settings e.type d after.symbols
      unfold Renders
      rw [hsource]
      exact ⟨d, a, hd, ha, (List.append_subset.1 hknown).2, rfl⟩

theorem Rendered.of_during (hs : s.Acts mode types) (htypes : candidates s.host roots ⊆ types)
    (h : During s roots r) : Rendered mode s r :=
  h.invariant hs htypes (fun _ hx => nomatch hx) fun hr ht _ hw => hr.turn ht hw

/-- What a run that has ended declares are the reached types that declare a class. -/
theorem Exact.mem_sources_generated_iff (h : Exact s roots r)
    (hnext : r.next? = none) (t : HostType) :
    t ∈ r.model.generated.map (·.source) ↔ s.Reached roots t ∧ ∃ d, s.declarable? t = some d := by
  rw [Model.map_source_generated, List.mem_append, h.beans, h.enumerations,
    h.mem_declaring_iff hnext, h.mem_declaring_iff hnext, ← and_or_left, ← exists_or]
  refine and_congr_right fun _ => exists_congr fun d => ?_
  cases d.isEnum <;> simp

/-- In a run that has ended every reached type that declares a class has a declaration under its
symbol. -/
theorem symbol_mem_of_reached (hexact : Exact s roots r) (hrendered : Rendered mode s r)
    (hnext : r.next? = none) {t : HostType} (hreached : s.Reached roots t) {d : ClassDecl}
    (hd : s.declarable? t = some d) :
    (r.symbols.symbol t).1 ∈ r.model.generated.map (·.symbol) := by
  obtain ⟨x, hx, rfl⟩ :=
    List.mem_map.1 ((hexact.mem_sources_generated_iff hnext t).2 ⟨hreached, d, hd⟩)
  rw [← (hrendered x hx).symbol_eq]
  exact List.mem_map_of_mem hx

theorem reached_of_mem_answers (hs : s.Acts mode types) (htypes : candidates s.host roots ⊆ types)
    (hconfined : Confined (candidates s.host roots) r) (hexact : Exact s roots r) {b : Bean}
    (hb : b ∈ r.model.beans) {d : ClassDecl} {a : ClassAnswer}
    (hd : declared? mode s.host b.source = some d)
    (ha : classAnswer mode s.host s.settings b.source d = .ok a) {x : Answer} (hx : x ∈ a.answers)
    {t : HostType} (ht : t ∈ x.dependents) : s.Reached roots t := by
  have hsource : b.source ∈ r.declaring s fun d => !d.isEnum :=
    hexact.beans ▸ List.mem_map_of_mem hb
  have hseen : b.source ∈ r.seen := (List.mem_filter.1 hsource).1
  have htype : b.source ∈ types := htypes (hconfined.seen hseen)
  refine (hexact.sound b.source (.inl hseen)).dependent (List.mem_append_right _ ?_)
  rw [Setup.declarable?_eq hs htype, hd, Option.elim_some,
    Setup.mem_declarationDependents hs htype (Setup.declared?_mem hd) ha]
  exact ClassAnswer.dependents_subset_of_mem_answers hx ht

end Run

/-- A declaration of a successful run of the standard pipeline is that of a class, put together from
the answers for it with symbols that are all issued. -/
theorem exists_answer_of_mem_generated {settings : Settings} {u : Universe}
    {roots : List HostType} {r : Run} (h : standardRun settings u roots = .ok r) {x : Declaration}
    (hx : x ∈ r.model.generated) :
    ∃ d a, x.source = .named d.name ∧ u.get? d.name = some d ∧
      classAnswer settings.functionalMode u settings x.source d = .ok a ∧
      (a.script settings x.source d).asked ⊆ r.symbols.types ∧
      ((a.script settings x.source d).value r.symbols).1 = x := by
  have hs := acts_standardSetup settings u roots
  have htypes : candidates u roots ⊆ u.writtenTypes ++ candidates u roots :=
    List.subset_append_right ..
  obtain ⟨hduring, -⟩ := Run.During.of_run h
  have hrendered : Run.Rendered settings.functionalMode (standardSetup settings u roots) r :=
    Run.Rendered.of_during hs htypes hduring
  obtain ⟨d, a, hd, ha, hasked, hvalue⟩ := hrendered x hx
  obtain ⟨hsource, hclass⟩ := Setup.eq_named_of_declared? hd
  exact ⟨d, a, hsource, hclass, ha, hasked, hvalue⟩

theorem exists_answer_of_mem_beans {settings : Settings} {u : Universe}
    {roots : List HostType} {r : Run} (h : standardRun settings u roots = .ok r) {b : Bean}
    (hb : b ∈ r.model.beans) :
    ∃ d a, b.source = .named d.name ∧ u.get? d.name = some d ∧
      classAnswer settings.functionalMode u settings b.source d = .ok a ∧
      (a.script settings b.source d).asked ⊆ r.symbols.types ∧
      ((a.script settings b.source d).value r.symbols).1 = .bean b :=
  exists_answer_of_mem_generated h (List.mem_append_left _ (List.mem_map_of_mem hb))

end TypeBridge
