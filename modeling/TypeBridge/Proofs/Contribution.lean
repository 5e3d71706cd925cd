import TypeBridge.Closure.Setup
import TypeBridge.Proofs.Resolution

/-!
# What an entry brings

The script of the work on one entry, put together from answers: `MemberAnswer` for a member of a
declaration, `ClassAnswer` for a declaration and `contribution` for the entry.  They have every
target type of a declaration as an `Answer`, so whatever is known of answers is known of
declarations, whatever was worked on before.

`Setup.Acts` is all that is needed of a setup: its resolver acts out the standard chain's answers at
the types that it is asked for.
-/

namespace TypeBridge

open Functional Resolving

/-! ## Members -/

/-- The type that a member itself is resolved for.  A constructor makes the type that is
declared. -/
def Site.ownType (source : HostType) : Site → HostType
  | .type _ => source
  | .field _ f => f.type
  | .method _ m => m.returnType
  | .constructor .. => source

/-- The types of the parameters that are declared with a member. -/
def Site.paramTypes : Site → List HostType
  | .method _ m => m.params.map (·.type)
  | _ => []

/-- What a member resolves to: its own type, and its parameters where they are looked at. -/
structure MemberAnswer where
  own : Answer
  params : List Answer

namespace MemberAnswer

def answers (a : MemberAnswer) : List Answer :=
  a.own :: a.params

def dependents (a : MemberAnswer) : List HostType :=
  a.answers.flatMap (·.dependents)

end MemberAnswer

/-- An override stands for the whole member; without one every type is translated by itself. -/
def memberAnswer (mode : FunctionalMode) (u : Universe) (source : HostType) (site : Site) :
    Except Failure MemberAnswer :=
  (Override.ofSite u.providers site).map fun
    | some override => ⟨.override override, []⟩
    | none => ⟨.outline (outline mode u [] (site.ownType source)),
        site.paramTypes.map fun t => .outline (outline mode u [] t)⟩

theorem memberAnswer_eq_ok {mode : FunctionalMode} {u : Universe} {source : HostType} {site : Site}
    {m : MemberAnswer} (h : memberAnswer mode u source site = .ok m) :
    (∃ r, Override.ofSite u.providers site = .ok (some r) ∧ m = ⟨.override r, []⟩) ∨
    Override.ofSite u.providers site = .ok none ∧
      m = ⟨.outline (outline mode u [] (site.ownType source)),
        site.paramTypes.map fun t => .outline (outline mode u [] t)⟩ := by
  obtain ⟨override, hoverride, rfl⟩ := except_map_eq_ok.1 h
  cases override with
  | some r => exact .inl ⟨r, hoverride, rfl⟩
  | none => exact .inr ⟨hoverride, rfl⟩

def Resolution.found (site : Site) (r : Resolution) : List Entry :=
  r.dependents.map (.discovered site.owner.name site.memberName?)

namespace Setup.Members

def append (ms later : Members) : Members where
  properties := ms.properties ++ later.properties
  methods := ms.methods ++ later.methods
  discovered := ms.discovered ++ later.discovered

def concat (parts : List Members) : Members where
  properties := parts.flatMap (·.properties)
  methods := parts.flatMap (·.methods)
  discovered := parts.flatMap (·.discovered)

def propertyOf (settings : Settings) (f : FieldDecl) (type : TargetType) : Property where
  name := f.name
  type := type
  optional := Selection.anyMarker settings.optionalMarkers f.markers

def methodOf (m : MethodDecl) (params : List TargetType) (result : TargetType) : Method where
  name := m.name
  params := (m.params.mapIdx parameterName).zip params
  result := result
  arity := m.params.length
  isStatic := m.kind == .static
  optional := m.kind == .default

def methodOfConstructor? (c : ConstructorDecl) (result : TargetType) : Option Method :=
  if result.isVerbatim then some { name := "constructor", result, arity := c.params.length }
    else none

def ofSite (settings : Settings) (site : Site) (own : Resolution) (params : List Resolution) :
    Members :=
  let discovered := (own :: params).flatMap (·.found site)
  match site with
  | .type _ => {}
  | .field _ f => { properties := [propertyOf settings f own.type], discovered }
  | .method _ m => { methods := [methodOf m (params.map (·.type)) own.type], discovered }
  | .constructor _ c => { methods := (methodOfConstructor? c own.type).toList, discovered }

end Setup.Members

namespace MemberAnswer

def script (settings : Settings) (site : Site) (a : MemberAnswer) : Script Setup.Members :=
  .zip (.ofSite settings site) a.own.script (.list (a.params.map Answer.script))

end MemberAnswer

/-! ## Declarations and entries -/

/-- What a class resolves to: its header, and where it is not an enumeration its super types and
members. -/
structure ClassAnswer where
  header : Option Resolution
  parents : List Outline := []
  members : List (Site × MemberAnswer) := []

def classAnswer (mode : FunctionalMode) (u : Universe) (settings : Settings) (source : HostType)
    (d : ClassDecl) : Except Failure ClassAnswer := do
  let header ← Override.ofSite u.providers (.type d)
  if d.isEnum then
    pure { header }
  else
    let members ← (Selection.declared settings d).mapM fun site =>
      (memberAnswer mode u source site).map (site, ·)
    pure { header, parents := d.superTypes.map (outline mode u []), members }

/-- An enumeration has a header only, any other class the outlines of its super types and the
answers of its members. -/
theorem classAnswer_eq_ok {mode : FunctionalMode} {u : Universe} {settings : Settings}
    {source : HostType} {d : ClassDecl} {a : ClassAnswer}
    (h : classAnswer mode u settings source d = .ok a) :
    Override.ofSite u.providers (.type d) = .ok a.header ∧
      (d.isEnum = true ∧ a.parents = [] ∧ a.members = [] ∨
      d.isEnum = false ∧ a.parents = d.superTypes.map (outline mode u []) ∧
        a.members.map Prod.fst = Selection.declared settings d ∧
        ∀ p ∈ a.members, memberAnswer mode u source p.1 = .ok p.2) := by
  obtain ⟨header, hheader, h⟩ := except_bind_eq_ok.1 h
  cases henum : d.isEnum with
  | true =>
    simp only [henum, ↓reduceIte] at h
    cases h
    exact ⟨hheader, .inl ⟨rfl, rfl, rfl⟩⟩
  | false =>
    simp only [henum, Bool.false_eq_true, ↓reduceIte] at h
    obtain ⟨members, hmembers, h⟩ := except_bind_eq_ok.1 h
    cases h
    exact ⟨hheader, .inr ⟨rfl, rfl, mapM_tagged hmembers⟩⟩

namespace ClassAnswer

def signature (a : ClassAnswer) : Option String :=
  a.header.bind fun r => Setup.signatureText r.type

def foundByHeader (d : ClassDecl) (a : ClassAnswer) : List Entry :=
  match a.header with
  | none => []
  | some r => r.dependents.map (.discovered d.name none)

def enumeration (source : HostType) (d : ClassDecl) (a : ClassAnswer) (symbol : Symbol) :
    Declaration × List Entry :=
  (.enumeration
      { source, symbol, signature := a.signature, members := d.constants.map Setup.enumMember },
    a.foundByHeader d)

def bean (source : HostType) (d : ClassDecl) (a : ClassAnswer) (symbol : Symbol)
    (parents : List TargetType × List Entry) (members : Setup.Members) : Declaration × List Entry :=
  (.bean
    { source, symbol, typeParams := d.typeParams, parents := parents.1, signature := a.signature,
      properties := members.properties, methods := members.methods },
    a.foundByHeader d ++ parents.2 ++ members.discovered)

/-- The super types that are declarations, and the entries discovered by all of them. -/
def parentsOf (d : ClassDecl) (rs : List Resolution) : List TargetType × List Entry :=
  ((rs.map (·.type)).filter (·.isReference),
    rs.flatMap fun r => r.dependents.map (.discovered d.name none))

def parentsScript (d : ClassDecl) (a : ClassAnswer) : Script (List TargetType × List Entry) :=
  (Script.list (a.parents.map Outline.script)).map (parentsOf d)

def membersScript (settings : Settings) (a : ClassAnswer) : Script Setup.Members :=
  (Script.list (a.members.map fun (site, m) => m.script settings site)).map .concat

def script (settings : Settings) (source : HostType) (d : ClassDecl) (a : ClassAnswer) :
    Script (Declaration × List Entry) :=
  if d.isEnum then
    (Script.symbol source).map (a.enumeration source d)
  else
    Script.zip (fun symbol parts => a.bean source d symbol parts.1 parts.2) (.symbol source)
      (.zip Prod.mk (a.parentsScript d) (a.membersScript settings))

theorem script_of_isEnum {d : ClassDecl} (h : d.isEnum = true) (settings : Settings)
    (source : HostType) (a : ClassAnswer) :
    a.script settings source d = (Script.symbol source).map (a.enumeration source d) :=
  if_pos h

theorem script_of_not_isEnum {d : ClassDecl} (h : d.isEnum = false) (settings : Settings)
    (source : HostType) (a : ClassAnswer) :
    a.script settings source d =
      Script.zip (fun symbol parts => a.bean source d symbol parts.1 parts.2) (.symbol source)
        (.zip Prod.mk (a.parentsScript d) (a.membersScript settings)) := by
  unfold script
  rw [h]
  rfl

end ClassAnswer

/-- The class that the standard chain leaves a bare class to declare. -/
def declared? (mode : FunctionalMode) (u : Universe) : HostType → Option ClassDecl
  | .named name => if (outline mode u [] (.named name)).isReference then u.get? name else none
  | _ => none

def contribution (mode : FunctionalMode) (u : Universe) (settings : Settings) (e : Entry) :
    Except Failure (Script Contribution) :=
  let own := (outline mode u [] e.type).script
  match declared? mode u e.type with
  | none => .ok (own.map fun r => { discovered := r.dependents.map e.derive })
  | some d => (classAnswer mode u settings e.type d).map fun a =>
      own.zip (fun r (declaration, found) =>
        { declaration := some declaration, discovered := found ++ r.dependents.map e.derive })
        (a.script settings e.type d)

/-! ## A setup that acts out answers -/

/-- A setup of the standard pipeline whose resolver acts out the answers at `types`, among them
everything that is written in the universe. -/
structure Setup.Acts (s : Setup) (mode : FunctionalMode) (types : List HostType) : Prop where
  claimants : s.claimants = []
  selection : s.selection = Selection.declared
  written : ∀ d ∈ s.host.classes, ∀ t ∈ d.writtenTypes, t ∈ types
  follows : ∀ site, ∀ t ∈ types, Follows (s.resolver (s.context site) t)
    ((answer mode (s.context site) t).map fun a => a.script.map some)

namespace Setup

variable {s : Setup} {mode : FunctionalMode} {types : List HostType}

theorem answer_of_none {site : Site} (h : Override.ofSite s.host.providers site = .ok none)
    (t : HostType) :
    answer mode (s.context (some site)) t = .ok (.outline (outline mode s.host [] t)) := by
  have hcontext : Override.ofContext (s.context (some site)) = .ok none := h
  unfold answer
  rw [hcontext]
  rfl

theorem answer_of_some {site : Site} {r : Resolution}
    (h : Override.ofSite s.host.providers site = .ok (some r)) (t : HostType) :
    answer mode (s.context (some site)) t = .ok (.override r) := by
  have hcontext : Override.ofContext (s.context (some site)) = .ok (some r) := h
  unfold answer
  rw [hcontext]
  rfl

theorem answer_of_error {site : Site} {f : Failure}
    (h : Override.ofSite s.host.providers site = .error f) (t : HostType) :
    answer mode (s.context (some site)) t = .error f := by
  have hcontext : Override.ofContext (s.context (some site)) = .error f := h
  unfold answer
  rw [hcontext]
  rfl

theorem follows_resolveAt (hs : s.Acts mode types) (site : Site) {t : HostType} (ht : t ∈ types) :
    Follows (s.resolveAt site t) ((answer mode (s.context (some site)) t).map fun a =>
      a.script.map fun r => (r.type, r.found site)) := by
  have hresolver := hs.follows (some site) t ht
  cases ha : answer mode (s.context (some site)) t with
  | error f =>
    rw [ha] at hresolver
    have hany : Follows (s.resolver.orAny (s.context (some site)) t) (.error f) :=
      follows_orAny hresolver
    exact hany.bind_error
  | ok a =>
    rw [ha] at hresolver
    have hany : Follows (s.resolver.orAny (s.context (some site)) t) (.ok a.script) :=
      follows_orAny hresolver
    exact hany.bind_pure _

/-- Parameters from the place `index` on, translated one by one. -/
theorem follows_resolveParams (hs : s.Acts mode types) {site : Site}
    (hsite : Override.ofSite s.host.providers site = .ok none) {params : List ParamDecl}
    (hparams : ∀ p ∈ params, p.type ∈ types) (index : Nat) :
    Follows (s.resolveParams site index params)
      (.ok ((Script.list (params.map fun p => (outline mode s.host [] p.type).script)).map fun rs =>
        ((params.mapIdx fun i p => parameterName (index + i) p).zip (rs.map (·.type)),
          rs.flatMap (·.found site)))) := by
  induction params generalizing index with
  | nil => exact follows_pure ([], [])
  | cons p rest ih =>
    have hfirst := follows_resolveAt hs site (hparams p List.mem_cons_self)
    rw [answer_of_none hsite] at hfirst
    have hrest := ih (fun q hq => hparams q (List.mem_cons_of_mem p hq)) (index + 1)
    refine Follows.of_eq (s := Script.zip (fun own later =>
        ((parameterName index p, own.1) :: later.1, own.2 ++ later.2))
      ((outline mode s.host [] p.type).script.map fun r => (r.type, r.found site))
      ((Script.list (rest.map fun p => (outline mode s.host [] p.type).script)).map fun rs =>
        ((rest.mapIdx fun i p => parameterName (index + 1 + i) p).zip (rs.map (·.type)),
          rs.flatMap (·.found site)))) ?_ ?_ fun table => ?_
    · exact Follows.bind (q := .ok _) hfirst fun table => hrest.bind_pure _
    · rfl
    · simp only [List.mapIdx_cons, Nat.add_zero, Nat.add_assoc, Nat.add_comm 1]
      rfl

/-! ## Members -/

theorem memberAnswer_of_no_params {site : Site} (h : site.paramTypes = []) (source : HostType) :
    memberAnswer mode s.host source site =
      (answer mode (s.context (some site)) (site.ownType source)).map fun own => ⟨own, []⟩ := by
  unfold memberAnswer
  cases ho : Override.ofSite s.host.providers site with
  | error f => rw [answer_of_error ho]; rfl
  | ok r =>
    cases r with
    | some r => rw [answer_of_some ho]; rfl
    | none => rw [answer_of_none ho, h]; rfl

/-- A member of one type, added once that is resolved. -/
theorem follows_addMember_of_no_params (hs : s.Acts mode types) (site : Site)
    (members : TargetType × List Entry → Members) (hsite : site.paramTypes = []) {source : HostType}
    (hown : site.ownType source ∈ types) {ms : Members}
    (hadd : s.addMember source ms site = do
      let own ← s.resolveAt site (site.ownType source)
      pure (ms.append (members own)))
    (hmembers : ∀ r : Resolution, members (r.type, r.found site) = .ofSite s.settings site r []) :
    Follows (s.addMember source ms site) ((memberAnswer mode s.host source site).map fun a =>
      (a.script s.settings site).map ms.append) := by
  have hmember := (follows_resolveAt hs site hown).bind_pure fun own => ms.append (members own)
  rw [hadd, memberAnswer_of_no_params hsite]
  cases ha : answer mode (s.context (some site)) (site.ownType source) with
  | error e =>
    rw [ha] at hmember
    exact hmember
  | ok a =>
    rw [ha] at hmember
    refine Follows.of_eq hmember (List.append_nil _).symm fun table => ?_
    simp only [Script.map, hmembers]
    rfl

theorem follows_addField (hs : s.Acts mode types) {d : ClassDecl} {f : FieldDecl}
    (hf : f.type ∈ types) (source : HostType) (ms : Members) :
    Follows (s.addMember source ms (.field d f))
      ((memberAnswer mode s.host source (.field d f)).map fun a =>
        (a.script s.settings (.field d f)).map ms.append) := by
  refine follows_addMember_of_no_params hs (.field d f)
    (fun own => { properties := [Members.propertyOf s.settings f own.1], discovered := own.2 })
    rfl hf ?_ fun r => ?_
  · simp [addMember, buildProperty, Members.append, Members.propertyOf, Site.ownType]
  · simp [Members.ofSite]

theorem buildConstructor_eq (site : Site) (source : HostType) (c : ConstructorDecl) :
    s.buildConstructor site source c =
      s.resolveAt site source >>= fun r => pure (Members.methodOfConstructor? c r.1, r.2) := by
  unfold buildConstructor Members.methodOfConstructor?
  refine congrArg _ (funext fun (type, found) => ?_)
  by_cases hv : type.isVerbatim = true <;> simp [hv]

theorem follows_addConstructor (hs : s.Acts mode types) {source : HostType}
    (hsource : source ∈ types) (d : ClassDecl) (c : ConstructorDecl) (ms : Members) :
    Follows (s.addMember source ms (.constructor d c))
      ((memberAnswer mode s.host source (.constructor d c)).map fun a =>
        (a.script s.settings (.constructor d c)).map ms.append) := by
  refine follows_addMember_of_no_params hs (.constructor d c)
    (fun own => { methods := (Members.methodOfConstructor? c own.1).toList, discovered := own.2 })
    rfl hsource ?_ fun r => ?_
  · simp [addMember, buildConstructor_eq, Members.append, Site.ownType]
  · simp [Members.ofSite]

theorem buildMethod_eq (site : Site) (m : MethodDecl) :
    s.buildMethod site m = s.resolveAt site m.returnType >>= fun r =>
      (if r.1.isVerbatim then pure ([], []) else s.resolveParams site 0 m.params) >>= fun ps =>
        pure ({ Members.methodOf m [] r.1 with params := ps.1 }, r.2 ++ ps.2) := by
  unfold buildMethod Members.methodOf
  refine congrArg _ (funext fun (type, found) => ?_)
  by_cases hv : type.isVerbatim = true
  · simp only [hv, ↓reduceIte]
  · simp only [hv, Bool.false_eq_true, ↓reduceIte]

theorem follows_buildMethod {site : Site} {m : MethodDecl} {own : Answer}
    {params : Script (List (String × TargetType) × List Entry)}
    (hown : Follows (s.resolveAt site m.returnType)
      (.ok (own.script.map fun r => (r.type, r.found site))))
    (hparams : Follows (if own.isVerbatim then pure ([], []) else s.resolveParams site 0 m.params)
      (.ok params)) :
    Follows (s.buildMethod site m)
      (.ok (.zip (fun r ps => ({ Members.methodOf m [] r.1 with params := ps.1 }, r.2 ++ ps.2))
        (own.script.map fun r => (r.type, r.found site)) params)) := by
  rw [buildMethod_eq]
  refine Follows.bind (q := .ok params) hown fun table => ?_
  rw [← own.isVerbatim_type table] at hparams
  exact hparams.bind_pure _

theorem follows_addMethod (hs : s.Acts mode types) {d : ClassDecl} {m : MethodDecl}
    (hm : ∀ t ∈ m.returnType :: m.params.map (·.type), t ∈ types)
    (source : HostType) (ms : Members) :
    Follows (s.addMember source ms (.method d m))
      ((memberAnswer mode s.host source (.method d m)).map fun a =>
        (a.script s.settings (.method d m)).map ms.append) := by
  have hresult := follows_resolveAt hs (.method d m) (hm m.returnType List.mem_cons_self)
  unfold memberAnswer
  cases ho : Override.ofSite s.host.providers (.method d m) with
  | error e =>
    rw [answer_of_error ho] at hresult
    exact hresult.bind_error.bind_error
  | ok r =>
    cases r with
    | some r =>
      have hverbatim : (Answer.override r).isVerbatim = true := Override.ofSite_verbatim ho
      rw [answer_of_some ho] at hresult
      have hparams : Follows (if (Answer.override r).isVerbatim then pure ([], [])
          else s.resolveParams (.method d m) 0 m.params) (.ok (.pure ([], []))) := by
        simp only [hverbatim, ↓reduceIte]
        exact follows_pure _
      have hmethod := follows_buildMethod hresult hparams
      refine Follows.of_eq (hmethod.bind_pure _) rfl fun table => ?_
      simp [MemberAnswer.script, Script.map, Script.zip, Script.list, Script.pure, Members.append,
        Members.ofSite, Members.methodOf]
    | none =>
      rw [answer_of_none ho] at hresult
      have hmethod := follows_buildMethod hresult (follows_resolveParams hs ho (fun p hp =>
        hm p.type (List.mem_cons_of_mem _ (List.mem_map_of_mem hp))) 0)
      refine Follows.of_eq (hmethod.bind_pure _) ?_ fun table => ?_
      · simp [MemberAnswer.script, Script.map, Script.zip, Script.asked_list, Site.paramTypes,
          List.flatMap_map, Answer.script]
        rfl
      · simp [MemberAnswer.script, Script.map, Script.zip, Script.value_list, Members.append,
          Members.ofSite, Members.methodOf, Site.paramTypes]
        exact ⟨⟨rfl, rfl⟩, rfl⟩

/-! ## Declarations -/

theorem mem_declared {settings : Settings} {d : ClassDecl} {site : Site}
    (h : site ∈ Selection.declared settings d) :
    (∃ f ∈ d.fields, site = .field d f) ∨ (∃ m ∈ d.methods, site = .method d m) ∨
      ∃ c ∈ d.constructors, site = .constructor d c := by
  simp only [Selection.declared, List.mem_append, List.mem_map, or_assoc] at h
  rcases h with ⟨f, hf, rfl⟩ | ⟨m, hm, rfl⟩ | ⟨c, hc, rfl⟩
  · exact .inl ⟨f, (List.mem_filter.1 hf).1, rfl⟩
  · exact .inr (.inl ⟨m, (List.mem_filter.1 hm).1, rfl⟩)
  · exact .inr (.inr ⟨c, (List.mem_filter.1 hc).1, rfl⟩)

theorem follows_addMember (hs : s.Acts mode types) {source : HostType} (hsource : source ∈ types)
    {d : ClassDecl} (hd : d ∈ s.host.classes) {site : Site}
    (hsite : site ∈ Selection.declared s.settings d) (ms : Members) :
    Follows (s.addMember source ms site) ((memberAnswer mode s.host source site).map fun a =>
      (a.script s.settings site).map ms.append) := by
  rcases mem_declared hsite with ⟨f, hf, rfl⟩ | ⟨m, hm, rfl⟩ | ⟨c, hc, rfl⟩
  · exact follows_addField hs
      (hs.written d hd _ (ClassDecl.mem_writtenTypes_of_fields hf)) source ms
  · exact follows_addMethod hs
      (fun t ht => hs.written d hd t (ClassDecl.mem_writtenTypes_of_methods hm ht)) source ms
  · exact follows_addConstructor hs hsource d c ms

theorem foldl_append (ms : Members) (parts : List Members) :
    parts.foldl Members.append ms = ms.append (.concat parts) := by
  induction parts generalizing ms with
  | nil => simp [Members.append, Members.concat]
  | cons part rest ih => simp [ih, Members.append, Members.concat]

theorem follows_buildMembers (hs : s.Acts mode types) {source : HostType} (hsource : source ∈ types)
    {d : ClassDecl} (hd : d ∈ s.host.classes) :
    Follows (s.buildMembers source (Selection.declared s.settings d))
      (((Selection.declared s.settings d).mapM fun site =>
        (memberAnswer mode s.host source site).map (site, ·)).map fun ms =>
          (Script.list (ms.map fun (site, m) => m.script s.settings site)).map .concat) := by
  have hconcat : Members.concat = List.foldl Members.append ({} : Members) :=
    funext fun parts => by simp [foldl_append, Members.append]
  rw [hconcat]
  refine follows_foldlM (fun ms site hsite => ?_) ({} : Members)
  have hmember := follows_addMember hs hsource hd hsite ms
  cases ha : memberAnswer mode s.host source site with
  | error f => rw [ha] at hmember; exact hmember
  | ok a => rw [ha] at hmember; exact hmember

/-- A super type put in front of the ones behind it. -/
def addParent (owner : String) (resolution : Option Resolution)
    (later : List TargetType × List Entry) : List TargetType × List Entry :=
  match resolution with
  | none => later
  | some r => ((if r.type.isReference then [r.type] else []) ++ later.1,
      r.dependents.map (.discovered owner none) ++ later.2)

theorem buildParents_cons (owner : String) (t : HostType) (rest : List HostType) :
    s.buildParents owner (t :: rest) = s.resolver (s.context none) t >>= fun r =>
      s.buildParents owner rest >>= fun later => pure (addParent owner r later) := by
  refine congrArg _ (funext fun r => ?_)
  cases r <;> rfl

theorem follows_buildParents (hs : s.Acts mode types) (d : ClassDecl) {parents : List HostType}
    (h : ∀ t ∈ parents, t ∈ types) :
    Follows (s.buildParents d.name parents)
      (.ok ((Script.list ((parents.map (outline mode s.host [])).map Outline.script)).map
        (ClassAnswer.parentsOf d))) := by
  induction parents with
  | nil => exact follows_pure ([], [])
  | cons t rest ih =>
    have hfirst :
        Follows (s.resolver (s.context none) t)
          (.ok ((outline mode s.host [] t).script.map some)) :=
      hs.follows none t (h t List.mem_cons_self)
    have hrest := ih fun t' ht' => h t' (List.mem_cons_of_mem t ht')
    rw [buildParents_cons]
    refine Follows.of_eq (Follows.bind (q := .ok _) (f := addParent d.name) hfirst fun table =>
      hrest.bind_pure _) rfl fun table => ?_
    simp only [Script.map, Script.zip, Script.list, List.map_cons, addParent, ClassAnswer.parentsOf]
    by_cases hr : ((outline mode s.host [] t).script.value table).type.isReference =
      true <;> simp [hr]

theorem follows_buildSignature (d : ClassDecl) :
    Follows (s.buildSignature d) ((Override.ofSite s.host.providers (.type d)).map fun header =>
      .pure ((ClassAnswer.mk header [] []).signature,
          (ClassAnswer.mk header [] []).foundByHeader d)) := by
  have hheader := follows_ofExcept (Override.ofSite s.host.providers (.type d))
  unfold buildSignature
  cases ho : Override.ofSite s.host.providers (.type d) with
  | error f =>
    rw [ho] at hheader
    exact hheader.bind_error
  | ok header => cases header <;> exact follows_pure _

/-- **The declaration of a class acts out its answer.** -/
theorem follows_declare (hs : s.Acts mode types) {source : HostType} (hsource : source ∈ types)
    {d : ClassDecl} (hd : d ∈ s.host.classes) :
    Follows (s.declare source d) ((classAnswer mode s.host s.settings source d).map fun a =>
      a.script s.settings source d) := by
  have hheader := follows_buildSignature (s := s) d
  unfold declare classAnswer
  cases ho : Override.ofSite s.host.providers (.type d) with
  | error f =>
    rw [ho] at hheader
    exact hheader.bind_error
  | ok header =>
    rw [ho] at hheader
    refine hheader.pure_bind ?_
    cases henum : d.isEnum with
    | true =>
      simp only [↓reduceIte]
      change Follows _ (.ok (ClassAnswer.script ..))
      rw [ClassAnswer.script_of_isEnum henum]
      exact (follows_symbolOf source).bind_pure _
    | false =>
      have hparents := follows_buildParents hs d fun t ht =>
        hs.written d hd t (ClassDecl.mem_writtenTypes_of_superTypes ht)
      have hmembers := follows_buildMembers hs hsource hd
      rw [hs.selection]
      simp only [Bool.false_eq_true, ↓reduceIte]
      cases hm : (Selection.declared s.settings d).mapM fun site =>
          (memberAnswer mode s.host source site).map (site, ·) with
      | error f =>
        rw [hm] at hmembers
        refine Follows.bind (q := .error f) (f := fun _ (later : Declaration × List Entry) => later)
          (follows_symbolOf source) fun table => ?_
        refine Follows.bind (q := .error f) (f := fun _ (later : Declaration × List Entry) => later)
          hparents fun table => ?_
        exact hmembers.bind_error
      | ok ms =>
        rw [hm] at hmembers
        let a : ClassAnswer := ⟨header, d.superTypes.map (outline mode s.host []), ms⟩
        change Follows _ (.ok (a.script ..))
        rw [ClassAnswer.script_of_not_isEnum henum]
        refine Follows.bind
          (q := .ok (.zip Prod.mk (a.parentsScript d) (a.membersScript s.settings)))
          (follows_symbolOf source) fun table => ?_
        exact Follows.bind (q := .ok (a.membersScript s.settings))
          (f := fun ps members => a.bean source d _ ps members) hparents fun table =>
            hmembers.bind_pure _

/-! ## Entries -/

theorem declaredClass?_realize (table : SymbolTable) (t : HostType) :
    s.declaredClass? t ((outline mode s.host [] t).realize table) = declared? mode s.host t := by
  cases t <;> simp only [declaredClass?, declared?, Outline.isReference_realize]

theorem eq_named_of_declared? {u : Universe} {t : HostType} {d : ClassDecl}
    (h : declared? mode u t = some d) : t = .named d.name ∧ u.get? d.name = some d := by
  cases t with
  | named name =>
    simp only [declared?] at h
    split at h
    · rw [Universe.get?_name h]
      exact ⟨rfl, h⟩
    · cases h
  | _ => cases h

theorem declared?_mem {u : Universe} {t : HostType} {d : ClassDecl}
    (h : declared? mode u t = some d) : d ∈ u.classes :=
  Universe.get?_mem (eq_named_of_declared? h).2

/-- **The work on an entry acts out its script.** -/
theorem follows_contribute (hs : s.Acts mode types) {e : Entry} (he : e.type ∈ types) :
    Follows (s.contribute e) (contribution mode s.host s.settings e) := by
  have hown : Follows (s.resolver (s.context none) e.type)
      (.ok ((outline mode s.host [] e.type).script.map some)) := hs.follows none e.type he
  unfold contribute
  rw [hs.claimants]
  change Follows (s.resolveEntry e) _
  unfold resolveEntry contribution
  have hclass (table : SymbolTable) : s.declaredClass? e.type _ = declared? mode s.host e.type :=
    declaredClass?_realize table e.type
  cases hd : declared? mode s.host e.type with
  | none =>
    refine Follows.bind_of_eq_pure hown fun table => ?_
    simp only [Outline.script, Outline.resolution, hclass table, hd]
  | some d =>
    have hdeclare := follows_declare hs he (declared?_mem hd)
    have hk (table : SymbolTable) : s.declaredClass? e.type _ = some d := (hclass table).trans hd
    dsimp only
    cases ha : classAnswer mode s.host s.settings e.type d with
    | error f =>
      rw [ha] at hdeclare
      refine Follows.bind_map (q := .error f) (f := fun _ (later : Contribution) => later) hown
        fun table => ?_
      simp only [Outline.script, Outline.resolution, hk table]
      exact hdeclare.bind_error
    | ok a =>
      rw [ha] at hdeclare
      refine Follows.bind_map (q := .ok (a.script s.settings e.type d)) hown fun table => ?_
      simp only [Outline.script, Outline.resolution, hk table]
      exact hdeclare.bind_pure _

end Setup

end TypeBridge
