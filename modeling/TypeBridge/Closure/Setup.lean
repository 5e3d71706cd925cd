import TypeBridge.Closure.Selection
import TypeBridge.Model.Basic
import TypeBridge.Resolution.Override

/-!
# Work on one type

A run takes types off a queue, each as an `Entry` that also says where the type was found.  What an
entry brings is a `Contribution`: a declaration of its own, or the declarations of a claimant that
takes the entry over, and the entries discovered on the way.
-/

namespace TypeBridge

/-- A type to work on. -/
structure Entry where
  type : HostType
  /-- The class on which it was found; a root has none. -/
  usedIn : Option String := none
  /-- The member of that class. -/
  usedInMember : Option String := none
deriving DecidableEq

namespace Entry

/-- Another type found in the same place. -/
def derive (e : Entry) (type : HostType) : Entry :=
  { e with type }

/-- A type found on a class, or on one of its members. -/
def discovered (owner : String) (member : Option String) (type : HostType) : Entry :=
  ⟨type, some owner, member⟩

end Entry

/-- What a claimant has for an entry. -/
structure Claim where
  declarations : List External := []
  dependents : List HostType := []

/-- A part of the pipeline that may take over an entry before the chain sees it. -/
structure Claimant where
  name : String
  claim : Resolver → Context → Entry → Resolving (Option Claim)

/-- The fixed parts of a run. -/
structure Setup where
  host : Universe
  settings : Settings
  resolver : Resolver
  claimants : List Claimant := []
  selection : Selection := Selection.declared

/-- What an entry brings: declarations and further entries. -/
structure Contribution where
  declaration : Option Declaration := none
  externals : List External := []
  discovered : List Entry := []

namespace Setup

/-- A fresh context, for the type of a declaration or for none. -/
def context (s : Setup) (site : Option Site) : Context where
  host := s.host
  settings := s.settings
  site := site

/-! ## Members -/

/-- A type of a declaration, and the entries discovered by it. -/
def resolveAt (s : Setup) (site : Site) (type : HostType) :
    Resolving (TargetType × List Entry) := do
  let resolution ← s.resolver.orAny (s.context (some site)) type
  pure (resolution.type, resolution.dependents.map (.discovered site.owner.name site.memberName?))

/-- The parameters of a method from the place `index` on. -/
def resolveParams (s : Setup) (site : Site) (index : Nat) :
    List ParamDecl → Resolving (List (String × TargetType) × List Entry)
  | [] => pure ([], [])
  | p :: rest => do
    let (type, found) ← s.resolveAt site p.type
    let (others, foundLater) ← s.resolveParams site (index + 1) rest
    pure ((p.name.getD (TargetType.positionalName index), type) :: others, found ++ foundLater)

def buildProperty (s : Setup) (site : Site) (f : FieldDecl) :
    Resolving (Property × List Entry) := do
  let (type, found) ← s.resolveAt site f.type
  let optional := Selection.anyMarker s.settings.optionalMarkers f.markers
  pure ({ name := f.name, type, optional }, found)

/-- Override text spells out the parameters of a method, so that theirs are not looked at. -/
def buildMethod (s : Setup) (site : Site) (m : MethodDecl) : Resolving (Method × List Entry) := do
  let (result, found) ← s.resolveAt site m.returnType
  let (params, foundLater) ←
    if result.isVerbatim then pure ([], []) else s.resolveParams site 0 m.params
  let method : Method :=
    { name := m.name, params, result, arity := m.params.length, isStatic := m.kind == .static,
      optional := m.kind == .default }
  pure (method, found ++ foundLater)

/-- A constructor counts as a method where its override gives it a text. -/
def buildConstructor (s : Setup) (site : Site) (source : HostType) (c : ConstructorDecl) :
    Resolving (Option Method × List Entry) := do
  let (result, found) ← s.resolveAt site source
  if result.isVerbatim then
    pure (some { name := "constructor", result, arity := c.params.length }, found)
  else
    pure (none, found)

/-- The members of a declaration under construction, with the entries discovered by them. -/
structure Members where
  properties : List Property := []
  methods : List Method := []
  discovered : List Entry := []

def addMember (s : Setup) (source : HostType) (ms : Members) : Site → Resolving Members
  | .type _ => pure ms
  | .field d f => do
    let (p, found) ← s.buildProperty (.field d f) f
    pure { ms with properties := ms.properties ++ [p], discovered := ms.discovered ++ found }
  | .method d m => do
    let (method, found) ← s.buildMethod (.method d m) m
    pure { ms with methods := ms.methods ++ [method], discovered := ms.discovered ++ found }
  | .constructor d c => do
    let (method, found) ← s.buildConstructor (.constructor d c) source c
    pure { ms with methods := ms.methods ++ method.toList, discovered := ms.discovered ++ found }

def buildMembers (s : Setup) (source : HostType) : List Site → Resolving Members :=
  List.foldlM (s.addMember source) {}

/-! ## Declarations -/

/-- The super types of a class that are declarations, and the entries discovered by all of them. -/
def buildParents (s : Setup) (owner : String) :
    List HostType → Resolving (List TargetType × List Entry)
  | [] => pure ([], [])
  | type :: rest => do
    let resolution ← s.resolver (s.context none) type
    let (others, foundLater) ← s.buildParents owner rest
    match resolution with
    | none => pure (others, foundLater)
    | some r =>
      let kept := if r.type.isReference then [r.type] else []
      pure (kept ++ others, r.dependents.map (.discovered owner none) ++ foundLater)

/-- The override text of a class. -/
def signatureText : TargetType → Option String
  | .verbatim text => some text
  | _ => none

/-- The text in place of a class's header, and the entries discovered by it. -/
def buildSignature (s : Setup) (d : ClassDecl) : Resolving (Option String × List Entry) := do
  match ← MonadExcept.ofExcept (Override.ofSite s.host.providers (.type d)) with
  | none => pure (none, [])
  | some r => pure (signatureText r.type, r.dependents.map (.discovered d.name none))

def enumMember (c : EnumConstant) : EnumMember :=
  ⟨c.name, c.displayName⟩

/-- The declaration of a class for the type `source`, and the entries discovered by it. -/
def declare (s : Setup) (source : HostType) (d : ClassDecl) :
    Resolving (Declaration × List Entry) := do
  let (signature, bySignature) ← s.buildSignature d
  let symbol ← symbolOf source
  if d.isEnum then
    pure (.enumeration { source, symbol, signature, members := d.constants.map enumMember },
      bySignature)
  else
    let (parents, byParents) ← s.buildParents d.name d.superTypes
    let members ← s.buildMembers source (s.selection s.settings d)
    let bean : Bean :=
      { source, symbol, typeParams := d.typeParams, parents, signature,
        properties := members.properties, methods := members.methods }
    pure (.bean bean, bySignature ++ byParents ++ members.discovered)

/-! ## Entries -/

/-- The class that an entry declares: the entry is that class without arguments, and it resolves to
a reference. -/
def declaredClass? (s : Setup) (source : HostType) (resolved : TargetType) : Option ClassDecl :=
  match source with
  | .named name => if resolved.isReference then s.host.get? name else none
  | _ => none

/-- The first claim on an entry. -/
def firstClaim (s : Setup) (e : Entry) : List Claimant → Resolving (Option Claim)
  | [] => pure none
  | c :: rest => do
    match ← c.claim s.resolver (s.context none) e with
    | some claim => pure (some claim)
    | none => s.firstClaim e rest

/-- What the chain has for an entry; a type that it declines brings nothing. -/
def resolveEntry (s : Setup) (e : Entry) : Resolving Contribution := do
  match ← s.resolver (s.context none) e.type with
  | none => pure {}
  | some r =>
    let dependents := r.dependents.map e.derive
    match s.declaredClass? e.type r.type with
    | none => pure { discovered := dependents }
    | some d =>
      let (declaration, found) ← s.declare e.type d
      pure { declaration := some declaration, discovered := found ++ dependents }

/-- Claimants are asked before the chain. -/
def contribute (s : Setup) (e : Entry) : Resolving Contribution := do
  match ← s.firstClaim e s.claimants with
  | some claim =>
    pure { externals := claim.declarations, discovered := claim.dependents.map e.derive }
  | none => s.resolveEntry e

end Setup

end TypeBridge
