import TypeBridge.Host.Type

/-!
# Host declarations

What the host declares: classes, interfaces and enumerations with their members, and the override
tags on them.  `ClassDecl.bind` turns the type parameters that a declaration binds into type
variables.
-/

namespace TypeBridge

/-- An override on a declaration: what is written for it in place of the generated text. -/
inductive OverrideTag where
  /-- The text itself, with the types it mentions. -/
  | verbatim (text : String) (extraTypes : List HostType)
  /-- The text of a provider; without an owner, one registered on the declaring class. -/
  | methodReference (name : String) (owner : Option String)
deriving DecidableEq

inductive ClassKind where
  | plain
  | interface
  | enumeration
deriving DecidableEq, Repr

/-- How a method is implemented. -/
inductive MethodKind where
  | abstract
  /-- An interface method with a body. -/
  | default
  | static
  /-- An instance method with a body. -/
  | concrete
deriving DecidableEq, Repr

structure FieldDecl where
  name : String
  type : HostType
  isStatic : Bool := false
  tags : List OverrideTag := []
  markers : List String := []
  comments : List String := []
deriving DecidableEq

/-- A parameter of a method or constructor; the host need not have recorded its name. -/
structure ParamDecl where
  name : Option String := none
  type : HostType
deriving DecidableEq

structure MethodDecl where
  name : String
  params : List ParamDecl := []
  returnType : HostType := .primitive .void
  kind : MethodKind := .concrete
  typeParams : List String := []
  tags : List OverrideTag := []
  markers : List String := []
  comments : List String := []
deriving DecidableEq

structure ConstructorDecl where
  params : List ParamDecl := []
  tags : List OverrideTag := []
  markers : List String := []
deriving DecidableEq

/-- A constant of an enumeration, with the name it is serialized under where that differs. -/
structure EnumConstant where
  name : String
  display : Option String := none
deriving DecidableEq

namespace EnumConstant

/-- The name a constant is serialized under. -/
def displayName (c : EnumConstant) : String :=
  c.display.getD c.name

end EnumConstant

structure ClassDecl where
  name : String
  kind : ClassKind := .plain
  typeParams : List String := []
  superTypes : List HostType := []
  tags : List OverrideTag := []
  markers : List String := []
  /-- Marked as a functional interface. -/
  functional : Bool := false
  fields : List FieldDecl := []
  methods : List MethodDecl := []
  constructors : List ConstructorDecl := []
  constants : List EnumConstant := []
  comments : List String := []
deriving DecidableEq

/-! ## Binding type parameters -/

namespace OverrideTag

/-- The types a tag brings along. -/
def extraTypes : OverrideTag → List HostType
  | .verbatim _ types => types
  | .methodReference .. => []

def bind (params : List String) : OverrideTag → OverrideTag
  | .verbatim text types => .verbatim text (types.map (HostType.bind params))
  | .methodReference name owner => .methodReference name owner

end OverrideTag

namespace ParamDecl

def bind (params : List String) (p : ParamDecl) : ParamDecl :=
  { p with type := p.type.bind params }

end ParamDecl

namespace FieldDecl

def bind (params : List String) (f : FieldDecl) : FieldDecl :=
  { f with type := f.type.bind params, tags := f.tags.map (·.bind params) }

end FieldDecl

namespace MethodDecl

/-- Inside a method its own type parameters are bound as well. -/
def bind (params : List String) (m : MethodDecl) : MethodDecl :=
  let bound := params ++ m.typeParams
  { m with
    params := m.params.map (·.bind bound)
    returnType := m.returnType.bind bound
    tags := m.tags.map (·.bind bound) }

end MethodDecl

namespace ConstructorDecl

/-- The types that a constructor's tags bring along stay as they are. -/
def bind (params : List String) (c : ConstructorDecl) : ConstructorDecl :=
  { c with params := c.params.map (·.bind params) }

end ConstructorDecl

namespace ClassDecl

def isInterface (d : ClassDecl) : Bool :=
  d.kind == .interface

def isEnum (d : ClassDecl) : Bool :=
  d.kind == .enumeration

/-- Bare names that are type parameters of the class, or of the method they stand in, become type
variables.  The types that the class's own tags bring along stay as they are. -/
def bind (d : ClassDecl) : ClassDecl :=
  { d with
    superTypes := d.superTypes.map (·.bind d.typeParams)
    fields := d.fields.map (·.bind d.typeParams)
    methods := d.methods.map (·.bind d.typeParams)
    constructors := d.constructors.map (·.bind d.typeParams) }

end ClassDecl

/-! ## Sites -/

/-- A declaration that may carry override tags: a class or one of its members. -/
inductive Site where
  | type (owner : ClassDecl)
  | field (owner : ClassDecl) (field : FieldDecl)
  | method (owner : ClassDecl) (method : MethodDecl)
  | constructor (owner : ClassDecl) (constructor : ConstructorDecl)

namespace Site

/-- The declaring class. -/
def owner : Site → ClassDecl
  | .type d => d
  | .field d _ => d
  | .method d _ => d
  | .constructor d _ => d

def tags : Site → List OverrideTag
  | .type d => d.tags
  | .field _ f => f.tags
  | .method _ m => m.tags
  | .constructor _ c => c.tags

/-- The name of a member; the class itself has none. -/
def memberName? : Site → Option String
  | .type _ => none
  | .field _ f => some f.name
  | .method _ m => some m.name
  | .constructor .. => some "<init>"

/-- The class, and the member behind a point. -/
def qualifiedName (s : Site) : String :=
  match s.memberName? with
  | some member => s.owner.name ++ "." ++ member
  | none => s.owner.name

end Site

end TypeBridge
