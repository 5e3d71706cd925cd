import TypeBridge.Data.Json
import TypeBridge.Universe.Basic

/-!
# The universe as JSON

The shapes of all declarations.  Every record may also be given as the list of its fields.  Members
that are no fields are refused, except in the contents of override tags, where they are skipped.
-/

namespace TypeBridge

open Decoder

def texts : Decoder (List String) :=
  list text

namespace OverrideTag

def verbatimShape : Shape (String × List HostType) where
  initial := ("", [])
  strict := false
  fields :=
    [.optional "text" text fun t v => (v, t.2), .optional "extra_types" (list hostType)
      fun t v => (t.1, v)]

def methodReferenceShape : Shape (String × Option String) where
  initial := ("", none)
  strict := false
  fields :=
    [.required "name" text fun t v => (v, t.2), .optional "owner" (nullable text)
      fun t v => (t.1, v)]

def decode : Decoder OverrideTag :=
  tagged
    [("verbatim", fun v => (fun t => .verbatim t.1 t.2) <$> verbatimShape.decode v),
      ("method_reference",
        fun v => (fun t => .methodReference t.1 t.2) <$> methodReferenceShape.decode v)]

end OverrideTag

namespace ClassKind

def decode : Decoder ClassKind :=
  oneOf Json.isNull [("class", .plain), ("interface", .interface), ("enum", .enumeration)]

end ClassKind

namespace MethodKind

def decode : Decoder MethodKind :=
  oneOf Json.isNull
    [("abstract", .abstract), ("default", .default), ("static", .static), ("concrete", .concrete)]

end MethodKind

namespace FieldDecl

def shape : Shape FieldDecl where
  initial := { name := "", type := .primitive .void }
  fields :=
    [.required "name" text fun f v => { f with name := v },
      .required "ty" hostType fun f v => { f with type := v },
      .optional "is_static" flag fun f v => { f with isStatic := v },
      .optional "tags" (list OverrideTag.decode) fun f v => { f with tags := v },
      .optional "markers" texts fun f v => { f with markers := v },
      .optional "comments" texts fun f v => { f with comments := v }]

end FieldDecl

namespace ParamDecl

def shape : Shape ParamDecl where
  initial := { type := .primitive .void }
  fields :=
    [.optional "name" (nullable text) fun p v => { p with name := v },
      .required "ty" hostType fun p v => { p with type := v }]

end ParamDecl

namespace MethodDecl

def shape : Shape MethodDecl where
  initial := { name := "" }
  fields :=
    [.required "name" text fun m v => { m with name := v },
      .optional "params" (list ParamDecl.shape.decode) fun m v => { m with params := v },
      .optional "return_type" hostType fun m v => { m with returnType := v },
      .optional "kind" MethodKind.decode fun m v => { m with kind := v },
      .optional "type_params" texts fun m v => { m with typeParams := v },
      .optional "tags" (list OverrideTag.decode) fun m v => { m with tags := v },
      .optional "markers" texts fun m v => { m with markers := v },
      .optional "comments" texts fun m v => { m with comments := v }]

end MethodDecl

namespace ConstructorDecl

def shape : Shape ConstructorDecl where
  initial := {}
  fields :=
    [.optional "params" (list ParamDecl.shape.decode) fun c v => { c with params := v },
      .optional "tags" (list OverrideTag.decode) fun c v => { c with tags := v },
      .optional "markers" texts fun c v => { c with markers := v }]

end ConstructorDecl

namespace EnumConstant

def shape : Shape EnumConstant where
  initial := { name := "" }
  fields :=
    [.required "name" text fun c v => { c with name := v },
      .optional "display" (nullable text) fun c v => { c with display := v }]

end EnumConstant

namespace ClassDecl

/-- The declaration of the class `name`, which its record does not hold. -/
def shape (name : String) : Shape ClassDecl where
  initial := { name }
  fields :=
    [.optional "kind" ClassKind.decode fun d v => { d with kind := v },
      .optional "type_params" texts fun d v => { d with typeParams := v },
      .optional "super_types" (list hostType) fun d v => { d with superTypes := v },
      .optional "tags" (list OverrideTag.decode) fun d v => { d with tags := v },
      .optional "markers" texts fun d v => { d with markers := v },
      .optional "functional" flag fun d v => { d with functional := v },
      .optional "fields" (list FieldDecl.shape.decode) fun d v => { d with fields := v },
      .optional "methods" (list MethodDecl.shape.decode) fun d v => { d with methods := v },
      .optional "constructors" (list ConstructorDecl.shape.decode) fun d v =>
        { d with constructors := v },
      .optional "constants" (list EnumConstant.shape.decode) fun d v => { d with constants := v },
      .optional "comments" texts fun d v => { d with comments := v }]

/-- The declaration of a class in JSON, as it is written: its type parameters are not bound yet. -/
def ofJson (name json : String) : Except DecodeError ClassDecl :=
  Json.decode (shape name).decode json

end ClassDecl

namespace Universe

/-- Classes by name, in order. -/
def decodeMembers : List (Option String × Value) → Except DecodeError (List ClassDecl)
  | [] => .ok []
  | (none, _) :: _ => .error .malformed
  | (some name, v) :: rest => do
    let d ← (ClassDecl.shape name).decode v
    let others ← decodeMembers rest
    .ok (d :: others)

def decodeClasses : Decoder (List ClassDecl)
  | .record members closed => do
    let ds ← decodeMembers members
    if closed then .ok ds else .error .malformed
  | _ => .error .malformed

def shape : Shape (List ClassDecl) where
  initial := []
  fields := [.optional "classes" decodeClasses fun _ v => v]

def decode : Decoder Universe := fun v =>
  ofClasses <$> shape.decode v

/-- The universe of a JSON text. -/
def ofJson (json : String) : Except DecodeError Universe :=
  Json.decode decode json

end Universe

end TypeBridge
