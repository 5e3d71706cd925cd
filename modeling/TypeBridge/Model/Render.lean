import TypeBridge.Comment
import TypeBridge.Model.Basic
import TypeBridge.Settings.Basic
import TypeBridge.Text.Quoted

/-!
# The text of a model

Every declaration behind an empty line, in the order of discovery or by name.  Override text is
written as it is, with the end of a member behind it.
-/

namespace TypeBridge

/-! ## Members -/

/-- The mark of an optional member. -/
def optionalMark (optional : Bool) : String :=
  if optional then "?" else ""

namespace Property

/-- The line of a property, without its comment. -/
def line (p : Property) : String :=
  match p.type with
  | .verbatim text => text ++ ";\n"
  | type => Text.propertyName p.name ++ optionalMark p.optional ++ ": " ++ type.render ++ ";\n"

def render (indent : String) (p : Property) : String :=
  Comment.block indent p.comments ++ indent ++ p.line

end Property

namespace Method

/-- The line of a method, without its comment.  A method's name is written as it is. -/
def line (m : Method) : String :=
  match m.result with
  | .verbatim text => text ++ ";\n"
  | result =>
    (if m.isStatic then "static " else "") ++ m.name ++ optionalMark m.optional ++ "("
      ++ TargetType.renderParams m.params ++ "): " ++ result.render ++ ";\n"

/-- A method, an empty line in front of it. -/
def render (indent : String) (m : Method) : String :=
  "\n" ++ Comment.block indent m.comments ++ indent ++ m.line

end Method

/-! ## Declarations -/

namespace Bean

def header (b : Bean) : String :=
  match b.signature with
  | some signature => signature
  | none =>
    "interface " ++ b.symbol.name
      ++ (if b.typeParams.isEmpty then "" else "<" ++ String.intercalate ", " b.typeParams ++ ">")
      ++ (if b.parents.isEmpty then "" else " extends " ++ TargetType.renderList b.parents)

def render (indent : String) (b : Bean) : String :=
  Comment.block "" b.comments ++ b.header ++ " \x7b\n"
    ++ String.join (b.properties.map (·.render indent))
    ++ String.join (b.methods.map (·.render indent)) ++ "\x7d\n"

/-- The bean with its properties, and apart from them its methods, by name; those of one name keep
their order. -/
def sortMembers (b : Bean) : Bean :=
  { b with
    properties := b.properties.mergeSort fun p q => decide (p.name ≤ q.name)
    methods := b.methods.mergeSort fun m n => decide (m.name ≤ n.name) }

end Bean

namespace Enumeration

def header (e : Enumeration) : String :=
  match e.signature with
  | some signature => signature
  | none => "type " ++ e.symbol.name

/-- The union of the members' literals; of none it is the empty type. -/
def union (e : Enumeration) : String :=
  if e.members.isEmpty then
    "never"
  else
    String.intercalate " | " (e.members.map fun m => Text.literal m.displayName)

def render (e : Enumeration) : String :=
  Comment.block "" e.comments ++ e.header ++ " = " ++ e.union ++ ";\n"

end Enumeration

namespace External

/-- The body, ended by a line feed. -/
def render (e : External) : String :=
  if e.body.toList.getLast? = some '\n' then e.body else e.body ++ "\n"

end External

/-! ## Models -/

namespace Model

/-- The texts of all declarations with their names, in the order of discovery. -/
def declarations (settings : Settings) (m : Model) : List (String × String) :=
  (m.beans.map fun b =>
      (b.symbol.name, (if settings.sortMembers then b.sortMembers else b).render settings.indent))
    ++ (m.enumerations.map fun e => (e.symbol.name, e.render))
    ++ m.externals.map fun e => (e.name, e.render)

/-- Texts by name; those of one name keep their order. -/
def sortByName (declarations : List (String × String)) : List (String × String) :=
  declarations.mergeSort fun d e => decide (d.1 ≤ e.1)

def render (settings : Settings) (m : Model) : String :=
  let found := m.declarations settings
  let ordered := if settings.sortDeclarations then sortByName found else found
  String.join (ordered.map fun d => "\n" ++ d.2)

end Model

end TypeBridge
