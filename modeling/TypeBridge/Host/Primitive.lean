/-!
# Host names and primitives

Qualified class names of the host language and the types it has built in.  A built-in type has
several spellings (boxed, qualified) and one canonical one; `HostPrimitive.ofName?_spelling` says
that the canonical spelling is recognised as the type it spells.
-/

namespace TypeBridge

/-- The segment after the last point or dollar sign; the whole name where that segment is empty. -/
def simpleName (name : String) : String :=
  let segment := (name.toList.reverse.takeWhile fun c => c != '.' && c != '$').reverse
  if segment.isEmpty then name else String.ofList segment

/-- Types that need no declaration. -/
inductive HostPrimitive where
  | boolean
  | byte
  | short
  | int
  | long
  | float
  | double
  | char
  | string
  | void
  | object
deriving DecidableEq, Repr

namespace HostPrimitive

/-- The canonical spelling. -/
def spelling : HostPrimitive → String
  | boolean => "boolean"
  | byte => "byte"
  | short => "short"
  | int => "int"
  | long => "long"
  | float => "float"
  | double => "double"
  | char => "char"
  | string => "String"
  | void => "void"
  | object => "Object"

/-- The spellings without a package. -/
def spellings : List (String × HostPrimitive) :=
  [("boolean", boolean), ("Boolean", boolean), ("byte", byte), ("Byte", byte), ("short", short),
    ("Short", short), ("int", int), ("Integer", int), ("long", long), ("Long", long),
    ("float", float), ("Float", float), ("double", double), ("Double", double), ("Number", double),
    ("char", char), ("Character", char), ("String", string), ("CharSequence", string),
    ("void", void), ("Void", void), ("Object", object)]

/-- The package whose name may stand in front of any spelling. -/
def package : String := "java.lang."

/-- `name` without the package, if it starts with it. -/
def unqualified (name : String) : String :=
  if package.toList.isPrefixOf name.toList then
    String.ofList (name.toList.drop package.toList.length)
  else
    name

/-- The built-in type that a name spells. -/
def ofName? (name : String) : Option HostPrimitive :=
  spellings.lookup (unqualified name)

theorem ofName?_spelling (p : HostPrimitive) : ofName? p.spelling = some p := by
  cases p <;> decide +kernel

end HostPrimitive

end TypeBridge
