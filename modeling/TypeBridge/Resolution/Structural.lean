import TypeBridge.Resolution.Chain

/-!
# Structural resolution

The last link of the default chain: built-in types, arrays, the library's containers, and references
to declared classes.  It declines nothing; a class that nobody knows is `any`.
-/

namespace TypeBridge.Structural

/-- Library classes that are written without a declaration. -/
inductive Container where
  | collection
  | map
  | optional
deriving DecidableEq, Repr

namespace Container

/-- Library packages; a class counts with the first of them in front of its name, or with none. -/
def packages : List String :=
  ["java.util.stream.", "java.util.", "java.lang."]

def names : List (String × Container) :=
  [("List", collection), ("ArrayList", collection), ("LinkedList", collection), ("Set", collection),
    ("HashSet", collection), ("LinkedHashSet", collection), ("TreeSet", collection),
    ("SortedSet", collection), ("Collection", collection), ("Iterable", collection),
    ("Stream", collection), ("Map", map), ("HashMap", map), ("LinkedHashMap", map),
    ("TreeMap", map), ("SortedMap", map), ("Optional", optional)]

/-- The name behind the package, if a package is in front. -/
def unqualified (name : String) : String :=
  match packages.find? fun p => p.toList.isPrefixOf name.toList with
  | some p => String.ofList (name.toList.drop p.toList.length)
  | none => name

def ofName? (name : String) : Option Container :=
  names.lookup (unqualified name)

/-- The argument that a container's text shows; a map's keys are not written. -/
def argument? : Container → List HostType → Option HostType
  | collection, args => args[0]?
  | map, args => args[1]?
  | optional, args => args[0]?

/-- The target type, from that of the argument. -/
def wrap : Container → TargetType → TargetType
  | collection => .array
  | map => .record
  | optional => id

end Container

/-- A type that resolves without a declaration in the universe. -/
def isBuiltin (type : HostType) : Bool :=
  match type.rawName? with
  | some name => (Container.ofName? name).isSome
  | none => true

def primitive : HostPrimitive → TargetPrimitive
  | .boolean => .boolean
  | .byte => .number
  | .short => .number
  | .int => .number
  | .long => .number
  | .float => .number
  | .double => .number
  | .char => .string
  | .string => .string
  | .void => .void
  | .object => .any

/-- A container with its argument resolved; without one it holds `any`. -/
def container (nested : Resolver) (ctx : Context) (kind : Container) (args : List HostType) :
    Resolving Resolution := do
  match kind.argument? args with
  | some type =>
    let inner ← nested.orAny ctx type
    pure ⟨kind.wrap inner.type, inner.dependents⟩
  | none => pure { type := kind.wrap .any }

/-- A class with arguments: a container, a declared class, or unknown.  The symbol of a declared
class comes before those of its arguments. -/
def application (nested : Resolver) (ctx : Context) (raw : String) (args : List HostType) :
    Resolving Resolution := do
  match Container.ofName? raw with
  | some kind => container nested ctx kind args
  | none =>
    if ctx.host.contains raw then
      let symbol ← symbolOf (.named raw)
      let inner ← nested.allOrAny ctx args
      pure ⟨.reference symbol (inner.map (·.type)), .named raw :: inner.flatMap (·.dependents)⟩
    else
      pure { type := .any }

def resolve (nested : Resolver) (ctx : Context) : HostType → Resolving Resolution
  | .primitive p => pure { type := .primitive (primitive p) }
  | .typeVar name => pure { type := .typeVar name }
  | .array element => do
    let inner ← nested.orAny ctx element
    pure ⟨.array inner.type, inner.dependents⟩
  | .named name => application nested ctx name []
  | .generic raw args => application nested ctx raw args

def processor : Processor where
  name := "StructuralProcessor"
  process nested ctx type := some <$> resolve nested ctx type

end TypeBridge.Structural
