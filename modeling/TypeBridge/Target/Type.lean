import TypeBridge.Symbol
import TypeBridge.Text.Identifier

/-!
# Target types

The types of the declarations that are written: what a use of a host type resolves to.  `render` is
their text.
-/

namespace TypeBridge

inductive TargetPrimitive where
  | string
  | number
  | boolean
  | null
  | void
  | any
  | unknown
deriving DecidableEq, Repr

namespace TargetPrimitive

def render : TargetPrimitive → String
  | string => "string"
  | number => "number"
  | boolean => "boolean"
  | null => "null"
  | void => "void"
  | any => "any"
  | unknown => "unknown"

end TargetPrimitive

inductive TargetType where
  | primitive (kind : TargetPrimitive)
  | array (element : TargetType)
  /-- A map from strings. -/
  | record (value : TargetType)
  /-- A declaration, applied to arguments if there are any. -/
  | reference (symbol : Symbol) (args : List TargetType)
  | typeVar (name : String)
  | function (params : List (String × TargetType)) (result : TargetType)
  /-- Text that an override supplies. -/
  | verbatim (text : String)
deriving Inhabited

namespace TargetType

def any : TargetType := .primitive .any

def isReference : TargetType → Bool
  | .reference .. => true
  | _ => false

/-- The type is override text as a whole. -/
def isVerbatim : TargetType → Bool
  | .verbatim _ => true
  | _ => false

def isFunction : TargetType → Bool
  | .function .. => true
  | _ => false

mutual

/-- Some part of the type is override text. -/
def containsVerbatim : TargetType → Bool
  | .verbatim _ => true
  | .array e => containsVerbatim e
  | .record v => containsVerbatim v
  | .reference _ args => someContainsVerbatim args
  | .function params result => someParamContainsVerbatim params || containsVerbatim result
  | .primitive _ => false
  | .typeVar _ => false

def someContainsVerbatim : List TargetType → Bool
  | [] => false
  | t :: rest => containsVerbatim t || someContainsVerbatim rest

def someParamContainsVerbatim : List (String × TargetType) → Bool
  | [] => false
  | (_, t) :: rest => containsVerbatim t || someParamContainsVerbatim rest

end

/-! ## Text -/

/-- The name of a parameter that has none of its own, by its place. -/
def positionalName (index : Nat) : String :=
  "arg" ++ toString index

/-- A function type binds looser than an array suffix. -/
def renderElement (isFunction : Bool) (text : String) : String :=
  if isFunction then "(" ++ text ++ ")[]" else text ++ "[]"

mutual

def render : TargetType → String
  | .primitive p => p.render
  | .array e => renderElement e.isFunction (render e)
  | .record v => "Record<string, " ++ render v ++ ">"
  | .reference s [] => s.name
  | .reference s (a :: rest) => s.name ++ "<" ++ renderList (a :: rest) ++ ">"
  | .typeVar n => n
  | .function params result => "(" ++ renderParams params ++ ") => " ++ render result
  | .verbatim text => text

def renderList : List TargetType → String
  | [] => ""
  | [t] => render t
  | t :: u :: rest => render t ++ ", " ++ renderList (u :: rest)

/-- A parameter list between its parentheses. -/
def renderParams : List (String × TargetType) → String
  | [] => ""
  | [(n, t)] => Text.parameterName n ++ ": " ++ render t
  | (n, t) :: p :: rest =>
    Text.parameterName n ++ ": " ++ render t ++ ", " ++ renderParams (p :: rest)

end

/-! ## References -/

mutual

/-- The symbols of all references, a reference before its arguments and parameters before the
result. -/
def symbols : TargetType → List Symbol
  | .reference s args => s :: symbolsOfList args
  | .array e => symbols e
  | .record v => symbols v
  | .function params result => symbolsOfParams params ++ symbols result
  | .primitive _ => []
  | .typeVar _ => []
  | .verbatim _ => []

def symbolsOfList : List TargetType → List Symbol
  | [] => []
  | t :: rest => symbols t ++ symbolsOfList rest

def symbolsOfParams : List (String × TargetType) → List Symbol
  | [] => []
  | (_, t) :: rest => symbols t ++ symbolsOfParams rest

end

end TargetType

end TypeBridge
