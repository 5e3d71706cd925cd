/-!
# Settings

What a run takes up and how its output looks.
-/

namespace TypeBridge

/-- Which interfaces may become function types. -/
inductive FunctionalMode where
  /-- Those marked as functional. -/
  | annotationGated
  /-- Every one that leaves a single method open. -/
  | structural
deriving DecidableEq, Repr

structure Settings where
  functionalMode : FunctionalMode := .structural
  emitAbstractMethods : Bool := false
  emitDefaultMethods : Bool := false
  emitStaticMethods : Bool := false
  emitOtherMethods : Bool := false
  /-- Where there are any, a member or its class must carry one of these. -/
  includeMarkers : List String := []
  /-- A member that carries one of these is left out. -/
  excludeMarkers : List String := []
  /-- A property that carries one of these is optional. -/
  optionalMarkers : List String := []
  /-- Declarations by name, not in the order of their discovery. -/
  sortDeclarations : Bool := true
  /-- Members by name, not in the order of their declaration. -/
  sortMembers : Bool := true
  /-- One level of indentation. -/
  indent : String := "    "
deriving DecidableEq, Repr

namespace Settings

def emitsMethods (s : Settings) : Bool :=
  s.emitAbstractMethods || s.emitDefaultMethods || s.emitStaticMethods || s.emitOtherMethods

end Settings

end TypeBridge
