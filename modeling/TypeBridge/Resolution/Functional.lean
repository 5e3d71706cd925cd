import TypeBridge.Resolution.Chain

/-!
# Functional interfaces

An interface whose hierarchy leaves one method open becomes a function type.  The arguments of a use
are substituted into the signature of that method, and only where a parameter or the result is
exactly a type variable; what stands inside another type goes back through the chain as it is.
-/

namespace TypeBridge.Functional

/-! ## Substitution -/

/-- Types for the names of type variables; an entry further in front hides one behind it. -/
abbrev Bindings := List (String × HostType)

/-- Parameters and the arguments in their places.  Of a parameter that is listed twice the last
place counts. -/
def Bindings.ofArguments (params : List String) (args : List HostType) : Bindings :=
  (params.zip args).reverse

/-- The type bound to a variable, other types as they are. -/
def Bindings.apply (b : Bindings) : HostType → HostType
  | .typeVar name => (b.lookup name).getD (.typeVar name)
  | type => type

/-- A type as an inherited method shows it at a use: first the variables of the interface that
declares the method, then those of the interface that is used. -/
def substitute (inherited use : Bindings) (type : HostType) : HostType :=
  use.apply (inherited.apply type)

/-! ## The hierarchy -/

def arguments : HostType → List HostType
  | .generic _ args => args
  | _ => []

/-- The declared super types of a class, with what they bind their parameters to. -/
def parents (u : Universe) (d : ClassDecl) (b : Bindings) : List (ClassDecl × Bindings) :=
  d.superTypes.filterMap fun type => do
    let parent ← u.get? (← type.rawName?)
    pure (parent, .ofArguments parent.typeParams ((arguments type).map b.apply))

/-- The classes of a queue and their ancestors, breadth first and each once; at most `bound` of
them. -/
def walk (u : Universe) :
    Nat → List String → List (ClassDecl × Bindings) → List (ClassDecl × Bindings)
  | 0, _, _ => []
  | bound + 1, visited, queue =>
    match queue.dropWhile fun entry => visited.contains entry.1.name with
    | [] => []
    | entry :: rest =>
      entry :: walk u bound (entry.1.name :: visited) (rest ++ parents u entry.1 entry.2)

/-- A class and its ancestors.  All but the class itself are in the universe, so the bound is never
met. -/
def hierarchy (u : Universe) (d : ClassDecl) : List (ClassDecl × Bindings) :=
  walk u (u.classes.length + 1) [] [(d, [])]

/-! ## The open method -/

def hasBody (m : MethodDecl) : Bool :=
  m.kind == .default || m.kind == .concrete

/-- The methods that some class of a hierarchy implements, by name. -/
def implemented (classes : List (ClassDecl × Bindings)) : List String :=
  classes.flatMap fun entry => (entry.1.methods.filter hasBody).map (·.name)

/-- The abstract methods whose name nothing in the hierarchy implements. -/
def openMethods (classes : List (ClassDecl × Bindings)) : List (MethodDecl × Bindings) :=
  (classes.flatMap fun entry =>
    (entry.1.methods.filter fun m => m.kind == .abstract).map fun m => (m, entry.2)).filter
    fun m => !(implemented classes).contains m.1.name

/-- Overloads of one name are told apart by the number of their parameters. -/
def sameSignature (m n : MethodDecl) : Bool :=
  m.name == n.name && m.params.length == n.params.length

/-- The first open method, if all the others are further declarations of it. -/
def singleOpenMethod (u : Universe) (d : ClassDecl) : Option (MethodDecl × Bindings) :=
  match openMethods (hierarchy u d) with
  | [] => none
  | m :: rest => if rest.all fun n => sameSignature m.1 n.1 then some m else none

/-! ## Synthesis -/

/-- An override on an interface comes before its function type. -/
def isEligible (mode : FunctionalMode) (d : ClassDecl) : Bool :=
  d.isInterface && d.tags.isEmpty && (mode == .structural || d.functional)

/-- A parameter's name, or its place where the host recorded none. -/
def parameterName (index : Nat) (p : ParamDecl) : String :=
  p.name.getD (TargetType.positionalName index)

/-- The function type of a method, with parameters and result resolved. -/
def functionType (m : MethodDecl) (params : List Resolution)
    (result : Resolution) : Resolution where
  type := .function ((m.params.mapIdx parameterName).zip (params.map (·.type))) result.type
  dependents := params.flatMap (·.dependents) ++ result.dependents

/-- The function type of an interface used as `type`.  Inside it the same use is not taken up again,
so that an interface whose method mentions itself comes to an end. -/
def synthesize (nested : Resolver) (ctx : Context) (type : HostType) (d : ClassDecl)
    (use : Bindings) :
    Resolving (Option Resolution) := do
  if ctx.inProgress.contains type then
    pure none
  else
    match singleOpenMethod ctx.host d with
    | none => pure none
    | some (m, inherited) =>
      let inner := { ctx with inProgress := type :: ctx.inProgress }
      let params ← nested.allOrAny inner (m.params.map fun p => substitute inherited use p.type)
      let result ← nested.orAny inner (substitute inherited use m.returnType)
      pure (some (functionType m params result))

/-- The interface that a type uses, if it may become a function type. -/
def eligible? (mode : FunctionalMode) (u : Universe) (type : HostType) : Option ClassDecl := do
  let d ← u.get? (← type.rawName?)
  if isEligible mode d then some d else none

def processor (mode : FunctionalMode) : Processor where
  name := "SamProcessor"
  process nested ctx type :=
    match eligible? mode ctx.host type with
    | none => pure none
    | some d => synthesize nested ctx type d (.ofArguments d.typeParams (arguments type))

end TypeBridge.Functional
