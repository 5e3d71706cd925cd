import TypeBridge.Closure.Worklist
import TypeBridge.Model.Enrich
import TypeBridge.Model.Render
import TypeBridge.Resolution.Standard

/-!
# Generating declarations

A `Generator` puts the parts of the pipeline together: it closes the roots under discovery, enriches
the model and writes it.  `generate` is the standard one.

The chain of a generator is an open set of processors, so a run has a `Budget`.  `Budget.covering`
is one that the standard generator never uses up.
-/

namespace TypeBridge

structure Generator where
  settings : Settings
  chain : Chain
  claimants : List Claimant := []
  selection : Selection := Selection.declared
  enrichers : List Enricher := [Enricher.documentation]

/-- What a run may use. -/
structure Budget where
  /-- How deep resolutions may be nested. -/
  depth : Nat
  /-- How many types may be worked on. -/
  types : Nat

/-! ## The size of the input -/

namespace ClassDecl

/-- The types that the tags of a class and of its members bring along. -/
def extraTypes (d : ClassDecl) : List HostType :=
  (d.tags ++ d.fields.flatMap (·.tags) ++ d.methods.flatMap (·.tags)
    ++ d.constructors.flatMap (·.tags)).flatMap OverrideTag.extraTypes

/-- All types written in the members and super types of a class. -/
def writtenTypes (d : ClassDecl) : List HostType :=
  d.superTypes ++ d.fields.map (·.type)
    ++ d.methods.flatMap (fun m => m.returnType :: m.params.map (·.type))
    ++ d.constructors.flatMap (fun c => c.params.map (·.type))

end ClassDecl

namespace Universe

/-- The types that tags and providers bring along. -/
def extraTypes (u : Universe) : List HostType :=
  u.classes.flatMap (·.extraTypes) ++ u.providers.extraTypes

/-- The nodes of all types in a universe. -/
def weight (u : Universe) : Nat :=
  HostType.sizeAll (u.classes.flatMap (·.writtenTypes) ++ u.extraTypes)

end Universe

namespace Budget

/-- Nested resolutions run through the subterms of types that are written somewhere, and between two
functional interfaces, of which no use is taken up inside itself, they go down in one of them.  A
run works on roots, on classes and on the types that tags and providers bring along. -/
def covering (u : Universe) (roots : List HostType) : Budget :=
  let nodes := u.weight + HostType.sizeAll roots + 1
  { depth := (nodes + 1) * (nodes + 1)
    types := roots.length + u.classes.length + u.extraTypes.length }

end Budget

namespace Generator

def standard (settings : Settings) : Generator where
  settings := settings
  chain := Chain.standard settings.functionalMode

def setup (g : Generator) (depth : Nat) (u : Universe) : Setup where
  host := u
  settings := g.settings
  resolver := g.chain.resolver depth
  claimants := g.claimants
  selection := g.selection

/-- The enriched model of everything that the roots reach. -/
def model (g : Generator) (budget : Budget) (u : Universe) (roots : List HostType) :
    Except Failure Model := do
  let run ← (g.setup budget.depth u).run budget.types roots
  Enricher.all g.enrichers u run.model

def generate (g : Generator) (budget : Budget) (u : Universe) (roots : List HostType) :
    Except Failure String := do
  let model ← g.model budget u roots
  pure (model.render g.settings)

end Generator

/-- The declarations of everything that the roots reach. -/
def generate (settings : Settings) (u : Universe) (roots : List HostType) : Except Failure String :=
  (Generator.standard settings).generate (Budget.covering u roots) u roots

end TypeBridge
