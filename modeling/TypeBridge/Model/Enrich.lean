import TypeBridge.Comment
import TypeBridge.Model.Basic
import TypeBridge.Universe.Basic

/-!
# Enrichment

Passes over a finished model.  The standard one gives every declaration and member the documentation
comment that the host has for it.
-/

namespace TypeBridge

/-- A pass over the model of a universe. -/
abbrev Enricher := Universe → Model → Except Failure Model

namespace Enricher

/-- A property with the comment of the first field of its name. -/
def documentProperty (d : ClassDecl) (p : Property) : Property :=
  match d.fields.find? fun f => f.name == p.name with
  | some f => { p with comments := Comment.harvest f.comments }
  | none => p

/-- A method with the comment of the first method of its name and number of parameters. -/
def documentMethod (d : ClassDecl) (m : Method) : Method :=
  match d.methods.find? fun n => n.name == m.name && n.params.length == m.arity with
  | some n => { m with comments := Comment.harvest n.comments }
  | none => m

/-- The class behind a declaration. -/
def classOf? (u : Universe) (source : HostType) : Option ClassDecl := do
  u.get? (← source.rawName?)

def documentBean (u : Universe) (b : Bean) : Bean :=
  match classOf? u b.source with
  | some d =>
    { b with
      comments := Comment.harvest d.comments
      properties := b.properties.map (documentProperty d)
      methods := b.methods.map (documentMethod d) }
  | none => b

def documentEnumeration (u : Universe) (e : Enumeration) : Enumeration :=
  match classOf? u e.source with
  | some d => { e with comments := Comment.harvest d.comments }
  | none => e

/-- The documentation comments of the host. -/
def documentation : Enricher := fun u m =>
  .ok
    { m with
      beans := m.beans.map (documentBean u)
      enumerations := m.enumerations.map (documentEnumeration u) }

/-- Several passes, each over the model of the one before. -/
def all (enrichers : List Enricher) : Enricher := fun u m =>
  enrichers.foldlM (fun model enrich => enrich u model) m

end Enricher

end TypeBridge
