import TypeBridge.Settings.Basic
import TypeBridge.Universe.Declaration

/-!
# Member selection

Which members of a class become members of its declaration.  The standard selection is instance
fields, the methods of the kinds that the settings admit, and constructors that carry an override,
all of them filtered by markers.
-/

namespace TypeBridge

/-- The members of a class to declare, in order. -/
abbrev Selection := Settings → ClassDecl → List Site

namespace Selection

def admitsKind (s : Settings) : MethodKind → Bool
  | .abstract => s.emitAbstractMethods
  | .default => s.emitDefaultMethods
  | .static => s.emitStaticMethods
  | .concrete => s.emitOtherMethods

/-- Some marker is among those wanted. -/
def anyMarker (wanted markers : List String) : Bool :=
  markers.any wanted.contains

/-- An excluding marker on the member leaves it out; an including one may also stand on its
class. -/
def admitsMarkers (s : Settings) (d : ClassDecl) (markers : List String) : Bool :=
  !anyMarker s.excludeMarkers markers
    && (s.includeMarkers.isEmpty || anyMarker s.includeMarkers markers
      || anyMarker s.includeMarkers d.markers)

def fields (s : Settings) (d : ClassDecl) : List FieldDecl :=
  d.fields.filter fun f => !f.isStatic && admitsMarkers s d f.markers

def methods (s : Settings) (d : ClassDecl) : List MethodDecl :=
  d.methods.filter fun m => admitsKind s m.kind && admitsMarkers s d m.markers

/-- A constructor has no text of its own: only an override gives it one. -/
def constructors (s : Settings) (d : ClassDecl) : List ConstructorDecl :=
  d.constructors.filter fun c => !c.tags.isEmpty && admitsMarkers s d c.markers

def declared : Selection := fun s d =>
  (fields s d).map (.field d) ++ (methods s d).map (.method d) ++
    (constructors s d).map (.constructor d)

end Selection

end TypeBridge
