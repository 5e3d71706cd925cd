import TypeBridge.Host.Type
import TypeBridge.Text.Alphanumeric

/-!
# Type expressions

The text form of a host type: a name, an argument list in angle brackets and array suffixes, with
blanks between the parts.

The reader is an automaton that looks at one character at a time.  Its state holds the argument
lists that are still open, so nesting needs no recursion, and a text fails at the first character
with which no expression goes on.  `Expression.read` runs it over a whole text; a failure carries
the number of UTF-8 bytes before the place where it happened.
-/

namespace TypeBridge

/-- Why a text is no type expression. -/
inductive ExpressionFault where
  | nameExpected
  | closingExpected
  | trailingInput
deriving DecidableEq, Repr

namespace ExpressionFault

def message : ExpressionFault → String
  | nameExpected => "expected a type name"
  | closingExpected => "expected '>'"
  | trailingInput => "unexpected trailing input"

end ExpressionFault

structure ExpressionError where
  input : String
  /-- The bytes of `input` before the failure. -/
  position : Nat
  fault : ExpressionFault
deriving DecidableEq, Repr

namespace ExpressionError

def message (e : ExpressionError) : String :=
  "Invalid type expression '" ++ e.input ++ "' at " ++ toString e.position ++
    ": " ++ e.fault.message

end ExpressionError

namespace Expression

/-- An argument list that is still open: the class and the arguments in front. -/
structure Frame where
  raw : String
  args : List HostType

namespace Frame

def push (f : Frame) (t : HostType) : Frame :=
  ⟨f.raw, f.args ++ [t]⟩

/-- The type that a last argument completes. -/
def close (f : Frame) (t : HostType) : HostType :=
  .generic f.raw (f.args ++ [t])

end Frame

inductive State where
  /-- A type has to start. -/
  | start (frames : List Frame)
  /-- Inside a name. -/
  | inName (chars : List Char) (frames : List Frame)
  /-- Behind a name, where an argument list may open. -/
  | afterName (name : String) (frames : List Frame)
  | afterType (type : HostType) (frames : List Frame)
  /-- Behind the opening bracket of an array suffix. -/
  | bracket (type : HostType) (frames : List Frame)

/-- A name without arguments: a built-in type where it spells one. -/
def typeOfName (name : String) : HostType :=
  match HostPrimitive.ofName? name with
  | some p => .primitive p
  | none => .named name

/-- What is missing when a type is not followed by anything that continues it. -/
def endFault : List Frame → ExpressionFault
  | [] => .trailingInput
  | _ :: _ => .closingExpected

/-- One character behind a complete type. -/
def stepAfterType (type : HostType) (frames : List Frame) (c : Char) :
    Except ExpressionFault State :=
  if Text.isBlank c then
    .ok (.afterType type frames)
  else if c = '[' then
    .ok (.bracket type frames)
  else
    match frames with
    | [] => .error .trailingInput
    | frame :: outer =>
      if c = ',' then
        .ok (.start (frame.push type :: outer))
      else if c = '>' then
        .ok (.afterType (frame.close type) outer)
      else
        .error .closingExpected

/-- One character behind a name. -/
def stepAfterName (name : String) (frames : List Frame) (c : Char) : Except ExpressionFault State :=
  if Text.isBlank c then
    .ok (.afterName name frames)
  else if c = '<' then
    .ok (.start (⟨name, []⟩ :: frames))
  else
    stepAfterType (typeOfName name) frames c

def State.step : State → Char → Except ExpressionFault State
  | .start frames, c =>
    if Text.isBlank c then
      .ok (.start frames)
    else if Text.isNameChar c then
      .ok (.inName [c] frames)
    else
      .error .nameExpected
  | .inName chars frames, c =>
    if Text.isNameChar c then
      .ok (.inName (chars ++ [c]) frames)
    else
      stepAfterName (String.ofList chars) frames c
  | .afterName name frames, c => stepAfterName name frames c
  | .afterType type frames, c => stepAfterType type frames c
  | .bracket type frames, c =>
    if c = ']' then .ok (.afterType (.array type) frames) else .error (endFault frames)

/-- The type of a text that ends behind a complete one. -/
def finishType (type : HostType) : List Frame → Except ExpressionFault HostType
  | [] => .ok type
  | _ :: _ => .error .closingExpected

def State.finish : State → Except ExpressionFault HostType
  | .start _ => .error .nameExpected
  | .inName chars frames => finishType (typeOfName (String.ofList chars)) frames
  | .afterName name frames => finishType (typeOfName name) frames
  | .afterType type frames => finishType type frames
  | .bracket _ frames => .error (endFault frames)

/-- The bytes already taken that a failure in this state gives back: an array suffix fails as a
whole. -/
def State.held : State → Nat
  | .bracket .. => 1
  | _ => 0

/-- The automaton over the rest of a text of which `taken` bytes are behind it. -/
def run (state : State) (taken : Nat) : List Char → Except (Nat × ExpressionFault) HostType
  | [] => state.finish.mapError fun fault => (taken - state.held, fault)
  | c :: rest =>
    match state.step c with
    | .ok next => run next (taken + c.utf8Size) rest
    | .error fault => .error (taken - state.held, fault)

/-- The type that a text expresses. -/
def read (input : String) : Except ExpressionError HostType :=
  (run (.start []) 0 input.toList).mapError fun failure => ⟨input, failure.1, failure.2⟩

end Expression

end TypeBridge
