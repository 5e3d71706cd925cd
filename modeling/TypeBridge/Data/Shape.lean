import TypeBridge.Data.Value
import TypeBridge.Host.Expression

/-!
# Decoding structured values

A `Decoder` takes a value apart or says what is wrong with it.  A `Shape` describes a record by its
fields; it decodes a record by the names of its members, and a list by the places of its items.
Both are read in order, so the first fault that the text shows is the one reported, and a field that
is missing is one at the end of its record.
-/

namespace TypeBridge

inductive DecodeError where
  /-- A value of another kind, or text that is not of the format. -/
  | malformed
  | missingField (name : String)
  | duplicateField (name : String)
  | unknownField (name : String) (known : List String)
  | unknownVariant (name : String) (known : List String)
  | expression (error : ExpressionError)
deriving DecidableEq

namespace DecodeError

def ticked (name : String) : String :=
  "`" ++ name ++ "`"

/-- The names that would have been right. -/
def alternatives : List String → String
  | [only] => ticked only
  | [first, second] => ticked first ++ " or " ++ ticked second
  | names => "one of " ++ String.intercalate ", " (names.map ticked)

def message : DecodeError → String
  | malformed => "the text is malformed"
  | missingField name => "missing field " ++ ticked name
  | duplicateField name => "duplicate field " ++ ticked name
  | unknownField name known =>
    "unknown field " ++ ticked name ++ ", expected " ++ alternatives known
  | unknownVariant name known =>
    "unknown variant " ++ ticked name ++ ", expected " ++ alternatives known
  | expression error => error.message

end DecodeError

abbrev Decoder (α : Type) := Value → Except DecodeError α

namespace Decoder

variable {α : Type}

/-- A text; a date or a time counts as the text that writes it. -/
def text : Decoder String
  | .text (some s) => .ok s
  | .moment s => .ok s
  | _ => .error .malformed

def flag : Decoder Bool
  | .bool b => .ok b
  | _ => .error .malformed

/-- Items in order; a list that does not end fails behind its last item. -/
def items (item : Decoder α) : List Value → Except DecodeError (List α)
  | [] => .ok []
  | v :: rest => do
    let first ← item v
    let others ← items item rest
    .ok (first :: others)

def list (item : Decoder α) : Decoder (List α)
  | .list values closed => do
    let decoded ← items item values
    if closed then .ok decoded else .error .malformed
  | _ => .error .malformed

def nullable (inner : Decoder α) : Decoder (Option α)
  | .null => .ok none
  | v => some <$> inner v

def hostType : Decoder HostType := fun v => do
  let s ← text v
  (Expression.read s).mapError .expression

/-- A variant by its name. -/
def variant (known : List (String × α)) (name : String) : Except DecodeError α :=
  match known.lookup name with
  | some a => .ok a
  | none => .error (.unknownVariant name (known.map (·.1)))

/-- One of several names: as a text, or as a record with the name as its only member, whose value
has to be the empty one of the format. -/
def oneOf (isEmpty : Value → Bool) (known : List (String × α)) : Decoder α
  | .text (some name) => variant known name
  | .record ((some name, v) :: more) closed => do
    let a ← variant known name
    if isEmpty v && more.isEmpty && closed then .ok a else .error .malformed
  | _ => .error .malformed

/-- One of several kinds of content: a record with the name of the kind as its only member. -/
def tagged (kinds : List (String × Decoder α)) : Decoder α
  | .text (some name) => do
    let _ ← variant kinds name
    .error .malformed
  | .record ((some name, v) :: more) closed => do
    let content ← variant kinds name
    let a ← content v
    if more.isEmpty && closed then .ok a else .error .malformed
  | _ => .error .malformed

end Decoder

/-! ## Records -/

structure Field (α : Type) where
  name : String
  isRequired : Bool
  /-- Put the value of the field into a record. -/
  read : α → Value → Except DecodeError α

namespace Field

variable {α β : Type}

/-- A field that has a default. -/
def optional (name : String) (decode : Decoder β) (put : α → β → α) : Field α :=
  ⟨name, false, fun a v => put a <$> decode v⟩

def required (name : String) (decode : Decoder β) (put : α → β → α) : Field α :=
  ⟨name, true, fun a v => put a <$> decode v⟩

end Field

structure Shape (α : Type) where
  /-- The record before any field is read. -/
  initial : α
  /-- In the order of their declaration. -/
  fields : List (Field α)
  /-- Members that are no fields are refused; otherwise they are skipped. -/
  strict : Bool := true

namespace Shape

variable {α : Type}

def names (s : Shape α) : List String :=
  s.fields.map (·.name)

def field? (s : Shape α) (name : String) : Option (Field α) :=
  s.fields.find? fun f => f.name == name

/-- One member, `seen` being the fields in front of it. -/
def member (s : Shape α) (seen : List String) (a : α) (name : String) (v : Value) :
    Except DecodeError (List String × α) :=
  match s.field? name with
  | some f =>
    if seen.contains name then
      .error (.duplicateField name)
    else
      (name :: seen, ·) <$> f.read a v
  | none =>
    if s.strict then
      .error (.unknownField name s.names)
    else if v.isWhole then
      .ok (seen, a)
    else
      .error .malformed

def members (s : Shape α) (seen : List String) (a : α) :
    List (Option String × Value) → Except DecodeError (List String × α)
  | [] => .ok (seen, a)
  | (none, _) :: _ => .error .malformed
  | (some name, v) :: rest => do
    let (seen, a) ← s.member seen a name v
    s.members seen a rest

/-- The first field that has to be there and is not. -/
def missing? (s : Shape α) (seen : List String) : Option String :=
  (s.fields.find? fun f => f.isRequired && !seen.contains f.name).map (·.name)

/-- Items in the places of fields; only fields with a default may be left out at the end. -/
def places (a : α) (closed : Bool) : List (Field α) → List Value → Except DecodeError α
  | fields, [] => if closed && fields.all (!·.isRequired) then .ok a else .error .malformed
  | [], _ :: _ => .error .malformed
  | f :: fields, v :: rest => do
    let a ← f.read a v
    places a closed fields rest

def decode (s : Shape α) : Decoder α
  | .record ms closed => do
    let (seen, a) ← s.members [] s.initial ms
    if closed then
      match s.missing? seen with
      | some name => .error (.missingField name)
      | none => .ok a
    else
      .error .malformed
  | .list vs closed => places s.initial closed s.fields vs
  | _ => .error .malformed

end Shape

end TypeBridge
