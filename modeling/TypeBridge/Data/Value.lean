/-!
# Structured values

The tree that a reader of a data format makes of a text.  Members of a record keep their order and
their repetitions, so that a decoder meets them as the text has them.

A text that breaks off somewhere still has a tree: containers that do not end are marked as not
closed, and a value that does not end is `broken`.  A decoder that goes through a tree in order
therefore meets a break after everything that stands in front of it, and `isWhole` says that there
is none.
-/

namespace TypeBridge

inductive Value where
  | null
  | bool (value : Bool)
  /-- A number. -/
  | scalar (literal : String)
  /-- A date or a time, in a format that has them. -/
  | moment (form : String)
  /-- A text; none where its escapes leave half of a surrogate pair. -/
  | text (content : Option String)
  | list (items : List Value) (closed : Bool)
  | record (members : List (Option String × Value)) (closed : Bool)
  | broken
deriving Inhabited

namespace Value

/-- A text without any break. -/
def ofString (s : String) : Value :=
  .text (some s)

/-- A record without any break. -/
def ofEntries (entries : List (String × Value)) : Value :=
  .record (entries.map fun e => (some e.1, e.2)) true

def isRecord : Value → Bool
  | .record .. => true
  | _ => false

mutual

/-- Nothing in the value breaks off. -/
def isWhole : Value → Bool
  | .null => true
  | .bool _ => true
  | .scalar _ => true
  | .moment _ => true
  | .text _ => true
  | .list items closed => closed && allWhole items
  | .record members closed => closed && allMembersWhole members
  | .broken => false

def allWhole : List Value → Bool
  | [] => true
  | v :: rest => isWhole v && allWhole rest

def allMembersWhole : List (Option String × Value) → Bool
  | [] => true
  | (_, v) :: rest => isWhole v && allMembersWhole rest

end

end Value

end TypeBridge
