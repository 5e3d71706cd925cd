import TypeBridge.Data.Shape

/-!
# JSON

A strict reader: no comments, no trailing commas, no raw control characters in strings.  It makes a
tree of every text, with a mark where the text breaks off, so that what a decoder finds in front of
a break comes first.
-/

namespace TypeBridge.Json

def isBlank (c : Char) : Bool :=
  c == ' ' || c == '\n' || c == '\t' || c == '\r'

def skipBlanks (s : List Char) : List Char :=
  s.dropWhile isBlank

/-! ## Strings -/

/-- A character of a string, or the 16-bit unit that an escape gives. -/
inductive Piece where
  | char (c : Char)
  | unit (n : Nat)

def hexDigit? (c : Char) : Option Nat :=
  if c.isDigit then
    some (c.toNat - '0'.toNat)
  else if 'a' ≤ c ∧ c ≤ 'f' then
    some (c.toNat - 'a'.toNat + 10)
  else if 'A' ≤ c ∧ c ≤ 'F' then
    some (c.toNat - 'A'.toNat + 10)
  else
    none

/-- The number that hexadecimal digits write. -/
def hexNumber? (digits : List Char) : Option Nat :=
  digits.foldlM (fun n c => (hexDigit? c).map (16 * n + ·)) 0

/-- The characters with an escape of their own. -/
def escapes : List (Char × Char) :=
  [('"', '"'), ('\\', '\\'), ('/', '/'), ('b', '\x08'), ('f', '\x0c'), ('n', '\n'), ('r', '\r'),
    ('t', '\t')]

/-- The pieces up to the closing quote, and the text behind it. -/
def pieces : List Char → Option (List Piece × List Char)
  | [] => none
  | '"' :: rest => some ([], rest)
  | '\\' :: 'u' :: a :: b :: c :: d :: rest => do
    let n ← hexNumber? [a, b, c, d]
    let (ps, behind) ← pieces rest
    some (.unit n :: ps, behind)
  | '\\' :: c :: rest => do
    let e ← escapes.lookup c
    let (ps, behind) ← pieces rest
    some (.char e :: ps, behind)
  | c :: rest =>
    if c.toNat < 0x20 then
      none
    else do
      let (ps, behind) ← pieces rest
      some (.char c :: ps, behind)

def isHigh (n : Nat) : Bool :=
  0xD800 ≤ n && n < 0xDC00

def isLow (n : Nat) : Bool :=
  0xDC00 ≤ n && n < 0xE000

/-- The text of pieces; none if half of a surrogate pair is left over. -/
def join : List Piece → Option (List Char)
  | [] => some []
  | .char c :: rest => (c :: ·) <$> join rest
  | .unit h :: .unit l :: rest =>
    if isHigh h then
      if isLow l then
        (Char.ofNat (0x10000 + (h - 0xD800) * 0x400 + (l - 0xDC00)) :: ·) <$> join rest
      else
        none
    else if isLow h then
      none
    else
      (Char.ofNat h :: ·) <$> join (.unit l :: rest)
  | .unit n :: rest => if isHigh n || isLow n then none else (Char.ofNat n :: ·) <$> join rest

/-- A string behind its opening quote; the content is none where it is no text. -/
def string (s : List Char) : Option (Option String × List Char) := do
  let (ps, behind) ← pieces s
  some ((join ps).map String.ofList, behind)

/-! ## Numbers -/

def digits (s : List Char) : List Char × List Char :=
  (s.takeWhile Char.isDigit, s.dropWhile Char.isDigit)

/-- At least one digit. -/
def someDigits (s : List Char) : Option (List Char × List Char) :=
  match digits s with
  | ([], _) => none
  | found => some found

/-- The part in front of the point: zero, or digits that do not start with it. -/
def integerPart : List Char → Option (List Char × List Char)
  | '0' :: rest =>
    match rest with
    | [] => some (['0'], [])
    | c :: _ => if c.isDigit then none else some (['0'], rest)
  | s => someDigits s

def fractionPart : List Char → Option (List Char × List Char)
  | '.' :: rest => do
    let (ds, behind) ← someDigits rest
    some ('.' :: ds, behind)
  | s => some ([], s)

def exponentSign : List Char → List Char × List Char
  | '+' :: rest => (['+'], rest)
  | '-' :: rest => (['-'], rest)
  | s => ([], s)

def exponentPart : List Char → Option (List Char × List Char)
  | [] => some ([], [])
  | c :: rest =>
    if c = 'e' ∨ c = 'E' then do
      let (sign, unsigned) := exponentSign rest
      let (ds, behind) ← someDigits unsigned
      some (c :: sign ++ ds, behind)
    else
      some ([], c :: rest)

/-- A number without its sign. -/
def unsigned (s : List Char) : Option (List Char × List Char) := do
  let (i, s) ← integerPart s
  let (f, s) ← fractionPart s
  let (e, s) ← exponentPart s
  some (i ++ f ++ e, s)

def number : List Char → Option (List Char × List Char)
  | '-' :: rest => do
    let (n, behind) ← unsigned rest
    some ('-' :: n, behind)
  | s => unsigned s

/-! ## Values -/

/-- A value and the text behind it; no text if it breaks off. -/
abbrev Reading (α : Type) := α × Option (List Char)

def word (name : List Char) (v : Value) (s : List Char) : Reading Value :=
  if name.isPrefixOf s then (v, some (s.drop name.length)) else (.broken, none)

def leaf : List Char → Reading Value
  | '"' :: rest =>
    match string rest with
    | some (content, behind) => (.text content, some behind)
    | none => (.broken, none)
  | 'n' :: rest => word ['u', 'l', 'l'] .null rest
  | 't' :: rest => word ['r', 'u', 'e'] (.bool true) rest
  | 'f' :: rest => word ['a', 'l', 's', 'e'] (.bool false) rest
  | s =>
    match number s with
    | some (n, behind) => (.scalar (String.ofList n), some behind)
    | none => (.broken, none)

mutual

/-- A value, on a text that has at most half as many characters as the first argument. -/
def value : Nat → List Char → Reading Value
  | 0, _ => (.broken, none)
  | bound + 1, s =>
    match skipBlanks s with
    | '[' :: rest =>
      match skipBlanks rest with
      | ']' :: behind => (.list [] true, some behind)
      | _ =>
        let (vs, behind) := items bound rest
        (.list vs behind.isSome, behind)
    | '\x7b' :: rest =>
      match skipBlanks rest with
      | '\x7d' :: behind => (.record [] true, some behind)
      | _ =>
        let (ms, behind) := members bound rest
        (.record ms behind.isSome, behind)
    | s => leaf s

/-- The items of a list, from the first or behind a comma. -/
def items : Nat → List Char → Reading (List Value)
  | 0, _ => ([], none)
  | bound + 1, s =>
    match value bound s with
    | (v, none) => ([v], none)
    | (v, some rest) =>
      match skipBlanks rest with
      | ',' :: rest =>
        let (vs, behind) := items bound rest
        (v :: vs, behind)
      | ']' :: behind => ([v], some behind)
      | _ => ([v], none)

/-- The members of a record, from the first or behind a comma. -/
def members : Nat → List Char → Reading (List (Option String × Value))
  | 0, _ => ([], none)
  | bound + 1, s =>
    match skipBlanks s with
    | '"' :: rest =>
      match string rest with
      | none => ([], none)
      | some (name, rest) =>
        match skipBlanks rest with
        | ':' :: rest =>
          match value bound rest with
          | (v, none) => ([(name, v)], none)
          | (v, some rest) =>
            match skipBlanks rest with
            | ',' :: rest =>
              let (ms, behind) := members bound rest
              ((name, v) :: ms, behind)
            | '\x7d' :: behind => ([(name, v)], some behind)
            | _ => ([(name, v)], none)
        | _ => ([(name, .broken)], none)
    | _ => ([], none)

end

/-- The tree of a text, and what stands behind the value. -/
def read (text : String) : Reading Value :=
  let s := text.toList
  value (2 * s.length + 2) s

/-- Decode a text; only blanks may stand behind the value. -/
def decode {α : Type} (decoder : Decoder α) (text : String) : Except DecodeError α := do
  let (v, behind) := read text
  let a ← decoder v
  match behind with
  | some rest => if rest.all isBlank then .ok a else .error .malformed
  | none => .error .malformed

/-- The value that stands for a variant without content. -/
def isNull : Value → Bool
  | .null => true
  | _ => false

end TypeBridge.Json
