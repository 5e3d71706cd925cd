import TypeBridge.Data.Toml.Moment

/-!
# TOML scalars

Truth values, integers, floats and moments.  A scalar is read as the whole run of characters up to
the next delimiter, but a date and a time may have a blank between them.  The value of a number is
not needed further on, but its form and its range are checked.
-/

namespace TypeBridge.Toml

/-! ## Integers -/

def sign : List Char → Bool × List Char
  | '-' :: rest => (true, rest)
  | '+' :: rest => (false, rest)
  | s => (false, s)

/-- Decimal digits of a number that does not start with a zero unless it is zero. -/
def plainDigits (s : List Char) : Option (List Char) := do
  let ds ← digitRun Char.isDigit s
  if ds.head? = some '0' && s.length > 1 then none else some ds

/-- A signed number of 64 bits. -/
def decimalInteger (s : List Char) : Option Unit := do
  let (negative, body) := sign s
  let n := numberOf 10 (← plainDigits body)
  if n < Nat.pow 2 63 ∨ (negative ∧ n = Nat.pow 2 63) then some () else none

def basedInteger (base : Nat) (isDigit : Char → Bool) (s : List Char) : Option Unit := do
  let ds ← digitRun isDigit s
  if numberOf base ds < Nat.pow 2 63 then some () else none

def integer : List Char → Option Unit
  | '0' :: 'x' :: rest => basedInteger 16 isHexDigit rest
  | '0' :: 'o' :: rest => basedInteger 8 (fun c => '0' ≤ c && c ≤ '7') rest
  | '0' :: 'b' :: rest => basedInteger 2 (fun c => c == '0' || c == '1') rest
  | s => decimalInteger s

/-! ## Floats -/

def isDigitOrUnderscore (c : Char) : Bool :=
  c.isDigit || c == '_'

/-- The fraction behind a point, if there is one. -/
def fraction : List Char → Option (List Char × List Char)
  | '.' :: rest => do
    let ds ← digitRun Char.isDigit (rest.takeWhile isDigitOrUnderscore)
    some (ds, rest.dropWhile isDigitOrUnderscore)
  | s => some ([], s)

/-- The exponent at the end, if there is one. -/
def exponent : List Char → Option Int
  | [] => some 0
  | c :: rest =>
    if c = 'e' ∨ c = 'E' then do
      let (negative, body) := sign rest
      let n := numberOf 10 (← digitRun Char.isDigit body)
      some (if negative then -(n : Int) else n)
    else
      none

/-- The digits are followed by a power of ten, and the number is at least half a step above the
greatest double-precision float. -/
def overflows (digits : List Char) (power : Int) : Bool :=
  let ds := digits.dropWhile (· == '0')
  let magnitude := (ds.length : Int) + power
  if ds.isEmpty || magnitude < 309 then
    false
  else if magnitude > 309 then
    true
  else
    let bound := (Nat.pow 2 54 - 1) * Nat.pow 2 970
    let n := numberOf 10 ds
    let scale := Nat.pow 10 power.natAbs
    if power < 0 then bound * scale ≤ n else bound ≤ n * scale

/-- A float in decimal notation: it has a fraction or an exponent, and does not round to
infinity. -/
def decimalFloat (s : List Char) : Option Unit := do
  let (negative, body) := sign s
  let whole ← plainDigits (body.takeWhile isDigitOrUnderscore)
  let rest := body.dropWhile isDigitOrUnderscore
  let (part, behind) ← fraction rest
  let power ← exponent behind
  if rest.isEmpty || (!negative && overflows (whole ++ part) (power - part.length)) then none
    else some ()

def float (s : List Char) : Option Unit :=
  let (_, body) := sign s
  if body = ['i', 'n', 'f'] ∨ body = ['n', 'a', 'n'] then some () else decimalFloat s

/-! ## Scalars -/

/-- The characters that end a scalar. -/
def endsScalar (c : Char) : Bool :=
  [' ', '\t', '\n', '\r', ',', ']', '\x7d', '#'].contains c

def scalarOfRun (run : List Char) : Option Value :=
  if run = ['t', 'r', 'u', 'e'] then
    some (.bool true)
  else if run = ['f', 'a', 'l', 's', 'e'] then
    some (.bool false)
  else if (integer run <|> float run).isSome then
    some (.scalar (String.ofList run))
  else
    (Moment.read run).map Moment.toValue

/-- A date and a time with a blank between them, and the text behind. -/
def spacedMoment (run rest : List Char) : Option (Value × List Char) :=
  match rest with
  | ' ' :: behind =>
    let time := behind.takeWhile (!endsScalar ·)
    (Moment.read (run ++ ' ' :: time)).map fun m => (m.toValue, behind.dropWhile (!endsScalar ·))
  | _ => none

/-- A scalar that is no string, and the text behind it. -/
def scalar (s : List Char) : Option (Value × List Char) :=
  let run := s.takeWhile (!endsScalar ·)
  let rest := s.dropWhile (!endsScalar ·)
  match spacedMoment run rest with
  | some found => some found
  | none => (scalarOfRun run).map (·, rest)

end TypeBridge.Toml
