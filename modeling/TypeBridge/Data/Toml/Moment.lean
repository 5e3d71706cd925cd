import TypeBridge.Data.Toml.Digits
import TypeBridge.Data.Value

/-!
# TOML dates and times

A moment is a date, a time of day, or a date with a time, perhaps with its offset from universal
time.  `Moment.parts` takes a text apart by its form alone, `Moment.isValid` says which values the
parts may have, and `Moment.read` is both.  It serves for a moment that stands in a document by
itself and for one that is written as a table.  `Moment.text` is the one form in which a moment is
handed on, whatever form it was read from.
-/

namespace TypeBridge.Toml

/-- The text behind a character that has to stand there. -/
def behind? (c : Char) : List Char → Option (List Char)
  | d :: rest => if d = c then some rest else none
  | [] => none

/-! ## Dates -/

structure Date where
  year : Nat
  month : Nat
  day : Nat
deriving DecidableEq

namespace Date

def isLeapYear (year : Nat) : Bool :=
  year % 4 = 0 && (year % 100 != 0 || year % 400 = 0)

def daysInMonth (year month : Nat) : Nat :=
  if month = 2 then
    if isLeapYear year then 29 else 28
  else if month = 4 ∨ month = 6 ∨ month = 9 ∨ month = 11 then
    30
  else
    31

/-- The day is one of the calendar. -/
def isValid (d : Date) : Bool :=
  1 ≤ d.month && d.month ≤ 12 && 1 ≤ d.day && d.day ≤ daysInMonth d.year d.month

/-- Year, month and day with hyphens between them, and the text behind. -/
def read (s : List Char) : Option (Date × List Char) := do
  let (century, s) ← twoDigits s
  let (year, s) ← twoDigits s
  let (month, s) ← twoDigits (← behind? '-' s)
  let (day, s) ← twoDigits (← behind? '-' s)
  some (⟨100 * century + year, month, day⟩, s)

def text (d : Date) : List Char :=
  padded 4 d.year ++ '-' :: padded 2 d.month ++ '-' :: padded 2 d.day

end Date

/-! ## Times of day -/

structure TimeOfDay where
  hour : Nat
  minute : Nat
  second : Nat
  nanosecond : Nat
deriving DecidableEq

namespace TimeOfDay

/-- The time is one of a clock; a minute may have a leap second. -/
def isValid (t : TimeOfDay) : Bool :=
  t.hour ≤ 23 && t.minute ≤ 59 && t.second ≤ 60

/-- The nanoseconds that digits behind the point of a second write; more than nine digits are
cut. -/
def nanoseconds (digits : List Char) : Nat :=
  let shown := digits.take 9
  numberOf 10 shown * Nat.pow 10 (9 - shown.length)

/-- Nanoseconds behind a point, if there is one, and the text behind them. -/
def readFraction : List Char → Option (Nat × List Char)
  | '.' :: rest =>
    match rest.takeWhile Char.isDigit with
    | [] => none
    | digits => some (nanoseconds digits, rest.dropWhile Char.isDigit)
  | s => some (0, s)

/-- Hour, minute and second with colons between them, and the text behind. -/
def read (s : List Char) : Option (TimeOfDay × List Char) := do
  let (hour, s) ← twoDigits s
  let (minute, s) ← twoDigits (← behind? ':' s)
  let (second, s) ← twoDigits (← behind? ':' s)
  let (nanosecond, s) ← readFraction s
  some (⟨hour, minute, second, nanosecond⟩, s)

/-- The digits behind the point, without the zeros at their end. -/
def fractionText (nanosecond : Nat) : List Char :=
  if nanosecond = 0 then
    []
  else
    '.' :: ((padded 9 nanosecond).reverse.dropWhile (· == '0')).reverse

def text (t : TimeOfDay) : List Char :=
  padded 2 t.hour ++ ':' :: padded 2 t.minute ++ ':' :: padded 2 t.second ++
    fractionText t.nanosecond

end TimeOfDay

/-! ## Offsets -/

inductive Offset where
  /-- No difference from universal time. -/
  | zero
  /-- A difference in hours and minutes, as it is written. -/
  | shift (negative : Bool) (hours minutes : Nat)
deriving DecidableEq

namespace Offset

/-- The size of the difference in minutes. -/
def distance : Offset → Nat
  | zero => 0
  | shift _ hours minutes => 60 * hours + minutes

/-- The hours and the minutes are those of a clock. -/
def isValid : Offset → Bool
  | zero => true
  | shift _ hours minutes => hours ≤ 23 && minutes ≤ 59

/-- The rest of a text as an offset; none if nothing is left. -/
def read : List Char → Option (Option Offset)
  | [] => some none
  | ['Z'] => some (some zero)
  | ['z'] => some (some zero)
  | c :: rest => do
    let (hours, rest) ← twoDigits rest
    let (minutes, rest) ← twoDigits (← behind? ':' rest)
    if rest.isEmpty && (c == '+' || c == '-') then
      some (some (shift (c == '-') hours minutes))
    else
      none

/-- A difference of nothing has a plus. -/
def text : Offset → List Char
  | zero => ['Z']
  | shift negative hours minutes =>
    let n := (shift negative hours minutes).distance
    let mark := if negative && n != 0 then '-' else '+'
    mark :: padded 2 (n / 60) ++ ':' :: padded 2 (n % 60)

end Offset

/-! ## Moments -/

structure Moment where
  date : Option Date
  time : Option TimeOfDay
  offset : Option Offset
deriving DecidableEq

namespace Moment

/-- A time behind a date, if there is one, and the text behind it. -/
def readTime : List Char → Option (Option TimeOfDay × List Char)
  | [] => some (none, [])
  | c :: rest =>
    if c = 'T' ∨ c = 't' ∨ c = ' ' then
      (TimeOfDay.read rest).map fun found => (some found.1, found.2)
    else
      some (none, c :: rest)

/-- The parts of a text that is nothing but a moment.  A time without a date has no offset. -/
def parts (s : List Char) : Option Moment :=
  match s with
  | _ :: _ :: ':' :: _ => do
    let (time, rest) ← TimeOfDay.read s
    if rest.isEmpty then some ⟨none, some time, none⟩ else none
  | _ => do
    let (date, rest) ← Date.read s
    let (time, rest) ← readTime rest
    let offset ← Offset.read rest
    some ⟨some date, time, offset⟩

/-- All parts are of the calendar and the clock, and only a time has an offset. -/
def isValid (m : Moment) : Bool :=
  m.date.all Date.isValid && m.time.all TimeOfDay.isValid && m.offset.all Offset.isValid
    && (m.time.isSome || m.offset.isNone)

/-- The moment that a text writes. -/
def read (s : List Char) : Option Moment :=
  (parts s).filter isValid

/-- The form in which the moment is handed on. -/
def text (m : Moment) : String :=
  let date := (m.date.map Date.text).getD []
  let mark := if m.date.isSome && m.time.isSome then ['T'] else []
  let time := (m.time.map TimeOfDay.text).getD []
  let offset := (m.offset.map Offset.text).getD []
  String.ofList (date ++ mark ++ time ++ offset)

def toValue (m : Moment) : Value :=
  .moment m.text

end Moment

/-! ## Moments written as tables -/

/-- A table whose first key this is stands for the moment that its first value writes. -/
def momentKey : String :=
  "$__toml_private_datetime"

/-- The moment that a value under the key of moments writes. -/
def writtenMoment : Value → Option Value
  | .text (some s) => (Moment.read s.toList).map Moment.toValue
  | _ => none

mutual

/-- The value with moments in the place of the tables that stand for them; none if such a table
writes no moment.  What stands behind the first key of such a table does not count. -/
def withMoments : Value → Option Value
  | .list items closed => do
    let items ← itemsWithMoments items
    some (.list items closed)
  | .record ((some name, first) :: rest) closed =>
    if name = momentKey then
      writtenMoment first
    else do
      let first ← withMoments first
      let rest ← membersWithMoments rest
      some (.record ((some name, first) :: rest) closed)
  | v => some v

def itemsWithMoments : List Value → Option (List Value)
  | [] => some []
  | v :: rest => do
    let v ← withMoments v
    let rest ← itemsWithMoments rest
    some (v :: rest)

def membersWithMoments : List (Option String × Value) → Option (List (Option String × Value))
  | [] => some []
  | (name, v) :: rest => do
    let v ← withMoments v
    let rest ← membersWithMoments rest
    some ((name, v) :: rest)

end

end TypeBridge.Toml
