/-!
# TOML digits

The digits of numbers, dates and times: how they are read, and how a number is written in a given
number of places.
-/

namespace TypeBridge.Toml

def isHexDigit (c : Char) : Bool :=
  c.isDigit || ('a' ≤ c && c ≤ 'f') || ('A' ≤ c && c ≤ 'F')

def digitValue (c : Char) : Nat :=
  if c.isDigit then c.toNat - 48 else if c.isUpper then c.toNat - 55 else c.toNat - 87

/-- The number that digits write in a base. -/
def numberOf (base : Nat) (digits : List Char) : Nat :=
  digits.foldl (fun n c => base * n + digitValue c) 0

/-- Digits with single underscores between them, without the underscores. -/
def digitRun (isDigit : Char → Bool) : List Char → Option (List Char)
  | [] => none
  | [c] => if isDigit c then some [c] else none
  | c :: '_' :: rest => if isDigit c then (c :: ·) <$> digitRun isDigit rest else none
  | c :: d :: rest => if isDigit c then (c :: ·) <$> digitRun isDigit (d :: rest) else none

/-- A number of two digits, and the text behind it. -/
def twoDigits : List Char → Option (Nat × List Char)
  | a :: b :: rest => if a.isDigit && b.isDigit then some (numberOf 10 [a, b], rest) else none
  | _ => none

/-- A number in decimal digits, with zeros in front of it up to a width. -/
def padded (width n : Nat) : List Char :=
  let ds := (toString n).toList
  List.replicate (width - ds.length) '0' ++ ds

end TypeBridge.Toml
