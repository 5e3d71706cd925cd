/-!
# Blank characters

The Unicode property White_Space and the cuts made with it.  A range table is a list of closed
ranges of code points, ascending and apart, so that membership is one search.
-/

namespace TypeBridge.Text

/-- Membership of a code point in a list of closed ranges. -/
def inRanges (ranges : List (Nat × Nat)) (n : Nat) : Bool :=
  ranges.any fun r => r.1 ≤ n && n ≤ r.2

/-- Each range is non-empty and ends at least two before the next one starts. -/
def Apart : List (Nat × Nat) → Bool
  | [] => true
  | [r] => r.1 ≤ r.2
  | r :: s :: rest => r.1 ≤ r.2 && r.2 + 1 < s.1 && Apart (s :: rest)

/-- The 25 code points of White_Space. -/
def blankRanges : List (Nat × Nat) :=
  [(0x09, 0x0D), (0x20, 0x20), (0x85, 0x85), (0xA0, 0xA0), (0x1680, 0x1680), (0x2000, 0x200A),
    (0x2028, 0x2029), (0x202F, 0x202F), (0x205F, 0x205F), (0x3000, 0x3000)]

def isBlank (c : Char) : Bool :=
  inRanges blankRanges c.toNat

theorem apart_blankRanges : Apart blankRanges = true := by decide

/-! ## Cuts -/

def trimStart (s : List Char) : List Char :=
  s.dropWhile isBlank

def trimEnd (s : List Char) : List Char :=
  (s.reverse.dropWhile isBlank).reverse

def trim (s : List Char) : List Char :=
  trimEnd (trimStart s)

/-- A text without any character that is not blank. -/
def AllBlank (s : List Char) : Bool :=
  s.all isBlank

/-- The text behind `start`, or the whole text if it does not begin so. -/
def dropLeading (start s : List Char) : List Char :=
  if start.isPrefixOf s then s.drop start.length else s

/-- The text before `finish`, or the whole text if it does not end so. -/
def dropTrailing (finish s : List Char) : List Char :=
  if finish.isSuffixOf s then s.take (s.length - finish.length) else s

/-- Only blanks are cut off the end. -/
theorem trimEnd_concat {s : List Char} {c : Char} (hc : isBlank c = false) :
    trimEnd (s ++ [c]) = s ++ [c] := by
  simp [trimEnd, hc]

theorem dropLeading_append (start s : List Char) : dropLeading start (start ++ s) = s := by
  simp [dropLeading]

theorem dropTrailing_append (finish s : List Char) : dropTrailing finish (s ++ finish) = s := by
  simp [dropTrailing]

end TypeBridge.Text
