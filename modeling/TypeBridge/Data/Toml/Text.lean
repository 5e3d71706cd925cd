import TypeBridge.Data.Json

/-!
# TOML strings and keys

Basic strings have escapes, literal ones none; either may run over several lines between three
quotes.  The parts of a key are bare words or strings on one line.
-/

namespace TypeBridge.Toml

/-- Printable characters, tabs and everything beyond ASCII. -/
def isTextChar (c : Char) : Bool :=
  c == '\t' || (c.toNat ≥ 0x20 && c.toNat != 0x7F)

def isBlank (c : Char) : Bool :=
  c == ' ' || c == '\t'

def skipBlanks (s : List Char) : List Char :=
  s.dropWhile isBlank

/-- The text behind a line break. -/
def lineBreak? : List Char → Option (List Char)
  | '\n' :: rest => some rest
  | '\r' :: '\n' :: rest => some rest
  | _ => none

/-! ## Escapes -/

def escapes : List (Char × Char) :=
  [('b', '\x08'), ('t', '\t'), ('n', '\n'), ('f', '\x0c'), ('r', '\r'), ('"', '"'), ('\\', '\\')]

/-- The character of a code point; surrogates are none. -/
def scalarValue? (n : Nat) : Option Char :=
  if n < 0xD800 ∨ (0xE000 ≤ n ∧ n < 0x110000) then some (Char.ofNat n) else none

/-- A code point in `count` digits, and the text behind it. -/
def codePoint (count : Nat) (s : List Char) : Option (Char × List Char) := do
  let ds := s.take count
  if ds.length < count then
    none
  else
    let c ← scalarValue? (← Json.hexNumber? ds)
    some (c, s.drop count)

/-- What a backslash introduces. -/
def escaped : List Char → Option (Char × List Char)
  | 'u' :: rest => codePoint 4 rest
  | 'U' :: rest => codePoint 8 rest
  | c :: rest => (escapes.lookup c).map (·, rest)
  | [] => none

/-! ## Strings on one line -/

/-- The rest of a basic string behind its quote; the first argument bounds its length. -/
def basic : Nat → List Char → Option (List Char × List Char)
  | 0, _ => none
  | _, [] => none
  | _, '"' :: rest => some ([], rest)
  | bound + 1, '\\' :: rest => do
    let (c, rest) ← escaped rest
    let (s, behind) ← basic bound rest
    some (c :: s, behind)
  | bound + 1, c :: rest => do
    if isTextChar c then
      let (s, behind) ← basic bound rest
      some (c :: s, behind)
    else
      none

/-- The rest of a literal string behind its quote. -/
def literal (s : List Char) : Option (List Char × List Char) :=
  let content := s.takeWhile (· != '\'')
  match s.dropWhile (· != '\'') with
  | [] => none
  | _ :: behind => if content.all isTextChar then some (content, behind) else none

/-! ## Strings over several lines -/

/-- The content that quotes in front of the closing three add, and the text behind the close.  Up to
two quotes may stand there. -/
def close (quote : Char) (s : List Char) : Option (List Char × List Char) :=
  let count := (s.takeWhile (· == quote)).length
  if count < 3 then
    none
  else
    let extra := min (count - 3) 2
    some (List.replicate extra quote, s.drop (extra + 3))

/-- Blanks and line breaks; the first argument bounds how many. -/
def skipLines : Nat → List Char → List Char
  | 0, s => s
  | bound + 1, s =>
    match lineBreak? (skipBlanks s) with
    | some rest => skipLines bound rest
    | none => skipBlanks s

/-- A backslash at the end of a line joins it to the next text. -/
def joined? (s : List Char) : Option (List Char) :=
  (lineBreak? (skipBlanks s)).map (skipLines s.length)

/-- The rest of a basic string over several lines.  Line breaks in it become line feeds. -/
def tallBasic : Nat → List Char → Option (List Char × List Char)
  | 0, _ => none
  | bound + 1, s =>
    match close '"' s with
    | some found => some found
    | none =>
      match s with
      | [] => none
      | '\\' :: rest =>
        match joined? rest with
        | some rest => tallBasic bound rest
        | none => do
          let (c, rest) ← escaped rest
          let (t, behind) ← tallBasic bound rest
          some (c :: t, behind)
      | c :: rest =>
        match lineBreak? (c :: rest) with
        | some rest => do
          let (t, behind) ← tallBasic bound rest
          some ('\n' :: t, behind)
        | none =>
          if isTextChar c then do
            let (t, behind) ← tallBasic bound rest
            some (c :: t, behind)
          else
            none

/-- The rest of a literal string over several lines.  Line breaks in it become line feeds. -/
def tallLiteral : Nat → List Char → Option (List Char × List Char)
  | 0, _ => none
  | bound + 1, s =>
    match close '\'' s with
    | some found => some found
    | none =>
      match s with
      | [] => none
      | c :: rest =>
        match lineBreak? (c :: rest) with
        | some rest => do
          let (t, behind) ← tallLiteral bound rest
          some ('\n' :: t, behind)
        | none =>
          if isTextChar c then do
            let (t, behind) ← tallLiteral bound rest
            some (c :: t, behind)
          else
            none

/-- A line break directly behind the opening quotes does not count. -/
def dropFirstBreak (s : List Char) : List Char :=
  (lineBreak? s).getD s

/-- A string of any kind, and the text behind it. -/
def string (s : List Char) : Option (String × List Char) := do
  let (content, behind) ←
    match s with
    | '"' :: '"' :: '"' :: rest => tallBasic (rest.length + 1) (dropFirstBreak rest)
    | '\'' :: '\'' :: '\'' :: rest => tallLiteral (rest.length + 1) (dropFirstBreak rest)
    | '"' :: rest => basic (rest.length + 1) rest
    | '\'' :: rest => literal rest
    | _ => none
  some (String.ofList content, behind)

/-! ## Keys -/

def isBareKeyChar (c : Char) : Bool :=
  c.isAlphanum || c == '-' || c == '_'

/-- One part of a key: bare, or a string on one line. -/
def keyPart (s : List Char) : Option (String × List Char) :=
  match s with
  | '"' :: rest => (basic (rest.length + 1) rest).map fun found => (String.ofList found.1, found.2)
  | '\'' :: rest => (literal rest).map fun found => (String.ofList found.1, found.2)
  | _ =>
    match s.takeWhile isBareKeyChar with
    | [] => none
    | name => some (String.ofList name, s.dropWhile isBareKeyChar)

/-- Parts with points between them, and blanks around each.  The first argument bounds how many
parts there are. -/
def keyParts : Nat → List Char → Option (List String × List Char)
  | 0, _ => none
  | bound + 1, s => do
    let (part, rest) ← keyPart (skipBlanks s)
    match skipBlanks rest with
    | '.' :: rest =>
      let (parts, behind) ← keyParts bound rest
      some (part :: parts, behind)
    | behind => some ([part], behind)

/-- A key has fewer parts than this, and a value fewer containers inside each other. -/
def depthLimit : Nat := 80

/-- A key: its parts, and the text behind it. -/
def key (bound : Nat) (s : List Char) : Option (List String × List Char) := do
  let (parts, behind) ← keyParts bound s
  if parts.length < depthLimit then some (parts, behind) else none

end TypeBridge.Toml
