import TypeBridge.Text.Blank
import TypeBridge.Text.Lines

/-!
# Documentation comments

`harvest` takes the lines of a documentation comment out of the raw text around them, and `block`
writes lines as a comment in front of a declaration.
-/

namespace TypeBridge.Comment

open Text

/-- One raw line without the signs that open, close or continue a comment, and without blanks at its
ends. -/
def bareLine (line : List Char) : List Char :=
  let opened := dropLeading ['/', '*', '*'] (trim line)
  let closed := trimStart (trimEnd (dropTrailing ['*', '/'] opened))
  trim (dropLeading ['*'] closed)

/-- Lines without the empty ones at either end. -/
def dropEmptyEnds (lines : List String) : List String :=
  ((lines.dropWhile (·.isEmpty)).reverse.dropWhile (·.isEmpty)).reverse

/-- The lines of a comment given in raw chunks. -/
def harvest (chunks : List String) : List String :=
  dropEmptyEnds
    ((chunks.flatMap fun chunk => lines chunk.toList).map fun l => String.ofList (bareLine l))

/-! ## Writing -/

def trimmed (s : String) : String :=
  String.ofList (trim s.toList)

/-- A line of a comment that has several; a blank one keeps no blank behind its star. -/
def blockLine (indent : String) (line : List Char) : String :=
  if AllBlank line then
    indent ++ " *\n"
  else
    indent ++ " * " ++ String.ofList (trim line) ++ "\n"

/-- A comment over several lines. -/
def tallBlock (indent : String) (comments : List String) : String :=
  indent ++ "/**\n"
    ++ String.join ((comments.flatMap fun c => lines c.toList).map (blockLine indent))
    ++ indent ++ " */\n"

/-- The comment in front of a declaration: nothing for no lines, one line for one. -/
def block (indent : String) : List String → String
  | [] => ""
  | [single] =>
    if single.toList.contains '\n' then
      tallBlock indent [single]
    else
      indent ++ "/** " ++ trimmed single ++ " */\n"
  | first :: second :: rest => tallBlock indent (first :: second :: rest)

end TypeBridge.Comment
