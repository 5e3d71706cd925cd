/-!
# Lines

Cutting a text at its line feeds.  A carriage return directly before a line feed belongs to the line
break, one anywhere else is an ordinary character, and a line break at the end opens no further
line.
-/

namespace TypeBridge.Text

/-- The pieces between the line feeds; one more than there are line feeds. -/
def splitAtLineFeed : List Char → List (List Char)
  | [] => [[]]
  | c :: rest =>
    if c = '\n' then
      [] :: splitAtLineFeed rest
    else
      match splitAtLineFeed rest with
      | [] => [[c]]
      | piece :: pieces => (c :: piece) :: pieces

/-- A piece that ended in a line feed, without the carriage return of its line break. -/
def dropReturn (piece : List Char) : List Char :=
  if piece.getLast? = some '\r' then piece.dropLast else piece

/-- The lines of pieces: all but the last ended in a line feed, and an empty last one is no line. -/
def linesOfPieces : List (List Char) → List (List Char)
  | [] => []
  | [piece] => if piece = [] then [] else [piece]
  | piece :: next :: pieces => dropReturn piece :: linesOfPieces (next :: pieces)

def lines (s : List Char) : List (List Char) :=
  linesOfPieces (splitAtLineFeed s)

theorem splitAtLineFeed_ne_nil (s : List Char) : splitAtLineFeed s ≠ [] := by
  cases s with
  | nil => simp [splitAtLineFeed]
  | cons c rest =>
    simp only [splitAtLineFeed]
    split
    · simp
    · split <;> simp

theorem lines_nil : lines [] = [] := rfl

end TypeBridge.Text
