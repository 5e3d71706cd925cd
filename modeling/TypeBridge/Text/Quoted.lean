import TypeBridge.Text.Identifier

/-!
# Quoted text

String literals of the declaration language: double quotes around a text whose backslashes and
double quotes have a backslash in front.  All other characters stand for themselves.
-/

namespace TypeBridge.Text

/-- The text between the quotes of a literal. -/
def escape : List Char → List Char
  | [] => []
  | c :: rest => if c = '\\' ∨ c = '"' then '\\' :: c :: escape rest else c :: escape rest

def quote (s : List Char) : List Char :=
  '"' :: escape s ++ ['"']

/-- The literal that denotes a text. -/
def literal (s : String) : String :=
  String.ofList (quote s.toList)

/-- A property name: as it is where it is an identifier, as a literal elsewhere. -/
def propertyName (s : String) : String :=
  if IsIdentifier s.toList then s else literal s

/-- Every `c` becomes `text`. -/
def replaceChar (c : Char) (text s : List Char) : List Char :=
  s.flatMap fun d => if d = c then text else [d]

/-- Escaping is two replacements.  Backslashes are replaced first, so that those in front of quotes
stay single. -/
theorem escape_eq_replaceChar (s : List Char) :
    escape s = replaceChar '"' ['\\', '"'] (replaceChar '\\' ['\\', '\\'] s) := by
  induction s with
  | nil => rfl
  | cons c rest ih =>
    simp only [replaceChar, List.flatMap_cons, List.flatMap_append] at ih ⊢
    by_cases hslash : c = '\\'
    · subst hslash
      simp [escape, ih]
    · by_cases hquote : c = '"'
      · subst hquote
        simp [escape, ih]
      · simp [escape, ih, hslash, hquote]

end TypeBridge.Text
