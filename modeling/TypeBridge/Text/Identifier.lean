/-!
# Identifiers

Which names of the host language may stand unquoted in a declaration, and how a parameter name is
made to fit.  Letters and digits are the ASCII ones.
-/

namespace TypeBridge.Text

/-- May open an identifier. -/
def isIdentifierStart (c : Char) : Bool :=
  c.isAlpha || c == '_' || c == '$'

/-- May continue an identifier. -/
def isIdentifierChar (c : Char) : Bool :=
  c.isAlphanum || c == '_' || c == '$'

def IsIdentifier : List Char → Bool
  | [] => false
  | c :: rest => isIdentifierStart c && rest.all isIdentifierChar

/-- The words that cannot name a parameter. -/
def reservedWords : List String :=
  ["break", "case", "catch", "class", "const", "continue", "debugger", "default", "delete",
    "do", "else", "enum", "export", "extends", "false", "finally", "for", "function", "if",
    "import", "in", "instanceof", "new", "null", "return", "super", "switch", "this", "throw",
    "true", "try", "typeof", "var", "void", "while", "with", "yield", "let", "static", "implements",
    "interface", "package", "private", "protected", "public", "await", "async"]

/-! ## Parameter names -/

/-- Characters that no identifier holds become underscores. -/
def replaceForeign (s : List Char) : List Char :=
  s.map fun c => if isIdentifierChar c then c else '_'

/-- An identifier does not start with a digit. -/
def guardDigit : List Char → List Char
  | [] => []
  | c :: rest => if c.isDigit then '_' :: c :: rest else c :: rest

/-- A reserved word gets an underscore in front. -/
def guardReserved (s : List Char) : List Char :=
  if reservedWords.contains (String.ofList s) then '_' :: s else s

/-- The name a parameter is written under. -/
def parameterName (name : String) : String :=
  if name.isEmpty then
    "_empty"
  else
    String.ofList (guardReserved (guardDigit (replaceForeign name.toList)))

theorem isIdentifierChar_of_isIdentifierStart {c : Char} (h : isIdentifierStart c = true) :
    isIdentifierChar c = true := by
  simp only [isIdentifierStart, isIdentifierChar, Char.isAlphanum, Bool.or_eq_true] at h ⊢
  rcases h with (h | h) | h
  · exact .inl (.inl (.inl h))
  · exact .inl (.inr h)
  · exact .inr h

theorem isIdentifierChar_replaceForeign {s : List Char} {c : Char} (h : c ∈ replaceForeign s) :
    isIdentifierChar c = true := by
  obtain ⟨d, -, rfl⟩ := List.mem_map.1 h
  split
  · assumption
  · decide

/-- An identifier character that is no digit may stand first. -/
theorem isIdentifierStart_of_not_isDigit {c : Char} (h : isIdentifierChar c = true)
    (hdigit : c.isDigit = false) : isIdentifierStart c = true := by
  simpa [isIdentifierStart, isIdentifierChar, Char.isAlphanum, hdigit] using h

theorem not_isAlpha_of_isDigit {c : Char} (h : c.isDigit = true) : ¬c.isAlpha = true := by
  have hnine : c.toNat ≤ 57 := of_decide_eq_true (Bool.and_eq_true_iff.1 h).2
  intro halpha
  rcases Bool.or_eq_true_iff.1 halpha with hupper | hlower
  · have hfirst : 65 ≤ c.toNat := (of_decide_eq_true hupper).1
    omega
  · have hfirst : 97 ≤ c.toNat := of_decide_eq_true (Bool.and_eq_true_iff.1 hlower).1
    omega

theorem isIdentifier_cons_iff {c : Char} {s : List Char} :
    IsIdentifier (c :: s) = true ↔
      isIdentifierStart c = true ∧ ∀ d ∈ s, isIdentifierChar d = true := by
  simp [IsIdentifier]

theorem IsIdentifier.forall_isIdentifierChar {s : List Char} (h : IsIdentifier s = true) :
    ∀ c ∈ s, isIdentifierChar c = true := by
  cases s with
  | nil => exact fun c hc => nomatch hc
  | cons c rest =>
    obtain ⟨hc, hrest⟩ := isIdentifier_cons_iff.1 h
    exact List.forall_mem_cons.2 ⟨isIdentifierChar_of_isIdentifierStart hc, hrest⟩

theorem isIdentifier_underscore {s : List Char} (h : ∀ c ∈ s, isIdentifierChar c = true) :
    IsIdentifier ('_' :: s) = true :=
  isIdentifier_cons_iff.2 ⟨rfl, h⟩

theorem isIdentifier_guardDigit {s : List Char} (hne : s ≠ [])
    (h : ∀ c ∈ s, isIdentifierChar c = true) : IsIdentifier (guardDigit s) = true := by
  cases s with
  | nil => exact absurd rfl hne
  | cons c rest =>
    obtain ⟨hc, hrest⟩ := List.forall_mem_cons.1 h
    cases hdigit : c.isDigit with
    | true =>
      rw [guardDigit, if_pos hdigit]
      exact isIdentifier_underscore h
    | false =>
      rw [guardDigit, if_neg (by simp [hdigit])]
      exact isIdentifier_cons_iff.2 ⟨isIdentifierStart_of_not_isDigit hc hdigit, hrest⟩

theorem isIdentifier_guardReserved {s : List Char} (h : IsIdentifier s = true) :
    IsIdentifier (guardReserved s) = true := by
  unfold guardReserved
  split
  · exact isIdentifier_underscore (IsIdentifier.forall_isIdentifierChar h)
  · exact h

/-- Every parameter is written under an identifier. -/
theorem isIdentifier_parameterName (name : String) :
    IsIdentifier (parameterName name).toList = true := by
  unfold parameterName
  split
  · decide
  · next hne =>
    have hchars : replaceForeign name.toList ≠ [] := by
      simpa [replaceForeign] using hne
    rw [String.toList_ofList]
    exact isIdentifier_guardReserved
      (isIdentifier_guardDigit hchars fun c hc => isIdentifierChar_replaceForeign hc)

theorem ofList_underscore_notMem_reservedWords (s : List Char) :
    String.ofList ('_' :: s) ∉ reservedWords := by
  have hstart : ∀ w ∈ reservedWords, w.toList.head? ≠ some '_' := by decide
  intro hmem
  exact hstart _ hmem (by simp)

theorem parameterName_notMem_reservedWords (name : String) :
    parameterName name ∉ reservedWords := by
  unfold parameterName guardReserved
  split
  · decide
  · split
    · exact ofList_underscore_notMem_reservedWords _
    · next hfree => simpa using hfree

theorem replaceForeign_of_forall {s : List Char} (h : ∀ c ∈ s, isIdentifierChar c = true) :
    replaceForeign s = s := by
  calc
    replaceForeign s = s.map id := List.map_congr_left fun c hc => if_pos (h c hc)
    _ = s := List.map_id s

theorem guardDigit_of_isIdentifier {s : List Char} (h : IsIdentifier s = true) :
    guardDigit s = s := by
  cases s with
  | nil => rfl
  | cons c rest =>
    have hstart := (isIdentifier_cons_iff.1 h).1
    have hdigit : ¬c.isDigit = true := by
      intro hdigit
      have hcases : (c.isAlpha = true ∨ c = '_') ∨ c = '$' := by
        simpa [isIdentifierStart] using hstart
      rcases hcases with (halpha | rfl) | rfl
      · exact not_isAlpha_of_isDigit hdigit halpha
      · cases hdigit
      · cases hdigit
    rw [guardDigit, if_neg hdigit]

/-- An identifier that is no reserved word is kept. -/
theorem parameterName_of_isIdentifier {name : String} (h : IsIdentifier name.toList = true)
    (hfree : name ∉ reservedWords) : parameterName name = name := by
  have hne : ¬name.isEmpty = true := by
    intro hempty
    rw [String.isEmpty_iff.1 hempty] at h
    cases h
  have hkept : guardReserved name.toList = name.toList := if_neg (by simpa using hfree)
  rw [parameterName, if_neg hne, replaceForeign_of_forall (IsIdentifier.forall_isIdentifierChar h),
    guardDigit_of_isIdentifier h, hkept, String.ofList_toList]

theorem parameterName_parameterName (name : String) :
    parameterName (parameterName name) = parameterName name :=
  parameterName_of_isIdentifier (isIdentifier_parameterName name)
    (parameterName_notMem_reservedWords name)

end TypeBridge.Text
