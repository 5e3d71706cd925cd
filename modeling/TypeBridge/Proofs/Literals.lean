import TypeBridge.Proofs.Phrases
import TypeBridge.Proofs.Unnumbered

/-!
# Literals and names as tokens

A literal is read back from whatever text it begins (`Text.quote_cancel`), so a union of literals
shows all of its members (`Enumeration.display_names_read_back`).  This holds of every text.  A
literal stays within its line only if its text does, since line breaks are not escaped, and a name
that is no identifier becomes a literal for a property, but not for a method (`member_tokens_iff`).
-/

namespace TypeBridge

namespace Text

/-! ## What a literal denotes -/

/-- What a backslash makes of the character behind it.  There is nothing for the characters that
begin an escape by number, and for line breaks. -/
def escapeValue? (c : Char) : Option Char :=
  match c with
  | 'b' => some '\x08'
  | 't' => some '\t'
  | 'n' => some '\n'
  | 'v' => some '\x0b'
  | 'f' => some '\x0c'
  | 'r' => some '\r'
  | c => if c.isDigit || ['x', 'u', '\n', '\r', '\u2028', '\u2029'].contains c then none else some c

/-- The text between the quotes of a literal, and the text that the literal denotes. -/
inductive Spells : List Char → List Char → Prop
  | nil : Spells [] []
  | plain {c : Char} {body s : List Char} (hquote : c ≠ '"') (hslash : c ≠ '\\')
      (h : Spells body s) :
      Spells (c :: body) (c :: s)
  | escaped {c d : Char} {body s : List Char} (hvalue : escapeValue? c = some d)
      (h : Spells body s) :
      Spells ('\\' :: c :: body) (d :: s)

/-- A text within one line. -/
def Unbroken (s : List Char) : Prop :=
  '\n' ∉ s ∧ '\r' ∉ s

instance (s : List Char) : Decidable (Unbroken s) :=
  inferInstanceAs (Decidable ('\n' ∉ s ∧ '\r' ∉ s))

/-- A literal that denotes the text and stays within its line. -/
def IsLiteral (token s : String) : Prop :=
  ∃ body, token.toList = '"' :: body ++ ['"'] ∧ Spells body s.toList ∧ Unbroken body

/-- What may stand for a name: the name, if it is an identifier, or a literal of it. -/
def NameToken (token name : String) : Prop :=
  (token = name ∧ IsIdentifier name.toList = true) ∨ IsLiteral token name

section

variable {body body' s s' r r' : List Char} {name token : String}

/-- A literal ends at its first quote without a backslash in front, and denotes one text. -/
theorem Spells.cancel (h : Spells body s) (h' : Spells body' s')
    (heq : body ++ '"' :: r = body' ++ '"' :: r') : body = body' ∧ s = s' ∧ r = r' := by
  induction h generalizing body' s' with
  | nil =>
    cases h' with
    | nil => exact ⟨rfl, rfl, (List.cons.inj heq).2⟩
    | plain hquote => exact absurd (List.cons.inj heq).1.symm hquote
    | escaped => exact absurd (List.cons.inj heq).1 (by decide)
  | plain hquote hslash _ ih =>
    cases h' with
    | nil => exact absurd (List.cons.inj heq).1 hquote
    | plain _ _ h' =>
      obtain ⟨rfl, hrest⟩ := List.cons.inj heq
      obtain ⟨rfl, rfl, hr⟩ := ih h' hrest
      exact ⟨rfl, rfl, hr⟩
    | escaped => exact absurd (List.cons.inj heq).1 hslash
  | escaped hvalue _ ih =>
    cases h' with
    | nil => exact absurd (List.cons.inj heq).1 (by decide)
    | plain _ hslash => exact absurd (List.cons.inj heq).1.symm hslash
    | escaped hvalue' h' =>
      obtain ⟨rfl, hrest⟩ := List.cons.inj (List.cons.inj heq).2
      obtain ⟨rfl, rfl, hr⟩ := ih h' hrest
      cases hvalue.symm.trans hvalue'
      exact ⟨rfl, rfl, hr⟩

theorem Spells.length_le (h : Spells body s) : s.length ≤ body.length := by
  induction h with
  | nil => exact Nat.le_refl _
  | plain _ _ _ ih => exact Nat.succ_le_succ ih
  | escaped _ _ ih => exact Nat.le_succ_of_le (Nat.succ_le_succ ih)

/-- No literal is written as the text that it denotes. -/
theorem IsLiteral.ne (h : IsLiteral token name) : token ≠ name := by
  obtain ⟨body, htoken, hspells, -⟩ := h
  rintro rfl
  have hlength := hspells.length_le
  simp only [htoken, List.cons_append, List.length_cons, List.length_append,
    List.length_nil] at hlength
  omega

theorem spells_escape (s : List Char) : Spells (escape s) s := by
  induction s with
  | nil => exact .nil
  | cons c rest ih =>
    unfold escape
    split
    · next hc =>
      have hvalue : escapeValue? c = some c := by rcases hc with rfl | rfl <;> rfl
      exact .escaped hvalue ih
    · next hc =>
      obtain ⟨hslash, hquote⟩ := not_or.1 hc
      exact .plain hquote hslash ih

/-- What is written for a text denotes that text and no other. -/
theorem spells_escape_iff : Spells (escape s) s' ↔ s' = s := by
  constructor
  · intro h
    exact (h.cancel (spells_escape s) (Eq.refl (escape s ++ ['"']))).2.1
  · rintro rfl
    exact spells_escape s'

/-- Only backslashes are added. -/
theorem mem_escape {c : Char} (hc : c ≠ '\\') : c ∈ escape s ↔ c ∈ s := by
  induction s with
  | nil => exact Iff.rfl
  | cons d rest ih =>
    unfold escape
    split <;> simp [hc, ih]

theorem unbroken_escape : Unbroken (escape s) ↔ Unbroken s := by
  rw [Unbroken, mem_escape (by decide), mem_escape (by decide), Unbroken]

/-- **A literal is read off the text that it begins.** -/
theorem quote_cancel (h : quote s ++ r = quote s' ++ r') : s = s' ∧ r = r' := by
  simp only [quote, List.cons_append, List.append_assoc, List.nil_append, List.cons.injEq,
    true_and] at h
  exact ((spells_escape s).cancel (spells_escape s') h).2

theorem toList_literal (s : String) : (literal s).toList = '"' :: escape s.toList ++ ['"'] := by
  rw [literal, String.toList_ofList, quote]

theorem isLiteral_literal_iff (s : String) : IsLiteral (literal s) s ↔ Unbroken s.toList := by
  constructor
  · rintro ⟨body, htoken, -, hunbroken⟩
    rw [toList_literal] at htoken
    have hbody : escape s.toList = body := List.append_cancel_right (List.cons.inj htoken).2
    rw [← hbody, unbroken_escape] at hunbroken
    exact hunbroken
  · exact fun h => ⟨escape s.toList, toList_literal s, spells_escape s.toList, unbroken_escape.2 h⟩

theorem unbroken_of_isIdentifier (h : IsIdentifier s = true) : Unbroken s := by
  have hbreak (c : Char) (hforeign : isIdentifierChar c = false) : c ∉ s := by
    intro hmem
    rw [IsIdentifier.forall_isIdentifierChar h c hmem] at hforeign
    cases hforeign
  exact ⟨hbreak '\n' (by decide), hbreak '\r' (by decide)⟩

theorem nameToken_propertyName_iff (name : String) : NameToken (propertyName name) name ↔
    Unbroken name.toList := by
  unfold propertyName NameToken
  split
  · next h => exact ⟨fun _ => unbroken_of_isIdentifier h, fun _ => .inl ⟨rfl, h⟩⟩
  · next h =>
    rw [isLiteral_literal_iff]
    exact ⟨fun htoken => htoken.resolve_left fun hname => h hname.2, .inr⟩

theorem nameToken_self_iff (name : String) :
    NameToken name name ↔ IsIdentifier name.toList = true := by
  constructor
  · rintro (h | h)
    · exact h.2
    · exact absurd rfl h.ne
  · exact fun h => .inl ⟨rfl, h⟩

end

end Text

/-! ## Unions -/

namespace Enumeration

def displayNames (e : Enumeration) : List String :=
  e.members.map (·.displayName)

/-- The union of literals with the names' texts. -/
def unionText : List String → List Char
  | [] => ['n', 'e', 'v', 'e', 'r']
  | n :: rest =>
    Text.quote n.toList ++ rest.flatMap fun m => ' ' :: (['|', ' '] ++ Text.quote m.toList)

/-- A union is read off the text that it begins. -/
theorem unionText_cancel {names names' : List String} {r r' : List Char}
    (h : unionText names ++ ';' :: r = unionText names' ++ ';' :: r') :
    names = names' ∧ r = r' := by
  cases names with
  | nil =>
    cases names' with
    | nil => exact ⟨rfl, (List.cons.inj (List.append_cancel_left h)).2⟩
    | cons n' rest' => exact absurd (List.cons.inj h).1 (by decide)
  | cons n rest =>
    cases names' with
    | nil => exact absurd (List.cons.inj h).1 (by decide)
    | cons n' rest' =>
      have hquote : ∀ m ∈ n :: rest,
          Text.Cancels (fun _ => True) (fun m => Text.quote m.toList) m (n' :: rest') := by
        intro m _ m' _ s t _ _ heq
        exact (Text.quote_cancel heq).imp_left String.toList_inj.1
      rw [unionText, unionText, List.append_assoc, List.append_assoc] at h
      exact Text.separated_cancel (by decide) (fun _ => trivial) (fun _ => trivial) hquote h

theorem toList_intercalate_literals (n : String) (rest : List String) :
    (String.intercalate " | " ((n :: rest).map Text.literal)).toList = unionText (n :: rest) := by
  rw [String.toList_intercalate, List.map_map]
  induction rest generalizing n with
  | nil => simp [unionText, Text.literal]
  | cons m rest ih =>
    have hrest := ih m
    simp only [List.map_cons] at hrest ⊢
    rw [List.intercalate_cons_cons, hrest]
    simp [unionText, Text.literal]

theorem toList_union (e : Enumeration) : e.union.toList = unionText e.displayNames := by
  unfold union displayNames
  cases e.members with
  | nil => rfl
  | cons m rest =>
    have htext := toList_intercalate_literals m.displayName (rest.map (·.displayName))
    simpa [Function.comp_def] using htext

/-- An enumeration that is written from its name and its members alone. -/
structure Undecorated (e : Enumeration) : Prop where
  signature : e.signature = none
  comments : e.comments = []

theorem Undecorated.toList_render {e : Enumeration} (h : e.Undecorated) :
    e.render.toList = ("type " ++ e.symbol.name ++ " = ").toList ++
      (unionText e.displayNames ++ [';', '\n']) := by
  have hheader : e.header = "type " ++ e.symbol.name := by rw [header, h.signature]
  have hblock : Comment.block "" e.comments = "" := by rw [h.comments, Comment.block]
  rw [render, hheader, hblock, ← toList_union]
  simp

/-- **Unions lose nothing.**  Two enumerations of one name have the same text if and only if they
have the same display names, in the same order and as often. -/
theorem display_names_read_back {e f : Enumeration} (he : e.Undecorated) (hf : f.Undecorated)
    (hname : e.symbol.name = f.symbol.name) :
    e.render = f.render ↔ e.displayNames = f.displayNames := by
  rw [← String.toList_inj, he.toList_render, hf.toList_render, hname]
  constructor
  · intro h
    exact (unionText_cancel (List.append_cancel_left h)).1
  · intro h
    rw [h]

/-- A name that imitates the end of its literal, the separator and another literal. -/
theorem display_names_read_back_imitation :
    let e : Enumeration :=
      { source := .named "E", symbol := ⟨0, "E"⟩, members := [⟨"A", "a\" | \"b"⟩] }
    let f : Enumeration :=
      { source := .named "E", symbol := ⟨1, "E"⟩, members := [⟨"A", "a"⟩, ⟨"B", "b"⟩] }
    f.render = "type E = \"a\" | \"b\";\n" ∧ e.Undecorated ∧ f.Undecorated ∧
    e.render ≠ f.render := by
  intro e f
  have he : e.Undecorated := ⟨rfl, rfl⟩
  have hf : f.Undecorated := ⟨rfl, rfl⟩
  exact ⟨by decide, he, hf, mt (display_names_read_back he hf rfl).1 (by decide)⟩

end Enumeration

/-! ## Names of members -/

/-- The line of a property with `token` in place of its name. -/
def Property.lineAs (p : Property) (token : String) : String :=
  token ++ (optionalMark p.optional ++ ": " ++ p.type.render ++ ";\n")

/-- The line of a method with `token` in place of its name. -/
def Method.lineAs (m : Method) (token : String) : String :=
  (if m.isStatic then "static " else "") ++ token ++ (optionalMark m.optional ++ "("
    ++ TargetType.renderParams m.params ++ "): " ++ m.result.render ++ ";\n")

theorem Property.exists_token_iff {p : Property} (h : p.type.isVerbatim = false) :
    (∃ token, p.line = p.lineAs token ∧ Text.NameToken token p.name) ↔
      Text.Unbroken p.name.toList := by
  have hline : p.line = p.lineAs (Text.propertyName p.name) := by
    rw [line_eq, memberLine_of_not_isVerbatim h, lineAs]
    simp only [String.append_assoc]
  rw [← Text.nameToken_propertyName_iff, hline]
  constructor
  · rintro ⟨token, htoken, hname⟩
    rwa [(String.append_left_inj _).1 htoken]
  · exact fun hname => ⟨_, rfl, hname⟩

theorem Method.exists_token_iff {m : Method} (h : m.result.isVerbatim = false) :
    (∃ token, m.line = m.lineAs token ∧ Text.NameToken token m.name) ↔
      Text.IsIdentifier m.name.toList = true := by
  have hline : m.line = m.lineAs m.name := by
    rw [line_eq, memberLine_of_not_isVerbatim h, lineAs]
    simp only [String.append_assoc]
  rw [← Text.nameToken_self_iff, hline]
  constructor
  · rintro ⟨token, htoken, hname⟩
    have hsame : m.name = token :=
      (String.append_right_inj _).1 ((String.append_left_inj _).1 htoken)
    rwa [← hsame] at hname
  · exact fun hname => ⟨_, rfl, hname⟩

/-- **Literals and names as tokens.**  A literal has no quote inside without a backslash in front
and denotes its text, whatever the text; it stays within its line if and only if the text does.  The
name of a property stands in its line as an identifier or as such a literal of it if and only if it
has no line break, that of a method if and only if it is an identifier. -/
theorem member_tokens_iff (s : String) {p : Property} {m : Method} (hp : p.type.isVerbatim = false)
    (hm : m.result.isVerbatim = false) :
    (∃ body, (Text.literal s).toList = '"' :: body ++ ['"'] ∧ ∀ text, Text.Spells body text ↔
      text = s.toList) ∧
      (Text.IsLiteral (Text.literal s) s ↔ Text.Unbroken s.toList) ∧
      ((∃ token, p.line = p.lineAs token ∧ Text.NameToken token p.name) ↔
        Text.Unbroken p.name.toList) ∧
      ((∃ token, m.line = m.lineAs token ∧ Text.NameToken token m.name) ↔
        Text.IsIdentifier m.name.toList = true) :=
  ⟨⟨_, Text.toList_literal s, fun _ => Text.spells_escape_iff⟩, Text.isLiteral_literal_iff s,
    p.exists_token_iff hp, m.exists_token_iff hm⟩

/-- A property whose name ends like an escape sequence, and a static method. -/
theorem member_tokens_iff_backslash :
    let p : Property := { name := "a\\", type := .any }
    let m : Method := { name := "of", result := .any, arity := 0, isStatic := true }
    p.line = "\"a\\\\\": any;\n" ∧
      (∃ token, p.line = p.lineAs token ∧ Text.NameToken token p.name) ∧
      m.line = "static of(): any;\n" ∧ ∃ token, m.line = m.lineAs token ∧
      Text.NameToken token m.name := by
  intro p m
  obtain ⟨-, -, hproperty, hmethod⟩ := member_tokens_iff "" (p := p) (m := m) rfl rfl
  exact ⟨by decide, hproperty.2 (by decide), by decide, hmethod.2 (by decide)⟩

/-- Line breaks are not escaped, and the name of a method is not quoted. -/
theorem not_all_tokens_well_formed :
    (¬∀ s, Text.IsLiteral (Text.literal s) s) ∧
      (¬∀ p : Property, p.type.isVerbatim = false →
        ∃ token, p.line = p.lineAs token ∧ Text.NameToken token p.name) ∧
      ¬∀ m : Method, m.result.isVerbatim = false →
        ∃ token, m.line = m.lineAs token ∧ Text.NameToken token m.name := by
  refine ⟨fun hall => ?_, fun hall => ?_, fun hall => ?_⟩
  · have hunbroken := (Text.isLiteral_literal_iff _).1 (hall "line\nbreak")
    revert hunbroken
    decide
  · have hunbroken := (Property.exists_token_iff rfl).1
      (hall { name := "line\nbreak", type := .any } rfl)
    revert hunbroken
    decide
  · have hidentifier := (Method.exists_token_iff rfl).1
      (hall { name := "do-it", result := .any, arity := 0 } rfl)
    revert hidentifier
    decide

end TypeBridge
