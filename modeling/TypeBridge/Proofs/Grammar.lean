import TypeBridge.Host.Expression
import TypeBridge.Proofs.Outcomes

/-!
# The grammar of type expressions

The language of `Expression.read`, said without the reader.  A rule of the grammar relates a text to
what is left of it behind the part that it derives:

* `Blanks` is a run of blanks, `Name` a run of name characters that does not go on behind it;
* `Derives` is `type = blanks name [blanks '<' type (blanks ',' type)* blanks '>'] (blanks '[]')*`,
  with `Applied` for the name with or without its arguments, `MoreArgs` for the arguments behind the
  first and `Suffixed` for the arrays;
* `Expresses` is a type with nothing but blanks behind it.

The reader takes one character at a time and holds the open argument lists on a stack.
`State.Awaits` says in terms of the grammar what a state still waits for.  A step of the automaton
keeps it (`awaits_cons_iff`), so a run has a value exactly if its text is what its state awaits
(`run_eq_ok_iff`), and reading is the grammar (`read_eq_ok_iff`).
-/

namespace TypeBridge.Expression

open Text

/-! ## The grammar -/

def Blanks (s rest : List Char) : Prop :=
  ∃ blanks, AllBlank blanks = true ∧ s = blanks ++ rest

/-- Some characters, all of them those of a name. -/
def IsName (name : String) : Prop :=
  name ≠ "" ∧ ∀ c ∈ name.toList, isNameChar c = true

instance (name : String) : Decidable (IsName name) :=
  decidable_of_iff (name ≠ "" ∧ name.toList.all isNameChar = true)
    (and_congr_right' List.all_eq_true)

/-- No name goes on here. -/
def NameEnds (rest : List Char) : Prop :=
  ∀ c ∈ rest.head?, isNameChar c = false

structure Name (s : List Char) (name : String) (rest : List Char) : Prop where
  split : s = name.toList ++ rest
  isName : IsName name
  ends : NameEnds rest

/-- Array suffixes behind `t` make `u` of it. -/
inductive Suffixed : HostType → List Char → HostType → List Char → Prop
  | none {t : HostType} {s : List Char} : Suffixed t s t s
  | array {t u : HostType} {s s₁ rest : List Char} (hbrackets : Blanks s ('[' :: ']' :: s₁))
      (hmore : Suffixed (.array t) s₁ u rest) : Suffixed t s u rest

mutual

inductive Derives : List Char → HostType → List Char → Prop
  | type {s s₁ s₂ s₃ rest : List Char} {name : String} {t u : HostType} (hblanks : Blanks s s₁)
      (hname : Name s₁ name s₂) (happlied : Applied name s₂ t s₃)
      (hsuffixed : Suffixed t s₃ u rest) :
      Derives s u rest

/-- A name with an argument list is a generic class whatever it spells, without one a built-in type
if it spells one. -/
inductive Applied : String → List Char → HostType → List Char → Prop
  | generic {name : String} {s s₁ s₂ s₃ rest : List Char} {t : HostType} {ts : List HostType}
      (hopen : Blanks s ('<' :: s₁)) (hfirst : Derives s₁ t s₂) (hmore : MoreArgs s₂ ts s₃)
      (hclose : Blanks s₃ ('>' :: rest)) : Applied name s (.generic name (t :: ts)) rest
  | primitive {name : String} {s : List Char} {p : HostPrimitive}
      (hname : HostPrimitive.ofName? name = some p) :
      Applied name s (.primitive p) s
  | named {name : String} {s : List Char} (hname : HostPrimitive.ofName? name = none) :
      Applied name s (.named name) s

inductive MoreArgs : List Char → List HostType → List Char → Prop
  | none {s : List Char} : MoreArgs s [] s
  | comma {s s₁ s₂ rest : List Char} {t : HostType} {ts : List HostType}
      (hcomma : Blanks s (',' :: s₁))
      (hnext : Derives s₁ t s₂) (hmore : MoreArgs s₂ ts rest) : MoreArgs s (t :: ts) rest

end

/-- The text `s` is an expression of the type `t`. -/
def Expresses (s : String) (t : HostType) : Prop :=
  ∃ rest, Derives s.toList t rest ∧ AllBlank rest = true

/-! ## Tokens -/

section Tokens

variable {c token : Char} {s rest : List Char}

theorem blanks_self (s : List Char) : Blanks s s :=
  ⟨[], rfl, rfl⟩

theorem blanks_cons_iff : Blanks (c :: s) rest ↔
    rest = c :: s ∨ isBlank c = true ∧ Blanks s rest := by
  constructor
  · rintro ⟨blanks, hblank, hsplit⟩
    cases blanks with
    | nil => exact .inl hsplit.symm
    | cons b blanks =>
      obtain ⟨rfl, rfl⟩ := List.cons.inj hsplit
      obtain ⟨hc, hblanks⟩ := Bool.and_eq_true_iff.1 hblank
      exact .inr ⟨hc, blanks, hblanks, rfl⟩
  · rintro (rfl | ⟨hc, blanks, hblanks, rfl⟩)
    · exact blanks_self _
    · exact ⟨c :: blanks, Bool.and_eq_true_iff.2 ⟨hc, hblanks⟩, rfl⟩

theorem not_blanks_nil : ¬Blanks [] (token :: rest) := by
  rintro ⟨blanks, -, hsplit⟩
  simp at hsplit

theorem blanks_of_blank (hc : isBlank c = true) (htoken : isBlank token = false) :
    Blanks (c :: s) (token :: rest) ↔ Blanks s (token :: rest) := by
  rw [blanks_cons_iff]
  constructor
  · rintro (heq | ⟨-, h⟩)
    · obtain ⟨rfl, -⟩ := List.cons.inj heq
      rw [hc] at htoken
      cases htoken
    · exact h
  · exact fun h => .inr ⟨hc, h⟩

theorem blanks_of_not_blank (hc : isBlank c = false) :
    Blanks (c :: s) (token :: rest) ↔ c = token ∧ s = rest := by
  rw [blanks_cons_iff, hc]
  simp [eq_comm]

theorem blanks_iff_of_not_blank (hc : isBlank c = false) : Blanks (c :: s) rest ↔
    rest = c :: s := by
  rw [blanks_cons_iff, hc]
  simp

theorem name_cons_iff {name : String} : Name (c :: s) name rest ↔
    isNameChar c = true ∧ ∃ more, name = String.ofList (c :: more) ∧ s = more ++ rest ∧
      (∀ d ∈ more, isNameChar d = true) ∧ NameEnds rest := by
  constructor
  · rintro ⟨hsplit, ⟨hne, hchars⟩, hends⟩
    cases hlist : name.toList with
    | nil => exact absurd (String.toList_eq_nil_iff.1 hlist) hne
    | cons d more =>
      rw [hlist] at hsplit hchars
      obtain ⟨rfl, rfl⟩ := List.cons.inj hsplit
      obtain ⟨hc, hmore⟩ := List.forall_mem_cons.1 hchars
      exact ⟨hc, more, by rw [← hlist, String.ofList_toList], rfl, hmore, hends⟩
  · rintro ⟨hc, more, rfl, rfl, hmore, hends⟩
    refine ⟨by rw [String.toList_ofList, List.cons_append], ⟨fun h => ?_, ?_⟩, hends⟩
    · simpa using congrArg String.toList h
    · rw [String.toList_ofList]
      exact List.forall_mem_cons.2 ⟨hc, hmore⟩

theorem not_name_nil {name : String} : ¬Name [] name rest := by
  rintro ⟨hsplit, ⟨hne, -⟩, -⟩
  exact hne (String.toList_eq_nil_iff.1 (List.append_eq_nil_iff.1 hsplit.symm).1)

theorem Name.exists_cons {name : String} (h : Name s name rest) :
    ∃ d more, s = d :: more ∧ isNameChar d = true := by
  cases s with
  | nil => exact absurd h not_name_nil
  | cons d more => exact ⟨d, more, rfl, (name_cons_iff.1 h).1⟩

end Tokens

/-! ## What a state waits for -/

/-- The text `s` closes the open argument lists, behind `u` as the last argument so far, and makes
`t` of all. -/
def Closes : List Frame → HostType → List Char → HostType → Prop
  | [], u, s, t => t = u ∧ AllBlank s = true
  | frame :: outer, u, s, t => ∃ ts s₁ s₂ v rest, MoreArgs s ts s₁ ∧ Blanks s₁ ('>' :: s₂) ∧
      Suffixed (.generic frame.raw (frame.args ++ u :: ts)) s₂ v rest ∧ Closes outer v rest t

def BehindType (frames : List Frame) (u : HostType) (s : List Char) (t : HostType) : Prop :=
  ∃ v rest, Suffixed u s v rest ∧ Closes frames v rest t

def BehindName (frames : List Frame) (name : String) (s : List Char) (t : HostType) : Prop :=
  ∃ u rest, Applied name s u rest ∧ BehindType frames u rest t

def BeforeType (frames : List Frame) (s : List Char) (t : HostType) : Prop :=
  ∃ u rest, Derives s u rest ∧ Closes frames u rest t

/-- The texts with which a state comes to the type `t`. -/
def State.Awaits : State → List Char → HostType → Prop
  | .start frames, s, t => BeforeType frames s t
  | .inName chars frames, s, t =>
      ∃ more rest, s = more ++ rest ∧ (∀ c ∈ more, isNameChar c = true) ∧ NameEnds rest ∧
      BehindName frames (String.ofList (chars ++ more)) rest t
  | .afterName name frames, s, t => BehindName frames name s t
  | .afterType u frames, s, t => BehindType frames u s t
  | .bracket u frames, s, t => ∃ rest, s = ']' :: rest ∧ BehindType frames (.array u) rest t

section Unfolding

variable {frames outer : List Frame} {frame : Frame} {name : String}
  {u t : HostType} {s : List Char}

theorem beforeType_iff : BeforeType frames s t ↔
    ∃ s₁ name rest, Blanks s s₁ ∧ Name s₁ name rest ∧ BehindName frames name rest t := by
  constructor
  · rintro ⟨u, rest, ⟨hblanks, hname, happlied, hsuffixed⟩, hcloses⟩
    exact ⟨_, _, _, hblanks, hname, _, _, happlied, u, rest, hsuffixed, hcloses⟩
  · rintro ⟨s₁, name, s₂, hblanks, hname, v, s₃, happlied, u, rest, hsuffixed, hcloses⟩
    exact ⟨u, rest, ⟨hblanks, hname, happlied, hsuffixed⟩, hcloses⟩

theorem behindName_iff : BehindName frames name s t ↔
    (∃ rest, Blanks s ('<' :: rest) ∧ BeforeType (⟨name, []⟩ :: frames) rest t) ∨
      BehindType frames (typeOfName name) s t := by
  constructor
  · rintro ⟨u, rest, happlied, v, rest', hsuffixed, hcloses⟩
    cases happlied with
    | generic hopen hfirst hmore hclose =>
      exact .inl ⟨_, hopen, _, _, hfirst, _, _, _, _, _, hmore, hclose, hsuffixed, hcloses⟩
    | primitive hname =>
      refine .inr ⟨v, rest', ?_, hcloses⟩
      simpa only [typeOfName, hname] using hsuffixed
    | named hname =>
      refine .inr ⟨v, rest', ?_, hcloses⟩
      simpa only [typeOfName, hname] using hsuffixed
  · rintro (⟨s₁, hopen, v, s₂, hfirst, ts, s₃, s₄, w, rest, hmore, hclose, hsuffixed, hcloses⟩
      | hbehind)
    · exact ⟨_, _, .generic hopen hfirst hmore hclose, w, rest, hsuffixed, hcloses⟩
    · cases hname : HostPrimitive.ofName? name with
      | some p =>
        simp only [typeOfName, hname] at hbehind
        exact ⟨_, s, .primitive hname, hbehind⟩
      | none =>
        simp only [typeOfName, hname] at hbehind
        exact ⟨_, s, .named hname, hbehind⟩

theorem behindType_iff : BehindType frames u s t ↔
    (∃ rest, Blanks s ('[' :: ']' :: rest) ∧ BehindType frames (.array u) rest t) ∨
      Closes frames u s t := by
  constructor
  · rintro ⟨v, rest, hsuffixed, hcloses⟩
    cases hsuffixed with
    | none => exact .inr hcloses
    | array hbrackets hmore => exact .inl ⟨_, hbrackets, v, rest, hmore, hcloses⟩
  · rintro (⟨s₁, hbrackets, v, rest, hmore, hcloses⟩ | hcloses)
    · exact ⟨v, rest, .array hbrackets hmore, hcloses⟩
    · exact ⟨u, s, .none, hcloses⟩

theorem closes_cons_iff : Closes (frame :: outer) u s t ↔
    (∃ rest, Blanks s (',' :: rest) ∧ BeforeType (frame.push u :: outer) rest t) ∨
      ∃ rest, Blanks s ('>' :: rest) ∧ BehindType outer (frame.close u) rest t := by
  have hargs (v : HostType) (ts : List HostType) :
      (frame.push u).args ++ v :: ts = frame.args ++ u :: v :: ts :=
    List.append_assoc ..
  constructor
  · rintro ⟨ts, s₁, s₂, v, rest, hmore, hclose, hsuffixed, hcloses⟩
    cases hmore with
    | none => exact .inr ⟨s₂, hclose, v, rest, hsuffixed, hcloses⟩
    | comma hcomma hnext hmore =>
      rw [← hargs] at hsuffixed
      exact .inl ⟨_, hcomma, _, _, hnext, _, s₁, s₂, v, rest, hmore, hclose, hsuffixed, hcloses⟩
  · rintro (⟨s₁, hcomma, w, s₂, hnext, ts, s₃, s₄, v, rest, hmore, hclose, hsuffixed, hcloses⟩ |
      ⟨s₁, hclose, v, rest, hsuffixed, hcloses⟩)
    · rw [hargs] at hsuffixed
      exact ⟨w :: ts, s₃, s₄, v, rest, .comma hcomma hnext hmore, hclose, hsuffixed, hcloses⟩
    · exact ⟨[], s, s₁, v, rest, .none, hclose, hsuffixed, hcloses⟩

end Unfolding

/-! ## At the end of a text -/

section Finish

variable {frames : List Frame} {name : String} {u t : HostType}

theorem behindType_nil_iff : BehindType frames u [] t ↔ finishType u frames = .ok t := by
  rw [behindType_iff]
  cases frames with
  | nil => simp [not_blanks_nil, Closes, finishType, AllBlank, eq_comm]
  | cons frame outer => simp [closes_cons_iff, not_blanks_nil, finishType]

theorem behindName_nil_iff : BehindName frames name [] t ↔
    finishType (typeOfName name) frames = .ok t := by
  rw [behindName_iff, behindType_nil_iff]
  simp [not_blanks_nil]

theorem not_beforeType_nil : ¬BeforeType frames [] t := by
  rw [beforeType_iff]
  rintro ⟨s₁, name, rest, hblanks, hname, -⟩
  obtain ⟨d, more, rfl, -⟩ := hname.exists_cons
  exact not_blanks_nil hblanks

theorem awaits_nil_iff (state : State) : state.Awaits [] t ↔ state.finish = .ok t := by
  cases state with
  | start frames => exact iff_of_false not_beforeType_nil nofun
  | inName chars frames =>
    simp only [State.Awaits, State.finish, ← behindName_nil_iff]
    constructor
    · rintro ⟨more, rest, hsplit, -, -, hbehind⟩
      obtain ⟨rfl, rfl⟩ := List.append_eq_nil_iff.1 hsplit.symm
      rwa [List.append_nil] at hbehind
    · exact fun hbehind => ⟨[], [], rfl, nofun, nofun, by rwa [List.append_nil]⟩
  | afterName name frames => exact behindName_nil_iff
  | afterType u frames => exact behindType_nil_iff
  | bracket u frames => exact iff_of_false (fun ⟨_, hrest, _⟩ => nomatch hrest) nofun

end Finish

/-! ## One character -/

section Step

variable {frames : List Frame} {name : String} {u t : HostType} {c : Char} {s : List Char}

theorem closes_of_blank (hc : isBlank c = true) : Closes frames u (c :: s) t ↔
    Closes frames u s t := by
  cases frames with
  | nil => simp [Closes, AllBlank, hc]
  | cons frame outer =>
    have hcomma : isBlank ',' = false := by decide
    have hclose : isBlank '>' = false := by decide
    simp only [closes_cons_iff, blanks_of_blank hc hcomma, blanks_of_blank hc hclose]

theorem behindType_of_blank (hc : isBlank c = true) : BehindType frames u (c :: s) t ↔
    BehindType frames u s t := by
  have hbracket : isBlank '[' = false := by decide
  rw [behindType_iff, behindType_iff (s := s), closes_of_blank hc]
  simp only [blanks_of_blank hc hbracket]

theorem behindName_of_blank (hc : isBlank c = true) :
    BehindName frames name (c :: s) t ↔ BehindName frames name s t := by
  have hopen : isBlank '<' = false := by decide
  rw [behindName_iff, behindName_iff (s := s), behindType_of_blank hc]
  simp only [blanks_of_blank hc hopen]

theorem closes_cons_of_not_blank {frame : Frame} (hc : isBlank c = false) :
    Closes (frame :: frames) u (c :: s) t ↔
    (c = ',' ∧ BeforeType (frame.push u :: frames) s t) ∨
    (c = '>' ∧ BehindType frames (frame.close u) s t) := by
  simp [closes_cons_iff, blanks_of_not_blank hc, and_assoc]

/-- A list of arguments goes on with a comma or ends with a bracket. -/
theorem not_closes (hc : isBlank c = false) (hcomma : c ≠ ',') (hclose : c ≠ '>') :
    ¬Closes frames u (c :: s) t := by
  cases frames with
  | nil => simp [Closes, AllBlank, hc]
  | cons frame outer => simp [closes_cons_of_not_blank hc, hcomma, hclose]

theorem behindType_of_not_blank (hc : isBlank c = false) : BehindType frames u (c :: s) t ↔
    (c = '[' ∧ ∃ rest, s = ']' :: rest ∧ BehindType frames (.array u) rest t) ∨
    Closes frames u (c :: s) t := by
  rw [behindType_iff]
  simp [blanks_of_not_blank hc, and_assoc]

theorem behindType_cons_iff :
    BehindType frames u (c :: s) t ↔
      ∃ next, stepAfterType u frames c = .ok next ∧ next.Awaits s t := by
  unfold stepAfterType
  split
  · next hc =>
    rw [behindType_of_blank hc]
    simp [State.Awaits]
  · next hc =>
    have hc : isBlank c = false := by simpa using hc
    rw [behindType_of_not_blank hc]
    split
    · next hbracket =>
      subst hbracket
      simp [not_closes hc, State.Awaits]
    · next hbracket =>
      cases frames with
      | nil => simp [hbracket, Closes, AllBlank, hc]
      | cons frame outer =>
        simp only [hbracket, false_and, false_or, closes_cons_of_not_blank hc]
        by_cases hcomma : c = ','
        · subst hcomma
          simp [State.Awaits]
        · by_cases hclose : c = '>'
          · subst hclose
            simp [State.Awaits]
          · simp [hcomma, hclose]

/-- Behind a name no other thing than an argument list starts with its bracket. -/
theorem not_behindType_open : ¬BehindType frames u ('<' :: s) t := by
  have hblank : isBlank '<' = false := by decide
  simp [behindType_of_not_blank hblank, not_closes hblank]

theorem behindName_of_not_blank (hc : isBlank c = false) :
    BehindName frames name (c :: s) t ↔
      (c = '<' ∧ BeforeType (⟨name, []⟩ :: frames) s t) ∨
        BehindType frames (typeOfName name) (c :: s) t := by
  rw [behindName_iff]
  simp [blanks_of_not_blank hc, and_assoc]

theorem behindName_cons_iff :
    BehindName frames name (c :: s) t ↔
      ∃ next, stepAfterName name frames c = .ok next ∧ next.Awaits s t := by
  unfold stepAfterName
  split
  · next hc =>
    rw [behindName_of_blank hc]
    simp [State.Awaits]
  · next hc =>
    rw [behindName_of_not_blank (by simpa using hc)]
    split
    · next hopen =>
      subst hopen
      simp [not_behindType_open, State.Awaits]
    · next hopen => simp [hopen, behindType_cons_iff]

/-! ### Names -/

theorem beforeType_of_blank (hc : isBlank c = true) : BeforeType frames (c :: s) t ↔
    BeforeType frames s t := by
  rw [beforeType_iff, beforeType_iff]
  refine exists_congr fun s₁ => exists_congr fun name => exists_congr fun rest =>
    and_congr_left fun ⟨hname, _⟩ => ?_
  obtain ⟨d, more, rfl, hd⟩ := hname.exists_cons
  exact blanks_of_blank hc (not_isBlank_of_isNameChar hd)

/-- Before the first character of a name, and behind it. -/
theorem beforeType_of_nameChar (hc : isNameChar c = true) :
    BeforeType frames (c :: s) t ↔ (State.inName [c] frames).Awaits s t := by
  rw [beforeType_iff]
  constructor
  · rintro ⟨s₁, name, rest, hblanks, hname, hbehind⟩
    obtain rfl := (blanks_iff_of_not_blank (not_isBlank_of_isNameChar hc)).1 hblanks
    obtain ⟨-, more, rfl, rfl, hmore, hends⟩ := name_cons_iff.1 hname
    exact ⟨more, rest, rfl, hmore, hends, hbehind⟩
  · rintro ⟨more, rest, rfl, hmore, hends, hbehind⟩
    exact ⟨_, _, rest, blanks_self _, name_cons_iff.2 ⟨hc, more, rfl, rfl, hmore, hends⟩, hbehind⟩

theorem not_beforeType (hblank : isBlank c = false) (hc : isNameChar c = false) :
    ¬BeforeType frames (c :: s) t := by
  rw [beforeType_iff]
  simp [blanks_iff_of_not_blank hblank, name_cons_iff, hc]

theorem inName_of_nameChar {chars : List Char} (hc : isNameChar c = true) :
    (State.inName chars frames).Awaits (c :: s) t ↔
      (State.inName (chars ++ [c]) frames).Awaits s t := by
  constructor
  · rintro ⟨more, rest, hsplit, hmore, hends, hbehind⟩
    cases more with
    | nil =>
      obtain rfl : c :: s = rest := hsplit
      rw [hends c rfl] at hc
      cases hc
    | cons d more =>
      obtain ⟨rfl, rfl⟩ := List.cons.inj hsplit
      refine ⟨more, rest, rfl, fun d hd => hmore d (List.mem_cons_of_mem c hd), hends, ?_⟩
      rwa [List.append_assoc]
  · rintro ⟨more, rest, rfl, hmore, hends, hbehind⟩
    refine ⟨c :: more, rest, rfl, List.forall_mem_cons.2 ⟨hc, hmore⟩, hends, ?_⟩
    rwa [List.append_assoc] at hbehind

theorem inName_of_not_nameChar {chars : List Char} (hc : isNameChar c = false) :
    (State.inName chars frames).Awaits (c :: s) t ↔
      BehindName frames (String.ofList chars) (c :: s) t := by
  constructor
  · rintro ⟨more, rest, hsplit, hmore, hends, hbehind⟩
    cases more with
    | nil =>
      obtain rfl : c :: s = rest := hsplit
      rwa [List.append_nil] at hbehind
    | cons d more =>
      obtain ⟨rfl, -⟩ := List.cons.inj hsplit
      rw [hmore c List.mem_cons_self] at hc
      cases hc
  · intro hbehind
    refine ⟨[], c :: s, rfl, nofun, by simpa [NameEnds] using hc, ?_⟩
    rwa [List.append_nil]

/-- A character taken is a character of what was awaited. -/
theorem awaits_cons_iff (state : State) :
    state.Awaits (c :: s) t ↔ ∃ next, state.step c = .ok next ∧ next.Awaits s t := by
  cases state with
  | start frames =>
    change BeforeType frames (c :: s) t ↔ _
    simp only [State.step]
    split
    · next hc =>
      rw [beforeType_of_blank hc]
      simp [State.Awaits]
    · next hblank =>
      split
      · next hc =>
        rw [beforeType_of_nameChar hc]
        simp
      · next hc => simp [not_beforeType (by simpa using hblank) (by simpa using hc)]
  | inName chars frames =>
    simp only [State.step]
    split
    · next hc =>
      rw [inName_of_nameChar hc]
      simp
    · next hc => rw [inName_of_not_nameChar (by simpa using hc), behindName_cons_iff]
  | afterName name frames => exact behindName_cons_iff
  | afterType u frames => exact behindType_cons_iff
  | bracket u frames =>
    simp only [State.Awaits, State.step]
    split
    · next hc =>
      subst hc
      simp
    · next hc => simp [hc]

end Step

/-! ## Reading -/

theorem run_eq_ok_iff (state : State) (taken : Nat) (s : List Char) (t : HostType) :
    run state taken s = .ok t ↔ state.Awaits s t := by
  induction s generalizing state taken with
  | nil =>
    unfold run
    rw [awaits_nil_iff, except_mapError_eq_ok]
  | cons c s ih =>
    unfold run
    rw [awaits_cons_iff]
    cases hstep : state.step c with
    | error fault => simp
    | ok next => simp [ih]

theorem awaits_start_iff (s : String) (t : HostType) :
    (State.start []).Awaits s.toList t ↔ Expresses s t := by
  constructor
  · rintro ⟨u, rest, hderives, rfl, hblank⟩
    exact ⟨rest, hderives, hblank⟩
  · rintro ⟨rest, hderives, hblank⟩
    exact ⟨t, rest, hderives, rfl, hblank⟩

theorem expresses_of_read {s : String} {t : HostType} (h : read s = .ok t) : Expresses s t := by
  have hrun : run (.start []) 0 s.toList = .ok t := except_mapError_eq_ok.1 h
  exact (awaits_start_iff s t).1 ((run_eq_ok_iff _ _ _ _).1 hrun)

theorem read_of_expresses {s : String} {t : HostType} (h : Expresses s t) : read s = .ok t := by
  have hrun : run (.start []) 0 s.toList = .ok t :=
    (run_eq_ok_iff _ _ _ _).2 ((awaits_start_iff s t).2 h)
  exact except_mapError_eq_ok.2 hrun

/-- **Reading is the grammar.**  A text reads as a type exactly if the grammar derives it with that
type. -/
theorem read_eq_ok_iff (s : String) (t : HostType) : read s = .ok t ↔ Expresses s t :=
  ⟨expresses_of_read, read_of_expresses⟩

example : (read " int <java.lang.Integer ,A[ ]").toOption = none := by decide +kernel

example : (read " int <java.lang.Integer ,A[] >[]").toOption =
    some (.array (.generic "int" [.primitive .int, .array (.named "A")])) := by decide +kernel

end TypeBridge.Expression
