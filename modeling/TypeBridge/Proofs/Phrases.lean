import TypeBridge.Text.Alphanumeric
import TypeBridge.Text.Identifier

/-!
# Phrases

A `Phrase` is the type of a declaration as it is read from left to right.  Array suffixes stand
behind what they apply to, so a phrase counts them, and a function type goes on as far as it can, so
one with array suffixes is a phrase of its own kind, the group.

The first two characters of a phrase tell its kind, a name ends at a mark, and behind a phrase
stands a comma or a closing bracket.  This is enough to read a phrase off any text that it begins
(`Phrase.Legible.cancel`).
-/

namespace TypeBridge

namespace Text

/-! ## Separated texts -/

section

variable {α : Type} {F : List Char → Prop} {f : α → List Char} {x y : α}
  {xs ys : List α} {c close : Char} {g s t : List Char}

/-- The text of `x` is told from the texts of `ys`, with rests of a kind behind them. -/
def Cancels (F : List Char → Prop) (f : α → List Char) (x : α) (ys : List α) : Prop :=
  ∀ y ∈ ys, ∀ s t, F s → F t → f x ++ s = f y ++ t → x = y ∧ s = t

theorem followed_flatMap (hclose : ∀ s, F (close :: s)) (hnext : ∀ s, F (c :: s))
    (xs : List α) (s : List Char) : F ((xs.flatMap fun x => c :: (g ++ f x)) ++ close :: s) := by
  cases xs with
  | nil => exact hclose s
  | cons x rest => exact hnext _

/-- Texts with a separator in front of each are read one by one up to the closing character. -/
theorem flatMap_cancel (hne : close ≠ c) (hclose : ∀ s, F (close :: s)) (hnext : ∀ s, F (c :: s))
    (hf : ∀ x ∈ xs, Cancels F f x ys)
    (h : (xs.flatMap fun x => c :: (g ++ f x)) ++ close :: s =
      (ys.flatMap fun y => c :: (g ++ f y)) ++ close :: t) : xs = ys ∧ s = t := by
  induction xs generalizing ys with
  | nil =>
    cases ys with
    | nil => exact ⟨rfl, (List.cons.inj h).2⟩
    | cons y ys => exact absurd (List.cons.inj h).1 hne
  | cons x xs ih =>
    cases ys with
    | nil => exact absurd (List.cons.inj h).1.symm hne
    | cons y ys =>
      simp only [List.flatMap_cons, List.cons_append, List.cons.injEq, true_and,
        List.append_assoc] at h
      obtain ⟨rfl, hrest⟩ := hf x List.mem_cons_self y List.mem_cons_self
        _ _ (followed_flatMap hclose hnext xs s) (followed_flatMap hclose hnext ys t)
          (List.append_cancel_left h)
      obtain ⟨rfl, hst⟩ :=
        ih (fun z hz w hw => hf z (List.mem_cons_of_mem x hz) w (List.mem_cons_of_mem x hw)) hrest
      exact ⟨rfl, hst⟩

/-- Texts with separators between them are read one by one. -/
theorem separated_cancel (hne : close ≠ c) (hclose : ∀ s, F (close :: s)) (hnext : ∀ s, F (c :: s))
    (hf : ∀ z ∈ x :: xs, Cancels F f z (y :: ys))
    (h : f x ++ ((xs.flatMap fun x => c :: (g ++ f x)) ++ close :: s) =
      f y ++ ((ys.flatMap fun y => c :: (g ++ f y)) ++ close :: t)) :
    x :: xs = y :: ys ∧ s = t := by
  obtain ⟨rfl, hrest⟩ := hf x List.mem_cons_self y List.mem_cons_self
    _ _ (followed_flatMap hclose hnext xs s) (followed_flatMap hclose hnext ys t) h
  obtain ⟨rfl, hst⟩ := flatMap_cancel hne hclose hnext
    (fun z hz w hw => hf z (List.mem_cons_of_mem x hz) w (List.mem_cons_of_mem x hw)) hrest
  exact ⟨rfl, hst⟩

end

/-! ## Marks and names -/

/-- The signs that stand around the names in the text of a type. -/
def signs : List Char :=
  ['<', '>', '(', ')', '[', ']', ',', ':', '=']

def isMark (c : Char) : Bool :=
  isBlank c || signs.contains c

/-- A name that is not empty and has no marks. -/
def Plain (name : String) : Prop :=
  name ≠ "" ∧ ∀ c ∈ name.toList, isMark c = false

instance (name : String) : Decidable (Plain name) :=
  decidable_of_iff (name ≠ "" ∧ name.toList.all (!isMark ·) = true) (by simp [Plain])

/-- A text in front of which a name ends. -/
def AtMark (s : List Char) : Prop :=
  ∀ c ∈ s.head?, isMark c = true

variable {m n : String} {c : Char} {s t : List Char}

theorem atMark_cons (hc : isMark c = true) (s : List Char) : AtMark (c :: s) := by
  simpa [AtMark] using hc

theorem AtMark.takeWhile (hs : AtMark s) : s.takeWhile (fun c => !isMark c) = [] := by
  cases s with
  | nil => rfl
  | cons c rest =>
    have hc : isMark c = true := hs c rfl
    simp [hc]

theorem Plain.takeWhile (hn : Plain n) (hs : AtMark s) :
    (n.toList ++ s).takeWhile (fun c => !isMark c) = n.toList := by
  rw [List.takeWhile_append_of_pos fun c hc => by simp [hn.2 c hc], hs.takeWhile, List.append_nil]

theorem Plain.cancel (hm : Plain m) (hn : Plain n) (hs : AtMark s) (ht : AtMark t)
    (h : m.toList ++ s = n.toList ++ t) : m = n ∧ s = t := by
  have hchars : m.toList = n.toList := by rw [← hm.takeWhile hs, h, hn.takeWhile ht]
  rw [hchars] at h
  exact ⟨String.toList_inj.1 hchars, List.append_cancel_left h⟩

theorem Plain.append_ne (hn : Plain n) (hc : isMark c = true) (s t : List Char) :
    n.toList ++ s ≠ c :: t := by
  obtain ⟨d, rest, heq⟩ :=
    List.exists_cons_of_ne_nil fun hnil => hn.1 (String.toList_eq_nil_iff.1 hnil)
  have hd : isMark d = false := hn.2 d (by simp [heq])
  intro h
  rw [heq, List.cons_append] at h
  rw [(List.cons.inj h).1, hc] at hd
  cases hd

theorem not_isIdentifierChar_of_isMark (hc : isMark c = true) : isIdentifierChar c = false := by
  rcases Bool.or_eq_true_iff.1 hc with hblank | hsign
  · have hall : ∀ n ∈ codePoints blankRanges,
        isIdentifierChar (Char.ofNat n) = false := by decide +kernel
    rw [← Char.ofNat_toNat c]
    exact hall c.toNat (mem_codePoints hblank)
  · have hall : signs.all (!isIdentifierChar ·) = true := by decide
    simpa using List.all_eq_true.1 hall c (List.contains_iff_mem.1 hsign)

theorem plain_parameterName (name : String) : Plain (parameterName name) := by
  have hname := isIdentifier_parameterName name
  refine ⟨fun hempty => ?_, fun c hc => ?_⟩
  · rw [hempty] at hname
    cases hname
  · have hchar := IsIdentifier.forall_isIdentifierChar hname c hc
    cases hmark : isMark c with
    | false => rfl
    | true => rw [not_isIdentifierChar_of_isMark hmark] at hchar; cases hchar

end Text

/-! ## Phrases -/

/-- A type as it is read from left to right. -/
inductive Phrase where
  /-- A name, its arguments, and a number of array suffixes. -/
  | named (name : String) (args : List Phrase) (suffixes : Nat)
  | function (params : List (String × Phrase)) (result : Phrase)
  /-- A function type in parentheses, with one array suffix more than the number. -/
  | group (params : List (String × Phrase)) (result : Phrase) (suffixes : Nat)

namespace Phrase

def suffixText : Nat → List Char
  | 0 => []
  | k + 1 => '[' :: ']' :: suffixText k

/-- Texts behind an opening bracket, apart from each other and closed. -/
def enclosed (close : Char) : List (List Char) → List Char
  | [] => [close]
  | x :: rest => x ++ (rest.flatMap fun y => ',' :: ' ' :: y) ++ [close]

def argumentText : List (List Char) → List Char
  | [] => []
  | x :: rest => '<' :: enclosed '>' (x :: rest)

def functionText (params : List (List Char)) (result : List Char) : List Char :=
  '(' :: (enclosed ')' params ++ [' ', '=', '>', ' '] ++ result)

mutual

def text : Phrase → List Char
  | named n args k => n.toList ++ argumentText (textList args) ++ suffixText k
  | function params result => functionText (textParams params) (text result)
  | group params result k =>
    '(' :: (functionText (textParams params) (text result) ++ [')'] ++ suffixText (k + 1))

def textList : List Phrase → List (List Char)
  | [] => []
  | p :: rest => text p :: textList rest

def textParams : List (String × Phrase) → List (List Char)
  | [] => []
  | (n, p) :: rest => (n.toList ++ ':' :: ' ' :: text p) :: textParams rest

end

def paramText (p : String × Phrase) : List Char :=
  p.1.toList ++ ':' :: ' ' :: p.2.text

theorem textList_eq_map (ps : List Phrase) : textList ps = ps.map text := by
  induction ps with
  | nil => rfl
  | cons p rest ih => rw [textList, ih, List.map_cons]

theorem textParams_eq_map (ps : List (String × Phrase)) : textParams ps = ps.map paramText := by
  induction ps with
  | nil => rfl
  | cons p rest ih => rw [textParams, ih, List.map_cons, paramText]

/-- All names of a phrase are plain. -/
inductive Legible : Phrase → Prop
  | named {n : String} {args : List Phrase} {k : Nat} (hname : Text.Plain n)
      (hargs : ∀ a ∈ args, Legible a) :
      Legible (.named n args k)
  | function {params : List (String × Phrase)} {result : Phrase}
      (hnames : ∀ p ∈ params, Text.Plain p.1)
      (hparams : ∀ p ∈ params, Legible p.2) (hresult : Legible result) :
      Legible (.function params result)
  | group {params : List (String × Phrase)} {result : Phrase} {k : Nat}
      (hnames : ∀ p ∈ params, Text.Plain p.1)
      (hparams : ∀ p ∈ params, Legible p.2) (hresult : Legible result) :
      Legible (.group params result k)

/-- What may stand behind a phrase. -/
def Ends (s : List Char) : Prop :=
  ∀ c ∈ s.head?, c = ',' ∨ c = '>' ∨ c = ')'

section

variable {s t : List Char} {p q : Phrase} {close : Char}

theorem ends_cons {c : Char} (hc : c = ',' ∨ c = '>' ∨ c = ')') (s : List Char) :
    Ends (c :: s) := by
  simpa [Ends] using hc

theorem ends_nil : Ends [] := by
  simp [Ends]

theorem Ends.atMark (hs : Ends s) : Text.AtMark s := by
  intro c hc
  rcases hs c hc with rfl | rfl | rfl <;> rfl

theorem atMark_suffixText (hs : Ends s) (k : Nat) : Text.AtMark (suffixText k ++ s) := by
  cases k with
  | zero => exact hs.atMark
  | succ k => exact Text.atMark_cons rfl _

theorem suffixText_cancel (hs : Ends s) (ht : Ends t) {j k : Nat}
    (h : suffixText j ++ s = suffixText k ++ t) : j = k ∧ s = t := by
  induction j generalizing k with
  | zero =>
    cases k with
    | zero => exact ⟨rfl, h⟩
    | succ k =>
      have hopen : s.head? = some '[' := congrArg List.head? h
      simpa using hs _ hopen
  | succ j ih =>
    cases k with
    | zero =>
      have hopen : t.head? = some '[' := congrArg List.head? h.symm
      simpa using ht _ hopen
    | succ k =>
      obtain ⟨hjk, hst⟩ := ih (List.cons.inj (List.cons.inj h).2).2
      exact ⟨congrArg Nat.succ hjk, hst⟩

/-! ## Lists of phrases -/

section

variable {α : Type} {f : α → List Char} {xs ys : List α}

/-- Items that do not begin with the closing bracket. -/
theorem enclosed_cancel (hclose : close = '>' ∨ close = ')')
    (hf : ∀ x ∈ xs, Text.Cancels Ends f x ys) (hxs : ∀ x ∈ xs, ∀ s t, f x ++ s ≠ close :: t)
    (hys : ∀ y ∈ ys, ∀ s t, f y ++ s ≠ close :: t)
    (h : enclosed close (xs.map f) ++ s = enclosed close (ys.map f) ++ t) : xs = ys ∧ s = t := by
  cases xs with
  | nil =>
    cases ys with
    | nil => exact ⟨rfl, (List.cons.inj h).2⟩
    | cons y ys =>
      simp only [List.map_nil, List.map_cons, enclosed, List.append_assoc,
        List.singleton_append] at h
      exact absurd h.symm (hys y List.mem_cons_self _ s)
  | cons x xs =>
    cases ys with
    | nil =>
      simp only [List.map_nil, List.map_cons, enclosed, List.append_assoc,
        List.singleton_append] at h
      exact absurd h (hxs x List.mem_cons_self _ t)
    | cons y ys =>
      simp only [List.map_cons, enclosed, List.flatMap_map, List.append_assoc,
        List.singleton_append] at h
      have hcomma : close ≠ ',' := by rcases hclose with rfl | rfl <;> decide
      exact Text.separated_cancel (g := [' ']) hcomma (ends_cons (.inr hclose))
        (ends_cons (.inl rfl)) hf h

end

/-! ## Cancelling a phrase -/

theorem named_ne {n : String} {args : List Phrase} {k : Nat} (hn : Text.Plain n) {c : Char}
    (hc : Text.isMark c = true) (s t : List Char) : (named n args k).text ++ s ≠ c :: t := by
  rw [text, List.append_assoc, List.append_assoc]
  exact hn.append_ne hc _ t

theorem Legible.text_ne (hp : p.Legible) (s t : List Char) : p.text ++ s ≠ '>' :: t := by
  cases hp with
  | named hname => exact named_ne hname rfl s t
  | function => exact fun h => nomatch (List.cons.inj h).1
  | group => exact fun h => nomatch (List.cons.inj h).1

theorem paramText_ne {p : String × Phrase} (hname : Text.Plain p.1) {c : Char}
    (hc : Text.isMark c = true) (s t : List Char) : paramText p ++ s ≠ c :: t := by
  rw [paramText, List.append_assoc]
  exact hname.append_ne hc _ t

/-- A parameter list opens no further parenthesis: this tells a function type from a group. -/
theorem enclosed_params_ne {params : List (String × Phrase)} (hnames : ∀ p ∈ params, Text.Plain p.1)
    (s t : List Char) : enclosed ')' (params.map paramText) ++ s ≠ '(' :: t := by
  cases params with
  | nil => exact fun h => nomatch (List.cons.inj h).1
  | cons p rest =>
    rw [List.map_cons, enclosed, List.append_assoc, List.append_assoc]
    exact paramText_ne (hnames p List.mem_cons_self) rfl _ t

theorem atMark_argumentText {texts : List (List Char)} (hs : Text.AtMark s) :
    Text.AtMark (argumentText texts ++ s) := by
  cases texts with
  | nil => exact hs
  | cons x rest => exact Text.atMark_cons rfl _

theorem argumentText_cancel {args args' : List Phrase} (hargs : ∀ a ∈ args, Legible a)
    (hargs' : ∀ a ∈ args', Legible a) (hcancel : ∀ a ∈ args, Text.Cancels Ends text a args')
    (hs : Ends s) (ht : Ends t) {j k : Nat}
    (h : argumentText (args.map text) ++ (suffixText j ++ s) = argumentText (args'.map text) ++
      (suffixText k ++ t)) :
    args = args' ∧ j = k ∧ s = t := by
  have hnone {s t : List Char} (hs : Ends s) (k : Nat) : suffixText k ++ s ≠ '<' :: t := by
    intro h
    cases k with
    | zero =>
      have hopen : s.head? = some '<' := congrArg List.head? h
      simpa using hs _ hopen
    | succ k => exact absurd (List.cons.inj h).1 (by decide)
  cases args with
  | nil =>
    cases args' with
    | nil => exact ⟨rfl, suffixText_cancel hs ht h⟩
    | cons b args' => exact absurd h (hnone hs j)
  | cons a args =>
    cases args' with
    | nil => exact absurd h.symm (hnone ht k)
    | cons b args' =>
      obtain ⟨heq, hrest⟩ := enclosed_cancel (.inl rfl) hcancel (fun a ha => (hargs a ha).text_ne)
        (fun a ha => (hargs' a ha).text_ne) (List.cons.inj h).2
      exact ⟨heq, suffixText_cancel hs ht hrest⟩

theorem functionText_cancel {params params' : List (String × Phrase)} {r r' : Phrase}
    (hnames : ∀ p ∈ params, Text.Plain p.1) (hnames' : ∀ p ∈ params', Text.Plain p.1)
    (hparams : ∀ p ∈ params, ∀ q ∈ params', ∀ s t, Ends s → Ends t → p.2.text ++ s = q.2.text ++ t →
      p.2 = q.2 ∧ s = t)
    (hresult : r.text ++ s = r'.text ++ t → r = r' ∧ s = t)
    (h : functionText (params.map paramText) r.text ++ s =
      functionText (params'.map paramText) r'.text ++ t) :
    params = params' ∧ r = r' ∧ s = t := by
  have hcancel : ∀ p ∈ params, Text.Cancels Ends paramText p params' := by
    intro p hp q hq s t hs ht heq
    simp only [paramText, List.append_assoc, List.cons_append] at heq
    obtain ⟨hname, hrest⟩ :=
      (hnames p hp).cancel (hnames' q hq) (Text.atMark_cons rfl _) (Text.atMark_cons rfl _) heq
    obtain ⟨htype, hst⟩ := hparams p hp q hq s t hs ht (List.cons.inj (List.cons.inj hrest).2).2
    exact ⟨Prod.ext hname htype, hst⟩
  simp only [functionText, List.cons_append, List.append_assoc, List.cons.injEq, true_and] at h
  obtain ⟨rfl, harrow⟩ := enclosed_cancel (.inr rfl) hcancel
    (fun p hp => paramText_ne (hnames p hp) rfl) (fun p hp => paramText_ne (hnames' p hp) rfl) h
  have hrest : r.text ++ s = r'.text ++ t := by simpa using harrow
  exact ⟨rfl, hresult hrest⟩

/-- **A phrase is read off the text that it begins.** -/
theorem Legible.cancel (hp : p.Legible) (hq : q.Legible) (hs : Ends s) (ht : Ends t)
    (h : p.text ++ s = q.text ++ t) : p = q ∧ s = t := by
  induction hp generalizing q s t with
  | @named n args k hname hargs ih =>
    cases hq with
    | @named m args' j hname' hargs' =>
      simp only [text, textList_eq_map, List.append_assoc] at h
      obtain ⟨rfl, hrest⟩ := hname.cancel hname' (atMark_argumentText (atMark_suffixText hs k))
        (atMark_argumentText (atMark_suffixText ht j)) h
      obtain ⟨rfl, rfl, hst⟩ := argumentText_cancel hargs hargs'
        (fun a ha b hb s t hs ht => ih a ha (hargs' b hb) hs ht) hs ht hrest
      exact ⟨rfl, hst⟩
    | function => exact absurd h (named_ne hname rfl _ _)
    | group => exact absurd h (named_ne hname rfl _ _)
  | @function params result hnames hparams hresult ihp ihr =>
    cases hq with
    | named hname' => exact absurd h.symm (named_ne hname' rfl _ _)
    | @function params' result' hnames' hparams' hresult' =>
      simp only [text, textParams_eq_map] at h
      obtain ⟨rfl, rfl, hst⟩ := functionText_cancel hnames hnames'
        (fun p hp q hq s t hs ht => ihp p hp (hparams' q hq) hs ht) (ihr hresult' hs ht) h
      exact ⟨rfl, hst⟩
    | group hnames' =>
      simp only [text, textParams_eq_map, functionText, List.cons_append, List.append_assoc,
        List.cons.injEq, true_and] at h
      exact absurd h (enclosed_params_ne hnames _ _)
  | @group params result k hnames hparams hresult ihp ihr =>
    cases hq with
    | named hname' => exact absurd h.symm (named_ne hname' rfl _ _)
    | function hnames' =>
      simp only [text, textParams_eq_map, functionText, List.cons_append, List.append_assoc,
        List.cons.injEq, true_and] at h
      exact absurd h.symm (enclosed_params_ne hnames' _ _)
    | @group params' result' j hnames' hparams' hresult' =>
      have hclose (s : List Char) : Ends (')' :: s) := ends_cons (.inr (.inr rfl)) s
      simp only [text, textParams_eq_map, List.cons_append, List.append_assoc, List.cons.injEq,
        true_and, List.nil_append] at h
      obtain ⟨rfl, rfl, hrest⟩ := functionText_cancel hnames hnames'
        (fun p hp q hq s t hs ht => ihp p hp (hparams' q hq) hs ht)
        (ihr hresult' (hclose _) (hclose _)) h
      obtain ⟨hjk, hst⟩ := suffixText_cancel hs ht (List.cons.inj hrest).2
      obtain rfl := Nat.succ.inj hjk
      exact ⟨rfl, hst⟩

end

/-! ## Arrays -/

/-- The phrase with an array suffix more. -/
def array : Phrase → Phrase
  | named n args k => named n args (k + 1)
  | function params result => group params result 0
  | group params result k => group params result (k + 1)

def isFunction : Phrase → Bool
  | function .. => true
  | _ => false

theorem suffixText_succ (k : Nat) : suffixText (k + 1) = suffixText k ++ ['[', ']'] := by
  induction k with
  | zero => rfl
  | succ k ih => exact congrArg (fun s => '[' :: ']' :: s) ih

theorem text_array (p : Phrase) :
    p.array.text = if p.isFunction then '(' :: p.text ++ [')', '[', ']']
      else p.text ++ ['[', ']'] := by
  cases p with
  | named n args k => simp [array, text, isFunction, suffixText_succ]
  | function params result => simp [array, text, isFunction, suffixText]
  | group params result k => simp [array, text, isFunction, suffixText_succ]

theorem Legible.array {p : Phrase} (hp : p.Legible) : p.array.Legible := by
  cases hp with
  | named hname hargs => exact .named hname hargs
  | function hnames hparams hresult => exact .group hnames hparams hresult
  | group hnames hparams hresult => exact .group hnames hparams hresult

theorem isFunction_array (p : Phrase) : p.array.isFunction = false := by
  cases p <;> rfl

end Phrase

end TypeBridge
