import TypeBridge.Proofs.Grammar

/-!
# Writing and reading types

`HostType.text` writes a type and `Expression.read` reads it.  The types that come back are the
`Expressible` ones: their text is derived by the grammar (`derives_text`), and the grammar derives
no others (`Derives.expressible`).  Binding type parameters is invisible in the text (`text_bind`),
so a bound type comes back after reading and binding it again (`text_round_trip`).
-/

namespace TypeBridge

open Expression

namespace HostType

/-- A type without type variables, in which names are names, no bare class is spelled like a
built-in type and no argument list is empty. -/
inductive Expressible : HostType → Prop
  | primitive (p : HostPrimitive) : Expressible (.primitive p)
  | named {name : String} (hname : IsName name) (hclass : HostPrimitive.ofName? name = none) :
      Expressible (.named name)
  | generic {raw : String} {args : List HostType} (hname : IsName raw) (hargs : args ≠ [])
      (h : ∀ t ∈ args, Expressible t) : Expressible (.generic raw args)
  | array {element : HostType} (h : Expressible element) : Expressible (.array element)

/-! ## What is written -/

theorem toList_textList (a : HostType) (args : List HostType) :
    (textList (a :: args)).toList = a.text.toList ++ args.flatMap fun t =>
      ',' :: ' ' :: t.text.toList := by
  induction args generalizing a with
  | nil => simp [textList]
  | cons b rest ih => simp [textList, ih b]

mutual

theorem text_bind (params : List String) : ∀ t : HostType, (t.bind params).text = t.text
  | .named n => by
    unfold bind
    split <;> rfl
  | .generic r args => by rw [bind, text, text, textList_bindAll params args]
  | .array e => by rw [bind, text, text, text_bind params e]
  | .primitive _ => rfl
  | .typeVar _ => rfl

theorem textList_bindAll (params : List String) :
    ∀ ts : List HostType, textList (bindAll params ts) = textList ts
  | [] => rfl
  | [a] => text_bind params a
  | a :: b :: rest => by
    have hrest := textList_bindAll params (b :: rest)
    rw [bindAll] at hrest
    rw [bindAll, bindAll, textList, textList, text_bind params a, hrest]

end

end HostType

/-! ## What is written is derived -/

namespace Expression

open HostType

theorem nameEnds_cons {c : Char} (hc : Text.isNameChar c = false) (s : List Char) :
    NameEnds (c :: s) := by
  simpa [NameEnds] using hc

theorem Derives.blank {c : Char} {s rest : List Char} {t : HostType} (hc : Text.isBlank c = true)
    (h : Derives s t rest) : Derives (c :: s) t rest := by
  obtain ⟨hblanks, hname, happlied, hsuffixed⟩ := h
  exact .type (blanks_cons_iff.2 (.inr ⟨hc, hblanks⟩)) hname happlied hsuffixed

theorem Suffixed.snoc {t u : HostType} {s s₁ rest : List Char} (h : Suffixed t s u s₁)
    (hbrackets : Blanks s₁ ('[' :: ']' :: rest)) : Suffixed t s (.array u) rest := by
  induction h with
  | none => exact .array hbrackets .none
  | array hfirst _ ih => exact .array hfirst (ih hbrackets)

theorem Derives.array {s s₁ rest : List Char} {t : HostType} (h : Derives s t s₁)
    (hbrackets : Blanks s₁ ('[' :: ']' :: rest)) : Derives s (.array t) rest := by
  obtain ⟨hblanks, hname, happlied, hsuffixed⟩ := h
  exact .type hblanks hname happlied (hsuffixed.snoc hbrackets)

theorem derives_name {name : String} {s rest : List Char} {t : HostType} (hname : IsName name)
    (hends : NameEnds s) (happlied : Applied name s t rest) : Derives (name.toList ++ s) t rest :=
  .type (blanks_self _) ⟨rfl, hname, hends⟩ happlied .none

theorem isName_spelling (p : HostPrimitive) : IsName p.spelling := by
  cases p <;> decide +kernel

theorem moreArgs_text {ts : List HostType} {rest : List Char} (hrest : NameEnds rest)
    (h : ∀ t ∈ ts, ∀ rest, NameEnds rest → Derives (t.text.toList ++ rest) t rest) :
    NameEnds ((ts.flatMap fun t => ',' :: ' ' :: t.text.toList) ++ rest) ∧
      MoreArgs ((ts.flatMap fun t => ',' :: ' ' :: t.text.toList) ++ rest) ts rest := by
  induction ts with
  | nil => exact ⟨hrest, .none⟩
  | cons t ts ih =>
    obtain ⟨ht, hts⟩ := List.forall_mem_cons.1 h
    obtain ⟨hends, hmore⟩ := ih hts
    rw [List.flatMap_cons, List.append_assoc]
    refine ⟨nameEnds_cons (by decide +kernel) _, .comma (blanks_self _) ?_ hmore⟩
    exact (ht _ hends).blank (by decide)

/-- The text of an expressible type is derived, as long as no name goes on behind it. -/
theorem derives_text {t : HostType} (h : t.Expressible) {rest : List Char} (hrest : NameEnds rest) :
    Derives (t.text.toList ++ rest) t rest := by
  induction h generalizing rest with
  | primitive p =>
    exact derives_name (isName_spelling p) hrest (.primitive (HostPrimitive.ofName?_spelling p))
  | named hname hclass => exact derives_name hname hrest (.named hclass)
  | @generic raw args hname hargs _ ih =>
    obtain ⟨a, more, rfl⟩ := List.exists_cons_of_ne_nil hargs
    obtain ⟨hfirst, hothers⟩ := List.forall_mem_cons.1 ih
    have hclose : NameEnds ('>' :: rest) := nameEnds_cons (by decide +kernel) rest
    obtain ⟨hends, hmore⟩ := moreArgs_text hclose fun t ht rest hrest => hothers t ht hrest
    have htext : (HostType.generic raw (a :: more)).text.toList ++ rest = raw.toList ++
        '<' ::
          (a.text.toList ++
            ((more.flatMap fun t => ',' :: ' ' :: t.text.toList) ++ '>' :: rest)) := by
      simp [text, toList_textList]
    rw [htext]
    exact derives_name hname (nameEnds_cons (by decide +kernel) _)
      (.generic (blanks_self _) (hfirst hends) hmore (blanks_self _))
  | @array element _ ih =>
    have htext : (HostType.array element).text.toList ++ rest =
        element.text.toList ++ '[' :: ']' :: rest := by
      simp [text]
    rw [htext]
    exact (ih (nameEnds_cons (by decide +kernel) _)).array (blanks_self _)

/-! ## What is derived is expressible -/

theorem Suffixed.expressible {t u : HostType} {s rest : List Char} (h : Suffixed t s u rest)
    (ht : t.Expressible) : u.Expressible := by
  induction h with
  | none => exact ht
  | array _ _ ih => exact ih (.array ht)

mutual

theorem Derives.expressible {s rest : List Char} {t : HostType} : Derives s t rest → t.Expressible
  | .type _ hname happlied hsuffixed => hsuffixed.expressible (happlied.expressible hname.isName)

theorem Applied.expressible {name : String} {s rest : List Char} {t : HostType}
    (hname : IsName name) :
    Applied name s t rest → t.Expressible
  | .generic _ hfirst hmore _ =>
    .generic hname (List.cons_ne_nil _ _)
      (List.forall_mem_cons.2 ⟨hfirst.expressible, hmore.expressible⟩)
  | .primitive _ => .primitive _
  | .named hclass => .named hname hclass

theorem MoreArgs.expressible {s rest : List Char} {ts : List HostType} :
    MoreArgs s ts rest → ∀ t ∈ ts, t.Expressible
  | .none => nofun
  | .comma _ hnext hmore => List.forall_mem_cons.2 ⟨hnext.expressible, hmore.expressible⟩

end

theorem read_text {t : HostType} (h : t.Expressible) : read t.text = .ok t := by
  have hderives : Derives (t.text.toList ++ []) t [] := derives_text h nofun
  rw [List.append_nil] at hderives
  exact read_of_expresses ⟨[], hderives, rfl⟩

theorem expressible_of_read {s : String} {t : HostType} (h : read s = .ok t) : t.Expressible := by
  obtain ⟨rest, hderives, -⟩ := expresses_of_read h
  exact hderives.expressible

end Expression

/-- **Types come back from their text.**  The text of an expressible type reads as that type,
nothing else is ever read, and a type that was read and bound is written as a text which, read and
bound again, gives it back. -/
theorem text_round_trip (t : HostType) :
    (t.Expressible → Expression.read t.text = .ok t) ∧
    (∀ s, Expression.read s = .ok t → t.Expressible) ∧
    ∀ s params, Expression.read s = .ok t →
      ∃ u, Expression.read (t.bind params).text = .ok u ∧ u.bind params = t.bind params := by
  refine ⟨read_text, fun s => expressible_of_read, fun s params h => ⟨t, ?_, rfl⟩⟩
  rw [HostType.text_bind]
  exact read_text (expressible_of_read h)

theorem text_round_trip_nested :
    let t : HostType := .array (.generic "Map" [.primitive .string, .generic "int" [.named "T"]])
    t.Expressible ∧ Expression.read t.text = .ok t ∧
      ∃ u, Expression.read (t.bind ["T"]).text = .ok u ∧ u.bind ["T"] = t.bind ["T"] := by
  intro t
  have hname : (HostType.named "T").Expressible := .named (by decide +kernel) (by decide +kernel)
  have hint : (HostType.generic "int" [.named "T"]).Expressible := by
    refine .generic (by decide +kernel) (List.cons_ne_nil _ _) ?_
    simpa using hname
  have hmap :
      (HostType.generic "Map" [.primitive .string, .generic "int" [.named "T"]]).Expressible := by
    refine .generic (by decide +kernel) (List.cons_ne_nil _ _) ?_
    simpa using ⟨.primitive .string, hint⟩
  obtain ⟨hwritten, -, hbound⟩ := text_round_trip t
  have hread : Expression.read t.text = .ok t := hwritten (.array hmap)
  exact ⟨.array hmap, hread, hbound t.text ["T"] hread⟩

end TypeBridge
