import TypeBridge.Proofs.Phrases
import TypeBridge.Proofs.Unnumbered

/-!
# Types are readable

Two types with the same text are the same type, but for what the text does not show: the identifiers
of symbols and the names of parameters before they were made to fit (`TargetType.render_eq_iff`).

The text of a type is that of its phrase (`TargetType.Over.toList_render`), and a phrase can be read
off a text.  What a name in a phrase is, built-in, a variable or a symbol, is known from the
vocabulary: this turns the phrase back into the type (`Phrase.type_phrase`).
-/

namespace TypeBridge

/-! ## Vocabularies -/

def TargetPrimitive.all : List TargetPrimitive :=
  [.string, .number, .boolean, .null, .void, .any, .unknown]

/-- The primitive type of a name. -/
def TargetPrimitive.ofName? (name : String) : Option TargetPrimitive :=
  TargetPrimitive.all.find? fun p => p.render == name

/-- The names that a type has a meaning for without any declaration. -/
def builtinNames : List String :=
  "Record" :: TargetPrimitive.all.map TargetPrimitive.render

/-- The names of symbols and of type variables, which can be told apart from each other, from
built-in names and from the signs around them. -/
structure Vocabulary where
  symbols : List String
  typeVars : List String
  plain : ∀ n ∈ symbols ++ typeVars, Text.Plain n
  unreserved : ∀ n ∈ symbols ++ typeVars, n ∉ builtinNames
  disjoint : ∀ n ∈ symbols, n ∉ typeVars

namespace TargetType

/-- A type without override text, with names from a vocabulary. -/
inductive Over (v : Vocabulary) : TargetType → Prop
  | primitive (k : TargetPrimitive) : Over v (.primitive k)
  | array {e : TargetType} (h : Over v e) : Over v (.array e)
  | record {value : TargetType} (h : Over v value) : Over v (.record value)
  | reference {s : Symbol} {args : List TargetType} (hs : s.name ∈ v.symbols)
      (hargs : ∀ a ∈ args, Over v a) :
      Over v (.reference s args)
  | typeVar {n : String} (hn : n ∈ v.typeVars) : Over v (.typeVar n)
  | function {params : List (String × TargetType)} {result : TargetType}
      (hparams : ∀ p ∈ params, Over v p.2)
      (hresult : Over v result) : Over v (.function params result)

/-! ## Parameters as they are written -/

mutual

/-- The type with its parameters under the names that they are written with. -/
def asWritten : TargetType → TargetType
  | .primitive k => .primitive k
  | .array e => .array (asWritten e)
  | .record v => .record (asWritten v)
  | .reference s args => .reference s (asWrittenList args)
  | .typeVar n => .typeVar n
  | .function params result => .function (asWrittenParams params) (asWritten result)
  | .verbatim text => .verbatim text

def asWrittenList : List TargetType → List TargetType
  | [] => []
  | t :: rest => asWritten t :: asWrittenList rest

def asWrittenParams : List (String × TargetType) → List (String × TargetType)
  | [] => []
  | (n, t) :: rest => (Text.parameterName n, asWritten t) :: asWrittenParams rest

end

theorem asWrittenList_eq_map (ts : List TargetType) : asWrittenList ts = ts.map asWritten := by
  induction ts with
  | nil => rfl
  | cons t ts ih => rw [asWrittenList, ih, List.map_cons]

theorem asWrittenParams_eq_map (ps : List (String × TargetType)) :
    asWrittenParams ps = ps.map (Prod.map Text.parameterName asWritten) := by
  induction ps with
  | nil => rfl
  | cons p ps ih => rw [asWrittenParams, ih, List.map_cons, Prod.map]

theorem isFunction_asWritten (t : TargetType) : t.asWritten.isFunction = t.isFunction := by
  cases t <;> rfl

mutual

theorem render_asWritten : ∀ t : TargetType, t.asWritten.render = t.render
  | .primitive _ => rfl
  | .typeVar _ => rfl
  | .verbatim _ => rfl
  | .array e => congrArg₂ renderElement (isFunction_asWritten e) (render_asWritten e)
  | .record v => congrArg ("Record<string, " ++ · ++ ">") (render_asWritten v)
  | .reference _ [] => rfl
  | .reference s (a :: rest) =>
    congrArg (s.name ++ "<" ++ · ++ ">") (renderList_asWritten (a :: rest))
  | .function params result =>
    congrArg₂ ("(" ++ · ++ ") => " ++ ·) (renderParams_asWritten params) (render_asWritten result)

theorem renderList_asWritten : ∀ ts : List TargetType, renderList (asWrittenList ts) = renderList ts
  | [] => rfl
  | [t] => render_asWritten t
  | t :: x :: rest =>
    congrArg₂ (· ++ ", " ++ ·) (render_asWritten t) (renderList_asWritten (x :: rest))

theorem renderParams_asWritten :
    ∀ ps : List (String × TargetType), renderParams (asWrittenParams ps) = renderParams ps
  | [] => rfl
  | [(n, t)] => congrArg₂ (· ++ ": " ++ ·) (Text.parameterName_parameterName n) (render_asWritten t)
  | (n, t) :: p :: rest =>
    congrArg₂ (· ++ ", " ++ ·)
      (congrArg₂ (· ++ ": " ++ ·) (Text.parameterName_parameterName n) (render_asWritten t))
      (renderParams_asWritten (p :: rest))

end

end TargetType

/-! ## The phrase of a type -/

namespace TargetType

mutual

def phrase : TargetType → Phrase
  | .primitive k => .named k.render [] 0
  | .array e => (phrase e).array
  | .record v => .named "Record" [.named "string" [] 0, phrase v] 0
  | .reference s args => .named s.name (phraseList args) 0
  | .typeVar n => .named n [] 0
  | .function params result => .function (phraseParams params) (phrase result)
  | .verbatim text => .named text [] 0

def phraseList : List TargetType → List Phrase
  | [] => []
  | t :: rest => phrase t :: phraseList rest

def phraseParams : List (String × TargetType) → List (String × Phrase)
  | [] => []
  | (n, t) :: rest => (Text.parameterName n, phrase t) :: phraseParams rest

end

theorem phraseList_eq_map (ts : List TargetType) : phraseList ts = ts.map phrase := by
  induction ts with
  | nil => rfl
  | cons t ts ih => rw [phraseList, ih, List.map_cons]

theorem phraseParams_eq_map (ps : List (String × TargetType)) :
    phraseParams ps = ps.map (Prod.map Text.parameterName phrase) := by
  induction ps with
  | nil => rfl
  | cons p ps ih => rw [phraseParams, ih, List.map_cons, Prod.map]

theorem isFunction_phrase (t : TargetType) : t.phrase.isFunction = t.isFunction := by
  cases t with
  | array e => exact Phrase.isFunction_array _
  | _ => rfl

theorem toList_renderList (t : TargetType) (ts : List TargetType) :
    (renderList (t :: ts)).toList ++ ['>'] =
      Phrase.enclosed '>' ((t :: ts).map fun t => t.render.toList) := by
  induction ts generalizing t with
  | nil => simp [show renderList [t] = t.render from rfl, Phrase.enclosed]
  | cons u rest ih =>
    have hmore : renderList (t :: u :: rest) = t.render ++ ", " ++ renderList (u :: rest) := rfl
    have hrest := ih u
    simp only [Phrase.enclosed, List.map_cons] at hrest ⊢
    simp [hmore, hrest]

theorem toList_renderParams (ps : List (String × TargetType)) :
    (renderParams ps).toList ++ [')'] =
      Phrase.enclosed ')' (ps.map fun p => (Text.parameterName p.1).toList ++ ':' :: ' ' ::
        p.2.render.toList) := by
  cases ps with
  | nil => rfl
  | cons p rest =>
    induction rest generalizing p with
    | nil => simp [show renderParams [p] = Text.parameterName p.1 ++ ": " ++ p.2.render from rfl,
      Phrase.enclosed]
    | cons q rest ih =>
      have hmore : renderParams (p :: q :: rest) =
          Text.parameterName p.1 ++ ": " ++ p.2.render ++ ", " ++ renderParams (q :: rest) := rfl
      have hrest := ih q
      simp only [Phrase.enclosed, List.map_cons] at hrest ⊢
      simp [hmore, hrest]

variable {v : Vocabulary} {t : TargetType}

/-- The text of a type is that of its phrase. -/
theorem Over.toList_render (h : t.Over v) : t.render.toList = t.phrase.text := by
  have hname (n : String) : (Phrase.named n [] 0).text = n.toList := by
    simp [Phrase.text, Phrase.textList, Phrase.argumentText, Phrase.suffixText]
  induction h with
  | primitive k => exact (hname k.render).symm
  | @typeVar n => exact (hname n).symm
  | @array e _ ih =>
    have hrender : (TargetType.array e).render = renderElement e.isFunction e.render := rfl
    rw [hrender, phrase, Phrase.text_array, isFunction_phrase, renderElement, ← ih]
    split <;> simp
  | @record value _ ih =>
    have hrender : (TargetType.record value).render =
        "Record" ++ "<" ++ ("string" ++ ", " ++ value.render ++ ">") := by
      have hstart : "Record<string, " = "Record" ++ "<" ++ ("string" ++ ", ") := rfl
      rw [show (TargetType.record value).render = "Record<string, " ++ value.render ++ ">" from rfl,
        hstart]
      simp only [String.append_assoc]
    rw [hrender, phrase, Phrase.text, Phrase.textList, Phrase.textList, Phrase.textList,
      hname, ← ih]
    simp [Phrase.argumentText, Phrase.enclosed, Phrase.suffixText]
  | @reference s args _ _ ih =>
    have htexts : Phrase.textList (phraseList args) = args.map fun a => a.render.toList := by
      rw [Phrase.textList_eq_map, phraseList_eq_map, List.map_map]
      exact List.map_congr_left fun a ha => (ih a ha).symm
    rw [phrase, Phrase.text, htexts, Phrase.suffixText, List.append_nil]
    cases args with
    | nil => exact (List.append_nil _).symm
    | cons a rest =>
      have hrender : (TargetType.reference s (a :: rest)).render =
          s.name ++ "<" ++ renderList (a :: rest) ++ ">" := rfl
      have hrest := toList_renderList a rest
      simp only [List.map_cons] at hrest ⊢
      rw [Phrase.argumentText, ← hrest, hrender]
      simp
  | @function params result _ _ ihp ihr =>
    have hrender : (TargetType.function params result).render =
        "(" ++ renderParams params ++ ") => " ++ result.render := rfl
    have htexts : Phrase.textParams (phraseParams params) =
        params.map fun p => (Text.parameterName p.1).toList ++ ':' :: ' ' :: p.2.render.toList := by
      rw [Phrase.textParams_eq_map, phraseParams_eq_map, List.map_map]
      refine List.map_congr_left fun p hp => ?_
      rw [ihp p hp]
      rfl
    rw [phrase, Phrase.text, htexts, Phrase.functionText, ← toList_renderParams, ← ihr, hrender]
    simp

theorem plain_builtin {n : String} (hn : n ∈ builtinNames) : Text.Plain n := by
  have hall : ∀ n ∈ builtinNames, Text.Plain n := by decide
  exact hall n hn

theorem Over.legible_phrase (h : t.Over v) : t.phrase.Legible := by
  have hnone : ∀ a ∈ ([] : List Phrase), a.Legible := nofun
  induction h with
  | primitive k => exact .named (plain_builtin (by cases k <;> decide)) hnone
  | typeVar hn => exact .named (v.plain _ (List.mem_append_right _ hn)) hnone
  | array _ ih => exact ih.array
  | record _ ih =>
    have hkey : (Phrase.named "string" [] 0).Legible := .named (plain_builtin (by decide)) hnone
    exact .named (plain_builtin (by decide))
      (List.forall_mem_cons.2 ⟨hkey, List.forall_mem_singleton.2 ih⟩)
  | @reference s args hs _ ih =>
    refine .named (v.plain _ (List.mem_append_left _ hs)) fun p hp => ?_
    rw [phraseList_eq_map] at hp
    obtain ⟨a, ha, rfl⟩ := List.mem_map.1 hp
    exact ih a ha
  | @function params result _ _ ihp ihr =>
    rw [phrase, phraseParams_eq_map]
    refine .function (fun p hp => ?_) (fun p hp => ?_) ihr
    · obtain ⟨q, -, rfl⟩ := List.mem_map.1 hp
      exact Text.plain_parameterName q.1
    · obtain ⟨q, hq, rfl⟩ := List.mem_map.1 hp
      exact ihp q hq

end TargetType

namespace Phrase

/-! ## The type of a phrase -/

def arrays : Nat → TargetType → TargetType
  | 0, t => t
  | k + 1, t => .array (arrays k t)

/-- What a name with arguments is a type of. -/
def typeOfName (typeVars : List String) (name : String) (args : List TargetType) : TargetType :=
  match TargetPrimitive.ofName? name with
  | some k => .primitive k
  | none =>
    if name = "Record" then
      .record (args.getLast?.getD .any)
    else if name ∈ typeVars then
      .typeVar name
    else
      .reference ⟨0, name⟩ args

mutual

/-- The type that is read as the phrase, without the identifiers of symbols. -/
def type (typeVars : List String) : Phrase → TargetType
  | named n args k => arrays k (typeOfName typeVars n (typeList typeVars args))
  | function params result => .function (typeParams typeVars params) (type typeVars result)
  | group params result k =>
    arrays (k + 1) (.function (typeParams typeVars params) (type typeVars result))

def typeList (typeVars : List String) : List Phrase → List TargetType
  | [] => []
  | p :: rest => type typeVars p :: typeList typeVars rest

def typeParams (typeVars : List String) : List (String × Phrase) → List (String × TargetType)
  | [] => []
  | (n, p) :: rest => (n, type typeVars p) :: typeParams typeVars rest

end

theorem typeList_eq_map (typeVars : List String) (ps : List Phrase) :
    typeList typeVars ps = ps.map (type typeVars) := by
  induction ps with
  | nil => rfl
  | cons p rest ih => rw [typeList, ih, List.map_cons]

theorem typeParams_eq_map (typeVars : List String) (ps : List (String × Phrase)) :
    typeParams typeVars ps = ps.map (Prod.map id (type typeVars)) := by
  induction ps with
  | nil => rfl
  | cons p rest ih => rw [typeParams, ih, List.map_cons, Prod.map, id]

theorem type_array (typeVars : List String) (p : Phrase) :
    p.array.type typeVars = .array (p.type typeVars) := by
  cases p <;> rfl

theorem ofName?_render (k : TargetPrimitive) : TargetPrimitive.ofName? k.render = some k := by
  cases k <;> decide

theorem ofName?_eq_none {n : String} (hn : n ∉ builtinNames) :
    TargetPrimitive.ofName? n = none := by
  refine List.find?_eq_none.2 fun k hk hname => hn ?_
  exact List.mem_cons_of_mem _ (List.mem_map.2 ⟨k, hk, by simpa using hname⟩)

variable {v : Vocabulary} {t : TargetType}

/-- The phrase of a type is read as that type. -/
theorem type_phrase (h : t.Over v) : t.phrase.type v.typeVars = t.asWritten.unnumbered := by
  induction h with
  | primitive k =>
    simp [TargetType.phrase, type, typeOfName, ofName?_render, arrays, TargetType.asWritten,
      TargetType.unnumbered]
  | @typeVar n hn =>
    have hfree := v.unreserved n (List.mem_append_right _ hn)
    have hrecord : n ≠ "Record" := fun heq => hfree (heq ▸ List.mem_cons_self)
    simp [TargetType.phrase, type, typeOfName, ofName?_eq_none hfree, hrecord, hn, arrays,
      TargetType.asWritten, TargetType.unnumbered]
  | array _ ih => rw [TargetType.phrase, type_array, ih]; rfl
  | record _ ih =>
    have hbuiltin : TargetPrimitive.ofName? "Record" = none := by decide
    simp [TargetType.phrase, type, typeList, typeOfName, hbuiltin, arrays, ih, TargetType.asWritten,
      TargetType.unnumbered]
  | @reference s args hs _ ih =>
    have hfree := v.unreserved s.name (List.mem_append_left _ hs)
    have hrecord : s.name ≠ "Record" := fun heq => hfree (heq ▸ List.mem_cons_self)
    have hargs : typeList v.typeVars (TargetType.phraseList args) =
        TargetType.unnumberedList (TargetType.asWrittenList args) := by
      rw [typeList_eq_map, TargetType.phraseList_eq_map, TargetType.unnumberedList_eq_map,
        TargetType.asWrittenList_eq_map, List.map_map, List.map_map]
      exact List.map_congr_left ih
    rw [TargetType.phrase, type, hargs, typeOfName, ofName?_eq_none hfree]
    simp only [hrecord, v.disjoint s.name hs, ↓reduceIte]
    rfl
  | @function params result _ _ ihp ihr =>
    have hparams : typeParams v.typeVars (TargetType.phraseParams params) =
        TargetType.unnumberedParams (TargetType.asWrittenParams params) := by
      rw [typeParams_eq_map, TargetType.phraseParams_eq_map, TargetType.unnumberedParams_eq_map,
        TargetType.asWrittenParams_eq_map, List.map_map, List.map_map]
      exact List.map_congr_left fun p hp => congrArg (Prod.mk (Text.parameterName p.1)) (ihp p hp)
    rw [TargetType.phrase, type, hparams, ihr]
    rfl

end Phrase

/-! ## The text of a type -/

namespace TargetType

def children : TargetType → List TargetType
  | .array e => [e]
  | .record v => [v]
  | .reference _ args => args
  | .function params result => params.map (·.2) ++ [result]
  | _ => []

/-- What stands at a place: which child, which child of that, and so on. -/
def at? : List Nat → TargetType → Option TargetType
  | [], t => some t
  | i :: place, t => t.children[i]?.bind (at? place)

theorem children_unnumbered (t : TargetType) :
    t.asWritten.unnumbered.children = t.children.map fun c => c.asWritten.unnumbered := by
  cases t with
  | reference s args =>
    simp [asWritten, unnumbered, children, asWrittenList_eq_map, unnumberedList_eq_map]
  | function params result =>
    simp [asWritten, unnumbered, children, asWrittenParams_eq_map, unnumberedParams_eq_map]
  | _ => rfl

theorem at?_unnumbered (place : List Nat) (t : TargetType) :
    t.asWritten.unnumbered.at? place = (t.at? place).map fun c => c.asWritten.unnumbered := by
  induction place generalizing t with
  | nil => rfl
  | cons i place ih =>
    rw [at?, at?, children_unnumbered, List.getElem?_map]
    cases t.children[i]? with
    | none => rfl
    | some c => exact ih c

/-- **Types are readable.**  Two types over one vocabulary have the same text if and only if they
are the same up to the identifiers of symbols and what parameters are called before their names are
made to fit.  In particular an array of functions is never read as a function that returns an array,
at whatever place. -/
theorem render_eq_iff {v : Vocabulary} {t u : TargetType} (ht : t.Over v) (hu : u.Over v) :
    (t.render = u.render ↔ t.asWritten.unnumbered = u.asWritten.unnumbered) ∧
      ∀ place params result params' element, t.at? place = some (.array (.function params result)) →
        u.at? place = some (.function params' (.array element)) → t.render ≠ u.render := by
  have hiff : t.render = u.render ↔ t.asWritten.unnumbered = u.asWritten.unnumbered := by
    constructor
    · intro h
      have htext : t.phrase.text ++ [] = u.phrase.text ++ [] := by
        rw [← ht.toList_render, ← hu.toList_render, h]
      obtain ⟨hphrase, -⟩ :=
        ht.legible_phrase.cancel hu.legible_phrase Phrase.ends_nil Phrase.ends_nil htext
      rw [← Phrase.type_phrase ht, ← Phrase.type_phrase hu, hphrase]
    · intro h
      rw [← render_asWritten t, ← render_unnumbered, h, render_unnumbered, render_asWritten]
  refine ⟨hiff, fun place params result params' element harray hfunction htext => ?_⟩
  have hplace := at?_unnumbered place t
  rw [hiff.1 htext, at?_unnumbered place u, harray, hfunction] at hplace
  cases hplace

/-- Callbacks in a table: numbers of symbols and the characters of a parameter name do not show,
parentheses do. -/
theorem render_eq_iff_callbacks :
    let v : Vocabulary := ⟨["Box"], ["T"], by decide, by decide, by decide⟩
    let callback (name : String) (id : Nat) : TargetType :=
      .function [(name, .array (.typeVar "T"))] (.reference ⟨id, "Box"⟩ [.primitive .string])
    let t : TargetType := .record (.array (callback "a-b" 3))
    let u : TargetType := .record (.array (callback "a b" 4))
    let w : TargetType :=
      .record (.function [("a", .array (.typeVar "T"))] (.array (.reference ⟨3, "Box"⟩ [])))
    t.Over v ∧ u.Over v ∧ w.Over v ∧ t.render = "Record<string, ((a_b: T[]) => Box<string>)[]>" ∧
      t.render = u.render ∧
      t.render ≠ w.render := by
  intro v callback t u w
  have hparams {name : String} : ∀ p ∈ [(name, TargetType.array (.typeVar "T"))], Over v p.2 :=
    List.forall_mem_singleton.2 (.array (.typeVar (by decide)))
  have hcallback (name : String) (id : Nat) : (callback name id).Over v :=
    .function hparams (.reference List.mem_cons_self
      (List.forall_mem_singleton.2 (.primitive .string)))
  have ht : t.Over v := .record (.array (hcallback "a-b" 3))
  have hu : u.Over v := .record (.array (hcallback "a b" 4))
  have hw : w.Over v := .record (.function hparams (.array (.reference List.mem_cons_self nofun)))
  have htext : t.render = "Record<string, ((a_b: T[]) => Box<string>)[]>" := by decide
  exact ⟨ht, hu, hw, htext, (render_eq_iff ht hu).1.2 rfl,
    (render_eq_iff ht hw).2 [0] _ _ _ _ rfl rfl⟩

end TargetType

end TypeBridge
