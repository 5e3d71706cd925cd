import TypeBridge.Proofs.Members
import TypeBridge.Proofs.Unnumbered

/-!
# The names of parameters

What becomes of the names of a parameter list.  A name is made to fit (`Text.parameterName`): it
comes out as an ASCII identifier that is no reserved word, and is left alone if it is one
(`Text.parameterName_usable`).  `Text.Alike` says which names come out the same: those that agree
once foreign characters are underscores, and one that needs an underscore in front with one that has
it.  A parameter without a name is called by its place, and a declared name may be just that.  These
two are the ways in which names collide (`MethodDecl.nodup_writtenNames_iff`).

Members and function types show the same list, a name for each parameter of the method
(`parameter_names_distinct`).
-/

namespace TypeBridge

open Functional Resolving

namespace Text

/-! ## Names that fit -/

/-- A letter of ASCII, or one of the two signs that may stand in its place. -/
def IsLetterOrSign (c : Char) : Prop :=
  'A' ≤ c ∧ c ≤ 'Z' ∨ 'a' ≤ c ∧ c ≤ 'z' ∨ c = '_' ∨ c = '$'

/-- A name that a parameter may have: an identifier of ASCII characters that is no reserved word. -/
structure Usable (name : String) : Prop where
  spelled : ∃ c rest, name.toList = c :: rest ∧ IsLetterOrSign c ∧ ∀ d ∈ rest,
    IsLetterOrSign d ∨ '0' ≤ d ∧ d ≤ '9'
  free : name ∉ reservedWords

theorem isIdentifierStart_iff {c : Char} : isIdentifierStart c = true ↔ IsLetterOrSign c := by
  have hupper : c.isUpper = decide ('A' ≤ c ∧ c ≤ 'Z') := rfl
  have hlower : c.isLower = (decide ('a' ≤ c) && decide (c ≤ 'z')) := rfl
  have halpha : c.isAlpha = (c.isUpper || c.isLower) := rfl
  simp [isIdentifierStart, IsLetterOrSign, halpha, hupper, hlower, or_assoc]

theorem isIdentifierChar_iff {c : Char} : isIdentifierChar c = true ↔
    IsLetterOrSign c ∨ '0' ≤ c ∧ c ≤ '9' := by
  have hdigit : c.isDigit = true ↔ '0' ≤ c ∧ c ≤ '9' := by simp [Char.isDigit, Char.le_def]
  rw [← isIdentifierStart_iff, ← hdigit]
  simp only [isIdentifierChar, isIdentifierStart, Char.isAlphanum, Bool.or_eq_true]
  tauto

theorem usable_iff {name : String} :
    Usable name ↔ IsIdentifier name.toList = true ∧ name ∉ reservedWords := by
  constructor
  · rintro ⟨⟨c, rest, hname, hc, hrest⟩, hfree⟩
    rw [hname, isIdentifier_cons_iff]
    exact ⟨⟨isIdentifierStart_iff.2 hc, fun d hd => isIdentifierChar_iff.2 (hrest d hd)⟩, hfree⟩
  · rintro ⟨hname, hfree⟩
    refine ⟨?_, hfree⟩
    cases hlist : name.toList with
    | nil =>
      rw [hlist] at hname
      cases hname
    | cons c rest =>
      rw [hlist, isIdentifier_cons_iff] at hname
      exact ⟨c, rest, rfl, isIdentifierStart_iff.1 hname.1, fun d hd =>
        isIdentifierChar_iff.1 (hname.2 d hd)⟩

/-- **Every parameter has a name that fits.**  Whatever name is given, the empty one included, what
is written is an ASCII identifier and no reserved word.  Just those names are left as they are, so a
name that is written is written once and for all. -/
theorem parameterName_usable (name : String) :
    Usable (parameterName name) ∧ (parameterName name = name ↔ Usable name) ∧
      parameterName (parameterName name) = parameterName name := by
  have husable : Usable (parameterName name) :=
    usable_iff.2 ⟨isIdentifier_parameterName name, parameterName_notMem_reservedWords name⟩
  refine ⟨husable, ⟨fun hkept => hkept ▸ husable, fun h => ?_⟩, parameterName_parameterName name⟩
  obtain ⟨hidentifier, hfree⟩ := usable_iff.1 h
  exact parameterName_of_isIdentifier hidentifier hfree

-- Each guard may be needed on its own: a letter of another alphabet, a digit in front, a reserved
-- word, no name at all.
example : ["größe", "1st", "class", ""].map parameterName =
    ["gr__e", "_1st", "_class", "_empty"] := by decide +kernel

/-! ## Names that are written alike -/

/-- What cannot stand as an identifier for its first character or as a reserved word. -/
def needsUnderscore (s : List Char) : Bool :=
  s.head?.any Char.isDigit || reservedWords.contains (String.ofList s)

/-- `s` is written with an underscore in front that `t` has of itself. -/
def Underscored (s t : String) : Prop :=
  s = "" ∧ replaceForeign t.toList = "_empty".toList ∨
    needsUnderscore (replaceForeign s.toList) = true ∧
    replaceForeign t.toList = '_' :: replaceForeign s.toList

/-- Names that are written under one name. -/
def Alike (s t : String) : Prop :=
  replaceForeign s.toList = replaceForeign t.toList ∨ Underscored s t ∨ Underscored t s

theorem not_needsUnderscore_cons (s : List Char) : needsUnderscore ('_' :: s) = false := by
  have hfree := ofList_underscore_notMem_reservedWords s
  simpa [needsUnderscore] using hfree

/-- At most one of the guards applies. -/
theorem guardReserved_guardDigit (s : List Char) :
    guardReserved (guardDigit s) = if needsUnderscore s then '_' :: s else s := by
  cases s with
  | nil => decide
  | cons c rest =>
    cases hdigit : c.isDigit with
    | true =>
      have hfree : guardReserved ('_' :: c :: rest) = '_' :: c :: rest :=
        if_neg (by simpa using ofList_underscore_notMem_reservedWords (c :: rest))
      simp [guardDigit, needsUnderscore, hdigit, hfree]
    | false => simp [guardDigit, needsUnderscore, hdigit, guardReserved]

theorem toList_parameterName_empty : (parameterName "").toList = "_empty".toList := rfl

theorem toList_parameterName {s : String} (h : s ≠ "") :
    (parameterName s).toList =
      if needsUnderscore (replaceForeign s.toList) then '_' :: replaceForeign s.toList
      else replaceForeign s.toList := by
  have hne : ¬s.isEmpty = true := by simpa using h
  rw [parameterName, if_neg hne, String.toList_ofList, guardReserved_guardDigit]

theorem replaceForeign_eq_nil_iff {s : String} : replaceForeign s.toList = [] ↔ s = "" := by
  simp [replaceForeign]

theorem parameterName_of_underscored {s t : String} (h : Underscored s t) :
    parameterName s = parameterName t := by
  have ht : t ≠ "" := by
    rintro rfl
    rcases h with ⟨-, h⟩ | ⟨-, h⟩ <;> exact absurd h nofun
  rw [← String.toList_inj, toList_parameterName ht]
  rcases h with ⟨rfl, h⟩ | ⟨hneeds, h⟩
  · rw [h]
    decide
  · have hs : s ≠ "" := by
      rintro rfl
      exact absurd hneeds (by decide)
    rw [toList_parameterName hs, h, if_pos hneeds, not_needsUnderscore_cons,
      if_neg Bool.false_ne_true]

/-- **Which names are written alike.** -/
theorem parameterName_eq_iff (s t : String) : parameterName s = parameterName t ↔ Alike s t := by
  constructor
  · intro h
    have hlist := congrArg String.toList h
    by_cases hs : s = "" <;> by_cases ht : t = ""
    · exact .inl (by rw [hs, ht])
    · subst hs
      rw [toList_parameterName_empty, toList_parameterName ht] at hlist
      split at hlist
      · next hneeds =>
        -- Behind the underscore there is `empty`, which would do without.
        rw [← (List.cons.inj hlist).2] at hneeds
        exact absurd hneeds (by decide)
      · exact .inr (.inl (.inl ⟨rfl, hlist.symm⟩))
    · subst ht
      rw [toList_parameterName_empty, toList_parameterName hs] at hlist
      split at hlist
      · next hneeds =>
        rw [(List.cons.inj hlist).2] at hneeds
        exact absurd hneeds (by decide)
      · exact .inr (.inr (.inl ⟨rfl, hlist⟩))
    · rw [toList_parameterName hs, toList_parameterName ht] at hlist
      split at hlist
      · next hneeds =>
        split at hlist
        · exact .inl (List.cons.inj hlist).2
        · exact .inr (.inl (.inr ⟨hneeds, hlist.symm⟩))
      · split at hlist
        · next hneeds => exact .inr (.inr (.inr ⟨hneeds, hlist⟩))
        · exact .inl hlist
  · rintro (h | h | h)
    · by_cases hs : s = ""
      · have ht : t = "" := replaceForeign_eq_nil_iff.1 (h ▸ replaceForeign_eq_nil_iff.2 hs)
        rw [hs, ht]
      · have ht : t ≠ "" := fun ht =>
          hs (replaceForeign_eq_nil_iff.1 (h ▸ replaceForeign_eq_nil_iff.2 ht))
        rw [← String.toList_inj, toList_parameterName hs, toList_parameterName ht, h]
    · exact parameterName_of_underscored h
    · exact (parameterName_of_underscored h).symm

/-! ## Names by their place -/

open TargetType (positionalName)

theorem toList_positionalName (i : Nat) :
    (positionalName i).toList = 'a' :: 'r' :: 'g' :: Nat.toDigits 10 i := by
  simp [positionalName, Nat.toString_eq_repr, Nat.toList_repr]

theorem eq_of_positionalName_eq {i j : Nat} (h : positionalName i = positionalName j) : i = j :=
  SymbolTable.eq_of_toString_eq (by simpa [positionalName] using h)

theorem isIdentifier_positionalName (i : Nat) : IsIdentifier (positionalName i).toList = true := by
  have hdigits : ∀ c ∈ Nat.toDigits 10 i, isIdentifierChar c = true := fun c hc => by
    have hdigit := Nat.isDigit_of_mem_toDigits (by decide) (Nat.le_refl 10) hc
    simp [isIdentifierChar, Char.isAlphanum, hdigit]
  rw [toList_positionalName]
  refine isIdentifier_cons_iff.2 ⟨by decide, ?_⟩
  exact List.forall_mem_cons.2 ⟨by decide, List.forall_mem_cons.2 ⟨by decide, hdigits⟩⟩

theorem positionalName_notMem_reservedWords (i : Nat) : positionalName i ∉ reservedWords := by
  have hstart : ∀ w ∈ reservedWords, w.toList.take 3 ≠ ['a', 'r', 'g'] := by decide
  intro hmem
  have htake := hstart _ hmem
  rw [toList_positionalName] at htake
  exact htake rfl

theorem parameterName_positionalName (i : Nat) :
    parameterName (positionalName i) = positionalName i :=
  parameterName_of_isIdentifier (isIdentifier_positionalName i)
    (positionalName_notMem_reservedWords i)

theorem replaceForeign_eq_self {s : List Char} (h : '_' ∉ replaceForeign s) :
    replaceForeign s = s := by
  refine replaceForeign_of_forall fun c hc => ?_
  by_contra hforeign
  exact h (List.mem_map.2 ⟨c, hc, if_neg hforeign⟩)

/-- No other name is written like one that stands for a place. -/
theorem parameterName_eq_positionalName_iff {s : String} {i : Nat} :
    parameterName s = positionalName i ↔ s = positionalName i := by
  constructor
  · intro h
    have hlist := congrArg String.toList h
    have hplain : '_' ∉ (positionalName i).toList := by
      rw [toList_positionalName]
      simp
    by_cases hs : s = ""
    · rw [hs, toList_parameterName_empty] at hlist
      rw [← hlist] at hplain
      exact absurd hplain (by decide)
    · rw [toList_parameterName hs] at hlist
      split at hlist
      · rw [← hlist] at hplain
        exact absurd List.mem_cons_self hplain
      · rw [← hlist] at hplain
        rw [replaceForeign_eq_self hplain] at hlist
        exact String.toList_inj.1 hlist
  · rintro rfl
    exact parameterName_positionalName i

end Text

/-! ## Names of one list -/

section

variable {α β : Type} {xs : List α}

theorem pairwise_iff_getElem? {R : α → α → Prop} : xs.Pairwise R ↔
    ∀ (i j : Nat) (x y : α), i < j → xs[i]? = some x → xs[j]? = some y → R x y := by
  rw [List.pairwise_iff_getElem]
  constructor
  · intro h i j x y hij hx hy
    obtain ⟨hi, rfl⟩ := List.getElem?_eq_some_iff.1 hx
    obtain ⟨hj, rfl⟩ := List.getElem?_eq_some_iff.1 hy
    exact h i j hi hj hij
  · intro h i j hi hj hij
    exact h i j _ _ hij (List.getElem?_eq_getElem hi) (List.getElem?_eq_getElem hj)

theorem nodup_mapIdx_iff {f : Nat → α → β} : (xs.mapIdx f).Nodup ↔
    ∀ (i j : Nat) (x y : α), i < j → xs[i]? = some x → xs[j]? = some y → f i x ≠ f j y := by
  rw [List.nodup_iff_pairwise_ne, pairwise_iff_getElem?]
  simp only [List.getElem?_mapIdx, Option.map_eq_some_iff]
  constructor
  · exact fun h i j x y hij hx hy => h i j _ _ hij ⟨x, hx, rfl⟩ ⟨y, hy, rfl⟩
  · rintro h i j _ _ hij ⟨x, hx, rfl⟩ ⟨y, hy, rfl⟩
    exact h i j x y hij hx hy

end

open TargetType (positionalName)

/-- The name under which the parameter in a place is written. -/
def ParamDecl.writtenName (index : Nat) (p : ParamDecl) : String :=
  Text.parameterName (parameterName index p)

/-- Parameters in two places are written under one name if their names are alike, or if the one has
no name and the other is called by the place of the first. -/
theorem ParamDecl.writtenName_eq_iff {i j : Nat} {p q : ParamDecl} (hij : i ≠ j) :
    p.writtenName i = q.writtenName j ↔
      (∃ s t, p.name = some s ∧ q.name = some t ∧ Text.Alike s t) ∨
      (p.name = none ∧ q.name = some (positionalName i)) ∨
      (q.name = none ∧ p.name = some (positionalName j)) := by
  unfold writtenName parameterName
  cases hp : p.name with
  | none =>
    cases hq : q.name with
    | none =>
      have hne : positionalName i ≠ positionalName j :=
        fun h => hij (Text.eq_of_positionalName_eq h)
      simp [Text.parameterName_positionalName, hne]
    | some t =>
      have hplace : positionalName i = Text.parameterName t ↔ t = positionalName i :=
        eq_comm.trans Text.parameterName_eq_positionalName_iff
      simp [Text.parameterName_positionalName, hplace]
  | some s =>
    cases hq : q.name with
    | none => simp [Text.parameterName_positionalName, Text.parameterName_eq_positionalName_iff]
    | some t => simp [Text.parameterName_eq_iff]

namespace MethodDecl

/-- The names that the host has recorded. -/
def declaredNames (m : MethodDecl) : List String :=
  m.params.filterMap (·.name)

/-- The names that are written for the parameters. -/
def writtenNames (m : MethodDecl) : List String :=
  m.params.mapIdx ParamDecl.writtenName

/-- **When the written names are distinct**: no declared name stands for the place of a parameter
without a name, and no two of them are alike. -/
theorem nodup_writtenNames_iff (m : MethodDecl) : m.writtenNames.Nodup ↔
    (∀ i p, m.params[i]? = some p → p.name = none → positionalName i ∉ m.declaredNames) ∧
      m.declaredNames.Pairwise fun s t => ¬Text.Alike s t := by
  rw [writtenNames, nodup_mapIdx_iff, declaredNames, List.pairwise_filterMap, pairwise_iff_getElem?]
  constructor
  · intro h
    constructor
    · intro i p hp hnone hmem
      obtain ⟨q, hq, hname⟩ := List.mem_filterMap.1 hmem
      obtain ⟨j, hj⟩ := List.mem_iff_getElem?.1 hq
      rcases Nat.lt_trichotomy i j with hij | rfl | hji
      · exact h i j p q hij hp hj
          ((ParamDecl.writtenName_eq_iff hij.ne).2 (.inr (.inl ⟨hnone, hname⟩)))
      · rw [hp] at hj
        obtain rfl := Option.some.inj hj
        rw [hnone] at hname
        cases hname
      · exact h j i q p hji hj hp
          ((ParamDecl.writtenName_eq_iff hji.ne).2 (.inr (.inr ⟨hnone, hname⟩)))
    · intro i j p q hij hp hq s hs t ht halike
      exact h i j p q hij hp hq
        ((ParamDecl.writtenName_eq_iff hij.ne).2 (.inl ⟨s, t, hs, ht, halike⟩))
  · rintro ⟨hplace, hdeclared⟩ i j p q hij hp hq h
    rcases (ParamDecl.writtenName_eq_iff hij.ne).1 h with
      ⟨s, t, hs, ht, halike⟩ | ⟨hnone, hname⟩ | ⟨hnone, hname⟩
    · exact hdeclared i j p q hij hp hq s hs t ht halike
    · exact hplace i p hp hnone (List.mem_filterMap.2 ⟨q, List.mem_iff_getElem?.2 ⟨j, hq⟩, hname⟩)
    · exact hplace j q hq hnone (List.mem_filterMap.2 ⟨p, List.mem_iff_getElem?.2 ⟨i, hp⟩, hname⟩)

end MethodDecl

/-! ## Parameter lists -/

/-- Parameters between their parentheses, from the names and the types that are written. -/
def parameterList (names types : List String) : String :=
  String.intercalate ", " (List.zipWith (fun name type => name ++ ": " ++ type) names types)

theorem TargetType.renderParams_eq (ps : List (String × TargetType)) :
    renderParams ps =
      parameterList (ps.map fun p => Text.parameterName p.1) (ps.map fun p => p.2.render) := by
  induction ps with
  | nil => rfl
  | cons p rest ih =>
    obtain ⟨n, t⟩ := p
    cases rest with
    | nil => exact String.intercalate_singleton.symm
    | cons q rest =>
      simp only [parameterList, List.map_cons, List.zipWith_cons_cons] at ih ⊢
      rw [renderParams, ih, String.intercalate_cons_cons]

/-- The parameters of a method, with types for them. -/
theorem MethodDecl.renderParams_zip (m : MethodDecl) {types : List TargetType}
    (h : types.length = m.params.length) :
    TargetType.renderParams ((m.params.mapIdx parameterName).zip types) =
      parameterList m.writtenNames (types.map TargetType.render) := by
  have hwritten : m.writtenNames = (m.params.mapIdx parameterName).map Text.parameterName := by
    refine List.ext_getElem? fun i => ?_
    simp only [writtenNames, List.getElem?_mapIdx, List.getElem?_map, Option.map_map]
    rfl
  have hnames : ((m.params.mapIdx parameterName).zip types).map Prod.fst =
      m.params.mapIdx parameterName :=
    List.map_fst_zip (by simp [h])
  have htypes : ((m.params.mapIdx parameterName).zip types).map Prod.snd = types :=
    List.map_snd_zip (by simp [h])
  calc
    TargetType.renderParams ((m.params.mapIdx parameterName).zip types)
      = parameterList
          ((((m.params.mapIdx parameterName).zip types).map Prod.fst).map Text.parameterName)
          ((((m.params.mapIdx parameterName).zip types).map Prod.snd).map TargetType.render) := by
        rw [TargetType.renderParams_eq, List.map_map, List.map_map]
        rfl
    _ = parameterList m.writtenNames (types.map TargetType.render) := by
      rw [hnames, htypes, hwritten]

/-! ## Members and function types -/

namespace Setup

/-- The line of a method that is no override text shows all its parameters. -/
theorem Members.line_methodOf (m : MethodDecl) {params : List TargetType} {result : TargetType}
    (hlength : params.length = m.params.length) (hwritten : result.isVerbatim = false)
    (comments : List String) :
    { methodOf m params result with comments }.line =
      (if m.kind == .static then "static " else "") ++ m.name ++ optionalMark
      (m.kind == .default) ++ "(" ++ parameterList m.writtenNames (params.map TargetType.render) ++
        "): " ++ result.render ++ ";\n" := by
  have hresult : { methodOf m params result with comments }.result.isVerbatim = false := hwritten
  rw [Method.line_eq, memberLine_of_not_isVerbatim hresult]
  simp only [methodOf, m.renderParams_zip hlength]
  rfl

variable {s : Setup} {source : HostType} {site : Site} {part : Members}

/-- A method of a declaration is that of a declared one. -/
theorem Brings.line_method (h : s.Brings source site part) :
    ∀ x ∈ part.methods, x.result.isVerbatim = false →
    ∃ d m types, site = .method d m ∧ types.length = m.params.length ∧
      x.line = (if m.kind == .static then "static " else "") ++ m.name ++
        optionalMark (m.kind == .default) ++ "(" ++ parameterList m.writtenNames types ++ "): " ++
          x.result.render ++ ";\n" := by
  intro x hx hshown
  cases h with
  | type => cases hx
  | field htype => cases hx
  | @method d m params result comments discovered hresult hwritten hparams =>
    obtain rfl := List.mem_singleton.1 hx
    exact ⟨d, m, params.map TargetType.render, rfl, by rw [List.length_map, hparams.length_eq],
      Members.line_methodOf m hparams.length_eq.symm hwritten comments⟩
  | replaced hresult hverbatim =>
    obtain rfl := List.mem_singleton.1 hx
    cases hverbatim.symm.trans hshown
  | constructor hresult hverbatim =>
    obtain rfl := List.mem_singleton.1 hx
    cases hverbatim.symm.trans hshown
  | silent hresult hsilent => cases hx

end Setup

theorem length_of_allOrAny {resolve : Resolver} {ctx : Context} {types : List HostType}
    {table last : SymbolTable} {rs : List Resolution}
    (h : (resolve.allOrAny ctx types).run table = (.ok rs, last)) : rs.length = types.length := by
  induction types generalizing table last rs with
  | nil =>
    cases (eq_of_run_pure h).1
    rfl
  | cons type rest ih =>
    obtain ⟨first, _, -, h⟩ := exists_of_run_bind h
    obtain ⟨others, _, hrest, h⟩ := exists_of_run_bind h
    cases (eq_of_run_pure h).1
    rw [List.length_cons, List.length_cons, ih hrest]

namespace Functional

variable {mode : FunctionalMode} {nested : Resolver} {ctx : Context} {type : HostType}
  {table last : SymbolTable}
variable {r : Resolution}

/-- A function type is made of the open method of an eligible interface, with a type for each
parameter. -/
theorem of_processor
    (h : ((processor mode).process nested ctx type).run table = (.ok (some r), last)) :
    ∃ d m inherited params result, eligible? mode ctx.host type = some d ∧
      singleOpenMethod ctx.host d = some (m, inherited) ∧ params.length = m.params.length ∧
      r = functionType m params result := by
  unfold processor synthesize at h
  dsimp only at h
  split at h
  · exact absurd (eq_of_run_pure h).1 nofun
  · next d heligible =>
    split at h
    · exact absurd (eq_of_run_pure h).1 nofun
    · split at h
      · exact absurd (eq_of_run_pure h).1 nofun
      · next m inherited hopen =>
        obtain ⟨params, _, hparams, h⟩ := exists_of_run_bind h
        obtain ⟨result, _, -, h⟩ := exists_of_run_bind h
        have hlength := (length_of_allOrAny hparams).trans (List.length_map ..)
        exact ⟨d, m, inherited, params, result, heligible, hopen, hlength,
          Option.some.inj (eq_of_run_pure h).1⟩

/-- It shows all parameters of that method. -/
theorem render_of_processor
    (h : ((processor mode).process nested ctx type).run table = (.ok (some r), last)) :
    ∃ d m inherited types result, eligible? mode ctx.host type = some d ∧
      singleOpenMethod ctx.host d = some (m, inherited) ∧ types.length = m.params.length ∧
      r.type.render = "(" ++ parameterList m.writtenNames types ++ ") => " ++ result := by
  obtain ⟨d, m, inherited, params, result, heligible, hopen, hlength, rfl⟩ := of_processor h
  have htypes : (params.map (·.type)).length = m.params.length := (List.length_map ..).trans hlength
  refine ⟨d, m, inherited, (params.map (·.type)).map TargetType.render, result.type.render,
    heligible, hopen, (List.length_map ..).trans htypes, ?_⟩
  rw [← m.renderParams_zip htypes]
  rfl

end Functional

/-- **Where parameter names collide.**  Every method of a bean that is no override text, and every
function type, shows the written names of the parameters of one declared method, whatever
processors, claimants and selection are plugged in.  These are distinct if and only if no declared
name stands for the place of a parameter without a name and no two of them are written alike. -/
theorem parameter_names_distinct (settings : Settings) (chain : Chain) (claimants : List Claimant)
    (selection : Selection) (budget : Budget) (u : Universe) (roots : List HostType) :
    (∀ m : MethodDecl, m.writtenNames.Nodup ↔
      (∀ i p, m.params[i]? = some p → p.name = none → positionalName i ∉ m.declaredNames) ∧
        m.declaredNames.Pairwise fun s t => ¬Text.Alike s t) ∧
    (∀ model,
      ({ settings, chain, claimants, selection } : Generator).model budget u roots = .ok model →
      ∀ b ∈ model.beans, ∃ c, b.source = .named c.name ∧ u.get? c.name = some c ∧
        ∀ x ∈ b.methods, x.result.isVerbatim = false →
          ∃ d m types, Site.method d m ∈ selection settings c ∧ types.length = m.params.length ∧
            x.line = (if m.kind == .static then "static " else "") ++ m.name ++
              optionalMark (m.kind == .default) ++ "(" ++ parameterList m.writtenNames types ++
                "): " ++ x.result.render ++ ";\n") ∧
    ∀ (mode : FunctionalMode) (nested : Resolver) (ctx : Context) (type : HostType)
      (table last : SymbolTable) (r : Resolution),
      ((processor mode).process nested ctx type).run table = (.ok (some r), last) →
      ∃ d m inherited types result, eligible? mode ctx.host type = some d ∧
        singleOpenMethod ctx.host d = some (m, inherited) ∧ types.length = m.params.length ∧
        r.type.render = "(" ++ parameterList m.writtenNames types ++ ") => " ++ result := by
  refine ⟨MethodDecl.nodup_writtenNames_iff, fun model hmodel b hb => ?_,
    fun mode nested ctx type table last r h => render_of_processor h⟩
  obtain ⟨c, hsource, hget, parts, hparts, -, hmethods⟩ := Generator.declares_of_model hmodel b hb
  refine ⟨c, hsource, hget, fun x hx hshown => ?_⟩
  rw [hmethods] at hx
  obtain ⟨part, hpart, hx⟩ := List.mem_flatMap.1 hx
  obtain ⟨site, hsite, hbrings⟩ := exists_mem_of_forall₂ hparts hpart
  obtain ⟨d, m, types, rfl, hlength, hline⟩ := hbrings.line_method x hx hshown
  exact ⟨d, m, types, hsite, hlength, hline⟩

/-- A method with two names that differ in letters that no identifier has, and a listener whose
second parameter has no name while its first is called by the place of the second. -/
def likeNames : Universe :=
  ⟨[{ name := "A", fields := [{ name := "listener", type := .named "Listener" }],
      methods :=
        [{ name := "move",
           params := [⟨some "größe", .primitive .int⟩, ⟨some "grüße", .primitive .int⟩] }] },
    { name := "Listener", kind := .interface,
      methods :=
        [{ name := "on", params := [⟨some "arg1", .primitive .string⟩, ⟨none, .primitive .int⟩],
                    kind := .abstract }] }], {}⟩

/-- Distinct names are not enough: two of them are written alike in the one signature, and a name
meets a place in the other. -/
theorem not_all_parameter_names_distinct :
    (¬∀ m : MethodDecl, m.declaredNames.Nodup → m.writtenNames.Nodup) ∧
    (∀ d ∈ likeNames.classes, ∀ m ∈ d.methods, m.declaredNames.Nodup ∧ ¬m.writtenNames.Nodup) ∧
    (generate { emitOtherMethods := true } likeNames [.named "A"]).toOption =
      some ("\ninterface A \x7b\n    listener: (arg1: string, arg1: number) => void;\n\n"
        ++ "    move(gr__e: number, gr__e: number): void;\n\x7d\n") := by
  have hlike : ∀ d ∈ likeNames.classes, ∀ m ∈ d.methods, m.declaredNames.Nodup ∧
      ¬m.writtenNames.Nodup := by
    decide +kernel
  refine ⟨fun hall => ?_, hlike, by decide +kernel⟩
  obtain ⟨hdeclared, hwritten⟩ := hlike _ List.mem_cons_self _ List.mem_cons_self
  exact hwritten (hall _ hdeclared)

end TypeBridge
