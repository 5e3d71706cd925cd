import Mathlib.Data.List.Nodup
import TypeBridge.Proofs.References
import TypeBridge.Proofs.Termination

/-!
# Resolution is local

A resolution outside any override answers the outline of its type, and issues symbols for the
classes of the outline.  The outline is a matter of the universe, the mode, the type and the
interfaces in progress; the table that the resolution starts from only decides what the symbols are.

`TargetType.outline?` reads an outline back, by putting for each symbol the class it was issued for.
Two resolutions of one type, for two declarations without overrides and from any two tables, are the
same when read back (`resolution_local`).
-/

namespace TypeBridge

/-! ## Symbols read back -/

namespace SymbolTable

/-- The type that a symbol was issued for. -/
def typeOf? (table : SymbolTable) (symbol : Symbol) : Option HostType :=
  (table.issued.find? fun e => e.2 == symbol).map (·.1)

theorem WF.typeOf?_symbol {table : SymbolTable} (h : WF table) {type : HostType}
    (hm : type ∈ table.types) : table.typeOf? (table.symbol type).1 = some type := by
  have hmem := mem_issued_symbol hm
  unfold typeOf?
  cases hfind : table.issued.find? fun e => e.2 == (table.symbol type).1 with
  | none => exact absurd (List.find?_eq_none.1 hfind _ hmem) (by simp)
  | some entry =>
    have hsymbol : entry.2 = (table.symbol type).1 := by simpa using List.find?_some hfind
    have hentry : entry = (type, (table.symbol type).1) :=
      List.inj_on_of_nodup_map h.ids_nodup (List.mem_of_find?_eq_some hfind) hmem
        (congrArg Symbol.id hsymbol)
    rw [hentry]
    rfl

end SymbolTable

namespace TargetType

mutual

/-- The type with the class that each symbol was issued for in its place.  There is none for
override text, or for a symbol that was not issued for a bare class. -/
def outline? (table : SymbolTable) : TargetType → Option Outline
  | .primitive k => some (.primitive k)
  | .array e => (outline? table e).map .array
  | .record v => (outline? table v).map .record
  | .reference symbol args =>
    match table.typeOf? symbol with
    | some (.named name) => (outlines? table args).map (.reference name)
    | _ => none
  | .typeVar n => some (.typeVar n)
  | .function params result =>
    match outlineParams? table params with
    | some os => (outline? table result).map (.function os)
    | none => none
  | .verbatim _ => none

def outlines? (table : SymbolTable) : List TargetType → Option (List Outline)
  | [] => some []
  | t :: rest =>
    match outline? table t with
    | some o => (outlines? table rest).map (o :: ·)
    | none => none

def outlineParams? (table : SymbolTable) :
    List (String × TargetType) → Option (List (String × Outline))
  | [] => some []
  | (n, t) :: rest =>
    match outline? table t with
    | some o => (outlineParams? table rest).map ((n, o) :: ·)
    | none => none

end

variable {table : SymbolTable}

theorem outlines?_realize {os : List Outline}
    (h : ∀ o ∈ os, outline? table (o.realize table) = some o) :
    outlines? table (os.map (Outline.realize table)) = some os := by
  induction os with
  | nil => rfl
  | cons o rest ih =>
    rw [List.map_cons, outlines?, h o List.mem_cons_self]
    exact congrArg (Option.map (o :: ·)) (ih fun o' ho' => h o' (List.mem_cons_of_mem o ho'))

theorem outlineParams?_realize {ps : List (String × Outline)}
    (h : ∀ p ∈ ps, outline? table (p.2.realize table) = some p.2) :
    outlineParams? table (ps.map (Prod.map id (Outline.realize table))) = some ps := by
  induction ps with
  | nil => rfl
  | cons p rest ih =>
    rw [List.map_cons, Prod.map, outlineParams?, h p List.mem_cons_self]
    exact congrArg (Option.map (p :: ·)) (ih fun p' hp' => h p' (List.mem_cons_of_mem p hp'))

/-- An outline with the symbols of a table put in reads back as itself. -/
theorem outline?_realize (hwf : table.WF) {o : Outline} (h : o.dependents ⊆ table.types) :
    outline? table (o.realize table) = some o := by
  induction o using Outline.nestedInduction with
  | primitive k => rfl
  | typeVar n => rfl
  | array e ih => exact congrArg (Option.map Outline.array) (ih h)
  | record v ih => exact congrArg (Option.map Outline.record) (ih h)
  | reference n args ih =>
    rw [Outline.dependents_reference] at h
    obtain ⟨hname, hargs⟩ := List.cons_subset.1 h
    have hall : outlines? table (args.map (Outline.realize table)) = some args :=
      outlines?_realize fun a ha => ih a ha fun t ht => hargs (List.mem_flatMap.2 ⟨a, ha, ht⟩)
    rw [Outline.realize_reference, outline?, hwf.typeOf?_symbol hname, hall]
    rfl
  | function params result ihp ihr =>
    rw [Outline.dependents_params] at h
    obtain ⟨hparams, hresult⟩ := List.append_subset.1 h
    have hall :
        outlineParams? table (params.map (Prod.map id (Outline.realize table))) = some params :=
      outlineParams?_realize fun p hp => ihp p hp fun t ht =>
        hparams (List.mem_flatMap.2 ⟨p, hp, ht⟩)
    rw [Outline.realize, Outline.realizeParams_eq_map, outline?, hall, ihr hresult]
    rfl

end TargetType

/-! ## Resolutions without an override -/

/-- A resolution outside any override, on a resolver that is deep enough. -/
theorem run_resolver_of_untagged (mode : FunctionalMode) {ctx : Context}
    (h : ctx.Untagged) {type : HostType} {depth : Nat}
    (hdepth : Nat.pow (HostType.sizeAll (type :: ctx.host.writtenTypes) + 1) 2 ≤ depth)
    (table : SymbolTable) :
    ((Chain.standard mode).resolver depth ctx type).run table =
      (.ok (some ((outline mode ctx.host ctx.inProgress type).resolution
          (table.issueAll (outline mode ctx.host ctx.inProgress type).dependents))),
        table.issueAll (outline mode ctx.host ctx.inProgress type).dependents) := by
  have hneed := need_le_square (Nat.le_of_eq (length_flatMap_subterms _)) ctx.inProgress
    (HostType.size_le_sizeAll (List.mem_cons_self (a := type) (l := ctx.host.writtenTypes)))
  have hsquare : Nat.pow (HostType.sizeAll (type :: ctx.host.writtenTypes) + 1) 2 = _ :=
    Nat.pow_two _
  rw [hsquare] at hdepth
  have hfollows : Resolving.Follows ((Chain.standard mode).resolver depth ctx type)
      ((answer mode ctx type).map fun a => a.script.map some) :=
    follows_resolver depth ctx type (arena_arenaOf type) (mem_arenaOf type)
      (Nat.le_trans hneed hdepth)
  rw [answer_of_untagged h] at hfollows
  exact hfollows table

/-- The answer for the use of an interface that is opened: the names of the parameters, and what the
chain answers inside the use for the types of the signature. -/
theorem run_resolver_of_opened {mode : FunctionalMode} {ctx : Context}
    (h : ctx.Untagged) {type : HostType} {o : Functional.Opened}
    (ho : Functional.opened? mode ctx.host ctx.inProgress type = some o) {depth : Nat}
    (hdepth : Nat.pow (HostType.sizeAll (type :: ctx.host.writtenTypes) + 1) 2 ≤ depth)
    (table : SymbolTable) :
    let inner := { ctx with inProgress := type :: ctx.inProgress }
    ∃ r params result later,
      ((Chain.standard mode).resolver depth ctx type).run table = (.ok (some r), later) ∧
      r.type = .function params result ∧
      params.map (·.1) = o.method.params.mapIdx Functional.parameterName ∧
      List.Forall₂ (ChainAnswers mode inner later) o.paramTypes (params.map (·.2)) ∧
      ChainAnswers mode inner later o.resultType result := by
  intro inner
  have hinner : inner.Untagged := h
  let nested := outline mode ctx.host (type :: ctx.inProgress)
  have hrun := run_resolver_of_untagged mode h hdepth table
  have hknown :=
    SymbolTable.subset_types_issueAll table (outline mode ctx.host ctx.inProgress type).dependents
  generalize table.issueAll (outline mode ctx.host ctx.inProgress type).dependents =
    later at hrun hknown
  have htype : (outline mode ctx.host ctx.inProgress type).realize later =
      .function
        ((o.method.params.mapIdx Functional.parameterName).zip
          ((o.paramTypes.map nested).map (Outline.realize later)))
        ((nested o.resultType).realize later) := by
    rw [outline_of_opened ho]
    exact Outline.realize_function ..
  have hlength : (o.method.params.mapIdx Functional.parameterName).length =
      ((o.paramTypes.map nested).map (Outline.realize later)).length := by
    simpa using length_parameterNames o nested
  have hnested : ∀ t ∈ o.paramTypes ++ [o.resultType],
      ChainAnswers mode inner later t ((nested t).realize later) := by
    intro t ht
    have hclasses := classes_subset_of_call (mem_calls_of_opened ho ht)
    exact chainAnswers_of_untagged hinner (List.Subset.trans (List.map_subset _ hclasses) hknown)
  refine ⟨_, _, _, later, hrun, htype, List.map_fst_zip hlength.le, ?_,
    hnested o.resultType (by simp)⟩
  rw [List.map_snd_zip hlength.ge, List.map_map, List.forall₂_map_right_iff, List.forall₂_same]
  exact fun t ht => hnested t (List.mem_append_left _ ht)

/-- **Resolution is local to the use site.**  Whatever the universe, the mode and the type: two
resolutions by the standard chain with the same interfaces in progress, each for a declaration
without tags or for none, and each on a table of its own, both give an answer, only add to their
tables, report the same dependents, and answer the same type once each symbol is read as the class
it was issued for. -/
theorem resolution_local (mode : FunctionalMode) (type : HostType) {ctx ctx' : Context}
    (hctx : ctx.Untagged) (hctx' : ctx'.Untagged) (hhost : ctx'.host = ctx.host)
    (hstack : ctx'.inProgress = ctx.inProgress) {table table' : SymbolTable} (htable : table.WF)
    (htable' : table'.WF) {depth depth' : Nat}
    (hdepth : Nat.pow (HostType.sizeAll (type :: ctx.host.writtenTypes) + 1) 2 ≤ depth)
    (hdepth' : Nat.pow (HostType.sizeAll (type :: ctx.host.writtenTypes) + 1) 2 ≤ depth') :
    ∃ r r' later later',
      ((Chain.standard mode).resolver depth ctx type).run table = (.ok (some r), later) ∧
      ((Chain.standard mode).resolver depth' ctx' type).run table' = (.ok (some r'), later') ∧
      table.Grows later ∧ table'.Grows later' ∧ r'.dependents = r.dependents ∧
      ∃ o, r.type.outline? later = some o ∧ r'.type.outline? later' = some o := by
  have hrun := run_resolver_of_untagged mode hctx hdepth table
  have hrun' := run_resolver_of_untagged mode hctx' (hhost ▸ hdepth') table'
  rw [hhost, hstack] at hrun'
  generalize outline mode ctx.host ctx.inProgress type = o at hrun hrun'
  refine ⟨_, _, _, _, hrun, hrun', SymbolTable.grows_issueAll .., SymbolTable.grows_issueAll ..,
    rfl, o, ?_, ?_⟩
  · exact TargetType.outline?_realize (htable.issueAll _) (SymbolTable.subset_types_issueAll ..)
  · exact TargetType.outline?_realize (htable'.issueAll _) (SymbolTable.subset_types_issueAll ..)

/-- A functional interface `F` whose method returns a class `p.A`. -/
def supplier : Universe :=
  ⟨[{ name := "F", kind := .interface,
      methods := [{ name := "get", returnType := .named "p.A", kind := .abstract }] },
    { name := "p.A", fields := [{ name := "f", type := .named "F" }] }], {}⟩

/-- At a field, after another class has taken the name `A`, the interface resolves as it does on its
own. -/
theorem resolution_local_supplier :
    let apart : Context := { host := supplier, settings := {} }
    let site : Site := .field { name := "p.A" } { name := "f", type := .named "F" }
    let atField : Context := { apart with site := some site }
    let taken : SymbolTable := (SymbolTable.empty.symbol (.named "q.A")).2
    ∃ r r' later later',
      ((Chain.standard .structural).resolver 100 apart (.named "F")).run .empty =
        (.ok (some r), later) ∧
      ((Chain.standard .structural).resolver 200 atField (.named "F")).run taken =
        (.ok (some r'), later') ∧
      SymbolTable.empty.Grows later ∧ taken.Grows later' ∧ r'.dependents = r.dependents ∧
      ∃ o, r.type.outline? later = some o ∧ r'.type.outline? later' = some o := by
  intro apart site atField taken
  have hapart : apart.Untagged := fun _ hsite => nomatch hsite
  have hfield : atField.Untagged := fun _ hsite => by
    cases hsite
    rfl
  have hdepth : Nat.pow (HostType.sizeAll (.named "F" :: supplier.writtenTypes) + 1) 2 ≤ 100 := by
    decide
  exact resolution_local .structural (.named "F") hapart hfield rfl rfl SymbolTable.WF.empty
    (SymbolTable.WF.empty.symbol _) hdepth (Nat.le_trans hdepth (by decide))

end TypeBridge
