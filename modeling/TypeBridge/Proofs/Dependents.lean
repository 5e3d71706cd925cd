import TypeBridge.Proofs.Discovery
import TypeBridge.Proofs.Locality

/-!
# Dependents

A resolution carries the types that need declarations because of it, apart from the target type.
Outside any override they are the references of that type, neither more nor fewer:
`dependents_eq_references` reads the type in preorder and puts for each symbol the class it was
issued for.

Both come from one outline, so the equation is one about outlines: the symbols of a realized outline
are those of its dependents, in order (`symbols_realize`).
-/

namespace TypeBridge

namespace TargetType

theorem symbolsOfList_eq_flatMap (ts : List TargetType) :
    symbolsOfList ts = ts.flatMap symbols := by
  induction ts with
  | nil => rfl
  | cons t rest ih => rw [symbolsOfList, List.flatMap_cons, ih]

theorem symbolsOfParams_eq_flatMap (ps : List (String × TargetType)) :
    symbolsOfParams ps = ps.flatMap fun p => p.2.symbols := by
  induction ps with
  | nil => rfl
  | cons p rest ih => rw [symbolsOfParams, List.flatMap_cons, ih]

end TargetType

namespace Outline

/-- The references of a realized outline carry the symbols of its dependents. -/
theorem symbols_realize (table : SymbolTable) (o : Outline) :
    (o.realize table).symbols = o.dependents.map fun t => (table.symbol t).1 := by
  induction o using nestedInduction with
  | primitive k => rfl
  | typeVar n => rfl
  | array e ih => exact ih
  | record v ih => exact ih
  | reference n args ih =>
    have hargs : args.flatMap (fun a => (a.realize table).symbols) =
        (args.flatMap dependents).map fun t => (table.symbol t).1 := by
      rw [List.map_flatMap]
      exact List.flatMap_congr ih
    rw [realize_reference, TargetType.symbols, TargetType.symbolsOfList_eq_flatMap,
      List.flatMap_map, dependents_reference, List.map_cons, hargs]
  | function params result ihp ihr =>
    have hparams : params.flatMap (fun p => (p.2.realize table).symbols) =
        (params.flatMap fun p => p.2.dependents).map fun t => (table.symbol t).1 := by
      rw [List.map_flatMap]
      exact List.flatMap_congr ihp
    rw [realize, realizeParams_eq_map, TargetType.symbols, TargetType.symbolsOfParams_eq_flatMap,
      List.flatMap_map, dependents_params, List.map_append, ihr, ← hparams]
    rfl

end Outline

/-- **Dependents are exactly the references.**  A resolution by the standard chain for a declaration
without tags or for none, whatever is in progress, has an answer; what it reports as dependents are
the classes that the references of the answered type were issued for, in the order in which the type
is read and with all repetitions, and every one of them is a bare class that the universe declares
and the library does not have. -/
theorem dependents_eq_references (mode : FunctionalMode) (type : HostType) {ctx : Context}
    (hctx : ctx.Untagged) {table : SymbolTable} (htable : table.WF) {depth : Nat}
    (hdepth : Nat.pow (HostType.sizeAll (type :: ctx.host.writtenTypes) + 1) 2 ≤ depth) :
    ∃ r later, ((Chain.standard mode).resolver depth ctx type).run table = (.ok (some r), later) ∧
      r.type.symbols.map later.typeOf? = r.dependents.map some ∧
      ∀ t ∈ r.dependents, ∃ name, t = .named name ∧ ctx.host.contains name = true ∧
        Structural.isBuiltin t = false := by
  have hrun := run_resolver_of_untagged mode hctx hdepth table
  refine ⟨_, _, hrun, ?_, fun t ht => ?_⟩
  · generalize outline mode ctx.host ctx.inProgress type = o
    have hknown : o.dependents ⊆ (table.issueAll o.dependents).types :=
      SymbolTable.subset_types_issueAll ..
    simp only [Outline.resolution, Outline.symbols_realize, List.map_map]
    exact List.map_congr_left fun t ht => (htable.issueAll _).typeOf?_symbol (hknown ht)
  · obtain ⟨name, hname, rfl⟩ := List.mem_map.1 ht
    obtain ⟨hlibrary, hcontains⟩ := mem_classes_outline hname
    refine ⟨name, rfl, hcontains, ?_⟩
    simp only [Structural.isBuiltin, HostType.rawName?, hlibrary, Option.isSome_none]

/-- A generic class, and a functional interface that gives it out. -/
def pages : Universe :=
  .ofClasses
    [{ name := "Item" }, { name := "Page", typeParams := ["T"] },
      { name := "Source", kind := .interface, typeParams := ["T"],
        methods :=
          [{ name := "next", params := [{ type := .named "T" }],
             returnType := .generic "Page" [.named "T"], kind := .abstract }] }]

/-- Keys of maps and the arguments of unknown classes are not written, so they are no dependents
either. -/
theorem dependents_eq_references_pages :
    let type : HostType := .generic "Map"
      [.named "Source",
        .generic "Page" [.generic "Source" [.named "Item"], .generic "Unknown" [.named "Item"]]]
    let ctx : Context := { host := pages, settings := {}, inProgress := [.named "Source"] }
    let taken : SymbolTable := (SymbolTable.empty.symbol (.named "q.Item")).2
    ∃ r later,
      ((Chain.standard .structural).resolver 200 ctx type).run taken = (.ok (some r), later) ∧
      r.type.symbols.map later.typeOf? = r.dependents.map some ∧
      ∀ t ∈ r.dependents, ∃ name, t = .named name ∧ pages.contains name = true ∧
        Structural.isBuiltin t = false := by
  intro type ctx taken
  have hctx : ctx.Untagged := fun _ hsite => nomatch hsite
  exact dependents_eq_references .structural type hctx (SymbolTable.WF.empty.symbol _) (by decide)

end TypeBridge
