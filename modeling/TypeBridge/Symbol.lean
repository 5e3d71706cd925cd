import TypeBridge.Host.Type

/-!
# Symbols

A `SymbolTable` gives every host type one symbol, on the first request for it.  The identifiers
count the requests that created a symbol, and names are unique: a type whose own name is taken gets
the least number from two on behind it that is free.

`SymbolTable.WF` is the invariant: types and names are issued once, and a symbol's identifier is its
place.  The empty table has it and `symbol` keeps it.
-/

namespace TypeBridge

structure Symbol where
  id : Nat
  name : String
deriving DecidableEq, Repr

/-- The symbols issued so far, oldest first. -/
structure SymbolTable where
  issued : List (HostType × Symbol) := []

namespace SymbolTable

def empty : SymbolTable := {}

def size (table : SymbolTable) : Nat :=
  table.issued.length

def isEmpty (table : SymbolTable) : Bool :=
  table.issued.isEmpty

def types (table : SymbolTable) : List HostType :=
  table.issued.map (·.1)

def names (table : SymbolTable) : List String :=
  table.issued.map (·.2.name)

/-- The symbol of a type that has one. -/
def get? (table : SymbolTable) (type : HostType) : Option Symbol :=
  table.issued.lookup type

/-- A base name and the same with the numbers 2 to `n + 1` behind it. -/
def candidates (base : String) (n : Nat) : List String :=
  base :: (List.range' 2 n).map fun k => base ++ toString k

/-- The first candidate that is not taken.  There are more candidates than names taken, and no two
are equal, so one is free. -/
def freshName (taken : List String) (base : String) : String :=
  ((candidates base taken.length).find? fun name => !taken.contains name).getD base

/-- The symbol of a type, issued now if it has none. -/
def symbol (table : SymbolTable) (type : HostType) : Symbol × SymbolTable :=
  match table.get? type with
  | some known => (known, table)
  | none =>
    let issued : Symbol := ⟨table.size, freshName table.names type.symbolBase⟩
    (issued, ⟨table.issued ++ [(type, issued)]⟩)

/-! ## Fresh names -/

theorem nodup_append_singleton {α : Type} {xs : List α} {x : α} (h : xs.Nodup) (hx : x ∉ xs) :
    (xs ++ [x]).Nodup := by
  refine List.nodup_append.2 ⟨h, by simp, fun a ha b hb hab => hx ?_⟩
  rw [List.mem_singleton] at hb
  exact hb ▸ hab ▸ ha

theorem eq_of_toString_eq {m n : Nat} (h : toString m = toString n) : m = n := by
  have digits : Nat.toDigits 10 m = Nat.toDigits 10 n := String.ofList_injective h
  have value := congrArg (Nat.ofDigitChars 10 · 0) digits
  simpa [Nat.ofDigitChars_toDigits] using value

theorem length_candidates (base : String) (n : Nat) : (candidates base n).length = n + 1 := by
  simp [candidates]

theorem nodup_numbered (base : String) (first n : Nat) :
    ((List.range' first n).map fun k => base ++ toString k).Nodup := by
  refine List.Pairwise.map _ (fun j k hjk h => hjk ?_) (List.nodup_range' 1)
  exact eq_of_toString_eq (by simpa using h)

theorem nodup_candidates (base : String) (n : Nat) : (candidates base n).Nodup := by
  refine List.nodup_cons.2 ⟨fun h => ?_, nodup_numbered base 2 n⟩
  obtain ⟨k, -, hk⟩ := List.mem_map.1 h
  simp at hk

/-- The pigeonhole principle: more distinct names than there are taken ones leave one free. -/
theorem exists_free_of_length_lt {names taken : List String} (hnodup : names.Nodup)
    (hlength : taken.length < names.length) : ∃ name ∈ names, name ∉ taken := by
  refine Classical.byContradiction fun h => ?_
  have hsub : names ⊆ taken := fun name hname =>
    Classical.byContradiction fun hfree => h ⟨name, hname, hfree⟩
  have hle := hnodup.length_le_of_subset hsub
  omega

theorem exists_candidate_free (taken : List String) (base : String) :
    ∃ name ∈ candidates base taken.length, name ∉ taken := by
  have hlength : taken.length < (candidates base taken.length).length := by
    rw [length_candidates]
    exact Nat.lt_succ_self _
  exact exists_free_of_length_lt (nodup_candidates base taken.length) hlength

theorem freshName_notMem (taken : List String) (base : String) : freshName taken base ∉ taken := by
  unfold freshName
  cases h : (candidates base taken.length).find? fun name => !taken.contains name with
  | some name => simpa using List.find?_some h
  | none =>
    obtain ⟨name, hn, hf⟩ := exists_candidate_free taken base
    exact absurd (List.find?_eq_none.1 h name hn) (by simp [hf])

theorem freshName_of_notMem {taken : List String} {base : String} (h : base ∉ taken) :
    freshName taken base = base := by
  have hfree : (!taken.contains base) = true := by simpa using h
  unfold freshName candidates
  rw [List.find?_cons, hfree]
  rfl

/-! ## Well-formed tables -/

structure WF (table : SymbolTable) : Prop where
  types_nodup : table.types.Nodup
  names_nodup : table.names.Nodup
  ids_eq : table.issued.map (·.2.id) = List.range table.size

namespace WF

theorem empty : WF empty :=
  ⟨List.nodup_nil, List.nodup_nil, rfl⟩

end WF

theorem notMem_types_of_get? {table : SymbolTable} {type : HostType} (h : table.get? type = none) :
    type ∉ table.types := fun hm => by
  obtain ⟨e, he, rfl⟩ := List.mem_map.1 hm
  exact absurd (List.lookup_eq_none_iff.1 h e he) (by simp)

theorem WF.symbol {table : SymbolTable} (h : WF table) (type : HostType) :
    WF (table.symbol type).2 := by
  unfold SymbolTable.symbol
  cases hg : table.get? type with
  | some known => exact h
  | none =>
    refine ⟨?_, ?_, ?_⟩
    · simpa [types] using nodup_append_singleton h.types_nodup (notMem_types_of_get? hg)
    · simpa [names] using
        nodup_append_singleton h.names_nodup (freshName_notMem table.names type.symbolBase)
    · simpa [size, List.range_succ] using h.ids_eq

end SymbolTable

end TypeBridge
