import TypeBridge.Symbol

/-!
# Tables grow

A run only adds to its symbol table.  `Grows table later` is that order; a type that has a symbol
keeps it in every later table (`symbol_of_grows`).  `issueAll` is the table behind a list of
requests: its types are the first occurrences among the requests (`types_issueAll`), and requests
for types that are known already change nothing (`issueAll_of_subset`).
-/

namespace TypeBridge

/-! ## First occurrences -/

theorem eraseDups_append_congr {xs ys : List HostType} (h : xs.eraseDups = ys.eraseDups)
    (more : List HostType) : (xs ++ more).eraseDups = (ys ++ more).eraseDups := by
  have hmem : ∀ t, t ∈ xs ↔ t ∈ ys := by
    intro t
    rw [← List.mem_eraseDups, h, List.mem_eraseDups]
  have hremove : more.removeAll xs = more.removeAll ys := by
    refine List.filter_congr fun t _ => ?_
    simp [hmem t]
  rw [List.eraseDups_append, List.eraseDups_append, h, hremove]

theorem eraseDups_append_of_subset {xs more : List HostType} (h : more ⊆ xs) :
    (xs ++ more).eraseDups = xs.eraseDups := by
  have hremove : more.removeAll xs = [] := by
    refine List.filter_eq_nil_iff.2 fun t ht => ?_
    simpa using h ht
  rw [List.eraseDups_append, hremove, List.eraseDups_nil, List.append_nil]

theorem eraseDups_of_nodup {xs : List HostType} (h : xs.Nodup) : xs.eraseDups = xs := by
  induction xs with
  | nil => rfl
  | cons x rest ih =>
    obtain ⟨hx, hrest⟩ := List.nodup_cons.1 h
    have hfilter : (rest.filter fun t => !t == x) = rest := by
      refine List.filter_eq_self.2 fun t ht => ?_
      have hne : t ≠ x := fun heq => hx (heq ▸ ht)
      simpa using hne
    rw [List.eraseDups_cons, hfilter, ih hrest]

theorem prefix_eraseDups_append {xs : List HostType} (h : xs.Nodup) (more : List HostType) :
    xs <+: (xs ++ more).eraseDups := by
  rw [List.eraseDups_append, eraseDups_of_nodup h]
  exact List.prefix_append ..

end TypeBridge

namespace TypeBridge.SymbolTable

/-! ## The order of tables -/

/-- Every symbol of `table` is also in `later`, in the same place. -/
def Grows (table later : SymbolTable) : Prop :=
  table.issued <+: later.issued

theorem Grows.refl (table : SymbolTable) : Grows table table :=
  List.prefix_rfl

theorem Grows.trans {table later last : SymbolTable} (h₁ : Grows table later)
    (h₂ : Grows later last) : Grows table last :=
  List.IsPrefix.trans h₁ h₂

theorem Grows.types_subset {table later : SymbolTable} (h : Grows table later) :
    table.types ⊆ later.types :=
  (List.IsPrefix.map Prod.fst h).subset

theorem mem_types_of_get? {table : SymbolTable} {type : HostType} {symbol : Symbol}
    (h : table.get? type = some symbol) : type ∈ table.types := by
  refine Classical.byContradiction fun hn => ?_
  have hnone : table.get? type = none := by
    refine List.lookup_eq_none_iff.2 fun e he => ?_
    have hne : type ≠ e.1 := fun heq => hn (heq ▸ List.mem_map_of_mem he)
    simpa using hne
  rw [hnone] at h
  cases h

theorem exists_get?_of_mem {table : SymbolTable} {type : HostType} (h : type ∈ table.types) :
    ∃ symbol, table.get? type = some symbol := by
  cases hg : table.get? type with
  | some symbol => exact ⟨symbol, rfl⟩
  | none => exact absurd h (notMem_types_of_get? hg)

theorem get?_of_grows {table later : SymbolTable} (h : Grows table later) {type : HostType}
    {symbol : Symbol} (hg : table.get? type = some symbol) : later.get? type = some symbol := by
  obtain ⟨more, hmore⟩ := h
  unfold get? at hg ⊢
  rw [← hmore, List.lookup_append, hg]
  rfl

/-! ## One request -/

theorem symbol_of_get? {table : SymbolTable} {type : HostType} {symbol : Symbol}
    (h : table.get? type = some symbol) : table.symbol type = (symbol, table) := by
  unfold SymbolTable.symbol
  rw [h]

/-- A type with a symbol keeps it, and asking for it again changes nothing. -/
theorem symbol_of_grows {table later : SymbolTable} (h : Grows table later) {type : HostType}
    (hm : type ∈ table.types) : later.symbol type = ((table.symbol type).1, later) := by
  obtain ⟨symbol, hg⟩ := exists_get?_of_mem hm
  rw [symbol_of_get? hg, symbol_of_get? (get?_of_grows h hg)]

theorem grows_symbol (table : SymbolTable) (type : HostType) :
    Grows table (table.symbol type).2 := by
  unfold SymbolTable.symbol
  cases hg : table.get? type with
  | some known => exact Grows.refl table
  | none => exact List.prefix_append ..

theorem mem_types_symbol (table : SymbolTable) (type : HostType) :
    type ∈ (table.symbol type).2.types := by
  unfold SymbolTable.symbol
  cases hg : table.get? type with
  | some known => exact mem_types_of_get? hg
  | none => simp [types]

theorem symbol_symbol (table : SymbolTable) (type : HostType) :
    ((table.symbol type).2.symbol type).1 = (table.symbol type).1 := by
  cases hg : table.get? type with
  | some known => simp [symbol_of_get? hg]
  | none =>
    have hnew : (table.symbol type).2.get? type = some (table.symbol type).1 := by
      have hnone : List.lookup type table.issued = none := hg
      simp [SymbolTable.symbol, get?, List.lookup_append, hnone]
    rw [symbol_of_get? hnew]

theorem mem_issued_symbol {table : SymbolTable} {type : HostType} (h : type ∈ table.types) :
    (type, (table.symbol type).1) ∈ table.issued := by
  obtain ⟨symbol, hget⟩ := exists_get?_of_mem h
  obtain ⟨front, behind, hissued, -⟩ := List.lookup_eq_some_iff.1 hget
  rw [symbol_of_get? hget, hissued]
  exact List.mem_append_right _ List.mem_cons_self

theorem WF.ids_nodup {table : SymbolTable} (h : WF table) : (table.issued.map (·.2.id)).Nodup := by
  rw [h.ids_eq]
  exact List.nodup_range

/-! ## Several requests -/

/-- The table behind requests for several types, in order. -/
def issueAll (table : SymbolTable) (types : List HostType) : SymbolTable :=
  types.foldl (fun table type => (table.symbol type).2) table

theorem issueAll_cons (table : SymbolTable) (type : HostType) (rest : List HostType) :
    table.issueAll (type :: rest) = (table.symbol type).2.issueAll rest := rfl

theorem issueAll_append (table : SymbolTable) (front behind : List HostType) :
    table.issueAll (front ++ behind) = (table.issueAll front).issueAll behind :=
  List.foldl_append

theorem grows_issueAll (table : SymbolTable) (types : List HostType) :
    Grows table (table.issueAll types) := by
  induction types generalizing table with
  | nil => exact Grows.refl table
  | cons type rest ih => exact (grows_symbol table type).trans (ih (table.symbol type).2)

theorem subset_types_issueAll (table : SymbolTable) (types : List HostType) :
    types ⊆ (table.issueAll types).types := by
  induction types generalizing table with
  | nil => exact List.nil_subset _
  | cons type rest ih =>
    have hfirst : type ∈ ((table.symbol type).2.issueAll rest).types :=
      (grows_issueAll _ rest).types_subset (mem_types_symbol table type)
    exact List.cons_subset.2 ⟨hfirst, ih (table.symbol type).2⟩

theorem types_symbol (table : SymbolTable) (type : HostType) :
    (table.symbol type).2.types = if type ∈ table.types then table.types
      else table.types ++ [type] := by
  unfold SymbolTable.symbol
  cases hg : table.get? type with
  | some known => exact (if_pos (mem_types_of_get? hg)).symm
  | none =>
    rw [if_neg (notMem_types_of_get? hg)]
    exact List.map_append

/-- The types of a table are the first occurrences among the requests. -/
theorem types_issueAll {table : SymbolTable} (h : WF table) (requests : List HostType) :
    (table.issueAll requests).types = (table.types ++ requests).eraseDups := by
  induction requests generalizing table with
  | nil => rw [List.append_nil, eraseDups_of_nodup h.types_nodup, issueAll, List.foldl_nil]
  | cons type rest ih =>
    rw [issueAll_cons, ih (h.symbol type), types_symbol, List.append_cons table.types type rest]
    split
    · next hknown =>
      have hsub : [type] ⊆ table.types := List.cons_subset.2 ⟨hknown, List.nil_subset _⟩
      exact eraseDups_append_congr (eraseDups_append_of_subset hsub).symm rest
    · rfl

theorem WF.issueAll {table : SymbolTable} (h : WF table) (types : List HostType) :
    WF (table.issueAll types) := by
  induction types generalizing table with
  | nil => exact h
  | cons type rest ih => exact ih (h.symbol type)

theorem issueAll_of_subset {table : SymbolTable} {types : List HostType} (h : types ⊆ table.types) :
    table.issueAll types = table := by
  induction types with
  | nil => rfl
  | cons type rest ih =>
    obtain ⟨hfirst, hrest⟩ := List.cons_subset.1 h
    rw [issueAll_cons, symbol_of_grows (Grows.refl table) hfirst]
    exact ih hrest

end TypeBridge.SymbolTable
