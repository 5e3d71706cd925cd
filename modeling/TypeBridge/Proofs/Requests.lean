import Mathlib.Data.List.Nodup
import Mathlib.Logic.Relation
import TypeBridge.Proofs.Symbols

/-!
# Requests for symbols

Any sequence of requests on one table.  An answer is the symbol its type has in the table behind all
requests (`answers_eq_map`), so the invariant of that one table says everything about the answers: a
type keeps its symbol, identifiers count the types in the order of their first requests, and no two
types share an identifier or a name (`requests_served`).

A new type's name is told by `Named`, apart from the way it is found.  `Retry` is the search as it
is carried out, one number after the other; it is well-founded from its first state on, since the
numbered names are all different and only finitely many are taken.
-/

namespace TypeBridge.SymbolTable

/-! ## The search for a name -/

variable {taken : List String} {base : String}

/-- The name for a type with the given base where the names `taken` are in use: the base itself, or
else the base with the least number from two on that makes it free. -/
inductive Named (taken : List String) (base : String) : String → Prop
  | plain (hfree : base ∉ taken) : Named taken base base
  | numbered {k : Nat} (hbase : base ∈ taken) (hk : 2 ≤ k) (hfree : base ++ toString k ∉ taken)
      (hless : ∀ j, 2 ≤ j → j < k → base ++ toString j ∈ taken) :
      Named taken base (base ++ toString k)

theorem named_freshName (taken : List String) (base : String) :
    Named taken base (freshName taken base) := by
  by_cases hbase : base ∈ taken
  · have hfresh := freshName_notMem taken base
    have hskip : (!taken.contains base) = false := by simpa using hbase
    unfold freshName candidates at hfresh ⊢
    rw [List.find?_cons, hskip] at hfresh ⊢
    cases hfind : ((List.range' 2 taken.length).map fun k => base ++ toString k).find?
        fun name => !taken.contains name with
    | none =>
      rw [hfind] at hfresh
      exact absurd hbase hfresh
    | some name =>
      rw [List.find?_map] at hfind
      obtain ⟨k, hk, rfl⟩ := Option.map_eq_some_iff.1 hfind
      obtain ⟨hfree, hrange, hless⟩ := List.find?_range'_eq_some.1 hk
      refine .numbered hbase (List.mem_range'_1.1 hrange).1 (by simpa using hfree)
        fun j hj hjk => ?_
      simpa using hless j hj hjk
  · rw [freshName_of_notMem hbase]
    exact .plain hbase

/-- One round of the search, on the name at hand and the number to try next. -/
inductive Retry (taken : List String) (base : String) : String × Nat → String × Nat → Prop
  | next {name : String} (htaken : name ∈ taken) (k : Nat) :
      Retry taken base (name, k) (base ++ toString k, k + 1)

/-- From any number on, one more candidate than there are taken names. -/
theorem exists_number_free (taken : List String) (base : String) (first : Nat) :
    ∃ k, first ≤ k ∧ base ++ toString k ∉ taken := by
  let numbered := (List.range' first (taken.length + 1)).map fun k => base ++ toString k
  have hlength : taken.length < numbered.length := by simp [numbered]
  obtain ⟨_, hname, hfree⟩ := exists_free_of_length_lt (nodup_numbered base first _) hlength
  obtain ⟨k, hk, rfl⟩ := List.mem_map.1 hname
  exact ⟨k, (List.mem_range'_1.1 hk).1, hfree⟩

/-- The search ends from any state: the distance to the next free number goes down in every
round. -/
theorem acc_retry (taken : List String) (base name : String) (k : Nat) :
    Acc (fun later state => Retry taken base state later) (name, k) := by
  obtain ⟨free, hk, hfree⟩ := exists_number_free taken base k
  obtain ⟨distance, rfl⟩ := Nat.exists_eq_add_of_le hk
  induction distance generalizing name k with
  | zero =>
    refine Acc.intro _ fun _ hretry => ?_
    cases hretry
    refine Acc.intro _ fun _ hretry => ?_
    cases hretry
    next htaken => exact absurd htaken hfree
  | succ distance ih =>
    refine Acc.intro _ fun _ hretry => ?_
    cases hretry
    have hshift : k + (distance + 1) = k + 1 + distance := by omega
    rw [hshift] at hfree
    exact ih _ (k + 1) (Nat.le_add_right _ _) hfree

theorem retries_numbered {first last : Nat} (h : first ≤ last)
    (htaken : ∀ j, first ≤ j → j < last → base ++ toString j ∈ taken) :
    Relation.ReflTransGen (Retry taken base) (base ++ toString first, first + 1)
      (base ++ toString last, last + 1) := by
  obtain ⟨rounds, rfl⟩ := Nat.exists_eq_add_of_le h
  induction rounds with
  | zero => exact .refl
  | succ rounds ih =>
    refine .tail (ih (Nat.le_add_right _ _) fun j hj hjl => htaken j hj (Nat.lt_succ_of_lt hjl)) ?_
    exact .next (htaken (first + rounds) (Nat.le_add_right _ _) (Nat.lt_succ_self _))
      (first + rounds + 1)

/-- The search comes to the name told by `Named`. -/
theorem Named.reached {name : String} (h : Named taken base name) :
    ∃ k, Relation.ReflTransGen (Retry taken base) (base, 2) (name, k) := by
  cases h with
  | plain hfree => exact ⟨2, .refl⟩
  | numbered hbase hk hfree hless => exact ⟨_, .head (.next hbase 2) (retries_numbered hk hless)⟩

theorem Named.notMem {name : String} (h : Named taken base name) : name ∉ taken := by
  cases h with
  | plain hfree => exact hfree
  | numbered hbase hk hfree hless => exact hfree

/-- Only which names are taken matters. -/
theorem Named.congr {taken' : List String}
    (h : ∀ name, name ∈ taken ↔ name ∈ taken') {name : String} (hname : Named taken base name) :
    Named taken' base name := by
  cases hname with
  | plain hfree => exact .plain fun hm => hfree ((h _).2 hm)
  | numbered hbase hk hfree hless =>
    exact .numbered ((h _).1 hbase) hk (fun hm => hfree ((h _).2 hm)) fun j hj hjk =>
      (h _).1 (hless j hj hjk)

/-! ## The symbol of a type that has one -/

variable {table : SymbolTable}

/-- An identifier is the place of its type. -/
theorem WF.id_symbol (h : WF table) {type : HostType} (hm : type ∈ table.types) :
    (table.symbol type).1.id = table.types.idxOf type := by
  obtain ⟨place, hentry⟩ := List.mem_iff_getElem?.1 (mem_issued_symbol hm)
  have hid : (List.range table.size)[place]? = some (table.symbol type).1.id := by
    rw [← h.ids_eq, List.getElem?_map, hentry]
    rfl
  have htype : table.types[place]? = some type := by
    rw [types, List.getElem?_map, hentry]
    rfl
  obtain ⟨hlt, hplace⟩ := List.getElem?_eq_some_iff.1 hid
  obtain ⟨hbound, -⟩ := List.getElem?_eq_some_iff.1 htype
  have hidx : table.types[place]? = table.types[table.types.idxOf type]? :=
    htype.trans (List.getElem?_idxOf hm).symm
  rw [← (List.getElem?_inj hbound h.types_nodup).1 hidx, ← hplace, List.getElem_range]

/-- Types with one identifier, or with one name, are equal. -/
theorem WF.eq_of_symbol (h : WF table) {s t : HostType} (hs : s ∈ table.types)
    (ht : t ∈ table.types) (hshared : (table.symbol s).1.id = (table.symbol t).1.id ∨
      (table.symbol s).1.name = (table.symbol t).1.name) :
    s = t := by
  have hentry : (s, (table.symbol s).1) = (t, (table.symbol t).1) := by
    rcases hshared with hid | hname
    · exact List.inj_on_of_nodup_map h.ids_nodup (mem_issued_symbol hs) (mem_issued_symbol ht) hid
    · exact List.inj_on_of_nodup_map h.names_nodup (mem_issued_symbol hs)
        (mem_issued_symbol ht) hname
  exact congrArg Prod.fst hentry

/-! ## The answers to a sequence of requests -/

/-- The answers to requests that are made one after the other. -/
def answers (table : SymbolTable) : List HostType → List Symbol
  | [] => []
  | type :: rest => (table.symbol type).1 :: (table.symbol type).2.answers rest

theorem answers_append (table : SymbolTable) (front behind : List HostType) :
    table.answers (front ++ behind) =
      table.answers front ++ (table.issueAll front).answers behind := by
  induction front generalizing table with
  | nil => rfl
  | cons type rest ih => exact congrArg _ (ih (table.symbol type).2)

/-- Every answer can be read off the table behind all requests. -/
theorem answers_eq_map (table : SymbolTable) (requests : List HostType) :
    table.answers requests = requests.map fun type =>
      ((table.issueAll requests).symbol type).1 := by
  induction requests generalizing table with
  | nil => rfl
  | cons type rest ih =>
    have hfirst : ((table.issueAll (type :: rest)).symbol type).1 = (table.symbol type).1 := by
      rw [issueAll_cons, symbol_of_grows (grows_issueAll _ rest) (mem_types_symbol table type)]
      exact symbol_symbol table type
    rw [answers, List.map_cons, hfirst, ih, issueAll_cons]

theorem length_answers (table : SymbolTable) (requests : List HostType) :
    (table.answers requests).length = requests.length := by
  rw [answers_eq_map, List.length_map]

theorem types_issueAll_empty (requests : List HostType) :
    (empty.issueAll requests).types = requests.eraseDups :=
  types_issueAll WF.empty requests

/-- The names of the answers so far are the names in the table. -/
theorem mem_names_issueAll (requests : List HostType) (name : String) :
    name ∈ (empty.issueAll requests).names ↔ name ∈ (empty.answers requests).map (·.name) := by
  have hwf := WF.empty.issueAll requests
  rw [answers_eq_map, List.map_map]
  constructor
  · intro hname
    obtain ⟨⟨type, symbol⟩, hissued, rfl⟩ := List.mem_map.1 hname
    have htype : type ∈ (empty.issueAll requests).types := List.mem_map_of_mem hissued
    have hentry : (type, ((empty.issueAll requests).symbol type).1) = (type, symbol) :=
      List.inj_on_of_nodup_map hwf.types_nodup (mem_issued_symbol htype) hissued rfl
    refine List.mem_map.2 ⟨type, ?_, congrArg (fun e : HostType × Symbol => e.2.name) hentry⟩
    rwa [types_issueAll_empty, List.mem_eraseDups] at htype
  · intro hname
    obtain ⟨type, htype, rfl⟩ := List.mem_map.1 hname
    exact List.mem_map_of_mem (mem_issued_symbol (subset_types_issueAll empty requests htype))

/-- What the answers to a sequence of requests on a fresh table are like. -/
structure Served (requests : List HostType) (symbols : List Symbol) : Prop where
  length_eq : symbols.length = requests.length
  /-- A type keeps the symbol of its first request. -/
  kept : ∀ p ∈ requests.zip symbols, ∀ q ∈ requests.zip symbols, p.1 = q.1 → p.2 = q.2
  /-- Different types have nothing in common. -/
  apart : ∀ p ∈ requests.zip symbols, ∀ q ∈ requests.zip symbols,
    p.1 ≠ q.1 → p.2.id ≠ q.2.id ∧ p.2.name ≠ q.2.name
  /-- Identifiers count the types in the order of their first requests. -/
  ids_eq : symbols.map (·.id) = requests.map (requests.eraseDups.idxOf ·)
  /-- A type asked for the first time is named in view of the symbols given out before. -/
  named : ∀ front type behind, requests = front ++ type :: behind → type ∉ front →
    ∃ earlier symbol later, symbols = earlier ++ symbol :: later ∧ earlier.length = front.length ∧
      Named (earlier.map (·.name)) type.symbolBase symbol.name

theorem named_answer {front : List HostType} {type : HostType} (h : type ∉ front) :
    Named ((empty.answers front).map (·.name)) type.symbolBase
      ((empty.issueAll front).symbol type).1.name := by
  have hnew : type ∉ (empty.issueAll front).types := by
    rwa [types_issueAll_empty, List.mem_eraseDups]
  have hname : ((empty.issueAll front).symbol type).1.name =
      freshName (empty.issueAll front).names type.symbolBase := by
    unfold SymbolTable.symbol
    cases hget : (empty.issueAll front).get? type with
    | some known => exact absurd (mem_types_of_get? hget) hnew
    | none => rfl
  rw [hname]
  exact (named_freshName _ _).congr (mem_names_issueAll front)

theorem served_answers (requests : List HostType) : Served requests (empty.answers requests) := by
  have hwf := WF.empty.issueAll requests
  have hzip : requests.zip (empty.answers requests) =
      requests.map fun type => (type, ((empty.issueAll requests).symbol type).1) := by
    rw [answers_eq_map, ← List.zip_map', List.map_id']
  have hanswer : ∀ p ∈ requests.zip (empty.answers requests),
      p.1 ∈ (empty.issueAll requests).types ∧ p.2 = ((empty.issueAll requests).symbol p.1).1 := by
    intro p hp
    rw [hzip] at hp
    obtain ⟨type, htype, rfl⟩ := List.mem_map.1 hp
    exact ⟨subset_types_issueAll empty requests htype, rfl⟩
  refine ⟨length_answers empty requests, ?_, ?_, ?_, ?_⟩
  · intro p hp q hq hsame
    rw [(hanswer p hp).2, (hanswer q hq).2, hsame]
  · intro p hp q hq hne
    obtain ⟨hptype, hpsymbol⟩ := hanswer p hp
    obtain ⟨hqtype, hqsymbol⟩ := hanswer q hq
    rw [hpsymbol, hqsymbol]
    exact ⟨fun hid => hne (hwf.eq_of_symbol hptype hqtype (.inl hid)),
      fun hname => hne (hwf.eq_of_symbol hptype hqtype (.inr hname))⟩
  · rw [answers_eq_map, List.map_map, ← types_issueAll_empty]
    exact List.map_congr_left fun type htype =>
      hwf.id_symbol (subset_types_issueAll empty requests htype)
  · rintro front type behind rfl hnew
    refine ⟨empty.answers front, ((empty.issueAll front).symbol type).1, _, answers_append _ _ _,
      length_answers _ _, named_answer hnew⟩

/-- **Requests on one table.**  Whatever types a fresh table is asked for, in whatever order, the
answers are as `Served` says.  And whatever names are taken, the search for a free one ends, at the
name told by `Named`. -/
theorem requests_served (requests : List HostType) :
    Served requests (empty.answers requests) ∧
    ∀ taken base, Acc (fun later state => Retry taken base state later) (base, 2) ∧
      ∃ name k, Relation.ReflTransGen (Retry taken base) (base, 2) (name, k) ∧ name ∉ taken ∧
        Named taken base name ∧ name = freshName taken base := by
  refine ⟨served_answers requests, fun taken base => ⟨acc_retry taken base base 2, ?_⟩⟩
  have hnamed := named_freshName taken base
  obtain ⟨k, hreached⟩ := hnamed.reached
  exact ⟨_, k, hreached, hnamed.notMem, hnamed, rfl⟩

-- A name of one's own may be another type's numbered name.
example :
    (empty.answers [.named "a.Foo", .named "b.Foo", .named "c.Foo2", .named "a.Foo"]).map (·.name) =
    ["Foo", "Foo2", "Foo22", "Foo"] := by decide +kernel

end TypeBridge.SymbolTable
