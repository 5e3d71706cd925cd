import TypeBridge.Proofs.Symbols
import TypeBridge.Resolution.Chain

/-!
# Scripts of computations

A computation of the pipeline reads the symbol table only to ask for symbols, so what it does can be
said without a table: the types it asks for, in order, and its value, which is read off any table
that has symbols for them.  That is a `Script`.  `Follows x outcome` says that `x` fails as
`outcome` does or acts out its script, whatever table it starts from; two runs of `x` can then
differ in the symbols alone.

`Follows.bind` composes.  Its second premise is asked only at values that the first script can have,
so that a test on the shape of such a value can be settled before.
-/

namespace TypeBridge

@[ext] structure Script (α : Type) where
  /-- The types whose symbols are asked for, in order. -/
  asked : List HostType
  value : SymbolTable → α
  /-- A table that knows all types asked for and a later one give the same value. -/
  stable : ∀ {table later : SymbolTable}, asked ⊆ table.types → table.Grows later →
    value later = value table

namespace Script

variable {α β γ : Type}

def pure (a : α) : Script α where
  asked := []
  value := fun _ => a
  stable := fun _ _ => rfl

def map (f : α → β) (s : Script α) : Script β where
  asked := s.asked
  value := fun table => f (s.value table)
  stable := fun hasked hgrows => congrArg f (s.stable hasked hgrows)

def zip (f : α → β → γ) (s : Script α) (t : Script β) : Script γ where
  asked := s.asked ++ t.asked
  value := fun table => f (s.value table) (t.value table)
  stable := fun hasked hgrows => by
    obtain ⟨hs, ht⟩ := List.append_subset.1 hasked
    rw [s.stable hs hgrows, t.stable ht hgrows]

def list : List (Script α) → Script (List α)
  | [] => .pure []
  | s :: rest => .zip List.cons s (list rest)

def symbol (type : HostType) : Script Symbol where
  asked := [type]
  value := fun table => (table.symbol type).1
  stable := fun hasked hgrows => by
    rw [SymbolTable.symbol_of_grows hgrows (hasked List.mem_cons_self)]

theorem asked_list (ss : List (Script α)) : (list ss).asked = ss.flatMap (·.asked) := by
  induction ss with
  | nil => rfl
  | cons s ss ih => exact congrArg (s.asked ++ ·) ih

theorem value_list (ss : List (Script α)) (table : SymbolTable) :
    (list ss).value table = ss.map (·.value table) := by
  induction ss with
  | nil => rfl
  | cons s ss ih => exact congrArg (s.value table :: ·) ih

end Script

namespace Resolving

variable {α β γ : Type}

/-! ## Runs -/

theorem run_bind_of_ok {x : Resolving α} {k : α → Resolving β} {table later : SymbolTable} {a : α}
    (h : x.run table = (.ok a, later)) : (x >>= k).run table = (k a).run later := by
  change ExceptT.bindCont k (x.run table).1 (x.run table).2 = _
  rw [h]
  rfl

theorem run_bind_of_error {x : Resolving α} {k : α → Resolving β}
    {table : SymbolTable} {f : Failure} (h : (x.run table).1 = .error f) :
    ((x >>= k).run table).1 = .error f := by
  change (ExceptT.bindCont k (x.run table).1 (x.run table).2).1 = _
  rw [h]
  rfl

/-- A bind that had a value had one for its first step. -/
theorem exists_of_run_bind {x : Resolving α} {k : α → Resolving β}
    {table last : SymbolTable} {b : β} (h : (x >>= k).run table = (.ok b, last)) :
    ∃ a later, x.run table = (.ok a, later) ∧ (k a).run later = (.ok b, last) := by
  change ExceptT.bindCont k (x.run table).1 (x.run table).2 = _ at h
  cases hx : x.run table with
  | mk result later =>
    rw [hx] at h
    cases result with
    | error f => exact absurd (congrArg Prod.fst h) nofun
    | ok a => exact ⟨a, later, rfl, h⟩

theorem eq_of_run_pure {a b : α} {table last : SymbolTable}
    (h : (pure a : Resolving α).run table = (.ok b, last)) : b = a ∧ last = table := by
  cases h
  exact ⟨rfl, rfl⟩

/-! ## Following a script -/

/-- Whatever symbols were issued before, `x` fails as `outcome` does or acts out its script. -/
def Follows (x : Resolving α) : Except Failure (Script α) → Prop
  | .error f => ∀ table : SymbolTable, (x.run table).1 = .error f
  | .ok s => ∀ table : SymbolTable,
      x.run table = (.ok (s.value (table.issueAll s.asked)), table.issueAll s.asked)

theorem Follows.of_eq {x : Resolving α} {s t : Script α} (h : Follows x (.ok s))
    (hasked : s.asked = t.asked) (hvalue : ∀ table, s.value table = t.value table) :
    Follows x (.ok t) := by
  have heq : s = t := Script.ext hasked (funext hvalue)
  exact heq ▸ h

theorem Follows.run_ne_error {x : Resolving α} {p : Except Failure (Script α)} {f : Failure}
    (h : Follows x p) (hp : p ≠ .error f) (table : SymbolTable) : (x.run table).1 ≠ .error f := by
  cases p with
  | error failure =>
    rw [h table]
    exact fun heq => hp (congrArg Except.error (Except.error.inj heq))
  | ok s =>
    rw [h table]
    exact fun heq => nomatch heq

theorem follows_pure (a : α) : Follows (pure a) (.ok (.pure a)) :=
  fun _ => rfl

theorem follows_symbolOf (type : HostType) : Follows (symbolOf type) (.ok (.symbol type)) := by
  intro table
  change (Except.ok (table.symbol type).1, (table.symbol type).2) = _
  rw [← SymbolTable.symbol_symbol]
  rfl

theorem follows_ofExcept (e : Except Failure α) :
    Follows (MonadExcept.ofExcept e) (e.map Script.pure) := by
  cases e with
  | error f => exact fun _ => rfl
  | ok a => exact fun _ => rfl

theorem Follows.bind_error {x : Resolving α} {k : α → Resolving β} {f : Failure}
    (hx : Follows x (.error f)) : Follows (x >>= k) (.error f) :=
  fun table => run_bind_of_error (hx table)

/-- The steps behind are looked at only at values that the script of the first one can have. -/
theorem Follows.bind_map {δ : Type} {g : δ → α} {x : Resolving α}
    {k : α → Resolving β} {s : Script δ} {q : Except Failure (Script γ)} {f : δ → γ → β}
    (hx : Follows x (.ok (s.map g)))
    (hk : ∀ table, Follows (k (g (s.value table))) (q.map (Script.map (f (s.value table))))) :
    Follows (x >>= k) (q.map (Script.zip f s)) := by
  cases q with
  | error failure =>
    intro table
    rw [run_bind_of_ok (hx table)]
    exact hk (table.issueAll s.asked) (table.issueAll s.asked)
  | ok t =>
    intro table
    have hfirst : s.value (table.issueAll (s.asked ++ t.asked)) =
        s.value (table.issueAll s.asked) := by
      rw [SymbolTable.issueAll_append]
      exact s.stable (SymbolTable.subset_types_issueAll ..) (SymbolTable.grows_issueAll ..)
    have hzip : (Script.zip f s t).value (table.issueAll (s.asked ++ t.asked)) =
        f (s.value (table.issueAll s.asked)) (t.value (table.issueAll (s.asked ++ t.asked))) := by
      rw [← hfirst]
      rfl
    have hsecond : (k (g (s.value (table.issueAll s.asked)))).run (table.issueAll s.asked) = _ :=
      hk (table.issueAll s.asked) (table.issueAll s.asked)
    rw [run_bind_of_ok (hx table)]
    refine hsecond.trans ?_
    rw [Script.map, ← SymbolTable.issueAll_append]
    exact congrArg (fun value => (Except.ok value, table.issueAll (s.asked ++ t.asked))) hzip.symm

theorem Follows.bind {x : Resolving α} {k : α → Resolving β} {s : Script α}
    {q : Except Failure (Script γ)} {f : α → γ → β} (hx : Follows x (.ok s))
    (hk : ∀ table, Follows (k (s.value table)) (q.map (Script.map (f (s.value table))))) :
    Follows (x >>= k) (q.map (Script.zip f s)) :=
  Follows.bind_map (g := id) hx hk

/-- The first step needs no symbols. -/
theorem Follows.pure_bind {x : Resolving α} {k : α → Resolving β} {a : α}
    {outcome : Except Failure (Script β)} (hx : Follows x (.ok (.pure a)))
    (hk : Follows (k a) outcome) : Follows (x >>= k) outcome := by
  cases outcome with
  | error failure =>
    intro table
    rw [run_bind_of_ok (hx table)]
    exact hk table
  | ok s =>
    intro table
    rw [run_bind_of_ok (hx table)]
    exact hk table

/-- A step that only computes at the values of the first script. -/
theorem Follows.bind_of_eq_pure {g : γ → α} {f : γ → β} {x : Resolving α} {k : α → Resolving β}
    {s : Script γ} (hx : Follows x (.ok (s.map g)))
    (hk : ∀ table, k (g (s.value table)) = Pure.pure (f (s.value table))) :
    Follows (x >>= k) (.ok (s.map f)) := by
  intro table
  rw [run_bind_of_ok (hx table)]
  exact congrArg (fun y => y.run (table.issueAll s.asked)) (hk (table.issueAll s.asked))

theorem Follows.bind_pure {x : Resolving α} {outcome : Except Failure (Script α)}
    (hx : Follows x outcome) (f : α → β) :
    Follows (x >>= fun a => pure (f a)) (outcome.map (Script.map f)) := by
  cases outcome with
  | error failure => exact hx.bind_error
  | ok s =>
    intro table
    rw [run_bind_of_ok (hx table)]
    rfl

/-- A fold whose steps each add the value of a script. -/
theorem follows_foldlM {δ : Type} {step : β → α → Resolving β} {outcome : α → Except Failure δ}
    {script : δ → Script γ} {add : β → γ → β} {items : List α}
    (h : ∀ b, ∀ a ∈ items, Follows (step b a) ((outcome a).map fun d => (script d).map (add b)))
    (b : β) :
    Follows (items.foldlM step b)
      ((items.mapM outcome).map
        fun ds => (Script.list (ds.map script)).map (List.foldl add b)) := by
  induction items generalizing b with
  | nil => exact follows_pure b
  | cons a rest ih =>
    have hfirst := h b a List.mem_cons_self
    have hrest := ih fun b a ha => h b a (List.mem_cons_of_mem _ ha)
    rw [List.foldlM_cons, List.mapM_cons]
    cases ha : outcome a with
    | error f =>
      rw [ha] at hfirst
      exact hfirst.bind_error
    | ok d =>
      rw [ha] at hfirst
      cases hm : rest.mapM outcome with
      | error f =>
        refine Follows.bind (q := .error f) (f := List.foldl add) hfirst fun table => ?_
        have hlater := hrest (add b ((script d).value table))
        rw [hm] at hlater
        exact hlater
      | ok ds =>
        refine Follows.bind (q := .ok (.list (ds.map script))) (f := List.foldl add) hfirst
          fun table => ?_
        have hlater := hrest (add b ((script d).value table))
        rw [hm] at hlater
        exact hlater

end Resolving

end TypeBridge
