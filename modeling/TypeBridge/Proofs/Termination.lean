import Mathlib.Logic.Relation
import TypeBridge.Proofs.Resolution

/-!
# Resolution comes to an end

`Chain.Asks` is the nested call of a chain, told from outside: one resolution asks for another if
changing the nested resolver at the other one alone can change the answer.  For the standard chain
every call made in the course of a resolution is one of `calls`, so it stays in the arena of the
asked type, puts no type in progress twice and lowers `need`.

`resolution_terminates` collects this, and says that a resolver as deep as the square of the nodes
of the asked type and of all types written in the universe has the final answer.
-/

namespace TypeBridge

/-- Resolving `c` asks for the nested resolution `d`. -/
def Chain.Asks (chain : Chain) (c d : Context × HostType) : Prop :=
  ∃ nested other : Resolver, (∀ e : Context × HostType, e ≠ d → nested e.1 e.2 = other e.1 e.2) ∧
    Chain.first nested c.1 c.2 chain ≠ Chain.first other c.1 c.2 chain

theorem Chain.Asks.exists_call {mode : FunctionalMode} {c d : Context × HostType}
    (h : (Chain.standard mode).Asks c d) :
    ∃ call ∈ calls mode c.1.host c.1.inProgress c.2,
      d = ({ c.1 with inProgress := call.1 }, call.2) := by
  obtain ⟨nested, other, hagree, hne⟩ := h
  refine Classical.byContradiction fun hnone => hne ?_
  refine Chain.first_standard_congr fun call hcall => ?_
  exact hagree ({ c.1 with inProgress := call.1 }, call.2) fun heq => hnone ⟨call, hcall, heq.symm⟩

/-! ## What is reached -/

/-- A resolution in the course of another one: in the same universe, of a type of the arena, with
types put in progress that were not so before. -/
structure Within (types : List HostType) (start d : Context × HostType) : Prop where
  host : d.1.host = start.1.host
  mem : d.2 ∈ types
  pushed : ∃ pushed, d.1.inProgress = pushed ++ start.1.inProgress ∧ pushed.Nodup ∧
    ∀ p ∈ pushed, p ∉ start.1.inProgress

theorem Within.refl {types : List HostType} {start : Context × HostType} (h : start.2 ∈ types) :
    Within types start start :=
  ⟨rfl, h, [], rfl, List.nodup_nil, fun _ hp => nomatch hp⟩

/-- A call leaves the stack as it is or pushes the asked type, which is not on it. -/
theorem calls_inProgress {mode : FunctionalMode} {u : Universe} {inProgress : List HostType}
    {type : HostType} {call : List HostType × HostType} (h : call ∈ calls mode u inProgress type) :
    call.1 = inProgress ∨ call.1 = type :: inProgress ∧ type ∉ inProgress := by
  rcases calls_cases h with ⟨o, ho, t, -, rfl⟩ | ⟨-, t, -, rfl⟩
  · obtain ⟨-, -, hp, -, -⟩ := Functional.opened?_eq_some ho
    exact .inr ⟨rfl, hp⟩
  · exact .inl rfl

theorem Within.asks {mode : FunctionalMode} {limit : Nat} {types : List HostType}
    {start c d : Context × HostType} (ha : Arena start.1.host limit types)
    (hc : Within types start c) (h : (Chain.standard mode).Asks c d) : Within types start d := by
  obtain ⟨call, hcall, rfl⟩ := h.exists_call
  rw [hc.host] at hcall
  refine ⟨hc.host, mem_of_mem_calls ha hc.mem hcall, ?_⟩
  obtain ⟨pushed, hstack, hnodup, hfresh⟩ := hc.pushed
  rcases calls_inProgress hcall with hsame | ⟨hpush, hnew⟩
  · exact ⟨pushed, hsame.trans hstack, hnodup, hfresh⟩
  · rw [hstack] at hpush hnew
    obtain ⟨hnot, houter⟩ := not_or.1 fun hm => hnew (List.mem_append.2 hm)
    refine ⟨c.2 :: pushed, hpush, List.nodup_cons.2 ⟨hnot, hnodup⟩, fun p hp => ?_⟩
    rcases List.mem_cons.1 hp with rfl | hp
    · exact houter
    · exact hfresh p hp

theorem Within.of_reached {mode : FunctionalMode} {limit : Nat} {types : List HostType}
    {start d : Context × HostType} (ha : Arena start.1.host limit types) (hs : start.2 ∈ types)
    (h : Relation.ReflTransGen (Chain.standard mode).Asks start d) : Within types start d := by
  induction h with
  | refl => exact .refl hs
  | tail _ hasks ih => exact ih.asks ha hasks

/-! ## No endless descent -/

theorem acc_asks {mode : FunctionalMode} {limit : Nat} {types : List HostType} {u : Universe}
    (ha : Arena u limit types) (bound : Nat) :
    ∀ c : Context × HostType, c.1.host = u → c.2 ∈ types →
      need types limit c.1.inProgress c.2 < bound →
      Acc (fun d c => (Chain.standard mode).Asks c d) c := by
  induction bound with
  | zero => intro c _ _ hn; omega
  | succ bound ih =>
    intro c hu hc hn
    refine Acc.intro c fun d hd => ?_
    obtain ⟨call, hcall, rfl⟩ := hd.exists_call
    rw [hu] at hcall
    have hlt := need_lt ha hc hcall
    exact ih _ hu (mem_of_mem_calls ha hc hcall) (show need _ _ call.1 call.2 < bound by omega)

/-! ## A depth that suffices -/

theorem need_le_square {limit : Nat} {types : List HostType} (hlength : types.length ≤ limit)
    (inProgress : List HostType) {type : HostType} (hsize : type.size ≤ limit) :
    need types limit inProgress type ≤ (limit + 1) * (limit + 1) := by
  have hfew : (types.filter fun t => !inProgress.contains t).length ≤ limit :=
    Nat.le_trans (List.length_filter_le ..) hlength
  have hmul := Nat.mul_le_mul_right (limit + 1) hfew
  have hsquare : (limit + 1) * (limit + 1) = limit * (limit + 1) + (limit + 1) := Nat.succ_mul ..
  unfold need
  omega

theorem length_flatMap_subterms (ts : List HostType) :
    (ts.flatMap HostType.subterms).length = HostType.sizeAll ts := by
  rw [← HostType.subtermsAll_eq_flatMap, HostType.length_subtermsAll]

theorem resolver_eq {mode : FunctionalMode} {limit : Nat} {types : List HostType} (depth : Nat) :
    ∀ (other : Nat) (ctx : Context) (type : HostType), Arena ctx.host limit types → type ∈ types →
      need types limit ctx.inProgress type ≤ depth → need types limit ctx.inProgress type ≤ other →
        (Chain.standard mode).resolver depth ctx type =
          (Chain.standard mode).resolver other ctx type := by
  induction depth with
  | zero =>
    intro other ctx type _ _ hd
    have hpos := type.one_le_size
    unfold need at hd
    omega
  | succ depth ih =>
    intro other ctx type ha ht hd ho
    cases other with
    | zero =>
      have hpos := type.one_le_size
      unfold need at ho
      omega
    | succ other =>
      refine Chain.first_standard_congr fun c hc => ?_
      have hlt := need_lt ha ht hc
      refine ih other { ctx with inProgress := c.1 } c.2 ha (mem_of_mem_calls ha ht hc) ?_ ?_
      · exact Nat.le_of_lt_succ (Nat.lt_of_lt_of_le hlt hd)
      · exact Nat.le_of_lt_succ (Nat.lt_of_lt_of_le hlt ho)

/-- **Every resolution by the standard chain ends.**  Whatever the context, each resolution made in
the course of it is of a part of the asked type or of a type written in the universe, in the same
universe and with no type put in progress twice; there is no endless chain of such resolutions; and
beyond a depth that is read off the universe and the type, a resolver is never cut short and its
answer depends on the depth no more. -/
theorem resolution_terminates (mode : FunctionalMode) (ctx : Context) (type : HostType) :
    (∀ d : Context × HostType, Relation.ReflTransGen (Chain.standard mode).Asks (ctx, type) d →
      d.1.host = ctx.host ∧
      (d.2 ∈ type.subterms ∨ ∃ c ∈ ctx.host.classes, ∃ t ∈ c.writtenTypes, d.2 ∈ t.subterms) ∧
      ∃ pushed, d.1.inProgress = pushed ++ ctx.inProgress ∧ pushed.Nodup ∧
        ∀ p ∈ pushed, p ∉ ctx.inProgress) ∧
    Acc (fun d c => (Chain.standard mode).Asks c d) (ctx, type) ∧
    ∃ bound, bound = Nat.pow (HostType.sizeAll (type :: ctx.host.writtenTypes) + 1) 2 ∧
      ∀ depth, bound ≤ depth →
        (Chain.standard mode).resolver depth ctx type =
          (Chain.standard mode).resolver bound ctx type ∧
        ∀ table : SymbolTable,
          (((Chain.standard mode).resolver depth ctx type).run table).1 ≠ .error .exhausted := by
  have ha := arena_arenaOf (u := ctx.host) type
  have ht := mem_arenaOf (u := ctx.host) type
  refine ⟨fun d hd => ?_, acc_asks ha _ (ctx, type) rfl ht (Nat.lt_succ_self _), ?_⟩
  · have hwithin : Within (arenaOf ctx.host type) (ctx, type) d := Within.of_reached ha ht hd
    refine ⟨hwithin.host, ?_, hwithin.pushed⟩
    obtain ⟨root, hroot, hmem⟩ := List.mem_flatMap.1 hwithin.mem
    rcases List.mem_cons.1 hroot with rfl | hroot
    · exact .inl hmem
    · obtain ⟨c, hc, hwritten⟩ := List.mem_flatMap.1 hroot
      exact .inr ⟨c, hc, root, hwritten, hmem⟩
  · have hneed := need_le_square (Nat.le_of_eq (length_flatMap_subterms _)) ctx.inProgress
      (HostType.size_le_sizeAll (List.mem_cons_self (a := type) (l := ctx.host.writtenTypes)))
    have hsquare : Nat.pow (HostType.sizeAll (type :: ctx.host.writtenTypes) + 1) 2 = _ :=
      Nat.pow_two _
    rw [← hsquare] at hneed
    refine ⟨_, rfl, fun depth hdepth => ⟨?_, fun table => ?_⟩⟩
    · exact resolver_eq depth _ ctx type ha ht (Nat.le_trans hneed hdepth) hneed
    · refine Resolving.Follows.run_ne_error
        (p := (answer mode ctx type).map fun a => a.script.map some)
        (follows_resolver depth ctx type ha ht (Nat.le_trans hneed hdepth)) ?_ table
      exact fun h => answer_ne_exhausted mode ctx type (except_map_eq_error.1 h)

end TypeBridge
