import TypeBridge.Generator

/-!
# Chains in chains

A chain may stand as a link in another one.  Its own links then answer in its place, and what they
ask for goes through the whole outer chain, so the outer chain is the one with the links of the
inner one in that place (`nested_chain_flat`).

The two chains hand different resolvers to their links, so the law is proved for one step from any
resolver (`Chain.first_insertAt`), and for nested types by induction on the depth.
-/

namespace TypeBridge

/-! ## Answers in order -/

/-- The second answer, if the first is to decline; the symbols issued on the way stay. -/
def Resolving.otherwise (front behind : Resolving (Option Resolution)) :
    Resolving (Option Resolution) :=
  front >>= fun
    | some resolution => pure (some resolution)
    | none => behind

namespace Resolving

variable (x y z : Resolving (Option Resolution))

theorem none_otherwise : (pure none : Resolving (Option Resolution)).otherwise x = x :=
  pure_bind none _

theorem otherwise_none : x.otherwise (pure none) = x := by
  refine (congrArg (x >>= ·) (funext fun answer => ?_)).trans (bind_pure x)
  cases answer <;> rfl

theorem otherwise_assoc : (x.otherwise y).otherwise z = x.otherwise (y.otherwise z) := by
  unfold otherwise
  rw [bind_assoc]
  refine congrArg (x >>= ·) (funext fun answer => ?_)
  cases answer with
  | some resolution => exact pure_bind (some resolution) _
  | none => rfl

end Resolving

namespace Chain

variable {nested : Resolver} {ctx : Context} {type : HostType}

/-- A chain with the links of another put in at a place; behind the end they become the last
ones. -/
def splice (chain : Chain) (index : Nat) (inner : Chain) : Chain :=
  chain.take index ++ inner ++ chain.drop index

theorem first_cons (p : Processor) (chain : Chain) :
    first nested ctx type (p :: chain) =
        (p.process nested ctx type).otherwise (first nested ctx type chain) :=
  rfl

theorem first_append (front behind : Chain) :
    first nested ctx type (front ++ behind) =
        (first nested ctx type front).otherwise (first nested ctx type behind) := by
  induction front with
  | nil => exact (Resolving.none_otherwise _).symm
  | cons p front ih => rw [List.cons_append, first_cons, first_cons, ih, Resolving.otherwise_assoc]

/-- The links of an inner chain answer in its place, from whatever resolver. -/
theorem first_insertAt (chain : Chain) (index : Nat) (inner : Chain) :
    first nested ctx type (chain.insertAt index inner.toProcessor) =
      first nested ctx type (chain.splice index inner) := by
  have hinner : inner.toProcessor.process nested ctx type = first nested ctx type inner := rfl
  rw [insertAt, splice, List.append_assoc, first_append, first_append, first_cons,
    first_append, hinner]

/-! ## Nested types -/

/-- Chains that answer alike from every resolver have the same one. -/
theorem resolver_congr {chain other : Chain}
    (h : ∀ nested ctx type, first nested ctx type chain = first nested ctx type other)
    (depth : Nat) : chain.resolver depth = other.resolver depth := by
  induction depth with
  | zero => rfl
  | succ depth ih =>
    funext ctx type
    calc
      chain.resolver (depth + 1) ctx type = first (chain.resolver depth) ctx type chain := rfl
      _ = first (other.resolver depth) ctx type chain := by rw [ih]
      _ = other.resolver (depth + 1) ctx type := h _ ctx type

end Chain

/-! ## Chains of chains -/

/-- A link of a chain: a processor, or a chain of links in the place of one. -/
inductive Link where
  | processor (p : Processor)
  | chain (links : List Link)

namespace Link

mutual

def toProcessor : Link → Processor
  | .processor p => p
  | .chain links => (toChain links).toProcessor

def toChain : List Link → Chain
  | [] => []
  | l :: rest => toProcessor l :: toChain rest

end

mutual

/-- The processors of a link, of however many chains within each other. -/
def processors : Link → Chain
  | .processor p => [p]
  | .chain links => flatten links

def flatten : List Link → Chain
  | [] => []
  | l :: rest => processors l ++ flatten rest

end

variable {nested : Resolver} {ctx : Context} {type : HostType}

mutual

theorem process_toProcessor : ∀ l : Link,
    l.toProcessor.process nested ctx type = Chain.first nested ctx type l.processors
  | .processor _ => (Resolving.otherwise_none _).symm
  | .chain links => first_toChain links

theorem first_toChain : ∀ links : List Link,
    Chain.first nested ctx type (toChain links) = Chain.first nested ctx type (flatten links)
  | [] => rfl
  | l :: rest => by
    rw [toChain, flatten, Chain.first_cons, Chain.first_append, process_toProcessor l]
    simp only [first_toChain rest]

end

end Link

/-! ## The law -/

/-- **Nested chains are flat chains.**  A chain with another one as a link, anywhere, resolves every
type in every context like the chain with the links of that one in its place: the same answers and
failures, and the same symbols issued, for types nested to any depth.  So do chains of chains of
chains, and a generator writes the same text with either. -/
theorem nested_chain_flat (chain : Chain) (index : Nat) (inner : Chain) :
    (∀ depth, (chain.insertAt index inner.toProcessor).resolver depth =
      (chain.splice index inner).resolver depth) ∧
      (∀ links depth, (Link.toChain links).resolver depth = (Link.flatten links).resolver depth) ∧
      ∀ (g : Generator) (budget : Budget) (u : Universe) (roots : List HostType),
        { g with chain := chain.insertAt index inner.toProcessor }.generate budget u roots =
          { g with chain := chain.splice index inner }.generate budget u roots := by
  have hsplice (depth : Nat) : (chain.insertAt index inner.toProcessor).resolver depth =
      (chain.splice index inner).resolver depth :=
    Chain.resolver_congr (fun nested ctx type => Chain.first_insertAt chain index inner) depth
  refine ⟨hsplice, fun links => Chain.resolver_congr fun nested ctx type =>
    Link.first_toChain links, ?_⟩
  intro g budget u roots
  simp only [Generator.generate, Generator.model, Generator.setup, hsplice]

end TypeBridge
