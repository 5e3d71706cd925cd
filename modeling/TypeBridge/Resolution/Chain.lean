import TypeBridge.Error
import TypeBridge.Settings.Basic
import TypeBridge.Target.Type
import TypeBridge.Universe.Basic

/-!
# Chains of processors

A `Processor` resolves a host type to a target type, declines it, or fails.  A `Chain` asks its
processors in order and takes the first answer.  A processor gets the resolver of the whole chain
for the types nested in the one it is asked for, so it is a map from resolvers to resolvers, and the
resolver of a chain is that map iterated: `Chain.resolver` of depth `n + 1` hands out the one of
depth `n`, and at depth zero a run is exhausted.

Symbols issued before a failure stay issued: the table is a state below the failure.
-/

namespace TypeBridge

/-- A target type and the host types that need declarations because of it. -/
structure Resolution where
  type : TargetType
  dependents : List HostType := []

/-- What a processor sees besides the type it is asked for.  A nested resolution may be given a
context with other values; the caller's own context stays as it is. -/
structure Context where
  host : Universe
  settings : Settings
  /-- The declaration whose type is resolved. -/
  site : Option Site := none
  /-- The interfaces that are being turned into function types further out. -/
  inProgress : List HostType := []
  /-- A number that a processor leaves for the resolutions nested in its own. -/
  ambient : Option Nat := none

/-- A computation that issues symbols and may fail. -/
abbrev Resolving := ExceptT Failure (StateM SymbolTable)

/-- Resolves a type in a context; `none` declines it. -/
abbrev Resolver := Context → HostType → Resolving (Option Resolution)

/-- The symbol of a type. -/
def symbolOf (type : HostType) : Resolving Symbol :=
  modifyGet fun table => table.symbol type

/-- The resolution of a nested type; one that every processor declines is written as `any`. -/
def Resolver.orAny (resolve : Resolver) (ctx : Context) (type : HostType) :
    Resolving Resolution := do
  match ← resolve ctx type with
  | some resolution => pure resolution
  | none => pure { type := .any }

/-- The resolutions of several nested types, in order. -/
def Resolver.allOrAny (resolve : Resolver) (ctx : Context) :
    List HostType → Resolving (List Resolution)
  | [] => pure []
  | type :: rest => do
    let first ← resolve.orAny ctx type
    let others ← resolve.allOrAny ctx rest
    pure (first :: others)

structure Processor where
  name : String
  /-- The resolver of this link, given the one of the whole chain. -/
  process : Resolver → Resolver

/-- Processors in the order of their precedence. -/
abbrev Chain := List Processor

namespace Chain

def names (chain : Chain) : List String :=
  chain.map (·.name)

/-- The answer of the first processor that does not decline. -/
def first (nested : Resolver) (ctx : Context) (type : HostType) :
    Chain → Resolving (Option Resolution)
  | [] => pure none
  | p :: rest => do
    match ← p.process nested ctx type with
    | some resolution => pure (some resolution)
    | none => first nested ctx type rest

/-- The resolver of the whole chain, for types nested at most `depth` deep. -/
def resolver (chain : Chain) : Nat → Resolver
  | 0 => fun _ _ => throw .exhausted
  | depth + 1 => fun ctx type => first (chain.resolver depth) ctx type chain

/-- A chain as one link of another.  Nested types go through the outer chain. -/
def toProcessor (chain : Chain) : Processor :=
  ⟨"Chain", fun nested ctx type => first nested ctx type chain⟩

/-- Insert a link; behind the end it becomes the last one. -/
def insertAt (chain : Chain) (index : Nat) (p : Processor) : Chain :=
  chain.take index ++ p :: chain.drop index

end Chain

end TypeBridge
