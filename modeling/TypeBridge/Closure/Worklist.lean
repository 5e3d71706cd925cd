import TypeBridge.Closure.Setup
import TypeBridge.Resolution.Structural

/-!
# The worklist

A run works on its roots and on all types discovered by that, first in, first out, and each type
once.  `Run.drain` is that loop.  Its bound counts the types that are worked on: an entry whose type
was seen before is dropped without a step.
-/

namespace TypeBridge

/-- The state of a run between two entries. -/
structure Run where
  queue : List Entry
  /-- The types worked on so far, in order. -/
  seen : List HostType := []
  symbols : SymbolTable := {}
  model : Model := {}

namespace Run

def ofRoots (roots : List HostType) : Run where
  queue := roots.map fun type => { type }

/-- The first entry whose type was not seen, and the run behind it. -/
def next? (r : Run) : Option (Entry × Run) :=
  match r.queue.dropWhile fun e => r.seen.contains e.type with
  | [] => none
  | e :: rest => some (e, { r with queue := rest, seen := r.seen ++ [e.type] })

/-- A declaration enters the model before the entries it discovered enter the queue. -/
def absorb (r : Run) (c : Contribution) : Except Failure Run := do
  let withExternals ← c.externals.foldlM Model.addExternal r.model
  let model ←
    match c.declaration with
    | some d => withExternals.add d
    | none => pure withExternals
  pure { r with model, queue := r.queue ++ c.discovered }

/-- Work on one entry. -/
def step (s : Setup) (e : Entry) (r : Run) : Except Failure Run :=
  match (s.contribute e).run r.symbols with
  | (.error failure, _) => .error failure
  | (.ok contribution, symbols) => { r with symbols }.absorb contribution

/-- Work until every type in the queue was seen, on at most `bound` types. -/
def drain (s : Setup) : Nat → Run → Except Failure Run
  | 0, r => if r.next?.isNone then .ok r else .error .exhausted
  | bound + 1, r =>
    match r.next? with
    | none => .ok r
    | some (e, later) =>
      match later.step s e with
      | .error failure => .error failure
      | .ok after => drain s bound after

end Run

namespace Setup

/-- The class that a root names without being declared or built in. -/
def unknownRoot? (u : Universe) (roots : List HostType) : Option String :=
  roots.findSome? fun type =>
    match type.rawName? with
    | some name => if Structural.isBuiltin type || u.contains name then none else some name
    | none => none

/-- Work on at most `bound` types, from the roots on. -/
def run (s : Setup) (bound : Nat) (roots : List HostType) : Except Failure Run :=
  match unknownRoot? s.host roots with
  | some name => .error (.unknownRoot name)
  | none => Run.drain s bound (Run.ofRoots roots)

end Setup

end TypeBridge
