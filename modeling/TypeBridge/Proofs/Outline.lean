import TypeBridge.Proofs.Calls
import TypeBridge.Proofs.Script

/-!
# Outlines

An `Outline` is a target type with host classes in the places of their symbols and without override
text.  `outline` is the one that the standard chain arrives at outside any override: it depends on
the type, the universe, the mode and the interfaces in progress, and on nothing that was resolved
before.

`outline` is the chain's own step, `outlineStep`, iterated as often as `need` says.  `outline_eq` is
its fixed point equation, without a bound, and `outlineInduction` the induction that goes with it.
`follows_outline` ties the two together: a resolver of sufficient depth asks for the symbols of the
outline's classes, in order of reading, answers the outline with these symbols and reports exactly
these classes as dependents.
-/

namespace TypeBridge

open Functional

inductive Outline where
  | primitive (kind : TargetPrimitive)
  | array (element : Outline)
  | record (value : Outline)
  /-- A declared class, applied to arguments if there are any. -/
  | reference (name : String) (args : List Outline)
  | typeVar (name : String)
  | function (params : List (String × Outline)) (result : Outline)

namespace Outline

def any : Outline := .primitive .any

instance : Inhabited Outline := ⟨.any⟩

def isReference : Outline → Bool
  | .reference .. => true
  | _ => false

/-- Induction on an outline with a hypothesis for every argument and every parameter. -/
@[elab_as_elim]
theorem nestedInduction {motive : Outline → Prop} (primitive : ∀ k, motive (.primitive k))
    (array : ∀ e, motive e → motive (.array e)) (record : ∀ v, motive v → motive (.record v))
    (reference : ∀ n args, (∀ a ∈ args, motive a) → motive (.reference n args))
    (typeVar : ∀ n, motive (.typeVar n))
    (function : ∀ params result, (∀ p ∈ params, motive p.2) → motive result →
      motive (.function params result)) : ∀ o, motive o
  | .primitive k => primitive k
  | .array e => array e (nestedInduction primitive array record reference typeVar function e)
  | .record v => record v (nestedInduction primitive array record reference typeVar function v)
  | .reference n args =>
    reference n args fun a _ => nestedInduction primitive array record reference typeVar function a
  | .typeVar n => typeVar n
  | .function params result =>
    function params result
      (fun p hp =>
        have : sizeOf p.2 < sizeOf params := by
          have hlt := List.sizeOf_lt_of_mem hp
          obtain ⟨n, o⟩ := p
          simp only [Prod.mk.sizeOf_spec] at hlt ⊢
          omega
        nestedInduction primitive array record reference typeVar function p.2)
      (nestedInduction primitive array record reference typeVar function result)

/-! ## Classes -/

mutual

/-- The classes of all references, a reference before its arguments and parameters before the
result. -/
def classes : Outline → List String
  | .reference n args => n :: classesOfList args
  | .array e => classes e
  | .record v => classes v
  | .function params result => classesOfParams params ++ classes result
  | .primitive _ => []
  | .typeVar _ => []

def classesOfList : List Outline → List String
  | [] => []
  | o :: rest => classes o ++ classesOfList rest

def classesOfParams : List (String × Outline) → List String
  | [] => []
  | (_, o) :: rest => classes o ++ classesOfParams rest

end

theorem classesOfList_eq_flatMap (os : List Outline) : classesOfList os = os.flatMap classes := by
  induction os with
  | nil => rfl
  | cons o os ih => simp only [classesOfList, List.flatMap_cons, ih]

theorem classesOfParams_eq_flatMap (ps : List (String × Outline)) :
    classesOfParams ps = ps.flatMap fun p => p.2.classes := by
  induction ps with
  | nil => rfl
  | cons p ps ih => simp only [classesOfParams, List.flatMap_cons, ih]

theorem classesOfParams_zip {names : List String} {os : List Outline}
    (h : names.length = os.length) : classesOfParams (names.zip os) = os.flatMap classes := by
  rw [classesOfParams_eq_flatMap, ← List.flatMap_map, List.map_snd_zip (Nat.le_of_eq h.symm)]

/-- The host types that stand for the classes of an outline. -/
def dependents (o : Outline) : List HostType :=
  o.classes.map .named

theorem dependents_reference (n : String) (args : List Outline) :
    (reference n args).dependents = .named n :: args.flatMap dependents := by
  simp only [dependents, classes, List.map_cons, classesOfList_eq_flatMap, List.map_flatMap]
  rfl

theorem dependents_params (params : List (String × Outline)) (result : Outline) :
    (function params result).dependents = params.flatMap (fun p => p.2.dependents) ++
      result.dependents := by
  simp only [dependents, classes, List.map_append, classesOfParams_eq_flatMap, List.map_flatMap]

theorem dependents_function {names : List String} {os : List Outline} (h : names.length = os.length)
    (result : Outline) :
    (function (names.zip os) result).dependents = os.flatMap dependents ++ result.dependents := by
  simp only [dependents, classes, List.map_append, classesOfParams_zip h, List.map_flatMap]
  rfl

/-! ## Symbols put in -/

mutual

/-- The outline as a target type, with the symbols of a table. -/
def realize (table : SymbolTable) : Outline → TargetType
  | .primitive k => .primitive k
  | .array e => .array (realize table e)
  | .record v => .record (realize table v)
  | .reference n args => .reference (table.symbol (.named n)).1 (realizeList table args)
  | .typeVar n => .typeVar n
  | .function params result => .function (realizeParams table params) (realize table result)

def realizeList (table : SymbolTable) : List Outline → List TargetType
  | [] => []
  | o :: rest => realize table o :: realizeList table rest

def realizeParams (table : SymbolTable) : List (String × Outline) → List (String × TargetType)
  | [] => []
  | (n, o) :: rest => (n, realize table o) :: realizeParams table rest

end

theorem realizeList_eq_map (table : SymbolTable) (os : List Outline) :
    realizeList table os = os.map (realize table) := by
  induction os with
  | nil => rfl
  | cons o os ih => simp only [realizeList, List.map_cons, ih]

theorem realizeParams_eq_map (table : SymbolTable) (ps : List (String × Outline)) :
    realizeParams table ps = ps.map (Prod.map id (realize table)) := by
  induction ps with
  | nil => rfl
  | cons p ps ih => simp only [realizeParams, List.map_cons, ih, Prod.map, id]

theorem realize_reference (table : SymbolTable) (n : String) (args : List Outline) :
    (reference n args).realize table =
      .reference (table.symbol (.named n)).1 (args.map (realize table)) := by
  rw [realize, realizeList_eq_map]

theorem realize_function (table : SymbolTable) (names : List String) (os : List Outline)
    (result : Outline) : (function (names.zip os) result).realize table =
      .function (names.zip (os.map (realize table))) (result.realize table) := by
  rw [realize, realizeParams_eq_map, List.zip_map_right]

theorem isReference_realize (table : SymbolTable) (o : Outline) :
    (o.realize table).isReference = o.isReference := by
  cases o <;> rfl

theorem isVerbatim_realize (table : SymbolTable) (o : Outline) :
    (o.realize table).isVerbatim = false := by
  cases o <;> rfl

/-- A later table puts the same symbols in. -/
theorem realize_of_grows {table later : SymbolTable} (hgrows : table.Grows later) {o : Outline}
    (h : o.dependents ⊆ table.types) : o.realize later = o.realize table := by
  induction o using nestedInduction with
  | primitive k => rfl
  | typeVar n => rfl
  | array e ih => exact congrArg TargetType.array (ih h)
  | record v ih => exact congrArg TargetType.record (ih h)
  | reference n args ih =>
    rw [dependents_reference] at h
    obtain ⟨hn, hargs⟩ := List.cons_subset.1 h
    have hall :
        args.map (realize later) = args.map (realize table) := List.map_congr_left fun a ha =>
      ih a ha fun t ht => hargs (List.mem_flatMap.2 ⟨a, ha, ht⟩)
    rw [realize_reference, realize_reference, hall, SymbolTable.symbol_of_grows hgrows hn]
  | function params result ihp ihr =>
    rw [dependents_params] at h
    obtain ⟨hparams, hresult⟩ := List.append_subset.1 h
    have hall : params.map (Prod.map id (realize later)) =
        params.map (Prod.map id (realize table)) :=
      List.map_congr_left fun p hp =>
        congrArg (Prod.mk p.1) (ihp p hp fun t ht => hparams (List.mem_flatMap.2 ⟨p, hp, ht⟩))
    rw [realize, realize, realizeParams_eq_map, realizeParams_eq_map, hall, ihr hresult]

def resolution (o : Outline) (table : SymbolTable) : Resolution where
  type := o.realize table
  dependents := o.dependents

def script (o : Outline) : Script Resolution where
  asked := o.dependents
  value := o.resolution
  stable := fun h hgrows => by rw [resolution, realize_of_grows hgrows h, resolution]

end Outline

/-! ## The outline of a type -/

namespace Outline

def wrap : Structural.Container → Outline → Outline
  | .collection => .array
  | .map => .record
  | .optional => id

def application (u : Universe) (nested : HostType → Outline) (raw : String) (args : List HostType) :
    Outline :=
  match Structural.Container.ofName? raw with
  | some kind => wrap kind ((kind.argument? args).elim .any nested)
  | none => if u.contains raw then .reference raw (args.map nested) else .any

def structural (u : Universe) (nested : HostType → Outline) : HostType → Outline
  | .primitive p => .primitive (Structural.primitive p)
  | .typeVar name => .typeVar name
  | .array element => .array (nested element)
  | .named name => application u nested name []
  | .generic raw args => application u nested raw args

def ofOpened (o : Opened) (nested : HostType → Outline) : Outline :=
  .function ((o.method.params.mapIdx parameterName).zip (o.paramTypes.map nested))
    (nested o.resultType)

theorem application_cases (u : Universe) (raw : String) (args : List HostType) :
    (Structural.parts u (.generic raw args) = [] ∧
      ∃ o : Outline, o.classes = [] ∧ ∀ nested, application u nested raw args = o) ∨
    (∃ kind t, Structural.parts u (.generic raw args) = [t] ∧
      ∀ nested, application u nested raw args = wrap kind (nested t)) ∨
    Structural.Container.ofName? raw = none ∧ u.contains raw = true ∧
      Structural.parts u (.generic raw args) = args ∧
      ∀ nested, application u nested raw args = .reference raw (args.map nested) := by
  cases hk : Structural.Container.ofName? raw with
  | some kind =>
    have hparts : Structural.parts u (.generic raw args) = (kind.argument? args).toList := by
      simp only [Structural.parts, hk]
    have heq (nested : HostType → Outline) :
        application u nested raw args = wrap kind ((kind.argument? args).elim .any nested) := by
      simp only [application, hk]
    cases ha : kind.argument? args with
    | none =>
      rw [ha] at hparts
      simp only [ha] at heq
      exact .inl ⟨hparts, wrap kind .any, by cases kind <;> rfl, heq⟩
    | some t =>
      rw [ha] at hparts
      simp only [ha] at heq
      exact .inr (.inl ⟨kind, t, hparts, heq⟩)
  | none =>
    by_cases hc : u.contains raw = true
    · refine .inr (.inr ⟨rfl, hc, ?_, fun nested => ?_⟩)
      · simp only [Structural.parts, hk, hc, ↓reduceIte]
      · simp only [application, hk, hc, ↓reduceIte]
    · refine .inl ⟨?_, .any, rfl, fun nested => ?_⟩
      · simp only [Structural.parts, hk, hc, Bool.false_eq_true, ↓reduceIte]
      · simp only [application, hk, hc, Bool.false_eq_true, ↓reduceIte]

/-- A structural translation has no parts, wraps the one of its part, or refers to a declared class
with its parts for arguments. -/
theorem structural_cases (u : Universe) (type : HostType) :
    (Structural.parts u type = [] ∧ ∃ o : Outline, o.classes = [] ∧ ∀ nested,
      structural u nested type = o) ∨
    (∃ kind t, Structural.parts u type = [t] ∧ ∀ nested, structural u nested type =
      wrap kind (nested t)) ∨
    ∃ name, type.rawName? = some name ∧ Structural.Container.ofName? name = none ∧
      u.contains name = true ∧
      ∀ nested,
        structural u nested type = .reference name ((Structural.parts u type).map nested) := by
  cases type with
  | primitive p => exact .inl ⟨rfl, .primitive (Structural.primitive p), rfl, fun nested => rfl⟩
  | typeVar name => exact .inl ⟨rfl, .typeVar name, rfl, fun nested => rfl⟩
  | array e => exact .inr (.inl ⟨.collection, e, rfl, fun nested => rfl⟩)
  | named name =>
    rcases application_cases u name [] with
      ⟨-, hleaf⟩ | ⟨kind, t, hparts, -⟩ | ⟨hlibrary, hc, -, heq⟩
    · exact .inl ⟨rfl, hleaf⟩
    · rw [Structural.parts_generic_nil] at hparts
      cases hparts
    · exact .inr (.inr ⟨name, rfl, hlibrary, hc, heq⟩)
  | generic raw args =>
    rcases application_cases u raw args with hleaf | hwrap | ⟨hlibrary, hc, hparts, heq⟩
    · exact .inl hleaf
    · exact .inr (.inl hwrap)
    · refine .inr (.inr ⟨raw, rfl, hlibrary, hc, fun nested => ?_⟩)
      rw [hparts]
      exact heq nested

theorem structural_congr {u : Universe} {nested other : HostType → Outline} {type : HostType}
    (h : ∀ t ∈ Structural.parts u type, nested t = other t) :
    structural u nested type = structural u other type := by
  rcases structural_cases u type with ⟨-, o, -, heq⟩ | ⟨kind, t, hparts, heq⟩ | ⟨name, -, -, -, heq⟩
  · rw [heq, heq]
  · rw [heq, heq, h t (by simp [hparts])]
  · rw [heq, heq, List.map_congr_left h]

/-- Of a universe only the class that the type names matters. -/
theorem structural_of_contains {u v : Universe} {type : HostType}
    (h : ∀ name, type.rawName? = some name → v.contains name = u.contains name)
    (nested : HostType → Outline) : structural v nested type = structural u nested type := by
  cases type with
  | named name => simp only [structural, application, h name rfl]
  | generic raw args => simp only [structural, application, h raw rfl]
  | _ => rfl

theorem ofOpened_congr {o : Opened} {nested other : HostType → Outline}
    (h : ∀ t ∈ o.paramTypes ++ [o.resultType], nested t = other t) :
    ofOpened o nested = ofOpened o other := by
  have hparams : o.paramTypes.map nested = o.paramTypes.map other :=
    List.map_congr_left fun t ht => h t (List.mem_append_left _ ht)
  rw [ofOpened, ofOpened, hparams, h o.resultType (by simp)]

end Outline

section Fixpoint

variable (mode : FunctionalMode) (u : Universe)

/-- One step of the chain, with nested resolutions left open. -/
def outlineStep (nested : List HostType → HostType → Outline) (inProgress : List HostType)
    (type : HostType) : Outline :=
  match opened? mode u inProgress type with
  | some o => .ofOpened o (nested (type :: inProgress))
  | none => .structural u (nested inProgress) type

/-- The step iterated; types nested deeper than `depth` are cut off. -/
def outlineWithin : Nat → List HostType → HostType → Outline
  | 0 => fun _ _ => .any
  | depth + 1 => outlineStep mode u (outlineWithin depth)

def arenaOf (type : HostType) : List HostType :=
  (type :: u.writtenTypes).flatMap HostType.subterms

/-- What the standard chain arrives at for a type outside any override, symbols apart. -/
def outline (inProgress : List HostType) (type : HostType) : Outline :=
  let limit := HostType.sizeAll (type :: u.writtenTypes)
  outlineWithin mode u (need (arenaOf u type) limit inProgress type) inProgress type

variable {mode u}

theorem outlineStep_congr {nested other : List HostType → HostType → Outline}
    {inProgress : List HostType} {type : HostType}
    (h : ∀ c ∈ calls mode u inProgress type, nested c.1 c.2 = other c.1 c.2) :
    outlineStep mode u nested inProgress type = outlineStep mode u other inProgress type := by
  unfold outlineStep
  cases ho : opened? mode u inProgress type with
  | some o =>
    exact Outline.ofOpened_congr fun t ht => h (type :: inProgress, t) (mem_calls_of_opened ho ht)
  | none => exact Outline.structural_congr fun t ht => h (inProgress, t) (mem_calls_of_part ho ht)

theorem arena_arenaOf (type : HostType) :
    Arena u (HostType.sizeAll (type :: u.writtenTypes)) (arenaOf u type) :=
  Arena.ofSubterms (List.subset_cons_self ..)

theorem mem_arenaOf (type : HostType) : type ∈ arenaOf u type :=
  List.mem_flatMap.2 ⟨type, List.mem_cons_self, type.self_mem_subterms⟩

theorem outlineWithin_eq {limit : Nat} {types : List HostType}
    (ha : Arena u limit types) (depth : Nat) :
    ∀ (other : Nat) (inProgress : List HostType) (type : HostType), type ∈ types →
      need types limit inProgress type ≤ depth → need types limit inProgress type ≤ other →
        outlineWithin mode u depth inProgress type =
          outlineWithin mode u other inProgress type := by
  induction depth with
  | zero =>
    intro other inProgress type _ hd
    have hpos := type.one_le_size
    unfold need at hd
    omega
  | succ depth ih =>
    intro other inProgress type ht hd ho
    cases other with
    | zero =>
      have hpos := type.one_le_size
      unfold need at ho
      omega
    | succ other =>
      refine outlineStep_congr fun c hc => ?_
      have hlt := need_lt ha ht hc
      exact ih other c.1 c.2 (mem_of_mem_calls ha ht hc) (by omega) (by omega)

/-- Any arena is as good as the one in the definition. -/
theorem outlineWithin_eq_outline {limit : Nat} {types : List HostType} (ha : Arena u limit types)
    {depth : Nat} {inProgress : List HostType} {type : HostType} (ht : type ∈ types)
    (hd : need types limit inProgress type ≤ depth) :
    outlineWithin mode u depth inProgress type = outline mode u inProgress type := by
  let own := need (arenaOf u type) (HostType.sizeAll (type :: u.writtenTypes)) inProgress type
  calc outlineWithin mode u depth inProgress type
      = outlineWithin mode u (max depth own) inProgress type :=
        outlineWithin_eq ha depth _ inProgress type ht hd (Nat.le_trans hd (Nat.le_max_left ..))
    _ = outline mode u inProgress type :=
        outlineWithin_eq (arena_arenaOf type) _ own inProgress type (mem_arenaOf type)
          (Nat.le_max_right ..) (Nat.le_refl _)

/-- **The outline is a fixed point of the chain's step.** -/
theorem outline_eq (inProgress : List HostType) (type : HostType) :
    outline mode u inProgress type = outlineStep mode u (outline mode u) inProgress type := by
  have ha := arena_arenaOf (u := u) type
  have ht := mem_arenaOf (u := u) type
  rw [← outlineWithin_eq_outline ha ht (Nat.le_succ _)]
  refine outlineStep_congr fun c hc => ?_
  exact outlineWithin_eq_outline ha (mem_of_mem_calls ha ht hc) (Nat.le_of_lt (need_lt ha ht hc))

theorem outline_of_opened {inProgress : List HostType} {type : HostType} {o : Opened}
    (h : opened? mode u inProgress type = some o) :
    outline mode u inProgress type = .ofOpened o (outline mode u (type :: inProgress)) := by
  rw [outline_eq, outlineStep, h]

theorem outline_of_not_opened {inProgress : List HostType} {type : HostType}
    (h : opened? mode u inProgress type = none) :
    outline mode u inProgress type = .structural u (outline mode u inProgress) type := by
  rw [outline_eq, outlineStep, h]

/-- What holds of a resolution if it holds of all resolutions nested in it holds of every
resolution. -/
theorem outlineInduction {motive : List HostType → HostType → Prop}
    (step : ∀ inProgress type, (∀ c ∈ calls mode u inProgress type, motive c.1 c.2) →
      motive inProgress type) (inProgress : List HostType) (type : HostType) :
        motive inProgress type := by
  have ha := arena_arenaOf (u := u) type
  have covered : ∀ (depth : Nat) (inProgress : List HostType), ∀ t ∈ arenaOf u type,
      need (arenaOf u type) (HostType.sizeAll (type :: u.writtenTypes)) inProgress t < depth →
        motive inProgress t := by
    intro depth
    induction depth with
    | zero => intro inProgress t _ hd; omega
    | succ depth ih =>
      intro inProgress t ht hd
      refine step inProgress t fun c hc => ?_
      have hlt := need_lt ha ht hc
      exact ih c.1 c.2 (mem_of_mem_calls ha ht hc) (by omega)
  exact covered _ inProgress type (mem_arenaOf type) (Nat.lt_succ_self _)

end Fixpoint

end TypeBridge
