import TypeBridge.Host.Primitive

/-!
# Uses of host types

A `HostType` is one use of a type of the host language.  Equality is structural: two uses of the
same generic class with the same arguments are one type, wherever they were found.

`text` writes a type, `bind` turns the names that a declaration binds into type variables,
`rawName?` is the class a use refers to, and `symbolBase` the name its declaration would like to
have.
-/

namespace TypeBridge

inductive HostType where
  | primitive (kind : HostPrimitive)
  /-- A class, interface or enumeration without arguments. -/
  | named (name : String)
  /-- A generic class applied to arguments. -/
  | generic (raw : String) (args : List HostType)
  /-- A type parameter of the enclosing declaration. -/
  | typeVar (name : String)
  | array (element : HostType)
deriving Inhabited, Repr

namespace HostType

/-! ## Equality -/

mutual

def same : HostType → HostType → Bool
  | .primitive p, .primitive q => p == q
  | .named a, .named b => a == b
  | .generic r as, .generic s bs => r == s && sameAll as bs
  | .typeVar a, .typeVar b => a == b
  | .array a, .array b => same a b
  | _, _ => false

def sameAll : List HostType → List HostType → Bool
  | [], [] => true
  | a :: as, b :: bs => same a b && sameAll as bs
  | _, _ => false

end

mutual

theorem same_iff : ∀ s t : HostType, same s t = true ↔ s = t
  | .primitive p, t => by cases t <;> simp [same]
  | .named a, t => by cases t <;> simp [same]
  | .generic r as, t => by
    cases t with
    | generic s bs => simp [same, sameAll_iff as bs]
    | _ => simp [same]
  | .typeVar a, t => by cases t <;> simp [same]
  | .array a, t => by
    cases t with
    | array b => simp [same, same_iff a b]
    | _ => simp [same]

theorem sameAll_iff : ∀ as bs : List HostType, sameAll as bs = true ↔ as = bs
  | [], bs => by cases bs <;> simp [sameAll]
  | a :: as, bs => by
    cases bs with
    | nil => simp [sameAll]
    | cons b bs => simp [sameAll, same_iff a b, sameAll_iff as bs]

end

instance : DecidableEq HostType := fun s t => decidable_of_iff _ (same_iff s t)

/-! ## Induction -/

/-- Induction on a type with a hypothesis for every argument of a generic one. -/
@[elab_as_elim]
theorem nestedInduction {motive : HostType → Prop} (primitive : ∀ p, motive (.primitive p))
    (named : ∀ n, motive (.named n))
    (generic : ∀ r args, (∀ a ∈ args, motive a) → motive (.generic r args))
    (typeVar : ∀ n, motive (.typeVar n)) (array : ∀ e, motive e → motive (.array e)) :
    ∀ t, motive t
  | .primitive p => primitive p
  | .named n => named n
  | .generic r args =>
    generic r args fun a _ => nestedInduction primitive named generic typeVar array a
  | .typeVar n => typeVar n
  | .array e => array e (nestedInduction primitive named generic typeVar array e)

/-! ## Text -/

mutual

/-- The type as it is written. -/
def text : HostType → String
  | .primitive p => p.spelling
  | .named n => n
  | .generic r args => r ++ "<" ++ textList args ++ ">"
  | .typeVar n => n
  | .array e => text e ++ "[]"

/-- Several types, separated by a comma and a blank. -/
def textList : List HostType → String
  | [] => ""
  | [a] => text a
  | a :: b :: rest => text a ++ ", " ++ textList (b :: rest)

end

/-! ## Names -/

/-- The class a use refers to. -/
def rawName? : HostType → Option String
  | .named n => some n
  | .generic r _ => some r
  | _ => none

/-- The name that the declaration of a type would like to have. -/
def symbolBase : HostType → String
  | .named n => simpleName n
  | .generic r _ => simpleName r
  | .primitive p => p.spelling
  | .typeVar n => n
  | .array e => symbolBase e ++ "Array"

/-! ## Binding -/

mutual

/-- Bare names among `params` become type variables.  A class that is applied to arguments keeps its
name, whatever the parameters are. -/
def bind (params : List String) : HostType → HostType
  | .named n => if n ∈ params then .typeVar n else .named n
  | .generic r args => .generic r (bindAll params args)
  | .array e => .array (bind params e)
  | .primitive p => .primitive p
  | .typeVar n => .typeVar n

def bindAll (params : List String) : List HostType → List HostType
  | [] => []
  | a :: rest => bind params a :: bindAll params rest

end

theorem bindAll_eq_map (params : List String) (ts : List HostType) :
    bindAll params ts = ts.map (bind params) := by
  induction ts with
  | nil => rfl
  | cons t ts ih => simp [bindAll, ih]

/-! ## Size -/

mutual

/-- The number of nodes. -/
def size : HostType → Nat
  | .primitive _ => 1
  | .named _ => 1
  | .generic _ args => 1 + sizeAll args
  | .typeVar _ => 1
  | .array e => 1 + size e

def sizeAll : List HostType → Nat
  | [] => 0
  | a :: rest => size a + sizeAll rest

end

theorem one_le_size (t : HostType) : 1 ≤ t.size := by
  cases t <;> simp [size]

theorem size_le_sizeAll {t : HostType} {ts : List HostType} (h : t ∈ ts) : t.size ≤ sizeAll ts := by
  induction ts with
  | nil => cases h
  | cons u us ih =>
    rcases List.mem_cons.1 h with rfl | h
    · exact Nat.le_add_right ..
    · exact Nat.le_trans (ih h) (Nat.le_add_left ..)

end HostType

end TypeBridge
