import TypeBridge.Generator

/-!
# Parts of types

`subterms` lists the nodes of a type, the type itself first; there are `size` of them.  An `Arena`
is a list of types that has all parts of its members and everything that the classes of a universe
write in their members and super types.  Resolution never leaves one (see `Calls`), so its length
bounds the recursion.
-/

namespace TypeBridge

namespace HostType

mutual

/-- The nodes of a type, each as the type below it. -/
def subterms : HostType → List HostType
  | .primitive p => [.primitive p]
  | .named n => [.named n]
  | .generic r args => .generic r args :: subtermsAll args
  | .typeVar n => [.typeVar n]
  | .array e => .array e :: subterms e

def subtermsAll : List HostType → List HostType
  | [] => []
  | a :: rest => subterms a ++ subtermsAll rest

end

theorem subtermsAll_eq_flatMap (ts : List HostType) : subtermsAll ts = ts.flatMap subterms := by
  induction ts with
  | nil => rfl
  | cons t ts ih => simp only [subtermsAll, List.flatMap_cons, ih]

theorem self_mem_subterms (t : HostType) : t ∈ t.subterms := by
  cases t <;> simp [subterms]

mutual

theorem length_subterms : ∀ t : HostType, t.subterms.length = t.size
  | .primitive _ => rfl
  | .named _ => rfl
  | .generic _ args => by simp [subterms, size, length_subtermsAll args, Nat.add_comm]
  | .typeVar _ => rfl
  | .array e => by simp [subterms, size, length_subterms e, Nat.add_comm]

theorem length_subtermsAll : ∀ ts : List HostType, (subtermsAll ts).length = sizeAll ts
  | [] => rfl
  | t :: ts => by simp [subtermsAll, sizeAll, length_subterms t, length_subtermsAll ts]

end

theorem sizeAll_append (ss ts : List HostType) : sizeAll (ss ++ ts) = sizeAll ss + sizeAll ts := by
  rw [← length_subtermsAll, ← length_subtermsAll, ← length_subtermsAll]
  simp [subtermsAll_eq_flatMap]

theorem mem_subterms_of_mem_args {r : String} {args : List HostType} {a : HostType} (h : a ∈ args) :
    a ∈ (generic r args).subterms := by
  rw [subterms, subtermsAll_eq_flatMap]
  exact List.mem_cons_of_mem _ (List.mem_flatMap.2 ⟨a, h, self_mem_subterms a⟩)

theorem subterms_trans {s t : HostType} (h : s ∈ t.subterms) : s.subterms ⊆ t.subterms := by
  induction t using nestedInduction with
  | primitive p => simp_all [subterms]
  | named n => simp_all [subterms]
  | typeVar n => simp_all [subterms]
  | array e ih =>
    rcases List.mem_cons.1 h with rfl | h
    · exact List.Subset.refl _
    · exact List.Subset.trans (ih h) (List.subset_cons_self ..)
  | generic r args ih =>
    rcases List.mem_cons.1 h with rfl | h
    · exact List.Subset.refl _
    · rw [subtermsAll_eq_flatMap] at h
      obtain ⟨a, ha, hs⟩ := List.mem_flatMap.1 h
      have hargs : a.subterms ⊆ subtermsAll args := fun x hx => by
        rw [subtermsAll_eq_flatMap]
        exact List.mem_flatMap.2 ⟨a, ha, hx⟩
      exact List.Subset.trans (ih a ha hs) (List.Subset.trans hargs (List.subset_cons_self ..))

theorem size_le_of_mem_subterms {s t : HostType} (h : s ∈ t.subterms) : s.size ≤ t.size := by
  induction t using nestedInduction with
  | primitive p => simp_all [subterms]
  | named n => simp_all [subterms]
  | typeVar n => simp_all [subterms]
  | array e ih =>
    rcases List.mem_cons.1 h with rfl | h
    · exact Nat.le_refl _
    · exact Nat.le_trans (ih h) (Nat.le_add_left ..)
  | generic r args ih =>
    rcases List.mem_cons.1 h with rfl | h
    · exact Nat.le_refl _
    · rw [subtermsAll_eq_flatMap] at h
      obtain ⟨a, ha, hs⟩ := List.mem_flatMap.1 h
      have hle : s.size ≤ sizeAll args := Nat.le_trans (ih a ha hs) (size_le_sizeAll ha)
      exact Nat.le_trans hle (Nat.le_add_left ..)

end HostType

/-! ## What a universe writes -/

/-- The types written in the members and super types of all classes. -/
def Universe.writtenTypes (u : Universe) : List HostType :=
  u.classes.flatMap (·.writtenTypes)

namespace ClassDecl

variable {d : ClassDecl} {type : HostType}

theorem mem_writtenTypes_of_superTypes (h : type ∈ d.superTypes) : type ∈ d.writtenTypes := by
  simp [writtenTypes, h]

theorem mem_writtenTypes_of_fields {f : FieldDecl} (h : f ∈ d.fields) :
    f.type ∈ d.writtenTypes := by
  have hm : f.type ∈ d.fields.map (·.type) := List.mem_map_of_mem h
  simp [writtenTypes, -List.mem_map, hm]

theorem mem_writtenTypes_of_methods {m : MethodDecl} (h : m ∈ d.methods)
    (ht : type ∈ m.returnType :: m.params.map (·.type)) : type ∈ d.writtenTypes := by
  have hm : type ∈ d.methods.flatMap fun m => m.returnType :: m.params.map (·.type) :=
    List.mem_flatMap.2 ⟨m, h, ht⟩
  simp only [writtenTypes, List.mem_append]
  exact .inl (.inr hm)

end ClassDecl

/-! ## Arenas -/

/-- A stock of types that has the parts of its members and what the universe writes, none of them
larger than `limit`. -/
structure Arena (u : Universe) (limit : Nat) (types : List HostType) : Prop where
  written : ∀ d ∈ u.classes, ∀ t ∈ d.writtenTypes, t ∈ types
  argument : ∀ {r args}, .generic r args ∈ types → ∀ a ∈ args, a ∈ types
  element : ∀ {e}, .array e ∈ types → e ∈ types
  size_le : ∀ t ∈ types, t.size ≤ limit

/-- The parts of a list of types make an arena if everything written is in the list. -/
theorem Arena.ofSubterms {u : Universe} {ts : List HostType} (h : u.writtenTypes ⊆ ts) :
    Arena u (HostType.sizeAll ts) (ts.flatMap HostType.subterms) := by
  have below : ∀ {s t}, t ∈ ts.flatMap HostType.subterms → s ∈ t.subterms →
      s ∈ ts.flatMap HostType.subterms := fun {s t} ht hs => by
    obtain ⟨root, hroot, ht⟩ := List.mem_flatMap.1 ht
    exact List.mem_flatMap.2 ⟨root, hroot, HostType.subterms_trans ht hs⟩
  refine ⟨fun d hd t ht => ?_, fun {r args} hg a ha => ?_, fun {e} ha => ?_, fun t ht => ?_⟩
  · have hwritten : t ∈ u.writtenTypes := List.mem_flatMap.2 ⟨d, hd, ht⟩
    exact List.mem_flatMap.2 ⟨t, h hwritten, t.self_mem_subterms⟩
  · exact below hg (HostType.mem_subterms_of_mem_args ha)
  · exact below ha (List.mem_cons_of_mem _ e.self_mem_subterms)
  · obtain ⟨root, hroot, ht⟩ := List.mem_flatMap.1 ht
    exact Nat.le_trans (HostType.size_le_of_mem_subterms ht) (HostType.size_le_sizeAll hroot)

end TypeBridge
