import Mathlib.Data.String.Basic
import TypeBridge.Model.Render

/-!
# The order of a text

A text is made of the texts of its declarations, and sorting only moves these
(`Model.render_arranged`).  `StablySorted` says what sorting by name is without saying how it is
done: the same elements, ordered by the code points of their names, with those of one name in the
order they had.  There is one such list (`StablySorted.unique`), which is what the sorts of a model
and of a bean make (`stablySorted_mergeSort`).
-/

namespace TypeBridge

/-! ## Names in order -/

/-- A name as the code points of its characters. -/
def codes (name : String) : List Nat :=
  name.toList.map Char.toNat

theorem map_toNat_lt_iff {s t : List Char} : s.map Char.toNat < t.map Char.toNat ↔ s < t := by
  induction s generalizing t with
  | nil => cases t <;> simp
  | cons c s ih =>
    cases t with
    | nil => simp
    | cons d t =>
      have hcd : c.toNat < d.toNat ↔ c < d := Iff.rfl
      simp only [List.map_cons, List.cons_lt_cons_iff, ih, Char.toNat_inj, hcd]

/-- Names are compared by code points. -/
theorem codes_le_iff {m n : String} : codes m ≤ codes n ↔ m ≤ n := by
  rw [String.le_iff_toList_le, ← not_lt, ← not_lt, codes, codes, map_toNat_lt_iff]

/-! ## Sorted lists -/

section

variable {α : Type} {name : α → String} {xs ys zs : List α}

/-- `ys` is `xs` sorted by name, and those of one name are left in their order. -/
structure StablySorted (name : α → String) (xs ys : List α) : Prop where
  perm : ys.Perm xs
  ordered : ys.Pairwise fun a b => codes (name a) ≤ codes (name b)
  kept : ∀ n, ys.filter (fun a => name a = n) = xs.filter fun a => name a = n

/-- A list in the order of names is known by what it has under each name. -/
theorem eq_of_filter_eq (hys : ys.Pairwise fun a b => codes (name a) ≤ codes (name b))
    (hzs : zs.Pairwise fun a b => codes (name a) ≤ codes (name b)) (hperm : ys.Perm zs)
    (h : ∀ n, ys.filter (fun a => name a = n) = zs.filter fun a => name a = n) : ys = zs := by
  induction ys generalizing zs with
  | nil => exact hperm.nil_eq
  | cons y ys ih =>
    cases zs with
    | nil => exact absurd hperm.length_eq nofun
    | cons z zs =>
      obtain ⟨hy, hys'⟩ := List.pairwise_cons.1 hys
      obtain ⟨hz, hzs'⟩ := List.pairwise_cons.1 hzs
      -- Both heads have the least name, and so they are the first under it.
      have hname : name y = name z := by
        refine String.le_antisymm ?_ ?_
        · rcases List.mem_cons.1 (hperm.mem_iff.2 List.mem_cons_self) with rfl | hmem
          · exact String.le_refl _
          · exact codes_le_iff.1 (hy z hmem)
        · rcases List.mem_cons.1 (hperm.mem_iff.1 List.mem_cons_self) with rfl | hmem
          · exact String.le_refl _
          · exact codes_le_iff.1 (hz y hmem)
      have hheads := h (name y)
      rw [List.filter_cons_of_pos (by simp), List.filter_cons_of_pos (by simp [hname])] at hheads
      obtain rfl : y = z := (List.cons.inj hheads).1
      refine congrArg (y :: ·) (ih hys' hzs' hperm.cons_inv fun n => ?_)
      have htails := h n
      simp only [List.filter_cons] at htails
      split at htails
      · exact (List.cons.inj htails).2
      · exact htails

/-- Sorting by name leaves no choice. -/
theorem StablySorted.unique (hys : StablySorted name xs ys) (hzs : StablySorted name xs zs) :
    ys = zs :=
  eq_of_filter_eq hys.ordered hzs.ordered (hys.perm.trans hzs.perm.symm) fun n =>
    (hys.kept n).trans (hzs.kept n).symm

theorem stablySorted_mergeSort (name : α → String) (xs : List α) :
    StablySorted name xs (xs.mergeSort fun a b => decide (name a ≤ name b)) := by
  have htrans (a b c : α) : decide (name a ≤ name b) = true → decide (name b ≤ name c) = true →
      decide (name a ≤ name c) = true := by
    simpa only [decide_eq_true_eq] using String.le_trans
  have htotal (a b : α) : (decide (name a ≤ name b) || decide (name b ≤ name a)) = true := by
    simpa using String.le_total (name a) (name b)
  have hperm := List.mergeSort_perm xs fun a b => decide (name a ≤ name b)
  refine ⟨hperm, (List.pairwise_mergeSort htrans htotal xs).imp
    fun h => codes_le_iff.2 (of_decide_eq_true h), fun n => ?_⟩
  -- What has one name is in order already, so sorting keeps it as a part of the list.
  have hsame : (xs.filter fun a => name a = n).Pairwise fun a b =>
      decide (name a ≤ name b) = true := by
    refine List.pairwise_of_forall_mem_list fun a ha b hb => ?_
    have hab : name a = name b := (of_decide_eq_true (List.mem_filter.1 ha).2).trans
      (of_decide_eq_true (List.mem_filter.1 hb).2).symm
    rw [hab]
    exact decide_eq_true (String.le_refl _)
  have hsub := (List.sublist_mergeSort htrans htotal hsame List.filter_sublist).filter fun a =>
    decide (name a = n)
  simp only [List.filter_filter, Bool.and_self] at hsub
  exact (hsub.eq_of_length (hperm.filter _).length_eq.symm).symm

/-- `ys` is `xs`, by name if that is asked for. -/
def Arranged (sort : Bool) (name : α → String) (xs ys : List α) : Prop :=
  if sort then StablySorted name xs ys else ys = xs

/-- There is one way to arrange a list. -/
theorem arranged_iff {sort : Bool} :
    Arranged sort name xs ys ↔
      ys = if sort then xs.mergeSort fun a b => decide (name a ≤ name b) else xs := by
  cases sort with
  | false => exact Iff.rfl
  | true =>
    constructor
    · exact fun h => StablySorted.unique h (stablySorted_mergeSort name xs)
    · rintro rfl
      exact stablySorted_mergeSort name xs

end

/-! ## Declarations of any kind -/

/-- The text of a bean with its members in some order. -/
def Bean.textWith (b : Bean) (indent : String) (properties : List Property)
    (methods : List Method) : String :=
  Comment.block "" b.comments ++ b.header ++ " \x7b\n" ++
    String.join (properties.map (·.render indent)) ++ String.join (methods.map (·.render indent)) ++
      "\x7d\n"

/-- A declaration of a model. -/
inductive Item where
  | bean (b : Bean)
  | enumeration (e : Enumeration)
  | external (e : External)

namespace Item

/-- The name by which a declaration is sorted. -/
def name : Item → String
  | .bean b => b.symbol.name
  | .enumeration e => e.symbol.name
  | .external e => e.name

def text (settings : Settings) : Item → String
  | .bean b => (if settings.sortMembers then b.sortMembers else b).render settings.indent
  | .enumeration e => e.render
  | .external e => e.render

/-- **Sorting members moves properties among properties and methods among methods**, and nothing
else of a bean. -/
theorem exists_text_bean (settings : Settings) (b : Bean) :
    ∃ properties methods,
      (∀ other, Arranged settings.sortMembers Property.name b.properties other ↔
        other = properties) ∧
      (∀ other, Arranged settings.sortMembers Method.name b.methods other ↔ other = methods) ∧
      (Item.bean b).text settings = b.textWith settings.indent properties methods := by
  refine ⟨_, _, fun other => arranged_iff, fun other => arranged_iff, ?_⟩
  unfold text
  cases settings.sortMembers <;> rfl

end Item

namespace Model

/-- All declarations, in the order of discovery. -/
def items (m : Model) : List Item :=
  m.beans.map .bean ++ m.enumerations.map .enumeration ++ m.externals.map .external

theorem declarations_eq (settings : Settings) (m : Model) :
    m.declarations settings = m.items.map fun i => (i.name, i.text settings) := by
  simp only [declarations, items, List.map_append, List.map_map]
  rfl

theorem sortByName_map (settings : Settings) (items : List Item) :
    sortByName (items.map fun i => (i.name, i.text settings)) =
      (items.mergeSort fun i j => decide (i.name ≤ j.name)).map fun i =>
        (i.name, i.text settings) :=
  (List.map_mergeSort (f := fun i : Item => (i.name, i.text settings)) fun _ _ _ _ => rfl).symm

/-- **Writing only reorders.**  The text of a model is that of its declarations, each once and
behind an empty line: the beans, the enumerations and the externals in the order of discovery, or
this list by name.  The members of a bean are arranged likewise, its properties and its methods
apart. -/
theorem render_arranged (settings : Settings) (m : Model) :
    (∃ items,
      (∀ other, Arranged settings.sortDeclarations Item.name m.items other ↔ other = items) ∧
      m.render settings = String.join (items.map fun i => "\n" ++ i.text settings)) ∧
    ∀ b, ∃ properties methods,
      (∀ other, Arranged settings.sortMembers Property.name b.properties other ↔
        other = properties) ∧
      (∀ other, Arranged settings.sortMembers Method.name b.methods other ↔ other = methods) ∧
      (Item.bean b).text settings = b.textWith settings.indent properties methods := by
  refine ⟨⟨_, fun other => arranged_iff, ?_⟩, Item.exists_text_bean settings⟩
  simp only [render, declarations_eq, sortByName_map]
  cases settings.sortDeclarations <;> simp only [Bool.false_eq_true, ↓reduceIte,
    List.map_map] <;> rfl

end Model

end TypeBridge
