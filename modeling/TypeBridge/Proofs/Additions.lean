import TypeBridge.Proofs.Arrangement

/-!
# Additions to a model

A model is built by additions, each of a bean, an enumeration or an external, and an addition may
fail.  The types that are claimed are held beside the lists of declarations, and a type is claimed
before its declaration is stored, so that they agree is an invariant: `Model.Kept`.  Every addition
keeps it, whether it succeeds or fails (`Model.Kept.run_addition`), and so it holds behind any
sequence of them (`Model.Kept.after`).  From there on a question about a type may be answered from
the claimed types as well as from the declarations (`Model.after_additions`).
-/

namespace TypeBridge

namespace Item

def source : Item → HostType
  | .bean b => b.source
  | .enumeration e => e.source
  | .external e => e.source

/-- The change that adds the declaration to a model. -/
def addition : Item → Model.Change
  | .bean b => Model.declare (.bean b)
  | .enumeration e => Model.declare (.enumeration e)
  | .external e => Model.declareExternal e

/-- `later` has the declaration behind those of its kind, and all others as `m` has them. -/
def Appended (m later : Model) : Item → Prop
  | .bean b =>
    later.beans = m.beans ++ [b] ∧ later.enumerations = m.enumerations ∧
      later.externals = m.externals
  | .enumeration e =>
    later.beans = m.beans ∧ later.enumerations = m.enumerations ++ [e] ∧
      later.externals = m.externals
  | .external e =>
    later.beans = m.beans ∧ later.enumerations = m.enumerations ∧
      later.externals = m.externals ++ [e]

variable {m later : Model} {i : Item}

/-- An addition for a claimed type fails before it has changed anything. -/
theorem run_addition_of_contains (h : m.contains i.source = true) :
    i.addition.run m = (.error (.alreadyDeclared i.source), m) := by
  cases i with
  | bean b => exact (Model.run_declare m (.bean b)).trans (if_pos h)
  | enumeration e => exact (Model.run_declare m (.enumeration e)).trans (if_pos h)
  | external e => exact (Model.run_declareExternal m e).trans (if_pos h)

/-- Any other addition claims its type and stores its declaration. -/
theorem exists_run_addition (h : m.contains i.source = false) :
    ∃ later, i.addition.run m = (.ok (), later) ∧ later.claimed = m.claimed ++ [i.source] ∧
      later.sources.Perm (m.sources ++ [i.source]) ∧ i.Appended m later := by
  have hfree : ¬m.contains i.source = true := Bool.not_eq_true _ ▸ h
  cases i with
  | bean b =>
    refine ⟨_, (Model.run_declare m (.bean b)).trans (if_neg hfree), rfl, ?_, rfl, rfl, rfl⟩
    exact Model.sources_store _ (.bean b)
  | enumeration e =>
    refine ⟨_, (Model.run_declare m (.enumeration e)).trans (if_neg hfree), rfl, ?_, rfl, rfl, rfl⟩
    exact Model.sources_store _ (.enumeration e)
  | external e =>
    refine ⟨_, (Model.run_declareExternal m e).trans (if_neg hfree), rfl, ?_, rfl, rfl, rfl⟩
    exact .of_eq (Model.sources_storeExternal _ e)

end Item

namespace Model

variable {m : Model}

/-- The model behind some additions, whether they succeed or fail. -/
def after (m : Model) : List Item → Model
  | [] => m
  | i :: rest => (i.addition.run m).2.after rest

theorem Kept.run_addition (h : m.Kept) (i : Item) : (i.addition.run m).2.Kept := by
  cases hcontains : m.contains i.source with
  | true => rwa [Item.run_addition_of_contains hcontains]
  | false =>
    obtain ⟨later, hrun, hclaimed, hsources, -⟩ := Item.exists_run_addition hcontains
    rw [hrun]
    exact h.of_perm hcontains hclaimed hsources

theorem Kept.after (h : m.Kept) (additions : List Item) : (m.after additions).Kept := by
  induction additions generalizing m with
  | nil => exact h
  | cons i rest ih => exact ih (h.run_addition i)

theorem mem_sources_iff {source : HostType} :
    source ∈ m.sources ↔
      (∃ b ∈ m.beans, b.source = source) ∨ (∃ e ∈ m.enumerations, e.source = source) ∨
      ∃ e ∈ m.externals, e.source = source := by
  simp only [sources, List.mem_append, List.mem_map, or_assoc]

/-- **The claimed types are those with a declaration.**  Behind any additions to an empty model,
failed ones among them, a model contains just the types of its beans, enumerations and externals, it
is as large as these lists together, and no two of them have one type.  The next addition fails if
the model contains its type, and then leaves the model just as it is; otherwise it succeeds, and one
of the lists is longer by its declaration. -/
theorem after_additions (additions : List Item) :
    let m := empty.after additions
    (∀ source, m.contains source = true ↔ (∃ b ∈ m.beans, b.source = source) ∨
      (∃ e ∈ m.enumerations, e.source = source) ∨ ∃ e ∈ m.externals, e.source = source) ∧
    m.size = m.beans.length + m.enumerations.length + m.externals.length ∧
    (m.beans.map (·.source) ++ m.enumerations.map (·.source) ++ m.externals.map (·.source)).Nodup ∧
    ∀ i : Item,
      (m.contains i.source = true → i.addition.run m = (.error (.alreadyDeclared i.source), m)) ∧
      (m.contains i.source = false → ∃ later, i.addition.run m = (.ok (), later) ∧
        i.Appended m later) := by
  intro m
  have hkept : m.Kept := Kept.empty.after additions
  refine ⟨fun source => ?_, ?_, hkept.distinct,
    fun i => ⟨Item.run_addition_of_contains, fun hfree => ?_⟩⟩
  · rw [hkept.contains_iff, mem_sources_iff]
  · exact hkept.perm.length_eq.trans m.length_sources
  · obtain ⟨later, hrun, -, -, happended⟩ := Item.exists_run_addition hfree
    exact ⟨later, hrun, happended⟩

-- Of two declarations for one type the second is refused, whatever its kind.
example :
    let m := empty.after
      [.bean { source := .named "a.Api", symbol := ⟨0, "Api"⟩ },
        .external ⟨.named "a.Api", "Api", "interface Api;"⟩,
        .enumeration { source := .named "a.Kind", symbol := ⟨1, "Kind"⟩ }]
    m.sources = [.named "a.Api", .named "a.Kind"] ∧ m.size = 2 ∧
    m.contains (.named "Api") = false := by
  decide

end Model

end TypeBridge
