import TypeBridge.Proofs.Mirror

/-!
# Unmentioned classes

A class that no type of a universe mentions, nor the roots, has no influence on what is generated,
whatever it is like itself (`generate_insert`).  It changes the result of a single lookup, the one
of its own name, and no type in sight of the run has that name.
-/

namespace TypeBridge

/-- The class stands somewhere in the type, with or without arguments. -/
def HostType.Mentions (type : HostType) (name : String) : Prop :=
  ∃ part ∈ type.subterms, part.rawName? = some name

instance (type : HostType) (name : String) : Decidable (type.Mentions name) :=
  inferInstanceAs (Decidable (∃ part ∈ type.subterms, part.rawName? = some name))

/-! ## A class more -/

namespace Universe

variable {u : Universe} {c d : ClassDecl} {cs : List ClassDecl} {name : String}

theorem find?_insertByName (h : d.name ≠ name) :
    (insertByName d cs).find? (·.name == name) = cs.find? (·.name == name) := by
  have hskip : (d.name == name) = false := by simpa using h
  induction cs with
  | nil => rw [insertByName, List.find?_cons, hskip]
  | cons c rest ih =>
    unfold insertByName
    split
    · rw [List.find?_cons, hskip]
    · split
      · next heq => rw [List.find?_cons, List.find?_cons, ← heq, hskip]
      · rw [List.find?_cons, List.find?_cons, ih]

theorem mem_insertByName_of_mem (hc : c ∈ cs) (h : c.name ≠ d.name) : c ∈ insertByName d cs := by
  induction cs with
  | nil => cases hc
  | cons b rest ih =>
    unfold insertByName
    split
    · exact List.mem_cons_of_mem d hc
    · split
      · next heq =>
        rcases List.mem_cons.1 hc with rfl | hc
        · exact absurd heq.symm h
        · exact List.mem_cons_of_mem d hc
      · rcases List.mem_cons.1 hc with rfl | hc
        · exact List.mem_cons_self
        · exact List.mem_cons_of_mem b (ih hc)

theorem length_le_insertByName (d : ClassDecl) (cs : List ClassDecl) :
    cs.length ≤ (insertByName d cs).length := by
  induction cs with
  | nil => exact Nat.zero_le _
  | cons c rest ih =>
    unfold insertByName
    split
    · exact Nat.le_succ _
    · split
      · exact Nat.le_refl _
      · exact Nat.succ_le_succ ih

theorem get?_insert_of_ne (h : name ≠ d.name) : (u.insert d).get? name = u.get? name :=
  find?_insertByName (d := d.bind) h.symm

theorem name_ne_of_get?_eq_none (hnew : u.get? d.name = none) (hc : c ∈ u.classes) :
    c.name ≠ d.name := by
  simpa using List.find?_eq_none.1 hnew c hc

theorem classes_subset_insert (hnew : u.get? d.name = none) :
    u.classes ⊆ (u.insert d).classes := fun _ hc =>
  mem_insertByName_of_mem (d := d.bind) hc (name_ne_of_get?_eq_none hnew hc)

theorem discoverable_subset_insert (hnew : u.get? d.name = none) :
    u.discoverable ⊆ (u.insert d).discoverable := by
  have hclasses := classes_subset_insert hnew
  have hextra : u.extraTypes ⊆ (u.insert d).extraTypes := by
    intro t ht
    rcases List.mem_append.1 ht with ht | ht
    · obtain ⟨c, hc, ht⟩ := List.mem_flatMap.1 ht
      exact List.mem_append_left _ (List.mem_flatMap.2 ⟨c, hclasses hc, ht⟩)
    · exact List.mem_append_right _ ht
  intro t ht
  rcases List.mem_append.1 ht with ht | ht
  · exact List.mem_append_left _ (List.map_subset _ hclasses ht)
  · exact List.mem_append_right _ (hextra ht)

/-- No type in sight of a run has the name of an unmentioned class. -/
theorem rawName?_ne_of_inSight {roots : List HostType} (hnew : u.get? d.name = none)
    (hunmentioned : ∀ t ∈ u.writtenTypes ++ u.extraTypes ++ roots, ¬t.Mentions d.name)
    {t : HostType} (ht : t ∈ u.inSight roots) : t.rawName? ≠ some d.name := by
  intro hraw
  obtain ⟨whole, hwhole, hpart⟩ := List.mem_flatMap.1 ht
  have hmentions : whole.Mentions d.name := ⟨t, hpart, hraw⟩
  simp only [candidates, discoverable, List.mem_append] at hwhole
  rcases hwhole with hwritten | hroot | hclass | hextra
  · exact hunmentioned whole (by simp [hwritten]) hmentions
  · exact hunmentioned whole (by simp [hroot]) hmentions
  · obtain ⟨c, hc, rfl⟩ := List.mem_map.1 hclass
    obtain rfl := List.mem_singleton.1 hpart
    exact name_ne_of_get?_eq_none hnew hc (Option.some.inj hraw)
  · exact hunmentioned whole (by simp [hextra]) hmentions

theorem mirrored_insert (mode : FunctionalMode) {roots : List HostType}
    (hnew : u.get? d.name = none)
    (hunmentioned : ∀ t ∈ u.writtenTypes ++ u.extraTypes ++ roots, ¬t.Mentions d.name) :
    u.Mirrored mode roots (u.insert d) where
  providers := rfl
  length_le := length_le_insertByName d.bind u.classes
  candidates_subset := List.append_subset.2 ⟨List.subset_append_left ..,
    List.subset_append_of_subset_right _ (discoverable_subset_insert hnew)⟩
  agrees := fun t ht name hname => by
    have hne : name ≠ d.name := fun heq => rawName?_ne_of_inSight hnew hunmentioned ht (heq ▸ hname)
    rw [get?_insert_of_ne hne]
    cases u.get? name with
    | none => exact .none
    | some c => exact .some (.refl c)

end Universe

/-- **Unmentioned classes have no influence.**  A class of a new name that stands in no type of the
members, super types and tags of a universe, of its providers and of the roots can be added to the
universe, whatever it declares itself: the text or the failure is the same. -/
theorem generate_insert (settings : Settings) {u : Universe} {d : ClassDecl} {roots : List HostType}
    (hnew : u.get? d.name = none)
    (hunmentioned : ∀ t ∈ u.writtenTypes ++ u.extraTypes ++ roots, ¬t.Mentions d.name) :
    generate settings (u.insert d) roots = generate settings u roots :=
  (Universe.mirrored_insert settings.functionalMode hnew hunmentioned).generate_eq

/-- A functional interface below another one, with a tag of its own, beside a class that uses the
other one. -/
theorem generate_insert_interface :
    let run : MethodDecl :=
      { name := "run", params := [{ type := .typeVar "T" }], kind := .abstract }
    let u : Universe := .ofClasses
      [{ name := "A", fields := [{ name := "f", type := .generic "F" [.named "A"] }] },
        { name := "F", kind := .interface, typeParams := ["T"], methods := [run] }]
    let d : ClassDecl :=
      { name := "G", kind := .interface, superTypes := [.generic "F" [.named "A"]],
        functional := true, tags := [.verbatim "Custom" [.named "A"]],
        methods := [run, { run with name := "G" }] }
    u.get? d.name = none ∧
      (∀ t ∈ u.writtenTypes ++ u.extraTypes ++ [.named "A"], ¬t.Mentions d.name) ∧
      generate {} (u.insert d) [.named "A"] = generate {} u [.named "A"] := by
  intro run u d
  have hnew : u.get? d.name = none := by decide +kernel
  have hunmentioned : ∀ t ∈ u.writtenTypes ++ u.extraTypes ++ [.named "A"], ¬t.Mentions d.name := by
    decide +kernel
  exact ⟨hnew, hunmentioned, generate_insert {} hnew hunmentioned⟩

end TypeBridge
