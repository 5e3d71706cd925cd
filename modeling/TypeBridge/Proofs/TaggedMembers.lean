import TypeBridge.Proofs.Mirror

/-!
# Tagged members are not looked into

The types that a tagged member declares have no part in what is generated, unless the member is the
first declaration of the open method of a functional interface (`generate_retyped`): a use of the
interface becomes a function type, whose parameters and result are read off that declaration whether
it is tagged or not (`not_all_tagged_members_unread`).
-/

namespace TypeBridge

open Functional

variable {fixed : ClassDecl → ℕ → Prop} {u v : Universe}

theorem Universe.Retyped.candidates_eq (h : u.Retyped fixed v) (roots : List HostType) :
    candidates v roots = candidates u roots := by
  have htypes : v.classTypes = u.classTypes :=
    map_eq_of_forall₂ (fun d e hde => congrArg HostType.named hde.name) h.classes
  have hextra : v.extraTypes = u.extraTypes := by
    unfold Universe.extraTypes
    rw [flatMap_eq_of_forall₂ (fun d e hde => hde.extraTypes) h.classes, h.providers]
  rw [candidates, candidates, Universe.discoverable, Universe.discoverable, htypes, hextra]

theorem Universe.Retyped.mirrored {mode : FunctionalMode} (h : u.Retyped (u.Opens mode) v)
    (roots : List HostType) : u.Mirrored mode roots v where
  providers := h.providers
  length_le := Nat.le_of_eq h.classes.length_eq
  candidates_subset := by
    rw [h.candidates_eq]
    exact List.Subset.refl _
  agrees := fun _ _ name _ => rel_find? (fun d e hde => by rw [hde.name]) h.classes

/-- **Tagged members are not looked into.**  Whatever types a tagged field, method or constructor
declares, the text or the failure is the same, as long as no declaration of a method changes that a
functional interface leaves open. -/
theorem generate_retyped (settings : Settings) (roots : List HostType)
    (h : u.Retyped (u.Opens settings.functionalMode) v) : generate settings v roots =
    generate settings u roots :=
  (h.mirrored roots).generate_eq

/-- A class with tagged members, and a functional interface with a tagged method beside the open
one. -/
def taggedMembers (type : HostType) : Universe :=
  ⟨[{ name := "A",
      fields := [{ name := "f", type, tags := [.verbatim "Custom" []] },
        { name := "g", type := .named "F" }],
      methods := [{ name := "m", params := [{ name := some "p", type }], returnType := type,
                    tags := [.methodReference "text" (some "P")] }],
      constructors := [{ params := [{ type }], tags := [.verbatim "(p: Custom)" []] }] },
    { name := "F", kind := .interface,
      methods := [{ name := "get", returnType := .primitive .string, kind := .abstract },
        { name := "or", params := [{ type }], returnType := type, kind := .default,
          tags := [.verbatim "Custom" []] }] }],
    ⟨[(("P", "text"), .ok { text := "text(): Custom" })]⟩⟩

theorem generate_retyped_taggedMembers :
    let settings : Settings := { emitDefaultMethods := true, emitOtherMethods := true }
    let u := taggedMembers (.named "B")
    let v := taggedMembers (.array (.primitive .int))
    u.Retyped (u.Opens settings.functionalMode) v ∧
      generate settings v [.named "A"] = generate settings u [.named "A"] := by
  intro settings u v
  have hplace (d : ClassDecl) (place : ℕ) (h : u.Opens .structural d place) :
      d.name = "F" ∧ place = 0 := by
    obtain ⟨c, hc, heligible, m, inherited, hopen, hfirst⟩ := h
    rcases List.mem_cons.1 hc with rfl | hc
    · cases heligible
    · obtain rfl := List.mem_singleton.1 hc
      cases hopen
      cases hfirst
      exact ⟨rfl, rfl⟩
  have hretyped : u.Retyped (u.Opens .structural) v := by
    refine ⟨rfl, .cons (.members _ ?_ ?_ ?_ ?_) (.cons (.members _ .nil ?_ ?_ .nil) .nil)⟩
    · exact .cons (.tagged _ _ (by decide)) (.cons (.same _) .nil)
    · exact .cons (.tagged _ _ _ (by decide) rfl) .nil
    · exact fun place h => absurd (hplace _ place h).1 (by decide)
    · exact .cons (.tagged _ _ (by decide) rfl) .nil
    · exact .cons (.same _) (.cons (.tagged _ _ _ (by decide) rfl) .nil)
    · intro place h
      obtain ⟨-, rfl⟩ := hplace _ place h
      rfl
  exact ⟨hretyped, generate_retyped settings [.named "A"] hretyped⟩

/-- A class with a field of a functional interface whose open method is tagged. -/
def taggedCallback (result : HostType) : Universe :=
  ⟨[{ name := "A", fields := [{ name := "f", type := .named "F" }] },
    { name := "F", kind := .interface,
      methods := [{ name := "run", returnType := result, kind := .abstract,
                    tags := [.verbatim "Custom" []] }] }], {}⟩

/-- The exception is met: the result of a tagged method shows in the type of the field. -/
theorem not_all_tagged_members_unread :
    ¬∀ (settings : Settings) (u v : Universe) (roots : List HostType),
      u.Retyped (fun _ _ => False) v → generate settings v roots = generate settings u roots := by
  intro h
  have hretyped : (taggedCallback (.primitive .string)).Retyped (fun _ _ => False)
      (taggedCallback (.primitive .int)) := by
    refine ⟨rfl, .cons (.refl _) (.cons (.members _ .nil ?_ (fun _ => False.elim) .nil) .nil)⟩
    exact .cons (.tagged _ _ _ (by decide) rfl) .nil
  have hsame := congrArg Except.toOption (h {} _ _ [.named "A"] hretyped)
  have hnumber : (generate {} (taggedCallback (.primitive .int)) [.named "A"]).toOption =
    some "\ninterface A \x7b\n    f: () => number;\n\x7d\n" := by decide +kernel
  have hstring : (generate {} (taggedCallback (.primitive .string)) [.named "A"]).toOption =
    some "\ninterface A \x7b\n    f: () => string;\n\x7d\n" := by decide +kernel
  rw [hnumber, hstring] at hsame
  exact absurd hsame (by decide)

end TypeBridge
