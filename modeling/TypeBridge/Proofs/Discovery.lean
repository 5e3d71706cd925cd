import Mathlib.Data.List.Basic
import TypeBridge.Generator
import TypeBridge.Proofs.Contribution
import TypeBridge.Proofs.Termination

/-!
# What is discovered

The types that the work on an entry discovers, read off its script: the classes of outlines and the
types that overrides bring along.  So a run meets no types but its roots, bare declared classes and
what tags and providers bring along (`candidates`), however the types are nested that it resolves.

`standard_acts` discharges `Setup.Acts` for the standard setup of a covering depth.
-/

namespace TypeBridge

open Functional Resolving

variable {mode : FunctionalMode} {u : Universe} {settings : Settings}

/-! ## Outlines -/

theorem mem_classes_ofOpened {o : Opened} {nested : HostType → Outline} {name : String}
    (h : name ∈ (Outline.ofOpened o nested).classes) :
    ∃ t ∈ o.paramTypes ++ [o.resultType], name ∈ (nested t).classes := by
  unfold Outline.ofOpened at h
  rw [Outline.classes, Outline.classesOfParams_zip (length_parameterNames o nested),
    List.flatMap_map] at h
  rcases List.mem_append.1 h with h | h
  · obtain ⟨t, ht, hname⟩ := List.mem_flatMap.1 h
    exact ⟨t, List.mem_append_left _ ht, hname⟩
  · exact ⟨o.resultType, by simp, h⟩

theorem mem_classes_wrap {kind : Structural.Container} {o : Outline} {name : String}
    (h : name ∈ (Outline.wrap kind o).classes) : name ∈ o.classes := by
  cases kind <;> exact h

theorem mem_classes_structural {nested : HostType → Outline} {type : HostType} {name : String}
    (h : name ∈ (Outline.structural u nested type).classes) :
    (type.rawName? = some name ∧ Structural.Container.ofName? name = none ∧
      u.contains name = true) ∨
      ∃ t ∈ Structural.parts u type, name ∈ (nested t).classes := by
  rcases Outline.structural_cases u type with ⟨-, o, hleaf, heq⟩ | ⟨kind, t, hparts, heq⟩ |
    ⟨raw, hraw, hlibrary, hcontains, heq⟩
  · rw [heq, hleaf] at h
    cases h
  · rw [heq] at h
    exact .inr ⟨t, by simp [hparts], mem_classes_wrap h⟩
  · rw [heq, Outline.classes, Outline.classesOfList_eq_flatMap, List.flatMap_map] at h
    rcases List.mem_cons.1 h with rfl | h
    · exact .inl ⟨hraw, hlibrary, hcontains⟩
    · exact .inr (List.mem_flatMap.1 h)

/-- Every class of an outline is declared, and none is a library class. -/
theorem mem_classes_outline {inProgress : List HostType} {type : HostType} {name : String}
    (h : name ∈ (outline mode u inProgress type).classes) :
    Structural.Container.ofName? name = none ∧ u.contains name = true := by
  induction inProgress, type using @outlineInduction mode u with
  | step inProgress type ih =>
    cases ho : opened? mode u inProgress type with
    | some o =>
      rw [outline_of_opened ho] at h
      obtain ⟨t, ht, hname⟩ := mem_classes_ofOpened h
      exact ih (type :: inProgress, t) (mem_calls_of_opened ho ht) hname
    | none =>
      rw [outline_of_not_opened ho] at h
      rcases mem_classes_structural h with ⟨-, hname⟩ | ⟨t, ht, hname⟩
      · exact hname
      · exact ih (inProgress, t) (mem_calls_of_part ho ht) hname

def Universe.classTypes (u : Universe) : List HostType :=
  u.classes.map fun d => .named d.name

theorem dependents_outline_subset (inProgress : List HostType) (type : HostType) :
    (outline mode u inProgress type).dependents ⊆ u.classTypes := by
  intro t ht
  obtain ⟨name, hname, rfl⟩ := List.mem_map.1 ht
  obtain ⟨d, hd⟩ := Option.isSome_iff_exists.1 (mem_classes_outline hname).2
  rw [← Universe.get?_name hd]
  exact List.mem_map_of_mem (Universe.get?_mem hd)

/-! ## Overrides -/

theorem Providers.extraTypes_subset {providers : Providers} {owner name : String}
    {signature : Signature} (h : providers.get? owner name = some (.ok signature)) :
    signature.extraTypes ⊆ providers.extraTypes := by
  obtain ⟨front, behind, hentries, -⟩ := List.lookup_eq_some_iff.1 h
  refine fun t ht => List.mem_flatMap.2 ⟨((owner, name), .ok signature), ?_, ht⟩
  rw [hentries]
  exact List.mem_append_right _ List.mem_cons_self

/-- What an override brings along is listed on its tag or with a provider. -/
theorem dependents_ofSite_subset {providers : Providers} {site : Site} {r : Resolution}
    (h : Override.ofSite providers site = .ok (some r)) :
    r.dependents ⊆ site.tags.flatMap OverrideTag.extraTypes ++ providers.extraTypes := by
  obtain ⟨text, extraTypes, -, rfl, htags | ⟨name, owner, -, hprovider⟩⟩ :=
    Override.ofSite_eq_some h
  · rw [htags]
    exact fun t ht => List.mem_append_left _ (List.mem_flatMap.2 ⟨_, List.mem_singleton_self _, ht⟩)
  · exact fun t ht => List.mem_append_right _ (Providers.extraTypes_subset hprovider ht)

theorem tags_subset_extraTypes {d : ClassDecl} (hd : d ∈ u.classes) {site : Site}
    (hsite : site = .type d ∨ site ∈ Selection.declared settings d) :
    site.tags.flatMap OverrideTag.extraTypes ⊆ u.extraTypes := by
  have hclass : site.tags ⊆ d.tags ++ d.fields.flatMap (·.tags) ++ d.methods.flatMap (·.tags) ++
      d.constructors.flatMap (·.tags) := by
    intro tag ht
    simp only [List.mem_append, List.mem_flatMap]
    rcases hsite with rfl | hsite
    · exact .inl (.inl (.inl ht))
    · rcases Setup.mem_declared hsite with ⟨f, hf, rfl⟩ | ⟨m, hm, rfl⟩ | ⟨c, hc, rfl⟩
      · exact .inl (.inl (.inr ⟨f, hf, ht⟩))
      · exact .inl (.inr ⟨m, hm, ht⟩)
      · exact .inr ⟨c, hc, ht⟩
  intro t ht
  obtain ⟨tag, htag, ht⟩ := List.mem_flatMap.1 ht
  exact List.mem_append_left _
    (List.mem_flatMap.2 ⟨d, hd, List.mem_flatMap.2 ⟨tag, hclass htag, ht⟩⟩)

/-- The types that a run of the standard pipeline can meet besides its roots. -/
def Universe.discoverable (u : Universe) : List HostType :=
  u.classTypes ++ u.extraTypes

theorem dependents_override_subset {d : ClassDecl} (hd : d ∈ u.classes) {site : Site}
    (hsite : site = .type d ∨ site ∈ Selection.declared settings d) {r : Resolution}
    (h : Override.ofSite u.providers site = .ok (some r)) : r.dependents ⊆ u.discoverable := by
  intro t ht
  refine List.mem_append_right _ ?_
  rcases List.mem_append.1 (dependents_ofSite_subset h ht) with ht | ht
  · exact tags_subset_extraTypes hd hsite ht
  · exact List.mem_append_right _ ht

/-! ## Members -/

theorem types_discovered_member {d : ClassDecl} {site : Site}
    (h : site ∈ Selection.declared settings d) (m : MemberAnswer) (table : SymbolTable) :
    ((m.script settings site).value table).discovered.map (·.type) = m.dependents := by
  have hfound : ∀ r : Resolution, (r.found site).map (·.type) = r.dependents := fun r => by
    simp [Resolution.found, Entry.discovered, Function.comp_def]
  have hmember : ((m.script settings site).value table).discovered =
      (m.answers.map (·.script.value table)).flatMap (·.found site) := by
    rcases Setup.mem_declared h with ⟨f, -, rfl⟩ | ⟨f, -, rfl⟩ | ⟨c, -, rfl⟩ <;>
      simp [MemberAnswer.script, Script.zip, Script.value_list, Setup.Members.ofSite,
        MemberAnswer.answers, List.map_map, Function.comp_def]
  rw [hmember, List.map_flatMap, List.flatMap_map]
  simp only [hfound, Answer.dependents_value]
  rfl

theorem dependents_memberAnswer_subset {d : ClassDecl} (hd : d ∈ u.classes) {site : Site}
    (hsite : site ∈ Selection.declared settings d) {source : HostType} {m : MemberAnswer}
    (h : memberAnswer mode u source site = .ok m) : m.dependents ⊆ u.discoverable := by
  rcases memberAnswer_eq_ok h with ⟨r, hoverride, rfl⟩ | ⟨-, rfl⟩
  · simpa [MemberAnswer.dependents, MemberAnswer.answers, Answer.dependents] using
      dependents_override_subset hd (.inr hsite) hoverride
  · intro t ht
    refine List.mem_append_left _ ?_
    obtain ⟨a, ha, ht⟩ := List.mem_flatMap.1 ht
    rcases List.mem_cons.1 ha with rfl | ha
    · exact dependents_outline_subset _ _ ht
    · obtain ⟨p, -, rfl⟩ := List.mem_map.1 ha
      exact dependents_outline_subset _ _ ht

/-! ## Declarations -/

namespace ClassAnswer

variable {source : HostType} {d : ClassDecl} {a : ClassAnswer}

theorem site_mem (h : classAnswer mode u settings source d = .ok a) {p : Site × MemberAnswer}
    (hp : p ∈ a.members) :
    p.1 ∈ Selection.declared settings d ∧ memberAnswer mode u source p.1 = .ok p.2 := by
  obtain ⟨-, ⟨-, -, hmembers⟩ | ⟨-, -, hsites, hanswers⟩⟩ := classAnswer_eq_ok h
  · rw [hmembers] at hp
    cases hp
  · exact ⟨hsites ▸ List.mem_map_of_mem hp, hanswers p hp⟩

theorem exists_of_mem_parents (h : classAnswer mode u settings source d = .ok a) {o : Outline}
    (ho : o ∈ a.parents) : ∃ t ∈ d.superTypes, o = outline mode u [] t := by
  obtain ⟨-, ⟨-, hparents, -⟩ | ⟨-, hparents, -⟩⟩ := classAnswer_eq_ok h
  · rw [hparents] at ho
    cases ho
  · rw [hparents] at ho
    obtain ⟨t, ht, rfl⟩ := List.mem_map.1 ho
    exact ⟨t, ht, rfl⟩

def dependents (a : ClassAnswer) : List HostType :=
  a.header.elim [] (·.dependents) ++ a.parents.flatMap (·.dependents) ++
    a.members.flatMap (·.2.dependents)

theorem types_discovered (h : classAnswer mode u settings source d = .ok a) (table : SymbolTable) :
    ((a.script settings source d).value table).2.map (·.type) = a.dependents := by
  have hheader : (a.foundByHeader d).map (·.type) = a.header.elim [] (·.dependents) := by
    cases hh : a.header <;> simp [foundByHeader, hh, Entry.discovered, Function.comp_def]
  obtain ⟨-, ⟨henum, hparents, hmembers⟩ | ⟨henum, -, -, -⟩⟩ := classAnswer_eq_ok h
  · simp only [script_of_isEnum henum, Script.map, enumeration, dependents, hparents, hmembers,
      hheader]
    simp
  · have hparents : ((a.parentsScript d).value table).2.map (·.type) =
        a.parents.flatMap (·.dependents) := by
      simp [parentsScript, Script.map, Script.value_list, parentsOf, List.map_flatMap,
        List.flatMap_map, Entry.discovered, Function.comp_def, Outline.script, Outline.resolution]
    have hmembers : ((a.membersScript settings).value table).discovered.map (·.type) =
        a.members.flatMap (·.2.dependents) := by
      simp only [membersScript, Script.map, Script.value_list, Setup.Members.concat,
        List.map_flatMap, List.flatMap_map, List.map_map]
      exact List.flatMap_congr fun p hp => types_discovered_member (site_mem h hp).1 p.2 table
    simp only [script_of_not_isEnum henum, Script.zip, bean, List.map_append, hheader, hparents,
      hmembers]
    rfl

theorem dependents_subset (h : classAnswer mode u settings source d = .ok a) (hd : d ∈ u.classes) :
    a.dependents ⊆ u.discoverable := by
  intro t ht
  rcases List.mem_append.1 ht with ht | ht
  · rcases List.mem_append.1 ht with ht | ht
    · cases hh : a.header with
      | none => rw [hh] at ht; cases ht
      | some r =>
        rw [hh] at ht
        have hsite : Site.type d = .type d ∨ Site.type d ∈ Selection.declared settings d := .inl rfl
        exact dependents_override_subset hd hsite (hh ▸ (classAnswer_eq_ok h).1) ht
    · obtain ⟨o, ho, ht⟩ := List.mem_flatMap.1 ht
      obtain ⟨parent, -, rfl⟩ := exists_of_mem_parents h ho
      exact List.mem_append_left _ (dependents_outline_subset _ _ ht)
  · obtain ⟨p, hp, ht⟩ := List.mem_flatMap.1 ht
    obtain ⟨hsite, hanswer⟩ := site_mem h hp
    exact dependents_memberAnswer_subset hd hsite hanswer ht

end ClassAnswer

/-! ## Failures -/

theorem memberAnswer_ne_exhausted (source : HostType) (site : Site) :
    memberAnswer mode u source site ≠ .error .exhausted :=
  fun h => Override.ofSite_ne_exhausted _ _ (except_map_eq_error.1 h)

theorem classAnswer_ne_exhausted (source : HostType) (d : ClassDecl) :
    classAnswer mode u settings source d ≠ .error .exhausted := by
  intro h
  rcases except_bind_eq_error.1 h with hheader | ⟨header, -, h⟩
  · exact Override.ofSite_ne_exhausted _ _ hheader
  · cases henum : d.isEnum with
    | true =>
      simp only [henum, ↓reduceIte] at h
      cases h
    | false =>
      simp only [henum, Bool.false_eq_true, ↓reduceIte] at h
      rcases except_bind_eq_error.1 h with hmembers | ⟨members, -, h⟩
      · obtain ⟨site, -, hsite⟩ := (mapM_eq_error_iff.1 hmembers).exists_mem
        exact memberAnswer_ne_exhausted source site (except_map_eq_error.1 hsite)
      · cases h

/-! ## Entries -/

variable {e : Entry} {c : Script Contribution}

theorem contribution_ne_exhausted (e : Entry) :
    contribution mode u settings e ≠ .error .exhausted := by
  intro h
  unfold contribution at h
  cases hd : declared? mode u e.type with
  | none => rw [hd] at h; cases h
  | some d =>
    rw [hd] at h
    exact classAnswer_ne_exhausted e.type d (except_map_eq_error.1 h)

theorem contribution_of_none (hd : declared? mode u e.type = none)
    (h : contribution mode u settings e = .ok c) (table : SymbolTable) :
    (c.value table).externals = [] ∧ (c.value table).declaration = none ∧
      (c.value table).discovered.map (·.type) = (outline mode u [] e.type).dependents := by
  unfold contribution at h
  rw [hd] at h
  cases h
  refine ⟨rfl, rfl, ?_⟩
  simp [Script.map, Entry.derive, Function.comp_def, Outline.script, Outline.resolution]

theorem contribution_of_some {d : ClassDecl} (hd : declared? mode u e.type = some d)
    (h : contribution mode u settings e = .ok c) :
    ∃ a, classAnswer mode u settings e.type d = .ok a ∧
      c.asked = (outline mode u [] e.type).dependents ++ (a.script settings e.type d).asked ∧
      ∀ table, (c.value table).externals = [] ∧
        (c.value table).declaration = some ((a.script settings e.type d).value table).1 ∧
        (c.value table).discovered.map (·.type) =
          a.dependents ++ (outline mode u [] e.type).dependents := by
  unfold contribution at h
  rw [hd] at h
  obtain ⟨a, ha, rfl⟩ := except_map_eq_ok.1 h
  refine ⟨a, ha, rfl, fun table => ⟨rfl, rfl, ?_⟩⟩
  simp [Script.zip, Entry.derive, Function.comp_def, Outline.script, Outline.resolution,
    ClassAnswer.types_discovered ha]

theorem externals_eq_nil (h : contribution mode u settings e = .ok c) (table : SymbolTable) :
    (c.value table).externals = [] := by
  cases hd : declared? mode u e.type with
  | none => exact (contribution_of_none hd h table).1
  | some d =>
    obtain ⟨a, -, -, hvalue⟩ := contribution_of_some hd h
    exact (hvalue table).1

theorem discovered_subset (h : contribution mode u settings e = .ok c) (table : SymbolTable) :
    (c.value table).discovered.map (·.type) ⊆ u.discoverable := by
  have hown : (outline mode u [] e.type).dependents ⊆ u.discoverable := fun t ht =>
    List.mem_append_left _ (dependents_outline_subset _ _ ht)
  cases hd : declared? mode u e.type with
  | none =>
    rw [(contribution_of_none hd h table).2.2]
    exact hown
  | some d =>
    obtain ⟨a, ha, -, hvalue⟩ := contribution_of_some hd h
    rw [(hvalue table).2.2]
    exact List.append_subset.2 ⟨ClassAnswer.dependents_subset ha (Setup.declared?_mem hd), hown⟩

/-! ## The standard setup -/

/-- The types that a run of the standard pipeline can work on. -/
def candidates (u : Universe) (roots : List HostType) : List HostType :=
  roots ++ u.discoverable

theorem follows_of_sizeAll_le {nodes depth : Nat} (hdepth : (nodes + 1) * (nodes + 1) ≤ depth)
    {types : List HostType} (hwritten : u.writtenTypes ⊆ types)
    (hsize : HostType.sizeAll types ≤ nodes) {ctx : Context} (hctx : ctx.host = u) {t : HostType}
    (ht : t ∈ types) :
    Follows ((Chain.standard mode).resolver depth ctx t)
      ((answer mode ctx t).map fun a => a.script.map some) := by
  subst hctx
  refine follows_resolver depth ctx t (Arena.ofSubterms hwritten)
    (List.mem_flatMap.2 ⟨t, ht, t.self_mem_subterms⟩) ?_
  have hneed := need_le_square (Nat.le_of_eq (length_flatMap_subterms types)) ctx.inProgress
    (HostType.size_le_sizeAll ht)
  have hsquare := Nat.mul_le_mul (Nat.succ_le_succ hsize) (Nat.succ_le_succ hsize)
  exact Nat.le_trans hneed (Nat.le_trans hsquare hdepth)

theorem size_add_written_le {roots : List HostType} {t : HostType} (ht : t ∈ candidates u roots) :
    t.size + HostType.sizeAll u.writtenTypes ≤ u.weight + HostType.sizeAll roots + 1 := by
  have hweight : u.weight = HostType.sizeAll u.writtenTypes + HostType.sizeAll u.extraTypes :=
    HostType.sizeAll_append ..
  rcases List.mem_append.1 ht with ht | ht
  · have hle := HostType.size_le_sizeAll ht
    omega
  · rcases List.mem_append.1 ht with ht | ht
    · obtain ⟨d, -, rfl⟩ := List.mem_map.1 ht
      have hone : (HostType.named d.name).size = 1 := rfl
      omega
    · have hle := HostType.size_le_sizeAll ht
      omega

/-- A resolver of the covering depth acts out the answers at everything that a run asks it for. -/
theorem standard_acts (settings : Settings) {roots : List HostType} {depth : Nat}
    (h : (Budget.covering u roots).depth ≤ depth) :
    ((Generator.standard settings).setup depth u).Acts settings.functionalMode
      (u.writtenTypes ++ candidates u roots) where
  claimants := rfl
  selection := rfl
  written := fun d hd t ht => List.mem_append_left _ (List.mem_flatMap.2 ⟨d, hd, ht⟩)
  follows := fun site t ht => by
    have hweight : HostType.sizeAll u.writtenTypes ≤ u.weight + HostType.sizeAll roots + 1 := by
      have hsum : u.weight = HostType.sizeAll u.writtenTypes + HostType.sizeAll u.extraTypes :=
        HostType.sizeAll_append ..
      omega
    rcases List.mem_append.1 ht with ht | ht
    · exact follows_of_sizeAll_le h (List.Subset.refl _) hweight rfl ht
    · exact follows_of_sizeAll_le h (List.subset_cons_self ..) (size_add_written_le ht) rfl
        (List.mem_cons_self (a := t))

end TypeBridge
