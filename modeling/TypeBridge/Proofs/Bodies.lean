import TypeBridge.Proofs.Locality
import TypeBridge.Proofs.OpenMethod

/-!
# Methods with a body

What a method with a body does to the open methods of a hierarchy.  It takes away those of its name,
whatever the number of their parameters (`openMethods_grow`), and wherever in the hierarchy it
stands.

So a method that is added to a class leaves the open method as it is if it is static or has another
name (`added_method_leaves_open`), but a default method takes away another overload of its name
(`not_all_overloads_left_open`).  And an interface that declares an abstract method again becomes a
function type if no class above it has a body for the name, and only then
(`reabstracted_method_open`, `not_all_reabstracted_methods_open`).
-/

namespace TypeBridge

/-! ## A method more -/

/-- The class with a method put behind the first `place` of its own. -/
def ClassDecl.withMethod (d : ClassDecl) (place : Nat) (n : MethodDecl) : ClassDecl :=
  { d with methods := d.methods.take place ++ n :: d.methods.drop place }

/-- The class with the method if it has that name, and any other class as it is. -/
def ClassDecl.grow (name : String) (place : Nat) (n : MethodDecl) (c : ClassDecl) : ClassDecl :=
  if c.name = name then c.withMethod place n else c

/-- The universe with a method more in the class of that name. -/
def Universe.withMethod (u : Universe) (name : String) (place : Nat) (n : MethodDecl) : Universe :=
  { u with classes := u.classes.map (.grow name place n) }

namespace Functional

section

variable {u : Universe} {d c : ClassDecl} {m n : MethodDecl} {className : String} {place : Nat}

@[simp]
theorem grow_name : (c.grow className place n).name = c.name := by
  unfold ClassDecl.grow
  split <;> rfl

@[simp]
theorem grow_superTypes : (c.grow className place n).superTypes = c.superTypes := by
  unfold ClassDecl.grow
  split <;> rfl

@[simp]
theorem grow_typeParams : (c.grow className place n).typeParams = c.typeParams := by
  unfold ClassDecl.grow
  split <;> rfl

theorem mem_methods_grow :
    m ∈ (c.grow className place n).methods ↔ m ∈ c.methods ∨ c.name = className ∧ m = n := by
  unfold ClassDecl.grow
  split
  · next hname =>
    have hsplit : m ∈ c.methods ↔ m ∈ c.methods.take place ∨ m ∈ c.methods.drop place := by
      rw [← List.mem_append, List.take_append_drop]
    simp only [ClassDecl.withMethod, List.mem_append, List.mem_cons, hname, true_and, hsplit]
    tauto
  · next hname => simp [hname]

theorem abstracts_grow (hn : n.kind ≠ .abstract) :
    (c.grow className place n).methods.filter (fun m => m.kind == .abstract) =
      c.methods.filter fun m => m.kind == .abstract := by
  unfold ClassDecl.grow
  split
  · rw [ClassDecl.withMethod, List.filter_append, List.filter_cons_of_neg (by simpa using hn),
      ← List.filter_append, List.take_append_drop]
  · rfl

theorem get?_withMethod (u : Universe) (name : String) :
    (u.withMethod className place n).get? name = (u.get? name).map (.grow className place n) := by
  unfold Universe.withMethod Universe.get?
  rw [List.find?_map]
  refine congrArg (Option.map _) (congrArg (List.find? · u.classes) ?_)
  funext c
  simp

/-- An entry of a walk after the method was added. -/
def growEntry (className : String) (place : Nat) (n : MethodDecl) (entry : ClassDecl × Bindings) :
    ClassDecl × Bindings :=
  (entry.1.grow className place n, entry.2)

theorem parents_withMethod (u : Universe) (c : ClassDecl) (b : Bindings) :
    parents (u.withMethod className place n) (c.grow className place n) b =
      (parents u c b).map (growEntry className place n) := by
  unfold parents
  rw [grow_superTypes, List.map_filterMap]
  refine List.filterMap_congr fun type _ => ?_
  cases hname : type.rawName? with
  | none => simp
  | some name => cases hget : u.get? name <;> simp [hget, get?_withMethod, growEntry]

theorem walk_withMethod (u : Universe) (bound : Nat) (visited : List String)
    (queue : List (ClassDecl × Bindings)) :
    walk (u.withMethod className place n) bound visited (queue.map (growEntry className place n)) =
      (walk u bound visited queue).map (growEntry className place n) := by
  induction bound generalizing visited queue with
  | zero => rfl
  | succ bound ih =>
    have hdrop : (queue.map (growEntry className place n)).dropWhile
        (fun entry => visited.contains entry.1.name) =
        (queue.dropWhile fun entry => visited.contains entry.1.name).map
          (growEntry className place n) := by
      rw [List.dropWhile_map]
      simp [Function.comp_def, growEntry]
    unfold walk
    rw [hdrop]
    cases queue.dropWhile fun entry => visited.contains entry.1.name with
    | nil => rfl
    | cons entry rest =>
      simp only [List.map_cons, growEntry, grow_name, parents_withMethod, ← List.map_append]
      exact congrArg (_ :: ·) (ih _ _)

theorem hierarchy_withMethod (u : Universe) (d : ClassDecl) :
    hierarchy (u.withMethod className place n) (d.grow className place n) =
      (hierarchy u d).map (growEntry className place n) := by
  unfold hierarchy
  rw [← walk_withMethod]
  simp [Universe.withMethod, growEntry]

variable {entries : List (ClassDecl × Bindings)}

theorem mem_implemented_grow {name : String}
    (hclass : ∃ entry ∈ entries, entry.1.name = className) :
    name ∈ implemented (entries.map (growEntry className place n)) ↔
      name ∈ implemented entries ∨ hasBody n = true ∧ n.name = name := by
  simp only [implemented, List.mem_flatMap, List.mem_map, List.mem_filter, growEntry,
    exists_exists_and_eq_and, mem_methods_grow]
  constructor
  · rintro ⟨entry, hentry, m, ⟨hm | ⟨-, rfl⟩, hbody⟩, rfl⟩
    · exact .inl ⟨entry, hentry, m, ⟨hm, hbody⟩, rfl⟩
    · exact .inr ⟨hbody, rfl⟩
  · rintro (⟨entry, hentry, m, ⟨hm, hbody⟩, rfl⟩ | ⟨hbody, rfl⟩)
    · exact ⟨entry, hentry, m, ⟨.inl hm, hbody⟩, rfl⟩
    · obtain ⟨entry, hentry, hname⟩ := hclass
      exact ⟨entry, hentry, n, ⟨.inr ⟨hname, rfl⟩, hbody⟩, rfl⟩

/-- A method with a body takes away the open methods of its name, whatever their parameters.  Others
take nothing away. -/
theorem openMethods_grow (hn : n.kind ≠ .abstract)
    (hclass : ∃ entry ∈ entries, entry.1.name = className) :
    openMethods (entries.map (growEntry className place n)) =
      (openMethods entries).filter fun p => !(hasBody n && n.name == p.1.name) := by
  have hsame : ((entries.map (growEntry className place n)).flatMap fun entry =>
      (entry.1.methods.filter fun m => m.kind == .abstract).map (·, entry.2)) =
        entries.flatMap fun entry =>
          (entry.1.methods.filter fun m => m.kind == .abstract).map (·, entry.2) := by
    rw [List.flatMap_map]
    refine List.flatMap_congr fun entry _ => ?_
    rw [growEntry, abstracts_grow hn]
  unfold openMethods
  rw [hsame, List.filter_filter]
  refine List.filter_congr fun p _ => ?_
  have himplemented : p.1.name ∈ implemented (entries.map (growEntry className place n)) ↔
      p.1.name ∈ implemented entries ∨ hasBody n = true ∧ n.name = p.1.name :=
        mem_implemented_grow hclass
  rw [Bool.eq_iff_iff]
  simp only [List.contains_eq_mem, himplemented, Bool.and_eq_true, Bool.not_eq_true', not_or,
    ← Bool.not_eq_true, beq_iff_eq, decide_eq_true_eq]
  exact and_comm

end

/-! ## Added methods -/

section

variable {u : Universe} {d e : ClassDecl} {m n : MethodDecl}

theorem grow_self (d : ClassDecl) (place : Nat) (n : MethodDecl) :
    d.grow d.name place n = d.withMethod place n :=
  if_pos rfl

theorem openMethods_withMethod (hd : u.get? d.name = some d) (place : Nat)
    (hn : n.kind ≠ .abstract) :
    openMethods (hierarchy (u.withMethod d.name place n) (d.withMethod place n)) =
      (openMethods (hierarchy u d)).filter fun p => !(hasBody n && n.name == p.1.name) := by
  obtain ⟨b, hb⟩ := (mem_hierarchy_iff hd).2 (.refl : Reaches u d d)
  rw [← grow_self, hierarchy_withMethod, openMethods_grow hn ⟨(d, b), hb, rfl⟩]

theorem singleOpenMethod_withMethod (hd : u.get? d.name = some d) (place : Nat)
    (hn : n.kind ≠ .abstract)
    (hname : hasBody n = true → ∀ s, LeavesOverload u d s → s.1 ≠ n.name) :
    singleOpenMethod (u.withMethod d.name place n) (d.withMethod place n) =
      singleOpenMethod u d := by
  have hopen : openMethods (hierarchy (u.withMethod d.name place n) (d.withMethod place n)) =
      openMethods (hierarchy u d) := by
    rw [openMethods_withMethod hd place hn]
    refine List.filter_eq_self.2 fun p hp => ?_
    cases hbody : hasBody n with
    | false => rfl
    | true => simpa [overload] using (hname hbody _ ((leavesOverload_iff hd).2 ⟨p, hp, rfl⟩)).symm
  unfold singleOpenMethod
  rw [hopen]

/-- All open methods have the name of the single one, so a body for it leaves none. -/
theorem singleOpenMethod_withMethod_of_body (hd : u.get? d.name = some d) (place : Nat)
    (hbody : hasBody n = true) {b : Bindings} (hopen : singleOpenMethod u d = some (m, b))
    (hname : n.name = m.name) :
    singleOpenMethod (u.withMethod d.name place n) (d.withMethod place n) = none := by
  have hn : n.kind ≠ .abstract := fun habstract => by simp [hasBody, habstract] at hbody
  obtain ⟨rest, heq, hall⟩ := singleOpenMethod_eq_some_iff.1 hopen
  have hnone :
      openMethods (hierarchy (u.withMethod d.name place n) (d.withMethod place n)) = [] := by
    rw [openMethods_withMethod hd place hn, heq]
    refine List.filter_eq_nil_iff.2 fun p hp => ?_
    have hsame : m.name = p.1.name := by
      rcases List.mem_cons.1 hp with rfl | hp
      · rfl
      · exact congrArg Prod.fst (hall p hp)
    simp [hbody, hname, hsame]
  unfold singleOpenMethod
  rw [hnone]

/-- The interface is eligible as before, now with the method. -/
theorem eligible?_withMethod (hd : u.get? d.name = some d) (place : Nat) (n : MethodDecl)
    (mode : FunctionalMode) {type : HostType} (htype : type.rawName? = some d.name) :
    eligible? mode (u.withMethod d.name place n) type =
      if isEligible mode d then some (d.withMethod place n) else none := by
  have hget : (u.withMethod d.name place n).get? d.name = some (d.withMethod place n) := by
    rw [get?_withMethod, hd, Option.map_some, grow_self]
  exact eligible?_of_get? mode (d := d.withMethod place n) htype hget

theorem opened?_withMethod (hd : u.get? d.name = some d) {place : Nat}
    (hsame : singleOpenMethod (u.withMethod d.name place n) (d.withMethod place n) =
      singleOpenMethod u d)
    (mode : FunctionalMode) (inProgress : List HostType) {type : HostType}
    (htype : type.rawName? = some d.name) :
    opened? mode (u.withMethod d.name place n) inProgress type =
      opened? mode u inProgress type := by
  unfold opened?
  rw [eligible?_withMethod hd place n mode htype, eligible?_of_get? mode htype hd]
  cases isEligible mode d with
  | false => rfl
  | true =>
    simp only [↓reduceIte, hsame]
    rfl

/-- With a body for the name of its open method the interface is opened nowhere. -/
theorem opened?_withMethod_of_body (hd : u.get? d.name = some d) (place : Nat)
    (hbody : hasBody n = true) {b : Bindings} (hopen : singleOpenMethod u d = some (m, b))
    (hname : n.name = m.name) (mode : FunctionalMode) (inProgress : List HostType) {type : HostType}
    (htype : type.rawName? = some d.name) :
    opened? mode (u.withMethod d.name place n) inProgress type = none := by
  have hnone := singleOpenMethod_withMethod_of_body hd place hbody hopen hname
  unfold opened?
  rw [eligible?_withMethod hd place n mode htype]
  cases isEligible mode d with
  | false => rfl
  | true => simp [hnone]

/-- **Methods of another name leave the open method as it is.**  Put a method that is not abstract
anywhere into a class.  If it is static, or no overload that the class leaves open has its name,
then the class leaves the same method open as before, and every use of it, bare or with arguments,
becomes the function type of that method or is declined as before. -/
theorem added_method_leaves_open (hd : u.get? d.name = some d) (place : Nat)
    (hn : n.kind ≠ .abstract)
    (hname : n.kind ≠ .static → ∀ s, LeavesOverload u d s → s.1 ≠ n.name) :
    singleOpenMethod (u.withMethod d.name place n) (d.withMethod place n) = singleOpenMethod u d ∧
    ∀ (mode : FunctionalMode) (type : HostType), type.rawName? = some d.name →
      ∀ (nested : Resolver) (ctx : Context), ctx.host = u.withMethod d.name place n →
        (processor mode).process nested ctx type =
          (opened? mode u ctx.inProgress type).elim (pure none)
            (·.resolve nested { ctx with inProgress := type :: ctx.inProgress }) := by
  have hsame := singleOpenMethod_withMethod hd place hn fun hbody => hname fun hstatic => by
    simp [hasBody, hstatic] at hbody
  refine ⟨hsame, fun mode type htype nested ctx hctx => ?_⟩
  have hopened := opened?_withMethod hd hsame mode ctx.inProgress htype
  rw [← hctx] at hopened
  rw [process_of_opened?, hopened]
  cases opened? mode u ctx.inProgress type <;> rfl

/-- An interface with an open method of its own, and one that inherits it. -/
def runners : Universe :=
  .ofClasses
    [{ name := "Runner", kind := .interface, methods := [{ name := "run", kind := .abstract }] },
      { name := "Repeater", kind := .interface, superTypes := [.named "Runner"] }]

/-- A default method with a name of its own leaves the inherited method open. -/
theorem added_method_leaves_open_repeater :
    let again : MethodDecl :=
      { name := "again", params := [{ type := .primitive .int }], kind := .default }
    ∃ d m b, runners.get? d.name = some d ∧ d.name = "Repeater" ∧ m.name = "run" ∧
      singleOpenMethod runners d = some (m, b) ∧
      singleOpenMethod (runners.withMethod d.name 0 again) (d.withMethod 0 again) =
        some (m, b) := by
  intro again
  obtain ⟨d, m, b, hd, hname, hm, hopen⟩ : ∃ d m b, runners.get? d.name = some d ∧
      d.name = "Repeater" ∧
      m.name = "run" ∧ singleOpenMethod runners d = some (m, b) :=
    ⟨(runners.get? "Repeater").get rfl, _, _, rfl, rfl, rfl, rfl⟩
  have hnames : ∀ e ∈ runners.classes, ∀ m ∈ e.methods, m.kind = .abstract →
      m.name ≠ again.name := by decide
  have hother : ∀ s, LeavesOverload runners d s → s.1 ≠ again.name := by
    rintro _ ⟨⟨e, he, k, hk, habstract, rfl⟩, -⟩
    exact hnames e (he.mem_classes hd) k hk habstract
  have hleft := added_method_leaves_open hd 0 (n := again) (by decide) fun _ => hother
  exact ⟨d, m, b, hd, hname, hm, hopen, hleft.1.trans hopen⟩

/-- A default method takes the open method away if only its name is the same, though it is another
overload. -/
theorem not_all_overloads_left_open :
    ¬∀ (mode : FunctionalMode) (u : Universe) (d : ClassDecl) (place : Nat) (n : MethodDecl),
      u.get? d.name = some d → isEligible mode d = true → n.kind ≠ .abstract →
      (∀ e, Reaches u d e → ∀ m ∈ e.methods, m.kind = .abstract → overload m ≠ overload n) →
        (opened? mode (u.withMethod d.name place n) [] (.named d.name)).isSome =
          (opened? mode u [] (.named d.name)).isSome := by
  intro hall
  let times : MethodDecl :=
    { name := "run", params := [{ type := .primitive .int }], kind := .default }
  obtain ⟨d, m, b, hd, heligible, hopen, hm⟩ : ∃ d m b, runners.get? d.name = some d ∧
      isEligible .structural d = true ∧
      singleOpenMethod runners d = some (m, b) ∧ times.name = m.name :=
    ⟨(runners.get? "Repeater").get rfl, _, _, rfl, rfl, rfl, rfl⟩
  have hoverloads : ∀ e ∈ runners.classes, ∀ m ∈ e.methods, m.kind = .abstract →
      overload m ≠ overload times := by
    decide
  have hsame := hall .structural runners d 0 times hd heligible (by decide) fun e he =>
    hoverloads e (he.mem_classes hd)
  have hbefore : eligible? .structural runners (.named d.name) = some d := by
    rw [eligible?_of_get? .structural rfl hd, if_pos heligible]
  rw [opened?_withMethod_of_body hd 0 rfl hopen hm .structural [] rfl,
    opened?_of_eligible hbefore List.not_mem_nil, hopen] at hsame
  cases hsame

end

/-! ## Abstract again -/

section

variable {u : Universe} {d : ClassDecl} {m : MethodDecl}

/-- The class declares one abstract method and no body for its name, and the abstract methods above
it are all declarations of the same overload. -/
structure Redeclares (u : Universe) (d : ClassDecl) (m : MethodDecl) : Prop where
  abstracts : (d.methods.filter fun n => n.kind == .abstract) = [m]
  no_body : ∀ n ∈ d.methods, n.kind = .default ∨ n.kind = .concrete → n.name ≠ m.name
  above : ∀ e, Relation.TransGen (Extends u) d e → ∀ n ∈ e.methods, n.kind = .abstract →
    overload n = overload m

/-- A class above `d` has a body for the name. -/
def BodyAbove (u : Universe) (d : ClassDecl) (name : String) : Prop :=
  ∃ e, Relation.TransGen (Extends u) d e ∧ ∃ n ∈ e.methods,
    (n.kind = .default ∨ n.kind = .concrete) ∧ n.name = name

namespace Redeclares

theorem of_classes (hd : u.get? d.name = some d)
    (habstracts : (d.methods.filter fun n => n.kind == .abstract) = [m])
    (hbody : ∀ n ∈ d.methods, n.kind = .default ∨ n.kind = .concrete → n.name ≠ m.name)
    (hall : ∀ e ∈ u.classes, ∀ n ∈ e.methods, n.kind = .abstract → overload n = overload m) :
    Redeclares u d m :=
  ⟨habstracts, hbody, fun e he => hall e (Reaches.mem_classes hd he.to_reflTransGen)⟩

theorem mem_iff (h : Redeclares u d m) {n : MethodDecl} :
    n ∈ d.methods ∧ n.kind = .abstract ↔ n = m := by
  have hmem : n ∈ d.methods.filter (fun n => n.kind == .abstract) ↔
      n = m := by rw [h.abstracts, List.mem_singleton]
  simpa using hmem

theorem leavesOverload_iff (h : Redeclares u d m) {s : String × Nat} :
    LeavesOverload u d s ↔ s = overload m ∧ ¬BodyAbove u d m.name := by
  obtain ⟨hm, habstract⟩ := h.mem_iff.2 rfl
  constructor
  · rintro ⟨⟨e, he, n, hn, hkind, rfl⟩, hbodies⟩
    have hsame : overload n = overload m := by
      rcases Relation.reflTransGen_iff_eq_or_transGen.1 he with rfl | hover
      · rw [h.mem_iff.1 ⟨hn, hkind⟩]
      · exact h.above e hover n hn hkind
    have hname : n.name = m.name := congrArg Prod.fst hsame
    refine ⟨hsame, fun ⟨e', he', k, hk, hbody, heq⟩ => ?_⟩
    exact hbodies e' he'.to_reflTransGen k hk hbody (heq.trans hname.symm)
  · rintro ⟨rfl, hfree⟩
    refine ⟨⟨d, .refl, m, hm, habstract, rfl⟩, fun e he k hk hbody => ?_⟩
    rcases Relation.reflTransGen_iff_eq_or_transGen.1 he with rfl | hover
    · exact h.no_body k hk hbody
    · exact fun heq => hfree ⟨e, hover, k, hk, hbody, heq⟩

theorem exists_singleOpenMethod (h : Redeclares u d m) (hd : u.get? d.name = some d)
    (hfree : ¬BodyAbove u d m.name) :
    ∃ n b, singleOpenMethod u d = some (n, b) ∧ n.params.length = m.params.length := by
  have hunique : ∃! s, LeavesOverload u d s :=
    ⟨overload m, h.leavesOverload_iff.2 ⟨rfl, hfree⟩, fun s hs => (h.leavesOverload_iff.1 hs).1⟩
  obtain ⟨⟨n, b⟩, hopen⟩ := Option.isSome_iff_exists.1 ((isSome_singleOpenMethod_iff hd).2 hunique)
  obtain ⟨rest, heq, -⟩ := singleOpenMethod_eq_some_iff.1 hopen
  have hleaves : LeavesOverload u d (overload n) :=
    (Functional.leavesOverload_iff hd).2 ⟨(n, b), by simp [heq], rfl⟩
  exact ⟨n, b, hopen, congrArg Prod.snd (h.leavesOverload_iff.1 hleaves).1⟩

theorem singleOpenMethod_eq_none (h : Redeclares u d m) (hd : u.get? d.name = some d)
    (hbody : BodyAbove u d m.name) : singleOpenMethod u d = none := by
  rw [← Option.not_isSome_iff_eq_none, isSome_singleOpenMethod_iff hd]
  rintro ⟨s, hs, -⟩
  exact (h.leavesOverload_iff.1 hs).2 hbody

end Redeclares

/-- **An abstract method declared again.**  Let an interface that may become a function type declare
one abstract method and no body for it, with no other abstract methods above it.  If no class above
has a body for the method, then a use of the interface, outside any override and not in progress, is
resolved to a function type with its number of parameters.  If one has, there is no function
type. -/
theorem reabstracted_method_open {mode : FunctionalMode} {ctx : Context} {type : HostType}
    (heligible : eligible? mode ctx.host type = some d) (huntagged : ctx.Untagged)
    (hfresh : type ∉ ctx.inProgress) (h : Redeclares ctx.host d m) :
    (¬BodyAbove ctx.host d m.name →
      ∀ depth, Nat.pow (HostType.sizeAll (type :: ctx.host.writtenTypes) + 1) 2 ≤ depth →
        ∀ table : SymbolTable, ∃ r params result later,
          ((Chain.standard mode).resolver depth ctx type).run table = (.ok (some r), later) ∧
          r.type = .function params result ∧ params.length = m.params.length) ∧
    (BodyAbove ctx.host d m.name → ∀ nested : Resolver,
      (processor mode).process nested ctx type = pure none) := by
  obtain ⟨-, hd, -⟩ := eligible?_eq_some heligible
  have hopened := opened?_of_eligible heligible hfresh
  constructor
  · intro hfree depth hdepth table
    obtain ⟨n, b, hopen, hlength⟩ := h.exists_singleOpenMethod hd hfree
    rw [hopen] at hopened
    obtain ⟨r, params, result, later, hrun, htype, hnames, -⟩ :=
      run_resolver_of_opened huntagged hopened hdepth table
    have hcount := congrArg List.length hnames
    exact ⟨r, params, result, later, hrun, htype, by simpa [hlength] using hcount⟩
  · intro hbody nested
    rw [h.singleOpenMethod_eq_none hd hbody] at hopened
    rw [Option.map_none] at hopened
    rw [process_of_opened?, hopened]

/-- A task that declares the method of its base again, where the base extends the task in turn. -/
def redeclared : Universe :=
  .ofClasses
    [{ name := "Task", kind := .interface, superTypes := [.named "Base", .named "Missing"],
       methods :=
        [{ name := "close", kind := .default },
          { name := "run", params := [{ name := some "x", type := .primitive .int }],
            kind := .abstract }] },
      { name := "Base", kind := .interface, superTypes := [.named "Task"],
        methods :=
          [{ name := "stop", kind := .default },
            { name := "run", params := [{ name := some "y", type := .primitive .long }],
              kind := .abstract }] }]

theorem reabstracted_method_open_task :
    let ctx : Context := { host := redeclared, settings := {} }
    ∃ r params result later,
      ((Chain.standard .structural).resolver 200 ctx (.named "Task")).run .empty =
      (.ok (some r), later) ∧ r.type = .function params result ∧ params.length = 1 := by
  intro ctx
  obtain ⟨d, m, heligible, hd, habstracts, hoverload⟩ : ∃ d m,
      eligible? .structural ctx.host (.named "Task") = some d ∧
      redeclared.get? d.name = some d ∧ (d.methods.filter fun n => n.kind == .abstract) = [m] ∧
      overload m = ("run", 1) :=
    ⟨(redeclared.get? "Task").get rfl, _, rfl, rfl, rfl, rfl⟩
  obtain ⟨hname, hparams⟩ := Prod.mk.inj hoverload
  have hoverloads : ∀ e ∈ redeclared.classes, ∀ n ∈ e.methods, n.kind = .abstract →
      overload n = ("run", 1) := by decide
  have hbodies : ∀ e ∈ redeclared.classes, ∀ n ∈ e.methods,
      n.kind = .default ∨ n.kind = .concrete → n.name ≠ "run" := by
    decide
  rw [← hoverload] at hoverloads
  rw [← hname] at hbodies
  have hredeclares : Redeclares ctx.host d m :=
    .of_classes hd habstracts (hbodies d (Universe.get?_mem hd)) hoverloads
  have hfree : ¬BodyAbove ctx.host d m.name := fun ⟨e, he, n, hn, hbody, heq⟩ =>
    hbodies e (Reaches.mem_classes hd he.to_reflTransGen) n hn hbody heq
  have hopen :=
    reabstracted_method_open heligible (fun _ hsite => nomatch hsite) List.not_mem_nil hredeclares
  rw [← hparams]
  exact hopen.1 hfree 200 (by decide) .empty

/-- A task that declares a method again for which its base has a body. -/
def defaulted : Universe :=
  .ofClasses
    [{ name := "Task", kind := .interface, superTypes := [.named "Base"],
       methods := [{ name := "run", kind := .abstract }] },
      { name := "Base", kind := .interface, methods := [{ name := "run", kind := .default }] }]

/-- A body counts even where it is overridden. -/
theorem not_all_reabstracted_methods_open :
    ¬∀ (mode : FunctionalMode) (ctx : Context) (type : HostType) (d : ClassDecl) (m : MethodDecl),
      eligible? mode ctx.host type = some d → ctx.Untagged → type ∉ ctx.inProgress →
      Redeclares ctx.host d m →
      ∀ depth, Nat.pow (HostType.sizeAll (type :: ctx.host.writtenTypes) + 1) 2 ≤ depth →
        ∀ table : SymbolTable, ∃ r params result later,
          ((Chain.standard mode).resolver depth ctx type).run table = (.ok (some r), later) ∧
          r.type = .function params result ∧ params.length = m.params.length := by
  intro hall
  let ctx : Context := { host := defaulted, settings := {} }
  have huntagged : ctx.Untagged := fun _ h => nomatch h
  obtain ⟨d, m, heligible, hd, hmethods, habstract, hoverload⟩ : ∃ d m,
      eligible? .structural defaulted (.named "Task") = some d ∧
      defaulted.get? d.name = some d ∧ d.methods = [m] ∧
      m.kind = .abstract ∧ overload m = ("run", 0) :=
    ⟨(defaulted.get? "Task").get rfl, _, rfl, rfl, rfl, rfl, rfl⟩
  have hoverloads : ∀ e ∈ defaulted.classes, ∀ n ∈ e.methods, n.kind = .abstract →
      overload n = ("run", 0) := by decide
  rw [← hoverload] at hoverloads
  have hredeclares : Redeclares defaulted d m := by
    refine .of_classes hd (by simp [hmethods, habstract]) (fun n hn hbody => ?_) hoverloads
    rw [hmethods, List.mem_singleton] at hn
    simp [hn, habstract] at hbody
  have hdepth :
      Nat.pow (HostType.sizeAll (.named "Task" :: defaulted.writtenTypes) + 1) 2 ≤ 100 := by decide
  obtain ⟨r, params, result, later, hrun, htype, -⟩ :=
    hall .structural ctx (.named "Task") d m heligible huntagged List.not_mem_nil
      hredeclares 100 hdepth .empty
  -- The interface is not opened, so its use is a reference to it.
  have hreference (t : SymbolTable) :
      ((outline .structural defaulted [] (.named "Task")).realize t).isReference = true := by
    rw [Outline.isReference_realize, outline_of_not_opened rfl]
    rfl
  rw [run_resolver_of_untagged .structural huntagged hdepth] at hrun
  obtain ⟨hr, -⟩ := Prod.mk.inj hrun
  cases hr
  have hfalse : true = false := (hreference _).symm.trans (congrArg TargetType.isReference htype)
  cases hfalse

end

end Functional

end TypeBridge
