import TypeBridge.Proofs.Hierarchy

/-!
# The open method of an interface

The open methods of a hierarchy are the abstract declarations whose name no class of it implements,
in breadth-first order.  An interface has a single one if they are all declarations of one overload,
and then it is the first of them (`single_open_method`).

Whether a name is implemented is only known at the end of the walk.  A search that notes names and
candidates on its way, leaves out what it has seen already, and asks for the names once more at the
end arrives at the same method (`singleOpenMethod_eq_notes`).
-/

namespace TypeBridge.Functional

variable {u : Universe} {d e : ClassDecl} {m n : MethodDecl}

/-! ## Overloads -/

/-- The name of a method and the number of its parameters. -/
def overload (m : MethodDecl) : String × Nat :=
  (m.name, m.params.length)

theorem sameSignature_iff : sameSignature m n = true ↔ overload m = overload n := by
  simp [sameSignature, overload]

/-- An overload that the classes above `d`, itself among them, declare as abstract and whose name
none of them gives a body. -/
def LeavesOverload (u : Universe) (d : ClassDecl) (s : String × Nat) : Prop :=
  (∃ e, Reaches u d e ∧ ∃ m ∈ e.methods, m.kind = .abstract ∧ overload m = s) ∧
    ∀ e, Reaches u d e → ∀ m ∈ e.methods, m.kind = .default ∨ m.kind = .concrete → m.name ≠ s.1

theorem hasBody_iff : hasBody m = true ↔ m.kind = .default ∨ m.kind = .concrete := by
  simp [hasBody]

/-! ## Open methods -/

section

variable {entries : List (ClassDecl × Bindings)} {p : MethodDecl × Bindings}

/-- The methods of all classes in order, with what their class binds. -/
def declarations (entries : List (ClassDecl × Bindings)) : List (MethodDecl × Bindings) :=
  entries.flatMap fun entry => entry.1.methods.map (·, entry.2)

theorem mem_implemented {name : String} :
    name ∈ implemented entries ↔
      ∃ p ∈ declarations entries, hasBody p.1 = true ∧ p.1.name = name := by
  simp only [implemented, declarations, List.mem_flatMap, List.mem_map, List.mem_filter]
  constructor
  · rintro ⟨entry, hentry, m, ⟨hm, hbody⟩, rfl⟩
    exact ⟨(m, entry.2), ⟨entry, hentry, m, hm, rfl⟩, hbody, rfl⟩
  · rintro ⟨_, ⟨entry, hentry, m, hm, rfl⟩, hbody, rfl⟩
    exact ⟨entry, hentry, m, ⟨hm, hbody⟩, rfl⟩

/-- An abstract method whose name is not among those that are implemented. -/
def isOpen (names : List String) (p : MethodDecl × Bindings) : Bool :=
  p.1.kind == .abstract && !names.contains p.1.name

theorem openMethods_eq_filter (entries : List (ClassDecl × Bindings)) :
    openMethods entries = (declarations entries).filter (isOpen (implemented entries)) := by
  have habstract (entry : ClassDecl × Bindings) :
      (entry.1.methods.filter fun m => m.kind == .abstract).map (·, entry.2) =
        (entry.1.methods.map (·, entry.2)).filter fun p => p.1.kind == .abstract := by
    rw [List.filter_map]
    rfl
  unfold openMethods declarations
  simp only [habstract]
  rw [← List.filter_flatMap, List.filter_filter]
  exact List.filter_congr fun p _ => Bool.and_comm ..

theorem mem_declarations_hierarchy (hd : u.get? d.name = some d) :
    (∃ b, (m, b) ∈ declarations (hierarchy u d)) ↔ ∃ e, Reaches u d e ∧ m ∈ e.methods := by
  simp only [declarations, List.mem_flatMap, List.mem_map, Prod.mk.injEq]
  constructor
  · rintro ⟨b, entry, hentry, _, hm, rfl, rfl⟩
    exact ⟨entry.1, (mem_hierarchy_iff hd).1 ⟨entry.2, hentry⟩, hm⟩
  · rintro ⟨e, he, hm⟩
    obtain ⟨b, hb⟩ := (mem_hierarchy_iff hd).2 he
    exact ⟨b, (e, b), hb, m, hm, rfl, rfl⟩

theorem mem_openMethods : p ∈ openMethods entries ↔
    p ∈ declarations entries ∧ p.1.kind = .abstract ∧ p.1.name ∉ implemented entries := by
  rw [openMethods_eq_filter, List.mem_filter]
  simp [isOpen]

theorem leavesOverload_iff (hd : u.get? d.name = some d) {s : String × Nat} :
    LeavesOverload u d s ↔ ∃ p ∈ openMethods (hierarchy u d), overload p.1 = s := by
  have hbodies (name : String) : name ∉ implemented (hierarchy u d) ↔
      ∀ e, Reaches u d e → ∀ m ∈ e.methods, m.kind = .default ∨ m.kind = .concrete →
        m.name ≠ name := by
    rw [mem_implemented]
    constructor
    · intro hnone e he m hm hbody heq
      obtain ⟨b, hb⟩ := (mem_declarations_hierarchy hd).2 ⟨e, he, hm⟩
      exact hnone ⟨(m, b), hb, hasBody_iff.2 hbody, heq⟩
    · rintro hall ⟨⟨m, b⟩, hb, hbody, heq⟩
      obtain ⟨e, he, hm⟩ := (mem_declarations_hierarchy hd).1 ⟨b, hb⟩
      exact hall e he m hm (hasBody_iff.1 hbody) heq
  constructor
  · rintro ⟨⟨e, he, m, hm, habstract, rfl⟩, hall⟩
    obtain ⟨b, hb⟩ := (mem_declarations_hierarchy hd).2 ⟨e, he, hm⟩
    exact ⟨(m, b), mem_openMethods.2 ⟨hb, habstract, (hbodies m.name).2 hall⟩, rfl⟩
  · rintro ⟨⟨m, b⟩, hmem, rfl⟩
    obtain ⟨hb, habstract, hname⟩ := mem_openMethods.1 hmem
    obtain ⟨e, he, hm⟩ := (mem_declarations_hierarchy hd).1 ⟨b, hb⟩
    exact ⟨⟨e, he, m, hm, habstract, rfl⟩, (hbodies m.name).1 hname⟩

theorem singleOpenMethod_eq_some_iff :
    singleOpenMethod u d = some p ↔
      ∃ rest, openMethods (hierarchy u d) = p :: rest ∧ ∀ q ∈ rest,
        overload p.1 = overload q.1 := by
  unfold singleOpenMethod
  cases openMethods (hierarchy u d) with
  | nil => simp
  | cons q rest =>
    simp only [List.cons.injEq, Option.ite_none_right_eq_some, Option.some.injEq, List.all_eq_true,
      sameSignature_iff]
    constructor
    · rintro ⟨hall, rfl⟩
      exact ⟨rest, ⟨rfl, rfl⟩, hall⟩
    · rintro ⟨_, ⟨rfl, rfl⟩, hall⟩
      exact ⟨hall, rfl⟩

/-- There is a single open method if exactly one overload is left open. -/
theorem isSome_singleOpenMethod_iff (hd : u.get? d.name = some d) :
    (singleOpenMethod u d).isSome = true ↔ ∃! s, LeavesOverload u d s := by
  simp only [Option.isSome_iff_exists, singleOpenMethod_eq_some_iff, leavesOverload_iff hd]
  constructor
  · rintro ⟨p, rest, heq, hall⟩
    refine ⟨overload p.1, ⟨p, by simp [heq], rfl⟩, ?_⟩
    rintro _ ⟨q, hq, rfl⟩
    rw [heq] at hq
    rcases List.mem_cons.1 hq with rfl | hq
    · rfl
    · exact (hall q hq).symm
  · rintro ⟨s, ⟨p, hp, -⟩, hunique⟩
    have hsame : ∀ q ∈ openMethods (hierarchy u d), overload q.1 = s :=
      fun q hq => hunique _ ⟨q, hq, rfl⟩
    cases heq : openMethods (hierarchy u d) with
    | nil =>
      rw [heq] at hp
      cases hp
    | cons q rest =>
      rw [heq] at hsame
      exact ⟨q, rest, rfl, fun r hr => (hsame q List.mem_cons_self).trans
        (hsame r (List.mem_cons_of_mem _ hr)).symm⟩

/-- An abstract declaration of the same overload. -/
def declares (m n : MethodDecl) : Bool :=
  n.kind == .abstract && sameSignature m n

/-- The open method is the first declaration of its overload. -/
theorem find?_declarations (h : singleOpenMethod u d = some p) :
    (declarations (hierarchy u d)).find? (fun q => declares p.1 q.1) = some p := by
  obtain ⟨rest, heq, -⟩ := singleOpenMethod_eq_some_iff.1 h
  rw [openMethods_eq_filter] at heq
  have hfirst :
      (declarations (hierarchy u d)).find? (isOpen (implemented (hierarchy u d))) = some p := by
    rw [← List.head?_filter, heq]
    rfl
  obtain ⟨hopen, front, back, hsplit, hfront⟩ := List.find?_eq_some_iff_append.1 hfirst
  have hp : p.1.kind = .abstract ∧ p.1.name ∉ implemented (hierarchy u d) := by
    simpa [isOpen] using hopen
  refine List.find?_eq_some_iff_append.2 ⟨?_, front, back, hsplit, fun q hq => ?_⟩
  · simp [declares, hp.1, sameSignature_iff]
  · -- What comes before is not open, so it is no declaration of an overload that is.
    have hnot := hfront q hq
    simp only [isOpen, declares, Bool.not_eq_true', Bool.and_eq_false_iff] at hnot ⊢
    refine hnot.imp_right fun hname => ?_
    have himplemented : q.1.name ∈ implemented (hierarchy u d) := by simpa using hname
    refine Bool.eq_false_iff.2 fun hsame => hp.2 ?_
    have hnames : p.1.name = q.1.name := congrArg Prod.fst (sameSignature_iff.1 hsame)
    rwa [hnames]

end

/-! ## Selection on the way -/

/-- What a search has seen of methods: the names with a body, and the candidates so far. -/
structure Notes where
  bodies : List String := []
  candidates : List (MethodDecl × Bindings) := []

namespace Notes

/-- An abstract method is a candidate unless a body was seen for its name, or there is a candidate
of its overload. -/
def note (s : Notes) (p : MethodDecl × Bindings) : Notes :=
  match p.1.kind with
  | .static => s
  | .abstract =>
    if s.bodies.contains p.1.name || s.candidates.any fun q => sameSignature q.1 p.1 then s
    else { s with candidates := s.candidates ++ [p] }
  | .default => { s with bodies := p.1.name :: s.bodies }
  | .concrete => { s with bodies := p.1.name :: s.bodies }

/-- The only candidate for whose name no body was seen at all. -/
def single? (s : Notes) : Option (MethodDecl × Bindings) :=
  match s.candidates.filter fun p => !s.bodies.contains p.1.name with
  | [p] => some p
  | _ => none

variable {s : Notes} {p : MethodDecl × Bindings} {ps : List (MethodDecl × Bindings)}
  {names : List String}

theorem mem_bodies_note {name : String} :
    name ∈ (s.note p).bodies ↔ name ∈ s.bodies ∨ hasBody p.1 = true ∧ p.1.name = name := by
  unfold note
  cases hkind : p.1.kind with
  | abstract =>
    simp only [hasBody, hkind]
    split <;> simp
  | static => simp [hasBody, hkind]
  | default => simp [hasBody, hkind, or_comm, eq_comm (a := name)]
  | concrete => simp [hasBody, hkind, or_comm, eq_comm (a := name)]

theorem mem_bodies {name : String} :
    name ∈ (ps.foldl note s).bodies ↔
      name ∈ s.bodies ∨ ∃ p ∈ ps, hasBody p.1 = true ∧ p.1.name = name := by
  induction ps generalizing s with
  | nil => simp
  | cons p rest ih =>
    simp only [List.foldl_cons, ih, mem_bodies_note, List.exists_mem_cons_iff, or_assoc]

/-- The candidates whose names are not among `names`. -/
def remaining (names : List String) (ps : List (MethodDecl × Bindings)) :
    List (MethodDecl × Bindings) :=
  ps.filter fun p => !names.contains p.1.name

/-- Keep the first declaration of an overload. -/
def keepFirst (ps : List (MethodDecl × Bindings)) (p : MethodDecl × Bindings) :
    List (MethodDecl × Bindings) :=
  if ps.any fun q => sameSignature q.1 p.1 then ps else ps ++ [p]

/-- Once the names are known, a note keeps the first declaration of each overload that they leave
open. -/
theorem remaining_note (hnames : s.bodies ⊆ names) :
    remaining names (s.note p).candidates =
      if isOpen names p then keepFirst (remaining names s.candidates) p
          else remaining names s.candidates := by
  unfold note isOpen
  cases hkind : p.1.kind with
  | abstract =>
    by_cases hname : p.1.name ∈ names
    · have hdropped : remaining names (s.candidates ++ [p]) = remaining names s.candidates := by
        simp [remaining, hname]
      simp only [hname, List.contains_eq_mem, decide_true, Bool.not_true, Bool.and_false,
        Bool.false_eq_true, ↓reduceIte]
      split
      · rfl
      · exact hdropped
    · have hkept : remaining names (s.candidates ++ [p]) = remaining names s.candidates ++ [p] := by
        simp [remaining, hname]
      have hbody : s.bodies.contains p.1.name = false := by
        simpa using fun hmem => hname (hnames hmem)
      -- A candidate of the same overload has the same name, so it remains.
      have hany : (remaining names s.candidates).any (fun q => sameSignature q.1 p.1) =
          s.candidates.any fun q => sameSignature q.1 p.1 := by
        rw [Bool.eq_iff_iff, List.any_eq_true, List.any_eq_true]
        simp only [remaining, List.mem_filter]
        refine exists_congr fun q => and_congr_left fun hsame => and_iff_left ?_
        have hsamename : q.1.name = p.1.name := congrArg Prod.fst (sameSignature_iff.1 hsame)
        simpa [hsamename] using hname
      simp only [hname, hbody, List.contains_eq_mem, decide_false, Bool.not_false, beq_self_eq_true,
        Bool.and_true, Bool.false_or, ↓reduceIte, keepFirst, hany]
      split
      · rfl
      · exact hkept
  | _ => rfl

theorem remaining_foldl (hnames : (ps.foldl note s).bodies ⊆ names) :
    remaining names (ps.foldl note s).candidates =
      (ps.filter (isOpen names)).foldl keepFirst (remaining names s.candidates) := by
  induction ps generalizing s with
  | nil => rfl
  | cons p rest ih =>
    have hbodies : s.bodies ⊆ names := fun name hmem => hnames (mem_bodies.2 (.inl hmem))
    rw [List.foldl_cons, ih hnames, remaining_note hbodies, List.filter_cons]
    split <;> rfl

/-! ### One candidate left -/

theorem prefix_foldl_keepFirst (qs : List (MethodDecl × Bindings)) :
    qs <+: ps.foldl keepFirst qs := by
  induction ps generalizing qs with
  | nil => exact List.prefix_rfl
  | cons p rest ih =>
    have hstep : qs <+: keepFirst qs p := by
      unfold keepFirst
      split
      · exact List.prefix_rfl
      · exact List.prefix_append ..
    exact hstep.trans (ih _)

theorem foldl_keepFirst_eq_singleton {q : MethodDecl × Bindings} :
    ps.foldl keepFirst [p] = [q] ↔ p = q ∧ ∀ r ∈ ps, overload p.1 = overload r.1 := by
  induction ps with
  | nil => simp
  | cons r rest ih =>
    rw [List.foldl_cons, List.forall_mem_cons]
    by_cases hsame : overload p.1 = overload r.1
    · have hkeep : keepFirst [p] r = [p] := by simp [keepFirst, sameSignature_iff, hsame]
      rw [hkeep, ih, and_iff_right hsame]
    · have hkeep : keepFirst [p] r = [p, r] := by simp [keepFirst, sameSignature_iff, hsame]
      rw [hkeep]
      refine iff_of_false (fun heq => ?_) fun h => hsame h.2.1
      have hprefix : [p, r] <+: rest.foldl keepFirst [p, r] := prefix_foldl_keepFirst [p, r]
      rw [heq] at hprefix
      exact absurd hprefix.length_le (by simp)

theorem single?_eq_some_iff {q : MethodDecl × Bindings} :
    s.single? = some q ↔ remaining s.bodies s.candidates = [q] := by
  unfold single? remaining
  split
  · next heq => rw [heq, Option.some.injEq, List.singleton_inj]
  · next hnot => exact iff_of_false nofun (hnot q)

end Notes

/-- **A search can select on its way.** -/
theorem singleOpenMethod_eq_notes (u : Universe) (d : ClassDecl) :
    singleOpenMethod u d = ((declarations (hierarchy u d)).foldl Notes.note {}).single? := by
  refine Option.ext fun q => ?_
  have hremaining :
      Notes.remaining _ ((declarations (hierarchy u d)).foldl Notes.note {}).candidates = _ :=
    Notes.remaining_foldl (List.Subset.refl _)
  have hnames : isOpen ((declarations (hierarchy u d)).foldl Notes.note {}).bodies =
      isOpen (implemented (hierarchy u d)) := by
    funext p
    have hiff : p.1.name ∈ ((declarations (hierarchy u d)).foldl Notes.note {}).bodies ↔
        p.1.name ∈ implemented (hierarchy u d) := by
      rw [Notes.mem_bodies, mem_implemented]
      simp
    simp [isOpen, hiff]
  rw [hnames, ← openMethods_eq_filter] at hremaining
  rw [Notes.single?_eq_some_iff, hremaining, singleOpenMethod_eq_some_iff]
  cases openMethods (hierarchy u d) with
  | nil => simp [Notes.remaining]
  | cons p rest =>
    change _ ↔ rest.foldl Notes.keepFirst [p] = [q]
    rw [Notes.foldl_keepFirst_eq_singleton]
    constructor
    · rintro ⟨_, heq, hall⟩
      cases heq
      exact ⟨rfl, hall⟩
    · rintro ⟨rfl, hall⟩
      exact ⟨rest, rfl, hall⟩

/-! ## The method selected -/

/-- **The single open method.**  The search through the hierarchy of a declared class ends, whatever
the super types, and finds the classes that can be reached, in breadth-first order and each once.
There is a single open method if and only if exactly one overload is declared as abstract by these
classes without any of them having a body for its name, and it is the first declaration of that
overload among their methods.  It is also what a search selects on its way. -/
theorem single_open_method (hd : u.get? d.name = some d) :
    Search entryName (entryParents u) [] [(d, [])] (hierarchy u d) ∧
    BreadthFirst u d ((hierarchy u d).map (·.1)) ∧
    ((singleOpenMethod u d).isSome = true ↔ ∃! s, LeavesOverload u d s) ∧
    (∀ m b, singleOpenMethod u d = some (m, b) → LeavesOverload u d (overload m) ∧
      (((hierarchy u d).map (·.1)).flatMap (·.methods)).find? (declares m) = some m) ∧
    singleOpenMethod u d = ((declarations (hierarchy u d)).foldl Notes.note {}).single? := by
  refine ⟨search_hierarchy hd, breadthFirst_hierarchy hd, isSome_singleOpenMethod_iff hd,
    fun m b h => ⟨?_, ?_⟩, singleOpenMethod_eq_notes u d⟩
  · obtain ⟨rest, heq, -⟩ := singleOpenMethod_eq_some_iff.1 h
    exact (leavesOverload_iff hd).2 ⟨(m, b), by simp [heq], rfl⟩
  · have hmethods : ((hierarchy u d).map (·.1)).flatMap (·.methods) =
        (declarations (hierarchy u d)).map (·.1) := by
      simp [declarations, List.flatMap_map, List.map_flatMap, Function.comp_def]
    have hfind := find?_declarations h
    rw [hmethods, List.find?_map, Function.comp_def, hfind]
    rfl

/-- An interface with two parents that declare one method and have a third parent in common, to
which one of them is a parent itself; one super type is not declared. -/
def diamond : Universe :=
  .ofClasses
    [{ name := "D", kind := .interface, typeParams := ["T"],
       superTypes := [.named "Missing", .generic "A" [.named "T"], .generic "B" [.named "T"]] },
      { name := "A", kind := .interface, typeParams := ["X"],
        superTypes := [.generic "C" [.named "X"]], methods :=
          [{ name := "close", kind := .default },
            { name := "run", params := [{ name := some "x", type := .named "X" }],
              kind := .abstract }] },
      { name := "B", kind := .interface, typeParams := ["Y"],
        superTypes := [.named "D", .generic "C" [.named "Y"]], methods :=
          [{ name := "close", kind := .abstract },
            { name := "run", params := [{ name := some "y", type := .named "Y" }],
              kind := .abstract }] },
      { name := "C", kind := .interface, typeParams := ["Z"],
        superTypes := [.generic "A" [.array (.named "Z")]],
        methods := [{ name := "run", params := [{ name := some "z", type := .named "Z" }],
                      kind := .abstract }] }]

theorem singleOpenMethod_diamond :
    ∃ d m b, diamond.get? d.name = some d ∧ singleOpenMethod diamond d = some (m, b) ∧
      overload m = ("run", 1) ∧
      m.params.map (·.name) = [some "x"] ∧
      (hierarchy diamond d).map (·.1.name) = ["D", "A", "B", "C"] :=
  ⟨(diamond.get? "D").get rfl, _, _, rfl, rfl, rfl, rfl, rfl⟩

/-- The method of `A` is the open one, since `A` comes before `B` and both before `C`. -/
theorem single_open_method_diamond :
    ∃ d m b, diamond.get? d.name = some d ∧ singleOpenMethod diamond d = some (m, b) ∧
      m.params.map (·.name) = [some "x"] ∧ (∃! s, LeavesOverload diamond d s) ∧
      LeavesOverload diamond d ("run", 1) ∧
      (hierarchy diamond d).map (·.1.name) = ["D", "A", "B", "C"] ∧
      BreadthFirst diamond d ((hierarchy diamond d).map (·.1)) := by
  obtain ⟨d, m, b, hd, hopen, hoverload, hparams, hnames⟩ := singleOpenMethod_diamond
  obtain ⟨-, hbreadth, hiff, hfirst, -⟩ := single_open_method hd
  have hleaves := (hfirst m b hopen).1
  rw [hoverload] at hleaves
  exact ⟨d, m, b, hd, hopen, hparams, hiff.1 (by rw [hopen]; rfl), hleaves, hnames, hbreadth⟩

end TypeBridge.Functional
