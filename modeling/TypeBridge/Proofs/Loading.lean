import TypeBridge.Proofs.Binding
import TypeBridge.Proofs.RoundTrip

/-!
# Loading universes

Binding type parameters is a matter of which names are bound, not of how often or in which order
(`bind_bind`, `bind_congr`), so a declaration that is bound stays as it is when it is bound again
(`ClassDecl.bind_bind`).  A universe therefore does not change when a class of it is inserted once
more, and one universe comes out of a set of declarations whether they are loaded together or
inserted one by one, in whatever order (`binding_laws`).
-/

namespace TypeBridge

/-! ## Types -/

namespace HostType

variable {p q : List String}

theorem bind_bind (p q : List String) (t : HostType) : (t.bind p).bind q = t.bind (p ++ q) := by
  induction t using nestedInduction with
  | primitive k => rfl
  | typeVar n => rfl
  | array e ih => simp only [bind, ih]
  | generic r args ih =>
    simp only [bind, bindAll_eq_map, List.map_map, generic.injEq, true_and]
    exact List.map_congr_left ih
  | named n =>
    by_cases hp : n ∈ p
    · simp [bind, hp]
    · simp [bind, hp]

theorem bind_congr (h : ∀ n, n ∈ p ↔ n ∈ q) (t : HostType) : t.bind p = t.bind q := by
  induction t using nestedInduction with
  | primitive k => rfl
  | typeVar n => rfl
  | array e ih => simp only [bind, ih]
  | generic r args ih =>
    simp only [bind, bindAll_eq_map, generic.injEq, true_and]
    exact List.map_congr_left ih
  | named n => simp only [bind, h n]

theorem bind_self (p : List String) (t : HostType) : (t.bind p).bind p = t.bind p := by
  have hrepeated : ∀ n, n ∈ p ++ p ↔ n ∈ p := fun n => by simp
  rw [bind_bind, bind_congr hrepeated]

end HostType

/-! ## Declarations -/

theorem map_bind_self {α : Type} {bind : α → α} (h : ∀ a, bind (bind a) = bind a) (as : List α) :
    (as.map bind).map bind = as.map bind := by
  rw [List.map_map]
  exact List.map_congr_left fun a _ => h a

theorem OverrideTag.bind_self (p : List String) (tag : OverrideTag) :
    (tag.bind p).bind p = tag.bind p := by
  cases tag with
  | verbatim text types => simp only [bind, map_bind_self (HostType.bind_self p)]
  | methodReference name owner => rfl

theorem ParamDecl.bind_self (p : List String) (param : ParamDecl) :
    (param.bind p).bind p = param.bind p := by
  simp only [bind, HostType.bind_self]

theorem FieldDecl.bind_self (p : List String) (f : FieldDecl) : (f.bind p).bind p = f.bind p := by
  simp only [bind, HostType.bind_self, map_bind_self (OverrideTag.bind_self p)]

theorem MethodDecl.bind_self (p : List String) (m : MethodDecl) : (m.bind p).bind p = m.bind p := by
  simp only [bind, HostType.bind_self, map_bind_self (ParamDecl.bind_self _),
    map_bind_self (OverrideTag.bind_self _)]

theorem ConstructorDecl.bind_self (p : List String) (c : ConstructorDecl) :
    (c.bind p).bind p = c.bind p := by
  simp only [bind, map_bind_self (ParamDecl.bind_self p)]

/-- A declaration that is bound has nothing left to bind. -/
theorem ClassDecl.bind_self (d : ClassDecl) : d.bind.bind = d.bind := by
  simp only [bind, map_bind_self (HostType.bind_self _), map_bind_self (FieldDecl.bind_self _),
    map_bind_self (MethodDecl.bind_self _), map_bind_self (ConstructorDecl.bind_self _)]

/-! ## Classes by name -/

namespace Universe

variable {u : Universe} {c d : ClassDecl} {cs ds : List ClassDecl}

theorem insertByName_of_mem (hordered : cs.Pairwise (·.name < ·.name)) (hc : c ∈ cs) :
    insertByName c cs = cs := by
  induction cs with
  | nil => cases hc
  | cons b rest ih =>
    obtain ⟨hfront, hrest⟩ := List.pairwise_cons.1 hordered
    unfold insertByName
    rcases List.mem_cons.1 hc with rfl | hc
    · rw [if_neg (String.lt_irrefl _), if_pos rfl]
    · have hlt := hfront c hc
      have hne : c.name ≠ b.name := fun heq => String.lt_irrefl _ (heq ▸ hlt)
      rw [if_neg (String.lt_asymm hlt), if_neg hne, ih hrest hc]

theorem perm_insertByName (hnew : ∀ c ∈ cs, c.name ≠ d.name) :
    (insertByName d cs).Perm (d :: cs) := by
  induction cs with
  | nil => exact .refl _
  | cons b rest ih =>
    unfold insertByName
    split
    · exact .refl _
    · rw [if_neg (hnew b List.mem_cons_self).symm]
      exact ((ih fun c hc => hnew c (List.mem_cons_of_mem b hc)).cons b).trans (.swap d b rest)

theorem insertByName_map_bind (d : ClassDecl) (cs : List ClassDecl) :
    insertByName d.bind (cs.map ClassDecl.bind) = (insertByName d cs).map ClassDecl.bind := by
  have hname (c : ClassDecl) : c.bind.name = c.name := rfl
  induction cs with
  | nil => rfl
  | cons b rest ih =>
    simp only [insertByName, List.map_cons, hname, ih]
    split
    · rfl
    · split <;> rfl

/-- The classes that are written, by name and not yet bound; of several with one name the last
counts. -/
def byName (ds : List ClassDecl) : List ClassDecl :=
  ds.foldl (fun classes d => insertByName d classes) []

theorem classes_foldl_insert (ds cs : List ClassDecl) (providers : Providers) :
    ds.foldl insert ⟨cs.map ClassDecl.bind, providers⟩ =
      ⟨(ds.foldl (fun classes d => insertByName d classes) cs).map ClassDecl.bind, providers⟩ := by
  induction ds generalizing cs with
  | nil => rfl
  | cons d rest ih => rw [List.foldl_cons, List.foldl_cons, ← ih, insert, insertByName_map_bind]

/-- A class may be bound before it is put in its place or behind. -/
theorem ofClasses_eq (ds : List ClassDecl) : ofClasses ds = ⟨(byName ds).map ClassDecl.bind, {}⟩ :=
  classes_foldl_insert ds [] {}

theorem perm_classes_foldl_insert (hnodup : (ds.map (·.name)).Nodup)
    (hnew : ∀ d ∈ ds, ∀ c ∈ u.classes, c.name ≠ d.name) :
    (ds.foldl insert u).classes.Perm (u.classes ++ ds.map ClassDecl.bind) := by
  induction ds generalizing u with
  | nil => simp
  | cons d rest ih =>
    obtain ⟨hd, hrest⟩ := List.nodup_cons.1 hnodup
    have hinserted : (u.insert d).classes.Perm (d.bind :: u.classes) :=
      perm_insertByName (d := d.bind) (hnew d List.mem_cons_self)
    have hfresh : ∀ e ∈ rest, ∀ c ∈ (u.insert d).classes, c.name ≠ e.name := by
      intro e he c hc
      rcases List.mem_cons.1 (hinserted.mem_iff.1 hc) with rfl | hc
      · exact fun heq => hd (List.mem_map.2 ⟨e, he, heq.symm⟩)
      · exact hnew e (List.mem_cons_of_mem d he) c hc
    refine (ih hrest hfresh).trans ((hinserted.append_right _).trans ?_)
    exact List.perm_middle.symm

theorem Ordered.pairwise (hu : u.Ordered) : u.classes.Pairwise (·.name < ·.name) := by
  unfold Ordered at hu
  rwa [List.pairwise_map] at hu

theorem Ordered.get?_of_mem (hu : u.Ordered) (hc : c ∈ u.classes) : u.get? c.name = some c := by
  have hpairwise := hu.pairwise
  unfold get?
  generalize u.classes = cs at hpairwise hc
  induction cs with
  | nil => cases hc
  | cons b rest ih =>
    obtain ⟨hfront, hrest⟩ := List.pairwise_cons.1 hpairwise
    rcases List.mem_cons.1 hc with rfl | hc
    · simp
    · have hne : b.name ≠ c.name := fun heq => String.lt_irrefl _ (heq ▸ hfront c hc)
      rw [List.find?_cons_of_neg (by simpa using hne)]
      exact ih hrest hc

theorem perm_classes_ofClasses (hnodup : (ds.map (·.name)).Nodup) :
    (ofClasses ds).classes.Perm (ds.map ClassDecl.bind) :=
  perm_classes_foldl_insert hnodup fun _ _ _ hc => nomatch hc

/-- The universe of several classes does not depend on the order in which they come. -/
theorem ofClasses_of_perm {order : List ClassDecl} (hnodup : (ds.map (·.name)).Nodup)
    (hperm : order.Perm ds) : ofClasses order = ofClasses ds := by
  have hordernodup : (order.map (·.name)).Nodup := (hperm.map _).nodup_iff.2 hnodup
  have hsame : (ofClasses order).classes.Perm (ofClasses ds).classes :=
    (perm_classes_ofClasses hordernodup).trans
      ((hperm.map ClassDecl.bind).trans (perm_classes_ofClasses hnodup).symm)
  have hclasses : (ofClasses order).classes = (ofClasses ds).classes :=
    hsame.eq_of_pairwise (fun c d _ _ hlt hgt => absurd hgt (String.lt_asymm hlt))
      (Ordered.ofClasses order).pairwise (Ordered.ofClasses ds).pairwise
  rw [ofClasses_eq, ofClasses_eq] at hclasses ⊢
  exact congrArg (Universe.mk · {}) hclasses

theorem get?_ofClasses (hnodup : (ds.map (·.name)).Nodup) (hd : d ∈ ds) :
    (ofClasses ds).get? d.name = some d.bind :=
  (Ordered.ofClasses ds).get?_of_mem
    ((perm_classes_ofClasses hnodup).mem_iff.2 (List.mem_map_of_mem hd))

/-! ## Universes that are built -/

/-- A universe that is empty or loaded, with classes inserted and providers registered since. -/
inductive Built : Universe → Prop
  | empty : Built {}
  | loaded {json : String} {u : Universe} (h : ofJson json = .ok u) : Built u
  | insert {u : Universe} (h : Built u) (d : ClassDecl) : Built (u.insert d)
  | register {u : Universe} (h : Built u) (owner name : String) (provider : Provider) :
      Built (u.register owner name provider)

theorem Built.ordered (h : Built u) : u.Ordered := by
  induction h with
  | empty => exact Ordered.empty
  | loaded h =>
    obtain ⟨ds, -, rfl⟩ := ofJson_eq_ok_iff.1 h
    exact Ordered.ofClasses ds
  | insert _ d ih => exact ih.insert d
  | register _ owner name provider ih => exact ih

theorem Built.bind_eq (h : Built u) (hc : c ∈ u.classes) : c.bind = c := by
  induction h with
  | empty => cases hc
  | loaded h =>
    obtain ⟨ds, -, rfl⟩ := ofJson_eq_ok_iff.1 h
    obtain ⟨d, -, rfl⟩ := (mem_classes_foldl_insert hc).resolve_left List.not_mem_nil
    exact d.bind_self
  | insert _ d ih =>
    rcases mem_insertByName hc with rfl | hc
    · exact d.bind_self
    · exact ih hc
  | register _ owner name provider ih => exact ih hc

theorem Built.insert_of_mem (h : Built u) (hc : c ∈ u.classes) : u.insert c = u := by
  have hsame : insertByName c u.classes = u.classes := insertByName_of_mem h.ordered.pairwise hc
  rw [Universe.insert, h.bind_eq hc, hsame]

end Universe

/-- **Binding laws.**  Binding is invisible in the text of a type; binding twice is binding the
names of both lists, and only which names these are matters.  A class of a universe can be inserted
again without a change.  And classes with distinct names make one universe, whether it is loaded
from a text of them or they are inserted in any order, each class bound and under its own name. -/
theorem binding_laws :
    (∀ (t : HostType) (p q : List String), (t.bind p).text = t.text ∧
      (t.bind p).bind q = t.bind (p ++ q) ∧
      (t.bind p).bind p = t.bind p ∧ ((∀ n, n ∈ p ↔ n ∈ q) → t.bind p = t.bind q)) ∧
    (∀ u : Universe, u.Built → ∀ c ∈ u.classes, u.insert c = u) ∧
    ∀ ds : List ClassDecl, (ds.map (·.name)).Nodup → ∀ order : List ClassDecl, order.Perm ds →
      (∀ json, Universe.written json = .ok ds → Universe.ofJson json =
        .ok (order.foldl Universe.insert {})) ∧
      (order.foldl Universe.insert {}).classes = (Universe.byName ds).map ClassDecl.bind ∧
      ∀ d ∈ ds, (order.foldl Universe.insert {}).get? d.name = some d.bind := by
  refine ⟨fun t p q =>
    ⟨t.text_bind p, t.bind_bind p q, t.bind_self p, fun h => HostType.bind_congr h t⟩,
    fun u hu c hc => hu.insert_of_mem hc, fun ds hnodup order hperm => ?_⟩
  have horder : order.foldl Universe.insert {} = Universe.ofClasses ds :=
    Universe.ofClasses_of_perm hnodup hperm
  rw [horder]
  refine ⟨fun json hjson => Universe.ofJson_eq_ok_iff.2 ⟨ds, hjson, rfl⟩, ?_, fun d hd => ?_⟩
  · rw [Universe.ofClasses_eq]
  · exact Universe.get?_ofClasses hnodup hd

/-- The text of a class that extends another with its type parameter, and of that other class. -/
def pairText : String :=
  "\x7b\"classes\":\x7b\"B\":\x7b\"type_params\":[\"T\"],\"super_types\":[\"A<T>\"]\x7d," ++
    "\"A\":\x7b\"type_params\":[\"T\"]\x7d\x7d\x7d"

def pairDecls : List ClassDecl :=
  [{ name := "B", typeParams := ["T"], superTypes := [.generic "A" [.named "T"]] },
    { name := "A", typeParams := ["T"] }]

theorem binding_laws_pair :
    Universe.ofJson pairText = .ok (pairDecls.reverse.foldl Universe.insert {}) ∧
      (Universe.ofClasses pairDecls).classes.map (·.name) = ["A", "B"] ∧
      ∀ c ∈ (Universe.ofClasses pairDecls).classes,
        (Universe.ofClasses pairDecls).insert c = Universe.ofClasses pairDecls := by
  have hwritten : Universe.written pairText = .ok pairDecls := by decide +kernel
  have hnodup : (pairDecls.map (·.name)).Nodup := by decide
  have hbuilt : (Universe.ofClasses pairDecls).Built :=
    .loaded (Universe.ofJson_eq_ok_iff.2 ⟨pairDecls, hwritten, rfl⟩)
  obtain ⟨-, hinsert, horder⟩ := binding_laws
  exact ⟨(horder pairDecls hnodup _ pairDecls.reverse_perm).1 pairText hwritten, by decide,
    hinsert _ hbuilt⟩

end TypeBridge
