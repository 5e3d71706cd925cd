import Mathlib.Data.List.Lex
import Mathlib.Data.Prod.Lex
import Mathlib.Logic.Relation
import TypeBridge.Proofs.Calls
import TypeBridge.Proofs.Search

/-!
# The hierarchy of a class

The walk through a hierarchy is a breadth-first search to the end (`search_walk`).  Its entries are
ways up from a class, which rank by their length, and ways of one length by the places of the super
types taken.  So a hierarchy consists of the classes that a way leads to, each once, sorted by the
first way to each of them, and what a class binds there is bound along that way (`exists_tour`).
-/

namespace TypeBridge.Functional

variable {u : Universe} {d e : ClassDecl}

/-! ## The walk as a search -/

def entryName (entry : ClassDecl × Bindings) : String :=
  entry.1.name

def entryParents (u : Universe) (entry : ClassDecl × Bindings) : List (ClassDecl × Bindings) :=
  parents u entry.1 entry.2

theorem walk_of_dropWhile_eq_nil {visited : List String} {queue : List (ClassDecl × Bindings)}
    (h : queue.dropWhile (fun entry => visited.contains entry.1.name) = []) (bound : Nat) :
    walk u bound visited queue = [] := by
  cases bound with
  | zero => rfl
  | succ bound => rw [walk, h]

theorem walk_of_dropWhile_eq_cons {visited : List String} {queue rest : List (ClassDecl × Bindings)}
    {entry : ClassDecl × Bindings}
    (h : queue.dropWhile (fun entry => visited.contains entry.1.name) = entry :: rest)
    (bound : Nat) :
    walk u (bound + 1) visited queue =
      entry :: walk u bound (entry.1.name :: visited) (rest ++ parents u entry.1 entry.2) := by
  rw [walk, h]

theorem entryName_mem_of_mem_parents {entry p : ClassDecl × Bindings}
    (h : p ∈ entryParents u entry) : entryName p ∈ u.classes.map (·.name) := by
  obtain ⟨-, -, hmem, -⟩ := mem_parents h
  exact List.mem_map_of_mem hmem

/-- A walk whose bound covers the names that are still to be visited comes to the end. -/
theorem search_walk {bound : Nat} {visited : List String} {queue : List (ClassDecl × Bindings)}
    (hqueue : ∀ e ∈ queue, entryName e ∈ u.classes.map (·.name))
    (hbound : ((u.classes.map (·.name)).filter fun name => !visited.contains name).length ≤ bound) :
    Search entryName (entryParents u) visited queue (walk u bound visited queue) := by
  induction bound using Nat.strongRecOn generalizing visited queue with
  | ind bound ih =>
    have hhead := List.head?_dropWhile_not (fun entry => visited.contains (entryName entry)) queue
    have hsub : queue.dropWhile (fun entry => visited.contains (entryName entry)) ⊆ queue :=
      (List.dropWhile_sublist _).subset
    refine Search.of_dropWhile ?_
    cases hq : queue.dropWhile fun entry => visited.contains (entryName entry) with
    | nil =>
      rw [walk_of_dropWhile_eq_nil hq]
      exact .done
    | cons entry rest =>
      rw [hq] at hhead hsub
      have hnew : entryName entry ∉ visited := by simpa using hhead
      have hless := length_filter_cons_lt (hqueue entry (hsub List.mem_cons_self)) hnew
      obtain ⟨bound, rfl⟩ := Nat.exists_eq_succ_of_ne_zero (show bound ≠ 0 by omega)
      rw [walk_of_dropWhile_eq_cons hq]
      refine .visit hnew (ih bound (Nat.lt_succ_self _) (fun p hp => ?_) ?_)
      · rcases List.mem_append.1 hp with hp | hp
        · exact hqueue p (hsub (List.mem_cons_of_mem _ hp))
        · exact entryName_mem_of_mem_parents hp
      · exact Nat.le_of_lt_succ (Nat.lt_of_lt_of_le hless hbound)

/-- The bound of a hierarchy is never met. -/
theorem search_hierarchy (hd : u.get? d.name = some d) :
    Search entryName (entryParents u) [] [(d, [])] (hierarchy u d) := by
  refine search_walk (fun e he => ?_) ?_
  · obtain rfl := List.mem_singleton.1 he
    exact List.mem_map_of_mem (Universe.get?_mem hd)
  · simp

/-! ## Ways up -/

/-- A step up from a class: the place of a super type in its declaration, that type, and the class
it names. -/
structure Step where
  place : Nat
  type : HostType
  parent : ClassDecl

namespace Step

/-- The class has the super type in that place, and the universe declares the class that it
names. -/
structure From (u : Universe) (d : ClassDecl) (s : Step) : Prop where
  type : d.superTypes[s.place]? = some s.type
  parent : s.type.rawName?.bind u.get? = some s.parent

/-- What the class above binds its parameters to, by what the class below binds its own to. -/
def bindings (s : Step) (b : Bindings) : Bindings :=
  .ofArguments s.parent.typeParams ((arguments s.type).map b.apply)

end Step

def steps (u : Universe) (d : ClassDecl) : List Step :=
  d.superTypes.zipIdx.filterMap fun p => (p.1.rawName?.bind u.get?).map fun parent =>
    ⟨p.2, p.1, parent⟩

theorem mem_steps {s : Step} : s ∈ steps u d ↔ s.From u d := by
  unfold steps
  rw [List.mem_filterMap]
  constructor
  · rintro ⟨⟨type, place⟩, hmem, hs⟩
    obtain ⟨parent, hparent, rfl⟩ := Option.map_eq_some_iff.1 hs
    exact ⟨List.mem_zipIdx_iff_getElem?.1 hmem, hparent⟩
  · intro hs
    exact ⟨(s.type, s.place), List.mem_zipIdx_iff_getElem?.2 hs.type, by rw [hs.parent]; rfl⟩

theorem sorted_steps (u : Universe) (d : ClassDecl) : (steps u d).Pairwise (·.place < ·.place) := by
  have hplaces : d.superTypes.zipIdx.Pairwise (·.2 < ·.2) := by
    rw [← List.pairwise_map (f := Prod.snd) (R := (· < ·)), List.zipIdx_map_snd]
    exact List.pairwise_lt_range'
  unfold steps
  rw [List.pairwise_filterMap]
  refine hplaces.imp fun {p q} hlt s hs t ht => ?_
  obtain ⟨_, -, rfl⟩ := Option.map_eq_some_iff.1 hs
  obtain ⟨_, -, rfl⟩ := Option.map_eq_some_iff.1 ht
  exact hlt

theorem parents_eq_map (u : Universe) (d : ClassDecl) (b : Bindings) :
    parents u d b = (steps u d).map fun s => (s.parent, s.bindings b) := by
  unfold parents steps
  rw [List.map_filterMap]
  conv_lhs => rw [← List.zipIdx_map_fst 0 d.superTypes, List.filterMap_map]
  refine List.filterMap_congr fun p _ => ?_
  cases hname : p.1.rawName? with
  | none => simp [hname]
  | some name => cases hget : u.get? name <;> simp [hname, hget, Step.bindings]

/-- Where a way up from a class arrives, and what the class there binds. -/
def arrive (d : ClassDecl) (way : List Step) : ClassDecl × Bindings :=
  way.foldl (fun entry s => (s.parent, s.bindings entry.2)) (d, [])

theorem arrive_append (d : ClassDecl) (way : List Step) (s : Step) :
    arrive d (way ++ [s]) = (s.parent, s.bindings (arrive d way).2) := by
  simp [arrive]

/-- A way leads up from `d`, step by step. -/
inductive Leads (u : Universe) (d : ClassDecl) : List Step → ClassDecl → Prop
  | here : Leads u d [] d
  | up {way : List Step} {e : ClassDecl} {s : Step} (h : Leads u d way e) (hs : s.From u e) :
      Leads u d (way ++ [s]) s.parent

theorem Leads.arrive_eq {way : List Step} (h : Leads u d way e) : (arrive d way).1 = e := by
  cases h with
  | here => rfl
  | up => rw [arrive_append]

theorem Leads.get? (hd : u.get? d.name = some d) {way : List Step} (h : Leads u d way e) :
    u.get? e.name = some e := by
  cases h with
  | here => exact hd
  | @up way e s _ hs =>
    obtain ⟨name, -, hget⟩ := Option.bind_eq_some_iff.1 hs.parent
    rwa [Universe.get?_name hget]

/-- One class extends another if a super type of it names the other in the universe. -/
def Extends (u : Universe) (d e : ClassDecl) : Prop :=
  ∃ type ∈ d.superTypes, type.rawName?.bind u.get? = some e

theorem Step.From.extends {s : Step} (h : s.From u d) : Extends u d s.parent :=
  ⟨s.type, List.mem_of_getElem? h.type, h.parent⟩

/-- The class itself, and what can be reached from it through super types that the universe
declares. -/
abbrev Reaches (u : Universe) : ClassDecl → ClassDecl → Prop :=
  Relation.ReflTransGen (Extends u)

/-- The ways up lead to the classes that can be reached. -/
theorem exists_leads_iff : (∃ way, Leads u d way e) ↔ Reaches u d e := by
  constructor
  · rintro ⟨way, h⟩
    induction h with
    | here => exact .refl
    | up _ hs ih => exact ih.tail hs.extends
  · intro h
    induction h with
    | refl => exact ⟨[], .here⟩
    | tail _ hextends ih =>
      obtain ⟨way, hway⟩ := ih
      obtain ⟨type, htype, hparent⟩ := hextends
      obtain ⟨place, hplace⟩ := List.mem_iff_getElem?.1 htype
      exact ⟨way ++ [⟨place, type, _⟩], .up hway ⟨hplace, hparent⟩⟩

/-! ## Breadth-first order -/

/-- Shorter ways come first, and of one length those that take super types in earlier places. -/
def rank (way : List Step) : ℕ ×ₗ List ℕ :=
  toLex (way.length, way.map (·.place))

theorem rank_lt_iff {v w : List Step} :
    rank v < rank w ↔
      v.length < w.length ∨ v.length = w.length ∧ v.map (·.place) < w.map (·.place) :=
  Prod.Lex.toLex_lt_toLex

theorem rank_lt_append (way : List Step) (s : Step) : rank way < rank (way ++ [s]) :=
  rank_lt_iff.2 (.inl (by simp))

theorem lt_append_of_lt {a b : List ℕ} (hlength : a.length = b.length) (h : a < b)
    (a' b' : List ℕ) : a ++ a' < b ++ b' := by
  change List.Lex (· < ·) _ _ at h ⊢
  induction h with
  | nil => cases hlength
  | rel hlt => exact .rel hlt
  | cons _ ih => exact .cons (ih (by simpa using hlength))

theorem rank_append_lt_append {v w : List Step} (h : rank v < rank w) (s t : Step) :
    rank (v ++ [s]) < rank (w ++ [t]) := by
  rw [rank_lt_iff] at h ⊢
  rcases h with h | ⟨hlength, h⟩
  · exact .inl (by simpa using h)
  · refine .inr ⟨by simpa using hlength, ?_⟩
    rw [List.map_append, List.map_append]
    exact lt_append_of_lt (by simpa using hlength) h _ _

theorem rank_append_lt_of_place (way : List Step) {s t : Step} (h : s.place < t.place) :
    rank (way ++ [s]) < rank (way ++ [t]) := by
  refine rank_lt_iff.2 (.inr ⟨by simp, ?_⟩)
  rw [List.map_append, List.map_append]
  exact List.Lex.append_left _ (.rel h) _

/-- The ways that go one step further, to the classes that the last class on a way extends. -/
def further (u : Universe) (d : ClassDecl) (way : List Step) : List (List Step) :=
  (steps u (arrive d way).1).map fun s => way ++ [s]

theorem entryParents_arrive (u : Universe) (d : ClassDecl) (way : List Step) :
    entryParents u (arrive d way) = (further u d way).map (arrive d) := by
  simp only [entryParents, parents_eq_map, further, List.map_map, Function.comp_def, arrive_append]

theorem ranked_further (u : Universe) (d : ClassDecl) : Search.Ranked (further u d) rank where
  lt_next way v hv := by
    obtain ⟨s, -, rfl⟩ := List.mem_map.1 hv
    exact rank_lt_append way s
  sorted_next way :=
    List.pairwise_map.2 ((sorted_steps u _).imp fun h => rank_append_lt_of_place way h)
  next_lt_next v w hlt x hx y hy := by
    obtain ⟨s, -, rfl⟩ := List.mem_map.1 hx
    obtain ⟨t, -, rfl⟩ := List.mem_map.1 hy
    exact rank_append_lt_append hlt s t
  next_lt_next_next way x hx y hy z hz := by
    obtain ⟨s, -, rfl⟩ := List.mem_map.1 hx
    obtain ⟨t, -, rfl⟩ := List.mem_map.1 hy
    obtain ⟨r, -, rfl⟩ := List.mem_map.1 hz
    exact rank_lt_iff.2 (.inl (by simp))

/-- A hierarchy in the order of a tour: its classes are those that a way leads to, each once and at
the end of the first way to it, with the bindings along that way. -/
structure Tour (u : Universe) (d : ClassDecl) (ways : List (List Step)) : Prop where
  hierarchy_eq : hierarchy u d = ways.map (arrive d)
  sorted : ways.Pairwise (rank · < rank ·)
  leads : ∀ way ∈ ways, Leads u d way (arrive d way).1
  first : ∀ {way e}, Leads u d way e → ∃ v ∈ ways,
    (arrive d v).1 = e ∧ (v = way ∨ rank v < rank way)
  nodup : (ways.map fun way => (arrive d way).1.name).Nodup

theorem exists_tour (hd : u.get? d.name = some d) : ∃ ways, Tour u d ways := by
  have hwalk : Search entryName (entryParents u) [] ([[]].map (arrive d)) (hierarchy u d) :=
    search_hierarchy hd
  obtain ⟨ways, hsearch, heq⟩ := hwalk.exists_of_map (entryParents_arrive u d)
  have hr := ranked_further u d
  have hq : Search.Queued (further u d) rank [[]] :=
    ⟨List.pairwise_singleton _ _, fun v hv w hw x hx => by
      obtain rfl := List.mem_singleton.1 hv
      obtain rfl := List.mem_singleton.1 hw
      exact hr.lt_next [] x hx⟩
  have hleads : ∀ way ∈ ways, Leads u d way (arrive d way).1 := by
    refine hsearch.forall_found (fun way hway => ?_) fun way hway v hv => ?_
    · obtain rfl := List.mem_singleton.1 hway
      exact .here
    · obtain ⟨s, hs, rfl⟩ := List.mem_map.1 hv
      rw [arrive_append]
      exact .up hway (mem_steps.1 hs)
  -- A class of the hierarchy is known by its name, so what covers a way leads to the same class.
  have hcovered : ∀ {way : List Step} {e : ClassDecl}, Leads u d way e →
      Search.Covers (entryName ∘ arrive d) rank ways way →
        ∃ v ∈ ways, (arrive d v).1 = e ∧ (v = way ∨ rank v < rank way) := by
    rintro way e hway ⟨v, hv, hname, hrank⟩
    have hsame : (arrive d v).1.name = e.name := by
      rw [← hway.arrive_eq]
      exact hname
    have hget := (hleads v hv).get? hd
    rw [hsame, hway.get? hd] at hget
    exact ⟨v, hv, (Option.some.inj hget).symm, hrank⟩
  refine ⟨ways, heq, hsearch.sorted hr hq, hleads, fun {way e} hway => ?_, hsearch.nodup_keys.1⟩
  induction hway with
  | here =>
    exact hcovered .here
      ((hsearch.covers_queue hr hq [] List.mem_cons_self).resolve_left List.not_mem_nil)
  | @up way e s hway hs ih =>
    obtain ⟨v, hv, rfl, hrank⟩ := ih
    have hnext : v ++ [s] ∈ further u d v := List.mem_map_of_mem (mem_steps.2 hs)
    have hcovers := (hsearch.covers_next hr hq v hv _ hnext).resolve_left List.not_mem_nil
    obtain ⟨w, hw, harrive, hwrank⟩ := hcovered (.up (hleads v hv) hs) hcovers
    refine ⟨w, hw, harrive, ?_⟩
    rcases hrank with rfl | hlt
    · exact hwrank
    · have hbefore := rank_append_lt_append hlt s s
      rcases hwrank with rfl | hwlt
      · exact .inr hbefore
      · exact .inr (hwlt.trans hbefore)

namespace Tour

variable {ways : List (List Step)}

theorem arrive_inj (h : Tour u d ways) {v w : List Step} (hv : v ∈ ways) (hw : w ∈ ways)
    (heq : (arrive d v).1 = (arrive d w).1) : v = w :=
  List.inj_on_of_nodup_map h.nodup hv hw (congrArg ClassDecl.name heq)

/-- A tour has the first of all ways to a class. -/
theorem rank_le (h : Tour u d ways) {v w : List Step} (hv : v ∈ ways)
    (hw : Leads u d w (arrive d v).1) : v = w ∨ rank v < rank w := by
  obtain ⟨v', hv', heq, hrank⟩ := h.first hw
  rwa [h.arrive_inj hv' hv heq] at hrank

end Tour

/-- The classes that can be reached from `d`, a class before another if a way to it comes before all
ways to the other. -/
structure BreadthFirst (u : Universe) (d : ClassDecl) (classes : List ClassDecl) : Prop where
  mem_iff : ∀ e, e ∈ classes ↔ Reaches u d e
  sorted : classes.Pairwise fun e f => ∃ way, Leads u d way e ∧ ∀ w,
    Leads u d w f → rank way < rank w

theorem breadthFirst_hierarchy (hd : u.get? d.name = some d) :
    BreadthFirst u d ((hierarchy u d).map (·.1)) := by
  obtain ⟨ways, htour⟩ := exists_tour hd
  rw [htour.hierarchy_eq, List.map_map]
  refine ⟨fun e => ?_, List.pairwise_map.2 (htour.sorted.imp_of_mem fun {v w} hv hw hlt => ?_)⟩
  · rw [← exists_leads_iff, List.mem_map]
    constructor
    · rintro ⟨way, hway, rfl⟩
      exact ⟨way, htour.leads way hway⟩
    · rintro ⟨way, hway⟩
      obtain ⟨v, hv, heq, -⟩ := htour.first hway
      exact ⟨v, hv, heq⟩
  · refine ⟨v, htour.leads v hv, fun w' hw' => ?_⟩
    rcases htour.rank_le hw hw' with rfl | hlt'
    · exact hlt
    · exact hlt.trans hlt'

theorem mem_hierarchy_iff (hd : u.get? d.name = some d) : (∃ b, (e, b) ∈ hierarchy u d) ↔
    Reaches u d e := by
  rw [← (breadthFirst_hierarchy hd).mem_iff e, List.mem_map]
  exact ⟨fun ⟨b, hb⟩ => ⟨(e, b), hb, rfl⟩, fun ⟨⟨_, b⟩, hb, heq⟩ => ⟨b, heq ▸ hb⟩⟩

theorem Reaches.mem_classes (hd : u.get? d.name = some d) (h : Reaches u d e) : e ∈ u.classes := by
  obtain ⟨b, hb⟩ := (mem_hierarchy_iff hd).2 h
  exact mem_classes_of_mem_hierarchy (Universe.get?_mem hd) _ hb

end TypeBridge.Functional
