import Mathlib.Data.List.Nodup
import TypeBridge.Data.Shape
import TypeBridge.Proofs.Outcomes

/-!
# What decoding takes

What a value has to be like for a decoder to make anything of it (`Decoder.Accepts`).  A record that
is accepted has every member accepted where it stands (`Shape.member_of_members`), so a strict shape
takes no members but its fields (`Shape.knows_of_accepts`), any other decodes what is accepted as it
would without them (`Shape.decode_filter_knows`), and every field has a value of the kind that it
demands, by name or by place (`Shape.demanded_of_accepts`).

A strict shape without required fields that meets no name twice does nothing else than read one
entry after the other (`Shape.decode_ofEntries`).
-/

namespace TypeBridge

variable {α β : Type}

/-- The decoder makes something of the value. -/
def Decoder.Accepts (decoder : Decoder α) (v : Value) : Prop :=
  ∃ a, decoder v = .ok a

/-- The field reads no other values than those with the property. -/
def Field.Demands (f : Field α) (P : Value → Prop) : Prop :=
  ∀ a v later, f.read a v = .ok later → P v

/-- The member is a field. -/
def Shape.knows (s : Shape α) (m : Option String × Value) : Bool :=
  m.1.any s.names.contains

/-- What stands for the field `name` in a record, or in a list of the fields in order. -/
inductive Value.HasField (names : List String) (name : String) : Value → Value → Prop
  | member {ms : List (Option String × Value)} {closed : Bool} {v : Value} (hname : name ∈ names)
      (hmem : (some name, v) ∈ ms) : HasField names name (.record ms closed) v
  | place {vs : List Value} {closed : Bool} {v : Value} {i : Nat} (hname : names[i]? = some name)
      (hitem : vs[i]? = some v) : HasField names name (.list vs closed) v

namespace Decoder

variable {item : Decoder α}

theorem accepts_of_mem_items {vs : List Value} {as : List α} (h : items item vs = .ok as) :
    ∀ v ∈ vs, item.Accepts v := by
  induction vs generalizing as with
  | nil => exact nofun
  | cons v rest ih =>
    obtain ⟨first, hfirst, h⟩ := except_bind_eq_ok.1 h
    obtain ⟨others, hothers, -⟩ := except_bind_eq_ok.1 h
    exact List.forall_mem_cons.2 ⟨⟨first, hfirst⟩, ih hothers⟩

theorem accepts_of_mem_list {vs : List Value} {closed : Bool}
    (h : (list item).Accepts (.list vs closed)) : ∀ v ∈ vs, item.Accepts v := by
  obtain ⟨as, h⟩ := h
  obtain ⟨decoded, hitems, -⟩ := except_bind_eq_ok.1 h
  exact accepts_of_mem_items hitems

end Decoder

namespace Field

variable {decode : Decoder β} {put : α → β → α} {P : Value → Prop}

theorem demands_optional (name : String) (h : ∀ v, decode.Accepts v → P v) :
    (Field.optional name decode put).Demands P := by
  intro a v later hread
  obtain ⟨b, hb, -⟩ := except_map_eq_ok.1 hread
  exact h v ⟨b, hb⟩

end Field

namespace Shape

variable {s : Shape α}

/-! ## Members and places -/

/-- Every member has been accepted behind those in front of it. -/
theorem member_of_members {ms : List (Option String × Value)} {seen : List String} {a : α}
    {later : List String × α} (h : s.members seen a ms = .ok later) :
    ∀ m ∈ ms, ∃ name, m.1 = some name ∧ ∃ seen a later, s.member seen a name m.2 = .ok later := by
  induction ms generalizing seen a with
  | nil => exact nofun
  | cons m rest ih =>
    obtain ⟨name, v⟩ := m
    cases name with
    | none => cases h
    | some name =>
      obtain ⟨next, hnext, h⟩ := except_bind_eq_ok.1 h
      exact List.forall_mem_cons.2 ⟨⟨name, rfl, seen, a, next, hnext⟩, ih h⟩

theorem name_of_field? {name : String} {f : Field α} (h : s.field? name = some f) :
    f ∈ s.fields ∧ f.name = name :=
  ⟨List.mem_of_find?_eq_some h, by simpa using List.find?_some h⟩

theorem mem_names_of_field? {name : String} {f : Field α} (h : s.field? name = some f) :
    name ∈ s.names :=
  List.mem_map.2 ⟨f, name_of_field? h⟩

theorem field?_eq_none_iff {name : String} : s.field? name = none ↔ name ∉ s.names := by
  simp [field?, names]

/-- A member that is accepted is read as a field, or it is none and the shape skips it. -/
theorem member_eq_ok {seen : List String} {a : α} {name : String} {v : Value}
    {later : List String × α} (h : s.member seen a name v = .ok later) :
    (∃ f, s.field? name = some f ∧ f.read a v = .ok later.2) ∨
      (name ∉ s.names ∧ s.strict = false ∧ later = (seen, a)) := by
  unfold member at h
  split at h
  · next f hf =>
    split at h
    · cases h
    · obtain ⟨b, hb, rfl⟩ := except_map_eq_ok.1 h
      exact .inl ⟨f, hf, hb⟩
  · next hnone =>
    split at h
    · cases h
    · next hstrict =>
      split at h
      · cases h
        exact .inr ⟨field?_eq_none_iff.1 hnone, by simpa using hstrict, rfl⟩
      · cases h

theorem members_of_accepts {ms : List (Option String × Value)} {closed : Bool}
    (h : s.decode.Accepts (.record ms closed)) :
    ∃ later, s.members [] s.initial ms = .ok later := by
  obtain ⟨a, h⟩ := h
  obtain ⟨later, hmembers, -⟩ := except_bind_eq_ok.1 h
  exact ⟨later, hmembers⟩

/-- **A strict shape takes no members but its fields.** -/
theorem knows_of_accepts (hstrict : s.strict = true)
    {ms : List (Option String × Value)} {closed : Bool} (h : s.decode.Accepts (.record ms closed)) :
    ∀ m ∈ ms, s.knows m = true := by
  intro m hm
  obtain ⟨later, hmembers⟩ := members_of_accepts h
  obtain ⟨name, hname, seen, a, next, hnext⟩ := member_of_members hmembers m hm
  rcases member_eq_ok hnext with ⟨f, hf, -⟩ | ⟨-, hlenient, -⟩
  · simpa [knows, hname] using mem_names_of_field? hf
  · rw [hstrict] at hlenient
    cases hlenient

theorem members_filter_knows {ms : List (Option String × Value)} {seen : List String} {a : α}
    {later : List String × α} (h : s.members seen a ms = .ok later) :
    s.members seen a (ms.filter s.knows) = .ok later := by
  induction ms generalizing seen a with
  | nil => exact h
  | cons m rest ih =>
    obtain ⟨name, v⟩ := m
    cases name with
    | none => cases h
    | some name =>
      obtain ⟨next, hnext, h⟩ := except_bind_eq_ok.1 h
      rcases member_eq_ok hnext with ⟨f, hf, -⟩ | ⟨hforeign, -, rfl⟩
      · have hknows : s.knows (some name, v) = true := by simpa [knows] using mem_names_of_field? hf
        rw [List.filter_cons_of_pos hknows]
        exact except_bind_eq_ok.2 ⟨next, hnext, ih h⟩
      · have hknows : ¬s.knows (some name, v) = true := by simpa [knows] using hforeign
        rw [List.filter_cons_of_neg hknows]
        exact ih h

/-- **Members that are no fields make no difference to what is accepted.** -/
theorem decode_filter_knows {ms : List (Option String × Value)} {closed : Bool}
    (h : s.decode.Accepts (.record ms closed)) :
    s.decode (.record ms closed) = s.decode (.record (ms.filter s.knows) closed) := by
  obtain ⟨later, hmembers⟩ := members_of_accepts h
  rw [decode, decode, hmembers, members_filter_knows hmembers]

theorem read_of_places {fields : List (Field α)} {vs : List Value} {closed : Bool} {a later : α}
    (h : places a closed fields vs = .ok later) {i : Nat} {f : Field α} {v : Value}
    (hf : fields[i]? = some f) (hv : vs[i]? = some v) : ∃ b c, f.read b v = .ok c := by
  induction vs generalizing fields a i with
  | nil => cases hv
  | cons w rest ih =>
    cases fields with
    | nil => cases hf
    | cons g fields =>
      obtain ⟨next, hnext, h⟩ := except_bind_eq_ok.1 h
      cases i with
      | zero =>
        cases hf
        cases hv
        exact ⟨a, next, hnext⟩
      | succ i => exact ih h hf hv

/-- **What a field demands, its value in an accepted record has.** -/
theorem demanded_of_accepts (hdistinct : s.names.Nodup) {name : String} {f : Field α}
    (hf : s.field? name = some f) {P : Value → Prop} (hdemands : f.Demands P) {v w : Value}
    (h : s.decode.Accepts v) (hw : v.HasField s.names name w) : P w := by
  cases hw with
  | member hname hmem =>
    obtain ⟨later, hmembers⟩ := members_of_accepts h
    obtain ⟨_, ⟨⟩, seen, a, next, hnext⟩ := member_of_members hmembers _ hmem
    rcases member_eq_ok hnext with ⟨g, hg, hread⟩ | ⟨hforeign, -, -⟩
    · rw [hf] at hg
      cases hg
      exact hdemands a w _ hread
    · exact absurd hname hforeign
  | place hname hitem =>
    obtain ⟨a, h⟩ := h
    rw [names, List.getElem?_map, Option.map_eq_some_iff] at hname
    obtain ⟨g, hg, hgname⟩ := hname
    obtain ⟨b, c, hread⟩ := read_of_places h hg hitem
    obtain ⟨hmem, hfname⟩ := name_of_field? hf
    have heq : g = f :=
      List.inj_on_of_nodup_map hdistinct (List.mem_of_getElem? hg) hmem (hgname.trans hfname.symm)
    exact hdemands b w c (heq ▸ hread)

/-- The items of a list that is the value of a field. -/
theorem accepts_item (hdistinct : s.names.Nodup) {name : String} {item : Decoder β}
    {put : α → List β → α} (hf : s.field? name = some (.optional name (.list item) put)) {v : Value}
    (h : s.decode.Accepts v) {vs : List Value} {closed : Bool}
    (hw : v.HasField s.names name (.list vs closed)) : ∀ w ∈ vs, item.Accepts w :=
  demanded_of_accepts hdistinct hf
    (P := fun w => ∀ vs closed, w = .list vs closed → ∀ w ∈ vs, item.Accepts w)
    (Field.demands_optional name fun _ hlist _ _ heq => Decoder.accepts_of_mem_list (heq ▸ hlist))
    h hw vs closed rfl

/-! ## Entries -/

/-- One entry, without those in front of it. -/
def entry (s : Shape α) (a : α) (e : String × Value) : Except DecodeError α :=
  match s.field? e.1 with
  | some f => f.read a e.2
  | none => .error (.unknownField e.1 s.names)

theorem members_ofEntries (hstrict : s.strict = true) {entries : List (String × Value)}
    {seen : List String} (a : α) (hdistinct : (entries.map (·.1)).Nodup)
    (hseen : ∀ e ∈ entries, e.1 ∉ seen) :
    (s.members seen a (entries.map fun e => (some e.1, e.2))).map (·.2) =
      entries.foldlM s.entry a := by
  induction entries generalizing seen a with
  | nil => rfl
  | cons e rest ih =>
    obtain ⟨name, v⟩ := e
    obtain ⟨hname, hrest⟩ := List.forall_mem_cons.1 hseen
    obtain ⟨hother, hdistinct⟩ := List.nodup_cons.1 hdistinct
    rw [List.map_cons, members, List.foldlM_cons, entry, member]
    cases s.field? name with
    | none => simp [hstrict, bind, Except.bind, Except.map]
    | some f =>
      simp only [List.contains_iff_mem, hname, if_false]
      cases f.read a v with
      | error e => rfl
      | ok b =>
        refine ih b hdistinct fun e he => ?_
        have hne : e.1 ≠ name := fun heq => hother (heq ▸ List.mem_map.2 ⟨e, he, rfl⟩)
        rw [List.mem_cons, not_or]
        exact ⟨hne, hrest e he⟩

/-- **Entries with names of their own are read one after the other.** -/
theorem decode_ofEntries (hstrict : s.strict = true)
    (hdefaults : ∀ f ∈ s.fields, f.isRequired = false) {entries : List (String × Value)}
    (hdistinct : (entries.map (·.1)).Nodup) :
    s.decode (.ofEntries entries) = entries.foldlM s.entry s.initial := by
  rw [← members_ofEntries hstrict s.initial hdistinct fun _ _ => List.not_mem_nil]
  have hmissing (seen : List String) : s.missing? seen = none := by
    simpa [missing?] using fun f hf hrequired => absurd hrequired (by simp [hdefaults f hf])
  rw [Value.ofEntries, decode]
  cases s.members [] s.initial (entries.map fun e => (some e.1, e.2)) with
  | error e => rfl
  | ok later => simp [bind, Except.bind, Except.map, hmissing]

end Shape

end TypeBridge
