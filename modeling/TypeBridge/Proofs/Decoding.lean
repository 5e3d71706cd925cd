import TypeBridge.Proofs.Binding
import TypeBridge.Proofs.RoundTrip

/-!
# What decoding yields

A property of everything that a decoder makes of a value (`Decoder.Yields`).  A record has it if the
initial record has it and every field keeps it (`Shape.yields_decode`), whichever members there are
and in whatever order.

The types that a universe is written with are read from texts, so they are expressible
(`expressible_of_written`): there are no type variables in them before they are bound.
-/

namespace TypeBridge

variable {α β : Type}

/-- Whatever the decoder makes of a value has the property. -/
def Decoder.Yields (decoder : Decoder α) (P : α → Prop) : Prop :=
  ∀ v a, decoder v = .ok a → P a

/-- Reading the field leaves a record with the property. -/
def Field.Keeps (f : Field α) (P : α → Prop) : Prop :=
  ∀ a v later, P a → f.read a v = .ok later → P later

namespace Decoder

theorem yields_true (decoder : Decoder α) : decoder.Yields fun _ => True :=
  fun _ _ _ => trivial

theorem Yields.items {item : Decoder α} {P : α → Prop} (h : item.Yields P)
    {vs : List Value} {as : List α} (hitems : Decoder.items item vs = .ok as) : ∀ a ∈ as, P a := by
  induction vs generalizing as with
  | nil =>
    cases hitems
    exact nofun
  | cons v rest ih =>
    obtain ⟨first, hfirst, hitems⟩ := except_bind_eq_ok.1 hitems
    obtain ⟨others, hothers, hitems⟩ := except_bind_eq_ok.1 hitems
    cases hitems
    exact List.forall_mem_cons.2 ⟨h v first hfirst, ih hothers⟩

theorem Yields.list {item : Decoder α} {P : α → Prop} (h : item.Yields P) :
    (Decoder.list item).Yields fun as => ∀ a ∈ as, P a := by
  intro v as hlist
  cases v with
  | list vs closed =>
    obtain ⟨decoded, hitems, hlist⟩ := except_bind_eq_ok.1 hlist
    split at hlist
    · cases hlist
      exact h.items hitems
    · cases hlist
  | _ => cases hlist

theorem yields_hostType : hostType.Yields HostType.Expressible := by
  intro v t h
  obtain ⟨s, -, h⟩ := except_bind_eq_ok.1 h
  exact Expression.expressible_of_read (except_mapError_eq_ok.1 h)

end Decoder

/-! ## Records -/

namespace Field

variable {P : α → Prop} {Q : β → Prop} {decode : Decoder β} {put : α → β → α}

theorem keeps_optional (name : String) (hdecode : decode.Yields Q)
    (hput : ∀ a b, P a → Q b → P (put a b)) : (Field.optional name decode put).Keeps P := by
  intro a v later ha hread
  obtain ⟨b, hb, rfl⟩ := except_map_eq_ok.1 hread
  exact hput a b ha (hdecode v b hb)

theorem keeps_required (name : String) (hdecode : decode.Yields Q)
    (hput : ∀ a b, P a → Q b → P (put a b)) : (Field.required name decode put).Keeps P :=
  keeps_optional name hdecode hput

end Field

namespace Shape

variable {s : Shape α} {P : α → Prop}

theorem forall_member (hfields : ∀ f ∈ s.fields, f.Keeps P) {seen : List String} {a : α}
    (ha : P a) {name : String} {v : Value} {later : List String × α}
    (h : s.member seen a name v = .ok later) : P later.2 := by
  unfold member at h
  split at h
  · next f hf =>
    split at h
    · cases h
    · obtain ⟨b, hb, rfl⟩ := except_map_eq_ok.1 h
      exact hfields f (List.mem_of_find?_eq_some hf) a v b ha hb
  · split at h
    · cases h
    · split at h
      · cases h
        exact ha
      · cases h

theorem forall_members (hfields : ∀ f ∈ s.fields, f.Keeps P) {ms : List (Option String × Value)}
    {seen : List String} {a : α} (ha : P a) {later : List String × α}
    (h : s.members seen a ms = .ok later) : P later.2 := by
  induction ms generalizing seen a with
  | nil =>
    cases h
    exact ha
  | cons m rest ih =>
    obtain ⟨name, v⟩ := m
    cases name with
    | none => cases h
    | some name =>
      obtain ⟨next, hnext, h⟩ := except_bind_eq_ok.1 h
      exact ih (forall_member hfields ha hnext) h

theorem forall_places {fields : List (Field α)} (hfields : ∀ f ∈ fields, f.Keeps P)
    {vs : List Value} {closed : Bool} {a later : α} (ha : P a)
    (h : places a closed fields vs = .ok later) : P later := by
  induction vs generalizing fields a with
  | nil =>
    unfold places at h
    split at h
    · cases h
      exact ha
    · cases h
  | cons v rest ih =>
    cases fields with
    | nil => cases h
    | cons f fields =>
      obtain ⟨hf, hbehind⟩ := List.forall_mem_cons.1 hfields
      obtain ⟨next, hnext, h⟩ := except_bind_eq_ok.1 h
      exact ih hbehind (hf a v next ha hnext) h

/-- What the initial record has and every field keeps, every record has that is decoded. -/
theorem yields_decode (hinitial : P s.initial) (hfields : ∀ f ∈ s.fields, f.Keeps P) :
    s.decode.Yields P := by
  intro v a h
  cases v with
  | record ms closed =>
    obtain ⟨⟨seen, b⟩, hmembers, h⟩ := except_bind_eq_ok.1 h
    have hb : P b := forall_members hfields hinitial hmembers
    dsimp only at h
    split at h
    · split at h
      · cases h
      · cases h
        exact hb
    · cases h
  | list vs closed => exact forall_places hfields hinitial h
  | _ => cases h

end Shape

theorem Json.eq_ok_of_decode {decoder : Decoder α} {text : String} {a : α}
    (h : decode decoder text = .ok a) : decoder (read text).1 = .ok a := by
  obtain ⟨b, hb, h⟩ := except_bind_eq_ok.1 h
  split at h
  · split at h
    · cases h
      exact hb
    · cases h
  · cases h

theorem Json.exists_of_decode {decoder : Decoder α} {text : String} {a : α}
    (h : decode decoder text = .ok a) : ∃ v, decoder v = .ok a :=
  ⟨(read text).1, eq_ok_of_decode h⟩

/-! ## Declarations -/

/-- The types of the result and the parameters. -/
def MethodDecl.signature (m : MethodDecl) : List HostType :=
  m.returnType :: m.params.map (·.type)

/-- The super types, the types of the fields and those in the signatures of the methods are
expressible. -/
structure ClassDecl.Expressible (d : ClassDecl) : Prop where
  superTypes : ∀ t ∈ d.superTypes, t.Expressible
  fields : ∀ f ∈ d.fields, f.type.Expressible
  methods : ∀ m ∈ d.methods, ∀ t ∈ m.signature, t.Expressible

open Decoder TypeBridge.Field

theorem FieldDecl.yields_shape : shape.decode.Yields fun f => f.type.Expressible := by
  refine Shape.yields_decode (.primitive .void) ?_
  simp only [shape, List.forall_mem_cons]
  refine ⟨?_, ?_, ?_, ?_, ?_, ?_, nofun⟩
  · exact keeps_required _ (yields_true _) fun _ _ h _ => h
  · exact keeps_required _ yields_hostType fun _ _ _ ht => ht
  all_goals exact keeps_optional _ (yields_true _) fun _ _ h _ => h

theorem ParamDecl.yields_shape : shape.decode.Yields fun p => p.type.Expressible := by
  refine Shape.yields_decode (.primitive .void) ?_
  simp only [shape, List.forall_mem_cons]
  refine ⟨?_, ?_, nofun⟩
  · exact keeps_optional _ (yields_true _) fun _ _ h _ => h
  · exact keeps_required _ yields_hostType fun _ _ _ ht => ht

theorem MethodDecl.yields_shape :
    shape.decode.Yields fun m => ∀ t ∈ m.signature, t.Expressible := by
  have hinitial : ∀ t ∈ MethodDecl.shape.initial.signature, t.Expressible := by
    simpa [MethodDecl.shape, signature] using HostType.Expressible.primitive .void
  refine Shape.yields_decode hinitial ?_
  simp only [shape, List.forall_mem_cons]
  refine ⟨?_, ?_, ?_, ?_, ?_, ?_, ?_, ?_, nofun⟩
  · exact keeps_required _ (yields_true _) fun _ _ h _ => h
  · refine keeps_optional _ ParamDecl.yields_shape.list fun m ps h hps => ?_
    refine List.forall_mem_cons.2 ⟨(List.forall_mem_cons.1 h).1, fun t ht => ?_⟩
    obtain ⟨p, hp, rfl⟩ := List.mem_map.1 ht
    exact hps p hp
  · refine keeps_optional _ yields_hostType fun m t h ht => ?_
    exact List.forall_mem_cons.2 ⟨ht, (List.forall_mem_cons.1 h).2⟩
  all_goals exact keeps_optional _ (yields_true _) fun _ _ h _ => h

theorem ClassDecl.yields_shape (name : String) :
    (shape name).decode.Yields ClassDecl.Expressible := by
  refine Shape.yields_decode ⟨nofun, nofun, nofun⟩ ?_
  simp only [shape, List.forall_mem_cons]
  refine ⟨?_, ?_, ?superTypes, ?_, ?_, ?_, ?fields, ?methods, ?_, ?_, ?_, nofun⟩
  case superTypes => exact keeps_optional _ yields_hostType.list fun _ _ h hts =>
    { h with superTypes := hts }
  case fields => exact keeps_optional _ FieldDecl.yields_shape.list fun _ _ h hfs =>
    { h with fields := hfs }
  case methods => exact keeps_optional _ MethodDecl.yields_shape.list fun _ _ h hms =>
    { h with methods := hms }
  all_goals exact keeps_optional _ (yields_true _) fun _ _ h _ =>
    ⟨h.superTypes, h.fields, h.methods⟩

namespace Universe

theorem expressible_of_decodeMembers {ms : List (Option String × Value)} {ds : List ClassDecl}
    (h : decodeMembers ms = .ok ds) : ∀ d ∈ ds, d.Expressible := by
  induction ms generalizing ds with
  | nil =>
    cases h
    exact nofun
  | cons m rest ih =>
    obtain ⟨name, v⟩ := m
    cases name with
    | none => cases h
    | some name =>
      obtain ⟨d, hd, h⟩ := except_bind_eq_ok.1 h
      obtain ⟨others, hothers, h⟩ := except_bind_eq_ok.1 h
      cases h
      exact List.forall_mem_cons.2 ⟨ClassDecl.yields_shape name v d hd, ih hothers⟩

theorem yields_decodeClasses : Decoder.Yields decodeClasses fun ds => ∀ d ∈ ds, d.Expressible := by
  intro v ds h
  cases v with
  | record ms closed =>
    obtain ⟨decoded, hdecoded, h⟩ := except_bind_eq_ok.1 h
    split at h
    · cases h
      exact expressible_of_decodeMembers hdecoded
    · cases h
  | _ => cases h

/-- **The types that a universe is written with are expressible.** -/
theorem expressible_of_written {json : String} {ds : List ClassDecl} (h : written json = .ok ds) :
    ∀ d ∈ ds, d.Expressible := by
  obtain ⟨v, hv⟩ := Json.exists_of_decode h
  refine Shape.yields_decode (s := shape) (P := fun ds => ∀ d ∈ ds, d.Expressible) nofun ?_ v ds hv
  simp only [shape, List.forall_mem_cons]
  exact ⟨keeps_optional _ yields_decodeClasses fun _ _ _ hds => hds, nofun⟩

end Universe

end TypeBridge
