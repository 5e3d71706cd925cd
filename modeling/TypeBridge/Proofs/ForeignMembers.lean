import TypeBridge.Proofs.Acceptance
import TypeBridge.Proofs.Decoding

/-!
# Members that are no fields

A universe is written in records of nine forms (`Form`), which stand in one another (`Value.Holds`).
If the universe is accepted, every one of them is (`accepts_of_holds`).  So a member that is no
field of its record fails the whole text, at any depth, except in the contents of override tags:
they are decoded as if it were not there (`Universe.foreign_members`), and the text may be accepted
without it (`not_all_foreign_members_refused`).
-/

namespace TypeBridge

/-- The forms of the records of a universe. -/
inductive Form where
  /-- The universe itself. -/
  | whole
  /-- The declaration of the class `name`. -/
  | declaration (name : String)
  | field
  | method
  | parameter
  | constructor
  | constant
  /-- The content of a tag that brings its own text. -/
  | verbatim
  /-- The content of a tag that names a provider. -/
  | methodReference

namespace Form

/-- What is read of a record. -/
def Content : Form → Type
  | whole => List ClassDecl
  | declaration _ => ClassDecl
  | field => FieldDecl
  | method => MethodDecl
  | parameter => ParamDecl
  | constructor => ConstructorDecl
  | constant => EnumConstant
  | verbatim => String × List HostType
  | methodReference => String × Option String

def shape : (f : Form) → Shape f.Content
  | whole => Universe.shape
  | declaration name => ClassDecl.shape name
  | field => FieldDecl.shape
  | method => MethodDecl.shape
  | parameter => ParamDecl.shape
  | constructor => ConstructorDecl.shape
  | constant => EnumConstant.shape
  | verbatim => OverrideTag.verbatimShape
  | methodReference => OverrideTag.methodReferenceShape

/-- The name of the tag whose content the record is. -/
def tag? : Form → Option String
  | verbatim => some "verbatim"
  | methodReference => some "method_reference"
  | _ => none

/-- Records of the second form stand in a list that is a field of the first. -/
inductive Part : Form → String → Form → Prop
  | fields (name : String) : Part (declaration name) "fields" field
  | methods (name : String) : Part (declaration name) "methods" method
  | constructors (name : String) : Part (declaration name) "constructors" constructor
  | constants (name : String) : Part (declaration name) "constants" constant
  | methodParams : Part method "params" parameter
  | constructorParams : Part constructor "params" parameter

/-- Override tags may stand on the record. -/
inductive Tagged : Form → Prop
  | declaration (name : String) : Tagged (declaration name)
  | field : Tagged field
  | method : Tagged method
  | constructor : Tagged constructor

theorem nodup_names (f : Form) : f.shape.names.Nodup := by
  cases f with
  -- The name of a class is no part of its fields, so any name stands for all.
  | declaration name => exact (by decide +kernel : (ClassDecl.shape "").names.Nodup)
  | _ => decide +kernel

theorem strict_of_tag? {f : Form} (h : f.tag? = none) : f.shape.strict = true := by
  cases f <;> first | rfl | cases h

end Form

/-- The value stands for a record of the form in a universe: in place of the universe itself, of a
class, of an item of a list of records, or of the content of a tag. -/
inductive Value.Holds (root : Value) : Form → Value → Prop
  | whole : Holds root .whole root
  | declaration {ms : List (Option String × Value)} {closed : Bool} {name : String} {v : Value}
      (hclasses : root.HasField Universe.shape.names "classes" (.record ms closed))
      (hv : (some name, v) ∈ ms) :
      Holds root (.declaration name) v
  | part {f g : Form} {key : String} {outer : Value} {vs : List Value} {closed : Bool} {v : Value}
      (houter : Holds root f outer) (hpart : f.Part key g)
      (hlist : outer.HasField f.shape.names key (.list vs closed)) (hv : v ∈ vs) : Holds root g v
  | content {f g : Form} {tag : String} {outer : Value} {vs : List Value}
      {closed ended : Bool} {v : Value}
      {more : List (Option String × Value)} (houter : Holds root f outer) (htagged : f.Tagged)
      (htag : g.tag? = some tag) (hlist : outer.HasField f.shape.names "tags" (.list vs closed))
      (hv : .record ((some tag, v) :: more) ended ∈ vs) : Holds root g v

/-! ## Accepted universes -/

theorem Universe.accepts_of_decodeMembers {ms : List (Option String × Value)} {ds : List ClassDecl}
    (h : decodeMembers ms = .ok ds) {name : String} {v : Value} (hv : (some name, v) ∈ ms) :
    (ClassDecl.shape name).decode.Accepts v := by
  induction ms generalizing ds with
  | nil => cases hv
  | cons m rest ih =>
    obtain ⟨first, w⟩ := m
    cases first with
    | none => cases h
    | some first =>
      obtain ⟨d, hd, h⟩ := except_bind_eq_ok.1 h
      obtain ⟨others, hothers, -⟩ := except_bind_eq_ok.1 h
      rcases List.mem_cons.1 hv with heq | hv
      · cases heq
        exact ⟨d, hd⟩
      · exact ih hothers hv

theorem Universe.accepts_declaration {root : Value} (h : Universe.shape.decode.Accepts root)
    {ms : List (Option String × Value)} {closed : Bool}
    (hclasses : root.HasField Universe.shape.names "classes" (.record ms closed))
    {name : String} {v : Value} (hv : (some name, v) ∈ ms) :
    (ClassDecl.shape name).decode.Accepts v := by
  have hdemands (w : Value) (hw : Decoder.Accepts Universe.decodeClasses w) :
      ∀ ms closed, w = .record ms closed → ∀ name v, (some name, v) ∈ ms →
        (ClassDecl.shape name).decode.Accepts v := by
    rintro ms closed rfl name v hv
    obtain ⟨ds, hw⟩ := hw
    obtain ⟨decoded, hdecoded, -⟩ := except_bind_eq_ok.1 hw
    exact accepts_of_decodeMembers hdecoded hv
  exact Shape.demanded_of_accepts (Form.nodup_names .whole) rfl
    (Field.demands_optional "classes" hdemands) h hclasses ms closed rfl name v hv

theorem Form.Part.accepts {f g : Form} {key : String} (hpart : f.Part key g) {outer : Value}
    (h : f.shape.decode.Accepts outer) {vs : List Value} {closed : Bool}
    (hlist : outer.HasField f.shape.names key (.list vs closed)) :
    ∀ v ∈ vs, g.shape.decode.Accepts v := by
  cases hpart
  all_goals exact Shape.accepts_item (Form.nodup_names _) rfl h hlist

theorem Form.Tagged.accepts {f : Form} (htagged : f.Tagged) {outer : Value}
    (h : f.shape.decode.Accepts outer) {vs : List Value} {closed : Bool}
    (hlist : outer.HasField f.shape.names "tags" (.list vs closed)) :
    ∀ v ∈ vs, OverrideTag.decode.Accepts v := by
  cases htagged
  all_goals exact Shape.accepts_item (Form.nodup_names _) rfl h hlist

theorem OverrideTag.accepts_content {g : Form} {tag : String} (htag : g.tag? = some tag) {v : Value}
    {more : List (Option String × Value)} {ended : Bool}
    (h : OverrideTag.decode.Accepts (.record ((some tag, v) :: more) ended)) :
    g.shape.decode.Accepts v := by
  obtain ⟨a, h⟩ := h
  obtain ⟨content, hcontent, h⟩ := except_bind_eq_ok.1 h
  obtain ⟨b, hb, -⟩ := except_bind_eq_ok.1 h
  cases g <;> cases htag
  all_goals
    cases hcontent
    obtain ⟨c, hc, -⟩ := except_map_eq_ok.1 hb
    exact ⟨c, hc⟩

/-- **Every record in an accepted universe is accepted.** -/
theorem accepts_of_holds {root : Value} (h : Universe.shape.decode.Accepts root)
    {f : Form} {v : Value} (hv : root.Holds f v) : f.shape.decode.Accepts v := by
  induction hv with
  | whole => exact h
  | declaration hclasses hv => exact Universe.accepts_declaration h hclasses hv
  | part _ hpart hlist hv ih => exact hpart.accepts ih hlist _ hv
  | content _ htagged htag hlist hv ih =>
    exact OverrideTag.accepts_content htag (htagged.accepts ih hlist _ hv)

/-- **A member that is no field fails the text**, wherever its record stands, or the record is the
content of a tag, which is decoded as if the member were not there. -/
theorem Universe.foreign_members {json : String} {f : Form}
    {ms : List (Option String × Value)} {closed : Bool}
    (hheld : (Json.read json).1.Holds f (.record ms closed)) {m : Option String × Value}
    (hm : m ∈ ms) (hforeign : f.shape.knows m = false) :
    (∃ e, ofJson json = .error e) ∨
      f.tag?.isSome ∧
        f.shape.decode (.record ms closed) =
          f.shape.decode (.record (ms.filter f.shape.knows) closed) := by
  cases hu : ofJson json with
  | error e => exact .inl ⟨e, rfl⟩
  | ok u =>
    right
    obtain ⟨ds, hds, -⟩ := ofJson_eq_ok_iff.1 hu
    have haccepts : f.shape.decode.Accepts (.record ms closed) :=
      accepts_of_holds ⟨ds, Json.eq_ok_of_decode hds⟩ hheld
    cases htag : f.tag? with
    | some tag => exact ⟨rfl, Shape.decode_filter_knows haccepts⟩
    | none =>
      have hknows := Shape.knows_of_accepts (Form.strict_of_tag? htag) haccepts m hm
      rw [hforeign] at hknows
      cases hknows

/-- A universe with one class. -/
def Value.ofClass (name : String) (ms : List (Option String × Value)) : Value :=
  .record [(some "classes", .record [(some name, .record ms true)] true)] true

theorem Value.holds_ofClass (name : String) (ms : List (Option String × Value)) :
    (ofClass name ms).Holds (.declaration name) (.record ms true) := by
  have hclasses : (ofClass name ms).HasField Universe.shape.names "classes"
      (.record [(some name, .record ms true)] true) :=
    .member List.mem_cons_self List.mem_cons_self
  exact .declaration hclasses List.mem_cons_self

/-- The text of a class whose method has a parameter with a misspelt member. -/
def misspeltParam : String :=
  "\x7b\"classes\":\x7b\"A\":\x7b\"methods\":[\x7b\"name\":\"run\"," ++
    "\"params\":[\x7b\"nam\":\"x\",\"ty\":\"int\"\x7d]\x7d]\x7d\x7d\x7d"

theorem holds_misspeltParam : (Json.read misspeltParam).1.Holds .parameter
    (.record [(some "nam", .ofString "x"), (some "ty", .ofString "int")] true) := by
  have hread : (Json.read misspeltParam).1 =
      .ofClass "A" [(some "methods", .list [.record [(some "name", .ofString "run"),
        (some "params",
          .list [.record [(some "nam", .ofString "x"), (some "ty", .ofString "int")] true] true)]
        true] true)] := by
    cbv
  rw [hread]
  refine .part (.part (Value.holds_ofClass "A" _) (.methods "A")
    (.member ?_ List.mem_cons_self) List.mem_cons_self) .methodParams
    (.member ?_ (List.mem_cons_of_mem _ List.mem_cons_self)) List.mem_cons_self
  all_goals decide +kernel

theorem Universe.foreign_members_misspeltParam : ∃ e, ofJson misspeltParam = .error e :=
  (foreign_members holds_misspeltParam List.mem_cons_self (by decide +kernel)).resolve_right nofun

/-- The text of a class with a tag whose content has a misspelt member. -/
def misspeltTag : String :=
  "\x7b\"classes\":\x7b\"A\":\x7b\"tags\":[\x7b\"verbatim\":\x7b" ++
    "\"text\":\"X\",\"extra_typs\":[\"B\"]\x7d\x7d]\x7d\x7d\x7d"

theorem holds_misspeltTag : (Json.read misspeltTag).1.Holds .verbatim
    (.record
      [(some "text", .ofString "X"), (some "extra_typs", .list [.ofString "B"] true)] true) := by
  have hread : (Json.read misspeltTag).1 =
      .ofClass "A"
        [(some "tags",
          .list
            [.record
              [(some "verbatim", .record [(some "text", .ofString "X"),
                (some "extra_typs", .list [.ofString "B"] true)] true)] true] true)] := by
    cbv
  rw [hread]
  refine .content (Value.holds_ofClass "A" _) (.declaration "A") rfl (.member ?_ List.mem_cons_self)
    List.mem_cons_self
  decide +kernel

/-- Members that are no fields are lost in the contents of tags. -/
theorem not_all_foreign_members_refused :
    ¬∀ (json : String) (f : Form) (ms : List (Option String × Value)) (closed : Bool),
      (Json.read json).1.Holds f (.record ms closed) → ∀ m ∈ ms, f.shape.knows m = false →
        ∃ e, Universe.ofJson json = .error e := by
  intro h
  have hwritten :
      Universe.written misspeltTag = .ok [{ name := "A", tags := [.verbatim "X" []] }] := by
    decide +kernel
  obtain ⟨e, he⟩ := h misspeltTag _ _ true holds_misspeltTag
    _ (List.mem_cons_of_mem _ List.mem_cons_self) (by decide +kernel)
  rw [Universe.ofJson_eq_ok_iff.2 ⟨_, hwritten, rfl⟩] at he
  cases he

end TypeBridge
