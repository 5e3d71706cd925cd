import TypeBridge.Proofs.Acceptance
import TypeBridge.Settings.Decode

/-!
# Settings in either place

The settings of a document stand in its own table or at its top level, where tables do not count.
What is a table there is told from the value alone, and not from the key.  So the same entries give
the same settings in both places unless a setting has a table for its value, and further entries are
ignored as long as they are tables (`Settings.settings_places`).  Only the functional mode may be
written as a table at all: all other settings refuse one (`Setting.plain`).

A reading of entries is followed entry by entry: it depends on what stands in front of an entry
neither in what it accepts (`Setting.steady`) nor, for the functional mode, in what it reads, since
the keys are distinct.
-/

namespace TypeBridge

open Decoder

/-! ## Fields -/

namespace Settings

/-- The key of the functional mode. -/
def modeKey : String :=
  "sam-mode"

/-- A field with a default, that accepts the same values whatever has been read, and no table unless
it is the functional mode, which all others leave alone. -/
structure Setting (f : Field Settings) : Prop where
  default : f.isRequired = false
  steady : ∀ s t v later, f.read s v = .ok later → ∃ other, f.read t v = .ok other
  plain : f.name ≠ modeKey → ∀ s v later, f.read s v = .ok later →
    v.isRecord = false ∧ later.functionalMode = s.functionalMode

variable {β : Type} {decode : Decoder β} {put : Settings → β → Settings}

theorem Setting.optional (name : String)
    (hplain : name ≠ modeKey → (∀ v, decode.Accepts v → v.isRecord = false) ∧
      ∀ s b, (put s b).functionalMode = s.functionalMode) :
    Setting (.optional name decode put) where
  default := rfl
  steady s t v later h := by
    obtain ⟨b, hb, -⟩ := except_map_eq_ok.1 h
    exact ⟨put t b, except_map_eq_ok.2 ⟨b, hb, rfl⟩⟩
  plain hname s v later h := by
    obtain ⟨b, hb, rfl⟩ := except_map_eq_ok.1 h
    exact ⟨(hplain hname).1 v ⟨b, hb⟩, (hplain hname).2 s b⟩

theorem isRecord_of_text : ∀ v, text.Accepts v → v.isRecord = false := by
  rintro v ⟨s, h⟩
  cases v <;> first | rfl | cases h

theorem isRecord_of_flag : ∀ v, flag.Accepts v → v.isRecord = false := by
  rintro v ⟨b, h⟩
  cases v <;> first | rfl | cases h

theorem isRecord_of_list {item : Decoder β} : ∀ v, (list item).Accepts v → v.isRecord = false := by
  rintro v ⟨as, h⟩
  cases v <;> first | rfl | cases h

theorem setting_of_mem : ∀ f ∈ shape.fields, Setting f := by
  simp only [shape, List.forall_mem_cons]
  refine ⟨?mode, ?_, ?_, ?_, ?_, ?included, ?excluded, ?optional, ?_, ?_, ?indent, nofun⟩
  case mode => exact .optional _ (absurd rfl)
  case indent => exact .optional _ fun _ => ⟨isRecord_of_text, fun _ _ => rfl⟩
  case included | excluded | optional => exact .optional _ fun _ =>
    ⟨isRecord_of_list, fun _ _ => rfl⟩
  all_goals exact .optional _ fun _ => ⟨isRecord_of_flag, fun _ _ => rfl⟩

/-! ## Entries -/

variable {s later : Settings} {e : String × Value}

/-- An entry that is accepted is read as a field. -/
theorem exists_setting (h : shape.entry s e = .ok later) :
    ∃ f, Setting f ∧ shape.field? e.1 = some f ∧ f.read s e.2 = .ok later := by
  unfold Shape.entry at h
  split at h
  · next f hf => exact ⟨f, setting_of_mem f (Shape.name_of_field? hf).1, hf, h⟩
  · cases h

theorem entry_steady (h : shape.entry s e = .ok later) (t : Settings) :
    ∃ other, shape.entry t e = .ok other := by
  obtain ⟨f, hsetting, hf, hread⟩ := exists_setting h
  obtain ⟨other, hother⟩ := hsetting.steady s t e.2 later hread
  exact ⟨other, by rw [Shape.entry, hf]; exact hother⟩

theorem entry_plain (he : e.1 ≠ modeKey) (h : shape.entry s e = .ok later) :
    e.2.isRecord = false ∧ later.functionalMode = s.functionalMode := by
  obtain ⟨f, hsetting, hf, hread⟩ := exists_setting h
  exact hsetting.plain ((Shape.name_of_field? hf).2 ▸ he) s e.2 later hread

theorem entry_mode (he : e.1 = modeKey) :
    shape.entry s e = (FunctionalMode.decode e.2).map fun mode =>
      { s with functionalMode := mode } := by
  rw [Shape.entry, he]
  rfl

/-! ## Readings -/

variable {entries : List (String × Value)}

/-- Without the functional mode, it stays as it is. -/
theorem functionalMode_of_not_mem (h : entries.foldlM shape.entry s = .ok later)
    (hmode : ∀ e ∈ entries, e.1 ≠ modeKey) : later.functionalMode = s.functionalMode := by
  induction entries generalizing s with
  | nil =>
    cases h
    rfl
  | cons e rest ih =>
    obtain ⟨he, hrest⟩ := List.forall_mem_cons.1 hmode
    obtain ⟨next, hnext, h⟩ := except_bind_eq_ok.1 h
    exact (ih h hrest).trans (entry_plain he hnext).2

/-- The functional mode is the one that its entry gives. -/
theorem decode_functionalMode (hdistinct : (entries.map (·.1)).Nodup)
    (h : entries.foldlM shape.entry s = .ok later) (hmem : e ∈ entries) (he : e.1 = modeKey) :
    FunctionalMode.decode e.2 = .ok later.functionalMode := by
  induction entries generalizing s with
  | nil => cases hmem
  | cons first rest ih =>
    obtain ⟨hfirst, hdistinct⟩ := List.nodup_cons.1 hdistinct
    obtain ⟨next, hnext, h⟩ := except_bind_eq_ok.1 h
    rcases List.mem_cons.1 hmem with rfl | hmem
    -- The key does not come again, so nothing behind the entry touches the mode.
    · have hrest : ∀ other ∈ rest, other.1 ≠ modeKey :=
        fun other hother heq => hfirst (List.mem_map.2 ⟨other, hother, heq.trans he.symm⟩)
      rw [entry_mode he] at hnext
      obtain ⟨mode, hdecode, rfl⟩ := except_map_eq_ok.1 hnext
      rw [hdecode, functionalMode_of_not_mem h hrest]
    · exact ih hdistinct h hmem

/-- Every entry of a reading is accepted. -/
theorem exists_entry_of_foldlM (h : entries.foldlM shape.entry s = .ok later) (hmem : e ∈ entries) :
    ∃ t next, shape.entry t e = .ok next := by
  induction entries generalizing s with
  | nil => cases hmem
  | cons first rest ih =>
    obtain ⟨next, hnext, h⟩ := except_bind_eq_ok.1 h
    rcases List.mem_cons.1 hmem with rfl | hmem
    · exact ⟨s, next, hnext⟩
    · exact ih h hmem

/-- A part of what is accepted is accepted. -/
theorem exists_foldlM_filter (p : String × Value → Bool)
    (h : entries.foldlM shape.entry s = .ok later) (t : Settings) :
    ∃ other, (entries.filter p).foldlM shape.entry t = .ok other := by
  induction entries generalizing s t with
  | nil => exact ⟨t, rfl⟩
  | cons e rest ih =>
    obtain ⟨next, hnext, h⟩ := except_bind_eq_ok.1 h
    rw [List.filter_cons]
    split
    · obtain ⟨after, hafter⟩ := entry_steady hnext t
      obtain ⟨other, hother⟩ := ih h after
      exact ⟨other, except_bind_eq_ok.2 ⟨after, hafter, hother⟩⟩
    · exact ih h t

/-! ## Entries that are tables -/

/-- The entries that are no tables. -/
def untabled (entries : List (String × Value)) : List (String × Value) :=
  entries.filter fun e => !e.2.isRecord

/-- The entry is no table, or it is one that gives the default functional mode. -/
def Idle (e : String × Value) : Prop :=
  e.2.isRecord = true → e.1 = modeKey ∧ FunctionalMode.decode e.2 = .ok .structural

/-- Tables that give the default functional mode change nothing.  `s` has the default as long as
such a table is still to come, since an entry in front of it has another key. -/
theorem foldlM_untabled (hdistinct : (entries.map (·.1)).Nodup) (hidle : ∀ e ∈ entries, Idle e)
    (hmode : ∀ e ∈ entries, e.2.isRecord = true → s.functionalMode = .structural) :
    (untabled entries).foldlM shape.entry s = entries.foldlM shape.entry s := by
  unfold untabled
  induction entries generalizing s with
  | nil => rfl
  | cons e rest ih =>
    obtain ⟨hother, hdistinct⟩ := List.nodup_cons.1 hdistinct
    obtain ⟨he, hidle⟩ := List.forall_mem_cons.1 hidle
    obtain ⟨hs, hmode⟩ := List.forall_mem_cons.1 hmode
    cases hrecord : e.2.isRecord with
    | true =>
      obtain ⟨hkey, hdecode⟩ := he hrecord
      have hentry : shape.entry s e = .ok s := by
        rw [entry_mode hkey, hdecode, ← hs hrecord]
        rfl
      rw [List.filter_cons_of_neg (by simp [hrecord]), List.foldlM_cons, hentry]
      exact ih hdistinct hidle hmode
    | false =>
      rw [List.filter_cons_of_pos (by simp [hrecord]), List.foldlM_cons, List.foldlM_cons]
      cases hentry : shape.entry s e with
      | error err => rfl
      | ok next =>
        refine ih hdistinct hidle fun later hlater hrecord => ?_
        have hkey : e.1 ≠ modeKey := fun heq =>
          hother (List.mem_map.2 ⟨later, hlater, ((hidle later hlater) hrecord).1.trans heq.symm⟩)
        exact (entry_plain hkey hentry).2.trans (hmode later hlater hrecord)

/-- Where tables make no difference, none of them says anything. -/
theorem idle_of_agree (hdistinct : (entries.map (·.1)).Nodup)
    (huntabled : (untabled entries).foldlM shape.entry {} = .ok later)
    (hall : entries.foldlM shape.entry {} = .ok later) : ∀ e ∈ entries, Idle e := by
  intro e he hrecord
  obtain ⟨s, next, hentry⟩ := exists_entry_of_foldlM hall he
  have hkey : e.1 = modeKey := by
    by_contra hne
    have hplain := (entry_plain hne hentry).1
    rw [hrecord] at hplain
    cases hplain
  have hrest : ∀ other ∈ untabled entries, other.1 ≠ modeKey := by
    intro other hother heq
    obtain ⟨hmem, huntabled⟩ := List.mem_filter.1 hother
    have hsame : other = e := List.inj_on_of_nodup_map hdistinct hmem he (heq.trans hkey.symm)
    rw [hsame, hrecord] at huntabled
    cases huntabled
  have hmode : later.functionalMode = .structural := functionalMode_of_not_mem huntabled hrest
  exact ⟨hkey, hmode ▸ decode_functionalMode hdistinct hall he hkey⟩

/-- Entries with keys of their own give the same settings without their tables, or fail as well,
exactly if they fail without them or no table says anything. -/
theorem agree_iff_idle (hdistinct : (entries.map (·.1)).Nodup) :
    ((untabled entries).foldlM shape.entry {}).toOption = (entries.foldlM shape.entry {}).toOption ↔
      ((untabled entries).foldlM shape.entry {}).toOption = none ∨ ∀ e ∈ entries, Idle e := by
  constructor
  · intro hagree
    cases huntabled : (untabled entries).foldlM shape.entry {} with
    | error err => exact .inl rfl
    | ok later =>
      rw [huntabled] at hagree
      cases hall : entries.foldlM shape.entry {} with
      | error err =>
        rw [hall] at hagree
        cases hagree
      | ok other =>
        rw [hall] at hagree
        cases hagree
        exact .inr (idle_of_agree hdistinct huntabled hall)
  · rintro (huntabled | hidle)
    · cases hall : entries.foldlM shape.entry {} with
      | error err => exact huntabled
      | ok later =>
        obtain ⟨other, hother⟩ := exists_foldlM_filter (fun e => !e.2.isRecord) hall {}
        rw [untabled, hother] at huntabled
        cases huntabled
    · rw [foldlM_untabled hdistinct hidle fun _ _ _ => rfl]

/-! ## Documents -/

/-- A table that is no setting. -/
def isLoose (e : String × Value) : Bool :=
  e.2.isRecord && !shape.names.contains e.1

/-- Without the tables that are no settings. -/
def withoutLoose (table : List (String × Value)) : List (String × Value) :=
  table.filter (!isLoose ·)

/-- Without the entries of these keys. -/
def without (keys : List String) (document : List (String × Value)) : List (String × Value) :=
  document.filter fun e => !keys.contains e.1

theorem ofDocument_own {document entries : List (String × Value)}
    (hown : ownTable? document = some (.ofEntries entries)) :
    ofDocument document = shape.decode (.ofEntries entries) := by
  rw [ofDocument, source, hown]

theorem ofDocument_top {document : List (String × Value)} (hown : ownTable? document = none) :
    ofDocument document = shape.decode (.ofEntries (untabled document)) := by
  rw [ofDocument, source, hown]
  rfl

theorem decode_entries (hdistinct : (entries.map (·.1)).Nodup) :
    shape.decode (.ofEntries entries) = entries.foldlM shape.entry {} :=
  Shape.decode_ofEntries rfl (fun f hf => (setting_of_mem f hf).default) hdistinct

theorem ownTable?_eq_none (h : "tool" ∉ entries.map (·.1)) : ownTable? entries = none := by
  have hlookup : entries.lookup "tool" = none := by
    refine List.lookup_eq_none_iff.2 fun e he => ?_
    rw [bne_iff_ne]
    exact fun heq => h (List.mem_map.2 ⟨e, he, heq.symm⟩)
  rw [ownTable?, hlookup]
  rfl

theorem lookup_without (keys : List String) (document : List (String × Value)) (key : String) :
    (without keys document).lookup key =
      if keys.contains key then none else document.lookup key := by
  induction document with
  | nil => split <;> rfl
  | cons e rest ih =>
    obtain ⟨first, v⟩ := e
    rw [without] at ih ⊢
    by_cases hkeys : keys.contains first
    · rw [List.filter_cons_of_neg (by simpa using hkeys), ih, List.lookup_cons]
      by_cases heq : key = first
      · rw [heq, if_pos hkeys, if_pos hkeys]
      · rw [beq_eq_false_iff_ne.2 heq]
    · rw [List.filter_cons_of_pos (by simpa using hkeys), List.lookup_cons, List.lookup_cons, ih]
      by_cases heq : key = first
      · rw [heq, beq_self_eq_true, if_neg hkeys, if_neg hkeys]
      · rw [beq_eq_false_iff_ne.2 heq]

theorem ownTable?_without {document : List (String × Value)} (hown : ownTable? document = none)
    (keys : List String) : ownTable? (without keys document) = none := by
  rw [ownTable?, lookup_without]
  split
  · rfl
  · exact hown

/-- Further tables do not count. -/
theorem ofDocument_without {document : List (String × Value)} (hown : ownTable? document = none)
    {keys : List String} (htables : ∀ e ∈ document, e.1 ∈ keys → e.2.isRecord = true) :
    ofDocument (without keys document) = ofDocument document := by
  have huntabled : untabled (without keys document) = untabled document := by
    rw [untabled, untabled, without, List.filter_filter]
    refine List.filter_congr fun e he => ?_
    by_cases hkey : e.1 ∈ keys
    · simp [htables e he hkey]
    · simp [hkey]
  rw [ofDocument_top hown, ofDocument_top (ownTable?_without hown keys), huntabled]

/-- Other further entries are refused. -/
theorem ofDocument_eq_error {document : List (String × Value)} (hown : ownTable? document = none)
    {e : String × Value} (he : e ∈ document) (hkey : e.1 ∉ shape.names)
    (hrecord : e.2.isRecord = false) : ∃ err, ofDocument document = .error err := by
  have hmem : (some e.1, e.2) ∈ (untabled document).map fun e => (some e.1, e.2) :=
    List.mem_map.2 ⟨e, List.mem_filter.2 ⟨he, by simp [hrecord]⟩, rfl⟩
  cases hsettings : ofDocument document with
  | error err => exact ⟨err, rfl⟩
  | ok s =>
    rw [ofDocument_top hown] at hsettings
    have hknows := Shape.knows_of_accepts rfl ⟨s, hsettings⟩ _ hmem
    exact absurd (by simpa [Shape.knows] using hknows) hkey

/-- **Settings in either place.**  A table without the key of the own table, and a document that has
the same entries in its own table, give the same settings or fail as well exactly if the first fails
or no table among the settings says more than the default.  At the top level, further entries are
ignored if they are tables and refused otherwise. -/
theorem settings_places {table document : List (String × Value)}
    (hdistinct : (table.map (·.1)).Nodup) (htool : "tool" ∉ table.map (·.1))
    (hown : ownTable? document = some (.ofEntries (withoutLoose table)))
    {wide : List (String × Value)} (hwide : ownTable? wide = none) {keys : List String}
    (hkeys : ∀ key ∈ keys, key ∉ shape.names) :
    ((ofDocument (withoutLoose table)).toOption = (ofDocument document).toOption ↔
        (ofDocument (withoutLoose table)).toOption = none ∨ ∀ e ∈ withoutLoose table, Idle e) ∧
      ((∀ e ∈ wide, e.1 ∈ keys → e.2.isRecord = true) → ofDocument (without keys wide) =
        ofDocument wide) ∧
      ((∃ e ∈ wide, e.1 ∈ keys ∧ e.2.isRecord = false) → ∃ err, ofDocument wide = .error err) := by
  have hdistinct : ((withoutLoose table).map (·.1)).Nodup :=
    hdistinct.sublist (List.filter_sublist.map _)
  have huntabled : ((untabled (withoutLoose table)).map (·.1)).Nodup :=
    hdistinct.sublist (List.filter_sublist.map _)
  have htool : "tool" ∉ (withoutLoose table).map (·.1) :=
    fun hmem => htool ((List.filter_sublist.map _).subset hmem)
  refine ⟨?_, ofDocument_without hwide, ?_⟩
  · rw [ofDocument_top (ownTable?_eq_none htool), ofDocument_own hown, decode_entries hdistinct,
      decode_entries huntabled]
    exact agree_iff_idle hdistinct
  · rintro ⟨e, he, hkey, hrecord⟩
    exact ofDocument_eq_error hwide he (hkeys e.1 hkey) hrecord

/-- A setting, a setting that is a table, and a table that is no setting. -/
def projectTable : List (String × Value) :=
  [("sort-members", .bool false), ("sam-mode", .ofEntries [("structural", .ofEntries [])]),
    ("project", .ofEntries [("name", .ofString "demo")])]

example :
    Toml.read
      "sort-members = false\n[sam-mode]\nstructural = \x7b\x7d\n[project]\nname = \"demo\"\n" =
    some projectTable := by
  cbv

/-- The document with these entries in its own table. -/
def underTool (table : List (String × Value)) : List (String × Value) :=
  [("tool", .ofEntries [("typeweave", .ofEntries table)])]

theorem settings_places_projectTable :
    (ofDocument (withoutLoose projectTable)).toOption =
      (ofDocument (underTool (withoutLoose projectTable))).toOption ∧
      ofDocument (without ["project"] projectTable) = ofDocument projectTable := by
  have hdistinct : (projectTable.map (·.1)).Nodup := by decide +kernel
  have htool : "tool" ∉ projectTable.map (·.1) := by decide +kernel
  have hown : ownTable? (underTool (withoutLoose projectTable)) =
      some (.ofEntries (withoutLoose projectTable)) := rfl
  have hwide : ownTable? projectTable = none := rfl
  have hkeys : ∀ key ∈ ["project"], key ∉ shape.names := by decide +kernel
  have h := settings_places hdistinct htool hown hwide hkeys
  refine ⟨h.1.2 (.inr ?_), h.2.1 ?_⟩
  · have hentries : withoutLoose projectTable = projectTable.take 2 := rfl
    rw [hentries]
    exact List.forall_mem_cons.2 ⟨nofun, List.forall_mem_cons.2 ⟨fun _ => ⟨rfl, rfl⟩, nofun⟩⟩
  · simp [projectTable, Value.ofEntries, Value.isRecord]

/-- The functional mode as a table. -/
def gatedTable : List (String × Value) :=
  [("sam-mode", .ofEntries [("annotation-gated", .ofEntries [])])]

/-- A list of tables. -/
def binTable : List (String × Value) :=
  [("bin", .list [.ofEntries [("name", .ofString "demo")]] true)]

example : Toml.read "sam-mode = \x7b annotation-gated = \x7b\x7d \x7d\n" = some gatedTable ∧
    Toml.read "[[bin]]\nname = \"demo\"\n" = some binTable := by
  constructor
  · cbv
  · cbv

/-- A setting that is a table is lost at the top level, and a list of tables is refused there. -/
theorem not_all_settings_places_alike :
    (¬∀ table document : List (String × Value), (table.map (·.1)).Nodup → "tool" ∉ table.map (·.1) →
        ownTable? document = some (.ofEntries (withoutLoose table)) →
        (ofDocument (withoutLoose table)).toOption = (ofDocument document).toOption) ∧
      ¬∀ (wide : List (String × Value)) (keys : List String), ownTable? wide = none →
        (∀ key ∈ keys, key ∉ shape.names) →
        (∀ e ∈ wide, e.1 ∈ keys → e.2.isRecord = true ∨
            ∃ tables : List (List (String × Value)), e.2 = .list (tables.map .ofEntries) true) →
        (ofDocument (without keys wide)).toOption = (ofDocument wide).toOption := by
  constructor
  · intro h
    have hagree :=
      h gatedTable (underTool (withoutLoose gatedTable)) (by decide +kernel) (by decide +kernel) rfl
    exact absurd hagree (by decide +kernel)
  · intro h
    have htables : ∀ e ∈ binTable, e.1 ∈ ["bin"] → e.2.isRecord = true ∨
        ∃ tables : List (List (String × Value)), e.2 = .list (tables.map .ofEntries) true :=
      List.forall_mem_cons.2 ⟨fun _ => .inr ⟨[[("name", .ofString "demo")]], rfl⟩, nofun⟩
    have hagree := h binTable ["bin"] rfl (by decide +kernel) htables
    exact absurd hagree (by decide +kernel)

end Settings

end TypeBridge
