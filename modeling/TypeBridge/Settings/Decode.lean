import TypeBridge.Data.Shape
import TypeBridge.Data.Toml.Document
import TypeBridge.Settings.Basic

/-!
# Settings in TOML

Settings stand in the table `tool.typeweave`, or at the top level of a document that has none.
There they may share the document with other tables, which do not count, but not with other keys.
-/

namespace TypeBridge

namespace FunctionalMode

/-- A variant without content has an empty table or list for its value. -/
def isEmptyContent : Value → Bool
  | .record members _ => members.isEmpty
  | .list items _ => items.isEmpty
  | _ => false

def decode : Decoder FunctionalMode :=
  .oneOf isEmptyContent [("annotation-gated", .annotationGated), ("structural", .structural)]

end FunctionalMode

/-- Why a text gives no settings. -/
inductive SettingsError where
  /-- The text is no TOML document. -/
  | notToml
  | invalid (error : DecodeError)
deriving DecidableEq

namespace SettingsError

def message : SettingsError → String
  | notToml => "Failed to parse settings: the text is no TOML document"
  | invalid error => "Invalid settings: " ++ error.message

end SettingsError

namespace Settings

def shape : Shape Settings where
  initial := {}
  fields :=
    [.optional "sam-mode" FunctionalMode.decode fun s v => { s with functionalMode := v },
      .optional "emit-abstract-methods" .flag fun s v => { s with emitAbstractMethods := v },
      .optional "emit-default-methods" .flag fun s v => { s with emitDefaultMethods := v },
      .optional "emit-static-methods" .flag fun s v => { s with emitStaticMethods := v },
      .optional "emit-other-methods" .flag fun s v => { s with emitOtherMethods := v },
      .optional "include-member-markers" (.list .text) fun s v => { s with includeMarkers := v },
      .optional "exclude-member-markers" (.list .text) fun s v => { s with excludeMarkers := v },
      .optional "optional-markers" (.list .text) fun s v => { s with optionalMarkers := v },
      .optional "sort-declarations" .flag fun s v => { s with sortDeclarations := v },
      .optional "sort-members" .flag fun s v => { s with sortMembers := v },
      .optional "indent" .text fun s v => { s with indent := v }]

/-- The member of a record. -/
def member? (name : String) : Value → Option Value
  | .record members _ => members.lookup (some name)
  | _ => none

/-- The value of `tool.typeweave`. -/
def ownTable? (document : List (String × Value)) : Option Value := do
  member? "typeweave" (← document.lookup "tool")

/-- The value that holds the settings of a document: its own table, or what is no table. -/
def source (document : List (String × Value)) : Value :=
  match ownTable? document with
  | some own => own
  | none => .ofEntries (document.filter fun e => !e.2.isRecord)

def ofDocument (document : List (String × Value)) : Except DecodeError Settings :=
  shape.decode (source document)

/-- The settings of a TOML text. -/
def ofToml (text : String) : Except SettingsError Settings :=
  match Toml.read text with
  | none => .error .notToml
  | some document => (ofDocument document).mapError .invalid

end Settings

end TypeBridge
