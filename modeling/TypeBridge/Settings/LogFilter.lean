import TypeBridge.Text.Blank

/-!
# The log filter

A plain level stands for that level in every component; any other text is a filter already, and a
missing or blank one means the level `info`.
-/

namespace TypeBridge.LogFilter

def components : List String :=
  ["typeweave_common", "typeweave_core", "typeweave_cli"]

def levels : List String :=
  ["trace", "debug", "info", "warn", "error", "off"]

/-- Levels are recognised in any case of their letters. -/
def isLevel (text : String) : Bool :=
  levels.contains (String.ofList (text.toList.map Char.toLower))

/-- The filter that sets one level everywhere; the level keeps its spelling. -/
def everywhere (level : String) : String :=
  String.intercalate "," (components.map fun component => component ++ "=" ++ level)

def ofText : Option String → String
  | none => everywhere "info"
  | some text =>
    if isLevel text then
      everywhere text
    else if Text.AllBlank text.toList then
      everywhere "info"
    else
      text

end TypeBridge.LogFilter
