import TypeBridge.CommandLine.Arguments
import TypeBridge.CommandLine.Files
import TypeBridge.Generator
import TypeBridge.Settings.Decode
import TypeBridge.Universe.Decode

/-!
# Running a command line

`run` carries out a command line on any store of files, and says what to print and with which code
to exit.  Faults are found in the order settings, universe, roots, generation, output; nothing is
written when there is one.
-/

namespace TypeBridge.CommandLine

/-! ## Faults -/

/-- Why a task was not carried out. -/
inductive Fault where
  | unreadable (path : String) (error : FileError)
  | badSettings (error : SettingsError)
  | badUniverse (path : String) (error : DecodeError)
  | badRoot (error : ExpressionError)
  | failed (failure : Failure)
  | unwritable (path : String) (error : FileError)
deriving DecidableEq

namespace Fault

def message : Fault → String
  | unreadable path error => "Failed to read " ++ path ++ ": " ++ error.message
  | badSettings error => error.message
  | badUniverse path error => path ++ ": Failed to parse type universe: " ++ error.message
  | badRoot error => error.message
  | failed failure => failure.message
  | unwritable path error => "Failed to write " ++ path ++ ": " ++ error.message

end Fault

/-! ## Tasks -/

section

variable {m : Type → Type} [Monad m]

def readFile (files : Files m) (path : String) : ExceptT Fault m String := do
  match ← files.read path with
  | .ok text => pure text
  | .error error => throw (.unreadable path error)

/-- The settings of a file, or the standard ones without a file. -/
def readSettings (files : Files m) : Option String → ExceptT Fault m Settings
  | none => pure {}
  | some path => do
    let text ← readFile files path
    MonadExcept.ofExcept ((Settings.ofToml text).mapError .badSettings)

def readUniverse (files : Files m) (path : String) : ExceptT Fault m Universe := do
  let text ← readFile files path
  MonadExcept.ofExcept ((Universe.ofJson text).mapError (.badUniverse path))

/-- The types of several expressions; of those that are none, the first is reported. -/
def readRoots (roots : List String) : Except Fault (List HostType) :=
  roots.mapM fun root => (Expression.read root).mapError .badRoot

/-- The declarations that a task asks for. -/
def declarations (files : Files m) (task : Task) : ExceptT Fault m String := do
  let settings ← readSettings files task.settingsPath
  let u ← readUniverse files task.universePath
  let roots ← MonadExcept.ofExcept (readRoots task.roots)
  MonadExcept.ofExcept ((TypeBridge.generate settings u roots).mapError .failed)

/-- Put a text into a file, or give it back to be printed. -/
def deliver (files : Files m) (text : String) : Option String → ExceptT Fault m String
  | none => pure text
  | some path => do
    match ← files.write path text with
    | .ok () => pure ""
    | .error error => throw (.unwritable path error)

/-- Carry out a task; the result is the text to print. -/
def perform (files : Files m) (task : Task) : ExceptT Fault m String := do
  let text ← declarations files task
  deliver files text task.outPath

end

/-! ## The whole line -/

/-- How a run ends. -/
structure Report where
  code : UInt8
  /-- For the standard output. -/
  output : String := ""
  /-- For the standard error output. -/
  errors : String := ""
deriving DecidableEq

namespace Report

def help : String :=
  "Generate TypeScript declarations from a host type universe\n\n"
    ++ "Usage: typeweave generate --universe <PATH> --root <TYPE> [OPTIONS]\n\n"
    ++ "Options:\n"
    ++ "  --universe <PATH>  JSON description of the host types\n"
    ++ "  --root <TYPE>      Type to start discovery from; repeatable\n"
    ++ "  --settings <PATH>  TOML settings file (top level or [tool.typeweave])\n"
    ++ "  --out <PATH>       Write the declarations here instead of stdout\n"

def version : String :=
  "typeweave 0.1.0\n"

def ofUsageError (error : UsageError) : Report where
  code := 2
  errors := "error: " ++ error.message ++ "\n"

def ofResult : Except Fault String → Report
  | .ok text => { code := 0, output := text }
  | .error fault => { code := 1, errors := fault.message ++ "\n" }

end Report

/-- Carry out a command line, without the name of the program in front. -/
def run {m : Type → Type} [Monad m] (files : Files m) (arguments : List String) : m Report :=
  match request arguments with
  | .error error => pure (.ofUsageError error)
  | .ok .help => pure { code := 0, output := Report.help }
  | .ok .version => pure { code := 0, output := Report.version }
  | .ok (.generate task) => Report.ofResult <$> (perform files task).run

end TypeBridge.CommandLine
