/-!
# Arguments

What a command line asks for.  Arguments are read from left to right, and the first one that settles
the matter does: a mistake in front of a request for help is a mistake, one behind it is never seen.

An option stands with its value in one argument, behind an equals sign, or with the next argument as
its value, which then must not look like an option.  Behind a double hyphen nothing is an option,
and as no command takes anything else, nothing may stand there.
-/

namespace TypeBridge.CommandLine

/-- What declarations are generated from, and where they go. -/
structure Task where
  universePath : String
  settingsPath : Option String := none
  roots : List String
  outPath : Option String := none
deriving DecidableEq

inductive Request where
  | help
  | version
  | generate (task : Task)
deriving DecidableEq

/-- The options of `generate`. -/
inductive OptionName where
  | universePath
  | settingsPath
  | root
  | outPath
deriving DecidableEq, Repr

namespace OptionName

/-- The name, without its hyphens. -/
def spelling : OptionName → String
  | universePath => "universe"
  | settingsPath => "settings"
  | root => "root"
  | outPath => "out"

def all : List OptionName :=
  [universePath, settingsPath, root, outPath]

def ofSpelling? (name : String) : Option OptionName :=
  all.find? fun o => o.spelling == name

theorem ofSpelling?_spelling (o : OptionName) : ofSpelling? o.spelling = some o := by
  cases o <;> decide +kernel

end OptionName

/-- Why a command line asks for nothing. -/
inductive UsageError where
  | unexpectedArgument (argument : String)
  | unknownCommand (name : String)
  /-- An option without a value, or a path that is empty. -/
  | missingValue (option : OptionName)
  /-- Help and version take no value. -/
  | needlessValue (argument : String)
  | repeatedOption (option : OptionName)
  | missingOption (option : OptionName)
deriving DecidableEq

namespace UsageError

def message : UsageError → String
  | unexpectedArgument argument => "unexpected argument '" ++ argument ++ "'"
  | unknownCommand name => "there is no command '" ++ name ++ "'"
  | missingValue option => "the option '--" ++ option.spelling ++ "' needs a value"
  | needlessValue argument => "no value is expected in '" ++ argument ++ "'"
  | repeatedOption option => "the option '--" ++ option.spelling ++ "' is given more than once"
  | missingOption option => "the option '--" ++ option.spelling ++ "' is missing"

end UsageError

/-! ## Single arguments -/

/-- The form of an argument. -/
inductive Form where
  /-- The double hyphen. -/
  | terminator
  /-- Two hyphens and a name, with a value behind an equals sign if there is one. -/
  | long (name : String) (value : Option String)
  /-- A hyphen and letters. -/
  | short (first : Char)
  /-- Anything else; also a hyphen alone. -/
  | plain
deriving DecidableEq

namespace Form

/-- A name, and the value behind the first equals sign. -/
def ofLong (cs : List Char) : Form :=
  let name := String.ofList (cs.takeWhile (· != '='))
  match cs.dropWhile (· != '=') with
  | [] => .long name none
  | _ :: value => .long name (some (String.ofList value))

def ofArgument (argument : String) : Form :=
  match argument.toList with
  | ['-', '-'] => .terminator
  | '-' :: '-' :: rest => ofLong rest
  | '-' :: first :: _ => .short first
  | _ => .plain

end Form

/-- Help and version, by the form of the argument that asks for them.  `topLevel` is in front of any
command; behind one there is no version. -/
def information? (topLevel : Bool) : Form → Option Request
  | .long "help" none => some .help
  | .short 'h' => some .help
  | .long "version" none => if topLevel then some .version else none
  | .short 'V' => if topLevel then some .version else none
  | _ => none

/-- The mistake in an argument of which nothing is known. -/
def mistake (topLevel : Bool) (argument : String) : UsageError :=
  match Form.ofArgument argument with
  | .long name (some _) =>
    if (information? topLevel (.long name none)).isSome then .needlessValue argument
    else .unexpectedArgument argument
  | _ => .unexpectedArgument argument

/-! ## The options of `generate` -/

/-- The options read so far. -/
structure Draft where
  universePath : Option String := none
  settingsPath : Option String := none
  roots : List String := []
  outPath : Option String := none

namespace Draft

/-- A path that may be given once, and not empty. -/
def once (option : OptionName) (known : Option String) (value : String) :
    Except UsageError (Option String) :=
  if value.isEmpty then
    .error (.missingValue option)
  else if known.isSome then
    .error (.repeatedOption option)
  else
    .ok (some value)

/-- Only roots may be given several times. -/
def put (d : Draft) (option : OptionName) (value : String) : Except UsageError Draft :=
  match option with
  | .universePath => do .ok { d with universePath := ← once option d.universePath value }
  | .settingsPath => do .ok { d with settingsPath := ← once option d.settingsPath value }
  | .root => .ok { d with roots := d.roots ++ [value] }
  | .outPath => do .ok { d with outPath := ← once option d.outPath value }

/-- A universe and a root have to be given. -/
def finish (d : Draft) : Except UsageError Request :=
  match d.universePath with
  | none => .error (.missingOption .universePath)
  | some universePath =>
    if d.roots.isEmpty then
      .error (.missingOption .root)
    else
      .ok
        (.generate
          { universePath, settingsPath := d.settingsPath, roots := d.roots, outPath := d.outPath })

end Draft

/-- An argument that can be the value of the option in front of it. -/
def isValue (argument : String) : Bool :=
  Form.ofArgument argument == .plain

/-- What stands behind a double hyphen: nothing may. -/
def readNothing {α : Type} (result : Except UsageError α) : List String → Except UsageError α
  | [] => result
  | extra :: _ => .error (.unexpectedArgument extra)

/-- What an argument of `generate` does. -/
inductive Effect where
  | answer (request : Request)
  | endOptions
  | put (option : OptionName) (value : String)
  /-- The value of the option is the next argument. -/
  | await (option : OptionName)

/-- An argument where an option is expected. -/
def effect (argument : String) : Except UsageError Effect :=
  let form := Form.ofArgument argument
  match information? false form, form with
  | some request, _ => .ok (.answer request)
  | none, .terminator => .ok .endOptions
  | none, .long name value =>
    match OptionName.ofSpelling? name, value with
    | some option, some attached => .ok (.put option attached)
    | some option, none => .ok (.await option)
    | none, _ => .error (mistake false argument)
  | none, _ => .error (mistake false argument)

/-- The options of `generate` behind those in the draft, of which one may still await its value. -/
def readOptions (d : Draft) : Option OptionName → List String → Except UsageError Request
  | none, [] => d.finish
  | some option, [] => .error (.missingValue option)
  | some option, value :: rest =>
    if isValue value then do
      readOptions (← d.put option value) none rest
    else
      .error (.missingValue option)
  | none, argument :: rest => do
    match ← effect argument with
    | .answer request => .ok request
    | .endOptions => readNothing d.finish rest
    | .put option value => readOptions (← d.put option value) none rest
    | .await option => readOptions d (some option) rest

/-! ## The whole line -/

/-- Help can be asked for by the names of the commands, help being one. -/
def readHelp : List String → Except UsageError Request
  | [] => .ok .help
  | [command] =>
    if command == "generate" || command == "help" then .ok .help
      else .error (.unknownCommand command)
  | _ :: extra :: _ => .error (.unknownCommand extra)

/-- The request of a command line, without the name of the program.  An empty one asks for help. -/
def request : List String → Except UsageError Request
  | [] => .ok .help
  | "generate" :: rest => readOptions {} none rest
  | "help" :: rest => readHelp rest
  | argument :: rest =>
    let form := Form.ofArgument argument
    match information? true form, form with
    | some request, _ => .ok request
    | none, .terminator => readNothing (.ok .help) rest
    | none, .plain => .error (.unknownCommand argument)
    | none, _ => .error (mistake true argument)

end TypeBridge.CommandLine
