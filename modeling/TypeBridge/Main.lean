import TypeBridge.CommandLine.Run

/-!
# The program

The command line on the files of the system.
-/

namespace TypeBridge.CommandLine

/-- The number of a system error; some calls give it with its sign changed. -/
def errorNumber (code : UInt32) : UInt32 :=
  if code < 0x80000000 then code else 0 - code

/-- What the system says about a file. -/
def FileError.ofSystem (error : IO.Error) : FileError :=
  match error with
  | .noFileOrDirectory .. => .notFound
  | .permissionDenied _ code _ =>
    if errorNumber code = 13 then .notPermitted else .other (toString error)
  | .inappropriateType _ code _ =>
    if errorNumber code = 20 then .notDirectory
    else if errorNumber code = 21 then .isDirectory
    else .other (toString error)
  | .invalidArgument _ code _ =>
    if errorNumber code = 36 then .nameTooLong else .other (toString error)
  | .userError _ => .notText
  | _ => .other (toString error)

/-- The files of the system, by their paths. -/
def systemFiles : Files IO where
  read path := do
    match ← (IO.FS.readFile path).toBaseIO with
    | .ok text => pure (.ok text)
    | .error error => pure (.error (.ofSystem error))
  write path text := do
    match ← (IO.FS.writeFile path text).toBaseIO with
    | .ok () => pure (.ok ())
    | .error error => pure (.error (.ofSystem error))

end TypeBridge.CommandLine

open TypeBridge.CommandLine in
def main (arguments : List String) : IO UInt32 := do
  let report ← run systemFiles arguments
  IO.print report.output
  IO.eprint report.errors
  pure report.code.toUInt32
