/-!
# Files

What a command line needs of a store of files, and why a store may refuse.
-/

namespace TypeBridge.CommandLine

/-- Why a file cannot be read or written. -/
inductive FileError where
  | notFound
  | notPermitted
  | notDirectory
  | isDirectory
  | nameTooLong
  /-- The contents are no text. -/
  | notText
  | other (description : String)
deriving DecidableEq

namespace FileError

def message : FileError → String
  | notFound => "No such file or directory (os error 2)"
  | notPermitted => "Permission denied (os error 13)"
  | notDirectory => "Not a directory (os error 20)"
  | isDirectory => "Is a directory (os error 21)"
  | nameTooLong => "File name too long (os error 36)"
  | notText => "stream did not contain valid UTF-8"
  | other description => description

end FileError

/-- Access to files in a monad `m`. -/
structure Files (m : Type → Type) where
  read : String → m (Except FileError String)
  write : String → String → m (Except FileError Unit)

end TypeBridge.CommandLine
