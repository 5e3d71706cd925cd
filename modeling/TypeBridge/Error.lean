import TypeBridge.Host.Type

/-!
# Failures of a run

The causes that end a run, and their wording.  A processor that leaves a type to the next one has
not failed.
-/

namespace TypeBridge

/-- Why the provider of a signature gave none. -/
inductive ProviderFault where
  | unregistered
  | failed (reason : String)
  | blankText
deriving DecidableEq

namespace ProviderFault

/-- The cause, for the provider under the name `reference`. -/
def message (reference : String) : ProviderFault → String
  | unregistered => "no signature provider registered for '" ++ reference ++ "'"
  | failed reason => reason
  | blankText => "signature provider returned empty text"

end ProviderFault

inductive Failure where
  /-- An override text is blank. -/
  | blankOverride (site : String)
  /-- A declaration carries several override tags. -/
  | ambiguousOverride (site : String)
  /-- A provider gave no signature; `reference` is its owner and name. -/
  | noSignature (reference : String) (fault : ProviderFault)
  /-- A second declaration for one host type. -/
  | alreadyDeclared (source : HostType)
  /-- A part of the pipeline that is not built in refused its work. -/
  | structural (reason : String)
  /-- A root is a class that the universe does not declare. -/
  | unknownRoot (name : String)
  /-- The budget of the run did not suffice. -/
  | exhausted
deriving DecidableEq

namespace Failure

def message : Failure → String
  | blankOverride site =>
    "Invalid signature annotation on '" ++ site ++ "': verbatim signature text is empty"
  | ambiguousOverride site =>
    "Only one signature annotation allowed, but found multiple on '" ++ site ++ "'"
  | noSignature reference fault =>
    "Unable to process signature reference '" ++ reference ++ "': " ++ fault.message reference
  | alreadyDeclared source =>
    "Structural error: '" ++ source.text ++ "' already has a declaration in the model"
  | structural reason => "Structural error: " ++ reason
  | unknownRoot name => "Entry point '" ++ name ++ "' is not declared in the type universe"
  | exhausted => "The budget of the run is exhausted"

end Failure

end TypeBridge
