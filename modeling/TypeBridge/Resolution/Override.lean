import TypeBridge.Resolution.Chain
import TypeBridge.Text.Blank

/-!
# Overrides

A declaration with one override tag resolves to the text of that tag, and nothing else of it is
looked at.  Two tags are never merged or ranked.
-/

namespace TypeBridge.Override

/-- The text of a provider on `owner`. -/
def ofProvider (providers : Providers) (owner name : String) : Except Failure Resolution :=
  let reference := owner ++ "::" ++ name
  match providers.get? owner name with
  | none => .error (.noSignature reference .unregistered)
  | some (.error reason) => .error (.noSignature reference (.failed reason))
  | some (.ok signature) =>
    if Text.AllBlank signature.text.toList then
      .error (.noSignature reference .blankText)
    else
      .ok ⟨.verbatim signature.text, signature.extraTypes⟩

def ofTag (providers : Providers) (site : Site) : OverrideTag → Except Failure Resolution
  | .verbatim text extraTypes =>
    if Text.AllBlank text.toList then
      .error (.blankOverride site.qualifiedName)
    else
      .ok ⟨.verbatim text, extraTypes⟩
  | .methodReference name owner => ofProvider providers (owner.getD site.owner.name) name

/-- The override of a declaration, if it has one. -/
def ofSite (providers : Providers) (site : Site) : Except Failure (Option Resolution) :=
  match site.tags with
  | [] => .ok none
  | [tag] => (ofTag providers site tag).map some
  | _ :: _ :: _ => .error (.ambiguousOverride site.qualifiedName)

/-- Answers for every type of a declaration that has an override. -/
def processor : Processor where
  name := "OverrideResolver"
  process _ ctx _ :=
    match ctx.site with
    | none => pure none
    | some site => MonadExcept.ofExcept (ofSite ctx.host.providers site)

end TypeBridge.Override
