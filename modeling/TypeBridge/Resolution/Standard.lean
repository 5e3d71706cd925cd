import TypeBridge.Resolution.Functional
import TypeBridge.Resolution.Override
import TypeBridge.Resolution.Structural

/-!
# The standard chain

Overrides, then functional interfaces, then structural resolution.
-/

namespace TypeBridge.Chain

def standard (mode : FunctionalMode) : Chain :=
  [Override.processor, Functional.processor mode, Structural.processor]

end TypeBridge.Chain
