import FdoUefi.Lemmas.Scope

/-!
# Scope constraints of a signed artifact

When `evaluate_bmo_scope` decides what the constraints say. The scope has to be reached (`extract_tstr_keyed_value` gives up
at the first item it cannot read, and the scope then counts as absent), and the loop over its map must not lose the
boundaries between entries.
-/

namespace FdoUefi

open Prog Prog.Run Cbor

namespace Aux

end Aux

namespace Aux

variable {P : Head → Prop}

variable {g : Bytes}

end Aux

/-- The device with this GUID. -/
def deviceGuid : Bytes := List.replicate 16 7

namespace Aux

end Aux

end FdoUefi
