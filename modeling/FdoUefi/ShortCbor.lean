import FdoUefi.Cose

/-!
# Skip routines for arguments of at most four bytes

`di/protocol.rs`, `tpm.rs` and `rv_parse.rs` each have a routine of their own that steps over a data item. They read the argument
of every head first, also that of a float, and differ in whether the content of a string is checked against the end of the data
and in what they do after the argument of a float.
-/

namespace FdoUefi

open Prog Prog.Run Cbor

/-- The common skip routine, to a recursion depth: `checked` says that strings are checked, `more` how many further bytes are
stepped over after the argument of a head of major type 7. -/
def skipShort (checked : Bool) (more : Nat → Nat) (d : Bytes) : Nat → Run Nat Unit Unit
  | 0 => hangs
  | fuel + 1 => do
    let b ← next d
    let arg ← cborReadUintArg d (additional b)
    match major b with
    | 0 | 1 => pure ()
    | 2 | 3 => do
      let pos ← getS
      ensure (checked = false ∨ pos + arg ≤ d.length) ()
      advance arg
    | 4 => repeatN arg (skipShort checked more d fuel)
    | 5 => repeatN (arg * 2) (skipShort checked more d fuel)
    | 6 => skipShort checked more d fuel
    | 7 => advance (more (additional b))
    | _ => fail ()

/-- `skip_cbor_value` of `rv_parse.rs`. -/
def Rv.skipCborValueTo (d : Bytes) : Nat → Run Nat Unit Unit := skipShort true (fun _ => 0) d

/-- `skip_cbor_value` of `tpm.rs`: the bytes of a half or a single float are stepped over twice. -/
def Tpm.skipCborValueTo (d : Bytes) : Nat → Run Nat Unit Unit :=
  skipShort true (fun ai => if ai = 25 then 2 else if ai = 26 then 4 else if ai = 27 then 8 else 0) d

/-- `cbor_skip_value` of `di/protocol.rs`: strings are not checked. A map is stepped over pair by pair there. -/
def Di.cborSkipValueTo (d : Bytes) : Nat → Run Nat Unit Unit := skipShort false (fun _ => 0) d

end FdoUefi
