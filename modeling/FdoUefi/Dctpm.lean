import FdoUefi.Cose

/-!
# The DCTPM structure (`dctpm.rs`, `tpm_policy.rs`)

The public device credentials are a CBOR array in an NV index of the TPM, zeros after it. Its item 10, DCMinFirmwareRev, is read
and replaced here without parsing the rest. The recursion of `skip` goes at most one level deeper for each byte it consumes, so
the length of the data bounds it (`Dctpm.skipItem_lands`).
-/

namespace FdoUefi

open Prog Prog.Run Cbor

/-! ## The index (`tpm_policy.rs`) -/

/-- `DCTPM_NV_INDEX` -/
def dctpmNvIndex : Nat := 0x01D10001

/-- `DCTPM_NV_ATTRIBUTES`: OWNERWRITE, AUTHWRITE, OWNERREAD, AUTHREAD, NO_DA, WRITE_STCLEAR. -/
def dctpmNvAttributes : Nat := 0x2 ||| 0x4 ||| 0x20000 ||| 0x40000 ||| 0x2000000 ||| 0x4000

/-- `DCTPM_DEFAULT_SIZE` -/
def dctpmDefaultSize : Nat := 512

/-- The contents of the index: the structure, with zeros up to the default size. -/
def dctpmPadded (s : Bytes) : Bytes := s ++ List.replicate (dctpmDefaultSize - s.length) 0

namespace Dctpm

/-- A run of a reader; `None` in the source is the only failure. -/
abbrev R (α : Type) : Type := Run Nat Unit α

/-! ## CBOR helpers -/

/-- A head: major type and argument. -/
def head (d : Bytes) : R (Nat × Nat) := do
  let b ← next d
  let add := additional b
  if add ≤ 23 then return (major b, add)
  else if add ≤ 27 then
    let bytes ← take d (extLen add)
    return (major b, beNat bytes)
  else fail ()

/-- `skip` to a recursion depth. The number of items of a map wraps. -/
def skip (d : Bytes) : Nat → R Unit
  | 0 => hangs
  | fuel + 1 => do
    let (m, arg) ← head d
    match m with
    | 0 | 1 | 7 => pure ()
    | 2 | 3 => do
      -- `checked_add` fails only where the end of the data is exceeded too
      let pos ← getS
      ensure (pos + arg ≤ d.length) ()
      advance arg
    | 4 => repeatN arg (skip d fuel)
    | 5 => repeatN (arg * 2 % 2 ^ 64) (skip d fuel)
    | 6 => skip d fuel
    | _ => fail ()

/-- Step over one data item. -/
def skipItem (d : Bytes) : R Unit := skip d (d.length + 1)

def encodeHead (m v : Nat) : Bytes := shortHead m v

def encodeUint (v : Nat) : Bytes := encodeHead 0 v

/-! ## DCMinFirmwareRev -/

/-- `MIN_FIRMWARE_REV_ITEM` -/
def minFirmwareRevItem : Nat := 10

/-- `RV_MIN_FIRMWARE_REV` -/
def rvMinFirmwareRevVariable : Nat := 18

/-- The head of a DCTPM array: the number of its items, which is at least ten. -/
def arrayHead (d : Bytes) : R Nat := do
  let (m, n) ← head d
  ensure (m = 4 ∧ 10 ≤ n) ()
  return n

/-- DCMinFirmwareRev; 0 in a structure of ten items. -/
def minFirmwareRev (dctpm : Bytes) : Outcome Unit Nat :=
  (do
    let n ← arrayHead dctpm
    if n ≤ minFirmwareRevItem then return 0
    else
      repeatN minFirmwareRevItem (skipItem dctpm)
      let (m, v) ← head dctpm
      ensure (m = 0) ()
      return v : R Nat).eval

/-- The range of the items after DCMinFirmwareRev in an array of `n`, empty where it is not there. -/
def restRange (dctpm : Bytes) (n : Nat) : R (Nat × Nat) := do
  if minFirmwareRevItem < n then
    skipItem dctpm
    let restStart ← getS
    repeatN (n - (minFirmwareRevItem + 1)) (skipItem dctpm)
    let restEnd ← getS
    return (restStart, restEnd)
  else
    let pos ← getS
    return (pos, pos)

/-- The structure with DCMinFirmwareRev replaced, or appended as item 10; what follows the structure is left out. -/
def withMinFirmwareRev (dctpm : Bytes) (rev : Nat) : Outcome Unit Bytes :=
  (do
    let n ← arrayHead dctpm
    let itemsStart ← getS
    repeatN minFirmwareRevItem (skipItem dctpm)
    let itemsEnd ← getS
    let (restStart, restEnd) ← restRange dctpm n
    let firstTen ← slice dctpm itemsStart itemsEnd
    let rest ← slice dctpm restStart restEnd
    return encodeHead 4 (max n (minFirmwareRevItem + 1)) ++ firstTen ++ encodeUint rev ++ rest : R Bytes).eval

/-! ## RVMinFirmwareRev -/

/-- The value of an RV variable: that of RVMinFirmwareRev raises `best`, any other is stepped over. -/
def scanValue (d : Bytes) (vm var best : Nat) : R Nat := do
  if vm = 0 ∧ var = rvMinFirmwareRevVariable then
    let (bm, blen) ← head d
    let inner ← take d blen
    match bm, (head inner).eval with
    | 2, .ok (0, v) => return max best v
    | _, _ => return best
  else
    skipItem d
    return best

/-- One RV instruction. -/
def scanInstruction (d : Bytes) (best : Nat) : R Nat := do
  let (m, len) ← head d
  ensure (m = 4 ∧ len ≠ 0) ()
  let (vm, var) ← head d
  if len < 2 then return best
  else
    let best' ← scanValue d vm var best
    repeatN (len - 2) (skipItem d)
    return best'

/-- One RV directive. -/
def scanDirective (d : Bytes) (best : Nat) : R Nat := do
  let (m, instrs) ← head d
  ensure (m = 4) ()
  foldN instrs (scanInstruction d) best

def scan (d : Bytes) : R Nat := do
  let (m, dirs) ← head d
  ensure (m = 4) ()
  foldN dirs (scanDirective d) 0

/-- The highest RVMinFirmwareRev of a RendezvousInfo, or 0. -/
def rvMinFirmwareRev (rvInfo : Bytes) : Nat := (scan rvInfo).eval.toOption.getD 0

end Dctpm

end FdoUefi
