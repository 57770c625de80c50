import FdoUefi.Lib.Cursor
import FdoUefi.Lib.Bytes

/-!
# Starting an image (`chainload.rs`)

What `chainload_image` checks of an image before the firmware sees it. The PE offset is a 32-bit number, so no sum with it
wraps; the one product the checks form is of 32 bits, and the state of the run notes when it has wrapped, which the code never
reads.
-/

namespace FdoUefi

open Prog Prog.Run

/-- The firmware status of a refused image. -/
inductive Status where
  | loadError
  deriving DecidableEq, Repr

/-- A number, least significant byte first. -/
def leNat : Bytes → Nat
  | [] => 0
  | b :: bs => b.toNat + 256 * leNat bs

/-- `u32::from_le_bytes` of the four bytes at `off`, each indexed on its own. -/
def leU32At {ε : Type} (data : Bytes) (off : Nat) : Outcome ε Nat := do
  let b0 ← Outcome.index data off
  let b1 ← Outcome.index data (off + 1)
  let b2 ← Outcome.index data (off + 2)
  let b3 ← Outcome.index data (off + 3)
  return leNat [b0, b1, b2, b3]

/-- The bytes at `off` are these, compared from the first up to one that differs. -/
def bytesAt {ε : Type} (data : Bytes) : Nat → Bytes → Outcome ε Bool
  | _, [] => return true
  | off, b :: bs => do
    let x ← Outcome.index data off
    if x ≠ b then return false else bytesAt data (off + 1) bs

/-- `a * b` of 32-bit numbers. -/
def mulU32 {ε : Type} (a b : Nat) : Run Bool ε Nat := ⟨fun wrapped => (.ok (a * b % 2 ^ 32), wrapped || 2 ^ 32 ≤ a * b)⟩

/-- "MZ" -/
def mzMagic : Bytes := [0x4d, 0x5a]

/-- "PE", then two zero bytes. -/
def peSignature : Bytes := [0x50, 0x45, 0, 0]

def validateEfiImage {ε : Type} (imageData : Bytes) : Outcome ε Bool :=
  if imageData.length < 64 then return false
  else do
    if (← bytesAt imageData 0 mzMagic) = false then return false
    else
      let peOffset ← leU32At imageData 0x3c
      if imageData.length < peOffset + 4 then return false
      else bytesAt imageData peOffset peSignature

/-- The bytes of the image that are logged. -/
def logImage (imageData : Bytes) : Run Bool Status Unit := do
  let _ ← slice imageData 0 16
  let mid := imageData.length / 2
  let _ ← slice imageData mid (min (mid + 16) imageData.length)
  let _ ← slice imageData (imageData.length - 16) imageData.length
  return ()

/-- `chainload_image` up to the call of LoadImage. -/
def chainloadChecks (imageData : Bytes) : Run Bool Status Unit := do
  let valid ← ofOutcome (validateEfiImage imageData)
  ensure (valid = true) .loadError
  let peOff ← ofOutcome (leU32At imageData 0x3c)
  ensure (peOff + 56 ≤ imageData.length) .loadError
  let entry ← ofOutcome (leU32At imageData (peOff + 40))
  -- The image base, which is logged.
  let _ ← ofOutcome (leU32At imageData (peOff + 48))
  let _ ← ofOutcome (leU32At imageData (peOff + 52))
  let sizeOfImage ← (if peOff + 80 ≤ imageData.length then ofOutcome (leU32At imageData (peOff + 80)) else pure 0)
  logImage imageData
  ensure (entry ≠ 0) .loadError
  ensure (¬(0 < sizeOfImage ∧ sizeOfImage ≤ entry)) .loadError
  onlyIf (0 < sizeOfImage) do
    let limit ← mulU32 sizeOfImage 2
    ensure (¬limit < imageData.length % 2 ^ 32) .loadError

end FdoUefi
