import FdoUefi.Di
import FdoUefi.RvParse

/-!
# Firmware delivery (`rv_firmware/mod.rs`, `rv_firmware/anti_rollback.rs`)

Before it onboards, a device may fetch signed firmware from the server its DCTPM names and chain-load it. DCMinFirmwareRev is
what keeps it from going back to an older one.
-/

namespace FdoUefi

open Prog Prog.Run Cbor

/-! ## The counter (`anti_rollback.rs`) -/

/-- DCMinFirmwareRev of the index, 0 where it cannot be read. -/
def readFirmwareRevCounter (D : TpmDevice) : TpmRun Nat := do
  match ← (attempt (tpmNvRead D dctpmNvIndex) : TpmRun (Option Bytes)) with
  | none => return 0
  | some data => return (Dctpm.minFirmwareRev data).toOption.getD 0

/-- Write an updated DCTPM: in place where it fits the index, else to an index that is defined again. -/
def writeUpdated (D : TpmDevice) (data updated : Bytes) : TpmRun Unit :=
  if updated.length ≤ data.length then
    tpmNvWriteInPlace D dctpmNvIndex (updated ++ List.replicate (data.length - updated.length) 0)
  else tpmNvWrite D dctpmNvIndex (dctpmPadded updated) dctpmNvAttributes

/-- Raise DCMinFirmwareRev. `false` in the source is the failure. -/
def updateFirmwareRevCounter (D : TpmDevice) (newRev : Nat) : TpmRun Unit := do
  if newRev = 0 then return ()
  else
    let data ← tpmNvRead D dctpmNvIndex
    let current := (Dctpm.minFirmwareRev data).toOption.getD 0
    if newRev ≤ current then return ()
    else
      let updated ← ofOutcome (Dctpm.withMinFirmwareRev data newRev)
      writeUpdated D data updated

/-- Is the revision at least the minimum of the index and of the rendezvous information? -/
def checkFirmwareRev (D : TpmDevice) (firmwareRev : Nat) (rvMinRev : Option Nat) : TpmRun Bool := do
  let persisted ← readFirmwareRevCounter D
  let effectiveMin := max persisted (rvMinRev.getD 0)
  return effectiveMin = 0 || effectiveMin ≤ firmwareRev

/-! ## Delivery (`mod.rs`) -/

inductive DeliveryResult where
  | chainloaded
  | noUpdate
  | error
  deriving DecidableEq, Repr

/-- What a boot meets: the answers to its requests, and what becomes of a chain-loaded image. `fuel` is the recursion depth
granted to the readers of the firmware file; `di` says that Device Initialization is compiled in. -/
structure Boot where
  fuel : Nat
  di : Bool
  diServer : Nat → Option HttpPostResponse
  get : Bytes → Option Bytes
  chainload : Bytes → Bool

/-- A part of `check_and_deliver`; its error is the result it returns early. -/
abbrev Delivery (α : Type) : Type := Run Machine DeliveryResult α

namespace Delivery

/-- A call to the TPM whose failure the caller handles. -/
def askTpm {α : Type} (m : TpmRun α) : Delivery (Option α) := Di.onTpm (attempt m)

/-- Up to so many attempts at Device Initialization. -/
def diAttempts (Γ : Ctx) (D : TpmDevice) (boot : Boot) : Nat → Delivery Unit
  | 0 => fail .noUpdate
  | n + 1 => do
    match ← (caught (runDiProtocol Γ D boot.diServer none) : Delivery (Except DiFailure Unit)) with
    | .ok _ => return ()
    | .error .notFound => fail .noUpdate
    | .error _ => diAttempts Γ D boot n

/-- Device Initialization on a device without credentials. -/
def diIfBlank (Γ : Ctx) (D : TpmDevice) (boot : Boot) : Delivery Unit := do
  let data ← askTpm (tpmNvRead D dctpmNvIndex)
  match data with
  | some _ => return ()
  | none => diAttempts Γ D boot 3

/-- Steps 1 and 2: the firmware information of the DCTPM and the URL it names. -/
def findFirmware (D : TpmDevice) : Delivery (Rv.RvFirmwareInfo × Bytes) := do
  let data ← askTpm (tpmNvRead D dctpmNvIndex)
  let dctpm ← orFail data .noUpdate
  let info ← ofOutcome ((Rv.parseRvFirmwareInfo dctpm).noneAs .noUpdate)
  let url ← orFail info.firmwareUrl .noUpdate
  return (info, url)

/-- Steps 3 and 4: the file, and the firmware in it. -/
def fetchFirmware (Γ : Ctx) (boot : Boot) (url : Bytes) : Delivery (Fw.FirmwarePayload × Bytes) := do
  let signedData ← orFail (boot.get url) .error
  match (Fw.verifyFirmware Γ boot.fuel signedData Cur.start).1 with
  | .ok (.ok payload image) => return (payload, image)
  | .ok _ => fail .error
  | .err e => nomatch e
  | .panic => panics
  | .hang => hangs

/-- Step 4b: the revision is checked, and becomes the new minimum if that can be written. -/
def checkRollback (D : TpmDevice) (payload : Fw.FirmwarePayload) (info : Rv.RvFirmwareInfo) : Delivery Unit := do
  let accepted ← askTpm (checkFirmwareRev D payload.firmwareRev info.minFirmwareRev)
  ensure (accepted = some true) .error
  onlyIf (0 < payload.firmwareRev) (do
    let _ ← askTpm (updateFirmwareRevCounter D payload.firmwareRev))

/-- Step 5. -/
def chainloadImage (boot : Boot) (payload : Fw.FirmwarePayload) (image : Bytes) : Delivery Unit := do
  modifyS fun s => { s with chainloaded := s.chainloaded ++ [(payload, image)] }
  ensure (boot.chainload image = true) .error

/-- The body of `check_and_deliver`; it comes to its end when an image has been chain-loaded and has returned. -/
def deliver (Γ : Ctx) (D : TpmDevice) (boot : Boot) : Delivery Unit := do
  onlyIf (boot.di = true) (diIfBlank Γ D boot)
  let (info, url) ← findFirmware D
  let (payload, image) ← fetchFirmware Γ boot url
  checkRollback D payload info
  chainloadImage boot payload image

end Delivery

/-- `check_and_deliver` -/
def checkAndDeliver (Γ : Ctx) (D : TpmDevice) (boot : Boot) : Run Machine Empty DeliveryResult := do
  match ← (caught (Delivery.deliver Γ D boot) : Run Machine Empty (Except DeliveryResult Unit)) with
  | .ok _ => return .chainloaded
  | .error result => return result

end FdoUefi
