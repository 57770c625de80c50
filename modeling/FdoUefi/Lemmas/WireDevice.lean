import FdoUefi.Lemmas.TpmLayout
import FdoUefi.Lib.Simulate

/-!
# A TPM behind the TCG2 protocol

`WireDevice.tcg` takes the bytes of a command apart with `commandLayout`, lets the TPM run what it found, and lays the response out
as TPM 2.0 does. What the TPM does with a command is `Tpm.execute`, so a device of bytes and a device of values are compared over
the same TPM.
-/

namespace FdoUefi

open Prog Prog.Run Marshal

/-! ## What a TPM makes of a command -/

/-- The public area of the key of a template, with what is unique to the key. -/
def KeyTemplate.area : KeyTemplate → Bytes → Bytes → PublicArea
  | .signing, x, y => .ecc fdoKeyAttributes.toUInt32 deviceKeyAuthPolicySha256 (.ecdsa 0x000B) x y
  | .hmac, x, _ => .keyedHash fdoKeyAttributes.toUInt32 [] x

/-- The command of the TPM, when it is one that this TPM runs. -/
def WireCommand.command? : WireCommand → Option TpmCommand
  | .nvReadPublic index => some (.nvReadPublic index.toNat)
  | .nvRead index size offset => if offset = 0 then some (.nvRead index.toNat size.toNat) else none
  | .createPrimary area =>
    if area = KeyTemplate.area .signing [] [] then some (.createPrimary .signing)
    else if area = KeyTemplate.area .hmac [] [] then some (.createPrimary .hmac)
    else none
  | .flushContext handle => some (.flushContext handle.toNat)
  | .sign key digest => some (.sign key.toNat digest)
  | .hmac key data => some (.hmac key.toNat data.length.toUInt16 data)
  | .evictControl object persistent => some (.evictControl object.toNat persistent.toNat)
  | .nvUndefineSpace index => some (.nvUndefineSpace index.toNat)
  | .nvDefineSpace index attributes size => some (.nvDefineSpace index.toNat size attributes.toNat)
  | .nvWrite index data => some (.nvWrite index.toNat data.length.toUInt16 data)
  | .ecdhZgen .. | .getRandom .. | .readPublic .. => none

/-- The command that some bytes are. -/
def readCommand (cmd : Bytes) : Option TpmCommand := (commandLayout.whole cmd).bind WireCommand.command?

/-! ## Responses -/

/-- A response of a response code with a body. -/
def reply (tag rc : Nat) (body : Bytes) : Bytes := beBytes 2 tag ++ beBytes 4 (10 + body.length) ++ beBytes 4 rc ++ body

/-- What stands behind the code of a successful response: a handle, and parameters behind their size and before a session. -/
def withSession (handle params : Bytes) : Bytes := handle ++ beBytes 4 params.length ++ params ++ [0, 0, 1, 0, 0]

/-- A TPM and the bytes of its responses that the client never looks at. -/
structure WireDevice extends TpmDevice where
  /-- What follows the public area of a new key or of an index. -/
  details : Nat → Bytes
  details_le : ∀ n, (details n).length ≤ 256
  handle_lt : ∀ n, handle n < 2 ^ 32
  publicPoint_le : ∀ k x y, publicPoint k = (x, y) → x.length ≤ 32 ∧ y.length ≤ 32
  hmac_le : ∀ k data, (hmac k data).length ≤ 32
  sign_le : ∀ n k digest r s, sign n k digest = (r, s) → r.length ≤ 32 ∧ s.length ≤ 32
  /-- A response is never cut short. -/
  answer_ne_garbled : ∀ n, answer n ≠ .garbled
  answer_refused_lt : ∀ n rc h, answer n = .refused rc h → rc < 2 ^ 32

namespace WireDevice

/-- `TPMS_NV_PUBLIC` of an index. -/
def nvPublic (t : Tpm) (index size : Nat) : Bytes :=
  beBytes 4 index ++ [0x00, 0x0B] ++ beBytes 4 ((t.nv index).elim 0 NvIndex.attributes) ++ [0, 0] ++ beBytes 2 size

/-- The bytes of a successful response to a command. -/
def respond (W : WireDevice) (t : Tpm) : TpmCommand → TpmResponse → Bytes
  | .createPrimary template, .created handle (some (x, y)) =>
    reply 0x8002 0 (withSession (beBytes 4 handle)
      ((within 2 0 publicLayout).write (template.area x y) ++ W.details t.submissions))
  | .hmac .., .digest (some value) => reply 0x8002 0 (withSession [] ((sized 2).write value))
  | .sign .., .signature (some (r, s)) =>
    reply 0x8002 0 (withSession [] ([0x00, 0x18, 0x00, 0x0B] ++ (sized 2).write r ++ (sized 2).write s))
  | .nvReadPublic index, .size (some n) => reply 0x8001 0 ((sized 2).write (nvPublic t index n) ++ W.details t.submissions)
  | .nvRead .., .data (some value) => reply 0x8002 0 (withSession [] ((sized 2).write value))
  | .flushContext _, _ => reply 0x8001 0 []
  | _, _ => reply 0x8002 0 (withSession [] [])

/-- What the TPM does with the bytes of a command; bytes that are no command are refused. -/
def executeBytes (W : WireDevice) (t : Tpm) (cmd : Bytes) : Bytes × Tpm :=
  match readCommand cmd with
  | none => (reply 0x8001 rcSize [], t)
  | some c =>
    match t.execute W.toTpmDevice c with
    | (.ok r, u) => (W.respond t c r, u)
    | (.error code, u) => (reply 0x8001 code [], u)

/-- A response in a buffer of zeros, or nothing when the buffer is too small. -/
def buffer (respSize : Nat) (response : Bytes) : Option Bytes :=
  if response.length ≤ respSize then some (response ++ List.replicate (respSize - response.length) 0) else none

def submit (W : WireDevice) (cmd : Bytes) (respSize : Nat) (t : Tpm) : Option Bytes × Tpm :=
  let ran := W.executeBytes t cmd
  let counted (u : Tpm) : Tpm := { u with submissions := t.submissions + 1 }
  match W.answer t.submissions with
  | .run | .garbled => (buffer respSize ran.1, counted ran.2)
  | .refused rc _ => (buffer respSize (reply 0x8001 rc []), counted t)
  | .lost true => (none, counted ran.2)
  | .lost false => (none, counted t)

/-- A buffer has the length that was asked for. -/
theorem buffer_length {respSize : Nat} {response b : Bytes} (h : buffer respSize response = some b) : b.length = respSize := by
  unfold buffer at h
  split at h
  next hle =>
    cases h
    rw [List.length_append, List.length_replicate]
    omega
  next => cases h

/-- The TCG2 protocol in front of the TPM. -/
def tcg (W : WireDevice) : Tcg Tpm where
  opens t := (decide (W.answer t.submissions = .run), { t with submissions := t.submissions + 1 })
  submit := W.submit
  submit_length cmd respSize t response h := by
    unfold submit at h
    dsimp only at h
    split at h
    · exact buffer_length h
    · exact buffer_length h
    · exact buffer_length h
    · cases h
    · cases h

end WireDevice

end FdoUefi
