import FdoUefi.Cose

/-!
# The TPM and the functions that drive it (`tpm.rs`)

A `Tpm` is what the device's TPM holds: keys at handles and data in NV indices. `Tpm.execute` is what the TPM does with a command
that it runs; a command it refuses changes nothing. Whether a command is run, refused, or gets lost with its response on the way
is decided by the `answer` of a `TpmDevice`, for each submission anew, so every sequence of outcomes is one of some device.

Beside what it holds a `Tpm` keeps two records that the code never reads: the changes of persistent keys and indices that have
taken effect, and how many reads and writes of an index have failed. Commands are values here and not bytes; the one size field
the client cuts to 16 bits is part of them.
-/

namespace FdoUefi

open Prog Prog.Run

/-! ## What a TPM holds -/

/-- The key templates of the client. -/
inductive KeyTemplate where
  /-- `build_create_primary_signing_cmd` -/
  | signing
  /-- `build_create_primary_hmac_cmd` -/
  | hmac
  deriving DecidableEq, Repr

/-- A primary key: the template and the seed of the hierarchy determine it. -/
structure TpmKey where
  template : KeyTemplate
  seed : Nat
  deriving DecidableEq, Repr

/-- An NV index. Its size is that of its data and fits in 16 bits. -/
structure NvIndex where
  attributes : Nat
  data : Bytes
  written : Bool
  small : data.length < 2 ^ 16

/-- A change of a persistent key or of an index. -/
inductive TpmEffect where
  | evicted (handle : Nat)
  | persisted (handle : Nat) (key : TpmKey)
  | undefined (index : Nat)
  | defined (index : Nat)
  /-- The data the index holds after a write. -/
  | written (index : Nat) (data : Bytes)
  deriving DecidableEq, Repr

structure Tpm where
  persistent : Nat → Option TpmKey
  transient : Nat → Option TpmKey
  nv : Nat → Option NvIndex
  /-- How many commands have been submitted. -/
  submissions : Nat
  /-- What has taken effect, oldest first. -/
  effects : List TpmEffect
  /-- How many calls that read an index have failed. -/
  failedReads : Nat
  /-- How many calls that write an index have failed. -/
  failedWrites : Nat

/-! ## Commands -/

inductive TpmCommand where
  | flushContext (handle : Nat)
  | createPrimary (template : KeyTemplate)
  | evictControl (object persistent : Nat)
  | hmac (key : Nat) (size : UInt16) (data : Bytes)
  | sign (key : Nat) (digest : Bytes)
  | nvReadPublic (index : Nat)
  | nvRead (index size : Nat)
  | nvUndefineSpace (index : Nat)
  | nvDefineSpace (index : Nat) (size : UInt16) (attributes : Nat)
  | nvWrite (index : Nat) (size : UInt16) (data : Bytes)
  deriving DecidableEq, Repr

/-- The response to a command that succeeded. What the client parses out of it is an option: a response can be cut short. -/
inductive TpmResponse where
  | done
  | created (handle : Nat) (publicPoint : Option (Bytes × Bytes))
  | digest (value : Option Bytes)
  | signature (rs : Option (Bytes × Bytes))
  | size (n : Option Nat)
  | data (value : Option Bytes)
  deriving DecidableEq, Repr

/-- The same response with everything behind its handle cut off. -/
def TpmResponse.garbled : TpmResponse → TpmResponse
  | .done => .done
  | .created handle _ => .created handle none
  | .digest _ => .digest none
  | .signature _ => .signature none
  | .size _ => .size none
  | .data _ => .data none

/-- What becomes of a submitted command. -/
inductive Answer where
  /-- The TPM runs it. -/
  | run
  /-- The TPM runs it and the response cannot be parsed. -/
  | garbled
  /-- The TPM refuses it with a response code. -/
  | refused (rc : Nat) (h : rc ≠ 0)
  /-- The submission fails; the TPM has run the command or not. -/
  | lost (ran : Bool)
  deriving DecidableEq, Repr

/-- A TPM with the way to it. Submissions are counted from the first one on. -/
structure TpmDevice where
  /-- The seed of the owner hierarchy. -/
  seed : Nat
  publicPoint : TpmKey → Bytes × Bytes
  hmac : TpmKey → Bytes → Bytes
  /-- An ECDSA signature, another one each time. -/
  sign : Nat → TpmKey → Bytes → Bytes × Bytes
  /-- The handle a new transient object gets. -/
  handle : Nat → Nat
  answer : Nat → Answer

def rcRetry : Nat := 0x922
def rcNvDefined : Nat := 0x14c
def rcNvUninitialized : Nat := 0x14a
def rcNvRange : Nat := 0x146
def rcObjectMemory : Nat := 0x902
def rcHandle : Nat := 0x18b
def rcSize : Nat := 0x95
def rcType : Nat := 0x8a

/-- A handle of a transient object. -/
def isTransient (handle : Nat) : Bool := 0x80000000 ≤ handle && handle < 0x81000000

namespace Tpm

/-- The key at a handle. -/
def key (t : Tpm) (handle : Nat) : Option TpmKey := if isTransient handle then t.transient handle else t.persistent handle

def setTransient (t : Tpm) (handle : Nat) (k : Option TpmKey) : Tpm :=
  { t with transient := Function.update t.transient handle k }

def evict (t : Tpm) (handle : Nat) : Tpm :=
  { t with persistent := Function.update t.persistent handle none, effects := t.effects ++ [.evicted handle] }

def persist (t : Tpm) (handle : Nat) (k : TpmKey) : Tpm :=
  { t with persistent := Function.update t.persistent handle (some k), effects := t.effects ++ [.persisted handle k] }

def undefine (t : Tpm) (index : Nat) : Tpm :=
  { t with nv := Function.update t.nv index none, effects := t.effects ++ [.undefined index] }

def define (t : Tpm) (index : Nat) (i : NvIndex) : Tpm :=
  { t with nv := Function.update t.nv index (some i), effects := t.effects ++ [.defined index] }

def write (t : Tpm) (index : Nat) (i : NvIndex) : Tpm :=
  { t with nv := Function.update t.nv index (some i), effects := t.effects ++ [.written index i.data] }

end Tpm

/-- An index that has been defined and not written. -/
def NvIndex.blank (size : UInt16) (attributes : Nat) : NvIndex where
  attributes := attributes
  data := List.replicate size.toNat 0xff
  written := false
  small := by
    rw [List.length_replicate]
    exact size.toNat_lt

/-- An index with data written over its start. -/
def NvIndex.overwritten (i : NvIndex) (data : Bytes) (h : data.length ≤ i.data.length) : NvIndex where
  attributes := i.attributes
  data := data ++ i.data.drop data.length
  written := true
  small := by
    have hi := i.small
    rw [List.length_append, List.length_drop]
    omega

/-- What the TPM does with a command it runs: a response or a response code. -/
def Tpm.execute (D : TpmDevice) (t : Tpm) : TpmCommand → Except Nat TpmResponse × Tpm
  | .flushContext handle =>
    if (t.transient handle).isSome then (.ok .done, t.setTransient handle none) else (.error rcHandle, t)
  | .createPrimary template =>
    let handle := D.handle t.submissions
    let k : TpmKey := ⟨template, D.seed⟩
    if isTransient handle ∧ t.transient handle = none then
      (.ok (.created handle (some (D.publicPoint k))), t.setTransient handle (some k))
    else (.error rcObjectMemory, t)
  | .evictControl object persistent =>
    if object = persistent then
      if (t.persistent persistent).isSome then (.ok .done, t.evict persistent) else (.error rcHandle, t)
    else
      match t.transient object, t.persistent persistent with
      | none, _ => (.error rcHandle, t)
      | some _, some _ => (.error rcNvDefined, t)
      | some k, none => (.ok .done, t.persist persistent k)
  | .hmac handle size data =>
    match t.key handle with
    | none => (.error rcHandle, t)
    | some k =>
      if k.template ≠ .hmac then (.error rcType, t)
      else if size.toNat ≠ data.length then (.error rcSize, t)
      else (.ok (.digest (some (D.hmac k data))), t)
  | .sign handle digest =>
    match t.key handle with
    | none => (.error rcHandle, t)
    | some k =>
      if k.template ≠ .signing then (.error rcType, t)
      else (.ok (.signature (some (D.sign t.submissions k digest))), t)
  | .nvReadPublic index =>
    match t.nv index with
    | none => (.error rcHandle, t)
    | some i => (.ok (.size (some i.data.length)), t)
  | .nvRead index size =>
    match t.nv index with
    | none => (.error rcHandle, t)
    | some i =>
      if i.written = false then (.error rcNvUninitialized, t)
      else if i.data.length < size then (.error rcNvRange, t)
      else (.ok (.data (some (i.data.take size))), t)
  | .nvUndefineSpace index =>
    if (t.nv index).isSome then (.ok .done, t.undefine index) else (.error rcHandle, t)
  | .nvDefineSpace index size attributes =>
    if (t.nv index).isSome then (.error rcNvDefined, t)
    else (.ok .done, t.define index (NvIndex.blank size attributes))
  | .nvWrite index size data =>
    match t.nv index with
    | none => (.error rcHandle, t)
    | some i =>
      if size.toNat ≠ data.length then (.error rcSize, t)
      else if h : data.length ≤ i.data.length then (.ok .done, t.write index (i.overwritten data h))
      else (.error rcNvRange, t)

/-! ## Submitting a command -/

/-- What `submit_command` gives the client. -/
inductive Submitted where
  | failed
  | rc (code : Nat)
  | response (r : TpmResponse)
  deriving DecidableEq, Repr

/-- A function that drives the TPM; `None` in the source is its only failure. -/
abbrev TpmRun (α : Type) : Type := Run Tpm Unit α

def Submitted.ofResult : Except Nat TpmResponse → Submitted
  | .ok r => .response r
  | .error code => .rc code

/-- `Tcg::submit_command` -/
def submitCommand {ε : Type} (D : TpmDevice) (cmd : TpmCommand) : Run Tpm ε Submitted where
  run t :=
    let ran := t.execute D cmd
    let counted (u : Tpm) : Tpm := { u with submissions := t.submissions + 1 }
    match D.answer t.submissions with
    | .run => (.ok (.ofResult ran.1), counted ran.2)
    | .garbled => (.ok (.ofResult (ran.1.map TpmResponse.garbled)), counted ran.2)
    | .refused rc _ => (.ok (.rc rc), counted t)
    | .lost true => (.ok .failed, counted ran.2)
    | .lost false => (.ok .failed, counted t)

/-- Open the TCG2 protocol. -/
def openTcg (D : TpmDevice) : TpmRun Unit where
  run t := (if D.answer t.submissions = .run then .ok () else .err (), { t with submissions := t.submissions + 1 })

def tpmRetryMax : Nat := 5

/-- The loop of `tpm_submit_with_retry`. -/
def submitLoop (D : TpmDevice) (cmd : TpmCommand) : Nat → Run Tpm Nat TpmResponse
  | 0 => fail 0xFFFFFFFF
  | n + 1 => do
    match ← submitCommand D cmd with
    | .failed => submitLoop D cmd n
    | .rc code => if code = rcRetry then submitLoop D cmd n else fail code
    | .response r => return r

/-- `tpm_submit_with_retry`: the response, or a response code. -/
def tpmSubmitWithRetry (D : TpmDevice) (cmd : TpmCommand) : Run Tpm Nat TpmResponse := submitLoop D cmd tpmRetryMax

/-- A command whose failure makes the caller return `None`. -/
def tpmSubmit (D : TpmDevice) (cmd : TpmCommand) : TpmRun TpmResponse := mapErr (fun _ => ()) (tpmSubmitWithRetry D cmd)

/-- A command submitted once, whatever becomes of it. -/
def bestEffort (D : TpmDevice) (cmd : TpmCommand) : TpmRun Unit := do
  let _ ← submitCommand D cmd

/-! ## Responses -/

/-- `parse_create_primary_response` -/
def TpmResponse.primaryKey? : TpmResponse → Option (Nat × Bytes × Bytes)
  | .created handle (some (x, y)) => some (handle, x, y)
  | _ => none

/-- The handle of a response to TPM2_CreatePrimary. -/
def TpmResponse.handle? : TpmResponse → Option Nat
  | .created handle _ => some handle
  | _ => none

/-- `parse_hmac_response` -/
def TpmResponse.digest? : TpmResponse → Option Bytes
  | .digest value => value
  | _ => none

/-- `parse_sign_response` -/
def TpmResponse.signature? : TpmResponse → Option (Bytes × Bytes)
  | .signature rs => rs
  | _ => none

/-- `parse_nv_read_public_response` -/
def TpmResponse.size? : TpmResponse → Option Nat
  | .size n => n
  | _ => none

/-- `parse_nv_read_response` -/
def TpmResponse.data? : TpmResponse → Option Bytes
  | .data value => value
  | _ => none

/-! ## Keys -/

/-- Flush each of some handles. -/
def flushEach (D : TpmDevice) : List Nat → TpmRun Unit
  | [] => return ()
  | handle :: handles => do
    bestEffort D (.flushContext handle)
    flushEach D handles

def tpmFlushAllTransient (D : TpmDevice) : TpmRun Unit :=
  ignored (do
    openTcg D
    flushEach D ((List.range 16).map (0x80000000 + ·)) : TpmRun Unit)

def tpmFlushContext (D : TpmDevice) (handle : Nat) : TpmRun Unit :=
  ignored (do
    openTcg D
    bestEffort D (.flushContext handle) : TpmRun Unit)

structure TpmSigningKey where
  handle : Nat
  publicX : Bytes
  publicY : Bytes
  deriving DecidableEq, Repr

/-- Make a transient key persistent. A failure flushes it and is reported. -/
def persistOrFlush (D : TpmDevice) (handle persistentHandle : Nat) : TpmRun Unit := do
  match ← (attempt (tpmSubmit D (.evictControl handle persistentHandle)) : TpmRun (Option TpmResponse)) with
  | some _ => return ()
  | none =>
    bestEffort D (.flushContext handle)
    fail ()

/-- Create the signing key and make it persistent; what stood at the handle is evicted first. -/
def tpmCreateAndPersistSigningKey (D : TpmDevice) (persistentHandle : Nat) : TpmRun TpmSigningKey := do
  openTcg D
  bestEffort D (.evictControl persistentHandle persistentHandle)
  let response ← tpmSubmit D (.createPrimary .signing)
  let (handle, x, y) ← orFail response.primaryKey? ()
  persistOrFlush D handle persistentHandle
  return { handle := persistentHandle, publicX := x, publicY := y }

/-- The HMAC of some data under a transient key, which is flushed on a failure. -/
def hmacOrFlush (D : TpmDevice) (handle : Nat) (data : Bytes) : TpmRun Bytes := do
  match ← (attempt (do
      let response ← tpmSubmit D (.hmac handle data.length.toUInt16 data)
      orFail response.digest? ()) : TpmRun (Option Bytes)) with
  | some value => return value
  | none =>
    bestEffort D (.flushContext handle)
    fail ()

/-- Create the HMAC key, compute an HMAC with it and make it persistent; what stood at the handle is evicted first. That it
could not be made persistent is not reported. -/
def tpmCreateHmacAndPersist (D : TpmDevice) (data : Bytes) (persistentHandle : Nat) : TpmRun (Nat × Bytes) := do
  openTcg D
  bestEffort D (.evictControl persistentHandle persistentHandle)
  let response ← tpmSubmit D (.createPrimary .hmac)
  let handle ← orFail response.handle? ()
  let value ← hmacOrFlush D handle data
  ignored (persistOrFlush D handle persistentHandle)
  return (persistentHandle, value)

/-- A number of at most 32 bytes in 32 bytes, the last ones of a longer one. -/
def padTo32 (bs : Bytes) : Bytes := List.replicate (32 - min bs.length 32) 0 ++ bs.drop (bs.length - 32)

/-- The signature `r || s` of a digest. -/
def tpmSignEcdsa (D : TpmDevice) (handle : Nat) (digest : Bytes) : TpmRun Bytes := do
  openTcg D
  let response ← tpmSubmit D (.sign handle digest)
  let (r, s) ← orFail response.signature? ()
  return padTo32 r ++ padTo32 s

/-! ## Signatures with a low `s` -/

/-- `P256_ORDER` -/
def p256Order : Bytes :=
  [0xFF, 0xFF, 0xFF, 0xFF, 0x00, 0x00, 0x00, 0x00,
    0xFF, 0xFF, 0xFF, 0xFF, 0xFF, 0xFF, 0xFF, 0xFF,
    0xBC, 0xE6, 0xFA, 0xAD, 0xA7, 0x17, 0x9E, 0x84,
    0xF3, 0xB9, 0xCA, 0xC2, 0xFC, 0x63, 0x25, 0x51]

/-- `P256_HALF_ORDER` -/
def p256HalfOrder : Bytes :=
  [0x7F, 0xFF, 0xFF, 0xFF, 0x80, 0x00, 0x00, 0x00,
    0x7F, 0xFF, 0xFF, 0xFF, 0xFF, 0xFF, 0xFF, 0xFF,
    0xDE, 0x73, 0x7D, 0x56, 0xD3, 0x8B, 0xCF, 0x42,
    0x79, 0xDC, 0xE5, 0x61, 0x7E, 0x31, 0x92, 0xA8]

/-- The first bytes that differ decide. Both arrays have 32 bytes. -/
def compareBytes : Bytes → Bytes → Ordering
  | a :: as, b :: bs =>
    match compare a b with
    | .eq => compareBytes as bs
    | other => other
  | _, _ => .eq

/-- One byte of a difference and the borrow it leaves, on 16 bits that wrap. -/
def subtractByte (a b : UInt8) (borrow : UInt16) : UInt8 × UInt16 :=
  let diff := a.toUInt16 - b.toUInt16 - borrow
  (diff.toUInt8, if diff > 0xFF then 1 else 0)

/-- The loop of `subtract_bytes`, from the last bytes to the first. -/
def subtractLoop : Bytes → Bytes → Bytes × UInt16
  | a :: as, b :: bs =>
    let (result, borrow) := subtractLoop as bs
    let (diff, borrow') := subtractByte a b borrow
    (diff :: result, borrow')
  | _, _ => ([], 0)

def subtractBytes (a b : Bytes) : Bytes := (subtractLoop a b).1

/-- An `s` above half of the order is replaced by the order without it. -/
def lowS (s : Bytes) : Bytes := if compareBytes s p256HalfOrder = .gt then subtractBytes p256Order s else s

/-- The signature `r || s` of a digest, with a low `s`. -/
def Tpm.tpmSignWithPersistent (D : TpmDevice) (persistentHandle : Nat) (digest : Bytes) : TpmRun Bytes := do
  openTcg D
  let response ← tpmSubmit D (.sign persistentHandle digest)
  let (r, s) ← orFail response.signature? ()
  return padTo32 r ++ lowS (padTo32 s)

/-! ## NV indices -/

/-- A call whose failure is recorded. -/
def recorded {α : Type} (note : Tpm → Tpm) (m : TpmRun α) : TpmRun α where
  run t := match m t with
    | (.ok a, u) => (.ok a, u)
    | (.err e, u) => (.err e, note u)
    | (.panic, u) => (.panic, u)
    | (.hang, u) => (.hang, u)

def Tpm.noteFailedRead (t : Tpm) : Tpm := { t with failedReads := t.failedReads + 1 }

def Tpm.noteFailedWrite (t : Tpm) : Tpm := { t with failedWrites := t.failedWrites + 1 }

/-- Ask for the size of an index and read that much. -/
def readSpace (D : TpmDevice) (index : Nat) : TpmRun Bytes := do
  openTcg D
  let response ← tpmSubmit D (.nvReadPublic index)
  let size ← orFail response.size? ()
  let response' ← tpmSubmit D (.nvRead index size)
  orFail response'.data? ()

/-- The data of an index. -/
def tpmNvRead (D : TpmDevice) (index : Nat) : TpmRun Bytes := recorded Tpm.noteFailedRead (readSpace D index)

/-- Define an index; that it is already defined is accepted. -/
def defineSpace (D : TpmDevice) (index : Nat) (size : UInt16) (attributes : Nat) : TpmRun Unit := do
  match ← (caught (tpmSubmitWithRetry D (.nvDefineSpace index size attributes)) : TpmRun (Except Nat TpmResponse)) with
  | .ok _ => return ()
  | .error code => ensure (code = rcNvDefined) ()

/-- Write data to the start of an index. -/
def writeSpace (D : TpmDevice) (index : Nat) (data : Bytes) : TpmRun Unit := do
  let _ ← tpmSubmit D (.nvWrite index data.length.toUInt16 data)

/-- Define an index of the size of the data and write them; what was defined before is undefined first. -/
def redefine (D : TpmDevice) (index : Nat) (data : Bytes) (attributes : Nat) : TpmRun Unit := do
  openTcg D
  bestEffort D (.nvUndefineSpace index)
  defineSpace D index data.length.toUInt16 attributes
  writeSpace D index data

def tpmNvWrite (D : TpmDevice) (index : Nat) (data : Bytes) (attributes : Nat) : TpmRun Unit :=
  recorded Tpm.noteFailedWrite (redefine D index data attributes)

/-- Write data to the start of an index that exists. -/
def tpmNvWriteInPlace (D : TpmDevice) (index : Nat) (data : Bytes) : TpmRun Unit :=
  recorded Tpm.noteFailedWrite (do
    openTcg D
    writeSpace D index data)

end FdoUefi
