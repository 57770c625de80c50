import FdoUefi.Tpm

/-!
# TPM commands and responses as bytes (`tpm.rs`)

The commands the client builds, what it parses out of the responses, and its functions over the TCG2 protocol of the firmware. A
`Tcg` is that protocol: it may do anything with the bytes of a command, so each function is run against every firmware and every
TPM. The functions that are in `Tpm` over values stand here over bytes.
-/

namespace FdoUefi

open Prog Prog.Run

/-! ## Constants -/

def tpm2CcNvRead : Nat := 0x14E
def tpm2CcNvReadPublic : Nat := 0x169
def tpm2CcCreatePrimary : Nat := 0x131
def tpm2CcEcdhZgen : Nat := 0x154
def tpm2CcFlushContext : Nat := 0x165
def tpm2CcSign : Nat := 0x15D
def tpm2CcGetRandom : Nat := 0x17B
def tpm2CcReadPublic : Nat := 0x173
def tpm2CcEvictControl : Nat := 0x120
def tpm2CcNvUndefineSpace : Nat := 0x122
def tpm2CcNvDefineSpace : Nat := 0x12A
def tpm2CcNvWrite : Nat := 0x137
def tpm2CcHmac : Nat := 0x155

def tpm2RsPw : Nat := 0x40000009
def tpm2RhOwner : Nat := 0x40000001
/-- `TPM_RH_NULL` -/
def tpm2RhNull : Nat := 0x40000007
def tpm2StNoSessions : Nat := 0x8001
def tpm2StSessions : Nat := 0x8002
/-- `TPM_ST_HASHCHECK` -/
def tpm2StHashcheck : Nat := 0x8024

def tpm2AlgSha256 : Nat := 0x000B
def tpm2AlgNull : Nat := 0x0010
def tpm2AlgEcc : Nat := 0x0023
def tpm2AlgEcdh : Nat := 0x0019
def tpm2AlgEcdsa : Nat := 0x0018
def tpm2AlgKeyedhash : Nat := 0x0008
/-- `TPM2_ALG_HMAC_ALG` -/
def tpm2AlgHmac : Nat := 0x0005
def tpm2EccNistP256 : Nat := 0x0003

/-- `FDO_KEY_ATTRIBUTES` -/
def fdoKeyAttributes : Nat :=
  0x00000002 ||| 0x00000010 ||| 0x00000020 ||| 0x00000040 ||| 0x00000080 ||| 0x00000400 ||| 0x00040000

/-- The attributes of the ECDH key. -/
def ecdhKeyAttributes : Nat := 0x00020472

/-- `DEVICE_KEY_AUTH_POLICY_SHA256` -/
def deviceKeyAuthPolicySha256 : Bytes :=
  [0x04, 0x8e, 0x9a, 0x3a, 0xce, 0x08, 0x58, 0x3f, 0x79, 0xf3, 0x44, 0xff, 0x78, 0x5b, 0xbe, 0xa9,
    0xf0, 0x7a, 0xc7, 0xfa, 0x33, 0x25, 0xb3, 0xd4, 0x9a, 0x21, 0xdd, 0x51, 0x94, 0xc6, 0x58, 0x50]

/-! ## Building commands -/

/-- `pack_u16`: the low 16 bits. -/
def packU16 (n : Nat) : Bytes := beBytes 2 n

/-- `pack_u32` -/
def packU32 (n : Nat) : Bytes := beBytes 4 n

/-- A command with its header; the size is that of the whole command and is filled in last. -/
def finishCmd (tag code : Nat) (body : Bytes) : Bytes := packU16 tag ++ packU32 (10 + body.length) ++ packU32 code ++ body

/-- Bytes behind their length, which is cut to 16 bits. -/
def sizedU16 (u : Bytes) : Bytes := packU16 u.length ++ u

/-- A password session with an empty password, behind the size of the area. -/
def authArea : Bytes :=
  let area := packU32 tpm2RsPw ++ [0, 0] ++ [0] ++ [0, 0]
  packU32 area.length ++ area

def buildNvReadPublicCmd (nvIndex : Nat) : Bytes := finishCmd tpm2StNoSessions tpm2CcNvReadPublic (packU32 nvIndex)

def buildNvReadCmd (nvIndex size offset : Nat) : Bytes :=
  finishCmd tpm2StSessions tpm2CcNvRead (packU32 tpm2RhOwner ++ packU32 nvIndex ++ authArea ++ packU16 size ++ packU16 offset)

/-- The command that creates a primary key of the owner hierarchy from a public area, with nothing sensitive, no outside
information and no PCR. -/
def buildCreatePrimaryCmd (inPublic : Bytes) : Bytes :=
  finishCmd tpm2StSessions tpm2CcCreatePrimary
    (packU32 tpm2RhOwner ++ authArea ++ ([0, 4] ++ [0, 0] ++ [0, 0]) ++ sizedU16 inPublic ++ [0, 0] ++ [0, 0, 0, 0])

/-- The public area of a P-256 key without a point. -/
def eccPublic (attributes : Nat) (authPolicy : Bytes) (scheme : Nat) : Bytes :=
  packU16 tpm2AlgEcc ++ packU16 tpm2AlgSha256 ++ packU32 attributes ++ sizedU16 authPolicy ++ packU16 tpm2AlgNull ++
    packU16 scheme ++ packU16 tpm2AlgSha256 ++ packU16 tpm2EccNistP256 ++ packU16 tpm2AlgNull ++ [0, 0] ++ [0, 0]

def buildCreatePrimaryEcdhCmd : Bytes := buildCreatePrimaryCmd (eccPublic ecdhKeyAttributes [] tpm2AlgEcdh)

def buildCreatePrimarySigningCmd : Bytes :=
  buildCreatePrimaryCmd (eccPublic fdoKeyAttributes deviceKeyAuthPolicySha256 tpm2AlgEcdsa)

def buildCreatePrimaryHmacCmd : Bytes :=
  buildCreatePrimaryCmd (packU16 tpm2AlgKeyedhash ++ packU16 tpm2AlgSha256 ++ packU32 fdoKeyAttributes ++ [0, 0] ++
    packU16 tpm2AlgHmac ++ packU16 tpm2AlgSha256 ++ [0, 0])

def buildEcdhZgenCmd (keyHandle : Nat) (peerX peerY : Bytes) : Bytes :=
  finishCmd tpm2StSessions tpm2CcEcdhZgen
    (packU32 keyHandle ++ authArea ++ packU16 (2 + peerX.length + 2 + peerY.length) ++ sizedU16 peerX ++ sizedU16 peerY)

def buildFlushContextCmd (handle : Nat) : Bytes := finishCmd tpm2StNoSessions tpm2CcFlushContext (packU32 handle)

def buildSignCmd (keyHandle : Nat) (digest : Bytes) : Bytes :=
  finishCmd tpm2StSessions tpm2CcSign
    (packU32 keyHandle ++ authArea ++ sizedU16 digest ++ (packU16 tpm2AlgEcdsa ++ packU16 tpm2AlgSha256) ++
      (packU16 tpm2StHashcheck ++ packU32 tpm2RhNull ++ [0, 0]))

def buildGetRandomCmd (bytesRequested : Nat) : Bytes := finishCmd tpm2StNoSessions tpm2CcGetRandom (packU16 bytesRequested)

/-- The command of `tpm_read_public`. -/
def buildReadPublicCmd (handle : Nat) : Bytes := finishCmd tpm2StNoSessions tpm2CcReadPublic (packU32 handle)

def buildHmacCmd (keyHandle : Nat) (data : Bytes) : Bytes :=
  finishCmd tpm2StSessions tpm2CcHmac (packU32 keyHandle ++ authArea ++ sizedU16 data ++ packU16 tpm2AlgSha256)

def buildEvictControlCmd (objectHandle persistentHandle : Nat) : Bytes :=
  finishCmd tpm2StSessions tpm2CcEvictControl
    (packU32 tpm2RhOwner ++ packU32 objectHandle ++ authArea ++ packU32 persistentHandle)

def buildNvUndefineSpaceCmd (nvIndex : Nat) : Bytes :=
  finishCmd tpm2StSessions tpm2CcNvUndefineSpace (packU32 tpm2RhOwner ++ packU32 nvIndex ++ authArea)

def buildNvDefineSpaceCmd (nvIndex size attributes : Nat) : Bytes :=
  finishCmd tpm2StSessions tpm2CcNvDefineSpace
    (packU32 tpm2RhOwner ++ authArea ++ [0, 0] ++
      sizedU16 (packU32 nvIndex ++ packU16 tpm2AlgSha256 ++ packU32 attributes ++ [0, 0] ++ packU16 size))

def buildNvWriteCmd (nvIndex : Nat) (data : Bytes) : Bytes :=
  finishCmd tpm2StSessions tpm2CcNvWrite
    (packU32 tpm2RhOwner ++ packU32 nvIndex ++ authArea ++ sizedU16 data ++ [0, 0])

/-! ## Parsing responses -/

/-- `response[a..b]`, which panics outside of the response. -/
def cutAt (response : Bytes) (a b : Nat) : Outcome Unit Bytes :=
  match range? response a b with
  | some u => .ok u
  | none => .panic

/-- `unpack_u16` and `unpack_u32` of `response[a..b]`. -/
def unpackAt (response : Bytes) (a b : Nat) : Outcome Unit Nat := do
  let u ← cutAt response a b
  return beNat u

/-- A response of at least `min` bytes whose response code is zero. -/
def checkResponse (response : Bytes) (min : Nat) : Outcome Unit Unit := do
  Outcome.ensure (min ≤ response.length) ()
  let responseCode ← unpackAt response 6 10
  Outcome.ensure (responseCode = 0) ()

/-- The bytes behind their size at a place, and the place behind them. -/
def sizedAt (response : Bytes) (pos : Nat) : Outcome Unit (Bytes × Nat) := do
  Outcome.ensure (pos + 2 ≤ response.length) ()
  let size ← unpackAt response pos (pos + 2)
  Outcome.ensure (pos + 2 + size ≤ response.length) ()
  let value ← cutAt response (pos + 2) (pos + 2 + size)
  return (value, pos + 2 + size)

def parseNvReadPublicResponse (response : Bytes) : Outcome Unit Nat := do
  checkResponse response 10
  Outcome.ensure (28 ≤ response.length) ()
  unpackAt response 24 26

def parseNvReadResponse (response : Bytes) : Outcome Unit Bytes := do
  checkResponse response 10
  Outcome.ensure (16 ≤ response.length) ()
  let (data, _) ← sizedAt response 14
  return data

/-- The handle and the point of the key. -/
def parseCreatePrimaryResponse (response : Bytes) : Outcome Unit (Nat × Bytes × Bytes) := do
  checkResponse response 14
  let handle ← unpackAt response 10 14
  Outcome.ensure (18 + 2 ≤ response.length) ()
  let publicSize ← unpackAt response 18 20
  Outcome.ensure (20 + publicSize ≤ response.length) ()
  Outcome.ensure (28 + 2 ≤ response.length) ()
  let authPolicySize ← unpackAt response 28 30
  -- the parameters: symmetric, scheme, its hash, curve and kdf
  let (publicX, pos) ← sizedAt response (30 + authPolicySize + 10)
  let (publicY, _) ← sizedAt response pos
  return (handle, publicX, publicY)

def parseEcdhZgenResponse (response : Bytes) : Outcome Unit Bytes := do
  checkResponse response 14
  Outcome.ensure (14 + 2 ≤ response.length) ()
  let (sharedSecret, _) ← sizedAt response 16
  return sharedSecret

def parseSignResponse (response : Bytes) : Outcome Unit (Bytes × Bytes) := do
  checkResponse response 14
  Outcome.ensure (14 + 2 ≤ response.length) ()
  Outcome.ensure (16 + 2 ≤ response.length) ()
  let (r, pos) ← sizedAt response 18
  let (s, _) ← sizedAt response pos
  return (r, s)

def parseHmacResponse (response : Bytes) : Outcome Unit Bytes := do
  checkResponse response 14
  let (value, _) ← sizedAt response 14
  return value

/-- Bytes behind their size at a place, which end before `stop`; the size itself is read wherever it stands. -/
def sizedUpTo (response : Bytes) (stop pos : Nat) : Outcome Unit (Bytes × Nat) := do
  Outcome.ensure (pos + 2 ≤ stop) ()
  let size ← unpackAt response pos (pos + 2)
  Outcome.ensure (pos + 2 + size ≤ stop) ()
  let value ← cutAt response (pos + 2) (pos + 2 + size)
  return (value, pos + 2 + size)

/-- What `tpm_read_public` reads out of the response. -/
def parseReadPublicResponse (response : Bytes) : Outcome Unit (Bytes × Bytes) := do
  let respSize ← unpackAt response 2 6
  Outcome.ensure (14 ≤ respSize) ()
  Outcome.ensure (10 + 2 ≤ response.length) ()
  let pubSize ← unpackAt response 10 12
  Outcome.ensure (12 + pubSize ≤ response.length ∧ 14 ≤ pubSize) ()
  let algType ← unpackAt response 12 14
  Outcome.ensure (20 + 2 ≤ response.length) ()
  let authSize ← unpackAt response 20 22
  Outcome.ensure (algType = tpm2AlgEcc) ()
  -- the scheme is read without a look at the length of the response
  let schemeAlg ← unpackAt response (24 + authSize) (26 + authSize)
  let pos := if schemeAlg ≠ tpm2AlgNull then 32 + authSize else 30 + authSize
  let (x, pos') ← sizedUpTo response (12 + pubSize) pos
  let (y, _) ← sizedUpTo response (12 + pubSize) pos'
  return (x, y)

/-! ## The TCG2 protocol -/

/-- The protocol of the firmware with the TPM behind it. -/
structure Tcg (σ : Type) where
  /-- `get_handle_for_protocol` and `open_protocol_exclusive`. -/
  opens : σ → Bool × σ
  /-- `submit_command`: the response buffer of the given size, when that does not fail. -/
  submit : Bytes → Nat → σ → Option Bytes × σ
  submit_length : ∀ cmd respSize s response, (submit cmd respSize s).1 = some response → response.length = respSize

namespace Tcg

variable {σ : Type}

def openTcg (T : Tcg σ) : Run σ Unit Unit where
  run s := (if (T.opens s).1 then .ok () else .err (), (T.opens s).2)

def submitCommand {ε : Type} (T : Tcg σ) (cmd : Bytes) (respSize : Nat) : Run σ ε (Option Bytes) where
  run s := (.ok (T.submit cmd respSize s).1, (T.submit cmd respSize s).2)

/-- A panic stays a panic, and `None` becomes an error of another kind. -/
def parsed {ε α : Type} (o : Outcome Unit α) (e : ε) : Run σ ε α := mapErr (fun _ => e) (ofOutcome o)

/-- The loop of `tpm_submit_with_retry`. -/
def submitLoop (T : Tcg σ) (cmd : Bytes) (respSize : Nat) : Nat → Run σ Nat Bytes
  | 0 => fail 0xFFFFFFFF
  | n + 1 => do
    match ← T.submitCommand cmd respSize with
    | none => submitLoop T cmd respSize n
    | some response =>
      ensure (10 ≤ response.length) 0xFFFFFFFF
      let rc ← parsed (unpackAt response 6 10) 0
      if rc = rcRetry then submitLoop T cmd respSize n
      else if rc ≠ 0 then fail rc
      else return response

def tpmSubmitWithRetry (T : Tcg σ) (cmd : Bytes) (respSize : Nat) : Run σ Nat Bytes := T.submitLoop cmd respSize tpmRetryMax

/-- A command whose failure makes the caller return `None`. -/
def tpmSubmit (T : Tcg σ) (cmd : Bytes) (respSize : Nat) : Run σ Unit Bytes :=
  mapErr (fun _ => ()) (T.tpmSubmitWithRetry cmd respSize)

/-- A command submitted once, whatever becomes of it. -/
def bestEffort {ε : Type} (T : Tcg σ) (cmd : Bytes) (respSize : Nat) : Run σ ε Unit := do
  let _ ← T.submitCommand cmd respSize

/-! ## Random numbers -/

/-- The loop of `tpm_get_random`, with the number of requests that are left. -/
def randomLoop (T : Tcg σ) (len : Nat) : Nat → Bytes → Run σ Unit Bytes
  | 0, out => if out.length < len then fail () else return out
  | n + 1, out =>
    if out.length < len then do
      let want := min (len - out.length) 32
      let response ← T.tpmSubmit (buildGetRandomCmd want) 256
      ensure (12 ≤ response.length) ()
      let size ← parsed (unpackAt response 10 12) ()
      ensure (¬(size = 0 ∨ response.length < 12 + size)) ()
      let drawn ← parsed (cutAt response 12 (12 + size)) ()
      randomLoop T len n (out ++ drawn)
    else return out

/-- `guard > 16` -/
def randomGuard : Nat := 16

/-- `len` random bytes. -/
def tpmGetRandom (T : Tcg σ) (len : Nat) : Run σ Unit Bytes := do
  T.openTcg
  let out ← T.randomLoop len randomGuard []
  return out.take len

/-! ## Key exchange -/

/-- The handle and the point of a new key. -/
def tpmCreateEcdhKey (T : Tcg σ) : Run σ Unit (Nat × Bytes × Bytes) := do
  T.openTcg
  let response ← T.tpmSubmit buildCreatePrimaryEcdhCmd 1024
  parsed (parseCreatePrimaryResponse response) ()

def tpmEcdhComputeSecret (T : Tcg σ) (keyHandle : Nat) (peerX peerY : Bytes) : Run σ Unit Bytes := do
  T.openTcg
  let response ← T.tpmSubmit (buildEcdhZgenCmd keyHandle peerX peerY) 512
  parsed (parseEcdhZgenResponse response) ()

/-- The point of a peer's key in the form `xLen x yLen y randLen rand`. -/
def parsePeerKey (peerKeyFdo : Bytes) : Outcome Unit (Bytes × Bytes) := do
  Outcome.ensure (6 ≤ peerKeyFdo.length) ()
  let xLen ← unpackAt peerKeyFdo 0 2
  Outcome.ensure (2 + xLen + 4 ≤ peerKeyFdo.length) ()
  let peerX ← cutAt peerKeyFdo 2 (2 + xLen)
  let yLen ← unpackAt peerKeyFdo (2 + xLen) (4 + xLen)
  Outcome.ensure (4 + xLen + yLen ≤ peerKeyFdo.length) ()
  let peerY ← cutAt peerKeyFdo (4 + xLen) (4 + xLen + yLen)
  return (peerX, peerY)

def tpmEcdhDerive (T : Tcg σ) (keyHandle : Nat) (peerKeyFdo : Bytes) : Run σ Unit Bytes := do
  let (peerX, peerY) ← parsed (parsePeerKey peerKeyFdo) ()
  T.tpmEcdhComputeSecret keyHandle peerX peerY

def tpmReadPublic (T : Tcg σ) (handle : Nat) : Run σ Unit (Bytes × Bytes) := do
  T.openTcg
  let response ← T.tpmSubmit (buildReadPublicCmd handle) 512
  parsed (parseReadPublicResponse response) ()

/-! ## Keys -/

def tpmFlushContext (T : Tcg σ) (handle : Nat) : Run σ Unit Unit :=
  ignored (do
    T.openTcg
    T.bestEffort (buildFlushContextCmd handle) 32 : Run σ Unit Unit)

/-- Make a transient key persistent. A failure flushes it and is reported. -/
def persistOrFlush (T : Tcg σ) (handle persistentHandle : Nat) : Run σ Unit Unit := do
  match ← (attempt (T.tpmSubmit (buildEvictControlCmd handle persistentHandle) 64) : Run σ Unit (Option Bytes)) with
  | some _ => return ()
  | none =>
    T.bestEffort (buildFlushContextCmd handle) 32
    fail ()

def tpmCreateAndPersistSigningKey (T : Tcg σ) (persistentHandle : Nat) : Run σ Unit TpmSigningKey := do
  T.openTcg
  T.bestEffort (buildEvictControlCmd persistentHandle persistentHandle) 64
  let response ← T.tpmSubmit buildCreatePrimarySigningCmd 1024
  let (handle, x, y) ← parsed (parseCreatePrimaryResponse response) ()
  T.persistOrFlush handle persistentHandle
  return { handle := persistentHandle, publicX := x, publicY := y }

/-- The HMAC of some data under a transient key, which is flushed on a failure. -/
def hmacOrFlush (T : Tcg σ) (handle : Nat) (data : Bytes) : Run σ Unit Bytes := do
  match ← (attempt (do
      let response ← T.tpmSubmit (buildHmacCmd handle data) 256
      parsed (parseHmacResponse response) ()) : Run σ Unit (Option Bytes)) with
  | some value => return value
  | none =>
    T.bestEffort (buildFlushContextCmd handle) 32
    fail ()

def tpmCreateHmacAndPersist (T : Tcg σ) (data : Bytes) (persistentHandle : Nat) : Run σ Unit (Nat × Bytes) := do
  T.openTcg
  T.bestEffort (buildEvictControlCmd persistentHandle persistentHandle) 64
  let response ← T.tpmSubmit buildCreatePrimaryHmacCmd 512
  ensure (14 ≤ response.length) ()
  let handle ← parsed (unpackAt response 10 14) ()
  let value ← T.hmacOrFlush handle data
  ignored (T.persistOrFlush handle persistentHandle)
  return (persistentHandle, value)

/-- The HMAC of some data under a key at a handle. -/
def tpmHmac (T : Tcg σ) (keyHandle : Nat) (data : Bytes) : Run σ Unit Bytes := do
  T.openTcg
  let response ← T.tpmSubmit (buildHmacCmd keyHandle data) 256
  parsed (parseHmacResponse response) ()

def tpmSignEcdsa (T : Tcg σ) (handle : Nat) (digest : Bytes) : Run σ Unit Bytes := do
  T.openTcg
  let response ← T.tpmSubmit (buildSignCmd handle digest) 256
  let (r, s) ← parsed (parseSignResponse response) ()
  return padTo32 r ++ padTo32 s

def tpmSignWithPersistent (T : Tcg σ) (persistentHandle : Nat) (digest : Bytes) : Run σ Unit Bytes := do
  T.openTcg
  let response ← T.tpmSubmit (buildSignCmd persistentHandle digest) 512
  let (r, s) ← parsed (parseSignResponse response) ()
  return padTo32 r ++ lowS (padTo32 s)

def tpmEvictControl (T : Tcg σ) (transientHandle persistentHandle : Nat) : Run σ Unit Unit := do
  T.openTcg
  let _ ← T.tpmSubmit (buildEvictControlCmd transientHandle persistentHandle) 64

/-! ## NV indices -/

def tpmNvRead (T : Tcg σ) (nvIndex : Nat) : Run σ Unit Bytes := do
  T.openTcg
  let response ← T.tpmSubmit (buildNvReadPublicCmd nvIndex) 512
  let dataSize ← parsed (parseNvReadPublicResponse response) ()
  let response' ← T.tpmSubmit (buildNvReadCmd nvIndex dataSize 0) 1024
  parsed (parseNvReadResponse response') ()

/-- Define an index; that it is already defined is accepted. -/
def defineSpace (T : Tcg σ) (nvIndex size attributes : Nat) : Run σ Unit Unit := do
  match ← (caught (T.tpmSubmitWithRetry (buildNvDefineSpaceCmd nvIndex size attributes) 64) :
      Run σ Unit (Except Nat Bytes)) with
  | .ok _ => return ()
  | .error code => ensure (code = rcNvDefined) ()

def tpmNvWrite (T : Tcg σ) (nvIndex : Nat) (data : Bytes) (attributes : Nat) : Run σ Unit Unit := do
  T.openTcg
  T.bestEffort (buildNvUndefineSpaceCmd nvIndex) 64
  T.defineSpace nvIndex data.length attributes
  let _ ← T.tpmSubmit (buildNvWriteCmd nvIndex data) 64

def tpmNvWriteInPlace (T : Tcg σ) (nvIndex : Nat) (data : Bytes) : Run σ Unit Unit := do
  T.openTcg
  let _ ← T.tpmSubmit (buildNvWriteCmd nvIndex data) 64

end Tcg

end FdoUefi
