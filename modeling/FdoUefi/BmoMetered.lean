import FdoUefi.Bmo
import FdoUefi.Messages
import FdoUefi.Lib.Ledger

/-!
# What processing a message asks of the machine (`bmo.rs`, `cose.rs`, `delegate.rs`)

The functions behind `process_bmo_message` that trust a number from the message, with a ledger of what they ask for: the
records of their decoders, room for a list or an image whose length is announced, ranges that are sliced out without a check, and
the products and counters that are kept in a word. The calls between two entries are those of the functions without a ledger.
-/

namespace FdoUefi

open Prog Prog.Run Prog.Ledger Cbor

/-! ## The decoders -/

/-- The run of `parse_bmo_image_begin`. -/
def imageBeginRun (fuel : Nat) (data : Bytes) : Run Cur Unit BmoImageBegin := do
  let mapLen ← Dec.ok (Dec.readMapLen data)
  let f ← imageBeginLoop fuel data mapLen {}
  ofOutcome f.finish

/-- The run of `parse_meta_payload`. -/
def metaPayloadRun (fuel : Nat) (data : Bytes) : Run Cur Unit MetaPayload := do
  let mapLen ← Dec.ok (Dec.readMapLen data)
  let m ← metaPayloadLoop fuel data mapLen {}
  ofOutcome m.finish

/-- The run of `parse_bmo_set`. -/
def bmoSetRun (data : Bytes) : Run Cur Unit (List (Bytes × Bytes)) := do
  let outerLen ← Dec.ok (Dec.readArrayLen data)
  ensure (outerLen ≠ 0) ()
  Cur.withCapacity outerLen stringPairSize
  collectN outerLen (do
    let len ← Dec.ok (Dec.readArrayLen data)
    ensure (len = 2) ()
    let name ← Dec.ok (Dec.readText data)
    let value ← Dec.ok (Dec.readText data)
    return (name, value))

/-- The run of `parse_image_end_hash` over data that is not empty. -/
def imageEndHashRun (fuel : Nat) (data : Bytes) : Run Cur Unit Bytes := do
  let mapLen ← Dec.ok (Dec.readMapLen data)
  imageEndLoop fuel data mapLen

namespace Metered

/-! ## Envelopes -/

/-- `parse_x5chain_value`, in an envelope of `n` bytes. Room for the announced certificates is allocated before the first is
read; there are fewer than 2^32, so that it never exceeds `isize::MAX`. -/
def parseX5chainValue (n : Nat) (data : Bytes) : Run (Ledger Nat) Unit (List Bytes) := do
  let b ← within (next data)
  if major b = 4 then
    let certCount ← within (cborReadUintArg data (additional b))
    note (.event n (.capacity certCount vecSize))
    within (collectN certCount (cborReadBstr data))
  else if major b = 2 then
    within (do
      let len ← cborReadUintArg data (additional b)
      let der ← take data len
      return [der])
  else fail ()

def extractX5chainLoop (n : Nat) (unprotected : Bytes) : Nat → Run (Ledger Nat) Unit (List Bytes)
  | 0 => fail ()
  | k + 1 => do
    let key ← within (cborReadIntValue unprotected)
    if key = coseLabelX5chain then parseX5chainValue n unprotected
    else
      within (cborSkip unprotected)
      extractX5chainLoop n unprotected k

def extractX5chainFromUnprotected {σ : Type} (n : Nat) (unprotected : Bytes) : Run (Ledger σ) Unit (List Bytes) :=
  inside 0 (do
    let b ← within (next unprotected)
    ensure (major b = 5) ()
    let mapLen ← within (cborReadUintArg unprotected (additional b))
    extractX5chainLoop n unprotected mapLen)

def artifactSignerPoint {σ : Type} (Γ : Ctx) (n : Nat) (unprotected ownerPoint : Bytes) : Run (Ledger σ) Unit Bytes := do
  let delegated ← ofOutcome (hasDelegateHeader unprotected)
  if delegated = false then return ownerPoint
  else
    let certDers ← extractX5chainFromUnprotected n unprotected
    let chain ← ofOutcome (verifyDelegateChain Γ certDers ownerPoint)
    ensure (chain.hasProvision = true) ()
    return chain.leafKeyPoint

/-- The loop of `extract_tstr_keyed_value`. -/
def extractTstrKeyedLoop (d target : Bytes) : Nat → Run (Ledger Nat) Unit Bytes
  | 0 => fail ()
  | n + 1 => do
    match ← within (peek d) with
    | none => fail ()
    | some keyByte =>
      if major keyByte = 3 then
        let key ← within (readTextKey d keyByte)
        if key = target then
          let valueStart ← within getS
          within (cborSkip d)
          let pos ← within getS
          cut d valueStart pos
        else
          within (cborSkip d)
          extractTstrKeyedLoop d target n
      else
        within (cborSkip d)
        within (cborSkip d)
        extractTstrKeyedLoop d target n

def extractTstrKeyedValue {σ : Type} (header target : Bytes) : Run (Ledger σ) Unit Bytes :=
  inside 0 (do
    let b ← within (next header)
    ensure (major b = 5) ()
    let mapLen ← within (cborReadUintArg header (additional b))
    extractTstrKeyedLoop header target mapLen)

def evaluateBmoScope {σ : Type} (protectedHeader : Bytes) (deviceGuid : Option Bytes) : Run (Ledger σ) Unit Bool := do
  let generic ← attempt (extractTstrKeyedValue protectedHeader scopeLabel : Run (Ledger σ) Unit Bytes)
  let legacy ← attempt (extractTstrKeyedValue protectedHeader legacyBmoScopeLabel : Run (Ledger σ) Unit Bytes)
  match generic, legacy with
  | some _, some _ => return false
  | some b, none => ofOutcome (evaluateScopeMap b deviceGuid)
  | none, some b => ofOutcome (evaluateScopeMap b deviceGuid)
  | none, none => return true

def verifyBmoSigned {σ : Type} (Γ : Ctx) (data ownerPoint expectedCt : Bytes) (deviceGuid : Option Bytes) :
    Run (Ledger σ) Unit Bytes := do
  let s1 ← ofOutcome (parseCoseSign1 data)
  let ct ← ofOutcome (parseProtectedTstr s1.protectedHeader 3)
  ensure (ct = expectedCt) ()
  let aad := 0x81 :: encodeTstr aadTagBmoProvision
  let key ← artifactSignerPoint Γ data.length s1.unprotectedHeader ownerPoint
  ensure (verifyEs256 Γ (buildSigStructure s1.protectedHeader aad s1.payload) s1.signature key = true) ()
  let inScope ← evaluateBmoScope s1.protectedHeader deviceGuid
  ensure (inScope = true) ()
  return s1.payload

def verifyMetaSigned {σ : Type} (Γ : Ctx) (data ownerPoint : Bytes) : Run (Ledger σ) Unit Bytes := do
  let s1 ← ofOutcome (parseCoseSign1 data)
  let key ← artifactSignerPoint Γ data.length s1.unprotectedHeader ownerPoint
  let aad := domainAad aadTagMetaPayload fdoVersion200
  ensure (verifyEs256 Γ (buildSigStructure s1.protectedHeader aad s1.payload) s1.signature key = true) ()
  return s1.payload

/-- `check_bmo_authorization`: only an envelope that can be verified asks for anything. -/
def checkBmoAuthorization {σ : Type} (Γ : Ctx) (data : Bytes) (ownerKeyPoint : Option Bytes) (peer : PeerAuthority)
    (expectedCt : Bytes) (deviceGuid : Option Bytes) : Run (Ledger σ) Unit (BmoAuthResult × Option Bytes) :=
  match isCborTag18 data, ownerKeyPoint with
  | true, some ownerPoint => do
    match ← attempt (verifyBmoSigned Γ data ownerPoint expectedCt deviceGuid : Run (Ledger σ) Unit Bytes) with
    | some inner => return (.signedOk, some inner)
    | none => return (.signedFailed, none)
  | _, _ => ofOutcome (FdoUefi.checkBmoAuthorization Γ data ownerKeyPoint peer expectedCt deviceGuid)

/-- `verify_and_extract_meta`: only an envelope of the Owner or a delegate asks for anything. -/
def verifyAndExtractMeta {σ : Type} (Γ : Ctx) (data : Bytes) (metaSigner ownerPoint : Option Bytes) :
    Run (Ledger σ) Nat (Bytes × Bool) :=
  match metaSigner, isCborTag18 data, ownerPoint with
  | none, true, some owner => do
    let inner ← mapErr (fun _ => errMetaSignatureInvalid) (verifyMetaSigned Γ data owner)
    return (inner, true)
  | _, _, _ => ofOutcome (FdoUefi.verifyAndExtractMeta Γ data metaSigner ownerPoint)

/-! ## Messages -/

def processBmoMetaUrlDelivery (Γ : Ctx) (fuel : Nat) (get : Nat → Bytes → Option Bytes) (begin : BmoImageBegin)
    (ownerKeyPoint : Option Bytes) : Run (Ledger BmoSession) Nat Unit := do
  let metaUrl ← within (orFail begin.url errUrlFetchFailed)
  let metaData ← within (orFail (get 0 metaUrl) errUrlFetchFailed)
  let (metaCbor, metaAuthenticated) ← verifyAndExtractMeta Γ metaData begin.metaSigner ownerKeyPoint
  let m ← mapErr (fun _ => errMetaParseError) (decode metaCbor.length (metaPayloadRun fuel metaCbor))
  within (do
    mapErr HashPolicyError.code (ofExcept (checkUnauthenticatedMeta m metaAuthenticated begin.expectedHash))
    let session ← getS
    let required ← mapErr HashPolicyError.code
      (ofExcept (metaHashDecision session.authority begin.expectedHash metaAuthenticated m.expectedHash))
    let imageData ← orFail (get 1 m.url) errUrlFetchFailed
    ensure (∀ expectedHash ∈ required, Γ.sha256 imageData = expectedHash) errHashMismatch
    modifyS fun s => { s with imageBuffer := imageData, bytesReceived := imageData.length })

/-- `image_buffer.reserve(total_size)`, for a message of `n` bytes. -/
def beginInline (n : Nat) (begin : BmoImageBegin) : Run (Ledger BmoSession) Unit BmoAnswer := do
  onlyIf (0 < begin.totalSize) (note (.event n (.capacity begin.totalSize 1)))
  within (FdoUefi.beginInline begin)

def beginMetaUrl (Γ : Ctx) (fuel : Nat) (get : Nat → Bytes → Option Bytes) (begin : BmoImageBegin)
    (ownerKeyPoint : Option Bytes) : Run (Ledger BmoSession) Unit BmoAnswer :=
  if begin.url = none then within (refuseImage (utf8 "Meta-URL mode but no URL"))
  else do
    match ← caught (processBmoMetaUrlDelivery Γ fuel get begin ownerKeyPoint) with
    | .ok _ => within (completeWith begin (utf8 "Meta-payload resolved, image fetched"))
    | .error code => within (refuseImage (metaErrorText code))

/-- A begin message that has been authorised and parsed. The watchdog is set to twice the estimated duration. -/
def deliver (Γ : Ctx) (fuel : Nat) (m : BmoMessage) (ownerKeyPoint : Option Bytes) (begin : BmoImageBegin) :
    Run (Ledger BmoSession) Unit BmoAnswer := do
  onlyIf (0 < begin.estimatedDuration) (note (.word 64 (begin.estimatedDuration * 2)))
  let session ← within getS
  match signedBeginBindsContent session.authority begin with
  | .error e => within (refuseImage (utf8 e.message))
  | .ok _ =>
    if begin.deliveryMode = bmoDeliveryInline then beginInline m.value.length begin
    else if begin.deliveryMode = bmoDeliveryUrl then within (beginUrl Γ m.get begin)
    else if begin.deliveryMode = bmoDeliveryMetaUrl then beginMetaUrl Γ fuel m.get begin ownerKeyPoint
    else within (refuseImage (utf8 "Unknown delivery mode"))

def imageBegin (Γ : Ctx) (fuel : Nat) (ownerKeyPoint : Option Bytes) (peer : PeerAuthority) (deviceGuid : Option Bytes)
    (m : BmoMessage) : Run (Ledger BmoSession) Unit BmoAnswer := do
  let (auth, inner) ← checkBmoAuthorization Γ m.value ownerKeyPoint peer bmoContentTypeImageBegin deviceGuid
  if auth.isAuthorized = false then within (refuseImage auth.rejectionReason)
  else
    within (modifyS fun s => { s with authority := auth.toAuthority })
    let data := inner.getD m.value
    match ← attempt (decode data.length (imageBeginRun fuel data) : Run (Ledger BmoSession) Unit BmoImageBegin) with
    | some begin => deliver Γ fuel m ownerKeyPoint begin
    | none =>
      within (modifyS fun s => { s with state := .error })
      return none

def chunkData {σ : Type} (value : Bytes) : Run (Ledger σ) Unit Bytes :=
  if value.head?.any (fun b => major b = 2) = true then do
    match ← attempt (decode value.length (Dec.readBytes value) : Run (Ledger σ) FdoError Bytes) with
    | some inner => return inner
    | none => return value
  else return value

/-- The buffer grows to a length of at most `isize::MAX`, and the counters are words of 32 and 64 bits. -/
def imageData (m : BmoMessage) : Run (Ledger BmoSession) Unit BmoAnswer := do
  let session ← within getS
  if session.state ≠ .awaitingData then return none
  else
    let chunk ← chunkData m.value
    note (.word 63 (session.imageBuffer.length + chunk.length))
    note (.word 32 (session.chunksReceived + 1))
    note (.word 64 (session.bytesReceived + chunk.length))
    within (modifyS fun s => { s with
      imageBuffer := s.imageBuffer ++ chunk, chunksReceived := (s.chunksReceived + 1) % 2 ^ 32,
      bytesReceived := (s.bytesReceived + chunk.length) % 2 ^ 64 })
    return none

/-- `parse_image_end_hash` -/
def parseImageEndHash {σ : Type} (fuel : Nat) (data : Bytes) : Run (Ledger σ) Unit Bytes :=
  if data = [] then fail () else decode data.length (imageEndHashRun fuel data)

def imageEnd (Γ : Ctx) (fuel : Nat) (m : BmoMessage) : Run (Ledger BmoSession) Unit BmoAnswer := do
  let session ← within getS
  if session.state ≠ .awaitingData then
    return some (bmoKeyImageResult, buildBmoImageResult bmoStatusError (some (utf8 "Unexpected image-end")))
  else if session.begin.any (fun b => b.totalSize ≠ 0 ∧ session.bytesReceived ≠ b.totalSize) = true then
    within (refuseImage (utf8 "Size mismatch"))
  else
    let endHash ← attempt (parseImageEndHash fuel m.value : Run (Ledger BmoSession) Unit Bytes)
    within (finishInline Γ endHash)

def setParameters (Γ : Ctx) (ownerKeyPoint : Option Bytes) (peer : PeerAuthority) (deviceGuid : Option Bytes)
    (m : BmoMessage) : Run (Ledger BmoSession) Unit BmoAnswer := do
  let (auth, inner) ← checkBmoAuthorization Γ m.value ownerKeyPoint peer bmoContentTypeSet deviceGuid
  if auth.isAuthorized = false then
    within (modifyS fun s => { s with state := .error })
    return some (bmoKeySetResponse, buildBmoSetResponse bmoStatusError (some auth.rejectionReason))
  else
    let data := inner.getD m.value
    let text ← otherwise (utf8 "Failed to parse BIOS set parameters") (do
      let params ← decode data.length (bmoSetRun data)
      return utf8 s!"BIOS configuration not supported; none of {params.length} parameter(s) applied")
    return some (bmoKeySetResponse, buildBmoSetResponse bmoStatusError (some text))

/-- `process_bmo_message`, with its ledger. -/
def processBmoMessage (Γ : Ctx) (fuel : Nat) (ownerKeyPoint : Option Bytes) (peer : PeerAuthority)
    (deviceGuid : Option Bytes) (m : BmoMessage) : Run (Ledger BmoSession) Unit BmoAnswer :=
  if m.key = bmoKeyImageBegin then imageBegin Γ fuel ownerKeyPoint peer deviceGuid m
  else if bmoKeyImageData.isPrefixOf m.key = true then imageData m
  else if m.key = bmoKeyImageEnd then imageEnd Γ fuel m
  else if m.key = bmoKeySet then setParameters Γ ownerKeyPoint peer deviceGuid m
  else pure none

end Metered

end FdoUefi
