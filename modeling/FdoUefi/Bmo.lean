import FdoUefi.Chunking

/-!
# Bare metal onboarding (`bmo.rs`)

The device side of `fdo.bmo`: a session is fed messages (a key and a value) and ends up with an image, taken from the messages
themselves or fetched over HTTP. `get i url` is the result of the `i`-th HTTP GET that one message causes. The watchdog, which
a begin message may extend, is not part of the session.
-/

namespace FdoUefi

open Prog Prog.Run Cbor

/-! ## Constants -/

def bmoDeliveryInline : Nat := 0
def bmoDeliveryUrl : Nat := 1
def bmoDeliveryMetaUrl : Nat := 2

def bmoErrorSizeExceeded : Nat := 3

def bmoStatusSuccess : Nat := 0
def bmoStatusError : Nat := 2

def bmoKeyImageBegin : Bytes := utf8 "fdo.bmo:image-begin"
def bmoKeyImageData : Bytes := utf8 "fdo.bmo:image-data-"
def bmoKeyImageEnd : Bytes := utf8 "fdo.bmo:image-end"
def bmoKeyImageResult : Bytes := utf8 "fdo.bmo:image-result"
def bmoKeyImageAck : Bytes := utf8 "fdo.bmo:image-ack"
def bmoKeySet : Bytes := utf8 "fdo.bmo:set"
def bmoKeySetResponse : Bytes := utf8 "fdo.bmo:response"

/-! ## Begin messages -/

structure BmoImageBegin where
  totalSize : Nat := 0
  hashAlg : Option Bytes := none
  requireAck : Bool := false
  estimatedDuration : Nat := 0
  imageType : Option Bytes := none
  bootArgs : Option Bytes := none
  name : Option Bytes := none
  version : Option Bytes := none
  description : Option Bytes := none
  expectedHash : Option Bytes := none
  deliveryMode : Nat := 0
  url : Option Bytes := none
  tlsCa : Option Bytes := none
  metaSigner : Option Bytes := none
  deriving DecidableEq, Repr

/-- The variables of `parse_bmo_image_begin`. -/
structure BeginFields where
  begin : BmoImageBegin := {}
  generic : DeliveryKeys := {}
  legacy : DeliveryKeys := {}

/-- A delivery field, under its generic key (5 to 9) or its legacy key (-6 to -10). -/
def readDeliveryField (d : Bytes) (k : DeliveryKeys) (field : Int) : Run Cur Unit DeliveryKeys :=
  if field = 5 then do return { k with mode := some (← Dec.ok (Dec.readUint d)) }
  else if field = 6 then do return { k with url := some (← Dec.ok (Dec.readText d)) }
  else if field = 7 then do return { k with tlsCa := some (← Dec.ok (Dec.readBytes d)) }
  else if field = 8 then do return { k with hash := some (← Dec.ok (Dec.readBytes d)) }
  else do return { k with signer := some (← Dec.ok (Dec.readBytes d)) }

/-- One entry of a begin message, after its key. -/
def readBeginField (fuel : Nat) (d : Bytes) (f : BeginFields) (key : Int) : Run Cur Unit BeginFields :=
  if key = 0 then do return { f with begin.totalSize := (← Dec.ok (Dec.readUint d)) }
  else if key = 1 then do return { f with begin.hashAlg := some (← Dec.ok (Dec.readText d)) }
  else if key = 3 then do return { f with begin.requireAck := (← Dec.ok (Dec.readBool d)) }
  else if key = 4 then do return { f with begin.estimatedDuration := (← Dec.ok (Dec.readUint d)) }
  else if key = -1 then do return { f with begin.imageType := some (← Dec.ok (Dec.readText d)) }
  else if key = -2 then do return { f with begin.bootArgs := some (← Dec.ok (Dec.readText d)) }
  else if key = -3 then do return { f with begin.name := some (← Dec.ok (Dec.readText d)) }
  else if key = -4 then do return { f with begin.version := some (← Dec.ok (Dec.readText d)) }
  else if key = -5 then do return { f with begin.description := some (← Dec.ok (Dec.readText d)) }
  else if 5 ≤ key ∧ key ≤ 9 then do return { f with generic := (← readDeliveryField d f.generic key) }
  else if -10 ≤ key ∧ key ≤ -6 then do return { f with legacy := (← readDeliveryField d f.legacy (-1 - key)) }
  else do
    Dec.ok (Dec.skipValue d fuel)
    return f

def imageBeginLoop (fuel : Nat) (d : Bytes) : Nat → BeginFields → Run Cur Unit BeginFields
  | 0, f => return f
  | n + 1, f => do
    let key ← Dec.ok (Dec.readInt d)
    let f' ← readBeginField fuel d f key
    imageBeginLoop fuel d n f'

/-- A delivery mode that does not fit in eight bits is one no mode has. -/
def deliveryModeOf (mode : Option Nat) : Nat := min (mode.getD 0) 255

/-- Fold the legacy keys into the generic ones. -/
def BeginFields.finish (f : BeginFields) : Outcome Unit BmoImageBegin := do
  let mode ← mergeAlias f.generic.mode f.legacy.mode
  let url ← mergeAlias f.generic.url f.legacy.url
  let tlsCa ← mergeAlias f.generic.tlsCa f.legacy.tlsCa
  let expectedHash ← mergeAlias f.generic.hash f.legacy.hash
  let metaSigner ← mergeAlias f.generic.signer f.legacy.signer
  return { f.begin with deliveryMode := deliveryModeOf mode, url, tlsCa, expectedHash, metaSigner }

def parseBmoImageBegin (fuel : Nat) (data : Bytes) : Outcome Unit BmoImageBegin :=
  ((do
    let mapLen ← Dec.ok (Dec.readMapLen data)
    let f ← imageBeginLoop fuel data mapLen {}
    ofOutcome f.finish : Run Cur Unit BmoImageBegin) Cur.start).1

/-! ## Other messages -/

/-- A status, with or without a text. -/
def statusMessage (status : Nat) (message : Option Bytes) : Bytes :=
  match message with
  | some msg => Enc.array 2 ++ Enc.uint status ++ Enc.text msg
  | none => Enc.array 1 ++ Enc.uint status

def buildBmoImageResult (status : Nat) (message : Option Bytes) : Bytes := statusMessage status message

def buildBmoSetResponse (status : Nat) (message : Option Bytes) : Bytes := statusMessage status message

def buildBmoImageAck (accepted : Bool) (reasonCode : Option Nat) (message : Option Bytes) : Bytes :=
  if accepted = true then Enc.array 1 ++ Enc.boolVal true
  else
    match message, reasonCode with
    | some msg, _ => Enc.array 3 ++ Enc.boolVal false ++ Enc.uint (reasonCode.getD 0) ++ Enc.text msg
    | none, some code => Enc.array 2 ++ Enc.boolVal false ++ Enc.uint code
    | none, none => Enc.array 1 ++ Enc.boolVal false

/-- The bytes one element of a `Vec<(String, String)>` takes. -/
def stringPairSize : Nat := 48

/-- The parameters of a set message. Room for the announced number is allocated before the first is read. -/
def parseBmoSet (data : Bytes) : Outcome Unit (List (Bytes × Bytes)) :=
  ((do
    let outerLen ← Dec.ok (Dec.readArrayLen data)
    ensure (outerLen ≠ 0) ()
    Cur.withCapacity outerLen stringPairSize
    collectN outerLen (do
      let len ← Dec.ok (Dec.readArrayLen data)
      ensure (len = 2) ()
      let name ← Dec.ok (Dec.readText data)
      let value ← Dec.ok (Dec.readText data)
      return (name, value)) : Run Cur Unit (List (Bytes × Bytes))) Cur.start).1

def imageEndLoop (fuel : Nat) (d : Bytes) : Nat → Run Cur Unit Bytes
  | 0 => fail ()
  | n + 1 => do
    let key ← Dec.ok (Dec.readInt d)
    if key = 1 then Dec.ok (Dec.readBytes d)
    else
      Dec.ok (Dec.skipValue d fuel)
      imageEndLoop fuel d n

/-- The hash (key 1) of an end message. -/
def parseImageEndHash (fuel : Nat) (data : Bytes) : Outcome Unit Bytes :=
  if data = [] then .err ()
  else ((do
    let mapLen ← Dec.ok (Dec.readMapLen data)
    imageEndLoop fuel data mapLen : Run Cur Unit Bytes) Cur.start).1

/-! ## Authorisation -/

/-- Who the peer has proved to be. -/
inductive PeerAuthority where
  | ownerDirect
  | delegate (provision : Bool)
  | unauthenticated
  deriving DecidableEq, Repr

inductive BmoAuthResult where
  | signedOk
  | signedFailed
  | unsignedModel1
  | unsignedModel2
  | unsignedLegacy
  | unsignedRefused
  deriving DecidableEq, Repr

namespace BmoAuthResult

def toAuthority : BmoAuthResult → Authority
  | signedOk => .artifact
  | signedFailed => .artifact
  | unsignedRefused => .artifact
  | unsignedModel1 => .channel
  | unsignedModel2 => .channel
  | unsignedLegacy => .unauthenticated

def isAuthorized : BmoAuthResult → Bool
  | signedFailed => false
  | unsignedRefused => false
  | signedOk => true
  | unsignedModel1 => true
  | unsignedModel2 => true
  | unsignedLegacy => true

def rejectionReason : BmoAuthResult → Bytes
  | unsignedRefused => utf8 "Provisioning not authorized: unsigned payload from peer without provision permission"
  | _ => utf8 "Provisioning artifact rejected: signature, content type, signer authority or scope check failed"

end BmoAuthResult

/-- The content of a signed envelope, when it verifies. -/
def unwrapBmoSigned (Γ : Ctx) (data : Bytes) (ownerKeyPoint : Option Bytes) (expectedCt : Bytes)
    (deviceGuid : Option Bytes) : Outcome Unit Bytes :=
  if isCborTag18 data = false then .err ()
  else
    match ownerKeyPoint with
    | none => .err ()
    | some ownerPoint => verifyBmoSigned Γ data ownerPoint expectedCt deviceGuid

/-- Whether a provisioning message is accepted, and the content of a signed one. -/
def checkBmoAuthorization (Γ : Ctx) (data : Bytes) (ownerKeyPoint : Option Bytes) (peer : PeerAuthority) (expectedCt : Bytes)
    (deviceGuid : Option Bytes) : Outcome Unit (BmoAuthResult × Option Bytes) :=
  if isCborTag18 data = true then
    match unwrapBmoSigned Γ data ownerKeyPoint expectedCt deviceGuid with
    | .ok inner => .ok (.signedOk, some inner)
    | .err _ => .ok (.signedFailed, none)
    | .panic => .panic
    | .hang => .hang
  else
    match peer with
    | .ownerDirect => .ok (.unsignedModel1, none)
    | .delegate true => .ok (.unsignedModel2, none)
    | .delegate false => .ok (.unsignedRefused, none)
    | .unauthenticated => if ownerKeyPoint.isSome then .ok (.unsignedRefused, none) else .ok (.unsignedLegacy, none)

/-- A signed inline begin message must carry the hash of the image. -/
def signedBeginBindsContent (authority : Authority) (begin : BmoImageBegin) : Except HashPolicyError Unit :=
  if authority = .artifact ∧ begin.deliveryMode = bmoDeliveryInline ∧ begin.expectedHash = none then
    .error .signedWithoutHash
  else .ok ()

/-! ## The session -/

inductive BmoState where
  | idle
  | awaitingData
  | awaitingEnd
  | complete
  | error
  deriving DecidableEq, Repr

structure BmoSession where
  state : BmoState
  begin : Option BmoImageBegin
  imageBuffer : Bytes
  chunksReceived : Nat
  bytesReceived : Nat
  authority : Authority
  deriving DecidableEq, Repr

/-- `BmoSession::new()` -/
def BmoSession.new : BmoSession where
  state := .idle
  begin := none
  imageBuffer := []
  chunksReceived := 0
  bytesReceived := 0
  authority := .unauthenticated

/-- A message, with the results of the HTTP GETs it causes. -/
structure BmoMessage where
  key : Bytes
  value : Bytes
  get : Nat → Bytes → Option Bytes

/-- The optional answer to a message: a key and a value. -/
abbrev BmoAnswer : Type := Option (Bytes × Bytes)

/-- Give up the transfer, with a text. -/
def refuseImage (text : Bytes) : Run BmoSession Unit BmoAnswer := do
  modifyS fun s => { s with state := .error }
  return some (bmoKeyImageResult, buildBmoImageResult bmoStatusError (some text))

/-- Fetch the image from its URL. An error is a transfer error code. -/
def processBmoUrlDelivery (Γ : Ctx) (get : Nat → Bytes → Option Bytes) (begin : BmoImageBegin) : Run BmoSession Nat Unit := do
  let url ← orFail begin.url errUrlFetchFailed
  let session ← getS
  let expectedHash ← mapErr HashPolicyError.code (ofExcept (urlHashDecision session.authority begin.expectedHash))
  let imageData ← orFail (get 0 url) errUrlFetchFailed
  ensure (begin.totalSize = 0 ∨ imageData.length = begin.totalSize) bmoErrorSizeExceeded
  ensure (Γ.sha256 imageData = expectedHash) errHashMismatch
  modifyS fun s => { s with imageBuffer := imageData, bytesReceived := imageData.length }

/-- Fetch a meta-payload and the image it points to. -/
def processBmoMetaUrlDelivery (Γ : Ctx) (fuel : Nat) (get : Nat → Bytes → Option Bytes) (begin : BmoImageBegin)
    (ownerKeyPoint : Option Bytes) : Run BmoSession Nat Unit := do
  let metaUrl ← orFail begin.url errUrlFetchFailed
  let metaData ← orFail (get 0 metaUrl) errUrlFetchFailed
  let (metaCbor, metaAuthenticated) ← ofOutcome (verifyAndExtractMeta Γ metaData begin.metaSigner ownerKeyPoint)
  let m ← ofOutcome (Outcome.noneAs (parseMetaPayload fuel metaCbor) errMetaParseError)
  mapErr HashPolicyError.code (ofExcept (checkUnauthenticatedMeta m metaAuthenticated begin.expectedHash))
  let session ← getS
  let required ← mapErr HashPolicyError.code
    (ofExcept (metaHashDecision session.authority begin.expectedHash metaAuthenticated m.expectedHash))
  let imageData ← orFail (get 1 m.url) errUrlFetchFailed
  ensure (∀ expectedHash ∈ required, Γ.sha256 imageData = expectedHash) errHashMismatch
  modifyS fun s => { s with imageBuffer := imageData, bytesReceived := imageData.length }

/-- Mode 0: wait for the chunks. Room for the announced size is reserved; more than a slice can have is a panic. -/
def beginInline (begin : BmoImageBegin) : Run BmoSession Unit BmoAnswer := do
  modifyS fun s => { s with state := .awaitingData, imageBuffer := [] }
  if sliceMax < begin.totalSize then panics
  else
    modifyS fun s => { s with begin := some begin, chunksReceived := 0, bytesReceived := 0 }
    if begin.requireAck = true then return some (bmoKeyImageAck, buildBmoImageAck true none none) else return none

/-- The image is there: the session is complete. -/
def completeWith (begin : BmoImageBegin) (text : Bytes) : Run BmoSession Unit BmoAnswer := do
  modifyS fun s => { s with begin := some begin, state := .complete }
  return some (bmoKeyImageResult, buildBmoImageResult bmoStatusSuccess (some text))

def urlErrorText (code : Nat) : Bytes :=
  if code = errUnauthenticatedSource then
    utf8 "Unauthenticated source: URL delivery requires expected_hash (key 8)"
  else if code = errHashMismatch then utf8 "Image hash mismatch"
  else utf8 "URL fetch failed"

/-- Mode 1. -/
def beginUrl (Γ : Ctx) (get : Nat → Bytes → Option Bytes) (begin : BmoImageBegin) : Run BmoSession Unit BmoAnswer :=
  if begin.url = none then refuseImage (utf8 "URL delivery mode but no URL")
  else do
    match ← caught (processBmoUrlDelivery Γ get begin) with
    | .ok _ => completeWith begin (utf8 "Image fetched from URL")
    | .error code => refuseImage (urlErrorText code)

def metaErrorText (code : Nat) : Bytes :=
  if code = errUrlFetchFailed then utf8 "Meta-payload fetch failed"
  else if code = errMetaSignatureInvalid then utf8 "Meta-payload signature invalid"
  else if code = errMetaParseError then utf8 "Meta-payload parse error"
  else if code = errHashMismatch then utf8 "Image hash mismatch"
  else if code = errNotAuthorized then
    utf8 "Provisioning not authorized: unauthenticated meta-payload carries instruction fields"
  else if code = errUnauthenticatedSource then
    utf8 "Unauthenticated source: no hash, signature, or validated TLS covers the content"
  else utf8 "Meta-URL delivery failed"

/-- Mode 2. -/
def beginMetaUrl (Γ : Ctx) (fuel : Nat) (get : Nat → Bytes → Option Bytes) (begin : BmoImageBegin)
    (ownerKeyPoint : Option Bytes) : Run BmoSession Unit BmoAnswer :=
  if begin.url = none then refuseImage (utf8 "Meta-URL mode but no URL")
  else do
    match ← caught (processBmoMetaUrlDelivery Γ fuel get begin ownerKeyPoint) with
    | .ok _ => completeWith begin (utf8 "Meta-payload resolved, image fetched")
    | .error code => refuseImage (metaErrorText code)

/-- A begin message that has been authorised and parsed. -/
def deliver (Γ : Ctx) (fuel : Nat) (get : Nat → Bytes → Option Bytes) (ownerKeyPoint : Option Bytes)
    (begin : BmoImageBegin) : Run BmoSession Unit BmoAnswer := do
  let session ← getS
  match signedBeginBindsContent session.authority begin with
  | .error e => refuseImage (utf8 e.message)
  | .ok _ =>
    if begin.deliveryMode = bmoDeliveryInline then beginInline begin
    else if begin.deliveryMode = bmoDeliveryUrl then beginUrl Γ get begin
    else if begin.deliveryMode = bmoDeliveryMetaUrl then beginMetaUrl Γ fuel get begin ownerKeyPoint
    else refuseImage (utf8 "Unknown delivery mode")

/-- `image-begin`. The authority is set before the message is parsed. -/
def imageBegin (Γ : Ctx) (fuel : Nat) (ownerKeyPoint : Option Bytes) (peer : PeerAuthority) (deviceGuid : Option Bytes)
    (m : BmoMessage) : Run BmoSession Unit BmoAnswer := do
  let (auth, inner) ←
    ofOutcome (checkBmoAuthorization Γ m.value ownerKeyPoint peer bmoContentTypeImageBegin deviceGuid)
  if auth.isAuthorized = false then refuseImage auth.rejectionReason
  else
    modifyS fun s => { s with authority := auth.toAuthority }
    match ← attempt (ofOutcome (parseBmoImageBegin fuel (inner.getD m.value)) : Run BmoSession Unit BmoImageBegin) with
    | some begin => deliver Γ fuel m.get ownerKeyPoint begin
    | none =>
      modifyS fun s => { s with state := .error }
      return none

/-- The bytes of a chunk: the content of a CBOR byte string, or the value as it is. -/
def chunkData (value : Bytes) : Outcome Unit Bytes :=
  if value.head?.any (fun b => major b = 2) = true then
    match Dec.eval (Dec.readBytes value) with
    | .ok inner => .ok inner
    | .err _ => .ok value
    | .panic => .panic
    | .hang => .hang
  else .ok value

/-- `image-data-N` -/
def imageData (m : BmoMessage) : Run BmoSession Unit BmoAnswer := do
  let session ← getS
  if session.state ≠ .awaitingData then return none
  else
    let chunk ← ofOutcome (chunkData m.value)
    modifyS fun s => { s with
      imageBuffer := s.imageBuffer ++ chunk, chunksReceived := (s.chunksReceived + 1) % 2 ^ 32,
      bytesReceived := (s.bytesReceived + chunk.length) % 2 ^ 64 }
    return none

/-- The transfer is over: check size and hash. -/
def finishInline (Γ : Ctx) (endHash : Option Bytes) : Run BmoSession Unit BmoAnswer := do
  let session ← getS
  match inlineHashDecision session.authority (session.begin.bind (·.expectedHash)) endHash with
  | .error e => refuseImage (utf8 e.message)
  | .ok expectedHash =>
    if Γ.sha256 session.imageBuffer ≠ expectedHash then refuseImage (utf8 "SHA256 hash mismatch")
    else
      modifyS fun s => { s with state := .complete }
      return some (bmoKeyImageResult, buildBmoImageResult bmoStatusSuccess (some (utf8 "Image received")))

/-- `image-end` -/
def imageEnd (Γ : Ctx) (fuel : Nat) (m : BmoMessage) : Run BmoSession Unit BmoAnswer := do
  let session ← getS
  if session.state ≠ .awaitingData then
    return some (bmoKeyImageResult, buildBmoImageResult bmoStatusError (some (utf8 "Unexpected image-end")))
  else if session.begin.any (fun b => b.totalSize ≠ 0 ∧ session.bytesReceived ≠ b.totalSize) = true then
    refuseImage (utf8 "Size mismatch")
  else
    let endHash ← attempt (ofOutcome (parseImageEndHash fuel m.value) : Run BmoSession Unit Bytes)
    finishInline Γ endHash

/-- `set`: the parameters are parsed and not applied. -/
def setParameters (Γ : Ctx) (ownerKeyPoint : Option Bytes) (peer : PeerAuthority) (deviceGuid : Option Bytes)
    (m : BmoMessage) : Run BmoSession Unit BmoAnswer := do
  let (auth, inner) ← ofOutcome (checkBmoAuthorization Γ m.value ownerKeyPoint peer bmoContentTypeSet deviceGuid)
  if auth.isAuthorized = false then
    modifyS fun s => { s with state := .error }
    return some (bmoKeySetResponse, buildBmoSetResponse bmoStatusError (some auth.rejectionReason))
  else
    let text ← otherwise (utf8 "Failed to parse BIOS set parameters") (do
      let params ← ofOutcome (parseBmoSet (inner.getD m.value))
      return utf8 s!"BIOS configuration not supported; none of {params.length} parameter(s) applied")
    return some (bmoKeySetResponse, buildBmoSetResponse bmoStatusError (some text))

/-- Process one message. -/
def processBmoMessage (Γ : Ctx) (fuel : Nat) (ownerKeyPoint : Option Bytes) (peer : PeerAuthority)
    (deviceGuid : Option Bytes) (m : BmoMessage) : Run BmoSession Unit BmoAnswer :=
  if m.key = bmoKeyImageBegin then imageBegin Γ fuel ownerKeyPoint peer deviceGuid m
  else if bmoKeyImageData.isPrefixOf m.key = true then imageData m
  else if m.key = bmoKeyImageEnd then imageEnd Γ fuel m
  else if m.key = bmoKeySet then setParameters Γ ownerKeyPoint peer deviceGuid m
  else pure none

/-- Process messages one after the other. -/
def processBmoMessages (Γ : Ctx) (fuel : Nat) (ownerKeyPoint : Option Bytes) (peer : PeerAuthority)
    (deviceGuid : Option Bytes) : List BmoMessage → Run BmoSession Unit Unit
  | [] => pure ()
  | m :: ms => do
    let _ ← processBmoMessage Γ fuel ownerKeyPoint peer deviceGuid m
    processBmoMessages Γ fuel ownerKeyPoint peer deviceGuid ms

end FdoUefi
