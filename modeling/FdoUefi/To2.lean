import FdoUefi.To2Messages
import FdoUefi.Bmo
import FdoUefi.Tcp4

/-!
# The TO2 protocol (`perform_to2` of `fdo.rs`)

A run asks the network and the TPM and gets their answers from a `World`, which may choose each of them with everything that
has happened so far in view: a peer that lies, a network that loses messages and a TPM that fails are worlds. What the run asks,
what it was answered and what it hands on to `process_bmo_message` and `chainload_image` is its trace. Flushing TPM handles, the
watchdog and the log leave no trace.
-/

namespace FdoUefi

open Prog Prog.Run Cbor

/-! ## Worlds and traces -/

/-- `TpmEcdhKeyPair` -/
structure EcdhKeyPair where
  handle : Nat
  publicX : Bytes
  publicY : Bytes
  deriving DecidableEq, Repr

/-- A call that leaves the client, with its answer. -/
inductive To2Event where
  /-- `tpm_get_random(16)` -/
  | random (answer : Option Bytes)
  | createEcdhKey (answer : Option EcdhKeyPair)
  | ecdhDerive (handle : Nat) (peerKey : Bytes) (answer : Option Bytes)
  | sign (handle : Nat) (digest : Bytes) (answer : Option Bytes)
  | post (url : Bytes) (msgType : Nat) (body : Bytes) (token : Option Bytes) (answer : Option HttpPostResponse)
  /-- `cose_encrypt0_a256gcm` -/
  | encrypt (key nonce plaintext : Bytes)
  /-- `process_bmo_message` -/
  | bmo (ownerKeyPoint : Option Bytes) (peer : PeerAuthority) (deviceGuid : Option Bytes) (key value : Bytes)
  | chainload (image : Bytes)
  deriving DecidableEq, Repr

/-- What answers the calls of a run, each from the trace up to it. `get` answers the HTTP GETs of a `process_bmo_message`. -/
structure World where
  random : List To2Event → Option Bytes
  createEcdhKey : List To2Event → Option EcdhKeyPair
  ecdhDerive : List To2Event → Nat → Bytes → Option Bytes
  sign : List To2Event → Nat → Bytes → Option Bytes
  post : List To2Event → Bytes → Nat → Bytes → Option Bytes → Option HttpPostResponse
  get : List To2Event → Nat → Bytes → Option Bytes

/-- The arguments of `perform_to2`. -/
structure To2Args where
  ownerUrl : Bytes
  guid : Bytes
  deviceKeyHandle : Nat
  hmacKeyHandle : Nat
  to1d : Option Bytes

/-- The trace of a run, oldest event first, and the variables its loop changes. -/
structure To2State where
  trace : List To2Event
  ivCounter : Nat
  bmoSession : BmoSession
  bmoResponses : List (Bytes × Bytes)
  deriving DecidableEq, Repr

def To2State.new : To2State where
  trace := []
  ivCounter := 0
  bmoSession := .new
  bmoResponses := []

/-- A part of `perform_to2`. -/
abbrev To2 (α : Type) : Type := Run To2State FdoError α

def To2State.add (s : To2State) (e : To2Event) : To2State := { s with trace := s.trace ++ [e] }

/-- A call that is answered. -/
def ask {α : Type} (answer : List To2Event → α) (event : α → To2Event) : To2 α where
  run s := (.ok (answer s.trace), s.add (event (answer s.trace)))

/-- A call whose answer is not looked at. -/
def tell (e : To2Event) : To2 Unit := modifyS fun s => s.add e

/-! ## The calls -/

/-- A call that can fail. -/
def askFor {α : Type} (answer : List To2Event → Option α) (event : Option α → To2Event) (e : FdoError) : To2 α := do
  let a ← ask answer event
  orFail a e

def tpmGetRandom (w : World) (what : String) : To2 Bytes :=
  askFor w.random .random (cryptoErr s!"TPM GetRandom failed for {what}")

/-- Random bytes, copied to an array of 16 bytes. -/
def randomNonce (w : World) (what : String) : To2 Bytes := do
  let random ← tpmGetRandom w what
  if random.length = 16 then return random else panics

def tpmCreateEcdhKey (w : World) (failed : String) : To2 EcdhKeyPair :=
  askFor w.createEcdhKey .createEcdhKey (cryptoErr failed)

def tpmEcdhDerive (w : World) (handle : Nat) (peerKey : Bytes) : To2 Bytes :=
  askFor (fun past => w.ecdhDerive past handle peerKey) (.ecdhDerive handle peerKey) (cryptoErr "ECDH key derivation failed")

def tpmSignWithPersistent (w : World) (handle : Nat) (digest : Bytes) : To2 Bytes :=
  askFor (fun past => w.sign past handle digest) (.sign handle digest) (cryptoErr "TPM signing failed")

def messageUrl (ownerUrl : Bytes) (msgType : Nat) : Bytes := ownerUrl ++ utf8 s!"/fdo/200/msg/{msgType}"

def httpPostWithSession (w : World) (url body : Bytes) (msgType : Nat) (token : Option Bytes) (failed : String) :
    To2 HttpPostResponse :=
  askFor (fun past => w.post past url msgType body token) (.post url msgType body token) (httpErr failed)

/-- Send a message and get a response that is not an error message. -/
def exchange (w : World) (args : To2Args) (msgType : Nat) (body : Bytes) (token : Option Bytes) (failed context : String) :
    To2 HttpPostResponse := do
  let resp ← httpPostWithSession w (messageUrl args.ownerUrl msgType) body msgType token failed
  ofOutcome (Dec.eval (checkFdoError resp.messageType resp.body (utf8 context)))
  return resp

/-! ## Steps 1 and 2: both sides say who they are -/

structure To2Hello where
  ack : To2HelloDeviceAck
  sessionToken : Option Bytes
  raw : Bytes
  deriving DecidableEq, Repr

def performTo2Hello (Γ : Ctx) (fuel : Nat) (w : World) (args : To2Args) : To2 To2Hello := do
  let sugar ← randomNonce w "HelloDeviceProbe sugar"
  let helloProbe := buildTo2HelloDeviceProbe args.guid sugar
  let resp ← exchange w args msgTo2HelloDeviceProbe helloProbe none "HTTP POST failed" "TO2.HelloDeviceAck"
  let ack ← ofOutcome (Dec.eval (parseTo2HelloDeviceAck Γ fuel resp.body))
  ofOutcome (verifyHashPrev Γ ack.hashPrevType ack.hashPrev helloProbe)
  return ⟨ack, resp.authToken, resp.body⟩

/-- The bytes the device attestation key signs: the EAT of ProveDevice20. -/
def proveDeviceEat (Γ : Ctx) (args : To2Args) (hello : To2Hello) (xa nonceTo2ProveOvPrep : Bytes) : Bytes :=
  buildTo2ProveDeviceEat args.guid hello.ack.nonceTo2ProveDv
    (buildTo2ProveDevicePayload kexSuite20 hello.ack.cipherSuite xa nonceTo2ProveOvPrep (Γ.sha256 hello.raw))

def proveDeviceAad (hello : To2Hello) : Bytes := if hello.ack.supportsFdo20 = true then buildProveDeviceAad else []

/-- What ProveDevice20 sent and got: `xA`, the nonce the Owner must return, and the response. -/
structure To2ProveDevice where
  xa : Bytes
  nonceTo2ProveOvPrep : Bytes
  response : Bytes
  deriving DecidableEq, Repr

def proveDevice (Γ : Ctx) (w : World) (args : To2Args) (hello : To2Hello) : To2 To2ProveDevice := do
  let ecdhKey ← tpmCreateEcdhKey w "Failed to create TPM ECDH key"
  let random ← tpmGetRandom w "key exchange randomness"
  let xa := buildXa ecdhKey.publicX ecdhKey.publicY random
  let nonceTo2ProveOvPrep ← randomNonce w "NonceTO2ProveOV"
  let payload := proveDeviceEat Γ args hello xa nonceTo2ProveOvPrep
  let sigStructure := buildCoseSigStructure buildCoseProtectedHeader (proveDeviceAad hello) payload
  let signature ← tpmSignWithPersistent w args.deviceKeyHandle (Γ.sha256 sigStructure)
  let resp ← exchange w args msgTo2ProveDevice (buildTo2ProveDeviceFromParts buildCoseProtectedHeader payload signature)
    hello.sessionToken "HTTP POST failed" "TO2.ProveOVHdr"
  return ⟨xa, nonceTo2ProveOvPrep, resp.body⟩

/-- The payload of ProveOVHdr20, whose signature is not checked yet. -/
def readProveOvHdr (fuel : Nat) (response : Bytes) : Outcome FdoError To2ProveOvHdr20Payload := do
  let payload ← Dec.eval (extractCosePayload fuel response)
  Dec.eval (parseProveOvHdrPayload fuel payload)

/-- The session key, with a peer that has not proved anything yet. -/
def agreeSessionKey (Γ : Ctx) (w : World) (xa xb : Bytes) : To2 Bytes := do
  let ecdhKey2 ← tpmCreateEcdhKey w "Failed to recreate ECDH key"
  let ecdhResult ← tpmEcdhDerive w ecdhKey2.handle xb
  let xbRand ← orFail (parseKexRandom xb) (cborErr "Failed to parse xB random bytes")
  let xaRand ← orFail (parseKexRandom xa) (cborErr "Failed to parse xA random bytes")
  return (deriveSessionKeys Γ (buildEcdhShse ecdhResult xaRand xbRand)).sek

/-! ## Step 3: the peer proves that it is the Owner, or a delegate of the Owner -/

/-- Fetch a number of voucher entries, from an index on. -/
def fetchOvEntries (w : World) (args : To2Args) (token : Option Bytes) : Nat → Nat → To2 (List Bytes)
  | 0, _ => return []
  | n + 1, entryNum => do
    let resp ← exchange w args msgTo2GetOvNextEntry (buildTo2GetOvNextEntry entryNum) token "GetOVNextEntry failed"
      "TO2.OVNextEntry"
    let entryBytes ← ofOutcome (Dec.eval (parseOvNextEntry entryNum resp.body))
    let ovEntries ← fetchOvEntries w args token n (entryNum + 1)
    return entryBytes :: ovEntries

/-- Whom the device is talking to. -/
structure To2Peer where
  ownerKey : Bytes
  peerAuthority : PeerAuthority
  proveOvSigner : Bytes
  deriving DecidableEq, Repr

/-- Who signed ProveOVHdr20: the leaf of the delegate chain in its payload, or else the Owner. -/
def verifyProveOvHdr (Γ : Ctx) (response : Bytes) (delegateChain : Option (List Bytes)) (ownerKey : Bytes) :
    Outcome FdoError To2Peer := do
  let s1 ← Outcome.noneAs (parseCoseSign1 response) (cborErr "ProveOVHdr is not a valid COSE_Sign1")
  let aad := domainAad aadTagProveOvHdr fdoProtocolVersion
  match delegateChain with
  | some certDers =>
    let chain ← Outcome.noneAs (verifyDelegateChain Γ certDers ownerKey) (cryptoErr "delegate chain verification failed")
    Outcome.ensure (chain.hasOnboard = true) (cryptoErr "delegate lacks onboard permission")
    Outcome.ensure (verifySign1 Γ s1 aad chain.leafKeyPoint = true)
      (cryptoErr "ProveOVHdr signature verification failed (delegate)")
    return ⟨ownerKey, .delegate chain.hasProvision, chain.leafKeyPoint⟩
  | none =>
    Outcome.ensure (verifySign1 Γ s1 aad ownerKey = true) (cryptoErr "ProveOVHdr signature verification failed")
    return ⟨ownerKey, .ownerDirect, ownerKey⟩

/-- Who signed the rendezvous blob: the leaf of the delegate chain in it, or else the Owner. -/
def verifyTo1dBlob (Γ : Ctx) (fuel : Nat) (ovHeader blob ownerKey : Bytes) : Outcome FdoError Unit := do
  let s1 ← Outcome.noneAs (parseCoseSign1 blob) (cborErr "to1d is not a valid COSE_Sign1")
  let header ← Outcome.mapErr (fun e => FdoError.cborError (utf8 "OVHeader parse: " ++ VoucherError.debug Γ e))
    (parseOvHeader Γ ovHeader)
  let aad := domainAad aadTagOwnerSign header.protver
  let to1dChain ← Outcome.mapErr (fun _ => cryptoErr "to1d delegate chain parse failed")
    (Dec.eval (to1dDelegateChain fuel s1.payload))
  match to1dChain with
  | some certDers =>
    let chain ← Outcome.noneAs (verifyDelegateChain Γ certDers ownerKey) (cryptoErr "to1d delegate chain verification failed")
    Outcome.ensure (chain.hasRedirect = true) (cryptoErr "to1d delegate lacks redirect permission")
    Outcome.ensure (verifySign1 Γ s1 aad chain.leafKeyPoint = true)
      (cryptoErr "to1d signature verification failed (delegate)")
  | none => Outcome.ensure (verifySign1 Γ s1 aad ownerKey = true) (cryptoErr "to1d signature verification failed")

/-- No blob, or an empty one, is nothing to check. -/
def verifyTo1d (Γ : Ctx) (fuel : Nat) (ovHeader ownerKey : Bytes) (to1d : Option Bytes) : Outcome FdoError Unit :=
  match to1d with
  | none => .ok ()
  | some blob => if blob = [] then .ok () else verifyTo1dBlob Γ fuel ovHeader blob ownerKey

/-- Step 3b: the voucher, then the signature of ProveOVHdr20, then its nonce, then the rendezvous blob. -/
def verifyPeer (Γ : Ctx) (fuel : Nat) (args : To2Args) (sent : To2ProveDevice) (proveOv : To2ProveOvHdr20Payload)
    (ovEntries : List Bytes) : Outcome FdoError To2Peer := do
  let ownerKey ← Outcome.mapErr
    (fun e => FdoError.cryptoError (utf8 "voucher verification failed: " ++ VoucherError.debug Γ e))
    (verifyVoucher Γ proveOv.ovHeader proveOv.hmacRaw proveOv.hmac args.hmacKeyHandle args.guid ovEntries)
  let peer ← verifyProveOvHdr Γ sent.response proveOv.delegateChain ownerKey
  verifyNonceEcho "ProveOVHdr20" sent.nonceTo2ProveOvPrep proveOv.nonceTo2ProveOv
  verifyTo1d Γ fuel proveOv.ovHeader ownerKey args.to1d
  return peer

/-- What the handshake has established. -/
structure To2Session where
  hello : To2Hello
  sek : Bytes
  peer : To2Peer
  deriving DecidableEq, Repr

/-- Steps 1 to 3. -/
def handshake (Γ : Ctx) (fuel : Nat) (w : World) (args : To2Args) : To2 To2Session := do
  let hello ← performTo2Hello Γ fuel w args
  let sent ← proveDevice Γ w args hello
  let proveOv ← ofOutcome (readProveOvHdr fuel sent.response)
  let sek ← agreeSessionKey Γ w sent.xa proveOv.xbKeyExchange
  let ovEntries ← fetchOvEntries w args hello.sessionToken proveOv.numOvEntries 0
  let peer ← ofOutcome (verifyPeer Γ fuel args sent proveOv ovEntries)
  return ⟨hello, sek, peer⟩

/-! ## Steps 4 to 6: the session -/

/-- `next_session_iv`: the counter has 64 bits. -/
def nextSessionIv : To2 Bytes where
  run s := (.ok (sessionIv s.ivCounter), { s with ivCounter := (s.ivCounter + 1) % 2 ^ 64 })

/-- Encrypt a message under the session key and send it. -/
def sendSealed (Γ : Ctx) (w : World) (args : To2Args) (session : To2Session) (msgType : Nat) (plaintext : Bytes)
    (failed context : String) : To2 HttpPostResponse := do
  let nonce ← nextSessionIv
  tell (.encrypt session.sek nonce plaintext)
  let encryptedMsg ← ofOutcome (coseEncrypt0A256gcm Γ session.sek nonce plaintext)
  exchange w args msgType encryptedMsg session.hello.sessionToken failed context

/-- Step 4. Returns the nonce of this run, which DoneAck20 must return. -/
def setupDevice (Γ : Ctx) (fuel : Nat) (w : World) (args : To2Args) (session : To2Session) : To2 Bytes := do
  let nonceTo2SetupDv ← randomNonce w "NonceTO2SetupDv"
  let resp ← sendSealed Γ w args session msgTo2DeviceSvcInfoRdy (buildDeviceSvcInfoRdy (some 65535) nonceTo2SetupDv)
    "DeviceSvcInfoRdy failed" "TO2.SetupDevice"
  let plain ← ofOutcome (coseDecrypt0A256gcm Γ fuel session.sek resp.body)
  let _ ← ofOutcome (checkSetupDevice20 Γ fuel plain nonceTo2SetupDv session.peer.proveOvSigner)
  return nonceTo2SetupDv

/-- The ServiceInfo of a round: first the device's description, then the answers of the last round, if any. -/
def takeServiceInfo (round : Nat) : To2 Bytes := do
  let s ← getS
  if round = 1 then return buildDevmodServiceInfo
  else if s.bmoResponses ≠ [] then
    setS { s with bmoResponses := [] }
    return buildServiceInfoArray s.bmoResponses
  else return []

def bmoPrefix : Bytes := utf8 "fdo.bmo:"

/-- A call of `process_bmo_message`. -/
def callBmo (Γ : Ctx) (fuel : Nat) (w : World) (args : To2Args) (peer : To2Peer) (key value : Bytes) : To2 BmoAnswer := do
  let s ← getS
  tell (.bmo (some peer.ownerKey) peer.peerAuthority (some args.guid) key value)
  let answer ← attempt (onPart To2State.bmoSession (fun b s => { s with bmoSession := b })
    (processBmoMessage Γ fuel (some peer.ownerKey) peer.peerAuthority (some args.guid) ⟨key, value, w.get s.trace⟩))
  return answer.join

/-- The entries of a ServiceInfo from the Owner: those for another module are ignored. -/
def processServiceInfo (Γ : Ctx) (fuel : Nat) (w : World) (args : To2Args) (peer : To2Peer) : List (Bytes × Bytes) → To2 Unit
  | [] => pure ()
  | (key, value) :: entries => do
    onlyIf (bmoPrefix.isPrefixOf key = true) (do
      let answer ← callBmo Γ fuel w args peer key value
      modifyS fun s => { s with bmoResponses := s.bmoResponses ++ answer.toList })
    processServiceInfo Γ fuel w args peer entries

/-- One round: true when the Owner is done. A ServiceInfo that does not parse is ignored. -/
def serviceInfoRound (Γ : Ctx) (fuel : Nat) (w : World) (args : To2Args) (session : To2Session) (round : Nat) :
    To2 Bool := do
  let svcInfo ← takeServiceInfo round
  let resp ← sendSealed Γ w args session msgTo2DeviceSvcInfo (buildDeviceSvcInfo false svcInfo) "DeviceSvcInfo failed"
    "TO2.OwnerSvcInfo"
  let plain ← ofOutcome (coseDecrypt0A256gcm Γ fuel session.sek resp.body)
  let ownerSvc ← ofOutcome (parseOwnerSvcInfo plain)
  let entries ← attempt (ofOutcome (parseServiceInfoArray fuel ownerSvc.serviceInfo) : To2 (List (Bytes × Bytes)))
  processServiceInfo Γ fuel w args session.peer (entries.getD [])
  return ownerSvc.isDone

/-- `MAX_SERVICE_INFO_ROUNDS` -/
def maxServiceInfoRounds : Nat := 100000

/-- Rounds until the Owner is done, or until none is left. -/
def serviceInfoRounds (Γ : Ctx) (fuel : Nat) (w : World) (args : To2Args) (session : To2Session) : Nat → Nat → To2 Unit
  | 0, _ => pure ()
  | left + 1, round => do
    let isDone ← serviceInfoRound Γ fuel w args session round
    if isDone = true then pure () else serviceInfoRounds Γ fuel w args session left (round + 1)

/-- Step 6. -/
def finishTo2 (Γ : Ctx) (fuel : Nat) (w : World) (args : To2Args) (session : To2Session) (nonceTo2SetupDv : Bytes) :
    To2 Unit := do
  let resp ← sendSealed Γ w args session msgTo2Done (buildTo2Done session.hello.ack.nonceTo2ProveDv) "Done failed"
    "TO2.DoneAck"
  let plain ← ofOutcome (coseDecrypt0A256gcm Γ fuel session.sek resp.body)
  let nonce ← ofOutcome (parseTo2DoneAck plain)
  ofOutcome (verifyNonceEcho "DoneAck20" nonceTo2SetupDv nonce)

/-- Boot the image, when there is a complete one. -/
def chainloadImage : To2 Unit := do
  let s ← getS
  onlyIf (s.bmoSession.state = .complete ∧ s.bmoSession.imageBuffer ≠ []) (tell (.chainload s.bmoSession.imageBuffer))

/-- Steps 5 and 6, and the boot. -/
def runSession (Γ : Ctx) (fuel : Nat) (w : World) (args : To2Args) (session : To2Session) (nonceTo2SetupDv : Bytes) :
    To2 Unit := do
  serviceInfoRounds Γ fuel w args session maxServiceInfoRounds 1
  finishTo2 Γ fuel w args session nonceTo2SetupDv
  chainloadImage

/-- Step 4 and what follows. -/
def onboard (Γ : Ctx) (fuel : Nat) (w : World) (args : To2Args) (session : To2Session) : To2 Unit := do
  let nonceTo2SetupDv ← setupDevice Γ fuel w args session
  runSession Γ fuel w args session nonceTo2SetupDv

def performTo2 (Γ : Ctx) (fuel : Nat) (w : World) (args : To2Args) : To2 Unit := do
  let session ← handshake Γ fuel w args
  onboard Γ fuel w args session

end FdoUefi
