import FdoUefi.Decoder

/-!
# The messages of TO1 and TO2 (`fdo.rs`)

The parsers of the responses a device receives, over `CborDecoder`. `fuel` is the recursion depth granted to `skip_value`.
-/

namespace FdoUefi

open Prog Prog.Run Cbor

/-- `MSG_ERROR` -/
def msgError : Nat := 255

/-- The two numbers at the start of an error message and its text, as far as they can be read. -/
def readFdoError (body : Bytes) : Dec.R (Nat × Bytes) := do
  match ← attempt (Dec.readArrayLen body) with
  | none => return (0, utf8 "<malformed error message>")
  | some n =>
    if 3 ≤ n then
      let code ← otherwise 0 (Dec.readUint body)
      let _prev ← otherwise 0 (Dec.readUint body)
      let msg ← otherwise (utf8 "<unparseable>") (Dec.readText body)
      return (code, msg)
    else return (0, utf8 "<malformed error message>")

/-- A response of message type 255 is an error, whatever its body. -/
def checkFdoError (messageType : Option Nat) (body context : Bytes) : Dec.R Unit :=
  if messageType ≠ some msgError then pure ()
  else do
    let (code, msg) ← readFdoError body
    fail (.protocolError (context ++ utf8 s!": FDO error {code}: " ++ msg))

/-! ## TO1 -/

structure To1HelloRvAck where
  nonce4 : Bytes
  capabilityFlags : Bytes
  deriving DecidableEq, Repr

def parseTo1HelloRvAck (fuel : Nat) (data : Bytes) : Dec.R To1HelloRvAck := do
  let arrLen ← Dec.readArrayLen data
  ensure (arrLen = 3) (cborErr s!"HelloRVAck expected 3 elements, got {arrLen}")
  let capabilityFlags ← Dec.readBytes data
  Dec.skipValue data fuel
  let nonce4 ← Dec.readBytes data
  ensure (nonce4.length = 16) (cborErr s!"nonce4 expected 16 bytes, got {nonce4.length}")
  return { nonce4, capabilityFlags }

/-- `to1d_cose` of `To1RvRedirect`: the first blob, cut out of the message as it was received. -/
def parseTo1RvRedirect (fuel : Nat) (data : Bytes) : Dec.R Bytes := do
  let arrLen ← Dec.readArrayLen data
  ensure (arrLen = 3) (cborErr "RVRedirect expected 3 elements")
  let num ← Dec.readUint data
  let idx ← Dec.readUint data
  let len ← Dec.readArrayLen data
  ensure (idx = 0 ∧ len ≠ 0 ∧ len ≤ num) (cborErr s!"malformed RVRedirect: numTo1ds={num} idxTo1ds={idx} len={len}")
  let start ← Cur.place
  Dec.skipValue data fuel
  let stop ← Cur.place
  Cur.cut data start stop

/-- The bytes one element of a `Vec<Vec<u8>>` takes. -/
def vecSize : Nat := 24

/-- A `CertChainOrNull`. Room for the announced number of certificates is allocated before the first is read. -/
def readCertChainOrNull (d : Bytes) : Dec.R (Option (List Bytes)) := do
  if ← Dec.peekNull d then
    Dec.readNull d
    return none
  else
    let len ← Dec.readArrayLen d
    ensure (len ≠ 0) (cborErr "empty delegate chain")
    Cur.withCapacity len vecSize
    let certs ← collectN len (Dec.readBytes d)
    return some certs

/-- The delegate chain of a to1d payload. -/
def to1dDelegateChain (fuel : Nat) (payload : Bytes) : Dec.R (Option (List Bytes)) := do
  let len ← Dec.readArrayLen payload
  if len = 2 then return none
  else if len = 3 then
    Dec.skipValue payload fuel
    Dec.skipValue payload fuel
    let wrapped ← Dec.readBytes payload
    Cur.inside (readCertChainOrNull wrapped)
  else fail (cborErr s!"to1d payload has {len} elements")

/-! ## TO2 -/

structure To2HelloDeviceAck where
  capabilityFlags : Bytes
  nonceTo2ProveDv : Bytes
  kexSuite : Int
  cipherSuite : Int
  maxOwnerMsgSize : Nat
  hashPrevType : Int
  hashPrev : Bytes
  deriving DecidableEq, Repr

/-- The first 16 bytes of a nonce, or zeros when it is shorter. -/
def nonceOrZero (bytes : Bytes) : Bytes := if 16 ≤ bytes.length then bytes.take 16 else List.replicate 16 0

def parseTo2HelloDeviceAckV11 (fuel : Nat) (data : Bytes) : Dec.R To2HelloDeviceAck := do
  let nonce ← Dec.readBytes data
  ensure (nonce.length = 16) (cborErr s!"FDO 1.1 nonce expected 16 bytes, got {nonce.length}")
  Dec.skipValue data fuel
  let maxOwnerMsgSize ← Dec.readUint data
  let cipherSuite ← Dec.readInt data
  Dec.skipValue data fuel
  return {
    capabilityFlags := [0x01], nonceTo2ProveDv := nonce, kexSuite := 1, cipherSuite := asI8 cipherSuite,
    maxOwnerMsgSize := maxOwnerMsgSize % 2 ^ 16, hashPrevType := 0, hashPrev := [] }

/-- `KEX_SUITE_20` -/
def kexSuite20 : Bytes := utf8 "ECDH256"

/-- The `Debug` form of a list of texts. -/
def debugList (Γ : Ctx) (texts : List Bytes) : Bytes :=
  utf8 "[" ++ (utf8 ", ").intercalate (texts.map Γ.debugStr) ++ utf8 "]"

/-- The key exchange suite, if the Owner offers it. -/
def selectKexSuite20 (Γ : Ctx) (offered : List Bytes) : Outcome FdoError Bytes :=
  if kexSuite20 ∈ offered then .ok kexSuite20
  else .err (.cborError (utf8 "Owner offered no supported key exchange suite: " ++ debugList Γ offered ++
    utf8 " (this client supports " ++ kexSuite20 ++ utf8 "; ASYMKEX is not used in FDO 2.0)"))

/-- An array of five elements is an error message or an acknowledgement of FDO 1.1. -/
def parseTo2HelloDeviceAck5 (fuel : Nat) (data : Bytes) : Dec.R To2HelloDeviceAck := do
  let first ← Dec.peek data
  let majorType := major (first.getD 0)
  if majorType = 0 ∨ majorType = 3 then
    let errorCode ← Dec.readUint data
    let _prevMsg ← Dec.readUint data
    let errorText ← Dec.readText data
    fail (.cborError (utf8 s!"Server error {errorCode}: " ++ errorText))
  else parseTo2HelloDeviceAckV11 fuel data

/-- An array of eight elements is an acknowledgement of FDO 2.0. -/
def parseTo2HelloDeviceAck8 (Γ : Ctx) (fuel : Nat) (data : Bytes) : Dec.R To2HelloDeviceAck := do
  let capabilityFlags ← Dec.readBytes data
  Dec.skipValue data fuel
  Dec.skipValue data fuel
  let maxOwnerMsgSize ← Dec.readUint data
  let kexLen ← Dec.readArrayLen data
  let offered ← collectN kexLen (Dec.readText data)
  let _ ← ofOutcome (selectKexSuite20 Γ offered)
  let cipherLen ← Dec.readArrayLen data
  let cipherSuite ← (if 0 < cipherLen then Dec.readInt data else pure 0)
  repeatN (cipherLen - 1) (Dec.skipValue data fuel)
  let nonceBytes ← Dec.readBytes data
  let hashArrLen ← Dec.readArrayLen data
  let hashPrevType ← Dec.readInt data
  let hashPrev ← (if 1 < hashArrLen then Dec.readBytes data else pure [])
  return {
    capabilityFlags, nonceTo2ProveDv := nonceOrZero nonceBytes, kexSuite := 1, cipherSuite := asI8 cipherSuite,
    maxOwnerMsgSize := maxOwnerMsgSize % 2 ^ 16, hashPrevType, hashPrev }

def parseTo2HelloDeviceAck (Γ : Ctx) (fuel : Nat) (data : Bytes) : Dec.R To2HelloDeviceAck := do
  let arrLen ← Dec.readArrayLen data
  if arrLen = 5 then parseTo2HelloDeviceAck5 fuel data
  else
    ensure (arrLen = 8) (cborErr s!"HelloDeviceAck expected 5 (v1.1) or 8 (v2.0) elements, got {arrLen}")
    parseTo2HelloDeviceAck8 Γ fuel data

/-- The optional tag 18 before a COSE_Sign1. -/
def skipCoseTag (data : Bytes) : Dec.R Unit := do
  match ← Dec.peek data with
  | none => pure ()
  | some b =>
    if major b = 6 then
      let tag ← Dec.readTag data
      ensure (tag = 18) (cborErr s!"Expected COSE_Sign1 tag 18, got {tag}")
    else pure ()

/-- The payload of a COSE_Sign1, not verified: both headers are skipped. -/
def extractCosePayload (fuel : Nat) (data : Bytes) : Dec.R Bytes := do
  skipCoseTag data
  let arrLen ← Dec.readArrayLen data
  ensure (arrLen = 4) (cborErr s!"COSE_Sign1 expected 4 elements, got {arrLen}")
  Dec.skipValue data fuel
  Dec.skipValue data fuel
  Dec.readBytes data

/-- `To2ProveOvHdr20Payload`. `hmacRaw` is the span of the HMac structure as it was received. -/
structure To2ProveOvHdr20Payload where
  ovHeader : Bytes
  numOvEntries : Nat
  hmac : Bytes
  hmacRaw : Bytes
  nonceTo2ProveOv : Bytes
  xbKeyExchange : Bytes
  maxOwnerMsgSize : Nat
  ownerPubKeyRaw : Bytes
  delegateChain : Option (List Bytes)
  deriving DecidableEq, Repr

def parseProveOvHdrPayload (fuel : Nat) (data : Bytes) : Dec.R To2ProveOvHdr20Payload := do
  let arrLen ← Dec.readArrayLen data
  ensure (arrLen = 8) (cborErr s!"ProveOVHdr payload expected 8 elements, got {arrLen}")
  let ovHeader ← Dec.readBytes data
  let numOvEntries ← Dec.readUint data
  let hmacStart ← Cur.place
  let hmacLen ← Dec.readArrayLen data
  let _hmacType ← Dec.readInt data
  let hmac ← (if 1 < hmacLen then Dec.readBytes data else pure [])
  repeatN (hmacLen - 2) (Dec.skipValue data fuel)
  let hmacStop ← Cur.place
  let hmacRaw := (range? data hmacStart hmacStop).getD []
  let nonceBytes ← Dec.readBytes data
  let xbKeyExchange ← Dec.readBytes data
  let maxOwnerMsgSize ← Dec.readUint data
  let ownerStart ← Cur.place
  Dec.skipValue data fuel
  let ownerStop ← Cur.place
  let ownerPubKeyRaw ← Cur.cut data ownerStart ownerStop
  let delegateChain ← readCertChainOrNull data
  return {
    ovHeader, numOvEntries := numOvEntries % 2 ^ 8, hmac, hmacRaw, nonceTo2ProveOv := nonceOrZero nonceBytes,
    xbKeyExchange, maxOwnerMsgSize := maxOwnerMsgSize % 2 ^ 16, ownerPubKeyRaw, delegateChain }

/-- The unprotected header of a COSE_Encrypt0: the last initialisation vector stands. -/
def encryptedHeaderLoop (fuel : Nat) (data : Bytes) : Nat → Bytes → Dec.R Bytes
  | 0, nonce => return nonce
  | n + 1, nonce => do
    let key ← Dec.readUint data
    if key = 5 then
      let iv ← Dec.readBytes data
      encryptedHeaderLoop fuel data n iv
    else
      Dec.skipValue data fuel
      encryptedHeaderLoop fuel data n nonce

/-- Nonce and ciphertext of a COSE_Encrypt0. A tag number of 24 or more is read as an integer item after the tag byte. -/
def parseEncryptedMessage (fuel : Nat) (data : Bytes) : Dec.R (Bytes × Bytes) := do
  let first ← Dec.peek data
  let majorType := major (first.getD 0)
  ensure (majorType = 6) (cborErr s!"Expected COSE_Encrypt0 tag, got major type {majorType}")
  let tagByte ← Dec.readByte data
  let tagNum ← (if additional tagByte < 24 then pure (additional tagByte) else Dec.readUint data)
  ensure (tagNum = 16) (cborErr s!"Expected tag 16 (COSE_Encrypt0), got {tagNum}")
  let arrLen ← Dec.readArrayLen data
  ensure (arrLen = 3) (cborErr s!"COSE_Encrypt0 expected 3 elements, got {arrLen}")
  let _protected ← Dec.readBytes data
  let mapLen ← Dec.readMapLen data
  let nonce ← encryptedHeaderLoop fuel data mapLen []
  let ciphertext ← Dec.readBytes data
  ensure (nonce ≠ []) (cborErr "Missing IV in COSE_Encrypt0")
  return (nonce, ciphertext)

end FdoUefi
