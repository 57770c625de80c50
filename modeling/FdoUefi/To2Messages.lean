import FdoUefi.Messages
import FdoUefi.Voucher

/-!
# What a device sends and checks in TO2 (`fdo.rs`)

The messages a device builds, the session cipher, and the checks on what comes back. The parsers of the handshake are in
`FdoUefi.Messages`.
-/

namespace FdoUefi

open Prog Prog.Run Cbor

/-! ## Constants -/

def msgTo2HelloDeviceProbe : Nat := 80
def msgTo2ProveDevice : Nat := 82
def msgTo2GetOvNextEntry : Nat := 84
def msgTo2DeviceSvcInfoRdy : Nat := 86
def msgTo2DeviceSvcInfo : Nat := 88
def msgTo2Done : Nat := 90

/-- `CAPB0_SUP_FDO20` -/
def capb0SupFdo20 : UInt8 := 0x04

def hashTypeSha256 : Int := -16

def fdoProtocolVersion : Nat := 200

/-- The `Debug` form of a voucher error. -/
def VoucherError.debug (Γ : Ctx) : VoucherError → Bytes
  | .headerParse text => utf8 "HeaderParse(" ++ Γ.debugStr text ++ utf8 ")"
  | .guidMismatch => utf8 "GuidMismatch"
  | .hmacUnavailable => utf8 "HmacUnavailable"
  | .hmacMismatch => utf8 "HmacMismatch"
  | .entryParse i => utf8 s!"EntryParse({i})"
  | .entrySignatureInvalid i => utf8 s!"EntrySignatureInvalid({i})"
  | .prevHashMismatch i => utf8 s!"PrevHashMismatch({i})"
  | .headerHashMismatch i => utf8 s!"HeaderHashMismatch({i})"
  | .unsupportedKey text => utf8 "UnsupportedKey(" ++ Γ.debugStr text ++ utf8 ")"
  | .unsupportedHash alg => utf8 s!"UnsupportedHash({alg})"
  | .delegateNotSupported => utf8 "DelegateNotSupported"

/-! ## The handshake -/

def buildTo2HelloDeviceProbe (guid sugar : Bytes) : Bytes :=
  Enc.array 6 ++ Enc.bytes [capb0SupFdo20] ++ Enc.array 0 ++ Enc.bytes guid ++ Enc.uint 65535 ++ Enc.array 1 ++
    Enc.negInt (-16) ++ Enc.bytes sugar

/-- The acknowledgement must carry the SHA-256 of the probe. -/
def verifyHashPrev (Γ : Ctx) (hashType : Int) (hashValue probe : Bytes) : Outcome FdoError Unit := do
  Outcome.ensure (hashType = hashTypeSha256)
    (protocolErr s!"HelloDeviceAck20 hashPrev uses hash type {hashType} (only SHA-256 was offered)")
  Outcome.ensure (hashValue = Γ.sha256 probe) (protocolErr "HelloDeviceAck20 hashPrev does not match HelloDeviceProbe")

def To2HelloDeviceAck.supportsFdo20 (ack : To2HelloDeviceAck) : Bool :=
  match ack.capabilityFlags with
  | [] => false
  | b :: _ => (b &&& capb0SupFdo20) != 0

/-- A nonce that comes back must be the one that was sent. -/
def verifyNonceEcho (context : String) (expected received : Bytes) : Outcome FdoError Unit :=
  Outcome.ensure (expected = received) (protocolErr s!"{context} nonce mismatch")

/-- `cipher_suite` is pushed as one byte. -/
def buildTo2ProveDevicePayload (kexSuite : Bytes) (cipherSuite : Int) (xaPublicKey nonceTo2ProveOvPrep hashPrev2 : Bytes) :
    Bytes :=
  Enc.array 5 ++ Enc.text kexSuite ++ [UInt8.ofNat (cipherSuite % 256).toNat] ++ Enc.bytes xaPublicKey ++
    Enc.bytes nonceTo2ProveOvPrep ++ Enc.array 2 ++ Enc.negInt (-16) ++ Enc.bytes hashPrev2

def buildTo2ProveDeviceEat (guid nonceTo2ProveDv fdoPayload : Bytes) : Bytes :=
  Enc.encodeMap 3 ++ Enc.uint 10 ++ Enc.bytes nonceTo2ProveDv ++ Enc.uint 256 ++ Enc.bytes (0x01 :: guid) ++
    [0x39, 0x01, 0x00] ++ fdoPayload

def buildCoseProtectedHeader : Bytes := [0xa1] ++ Enc.uint 1 ++ Enc.negInt (-7)

def buildProveDeviceAad : Bytes := Enc.array 1 ++ Enc.text (utf8 "FDO-TO2-ProveDevice-v1")

def buildCoseSigStructure (prot externalAad payload : Bytes) : Bytes :=
  Enc.array 4 ++ Enc.text (utf8 "Signature1") ++ Enc.bytes prot ++ Enc.bytes externalAad ++ Enc.bytes payload

def buildTo2ProveDeviceFromParts (prot payload signature : Bytes) : Bytes :=
  [0xd2] ++ Enc.array 4 ++ Enc.bytes prot ++ [0xa0] ++ Enc.bytes payload ++ Enc.bytes signature

/-- The index is pushed as one byte. -/
def buildTo2GetOvNextEntry (entryNum : Nat) : Bytes := Enc.array 1 ++ [UInt8.ofNat entryNum]

/-- `[entry_num, entry_bytes]`, for the index that was asked for. -/
def parseOvNextEntry (entryNum : Nat) (response : Bytes) : Dec.R Bytes := do
  let arrLen ← Dec.readArrayLen response
  ensure (arrLen = 2) (cborErr s!"OVNextEntry expected 2 elements, got {arrLen}")
  let respEntryNum ← Dec.readU8 response
  let entryBytes ← Dec.readBytes response
  ensure (respEntryNum = entryNum) (protocolErr s!"OVNextEntry out of order: asked for {entryNum}, got {respEntryNum}")
  return entryBytes

/-! ## The session keys -/

/-- A 16-bit number at a position. -/
def be16At (d : Bytes) (pos : Nat) : Nat := (d.getD pos 0).toNat * 256 + (d.getD (pos + 1) 0).toNat

/-- The random part of `len x, x, len y, y, len random, random`. -/
def parseKexRandom (kexParam : Bytes) : Option Bytes :=
  if kexParam.length < 6 then none
  else
    let pos := 2 + be16At kexParam 0
    if kexParam.length < pos + 2 then none
    else
      let pos := pos + (2 + be16At kexParam pos)
      if kexParam.length < pos + 2 then none
      else
        let randLen := be16At kexParam pos
        if kexParam.length < pos + 2 + randLen then none
        else some ((kexParam.drop (pos + 2)).take randLen)

/-- A value of at most 16 bits of length, after its length. -/
def kexField (bytes : Bytes) : Bytes := beBytes 2 bytes.length ++ bytes

/-- `xA`, in the same form. -/
def buildXa (publicX publicY random : Bytes) : Bytes := kexField publicX ++ kexField publicY ++ kexField random

def buildEcdhShse (shx deviceRand ownerRand : Bytes) : Bytes := shx ++ deviceRand ++ ownerRand

/-- The input of the `i`-th block of the key derivation. -/
def fdoKdfInput (i keyBits : Nat) : Bytes :=
  UInt8.ofNat i :: (utf8 "FIDO-KDF" ++ [0x00] ++ utf8 "AutomaticOnboardTunnel" ++ beBytes 2 keyBits)

/-- One block is made for every 32 bits, of which the first `keyBits / 8` bytes are kept. -/
def fdoKdf (Γ : Ctx) (sharedSecret : Bytes) (keyBits : Nat) : Bytes :=
  let n := keyBits / 32 + (if keyBits % 32 ≠ 0 then 1 else 0)
  ((List.range n).flatMap fun i => Γ.hmacSha256 sharedSecret (fdoKdfInput (i + 1) keyBits)).take (keyBits / 8)

structure To2SessionKeys where
  sek : Bytes
  svk : Bytes
  deriving DecidableEq, Repr

def deriveSessionKeys (Γ : Ctx) (sharedSecret : Bytes) : To2SessionKeys where
  sek := fdoKdf Γ sharedSecret 256
  svk := []

/-! ## The session cipher -/

/-- The initialisation vector for a value of the session counter. -/
def sessionIv (counter : Nat) : Bytes := [0, 0, 0, 0] ++ beBytes 8 counter

def buildCoseEncStructure (protectedHeaders externalAad : Bytes) : Bytes :=
  Enc.array 3 ++ Enc.text (utf8 "Encrypt0") ++ Enc.bytes protectedHeaders ++ Enc.bytes externalAad

def buildA256gcmProtectedHeaders : Bytes := Enc.encodeMap 1 ++ Enc.uint 1 ++ Enc.uint 3

def aes256GcmEncrypt (Γ : Ctx) (key nonce plaintext aad : Bytes) : Outcome FdoError Bytes := do
  Outcome.ensure (key.length = 32) (cryptoErr s!"A256GCM requires 32-byte key, got {key.length}")
  Outcome.ensure (nonce.length = 12) (cryptoErr s!"Invalid nonce length: {nonce.length}")
  match Γ.aesGcmEncrypt key nonce aad plaintext with
  | some ciphertext => return ciphertext
  | none => .err (cryptoErr "AES-256-GCM encryption failed")

def aes256GcmDecrypt (Γ : Ctx) (key nonce ciphertext aad : Bytes) : Outcome FdoError Bytes := do
  Outcome.ensure (key.length = 32) (cryptoErr s!"A256GCM requires 32-byte key, got {key.length}")
  Outcome.ensure (nonce.length = 12) (cryptoErr s!"Invalid nonce length: {nonce.length}")
  Outcome.ensure (16 ≤ ciphertext.length) (cryptoErr "Ciphertext too short for tag")
  match Γ.aesGcmDecrypt key nonce aad ciphertext with
  | some plaintext => return plaintext
  | none => .err (cryptoErr "AES-256-GCM decryption failed")

def coseEncrypt0A256gcm (Γ : Ctx) (key nonce plaintext : Bytes) : Outcome FdoError Bytes := do
  let protectedBytes := buildA256gcmProtectedHeaders
  let ciphertext ← aes256GcmEncrypt Γ key nonce plaintext (buildCoseEncStructure protectedBytes [])
  return [0xd0] ++ Enc.array 3 ++ Enc.bytes protectedBytes ++ Enc.encodeMap 1 ++ Enc.uint 5 ++ Enc.bytes nonce ++
    Enc.bytes ciphertext

def coseDecrypt0A256gcm (Γ : Ctx) (fuel : Nat) (key data : Bytes) : Outcome FdoError Bytes := do
  let (nonce, ciphertext) ← Dec.eval (parseEncryptedMessage fuel data)
  aes256GcmDecrypt Γ key nonce ciphertext (buildCoseEncStructure buildA256gcmProtectedHeaders [])

/-! ## Setting up the device -/

def buildDeviceSvcInfoRdy (maxOwnerSvcInfoSz : Option Nat) (nonceTo2SetupDv : Bytes) : Bytes :=
  Enc.array 3 ++ Enc.null ++ (match maxOwnerSvcInfoSz with | some sz => Enc.uint sz | none => Enc.null) ++
    Enc.bytes nonceTo2SetupDv

inductive SetupDisposition where
  | resale (guid : Bytes)
  | credReuse
  deriving DecidableEq, Repr

/-- DispResale: signed by the key it brings along. -/
def checkSetupResale (Γ : Ctx) (fuel : Nat) (s1 : CoseSign1) (aad setupNonce : Bytes) : Dec.R SetupDisposition := do
  let required : FdoError := protocolErr "SetupDevice20 DispResale requires ReplacementCred"
  let null ← Dec.peekNull s1.payload
  ensure (null = false) required
  let len ← Dec.readArrayLen s1.payload
  ensure (len = 4) required
  Dec.skipValue s1.payload fuel
  let guidBytes ← Dec.readBytes s1.payload
  let nonce ← Dec.readBytes s1.payload
  let owner2Start ← Cur.place
  Dec.skipValue s1.payload fuel
  let owner2Stop ← Cur.place
  let owner2Raw ← Cur.cut s1.payload owner2Start owner2Stop
  let owner2Point ← ofOutcome (Outcome.mapErr
    (fun e => FdoError.cryptoError (utf8 "SetupDevice20 Owner2PubKey: " ++ VoucherError.debug Γ e))
    (parseFdoPublicKey Γ owner2Raw))
  ensure (verifySign1 Γ s1 aad owner2Point = true)
    (cryptoErr "SetupDevice20 signature does not verify against Owner2PubKey")
  ensure (nonce = setupNonce) (protocolErr "SetupDevice20 nonce mismatch")
  ensure (guidBytes.length = 16) (cborErr "SetupDevice20 GUID is not 16 bytes")
  return .resale guidBytes

/-- DispCredReuse: signed by the peer. -/
def checkSetupCredReuse (Γ : Ctx) (s1 : CoseSign1) (aad peerPoint : Bytes) : Dec.R SetupDisposition := do
  let null ← Dec.peekNull s1.payload
  ensure (null = true) (protocolErr "SetupDevice20 DispCredReuse must not carry ReplacementCred")
  ensure (verifySign1 Γ s1 aad peerPoint = true)
    (cryptoErr "SetupDevice20 signature does not verify against the ProveOVHdr20 signer")
  return .credReuse

def checkSetupDevice20 (Γ : Ctx) (fuel : Nat) (data setupNonce peerPoint : Bytes) : Outcome FdoError SetupDisposition := do
  let s1 ← Outcome.noneAs (parseCoseSign1 data) (cborErr "SetupDevice20 is not a COSE_Sign1")
  let aad := domainAad aadTagSetupDevice fdoProtocolVersion
  Dec.eval (do
    let len ← Dec.readArrayLen s1.payload
    ensure (len = 3) (cborErr "SetupDevice20 payload expected 3 elements")
    let disposition ← Dec.readUint s1.payload
    if disposition = 1 then checkSetupResale Γ fuel s1 aad setupNonce
    else if disposition = 2 then checkSetupCredReuse Γ s1 aad peerPoint
    else if disposition = 3 then fail (protocolErr "SetupDevice20 DispDisable is not supported")
    else fail (protocolErr s!"SetupDevice20 has unknown DispositionCode {disposition}"))

/-! ## ServiceInfo -/

/-- `svc_info_kv_bytes`: the value is the encoded item, in a byte string. -/
def svcInfoKv (key : String) (value : Bytes) : Bytes := Enc.array 2 ++ Enc.text (utf8 key) ++ Enc.bytes value

def svcInfoKvText (key value : String) : Bytes := svcInfoKv key (Enc.text (utf8 value))

def buildDevmodServiceInfo : Bytes :=
  Enc.array 11 ++ svcInfoKv "devmod:active" (Enc.boolVal true) ++ svcInfoKv "devmod:nummodules" (Enc.uint 1) ++
    svcInfoKv "devmod:modules" (Enc.array 3 ++ Enc.uint 0 ++ Enc.uint 1 ++ Enc.text (utf8 "fdo.bmo")) ++
    svcInfoKvText "devmod:os" "UEFI" ++ svcInfoKvText "devmod:arch" "x86_64" ++ svcInfoKvText "devmod:version" "1.0" ++
    svcInfoKvText "devmod:device" "FDO-UEFI-Client" ++ svcInfoKvText "devmod:sep" "\\" ++ svcInfoKvText "devmod:bin" "efi" ++
    svcInfoKv "fdo.bmo:active" (Enc.boolVal true) ++
    svcInfoKv "fdo.bmo:supported-types" (Enc.array 1 ++ Enc.text (utf8 "application/x-uefi-image"))

/-- An empty ServiceInfo is an empty array; any other is there as it is. -/
def buildDeviceSvcInfo (isMore : Bool) (serviceInfo : Bytes) : Bytes :=
  Enc.array 3 ++ Enc.null ++ Enc.boolVal isMore ++ (if serviceInfo = [] then Enc.array 0 else serviceInfo)

/-- The ServiceInfo that carries the answers of a round. -/
def buildServiceInfoArray (entries : List (Bytes × Bytes)) : Bytes :=
  Enc.array entries.length ++ entries.flatMap fun e => Enc.array 2 ++ Enc.text e.1 ++ Enc.bytes e.2

structure OwnerSvcInfo where
  isDone : Bool
  isMore : Bool
  serviceInfo : Bytes
  deriving DecidableEq, Repr

/-- `null` is the end; else `[is_more, is_done, service_info]`, of which the last is not looked into. -/
def parseOwnerSvcInfo (data : Bytes) : Outcome FdoError OwnerSvcInfo :=
  if data = [0xf6] then .ok ⟨true, false, []⟩
  else Dec.eval (do
    let arrLen ← Dec.readArrayLen data
    ensure (arrLen = 3) (cborErr s!"OwnerSvcInfo expected 3 elements, got {arrLen}")
    let isMore ← Dec.readBool data
    let isDone ← Dec.readBool data
    let serviceInfo ← Dec.remainingBytes data
    return ⟨isDone, isMore, serviceInfo⟩)

/-- The entries of a ServiceInfo. After the head of one that is not a pair, one item is skipped. -/
def serviceInfoLoop (fuel : Nat) (data : Bytes) : Nat → Dec.R (List (Bytes × Bytes))
  | 0 => return []
  | n + 1 => do
    let entryLen ← Dec.readArrayLen data
    if entryLen ≠ 2 then
      Dec.skipValue data fuel
      serviceInfoLoop fuel data n
    else
      let key ← Dec.readText data
      let value ← Dec.readBytes data
      let rest ← serviceInfoLoop fuel data n
      return (key, value) :: rest

def parseServiceInfoArray (fuel : Nat) (data : Bytes) : Outcome FdoError (List (Bytes × Bytes)) :=
  if data = [] then .ok []
  else Dec.eval (do
    let arrLen ← Dec.readArrayLen data
    serviceInfoLoop fuel data arrLen)

/-! ## The end -/

def buildTo2Done (nonceTo2ProveDv : Bytes) : Bytes := Enc.array 2 ++ Enc.bytes nonceTo2ProveDv ++ Enc.null

/-- The nonce of a DoneAck20. -/
def parseTo2DoneAck (data : Bytes) : Outcome FdoError Bytes := Dec.eval (do
  let arrLen ← Dec.readArrayLen data
  ensure (arrLen = 1) (cborErr s!"DoneAck expected 1 element, got {arrLen}")
  let nonce ← Dec.readBytes data
  ensure (nonce.length = 16) (cborErr s!"DoneAck nonce expected 16 bytes, got {nonce.length}")
  return nonce)

end FdoUefi
