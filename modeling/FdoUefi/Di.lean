import FdoUefi.Csr
import FdoUefi.Dctpm
import FdoUefi.RvFirmware
import FdoUefi.ShortCbor
import FdoUefi.To2
import FdoUefi.Tpm

/-!
# Device Initialization (`di/protocol.rs`, `di/mfginfo.rs`)

DI makes the device's keys in the TPM, has the manufacturer's server answer with an OVHeader, computes its HMAC and writes the
DCTPM index. The server is a function from the type of a message to its answer: each type is sent once in a run, so every way a
server can behave is one of these. The messages that were sent are kept.
-/

namespace FdoUefi

open Prog Prog.Run Cbor

namespace Di

def msgAppStart : Nat := 10
def msgSetCredentials : Nat := 11
def msgSetHmac : Nat := 12
def msgDone : Nat := 13

/-- `MSG_TYPE_ERROR` -/
def msgError : Nat := 255

/-- `FDO_DAK_HANDLE` -/
def fdoDakHandle : Nat := 0x81020002

/-- `FDO_HMAC_HANDLE` -/
def fdoHmacHandle : Nat := 0x81020003

/-! ## CBOR readers -/

/-- A run of a reader; `None` in the source is the only failure. -/
abbrev R (α : Type) : Type := Run Nat Unit α

def cborDecodeAdditional (d : Bytes) (ai : Nat) : R Nat := cborReadUintArg d ai

def cborReadBstr (d : Bytes) : R Bytes := FdoUefi.cborReadBstr d

def cborReadTstr (d : Bytes) : R Bytes := do
  let b ← next d
  ensure (major b = 3) ()
  let len ← cborDecodeAdditional d (additional b)
  takeText d len

def cborReadUint (d : Bytes) : R Nat := cborReadUintValue d

def cborSkipValue (d : Bytes) : R Unit := cborSkipValueTo d (d.length + 1)

/-- The bytes of the item at the cursor. That the item ends inside the data is not checked. -/
def cborCaptureValue (d : Bytes) : R Bytes := do
  let start ← getS
  cborSkipValue d
  let stop ← getS
  slice d start stop

structure OvHeader where
  guid : Bytes
  rvInfo : Bytes
  deviceInfo : Bytes
  pubKey : Bytes
  certChainHash : Bytes
  rawCbor : Bytes
  deriving DecidableEq, Repr

/-- OVDevCertChainHash: null, another item, or nothing in an array of five. -/
def readCertChainHash (d : Bytes) (count : Nat) : R Bytes := do
  if 6 ≤ count then
    match ← (peek d : R (Option UInt8)) with
    | some 0xf6 => do
      advance 1
      return [0xf6]
    | _ => cborCaptureValue d
  else return []

def parseOvHeaderCbor (d : Bytes) : Outcome Unit OvHeader :=
  (do
    let b ← next d
    ensure (major b = 4) ()
    let count ← cborDecodeAdditional d (additional b)
    ensure (5 ≤ count) ()
    let _protVer ← cborReadUint d
    let guid ← cborReadBstr d
    ensure (guid.length = 16) ()
    let rvInfo ← cborCaptureValue d
    let deviceInfo ← cborReadTstr d
    let pubKey ← cborCaptureValue d
    let certChainHash ← readCertChainHash d count
    return { guid, rvInfo, deviceInfo, pubKey, certChainHash, rawCbor := d } : R OvHeader).eval

/-- The OVHeader of a DISetCredentials, `[CapabilityFlags, VendorCapFlags, bstr .cbor OVHeader]`. -/
def parseDiSetCredentials (d : Bytes) : Outcome Unit OvHeader := do
  let header ←
    (do
      let b ← next d
      ensure (b = 0x83) ()
      let _capabilityFlags ← cborReadBstr d
      cborSkip d
      cborReadBstr d : R Bytes).eval
  parseOvHeaderCbor header

/-! ## Messages -/

/-- The head of a string, at most two length bytes. -/
def strHead (m len : Nat) : Bytes :=
  if len < 24 then [UInt8.ofNat (m * 32 + len)]
  else if len < 256 then [UInt8.ofNat (m * 32 + 24), UInt8.ofNat len]
  else [UInt8.ofNat (m * 32 + 25), UInt8.ofNat (len >>> 8), UInt8.ofNat len]

/-- `encode_tstr_into`: a text of 65536 bytes or more is written without a head. -/
def encodeTstrInto (s : Bytes) : Bytes := if s.length < 65536 then strHead 3 s.length ++ s else s

/-- `encode_bstr_into` -/
def encodeBstrInto (data : Bytes) : Bytes := encodeBstr data

/-- The DeviceMfgInfo with the key type SECP256R1 and the key encoding X5CHAIN, in a byte string. -/
def deviceMfgInfo (serialNumber model csrDer : Bytes) : Bytes :=
  encodeBstrInto ([0x85, 10, 2] ++ encodeTstrInto serialNumber ++ encodeTstrInto model ++ encodeBstrInto csrDer)

def deviceSerial : Bytes := utf8 "UEFI-DI-TEST-001"

def deviceModel : Bytes := utf8 "FDO UEFI Reference Device"

/-- `[h'04', [], DeviceMfgInfo]` -/
def buildDiAppStart (mfgInfo : Bytes) : Bytes := [0x83, 0x41, 0x04, 0x80] ++ mfgInfo

/-- `[[5, hmac]]` -/
def buildDiSetHmac (hmac : Bytes) : Bytes := [0x81, 0x82, 0x05] ++ strHead 2 hmac.length ++ hmac

/-- The head of DeviceInfo in a DCTPM: one length byte, whatever the length. -/
def deviceInfoHead (len : Nat) : Bytes :=
  if len < 24 then [UInt8.ofNat (0x60 + len)] else [0x78, UInt8.ofNat len]

/-- A 32-bit number with its head. -/
def handleItem (handle : Nat) : Bytes := 0x1a :: beBytes 4 handle

/-- The DCTPM of an OVHeader, with the minimum revision its rendezvous information asks for. -/
def buildDctpm (Γ : Ctx) (h : OvHeader) (dakHandle hmacHandle : Nat) : Bytes :=
  [0x8b, 0x1a, 0x46, 0x44, 0x4f, 0x31, 0xf5, 0x18, 200] ++ deviceInfoHead h.deviceInfo.length ++ h.deviceInfo ++
    [0x50] ++ h.guid ++ h.rvInfo ++ [0x82, 0x2f, 0x58, 32] ++ Γ.sha256 h.pubKey ++ [0x00] ++ handleItem dakHandle ++
    handleItem hmacHandle ++ Dctpm.encodeUint (Dctpm.rvMinFirmwareRev h.rvInfo)

end Di

/-! ## The run -/

structure DiMessage where
  url : Bytes
  msgType : Nat
  payload : Bytes
  authToken : Option Bytes
  deriving DecidableEq, Repr

/-- What runs of the client leave behind: the TPM, the DI messages they sent, and the firmware they chain-loaded, each oldest
first. -/
structure Machine where
  tpm : Tpm
  sent : List DiMessage
  chainloaded : List (Fw.FirmwarePayload × Bytes)

/-- The ways DI fails, as `Status` values. -/
inductive DiFailure where
  | notFound
  | deviceError
  | protocolError
  deriving DecidableEq, Repr

namespace Di

/-- A part of `run_di_protocol`. -/
abbrev DiRun (α : Type) : Type := Run Machine DiFailure α

/-- A call to the TPM. -/
def onTpm {ε α : Type} (m : Run Tpm ε α) : Run Machine ε α := onPart Machine.tpm (fun t s => { s with tpm := t }) m

/-- A call to the TPM that must succeed. -/
def tpmOrFail {α : Type} (m : TpmRun α) : DiRun α := mapErr (fun _ => .deviceError) (onTpm m)

/-- The server: the URL of the command line, or a well-known name. -/
def getDiServerUrl (cliUrl : Option Bytes) : Option Bytes := some (cliUrl.getD (utf8 "http://_fdo._tcp:8080"))

/-- Send a message: type, body and token of an answer that is not an error message. -/
def sendDiMessage (server : Nat → Option HttpPostResponse) (serverUrl : Bytes) (msgType : Nat) (payload : Bytes)
    (authToken : Option Bytes) : DiRun (Nat × Bytes × Option Bytes) := do
  modifyS fun s => { s with sent := s.sent ++ [⟨messageUrl serverUrl msgType, msgType, payload, authToken⟩] }
  let resp ← orFail (server msgType) .protocolError
  let responseType := resp.messageType.getD (msgType + 1)
  ensure (responseType ≠ msgError) .protocolError
  return (responseType, resp.body, resp.authToken)

/-- The request for a certificate of the device key, signed in the TPM. -/
def generateCsr (Γ : Ctx) (D : TpmDevice) (subjectCn publicX publicY : Bytes) (signHandle : Nat) : TpmRun Bytes := do
  let tbs := buildCsrTbs subjectCn publicX publicY
  let signature ← tpmSignEcdsa D signHandle (Γ.sha256 tbs)
  ofOutcome (assembleCsrDer tbs signature)

/-- Steps 2 to 4: the device key and its certificate request. -/
def makeDeviceKey (Γ : Ctx) (D : TpmDevice) : DiRun Bytes := do
  let key ← tpmOrFail (tpmCreateAndPersistSigningKey D fdoDakHandle)
  match ← (attempt (onTpm (generateCsr Γ D deviceSerial key.publicX key.publicY key.handle)) : DiRun (Option Bytes)) with
  | some csr => return csr
  | none =>
    tpmOrFail (tpmFlushContext D key.handle)
    fail .deviceError

/-- Steps 5 to 7: DIAppStart, and the OVHeader and session token of the answer. -/
def appStart (server : Nat → Option HttpPostResponse) (serverUrl csrDer : Bytes) : DiRun (OvHeader × Option Bytes) := do
  let msg := buildDiAppStart (deviceMfgInfo deviceSerial deviceModel csrDer)
  let (msgType, payload, token) ← sendDiMessage server serverUrl msgAppStart msg none
  ensure (msgType = msgSetCredentials) .protocolError
  let header ← ofOutcome ((parseDiSetCredentials payload).noneAs .protocolError)
  return (header, token)

/-- Steps 8 and 9: the HMAC key, and DISetHMAC with the HMAC of the OVHeader. -/
def setHmac (D : TpmDevice) (server : Nat → Option HttpPostResponse) (serverUrl : Bytes) (header : OvHeader)
    (token : Option Bytes) : DiRun Unit := do
  let (_, hmacValue) ← tpmOrFail (tpmCreateHmacAndPersist D header.rawCbor fdoHmacHandle)
  let (msgType, _, _) ← sendDiMessage server serverUrl msgSetHmac (buildDiSetHmac hmacValue) token
  ensure (msgType = msgDone) .protocolError

/-- Step 11: the DCTPM index. -/
def writeDctpm (Γ : Ctx) (D : TpmDevice) (header : OvHeader) : DiRun Unit :=
  tpmOrFail (tpmNvWrite D dctpmNvIndex (dctpmPadded (buildDctpm Γ header fdoDakHandle fdoHmacHandle)) dctpmNvAttributes)

end Di

/-- `run_di_protocol`: success, or the status it returns instead. -/
def runDiProtocol (Γ : Ctx) (D : TpmDevice) (server : Nat → Option HttpPostResponse) (cliUrl : Option Bytes) :
    Di.DiRun Unit := do
  Di.tpmOrFail (tpmFlushAllTransient D)
  let serverUrl ← orFail (Di.getDiServerUrl cliUrl) .notFound
  let csrDer ← Di.makeDeviceKey Γ D
  let (header, token) ← Di.appStart server serverUrl csrDer
  Di.setHmac D server serverUrl header token
  Di.writeDctpm Γ D header

end FdoUefi
