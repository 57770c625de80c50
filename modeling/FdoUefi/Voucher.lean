import FdoUefi.Delegate

/-!
# Ownership vouchers (`voucher.rs`)

The Owner key of a device is the last key of a chain: the manufacturer key in the voucher header, which the TPM's HMAC binds
to the device, signs the first entry, and the key in each entry signs the next.
-/

namespace FdoUefi

open Prog Prog.Run Cbor

def hashAlgSha256 : Int := -16

def pkTypeSecp256r1 : Int := 10
def pkTypeSecp384r1 : Int := 11

def pkEncCrypto : Int := 0
def pkEncX509 : Int := 1
def pkEncX5chain : Int := 2
def pkEncCosekey : Int := 3

/-- Why a voucher is rejected. The number is the index of the entry. -/
inductive VoucherError where
  | headerParse (text : Bytes)
  | guidMismatch
  | hmacUnavailable
  | hmacMismatch
  | entryParse (i : Nat)
  | entrySignatureInvalid (i : Nat)
  | prevHashMismatch (i : Nat)
  | headerHashMismatch (i : Nat)
  | unsupportedKey (text : Bytes)
  | unsupportedHash (alg : Int)
  | delegateNotSupported
  deriving DecidableEq, Repr

def unsupportedKey (s : String) : VoucherError := .unsupportedKey (utf8 s)
def headerParse (s : String) : VoucherError := .headerParse (utf8 s)

/-- `option.ok_or(e)?` -/
def okOr {α ε : Type} (m : Run Nat Unit α) (e : ε) : Run Nat ε α := mapErr (fun _ => e) m

structure OvHeaderInfo where
  protver : Nat
  guid : Bytes
  deviceInfo : Bytes
  mfgKeyPoint : Bytes
  deriving DecidableEq, Repr

structure OvEntryPayload where
  hashPrevAlg : Int
  hashPrev : Bytes
  hashHdrAlg : Int
  hashHdr : Bytes
  pubKeyPoint : Bytes
  deriving DecidableEq, Repr

/-! ## Public keys -/

/-- The certificates of an X5CHAIN, leaf first: an array of byte strings, or one byte string. -/
def x5chainCerts (cbor : Bytes) : Outcome VoucherError (List Bytes) :=
  (do
    let b ← okOr (next cbor) (unsupportedKey "X5CHAIN empty")
    if major b ≠ 4 then
      if major b = 2 then
        setS 0
        let der ← okOr (cborReadBstr cbor) (unsupportedKey "X5CHAIN bare bstr unreadable")
        return [der]
      else fail (unsupportedKey "X5CHAIN pkBody is not array or bstr")
    else
      let arrLen ← okOr (cborReadUintArg cbor (additional b)) (unsupportedKey "X5CHAIN bad array header")
      ensure (arrLen ≠ 0) (unsupportedKey "X5CHAIN empty certificate array")
      ensure (arrLen ≤ maxDelegateChainLen) (unsupportedKey "X5CHAIN too long")
      collectN arrLen (okOr (cborReadBstr cbor) (unsupportedKey "X5CHAIN cert is not a bstr")) :
    Run Nat VoucherError (List Bytes)).eval

/-- The entries of a COSE_Key. A coordinate that is not a byte string counts as absent, and the cursor stays where the failed
read left it. -/
def coseKeyLoop (body : Bytes) : Nat → Option Bytes → Option Bytes → Run Nat VoucherError (Option Bytes × Option Bytes)
  | 0, x, y => return (x, y)
  | n + 1, x, y => do
    let key ← okOr (cborReadIntValue body) (unsupportedKey "bad COSE_Key label")
    if key = -2 then
      let x ← attempt (cborReadBstr body)
      coseKeyLoop body n x y
    else if key = -3 then
      let y ← attempt (cborReadBstr body)
      coseKeyLoop body n x y
    else
      okOr (cborSkip body) (unsupportedKey "bad COSE_Key value")
      coseKeyLoop body n x y

/-- The point of a COSE_Key map. -/
def coseKeyP256Point (body : Bytes) : Outcome VoucherError Bytes :=
  (do
    let b ← okOr (next body) (unsupportedKey "empty COSE_Key")
    ensure (major b = 5) (unsupportedKey "COSE_Key is not a map")
    let mapLen ← okOr (cborReadUintArg body (additional b)) (unsupportedKey "bad COSE_Key map header")
    let xy ← coseKeyLoop body mapLen none none
    match xy with
    | (some x, some y) =>
      if x.length = 32 ∧ y.length = 32 then return 0x04 :: (x ++ y)
      else fail (unsupportedKey "COSE_Key missing 32-byte x/y")
    | _ => fail (unsupportedKey "COSE_Key missing 32-byte x/y") : Run Nat VoucherError Bytes).eval

/-- The point of an FDO `PublicKey = [pkType, pkEnc, pkBody]`. -/
def parseFdoPublicKey (Γ : Ctx) (data : Bytes) : Outcome VoucherError Bytes :=
  (do
    let b ← okOr (next data) (unsupportedKey "empty PublicKey")
    ensure (major b = 4) (unsupportedKey "PublicKey is not an array")
    let arrLen ← okOr (cborReadUintArg data (additional b)) (unsupportedKey "bad PublicKey array header")
    ensure (3 ≤ arrLen) (unsupportedKey "PublicKey array too short")
    let pkType ← okOr (cborReadIntValue data) (unsupportedKey "bad pkType")
    let pkEnc ← okOr (cborReadIntValue data) (unsupportedKey "bad pkEnc")
    ensure (pkType ≠ pkTypeSecp384r1) (unsupportedKey "SECP384R1 not implemented")
    ensure (pkType = pkTypeSecp256r1) (unsupportedKey "non-EC pkType")
    if pkEnc = pkEncX509 then
      let der ← okOr (cborReadBstr data) (unsupportedKey "pkBody is not a bstr")
      ofOutcome (Outcome.noneAs (parseSpkiP256Point der) (unsupportedKey "not a valid P-256 SubjectPublicKeyInfo"))
    else if pkEnc = pkEncCosekey then
      let pos ← getS
      let body ← slice data pos data.length
      ofOutcome (coseKeyP256Point body)
    else if pkEnc = pkEncX5chain then
      let pos ← getS
      let body ← slice data pos data.length
      let chain ← ofOutcome (x5chainCerts body)
      ofOutcome (Outcome.noneAs (verifyX5chainInternal Γ chain) (unsupportedKey "X5CHAIN validation failed"))
    else if pkEnc = pkEncCrypto then fail (unsupportedKey "Crypto encoding")
    else fail (unsupportedKey "unknown pkEnc") : Run Nat VoucherError Bytes).eval

/-! ## Header and entries -/

def decodeTstr (data : Bytes) : Outcome Unit Bytes :=
  (do
    let b ← next data
    ensure (major b = 3) ()
    let len ← cborReadUintArg data (additional b)
    takeText data len : Run Nat Unit Bytes).eval

def parseOvHeaderRun (Γ : Ctx) (data : Bytes) : Run Nat VoucherError OvHeaderInfo := do
  let b ← okOr (next data) (headerParse "empty OVHeader")
  ensure (major b = 4) (headerParse "OVHeader is not an array")
  let arrLen ← okOr (cborReadUintArg data (additional b)) (headerParse "bad OVHeader array header")
  ensure (5 ≤ arrLen) (headerParse "OVHeader array too short")
  let protver ← okOr (cborReadUintValue data) (headerParse "bad OVHProtVer")
  let guid ← okOr (cborReadBstr data) (headerParse "bad OVGuid")
  ensure (guid.length = 16) (headerParse "OVGuid is not 16 bytes")
  okOr (cborSkip data) (headerParse "bad OVRVInfo")
  let diStart ← getS
  okOr (cborSkip data) (headerParse "bad OVDeviceInfo")
  let diStop ← getS
  let deviceInfo ←
    ofOutcome (Outcome.noneAs (decodeTstr ((range? data diStart diStop).getD [])) (headerParse "OVDeviceInfo is not a tstr"))
  let pkStart ← getS
  okOr (cborSkip data) (headerParse "bad OVPubKey")
  let pkStop ← getS
  let pk ← orFail (range? data pkStart pkStop) (headerParse "OVPubKey span out of range")
  let mfgKeyPoint ← ofOutcome (parseFdoPublicKey Γ pk)
  return { protver := protver % 2 ^ 16, guid, deviceInfo, mfgKeyPoint }

/-- `OVHeader = [protver, guid, rvinfo, deviceinfo, pubkey, devcertchainhash]`. -/
def parseOvHeader (Γ : Ctx) (data : Bytes) : Outcome VoucherError OvHeaderInfo := (parseOvHeaderRun Γ data).eval

/-- A `Hash = [alg, bstr]`. -/
def readHash (data : Bytes) : Run Nat Unit (Int × Bytes) := do
  let b ← next data
  ensure (major b = 4) ()
  let n ← cborReadUintArg data (additional b)
  ensure (2 ≤ n) ()
  let alg ← cborReadIntValue data
  let value ← cborReadBstr data
  repeatN (n - 2) (cborSkip data)
  return (alg, value)

/-- `OVEntryPayload = [hashPrevEntry, hashHdrInfo, extra, pubKey]`. -/
def parseOvEntryPayload (Γ : Ctx) (data : Bytes) : Outcome Unit OvEntryPayload :=
  (do
    let b ← next data
    ensure (major b = 4) ()
    let arrLen ← cborReadUintArg data (additional b)
    ensure (4 ≤ arrLen) ()
    let (hashPrevAlg, hashPrev) ← readHash data
    let (hashHdrAlg, hashHdr) ← readHash data
    cborSkip data
    let pkStart ← getS
    cborSkip data
    let pkStop ← getS
    let pk ← orFail (range? data pkStart pkStop) ()
    let pubKeyPoint ← mapErr (fun _ => ()) (ofOutcome (parseFdoPublicKey Γ pk))
    return { hashPrevAlg, hashPrev, hashHdrAlg, hashHdr, pubKeyPoint } : Run Nat Unit OvEntryPayload).eval

/-! ## Verification -/

/-- One entry: its index, the key that must have signed it, and the hash it must carry; returns the key it passes on. -/
def verifyEntry (Γ : Ctx) (header : OvHeaderInfo) (i : Nat) (prevKey prevHash entry : Bytes) : Outcome VoucherError Bytes := do
  let s1 ← Outcome.noneAs (parseCoseSign1 entry) (.entryParse i)
  let delegated ← Outcome.noneAs (hasDelegateHeader s1.unprotectedHeader) .delegateNotSupported
  Outcome.ensure (delegated = false) .delegateNotSupported
  Outcome.ensure (verifySign1 Γ s1 (domainAad aadTagOvEntry header.protver) prevKey = true) (.entrySignatureInvalid i)
  let payload ← Outcome.noneAs (parseOvEntryPayload Γ s1.payload) (.entryParse i)
  Outcome.ensure (payload.hashPrevAlg = hashAlgSha256) (.unsupportedHash payload.hashPrevAlg)
  Outcome.ensure (payload.hashHdrAlg = hashAlgSha256) (.unsupportedHash payload.hashHdrAlg)
  Outcome.ensure (payload.hashHdr = Γ.sha256 (header.guid ++ header.deviceInfo)) (.headerHashMismatch i)
  Outcome.ensure (payload.hashPrev = prevHash) (.prevHashMismatch i)
  return payload.pubKeyPoint

/-- The loop over the entries, from index `i`. -/
def verifyEntries (Γ : Ctx) (header : OvHeaderInfo) : Nat → Bytes → Bytes → List Bytes → Outcome VoucherError Bytes
  | _, prevKey, _, [] => return prevKey
  | i, prevKey, prevHash, entry :: entries => do
    let key ← verifyEntry Γ header i prevKey prevHash entry
    verifyEntries Γ header (i + 1) key (Γ.sha256 entry) entries

/-- Verify a voucher for a device and return the Owner key. -/
def verifyVoucher (Γ : Ctx) (ovHeaderCbor hmacRawCbor hmacValue : Bytes) (hmacKeyHandle : Nat) (deviceGuid : Bytes)
    (entries : List Bytes) : Outcome VoucherError Bytes := do
  let header ← parseOvHeader Γ ovHeaderCbor
  Outcome.ensure (header.guid = deviceGuid) .guidMismatch
  match Γ.tpmHmac hmacKeyHandle ovHeaderCbor with
  | none => .err .hmacUnavailable
  | some computed =>
    Outcome.ensure (computed = hmacValue) .hmacMismatch
    verifyEntries Γ header 0 header.mfgKeyPoint (Γ.sha256 (ovHeaderCbor ++ hmacRawCbor)) entries

end FdoUefi
