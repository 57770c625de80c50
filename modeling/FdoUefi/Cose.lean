import FdoUefi.Ctx

/-!
# COSE_Sign1 envelopes (`cose.rs`)

The CBOR readers of this file step a cursor over a slice; every length they accept has at most four bytes, so no addition on
the cursor wraps and the cursor is a plain number. A reader that returns `None` is a run that fails. Where a caller goes on
after a failure the cursor the failed reader left is the one it goes on from.
-/

namespace FdoUefi

open Prog Prog.Run Cbor

def coseAlgEs256 : Int := -7

/-- `COSE_LABEL_DELEGATE_KEY` -/
def coseLabelDelegateKey : Int := 258

/-- `COSE_LABEL_X5CHAIN` -/
def coseLabelX5chain : Int := 33

def aadTagOwnerSign : Bytes := utf8 "FDO-TO0-OwnerSign-v1"
def aadTagProveOvHdr : Bytes := utf8 "FDO-TO2-ProveOVHdr-v1"
def aadTagSetupDevice : Bytes := utf8 "FDO-TO2-SetupDevice-v1"
def aadTagOvEntry : Bytes := utf8 "FDO-OVEntry-v1"
def aadTagBmoProvision : Bytes := utf8 "FDO-FSIM-BmoProvision-v1"
def aadTagMetaPayload : Bytes := utf8 "FDO-FSIM-MetaPayload-v1"

def bmoContentTypeImageBegin : Bytes := utf8 "application/cbor+fdo.bmo.image-begin"
def bmoContentTypeSet : Bytes := utf8 "application/cbor+fdo.bmo.set"

def fdoVersion200 : Nat := 200

/-! ## CBOR helpers -/

/-- The argument of a head whose additional information is `ai`. -/
def cborReadUintArg (d : Bytes) (ai : Nat) : Run Nat Unit Nat :=
  if ai ≤ 23 then pure ai
  else if ai = 24 then do
    let b ← next d
    return b.toNat
  else if ai = 25 then do
    let b ← take d 2
    return beNat b
  else if ai = 26 then do
    let b ← take d 4
    return beNat b
  else fail ()

def cborReadUintValue (d : Bytes) : Run Nat Unit Nat := do
  let b ← next d
  ensure (major b = 0) ()
  cborReadUintArg d (additional b)

/-- The argument is read before the major type is looked at: after a failure on a text or a byte string the cursor stands
between its head and its content. -/
def cborReadIntValue (d : Bytes) : Run Nat Unit Int := do
  let b ← next d
  let arg ← cborReadUintArg d (additional b)
  if major b = 0 then return (arg : Int)
  else if major b = 1 then return -1 - (arg : Int)
  else fail ()

def cborReadBstr (d : Bytes) : Run Nat Unit Bytes := do
  let b ← next d
  ensure (major b = 2) ()
  let len ← cborReadUintArg d (additional b)
  take d len

/-- `cbor_skip` to a recursion depth. A string is checked against the end of the data, a float is not. -/
def cborSkipTo (d : Bytes) : Nat → Run Nat Unit Unit
  | 0 => hangs
  | fuel + 1 => do
    let b ← next d
    match major b with
    | 0 | 1 => do
      let _ ← cborReadUintArg d (additional b)
    | 2 | 3 => do
      let len ← cborReadUintArg d (additional b)
      let pos ← getS
      ensure (pos + len ≤ d.length) ()
      advance len
    | 4 => do
      let len ← cborReadUintArg d (additional b)
      repeatN len (cborSkipTo d fuel)
    | 5 => do
      let len ← cborReadUintArg d (additional b)
      repeatN len (do
        cborSkipTo d fuel
        cborSkipTo d fuel)
    | 6 => do
      let _ ← cborReadUintArg d (additional b)
      cborSkipTo d fuel
    | 7 => advance (extLen (additional b))
    | _ => fail ()

/-- Step over one data item. The nesting of the items stepped over is at most the number of bytes (`cborSkip_total`). -/
def cborSkip (d : Bytes) : Run Nat Unit Unit := cborSkipTo d (d.length + 1)

/-- The head of major type `m` for a length; a length of `2 ^ 32` or more loses its high bits. -/
def encodeHead (m len : Nat) : Bytes :=
  if len < 24 then [UInt8.ofNat (m * 32 + len)]
  else if len < 256 then [UInt8.ofNat (m * 32 + 24), UInt8.ofNat len]
  else if len < 65536 then [UInt8.ofNat (m * 32 + 25), UInt8.ofNat (len / 2 ^ 8), UInt8.ofNat len]
  else [UInt8.ofNat (m * 32 + 26), UInt8.ofNat (len / 2 ^ 24), UInt8.ofNat (len / 2 ^ 16), UInt8.ofNat (len / 2 ^ 8),
    UInt8.ofNat len]

def encodeBstr (data : Bytes) : Bytes := encodeHead 2 data.length ++ data

def encodeTstr (s : Bytes) : Bytes := encodeHead 3 s.length ++ s

/-! ## The envelope -/

/-- `FDOExternalAAD = [tag]`, empty for a protocol version before 2.0. -/
def domainAad (tag : Bytes) (version : Nat) : Bytes := if version < fdoVersion200 then [] else 0x81 :: encodeTstr tag

/-- A parsed COSE_Sign1. -/
structure CoseSign1 where
  algorithm : Int
  protectedHeader : Bytes
  unprotectedHeader : Bytes
  payload : Bytes
  signature : Bytes
  deriving DecidableEq, Repr

/-- The loop of `parse_protected_alg`. A label that is not an integer leaves the cursor after its head, and what is then
skipped is what stands there. -/
def parseProtectedAlgLoop (d : Bytes) : Nat → Run Nat Unit Int
  | 0 => return 0
  | n + 1 => do
    let key ← attempt (cborReadIntValue d)
    if key = some 1 then
      let v ← otherwise 0 (cborReadIntValue d)
      return asI32 v
    else
      match ← attempt (cborSkip d) with
      | none => return 0
      | some () => parseProtectedAlgLoop d n

/-- The `alg` (label 1) of a serialised protected header, 0 when there is none. -/
def parseProtectedAlg (header : Bytes) : Outcome Unit Int :=
  (otherwise 0 (do
    let b ← next header
    ensure (major b = 5) ()
    let mapLen ← cborReadUintArg header (additional b)
    parseProtectedAlgLoop header mapLen)).eval

/-- The optional tag 18 before an envelope. -/
def skipSign1Tag (data : Bytes) : Run Nat Unit Unit := do
  match ← peek data with
  | none => fail ()
  | some b =>
    if major b = 6 then
      advance 1
      let tag ← cborReadUintArg data (additional b)
      ensure (tag = 18) ()
    else pure ()

/-- The payload of an envelope: a byte string, or null for an empty one. -/
def readSign1Payload (data : Bytes) : Run Nat Unit Bytes := do
  match ← peek data with
  | none => fail ()
  | some b =>
    if b = 0xf6 then
      advance 1
      return []
    else cborReadBstr data

/-- Parse a COSE_Sign1 envelope, with or without CBOR tag 18. -/
def parseCoseSign1Run (data : Bytes) : Run Nat Unit CoseSign1 := do
  skipSign1Tag data
  let b ← next data
  ensure (major b = 4) ()
  let arrLen ← cborReadUintArg data (additional b)
  ensure (arrLen = 4) ()
  let protectedHeader ← cborReadBstr data
  let algorithm ← ofOutcome (parseProtectedAlg protectedHeader)
  let unprotStart ← getS
  cborSkip data
  let pos ← getS
  let unprotectedHeader ← orFail (range? data unprotStart pos) ()
  let payload ← readSign1Payload data
  let signature ← cborReadBstr data
  return { algorithm, protectedHeader, unprotectedHeader, payload, signature }

def parseCoseSign1 (data : Bytes) : Outcome Unit CoseSign1 := (parseCoseSign1Run data).eval

/-- `Sig_structure = ["Signature1", protected, external_aad, payload]`. -/
def buildSigStructure (prot externalAad payload : Bytes) : Bytes :=
  [0x84, 0x6a] ++ utf8 "Signature1" ++ encodeBstr prot ++ encodeBstr externalAad ++ encodeBstr payload

def verifyEs256 (Γ : Ctx) (msg signature point : Bytes) : Bool := signature.length == 64 && Γ.es256 msg signature point

def verifySign1 (Γ : Ctx) (s1 : CoseSign1) (externalAad point : Bytes) : Bool :=
  s1.algorithm == coseAlgEs256 &&
    verifyEs256 Γ (buildSigStructure s1.protectedHeader externalAad s1.payload) s1.signature point

/-! ## Headers -/

/-- The loop of `has_delegate_header`: the value is skipped before the label is looked at. -/
def hasDelegateHeaderLoop (d : Bytes) : Nat → Run Nat Unit Bool
  | 0 => return false
  | n + 1 => do
    let key ← attempt (cborReadIntValue d)
    match ← attempt (cborSkip d) with
    | none => return false
    | some () =>
      match key with
      | some k => if k = coseLabelDelegateKey ∨ k = coseLabelX5chain then return true else hasDelegateHeaderLoop d n
      | none => return false

/-- The unprotected header carries a delegate key (label 258) or an x5chain (label 33). -/
def hasDelegateHeader (unprotected : Bytes) : Outcome Unit Bool :=
  (otherwise false (do
    let b ← next unprotected
    ensure (major b = 5) ()
    let mapLen ← cborReadUintArg unprotected (additional b)
    hasDelegateHeaderLoop unprotected mapLen)).eval

/-- A text key whose initial byte is `kb`. -/
def readTextKey (d : Bytes) (kb : UInt8) : Run Nat Unit Bytes := do
  advance 1
  let keyLen ← cborReadUintArg d (additional kb)
  takeText d keyLen

/-- The loop of `extract_tstr_keyed_value`. The value found is sliced out without a check. -/
def extractTstrKeyedLoop (d target : Bytes) : Nat → Run Nat Unit Bytes
  | 0 => fail ()
  | n + 1 => do
    match ← peek d with
    | none => fail ()
    | some keyByte =>
      if major keyByte = 3 then
        let key ← readTextKey d keyByte
        if key = target then
          let valueStart ← getS
          cborSkip d
          let pos ← getS
          slice d valueStart pos
        else
          cborSkip d
          extractTstrKeyedLoop d target n
      else
        cborSkip d
        cborSkip d
        extractTstrKeyedLoop d target n

/-- The raw value of a text key of a protected header map. -/
def extractTstrKeyedValue (header target : Bytes) : Outcome Unit Bytes :=
  (do
    let b ← next header
    ensure (major b = 5) ()
    let mapLen ← cborReadUintArg header (additional b)
    extractTstrKeyedLoop header target mapLen : Run Nat Unit Bytes).eval

def parseProtectedTstrLoop (d : Bytes) (target : Int) : Nat → Run Nat Unit Bytes
  | 0 => fail ()
  | n + 1 => do
    let key ← cborReadIntValue d
    if key = target then
      let b ← next d
      ensure (major b = 3) ()
      let len ← cborReadUintArg d (additional b)
      takeText d len
    else
      cborSkip d
      parseProtectedTstrLoop d target n

/-- The text value of an integer label of a protected header map. -/
def parseProtectedTstr (header : Bytes) (target : Int) : Outcome Unit Bytes :=
  (do
    let b ← next header
    ensure (major b = 5) ()
    let mapLen ← cborReadUintArg header (additional b)
    parseProtectedTstrLoop header target mapLen : Run Nat Unit Bytes).eval

/-! ## Scope -/

def scopeLabel : Bytes := utf8 "fdo.scope"
def legacyBmoScopeLabel : Bytes := utf8 "fdo.bmo.scope"

/-- The array of `evaluate_scope_guid`: the loop returns at the first element that matches, with the cursor after it. -/
def scopeGuidLoop (d : Bytes) (deviceGuid : Option Bytes) : Nat → Run Nat Unit Bool
  | 0 => return false
  | n + 1 => do
    let gb ← next d
    ensure (major gb = 2) ()
    let glen ← cborReadUintArg d (additional gb)
    let guid ← take d glen
    if deviceGuid = some guid then return true else scopeGuidLoop d deviceGuid n

/-- `evaluate_scope_guid`: a failed read is the answer `false`. -/
def evaluateScopeGuid (d : Bytes) (deviceGuid : Option Bytes) : Run Nat Unit Bool := do
  match ← peek d with
  | none => fail ()
  | some b =>
    if major b = 2 then
      advance 1
      let len ← cborReadUintArg d (additional b)
      let guid ← take d len
      return decide (deviceGuid = some guid)
    else if major b = 4 then
      advance 1
      let arrLen ← cborReadUintArg d (additional b)
      scopeGuidLoop d deviceGuid arrLen
    else return false

/-- The loop of `evaluate_bmo_scope` over the scope map. An entry whose key is not a text is skipped; every text key but
`guid` rejects. A failed read is the answer `false`. -/
def scopeLoop (d : Bytes) (deviceGuid : Option Bytes) : Nat → Run Nat Unit Bool
  | 0 => return true
  | n + 1 => do
    match ← peek d with
    | none => fail ()
    | some kb =>
      if major kb = 3 then
        let key ← readTextKey d kb
        if key = utf8 "guid" then
          let guidOk ← evaluateScopeGuid d deviceGuid
          if guidOk then scopeLoop d deviceGuid n else return false
        else return false
      else
        cborSkip d
        cborSkip d
        scopeLoop d deviceGuid n

/-- The scope map of an artifact, once it has been found. -/
def evaluateScopeMap (scopeBytes : Bytes) (deviceGuid : Option Bytes) : Outcome Unit Bool :=
  match scopeBytes with
  | [] => .ok true
  | _ => (otherwise false (do
    let b ← next scopeBytes
    ensure (major b = 5) ()
    let mapLen ← cborReadUintArg scopeBytes (additional b)
    scopeLoop scopeBytes deviceGuid mapLen)).eval

/-- The scope constraints of a protected header allow this device. -/
def evaluateBmoScope (protectedHeader : Bytes) (deviceGuid : Option Bytes) : Outcome Unit Bool :=
  match extractTstrKeyedValue protectedHeader scopeLabel, extractTstrKeyedValue protectedHeader legacyBmoScopeLabel with
  | .panic, _ | _, .panic => .panic
  | .hang, _ | _, .hang => .hang
  | .ok _, .ok _ => .ok false
  | .ok b, .err _ => evaluateScopeMap b deviceGuid
  | .err _, .ok b => evaluateScopeMap b deviceGuid
  | .err _, .err _ => .ok true

end FdoUefi
