import FdoUefi.Lib.Usize
import FdoUefi.Cose

/-!
# Firmware from the rendezvous server (`rv_firmware/cose_verify.rs`)

The envelope of a firmware file is parsed by readers of its own, before its signature is checked. They accept arguments of
eight bytes, and additions on their cursor wrap. `fuel` is the recursion depth granted to `cbor_skip` and
`cbor_read_uint_value`.
-/

namespace FdoUefi

open Prog Prog.Run Cbor

namespace Fw

/-- A run of a reader; `none` in the source is the only failure. -/
abbrev R (α : Type) : Type := Run Cur Unit α

/-! ## CBOR helpers -/

def peek (d : Bytes) : R (Option UInt8) := Cur.peek d

/-- `*data.get(*pos)?` and `*pos += 1`. -/
def initial (d : Bytes) : R UInt8 := Cur.byte d ()

/-- The `k` bytes of an argument; the cursor stays when one of them is missing. -/
def argBytes (d : Bytes) (k : Nat) : R Nat := do
  let pos ← Cur.place
  let bs ← orFail (range? d pos (pos + k)) ()
  Cur.bump k
  return beNat bs

def cborReadUintArg (d : Bytes) (ai : Nat) : R Nat :=
  if ai < 24 then pure ai
  else if ai = 24 then argBytes d 1
  else if ai = 25 then argBytes d 2
  else if ai = 26 then argBytes d 4
  else if ai = 27 then argBytes d 8
  else fail ()

/-- An unsigned integer, with any number of tags before it. -/
def cborReadUintValue (d : Bytes) : Nat → R Nat
  | 0 => hangs
  | fuel + 1 => do
    let b ← initial d
    if major b = 6 then
      let _tag ← cborReadUintArg d (additional b)
      cborReadUintValue d fuel
    else
      ensure (major b = 0) ()
      cborReadUintArg d (additional b)

def cborReadIntValue (d : Bytes) : R Int := do
  let b ← initial d
  let arg ← cborReadUintArg d (additional b)
  let val := asI64 arg
  if major b = 0 then return val
  else if major b = 1 then return -1 - val
  else fail ()

/-- The content of a string of `len` bytes. -/
def strContent (d : Bytes) (len : Nat) : R Bytes := Cur.content d len fun _ => ()

def cborReadBstr (d : Bytes) : R Bytes := do
  let b ← initial d
  ensure (major b = 2) ()
  let len ← cborReadUintArg d (additional b)
  let result ← strContent d len
  Cur.bump len
  return result

def cborReadTstr (d : Bytes) : R Bytes := do
  let b ← initial d
  ensure (major b = 3) ()
  let len ← cborReadUintArg d (additional b)
  let s ← strContent d len
  ensure (utf8Valid s) ()
  Cur.bump len
  return s

/-- `cbor_skip` to a recursion depth. The check against the end of the data is made on the wrapped sum, and the number of items
of a map wraps. -/
def cborSkip (d : Bytes) : Nat → R Unit
  | 0 => hangs
  | fuel + 1 => do
    let b ← initial d
    let arg ← cborReadUintArg d (additional b)
    match major b with
    | 0 | 1 | 7 => pure ()
    | 2 | 3 => do
      let pos ← Cur.place
      Cur.note (.str pos arg)
      ensure ((pos + arg) % wordSize ≤ d.length) ()
      Cur.bump arg
    | 4 => repeatN arg (cborSkip d fuel)
    | 5 => repeatN (arg * 2 % wordSize) (cborSkip d fuel)
    | 6 => cborSkip d fuel
    | _ => fail ()

/-! ## The envelope -/

/-- A parsed COSE_Sign1; the unprotected header is not kept. -/
structure CoseSign1 where
  algorithm : Int
  protectedHeader : Bytes
  payload : Bytes
  signature : Bytes
  deriving DecidableEq, Repr

/-- The loop of `parse_protected_header_alg`: an entry that cannot be read does not end it. -/
def protectedHeaderAlgLoop (header : Bytes) : Nat → R Int
  | 0 => return 0
  | n + 1 => do
    let key ← attempt (cborReadIntValue header)
    let val ← attempt (cborReadIntValue header)
    match key, val with
    | some k, some v => if k = 1 then return asI32 v else protectedHeaderAlgLoop header n
    | _, _ => protectedHeaderAlgLoop header n

/-- The algorithm (label 1) of a protected header, 0 when there is none. -/
def parseProtectedHeaderAlg (header : Bytes) : R Int :=
  if header = [] then pure 0
  else otherwise 0 (do
    let b ← initial header
    ensure (major b = 5) ()
    let mapLen ← cborReadUintArg header (additional b)
    protectedHeaderAlgLoop header mapLen)

/-- A tag before the envelope, whatever its number. -/
def skipTag (data : Bytes) : R Unit := do
  match ← peek data with
  | none => fail ()
  | some b =>
    if major b = 6 then
      Cur.bump 1
      let _tagVal ← cborReadUintArg data (additional b)
    else pure ()

/-- The payload: a byte string, or null for an empty one. -/
def readPayload (data : Bytes) : R Bytes := do
  match ← peek data with
  | none => fail ()
  | some b =>
    if b = 0xf6 then
      Cur.bump 1
      return []
    else cborReadBstr data

def parseCoseSign1 (fuel : Nat) (data : Bytes) : R CoseSign1 := do
  skipTag data
  let b ← initial data
  ensure (major b = 4) ()
  let arrLen ← cborReadUintArg data (additional b)
  ensure (arrLen = 4) ()
  let protectedHeader ← cborReadBstr data
  let algorithm ← Cur.inside (parseProtectedHeaderAlg protectedHeader)
  cborSkip data fuel
  let payload ← readPayload data
  let signature ← cborReadBstr data
  return { algorithm, protectedHeader, payload, signature }

def cborEncodeBstrHeader (len : Nat) : Bytes := encodeHead 2 len

/-- `PLATFORM_KEY_X` -/
def platformKeyX : Bytes := beBytes 32 0xacfdacd21a2c6a8cba1b0f2c51a16a180064bec925e2325a8a7e05b705d6c564

/-- `PLATFORM_KEY_Y` -/
def platformKeyY : Bytes := beBytes 32 0xb19cf3d6882493e3af166b75d1cd13da8314289bde0fd9f9823abc3d4a7fea0b

/-- The bytes that are signed: `["Signature1", protected, h'', payload]`. -/
def sigStructure (sign1 : CoseSign1) : Bytes :=
  [0x84, 0x6a] ++ utf8 "Signature1" ++ cborEncodeBstrHeader sign1.protectedHeader.length ++ sign1.protectedHeader ++ [0x40] ++
    cborEncodeBstrHeader sign1.payload.length ++ sign1.payload

def verifyEcdsaP256 (Γ : Ctx) (message signature : Bytes) : Bool :=
  signature.length == 64 && Γ.es256 message signature (0x04 :: (platformKeyX ++ platformKeyY))

def verifySignature (Γ : Ctx) (sign1 : CoseSign1) : Bool := verifyEcdsaP256 Γ (sigStructure sign1) sign1.signature

/-! ## The payload -/

/-- `FW_MAGIC`: "FDOF". -/
def fwMagic : Nat := 0x46444F46

structure FirmwarePayload where
  magic : Nat
  version : Nat
  platformType : Bytes
  architecture : Bytes
  imageType : Nat
  timestamp : Nat
  firmwareRev : Nat
  buildId : Option Bytes
  imageHash : Bytes
  imageHashType : Int
  imageOffset : Nat
  imageSize : Nat
  deriving DecidableEq, Repr

/-- A build identifier: a text or null. -/
def readBuildId (data : Bytes) : R (Option Bytes) := do
  match ← peek data with
  | none => fail ()
  | some b =>
    if b = 0xf6 then
      Cur.bump 1
      return none
    else
      let s ← cborReadTstr data
      return some s

/-- The hash of the image: type and digest. -/
def readImageHash (data : Bytes) : R (Int × Bytes) := do
  let b ← initial data
  ensure (major b = 4) ()
  let hl ← cborReadUintArg data (additional b)
  ensure (hl = 2) ()
  let ht ← cborReadIntValue data
  let hv ← cborReadBstr data
  return (asI32 ht, hv)

/-- Where the image lies: its offset and the size its head announces, which is not checked here. -/
def readImageSpan (data : Bytes) : R (Nat × Nat) := do
  let b ← initial data
  ensure (major b = 2) ()
  let imageSize ← cborReadUintArg data (additional b)
  let imageOffset ← Cur.place
  return (imageOffset, imageSize)

def parseFirmwarePayload (fuel : Nat) (data : Bytes) : R FirmwarePayload := do
  let b ← initial data
  ensure (major b = 4) ()
  let arrLen ← cborReadUintArg data (additional b)
  ensure (arrLen = 10) ()
  let magic ← cborReadUintValue data fuel
  ensure (magic % 2 ^ 32 = fwMagic) ()
  let version ← cborReadUintValue data fuel
  let platformType ← cborReadTstr data
  let architecture ← cborReadTstr data
  let imageType ← cborReadUintValue data fuel
  let timestamp ← cborReadUintValue data fuel
  let firmwareRev ← cborReadUintValue data fuel
  let buildId ← readBuildId data
  let (imageHashType, imageHash) ← readImageHash data
  let (imageOffset, imageSize) ← readImageSpan data
  return {
    magic := magic % 2 ^ 32, version := version % 2 ^ 32, platformType, architecture, imageType := imageType % 2 ^ 32,
    timestamp, firmwareRev, buildId, imageHash, imageHashType, imageOffset, imageSize }

inductive HashCheck where
  | ok
  | mismatch
  | unsupported (alg : Int)
  deriving DecidableEq, Repr

/-- `COSE_ALG_SHA256` -/
def coseAlgSha256 : Int := -16

/-- `COSE_ALG_SHA384` -/
def coseAlgSha384 : Int := -43

/-- The declared hash of the image; an empty one is a mismatch. -/
def verifyImageHash (Γ : Ctx) (payload : FirmwarePayload) (image : Bytes) : HashCheck :=
  if payload.imageHash = [] then .mismatch
  else if payload.imageHashType = coseAlgSha256 then
    if Γ.sha256 image = payload.imageHash then .ok else .mismatch
  else if payload.imageHashType = coseAlgSha384 then
    if Γ.sha384 image = payload.imageHash then .ok else .mismatch
  else .unsupported payload.imageHashType

/-! ## Verification -/

inductive VerifyResult where
  | ok (payload : FirmwarePayload) (image : Bytes)
  | parseError (text : String)
  | signatureInvalid
  | unsupportedAlgorithm (alg : Int)
  | architectureMismatch (architecture : Bytes)
  | imageHashMismatch
  | unsupportedHashAlgorithm (alg : Int)
  deriving DecidableEq, Repr

/-- Cut the image out of the payload and check its hash. The sum that is checked and cut at wraps. -/
def extractImage (Γ : Ctx) (data : Bytes) (payload : FirmwarePayload) : Run Cur Empty VerifyResult := do
  Cur.note (.str payload.imageOffset payload.imageSize)
  if data.length < (payload.imageOffset + payload.imageSize) % wordSize then
    return .parseError "Image extends beyond payload"
  else
    let imageData ← slice data payload.imageOffset ((payload.imageOffset + payload.imageSize) % wordSize)
    match verifyImageHash Γ payload imageData with
    | .ok => return .ok payload imageData
    | .mismatch => return .imageHashMismatch
    | .unsupported alg => return .unsupportedHashAlgorithm alg

/-- What is done with a payload whose signature has been checked. -/
def verifyPayload (Γ : Ctx) (fuel : Nat) (data : Bytes) : Run Cur Empty VerifyResult := do
  match ← attempt (Cur.inside (parseFirmwarePayload fuel data)) with
  | none => return .parseError "Failed to parse firmware payload"
  | some payload =>
    if payload.architecture ≠ utf8 "x86_64" then return .architectureMismatch payload.architecture
    else extractImage Γ data payload

/-- Verify a signed firmware file and extract its image. -/
def verifyFirmware (Γ : Ctx) (fuel : Nat) (signedData : Bytes) : Run Cur Empty VerifyResult := do
  match ← attempt (parseCoseSign1 fuel signedData) with
  | none => return .parseError "Failed to parse COSE_Sign1"
  | some sign1 =>
    if sign1.algorithm ≠ coseAlgEs256 then return .unsupportedAlgorithm sign1.algorithm
    else if verifySignature Γ sign1 = false then return .signatureInvalid
    else verifyPayload Γ fuel sign1.payload

end Fw

end FdoUefi
