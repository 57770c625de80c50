import FdoUefi.Artifact
import FdoUefi.Decoder

/-!
# Delivery and fetched content (`chunking.rs`)

What a meta-payload is, when it is authenticated, and which hash an image has to be checked against in each delivery mode.
Nothing here changes a state. `fuel` is the recursion depth granted to `skip_value`.
-/

namespace FdoUefi

open Prog Prog.Run Cbor

/-! ## Transfer error codes -/

def errUrlFetchFailed : Nat := 9
def errHashMismatch : Nat := 11
def errMetaSignatureInvalid : Nat := 12
def errMetaParseError : Nat := 13
def errNotAuthorized : Nat := 15
def errUnauthenticatedSource : Nat := 19

/-- The data starts with CBOR tag 18. -/
def isCborTag18 (data : Bytes) : Bool := data.head? == some 0xd2

/-- How a begin message was authorised. -/
inductive Authority where
  | artifact
  | channel
  | unauthenticated
  deriving DecidableEq, Repr

/-- `.ok()?` after a call of the decoder. -/
def Dec.ok {α : Type} (m : Dec.R α) : Run Cur Unit α := mapErr (fun _ => ()) m

/-- The delivery fields under one numbering of their keys. -/
structure DeliveryKeys where
  mode : Option Nat := none
  url : Option Bytes := none
  tlsCa : Option Bytes := none
  hash : Option Bytes := none
  signer : Option Bytes := none
  deriving DecidableEq, Repr

/-- A field and its legacy alias: both with different values is an error. -/
def mergeAlias {α : Type} [DecidableEq α] (generic legacy : Option α) : Outcome Unit (Option α) :=
  match generic, legacy with
  | some g, some l => if g = l then .ok (some g) else .err ()
  | some g, none => .ok (some g)
  | none, l => .ok l

/-! ## Meta-payloads -/

structure MetaPayload where
  mimeType : Bytes
  url : Bytes
  tlsCa : Option Bytes
  hashAlg : Option Bytes
  expectedHash : Option Bytes
  bootArgs : Option Bytes
  name : Option Bytes
  version : Option Bytes
  description : Option Bytes
  extraKeys : List Int
  deriving DecidableEq, Repr

/-- The fields that change what the device trusts or does. -/
def MetaPayload.instructionFields (m : MetaPayload) : List Bytes :=
  (if m.tlsCa.isSome then [utf8 "tls_ca"] else []) ++ (if m.bootArgs.isSome then [utf8 "boot_args"] else []) ++
    m.extraKeys.map fun k => utf8 s!"key {k}"

/-- The variables of `parse_meta_payload`. -/
structure MetaFields where
  mimeType : Option Bytes := none
  url : Option Bytes := none
  tlsCa : Option Bytes := none
  hashAlg : Option Bytes := none
  expectedHash : Option Bytes := none
  bootArgs : Option Bytes := none
  name : Option Bytes := none
  version : Option Bytes := none
  description : Option Bytes := none
  extraKeys : List Int := []

/-- One entry of a meta-payload, after its key. -/
def readMetaField (fuel : Nat) (d : Bytes) (m : MetaFields) (key : Int) : Run Cur Unit MetaFields :=
  if key = 0 then do return { m with mimeType := some (← Dec.ok (Dec.readText d)) }
  else if key = 1 then do return { m with url := some (← Dec.ok (Dec.readText d)) }
  else if key = 2 then do return { m with tlsCa := some (← Dec.ok (Dec.readBytes d)) }
  else if key = 3 then do return { m with hashAlg := some (← Dec.ok (Dec.readText d)) }
  else if key = 4 then do return { m with expectedHash := some (← Dec.ok (Dec.readBytes d)) }
  else if key = 5 then do return { m with bootArgs := some (← Dec.ok (Dec.readText d)) }
  else if key = 6 then do return { m with name := some (← Dec.ok (Dec.readText d)) }
  else if key = 7 then do return { m with version := some (← Dec.ok (Dec.readText d)) }
  else if key = 8 then do return { m with description := some (← Dec.ok (Dec.readText d)) }
  else do
    Dec.ok (Dec.skipValue d fuel)
    return { m with extraKeys := m.extraKeys ++ [key] }

def metaPayloadLoop (fuel : Nat) (d : Bytes) : Nat → MetaFields → Run Cur Unit MetaFields
  | 0, m => return m
  | n + 1, m => do
    let key ← Dec.ok (Dec.readInt d)
    let m' ← readMetaField fuel d m key
    metaPayloadLoop fuel d n m'

/-- A meta-payload must have a MIME type and a URL. -/
def MetaFields.finish (m : MetaFields) : Outcome Unit MetaPayload :=
  match m.mimeType, m.url with
  | some mimeType, some url => .ok {
      mimeType, url, tlsCa := m.tlsCa, hashAlg := m.hashAlg, expectedHash := m.expectedHash, bootArgs := m.bootArgs,
      name := m.name, version := m.version, description := m.description, extraKeys := m.extraKeys }
  | _, _ => .err ()

def parseMetaPayload (fuel : Nat) (data : Bytes) : Outcome Unit MetaPayload :=
  ((do
    let mapLen ← Dec.ok (Dec.readMapLen data)
    let m ← metaPayloadLoop fuel data mapLen {}
    ofOutcome m.finish : Run Cur Unit MetaPayload) Cur.start).1

def coseKeyP256Loop (data : Bytes) : Nat → Option Bytes → Option Bytes → Run Nat Unit (Option Bytes × Option Bytes)
  | 0, x, y => return (x, y)
  | n + 1, x, y => do
    let key ← cborReadIntValue data
    if key = -2 then
      let x' ← attempt (cborReadBstr data)
      coseKeyP256Loop data n x' y
    else if key = -3 then
      let y' ← attempt (cborReadBstr data)
      coseKeyP256Loop data n x y'
    else
      cborSkip data
      coseKeyP256Loop data n x y

/-- The uncompressed point of a COSE_Key. -/
def parseCoseKeyP256 (data : Bytes) : Outcome Unit Bytes :=
  (do
    let b ← next data
    ensure (major b = 5) ()
    let mapLen ← cborReadUintArg data (additional b)
    let (x, y) ← coseKeyP256Loop data mapLen none none
    match x, y with
    | some xb, some yb => do
      ensure (xb.length = 32 ∧ yb.length = 32) ()
      return 0x04 :: (xb ++ yb)
    | _, _ => fail () : Run Nat Unit Bytes).eval

/-- The content of a fetched meta-payload, and whether its signature has been verified. -/
def verifyAndExtractMeta (Γ : Ctx) (data : Bytes) (metaSigner ownerPoint : Option Bytes) : Outcome Nat (Bytes × Bool) :=
  match metaSigner with
  | some signerCoseKey => do
    Outcome.ensure (isCborTag18 data = true) errMetaSignatureInvalid
    let point ← Outcome.noneAs (parseCoseKeyP256 signerCoseKey) errMetaSignatureInvalid
    let s1 ← Outcome.noneAs (parseCoseSign1 data) errMetaSignatureInvalid
    Outcome.ensure (verifySign1 Γ s1 (domainAad aadTagMetaPayload fdoVersion200) point = true) errMetaSignatureInvalid
    return (s1.payload, true)
  | none =>
    if isCborTag18 data = true then
      match ownerPoint with
      | none => .err errMetaSignatureInvalid
      | some owner => do
        let inner ← Outcome.noneAs (verifyMetaSigned Γ data owner) errMetaSignatureInvalid
        return (inner, true)
    else .ok (data, false)

/-! ## The hash of an image -/

/-- Why a transfer is refused. -/
inductive HashPolicyError where
  | beginEndDisagree
  | signedWithoutHash
  | noHash
  | unauthenticatedSource
  | instructionFromUnauthenticatedMeta
  deriving DecidableEq, Repr

namespace HashPolicyError

def message : HashPolicyError → String
  | beginEndDisagree => "image-begin/image-end hash disagreement"
  | signedWithoutHash => "signed image-begin has no expected_hash (-9)"
  | noHash => "no image hash available — refusing to chainload"
  | unauthenticatedSource => "no authenticated hash for out-of-band image"
  | instructionFromUnauthenticatedMeta => "unauthenticated meta-payload carries instruction fields (boot_args/tls_ca/...)"

def code : HashPolicyError → Nat
  | beginEndDisagree => errHashMismatch
  | signedWithoutHash => errNotAuthorized
  | noHash => errUnauthenticatedSource
  | unauthenticatedSource => errUnauthenticatedSource
  | instructionFromUnauthenticatedMeta => errNotAuthorized

end HashPolicyError

/-- A meta-payload that is not authenticated needs a hash in the begin message and carries no instruction. -/
def checkUnauthenticatedMeta (m : MetaPayload) (metaAuthenticated : Bool) (beginHash : Option Bytes) :
    Except HashPolicyError Unit :=
  if metaAuthenticated = true then .ok ()
  else if beginHash = none then .error .unauthenticatedSource
  else if m.instructionFields ≠ [] then .error .instructionFromUnauthenticatedMeta
  else .ok ()

/-- The hash an inline image is checked against. -/
def inlineHashDecision (authority : Authority) (beginHash endHash : Option Bytes) : Except HashPolicyError Bytes :=
  if beginHash ≠ none ∧ endHash ≠ none ∧ beginHash ≠ endHash then .error .beginEndDisagree
  else if authority = .artifact ∧ beginHash = none then .error .signedWithoutHash
  else
    match beginHash.or endHash with
    | some h => .ok h
    | none => .error .noHash

/-- The hash an image fetched from a URL is checked against. -/
def urlHashDecision (_authority : Authority) (beginHash : Option Bytes) : Except HashPolicyError Bytes :=
  match beginHash with
  | some h => .ok h
  | none => .error .unauthenticatedSource

/-- The hashes an image found through a meta-payload is checked against. -/
def metaHashDecision (_authority : Authority) (beginHash : Option Bytes) (metaAuthenticated : Bool)
    (metaHash : Option Bytes) : Except HashPolicyError (List Bytes) :=
  if beginHash.isSome ∨ metaAuthenticated = true ∧ metaHash.isSome then .ok (beginHash.toList ++ metaHash.toList)
  else .error .unauthenticatedSource

end FdoUefi
