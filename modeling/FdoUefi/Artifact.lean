import FdoUefi.Delegate

/-!
# Signed artifacts (`cose.rs`, `delegate.rs`)

Provisioning artifacts and meta-payloads are COSE_Sign1 envelopes of the Owner, or of the leaf of a delegate chain that the
envelope carries in its unprotected header.
-/

namespace FdoUefi

open Prog Prog.Run Cbor

/-- An x5chain value: an array of certificates, or a single one. -/
def parseX5chainValue (data : Bytes) : Run Nat Unit (List Bytes) := do
  let b ← next data
  if major b = 4 then
    let certCount ← cborReadUintArg data (additional b)
    collectN certCount (cborReadBstr data)
  else if major b = 2 then
    let len ← cborReadUintArg data (additional b)
    let der ← take data len
    return [der]
  else fail ()

def extractX5chainLoop (unprotected : Bytes) : Nat → Run Nat Unit (List Bytes)
  | 0 => fail ()
  | n + 1 => do
    let key ← cborReadIntValue unprotected
    if key = coseLabelX5chain then parseX5chainValue unprotected
    else
      cborSkip unprotected
      extractX5chainLoop unprotected n

/-- The certificates of the x5chain of an unprotected header, leaf first. -/
def extractX5chainFromUnprotected (unprotected : Bytes) : Outcome Unit (List Bytes) :=
  (do
    let b ← next unprotected
    ensure (major b = 5) ()
    let mapLen ← cborReadUintArg unprotected (additional b)
    extractX5chainLoop unprotected mapLen : Run Nat Unit (List Bytes)).eval

/-- The key that must have signed an artifact: the Owner key, or the leaf of a chain to it that grants provisioning. -/
def artifactSignerPoint (Γ : Ctx) (unprotected ownerPoint : Bytes) : Outcome Unit Bytes := do
  let delegated ← hasDelegateHeader unprotected
  if delegated = false then return ownerPoint
  else
    let certDers ← extractX5chainFromUnprotected unprotected
    let chain ← verifyDelegateChain Γ certDers ownerPoint
    Outcome.ensure (chain.hasProvision = true) ()
    return chain.leafKeyPoint

/-- The payload of a provisioning artifact: content type, signer, signature and scope are checked, in this order. -/
def verifyBmoSigned (Γ : Ctx) (data ownerPoint expectedCt : Bytes) (deviceGuid : Option Bytes) : Outcome Unit Bytes := do
  let s1 ← parseCoseSign1 data
  let ct ← parseProtectedTstr s1.protectedHeader 3
  Outcome.ensure (ct = expectedCt) ()
  let aad := 0x81 :: encodeTstr aadTagBmoProvision
  let key ← artifactSignerPoint Γ s1.unprotectedHeader ownerPoint
  Outcome.ensure (verifyEs256 Γ (buildSigStructure s1.protectedHeader aad s1.payload) s1.signature key = true) ()
  let inScope ← evaluateBmoScope s1.protectedHeader deviceGuid
  Outcome.ensure (inScope = true) ()
  return s1.payload

/-- The payload of a meta-payload signed by the Owner or a delegate. -/
def verifyMetaSigned (Γ : Ctx) (data ownerPoint : Bytes) : Outcome Unit Bytes := do
  let s1 ← parseCoseSign1 data
  let key ← artifactSignerPoint Γ s1.unprotectedHeader ownerPoint
  let aad := domainAad aadTagMetaPayload fdoVersion200
  Outcome.ensure (verifyEs256 Γ (buildSigStructure s1.protectedHeader aad s1.payload) s1.signature key = true) ()
  return s1.payload

end FdoUefi
