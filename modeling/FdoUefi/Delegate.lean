import FdoUefi.Cose

/-!
# Certificate chains (`delegate.rs`)

The DER readers step a cursor over a slice. A length has at most four bytes, so no addition on the cursor wraps. A reader
that fails leaves the cursor where it was when it gave up; `check_eku_oids` goes on from there.
-/

namespace FdoUefi

open Prog Prog.Run Cbor

/-- The arc of the FDO permissions, 1.3.6.1.4.1.45724.3.1. -/
def oidPermit (n : UInt8) : Bytes := [0x2B, 0x06, 0x01, 0x04, 0x01, 0x82, 0xE5, 0x1C, 0x03, 0x01, n]

/-- PERM.1 -/
def oidPermitRedirect : Bytes := oidPermit 0x01
/-- PERM.2 -/
def oidPermitOnboardNewcred : Bytes := oidPermit 0x02
/-- PERM.3 -/
def oidPermitOnboardReusecred : Bytes := oidPermit 0x03
/-- PERM.4 -/
def oidPermitOnboardFdodisable : Bytes := oidPermit 0x04
/-- PERM.7 -/
def oidPermitProvision : Bytes := oidPermit 0x07

def oidExtKeyUsage : Bytes := [0x55, 0x1D, 0x25]
def oidBasicConstraints : Bytes := [0x55, 0x1D, 0x13]
def oidEcPublicKey : Bytes := [0x2A, 0x86, 0x48, 0xCE, 0x3D, 0x02, 0x01]
def oidPrime256v1 : Bytes := [0x2A, 0x86, 0x48, 0xCE, 0x3D, 0x03, 0x01, 0x07]
def oidEcdsaWithSha256 : Bytes := [0x2A, 0x86, 0x48, 0xCE, 0x3D, 0x04, 0x03, 0x02]

/-- `MAX_DELEGATE_CHAIN_LEN` -/
def maxDelegateChainLen : Nat := 8

/-! ## DER -/

/-- `n` more length bytes after the value `acc`. -/
def derLengthBytes (d : Bytes) : Nat → Nat → Run Nat Unit Nat
  | 0, acc => return acc
  | n + 1, acc => do
    let b ← next d
    derLengthBytes d n (acc * 256 + b.toNat)

def readDerLength (d : Bytes) : Run Nat Unit Nat := do
  let b ← next d
  if b < 0x80 then return b.toNat
  else
    let numBytes := b.toNat &&& 0x7F
    ensure (numBytes ≤ 4 ∧ numBytes ≠ 0) ()
    derLengthBytes d numBytes 0

/-- The tag at the cursor is `tag`: the cursor goes past it, and stays when it is another one. -/
def expectTag (d : Bytes) (tag : UInt8) : Run Nat Unit Unit := do
  match ← peek d with
  | none => fail ()
  | some b => if b = tag then advance 1 else fail ()

/-- Content start and content end of a SEQUENCE; the cursor is left at the start of the content. -/
def readSequenceHeader (d : Bytes) : Run Nat Unit (Nat × Nat) := do
  expectTag d 0x30
  let len ← readDerLength d
  let start ← getS
  ensure (start + len ≤ d.length) ()
  return (start, start + len)

def skipDerElement (d : Bytes) : Run Nat Unit Unit := do
  let _tag ← next d
  let len ← readDerLength d
  let pos ← getS
  ensure (pos + len ≤ d.length) ()
  advance len

/-- The content of an element with tag `tag`. -/
def readTlv (d : Bytes) (tag : UInt8) : Run Nat Unit Bytes := do
  expectTag d tag
  let len ← readDerLength d
  take d len

def readOctetString (d : Bytes) : Run Nat Unit Bytes := readTlv d 0x04
def readOid (d : Bytes) : Run Nat Unit Bytes := readTlv d 0x06
def readDerInteger (d : Bytes) : Run Nat Unit Bytes := readTlv d 0x02

/-- The content of a BIT STRING after the octet of unused bits. -/
def readBitString (d : Bytes) : Run Nat Unit Bytes := do
  expectTag d 0x03
  let len ← readDerLength d
  ensure (len ≠ 0) ()
  let _unusedBits ← next d
  take d (len - 1)

def readAlgIdentifierOid (d : Bytes) : Run Nat Unit Bytes := do
  let (_, seqEnd) ← readSequenceHeader d
  let oid ← readOid d
  setS seqEnd
  return oid

def parseSpkiP256PointRun (spki : Bytes) : Run Nat Unit Bytes := do
  let (_, spkiEnd) ← readSequenceHeader spki
  let (_, algEnd) ← readSequenceHeader spki
  let algOid ← readOid spki
  ensure (algOid = oidEcPublicKey) ()
  let curveOid ← readOid spki
  ensure (curveOid = oidPrime256v1) ()
  let pos ← getS
  ensure (pos ≤ algEnd) ()
  setS algEnd
  let bits ← readBitString spki
  let pos ← getS
  ensure (pos ≤ spkiEnd) ()
  ensure (bits.length = 65 ∧ bits[0]? = some 0x04) ()
  return bits

/-- The uncompressed point of a SubjectPublicKeyInfo. -/
def parseSpkiP256Point (spki : Bytes) : Outcome Unit Bytes := (parseSpkiP256PointRun spki).eval

/-- An integer of any length, right-aligned in `width` bytes. -/
def copyIntegerToFixed (src : Bytes) (width : Nat) : Bytes :=
  let trimmed := match src.dropWhile (· == 0) with
    | [] => [0]
    | t => t
  if width < trimmed.length then trimmed.drop (trimmed.length - width)
  else List.replicate (width - trimmed.length) 0 ++ trimmed

/-- `r || s` of a DER signature. -/
def ecdsaDerToRs (derSig : Bytes) : Outcome Unit Bytes :=
  (do
    expectTag derSig 0x30
    let _seqLen ← readDerLength derSig
    let r ← readDerInteger derSig
    let s ← readDerInteger derSig
    return copyIntegerToFixed r 32 ++ copyIntegerToFixed s 32 : Run Nat Unit Bytes).eval

/-! ## Extensions -/

/-- `cA` of a BasicConstraints: the byte of the BOOLEAN, false when it is absent. -/
def readCaFlag (d : Bytes) (seqEnd : Nat) : Run Nat Unit Bool := do
  let pos ← getS
  let b ← peek d
  if pos < seqEnd ∧ b = some 0x01 then
    advance 1
    let len ← readDerLength d
    ensure (len = 1) ()
    let v ← peek d
    advance 1
    return v.getD 0 != 0
  else return false

/-- `pathLenConstraint` of a BasicConstraints. An integer that is negative or has more than two bytes counts as absent. -/
def readPathLen (d : Bytes) (seqEnd : Nat) : Run Nat Unit (Option Nat) := do
  let pos ← getS
  let b ← peek d
  if pos < seqEnd ∧ b = some 0x02 then
    match ← attempt (readDerInteger d) with
    | some i =>
      match i with
      | [] => return none
      | h :: _ => if i.length ≤ 2 ∧ h < 0x80 then return some (beNat i) else return none
    | none => return none
  else return none

/-- `(is_ca, path_len)` of a BasicConstraints value; what cannot be read is not a CA. -/
def parseBasicConstraints (d : Bytes) : Outcome Unit (Bool × Option Nat) :=
  (otherwise (false, none) (do
    let (_, seqEnd) ← readSequenceHeader d
    let isCa ← readCaFlag d seqEnd
    let pathLen ← readPathLen d seqEnd
    return (isCa, pathLen))).eval

structure EkuFlags where
  redirect : Bool
  onboard : Bool
  reuseCred : Bool
  provision : Bool
  deriving DecidableEq, Repr

/-- No permission. -/
def EkuFlags.none : EkuFlags := ⟨false, false, false, false⟩

/-- The flags with those of one more OID. -/
def EkuFlags.add (f : EkuFlags) (oid : Bytes) : EkuFlags :=
  if oid = oidPermitProvision then { f with provision := true }
  else if oid = oidPermitRedirect then { f with redirect := true }
  else if oid = oidPermitOnboardNewcred then { f with onboard := true }
  else if oid = oidPermitOnboardReusecred then { f with reuseCred := true, onboard := true }
  else if oid = oidPermitOnboardFdodisable then { f with onboard := true }
  else f

/-- The loop of `check_eku_oids`: what is not an OID is skipped, from wherever the failed read left the cursor. -/
def ekuLoop (d : Bytes) (seqEnd : Nat) : Nat → EkuFlags → Run Nat Unit EkuFlags
  | 0, _ => hangs
  | fuel + 1, flags => do
    let pos ← getS
    if pos < seqEnd then
      match ← attempt (readOid d) with
      | some oid => ekuLoop d seqEnd fuel (flags.add oid)
      | none =>
        match ← attempt (skipDerElement d) with
        | some () => ekuLoop d seqEnd fuel flags
        | none => return flags
    else return flags

/-- The permissions in an ExtendedKeyUsage value. Every turn of the loop takes at least a byte. -/
def checkEkuOids (d : Bytes) : Outcome Unit EkuFlags :=
  (do
    match ← attempt (readSequenceHeader d) with
    | some (_, seqEnd) => ekuLoop d seqEnd (d.length + 1) EkuFlags.none
    | none => return EkuFlags.none : Run Nat Unit EkuFlags).eval

/-- What the extensions of a certificate say. `ekuValue` is the value the permissions were read from, which the source does
not keep. -/
structure Extensions where
  eku : EkuFlags := EkuFlags.none
  ekuValue : Bytes := []
  isCa : Bool := false
  pathLen : Option Nat := none
  deriving DecidableEq, Repr

/-- One extension, after its OID. -/
def readExtension (der oid : Bytes) (x : Extensions) : Run Nat Unit Extensions :=
  if oid = oidExtKeyUsage ∨ oid = oidBasicConstraints then do
    let b ← peek der
    onlyIf (b = some 0x01) (skipDerElement der)
    let wrapper ← readOctetString der
    if oid = oidExtKeyUsage then
      let eku ← ofOutcome (checkEkuOids wrapper)
      return { x with eku, ekuValue := wrapper }
    else
      let (isCa, pathLen) ← ofOutcome (parseBasicConstraints wrapper)
      return { x with isCa, pathLen }
  else pure x

/-- The loop over the extensions. Of two extensions with the same OID the later one stands. -/
def extensionLoop (der : Bytes) (wrapperEnd : Nat) : Nat → Extensions → Run Nat Unit Extensions
  | 0, _ => hangs
  | fuel + 1, x => do
    let pos ← getS
    if pos < wrapperEnd then
      match ← attempt (readSequenceHeader der) with
      | none => return x
      | some (_, extEnd) =>
        let y ← (do
          match ← attempt (readOid der) with
          | some oid => readExtension der oid x
          | none => return x)
        setS extEnd
        extensionLoop der wrapperEnd fuel y
    else return x

/-- What follows the public key in a TBSCertificate: unique identifiers, which are skipped, and the extensions. -/
def tbsTailLoop (der : Bytes) (tbsEnd : Nat) : Nat → Run Nat Unit Extensions
  | 0 => hangs
  | fuel + 1 => do
    let pos ← getS
    if pos < tbsEnd then
      match ← peek der with
      | none => fail ()
      | some tag =>
        if tag = 0xA3 then
          advance 1
          let len ← readDerLength der
          let start ← getS
          let _ ← readSequenceHeader der
          extensionLoop der (start + len) (der.length + 1) {}
        else if tag = 0xA1 ∨ tag = 0xA2 then
          skipDerElement der
          tbsTailLoop der tbsEnd fuel
        else return {}
    else return {}

/-! ## Certificates -/

structure ParsedCert where
  tbsRaw : Bytes
  publicKeyPoint : Bytes
  signatureRs : Bytes
  extensions : Extensions
  deriving DecidableEq, Repr

def ParsedCert.hasPermitRedirect (c : ParsedCert) : Bool := c.extensions.eku.redirect
def ParsedCert.hasPermitProvision (c : ParsedCert) : Bool := c.extensions.eku.provision
def ParsedCert.hasPermitOnboard (c : ParsedCert) : Bool := c.extensions.eku.onboard
def ParsedCert.hasPermitReuseCred (c : ParsedCert) : Bool := c.extensions.eku.reuseCred
def ParsedCert.isCa (c : ParsedCert) : Bool := c.extensions.isCa
def ParsedCert.pathLen (c : ParsedCert) : Option Nat := c.extensions.pathLen

/-- The fields of a TBSCertificate from its version to its public key; returns the point. -/
def readTbsKey (der outerSigAlg : Bytes) : Run Nat Unit Bytes := do
  let _ ← readSequenceHeader der
  let b ← peek der
  onlyIf (b = some 0xA0) (skipDerElement der)
  skipDerElement der
  let innerSigAlg ← readAlgIdentifierOid der
  ensure (innerSigAlg = outerSigAlg) ()
  skipDerElement der
  skipDerElement der
  skipDerElement der
  let spkiStart ← getS
  let (_, spkiEnd) ← readSequenceHeader der
  let spki ← orFail (range? der spkiStart spkiEnd) ()
  let point ← ofOutcome (parseSpkiP256Point spki)
  setS spkiEnd
  return point

def parseX509CertRun (der : Bytes) : Run Nat Unit ParsedCert := do
  let _ ← readSequenceHeader der
  let tbsStart ← getS
  let (_, tbsEnd) ← readSequenceHeader der
  let tbsRaw ← orFail (range? der tbsStart tbsEnd) ()
  setS tbsEnd
  let outerSigAlg ← readAlgIdentifierOid der
  ensure (outerSigAlg = oidEcdsaWithSha256) ()
  let sigRaw ← readBitString der
  let signatureRs ← ofOutcome (ecdsaDerToRs sigRaw)
  -- Back to the start of the TBSCertificate for its fields.
  setS tbsStart
  let publicKeyPoint ← readTbsKey der outerSigAlg
  let extensions ← tbsTailLoop der tbsEnd (der.length + 1)
  return { tbsRaw, publicKeyPoint, signatureRs, extensions }

def parseX509Cert (der : Bytes) : Outcome Unit ParsedCert := (parseX509CertRun der).eval

/-! ## Chains -/

/-- Certificate `i` of a chain, leaf first, is properly issued by certificate `i + 1`: that one is a CA, its path length
allows the `i` intermediates below it, and the signature verifies under its key. -/
def checkIssued (Γ : Ctx) (parsed : List ParsedCert) (i : Nat) : Outcome Unit Unit := do
  let issuer ← Outcome.index parsed (i + 1)
  Outcome.ensure (issuer.isCa = true) ()
  Outcome.ensure (issuer.pathLen.all (fun maxIntermediates => decide (i ≤ maxIntermediates)) = true) ()
  let cert ← Outcome.index parsed i
  Outcome.ensure (verifyEs256 Γ cert.tbsRaw cert.signatureRs issuer.publicKeyPoint = true) ()

/-- `for i in (0..n).rev()`. -/
def rootToLeaf (Γ : Ctx) (parsed : List ParsedCert) : Nat → Outcome Unit Unit
  | 0 => pure ()
  | i + 1 => do
    checkIssued Γ parsed i
    rootToLeaf Γ parsed i

/-- `for i in i..i + n`. -/
def leafToRoot (Γ : Ctx) (parsed : List ParsedCert) : Nat → Nat → Outcome Unit Unit
  | 0, _ => pure ()
  | n + 1, i => do
    checkIssued Γ parsed i
    leafToRoot Γ parsed n (i + 1)

structure DelegateChainResult where
  leafKeyPoint : Bytes
  hasRedirect : Bool
  hasProvision : Bool
  hasOnboard : Bool
  hasReuseCred : Bool
  deriving DecidableEq, Repr

/-- Validate a delegate chain, leaf first, against the Owner key: the root first, then every link down to the leaf. -/
def verifyDelegateChain (Γ : Ctx) (certDers : List Bytes) (ownerKeyPoint : Bytes) : Outcome Unit DelegateChainResult := do
  Outcome.ensure (certDers ≠ []) ()
  Outcome.ensure (certDers.length ≤ maxDelegateChainLen) ()
  let parsed ← Outcome.collect parseX509Cert certDers
  let rootIdx := parsed.length - 1
  let root ← Outcome.index parsed rootIdx
  Outcome.ensure (verifyEs256 Γ root.tbsRaw root.signatureRs ownerKeyPoint = true) ()
  rootToLeaf Γ parsed rootIdx
  let leaf ← Outcome.index parsed 0
  return {
    leafKeyPoint := leaf.publicKeyPoint
    hasRedirect := parsed.all (·.hasPermitRedirect)
    hasProvision := parsed.all (·.hasPermitProvision)
    hasOnboard := parsed.all (·.hasPermitOnboard)
    hasReuseCred := parsed.all (·.hasPermitReuseCred) }

/-- The linkage of a chain, leaf first, without an anchor; returns the leaf key. -/
def verifyX5chainInternal (Γ : Ctx) (certDers : List Bytes) : Outcome Unit Bytes := do
  Outcome.ensure (certDers ≠ []) ()
  Outcome.ensure (certDers.length ≤ maxDelegateChainLen) ()
  let parsed ← Outcome.collect parseX509Cert certDers
  leafToRoot Γ parsed (parsed.length - 1) 0
  let leaf ← Outcome.index parsed 0
  return leaf.publicKeyPoint

end FdoUefi
