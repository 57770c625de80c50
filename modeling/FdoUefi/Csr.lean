import FdoUefi.Ctx

/-!
# The certificate signing request of Device Initialization (`di/protocol.rs`)

A PKCS#10 request for the device attestation key. Every length below 128 that the source writes as one byte is written as one
byte here too, whatever it is.
-/

namespace FdoUefi

open Prog

/-- `value as u8` of a length. -/
def lenByte (n : Nat) : UInt8 := UInt8.ofNat n

/-- An element with a length of one byte. -/
def derShort (tag : UInt8) (content : Bytes) : Bytes := tag :: lenByte content.length :: content

/-- The name `CN=cn`. -/
def buildX509NameCn (cn : Bytes) : Bytes :=
  let atv := derShort 0x30 ([0x06, 0x03, 0x55, 0x04, 0x03] ++ derShort 0x0c cn)
  let rdn := derShort 0x31 atv
  derShort 0x30 rdn

/-- `ecPublicKey` with the parameters `secp256r1`. -/
def ecAlgId : Bytes :=
  [0x30, 0x13, 0x06, 0x07, 0x2a, 0x86, 0x48, 0xce, 0x3d, 0x02, 0x01, 0x06, 0x08, 0x2a, 0x86, 0x48, 0xce, 0x3d, 0x03, 0x01, 0x07]

/-- The SubjectPublicKeyInfo of a point. -/
def buildEcSpki (x y : Bytes) : Bytes := derShort 0x30 (ecAlgId ++ derShort 0x03 ([0x00, 0x04] ++ x ++ y))

/-- The part of a request that is signed. -/
def buildCsrTbs (subjectCn publicX publicY : Bytes) : Bytes :=
  let content := [0x02, 0x01, 0x00] ++ buildX509NameCn subjectCn ++ buildEcSpki publicX publicY ++ [0xa0, 0x00]
  if content.length < 128 then 0x30 :: lenByte content.length :: content
  else 0x30 :: 0x81 :: lenByte content.length :: content

/-- The index of the first byte that is not zero, or of the last byte. -/
def encodeIntegerStart : Bytes → Nat
  | 0 :: b :: rest => encodeIntegerStart (b :: rest) + 1
  | _ => 0

/-- An INTEGER with leading zeros left out and a zero before a high bit. An empty one is indexed out of range. -/
def encodeInteger (bytes : Bytes) : Outcome Unit Bytes :=
  match bytes.drop (encodeIntegerStart bytes) with
  | [] => .panic
  | b :: rest => .ok (derShort 0x02 (if b &&& 0x80 ≠ 0 then 0x00 :: b :: rest else b :: rest))

/-- The signature `r || s` as a SEQUENCE of two INTEGERs. -/
def encodeEcdsaSignature (sig : Bytes) : Outcome Unit Bytes := do
  let half := sig.length / 2
  let rDer ← encodeInteger (sig.take half)
  let sDer ← encodeInteger (sig.drop half)
  return derShort 0x30 (rDer ++ sDer)

/-- `ecdsa-with-SHA256` -/
def ecdsaSigAlg : Bytes := [0x30, 0x0a, 0x06, 0x08, 0x2a, 0x86, 0x48, 0xce, 0x3d, 0x04, 0x03, 0x02]

/-- The whole request. -/
def assembleCsrDer (tbs signature : Bytes) : Outcome Unit Bytes := do
  let sigDer ← encodeEcdsaSignature signature
  let content := tbs ++ ecdsaSigAlg ++ [0x03, lenByte (sigDer.length + 1), 0x00] ++ sigDer
  let totalLen := content.length
  if totalLen < 128 then return 0x30 :: lenByte totalLen :: content
  else if totalLen < 256 then return 0x30 :: 0x81 :: lenByte totalLen :: content
  else return 0x30 :: 0x82 :: lenByte (totalLen >>> 8) :: lenByte totalLen :: content

end FdoUefi
