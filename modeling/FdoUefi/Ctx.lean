import FdoUefi.Lib.Cbor

/-!
# The context: what the client calls and does not implement

The signature check of the `p256` crate, the hashes of the `sha2` crate, the HMAC of the `hmac` crate, the cipher of the `aes-gcm`
crate and the HMAC of the TPM are functions of the context. No property of them is assumed except where a statement names it.
-/

namespace FdoUefi

open Prog

/-- The cryptography the client is linked against, and its TPM's HMAC. -/
structure Ctx where
  /-- ECDSA P-256 over SHA-256: message, signature `r || s`, uncompressed point. False for a point or a signature that does
  not decode. -/
  es256 : Bytes → Bytes → Bytes → Bool
  /-- SHA-256. -/
  sha256 : Bytes → Bytes
  /-- SHA-384. -/
  sha384 : Bytes → Bytes
  /-- `tpm_hmac`: key handle and data; none when the TPM fails. -/
  tpmHmac : Nat → Bytes → Option Bytes
  /-- HMAC-SHA-256: key and message. -/
  hmacSha256 : Bytes → Bytes → Bytes
  /-- AES-256-GCM: key, nonce, additional data and plaintext; the tag is at the end of the ciphertext. -/
  aesGcmEncrypt : Bytes → Bytes → Bytes → Bytes → Option Bytes
  /-- The same, from the ciphertext with its tag back to the plaintext. -/
  aesGcmDecrypt : Bytes → Bytes → Bytes → Bytes → Option Bytes
  /-- The `Debug` form of a text, as an error message quotes it. -/
  debugStr : Bytes → Bytes

/-- The context in which exactly the listed signatures (message, signature, point) verify and the listed byte strings have
the listed digests. It has no session cipher. -/
def Ctx.ofTables (signatures : List (Bytes × Bytes × Bytes)) (digests : List (Bytes × Bytes))
    (hmacs : List ((Nat × Bytes) × Bytes)) : Ctx where
  es256 msg sig point := signatures.contains (msg, sig, point)
  sha256 m := (digests.lookup m).getD []
  sha384 m := (digests.lookup m).getD []
  tpmHmac handle m := hmacs.lookup (handle, m)
  hmacSha256 _ _ := []
  aesGcmEncrypt _ _ _ _ := none
  aesGcmDecrypt _ _ _ _ := none
  debugStr t := utf8 "\"" ++ t ++ utf8 "\""

/-- The same context with further signatures and digests. -/
def Ctx.extend (Γ : Ctx) (signatures : List (Bytes × Bytes × Bytes)) (digests : List (Bytes × Bytes)) : Ctx :=
  { Γ with
    es256 := fun msg sig point => signatures.contains (msg, sig, point) || Γ.es256 msg sig point
    sha256 := fun m => (digests.lookup m).getD (Γ.sha256 m) }

/-- A message under AES-256-GCM, in both forms. -/
structure GcmEntry where
  key : Bytes
  nonce : Bytes
  aad : Bytes
  plaintext : Bytes
  ciphertext : Bytes

/-- The same context with the listed HMACs (key and message) and messages under AES-256-GCM. -/
def Ctx.withCipher (Γ : Ctx) (hmacs : List ((Bytes × Bytes) × Bytes)) (messages : List GcmEntry) : Ctx :=
  { Γ with
    hmacSha256 := fun key m => (hmacs.lookup (key, m)).getD []
    aesGcmEncrypt := fun key nonce aad plaintext =>
      (messages.find? fun x => x.key = key ∧ x.nonce = nonce ∧ x.aad = aad ∧ x.plaintext = plaintext).map (·.ciphertext)
    aesGcmDecrypt := fun key nonce aad ciphertext =>
      (messages.find? fun x => x.key = key ∧ x.nonce = nonce ∧ x.aad = aad ∧ x.ciphertext = ciphertext).map (·.plaintext) }

/-- `x as i8`. -/
def asI8 (x : Int) : Int := x.bmod (2 ^ 8)

/-- `x as i32` of a 64-bit value. -/
def asI32 (x : Int) : Int := x.bmod (2 ^ 32)

/-- A number of 32 bits stays as it is. -/
theorem asI32_of_range {x : Int} (hlo : -2 ^ 31 ≤ x) (hhi : x < 2 ^ 31) : asI32 x = x :=
  Int.bmod_eq_of_le (by omega) (by omega)

/-- `x as i64` of a 64-bit value. -/
def asI64 (x : Int) : Int := x.bmod (2 ^ 64)

end FdoUefi
