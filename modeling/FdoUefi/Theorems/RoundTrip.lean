import FdoUefi.Lemmas.RoundTrip
import Mathlib.Logic.Equiv.Basic

/-!
# What is encoded is decoded, up to 16 bits of length

`CborEncoder` has no head for a length of more than 16 bits: it writes the low 16. So `CborDecoder` gives back a string, an array
length or a map length exactly when it is below 2^16, and a message of the session cipher comes back exactly when its ciphertext
is shorter than that. `neg_int` writes an integer from 24 on as one byte, which is the head of something else.
-/

namespace FdoUefi

open Prog Prog.Run Prog.Cur Cbor

/-- The decoder returns `v` from the encoding `enc` and stops where what follows it starts. -/
def RoundTrip {α : Type} (read : Bytes → Dec.R α) (enc suffix : Bytes) (v : α) : Prop :=
  ∃ c, read (enc ++ suffix) Cur.start = (.ok v, c) ∧ c.pos = enc.length

/-- What AES-256-GCM promises: the tag adds 16 bytes, decryption is the inverse of encryption, and up to 2^36 - 32 bytes can be
encrypted. -/
structure GcmInverse (Γ : Ctx) : Prop where
  encrypts : ∀ key nonce aad p, key.length = 32 → nonce.length = 12 → p.length ≤ 2 ^ 36 - 32 →
    ∃ ct, Γ.aesGcmEncrypt key nonce aad p = some ct
  length : ∀ key nonce aad p ct, Γ.aesGcmEncrypt key nonce aad p = some ct → ct.length = p.length + 16
  decrypt_iff : ∀ key nonce aad p ct, key.length = 32 → nonce.length = 12 →
    (Γ.aesGcmDecrypt key nonce aad ct = some p ↔ Γ.aesGcmEncrypt key nonce aad p = some ct)

namespace Aux

variable {α : Type} {read : Bytes → Dec.R α} {enc suffix : Bytes} {v w : α}

/-- A reader that reads the encoding to its end gives it back. -/
theorem roundTrip_of_reads (h : Reads (read (enc ++ suffix)) 0 v enc.length) : RoundTrip read enc suffix v := by
  obtain ⟨log', heq⟩ := h []
  exact ⟨_, heq, rfl⟩

/-- A reader that reads something else does not. -/
theorem eq_of_roundTrip {q : Nat} (h : Reads (read (enc ++ suffix)) 0 v q) (hrt : RoundTrip read enc suffix w) : w = v := by
  obtain ⟨c, hread, -⟩ := hrt
  exact (Reads.eq (c := Cur.start) h hread).1

/-- Where a reader reads some value, it gives back that value and no other. -/
theorem roundTrip_iff (read : Bytes → Dec.R α) {q : Nat} (h : Reads (read (enc ++ suffix)) 0 v q) (hq : w = v → q = enc.length) :
    RoundTrip read enc suffix w ↔ w = v := by
  constructor
  · exact eq_of_roundTrip h
  · rintro rfl
    rw [hq rfl] at h
    exact roundTrip_of_reads h

/-- A head stands at the start of what it begins. -/
theorem at_head {hd : Head} (h : enc = hd.bytes) : At (enc ++ suffix) 0 hd.bytes := at_zero_iff.2 ⟨suffix, by rw [h]⟩

/-- A head comes back if its argument has 16 bits. -/
theorem readHead_roundTrip_iff {m n : Nat} {e : Nat → FdoError} (hm : m < 7) :
    RoundTrip (fun d => Dec.readHead d m e) (Enc.head m n) suffix n ↔ n < 2 ^ 16 := by
  obtain ⟨hd, hb, hmaj, harg, h26⟩ := encHead_head (n := n) hm
  have hlen := encHead_length_le m n
  have hread : Reads (Dec.readHead (Enc.head m n ++ suffix) m e) 0 hd.arg (0 + hd.bytes.length) :=
    readHead_reads (at_head hb) hmaj (by omega) (by rw [← hb]; unfold wordSize; omega)
  rw [roundTrip_iff (fun d => Dec.readHead d m e) hread fun _ => by rw [hb, Nat.zero_add], harg]
  omega

/-- A string reader gives back a string exactly when its length fits in 16 bits: of a longer one it reads a beginning, if that. -/
theorem readStr_roundTrip_iff {m : Nat} {read : Bytes → Dec.R Bytes} {s : Bytes} (hm : m < 7)
    (hreads : ∀ (d : Bytes) (hd : Head), At d 0 (hd.bytes ++ s) → hd.IsMajor m → additional hd.initial < 28 →
      s.length = hd.arg → 0 + (hd.bytes ++ s).length < wordSize → Reads (read d) 0 s (0 + (hd.bytes ++ s).length))
    (hlength : ∀ (d : Bytes) (hd : Head) (w : Bytes) (c : Cur), At d 0 hd.bytes → hd.IsMajor m → additional hd.initial < 28 →
      0 + hd.bytes.length + hd.arg < wordSize → read d Cur.start = (.ok w, c) → w.length = hd.arg) :
    RoundTrip read (Enc.head m s.length ++ s) suffix s ↔ s.length < 2 ^ 16 := by
  obtain ⟨hd, hb, hmaj, harg, h26⟩ := encHead_head (n := s.length) hm
  have hlen := encHead_length_le m s.length
  rw [hb] at hlen ⊢
  constructor
  · rintro ⟨c, hread, -⟩
    have hat : At (hd.bytes ++ s ++ suffix) 0 hd.bytes := at_zero_iff.2 ⟨s ++ suffix, List.append_assoc _ _ _⟩
    have hsize := hlength _ hd s c hat hmaj (by omega) (by unfold wordSize; omega) hread
    omega
  · intro hs
    refine roundTrip_of_reads ?_
    have hat : At (hd.bytes ++ s ++ suffix) 0 (hd.bytes ++ s) := at_zero_iff.2 ⟨suffix, rfl⟩
    have hsize : 0 + (hd.bytes ++ s).length < wordSize := by
      rw [List.length_append]
      unfold wordSize
      omega
    have hread := hreads _ hd hat hmaj (by omega) (by omega) hsize
    rwa [Nat.zero_add] at hread

/-- A byte string comes back if its length has 16 bits. -/
theorem readBytes_roundTrip_iff (data suffix : Bytes) :
    RoundTrip Dec.readBytes (Enc.bytes data) suffix data ↔ data.length < 2 ^ 16 :=
  readStr_roundTrip_iff (by omega) (fun _ _ hat hm h28 hs hp => readBytes_reads hat hm h28 hs hp)
    fun _ _ _ _ hat hm h28 hp h => readBytes_length hat hm h28 hp h

/-- A text comes back if its length has 16 bits. -/
theorem readText_roundTrip_iff {s : Bytes} (hutf : utf8Valid s = true) (suffix : Bytes) :
    RoundTrip Dec.readText (Enc.text s) suffix s ↔ s.length < 2 ^ 16 :=
  readStr_roundTrip_iff (by omega) (fun _ _ hat hm h28 hs hp => readText_reads hat hm h28 hs hutf hp)
    fun _ _ _ _ hat hm h28 hp h => readText_length hat hm h28 hp h

/-- The length of a map comes back if it has 16 bits. -/
theorem readMapLen_roundTrip_iff (n : Nat) (suffix : Bytes) :
    RoundTrip Dec.readMapLen (Enc.encodeMap n) suffix n ↔ n < 2 ^ 16 := by
  obtain ⟨hd, hb, hmaj, harg, h26⟩ := encHead_head (m := 5) (n := n) (by omega)
  have hlen := encHead_length_le 5 n
  have hread : Reads (Dec.readMapLen (Enc.encodeMap n ++ suffix)) 0 hd.arg (0 + hd.bytes.length) :=
    readMapLen_reads (at_head hb) hmaj h26 (by rw [← hb]; unfold wordSize; omega)
  rw [roundTrip_iff Dec.readMapLen hread fun _ => by rw [Enc.encodeMap, hb, Nat.zero_add], harg]
  omega

/-- A negative integer, and a small positive one, is written as a head. -/
theorem negInt_head {v : Int} (hlo : -128 ≤ v) (hv : v < 24) :
    ∃ hd : Head, Enc.negInt v = hd.bytes ∧ additional hd.initial < 28 ∧ hd.arg < 2 ^ 31 ∧
      (hd.IsMajor 0 ∧ v = hd.arg ∨ hd.IsMajor 1 ∧ v = -1 - hd.arg) := by
  by_cases h0 : 0 ≤ v
  · obtain ⟨hd, hb, hmaj, harg, h26⟩ := encHead_head (m := 0) (n := v.toNat) (by omega)
    refine ⟨hd, ?_, by omega, by omega, .inl ⟨hmaj, by omega⟩⟩
    rw [← hb, Enc.negInt, if_pos h0, Enc.head, if_pos (by omega), Nat.zero_mul, Nat.zero_add]
  · obtain ⟨hd, hb, hmaj, harg, h26⟩ := encHead_head (m := 1) (n := (-1 - v).toNat) (by omega)
    refine ⟨hd, ?_, by omega, by omega, .inr ⟨hmaj, by omega⟩⟩
    rw [← hb, Enc.negInt, if_neg h0, Enc.head]
    simp only [Nat.one_mul]
    split_ifs
    · rfl
    · rfl
    · omega

/-- A small integer comes back below 24 only. -/
theorem readInt_roundTrip_iff {v : Int} (hlo : -128 ≤ v) (hhi : v ≤ 127) (suffix : Bytes) :
    RoundTrip Dec.readInt (Enc.negInt v) suffix v ↔ v < 24 := by
  constructor
  · rintro ⟨c, hread, hpos⟩
    by_contra h24
    have henc : Enc.negInt v = [UInt8.ofNat v.toNat] := if_pos (by omega)
    have hnat : (UInt8.ofNat v.toNat).toNat = v.toNat := by
      rw [UInt8.toNat_ofNat']
      exact Nat.mod_eq_of_lt (by omega)
    rw [henc] at hread hpos
    have hat : At ([UInt8.ofNat v.toNat] ++ suffix) Cur.start.pos [UInt8.ofNat v.toNat] := at_zero_iff.2 ⟨suffix, rfl⟩
    obtain ⟨ha, hm⟩ := readInt_one hat (by decide) hread hpos
    rw [major_eq, additional_eq, hnat] at hm
    rw [additional_eq, hnat] at ha
    omega
  · intro h24
    obtain ⟨hd, hb, h28, harg, hv⟩ := negInt_head hlo h24
    have hsize : 0 + hd.bytes.length < wordSize := by
      have hext : extLen (additional hd.initial) ≤ 8 := by
        unfold extLen
        split <;> omega
      rw [hd.bytes_length]
      unfold wordSize
      omega
    have hat : At (Enc.negInt v ++ suffix) 0 hd.bytes := at_head hb
    rw [← asI32_of_range (x := hd.arg) (by omega) (by omega)] at hv
    have hread := readInt_reads hat h28 hsize hv
    rw [Nat.zero_add, ← hb] at hread
    exact roundTrip_of_reads hread

/-- A sealed message comes back exactly when its ciphertext has at most 16 bits of length. -/
theorem encrypt0_roundTrip_iff {Γ : Ctx} (hΓ : GcmInverse Γ) (fuel : Nat) {key nonce : Bytes} (hkey : key.length = 32)
    (hnonce : nonce.length = 12) (p : Bytes) :
    (∃ m, coseEncrypt0A256gcm Γ key nonce p = .ok m ∧ coseDecrypt0A256gcm Γ fuel key m = .ok p) ↔ p.length + 16 < 2 ^ 16 := by
  have hdec : ∀ ct, coseDecrypt0A256gcm Γ fuel key (encrypt0Message nonce ct) =
      aes256GcmDecrypt Γ key nonce (ct.take (ct.length % 2 ^ 16)) (buildCoseEncStructure buildA256gcmProtectedHeaders []) := by
    intro ct
    obtain ⟨q, hread⟩ := parseEncryptedMessage_reads ct fuel hnonce
    obtain ⟨log', heq⟩ := hread []
    have hparse : Dec.eval (parseEncryptedMessage fuel (encrypt0Message nonce ct)) =
        .ok (nonce, ct.take (ct.length % 2 ^ 16)) := congrArg Prod.fst heq
    rw [coseDecrypt0A256gcm, hparse]
    rfl
  constructor
  · rintro ⟨m, henc, hm⟩
    obtain ⟨ct, hct, rfl⟩ := coseEncrypt0A256gcm_ok_iff.1 henc
    obtain ⟨-, -, hgcm⟩ := aes256GcmEncrypt_ok_iff.1 hct
    rw [hdec] at hm
    obtain ⟨-, -, -, hopen⟩ := aes256GcmDecrypt_ok_iff.1 hm
    -- What was decrypted is as long as what was encrypted, so nothing was cut off.
    have hcut := hΓ.length _ _ _ _ _ ((hΓ.decrypt_iff _ _ _ _ _ hkey hnonce).1 hopen)
    have hlen := hΓ.length _ _ _ _ _ hgcm
    rw [List.length_take] at hcut
    omega
  · intro hp
    obtain ⟨ct, hgcm⟩ := hΓ.encrypts key nonce (buildCoseEncStructure buildA256gcmProtectedHeaders []) p hkey hnonce (by omega)
    have hlen := hΓ.length _ _ _ _ _ hgcm
    have hct := aes256GcmEncrypt_ok_iff.2 ⟨hkey, hnonce, hgcm⟩
    refine ⟨encrypt0Message nonce ct, coseEncrypt0A256gcm_ok_iff.2 ⟨ct, hct, rfl⟩, ?_⟩
    rw [hdec, Nat.mod_eq_of_lt (by omega), List.take_length]
    exact aes256GcmDecrypt_ok_iff.2 ⟨hkey, hnonce, by omega, (hΓ.decrypt_iff _ _ _ _ _ hkey hnonce).2 hgcm⟩

end Aux

/-- What the decoder gives back, and for which inputs: strings, array lengths and map lengths below 2^16, every `u16`, every `i8`
below 24, and every plaintext whose ciphertext is shorter than 2^16 bytes. -/
theorem decoder_undoes_encoder_iff (Γ : Ctx) (hΓ : GcmInverse Γ) :
    (∀ data suffix, RoundTrip Dec.readBytes (Enc.bytes data) suffix data ↔ data.length < 65536) ∧
    (∀ text suffix, utf8Valid text = true → (RoundTrip Dec.readText (Enc.text text) suffix text ↔ text.length < 65536)) ∧
    (∀ n suffix, RoundTrip Dec.readArrayLen (Enc.array n) suffix n ↔ n < 65536) ∧
    (∀ n suffix, RoundTrip Dec.readMapLen (Enc.encodeMap n) suffix n ↔ n < 65536) ∧
    (∀ (v : UInt16) suffix, RoundTrip Dec.readUint (Enc.uint v.toNat) suffix v.toNat) ∧
    (∀ (v : Int8) suffix, RoundTrip Dec.readInt (Enc.negInt v.toInt) suffix v.toInt ↔ v.toInt < 24) ∧
    ∀ fuel key nonce p, key.length = 32 → nonce.length = 12 →
      ((∃ m, coseEncrypt0A256gcm Γ key nonce p = .ok m ∧ coseDecrypt0A256gcm Γ fuel key m = .ok p) ↔ p.length + 16 < 65536) := by
  refine ⟨Aux.readBytes_roundTrip_iff, ?_, ?_, Aux.readMapLen_roundTrip_iff, ?_, ?_, ?_⟩
  · intro text suffix hutf
    exact Aux.readText_roundTrip_iff hutf suffix
  · intro n suffix
    exact Aux.readHead_roundTrip_iff (by omega)
  · intro v suffix
    exact (Aux.readHead_roundTrip_iff (by omega)).2 v.toNat_lt
  · intro v suffix
    exact Aux.readInt_roundTrip_iff v.le_toInt (by have := v.toInt_lt; omega) suffix
  · intro fuel key nonce p hkey hnonce
    exact Aux.encrypt0_roundTrip_iff hΓ fuel hkey hnonce p

/-! ## A message of three bytes -/

/-- The key `00 .. 1f`. -/
def sampleGcmKey : Bytes := (List.range 32).map UInt8.ofNat

/-- The nonce `00 .. 0b`. -/
def sampleGcmNonce : Bytes := (List.range 12).map UInt8.ofNat

/-- `01 02 03` under that key and nonce. -/
def sampleGcmCiphertext : Bytes := beBytes 19 0x4600d5d2b482badddfa800150d6d6b5186b9a9

/-- A message with a tag of zeros. -/
def zeroTagged (p : Bytes) : Bytes := p ++ List.replicate 16 0

/-- For that key, nonce and additional data: exchange `01 02 03` with a tag of zeros for its ciphertext. -/
def sampleGcmSwap (key nonce aad : Bytes) : Equiv.Perm Bytes :=
  if key = sampleGcmKey ∧ nonce = sampleGcmNonce ∧ aad = buildCoseEncStructure buildA256gcmProtectedHeaders [] then
    Equiv.swap (zeroTagged [1, 2, 3]) sampleGcmCiphertext
  else Equiv.refl Bytes

/-- A cipher that is AES-256-GCM on this message. -/
def sampleGcmCtx : Ctx :=
  { Ctx.ofTables [] [] [] with
    aesGcmEncrypt := fun key nonce aad p => some (sampleGcmSwap key nonce aad (zeroTagged p))
    aesGcmDecrypt := fun key nonce aad ct =>
      let tagged := (sampleGcmSwap key nonce aad).symm ct
      if zeroTagged (tagged.take (tagged.length - 16)) = tagged then some (tagged.take (tagged.length - 16)) else none }

namespace Aux

/-- The sample cipher keeps lengths. -/
theorem sampleGcmSwap_length (key nonce aad x : Bytes) : (sampleGcmSwap key nonce aad x).length = x.length := by
  have hlen : (zeroTagged [1, 2, 3]).length = sampleGcmCiphertext.length := by decide
  unfold sampleGcmSwap
  split_ifs with h
  · rw [Equiv.swap_apply_def]
    split_ifs with h1 h2
    · rw [h1, hlen]
    · rw [h2, hlen]
    · rfl
  · rfl

/-- The sample cipher is undone by its inverse. -/
theorem sampleGcm_inverse : GcmInverse sampleGcmCtx where
  encrypts _ _ _ _ _ _ _ := ⟨_, rfl⟩
  length key nonce aad p ct h := by
    have hct : sampleGcmSwap key nonce aad (zeroTagged p) = ct := Option.some.inj h
    rw [← hct, sampleGcmSwap_length, zeroTagged, List.length_append, List.length_replicate]
  decrypt_iff key nonce aad p ct _ _ := by
    simp only [sampleGcmCtx, Option.some.injEq]
    rw [← Equiv.eq_symm_apply]
    generalize (sampleGcmSwap key nonce aad).symm ct = tagged
    constructor
    · intro h
      split_ifs at h with heq
      rw [← Option.some.inj h, heq]
    · rintro rfl
      simp [zeroTagged]

end Aux

/-- A message under the sample cipher comes back. -/
theorem sampleGcm_comes_back :
    sampleGcmCtx.aesGcmEncrypt sampleGcmKey sampleGcmNonce (buildCoseEncStructure buildA256gcmProtectedHeaders []) [1, 2, 3] =
      some sampleGcmCiphertext ∧
    ∃ m, coseEncrypt0A256gcm sampleGcmCtx sampleGcmKey sampleGcmNonce [1, 2, 3] = .ok m ∧
      coseDecrypt0A256gcm sampleGcmCtx 1 sampleGcmKey m = .ok [1, 2, 3] := by
  obtain ⟨-, -, -, -, -, -, h⟩ := decoder_undoes_encoder_iff sampleGcmCtx Aux.sampleGcm_inverse
  exact ⟨by decide, (h 1 _ _ _ (by decide) (by decide)).2 (by decide)⟩

/-- A byte string of 2^16 bytes is encoded with the length 0, and 24 as the head of a one-byte argument. -/
theorem decoder_does_not_undo_encoder :
    ¬RoundTrip Dec.readBytes (Enc.bytes (List.replicate 65536 0)) [] (List.replicate 65536 0) ∧
    ¬RoundTrip Dec.readInt (Enc.negInt 24) [] 24 := by
  refine ⟨fun h => ?_, fun h => ?_⟩
  · have hlen := (Aux.readBytes_roundTrip_iff _ _).1 h
    rw [List.length_replicate] at hlen
    omega
  · have hlt := (Aux.readInt_roundTrip_iff (by omega) (by omega) _).1 h
    omega

end FdoUefi
