import FdoUefi.To2Messages

/-!
# The decoder on what the encoder wrote

A head that `CborEncoder` writes is a CBOR head whose argument is the length cut to 16 bits (`encHead_head`). `CborDecoder` reads
a head and the content it announces, wherever they stand (`readHead_reads`, `readBytes_reads`).
-/

namespace FdoUefi

open Prog Prog.Run Prog.Cur Cbor

variable {d : Bytes} {p : Nat}

/-! ## What the encoder writes -/

/-- The head of a length is one of the length cut to 16 bits, in at most two argument bytes. -/
theorem encHead_head {m n : Nat} (hm : m < 7) :
    ∃ hd : Head, Enc.head m n = hd.bytes ∧ hd.IsMajor m ∧ hd.arg = n % 2 ^ 16 ∧ additional hd.initial < 26 := by
  unfold Enc.head
  split_ifs with h0 h1
  · have ht : ([] : Bytes).length = extLen n := by
      unfold extLen
      split <;> simp_all
    obtain ⟨hd, hb, hmaj, hadd, harg, -⟩ := Head.exists_of hm (by omega) ht
    exact ⟨hd, hb.symm, hmaj, by rw [harg, argVal, if_pos h0]; omega, by omega⟩
  · obtain ⟨hd, hb, hmaj, hadd, harg, -⟩ := Head.exists_of (k := 24) hm (by omega) (beBytes_length 1 n)
    exact ⟨hd, hb.symm, hmaj, by rw [harg, argVal, if_neg (by omega), beNat_beBytes (by omega)]; omega, by omega⟩
  · obtain ⟨hd, hb, hmaj, hadd, harg, -⟩ := Head.exists_of (k := 25) hm (by omega) (beBytes_length 2 n)
    refine ⟨hd, ?_, hmaj, by rw [harg, argVal, if_neg (by omega), beNat_beBytes_mod]; norm_num, by omega⟩
    rw [hb]
    simp only [beBytes, Nat.shiftRight_eq_div_pow, Nat.mul_zero, Nat.pow_zero, Nat.div_one, Nat.mul_one]

/-- The encoder writes heads of three bytes at most. -/
theorem encHead_length_le (m n : Nat) : (Enc.head m n).length ≤ 3 := by
  unfold Enc.head
  split_ifs <;> simp

/-! ## What the decoder reads -/

/-- A big-endian number is read digit by digit. -/
theorem readBe_reads {bs : Bytes} (acc : Nat) (hat : At d p bs) (hp : p + bs.length < wordSize) :
    Reads (Dec.readBe d bs.length acc) p (bs.foldl (fun acc b => acc * 256 + b.toNat) acc) (p + bs.length) := by
  induction bs generalizing p acc with
  | nil => exact .pure acc
  | cons b bs ih =>
    obtain ⟨hb, hbs⟩ := at_append_iff.1 (show At d p ([b] ++ bs) from hat)
    simp only [List.length_cons] at hp ⊢
    have hrest := ih (acc * 256 + b.toNat) hbs (by simp only [List.length_singleton]; omega)
    rw [List.length_singleton, Nat.add_assoc, Nat.add_comm 1] at hrest
    exact (Reads.byte hb (by omega)).bind hrest

/-- The argument of a head. -/
theorem decodeAdditional_reads {hd : Head} (hat : At d p hd.bytes) (h28 : additional hd.initial < 28)
    (hp : p + hd.bytes.length < wordSize) :
    Reads (Dec.decodeAdditional d (additional hd.initial)) (p + 1) hd.arg (p + hd.bytes.length) := by
  have htail : At d (p + 1) hd.tail := (at_append_iff.1 (show At d p ([hd.initial] ++ hd.tail) from hat)).2
  have hlen := hd.bytes_length
  have hsize := hd.tail_length
  have hbe : ∀ n, extLen (additional hd.initial) = n → 24 ≤ additional hd.initial →
      Reads (Dec.readBe d n 0) (p + 1) hd.arg (p + hd.bytes.length) := by
    intro n hn h24
    have hread := readBe_reads 0 htail (by omega)
    have harg : hd.arg = beNat hd.tail := if_neg (by omega)
    rw [hsize, hn] at hread
    rw [harg, hlen, hn, ← Nat.add_assoc]
    exact hread
  unfold Dec.decodeAdditional
  rcases (by omega : additional hd.initial ≤ 23 ∨ additional hd.initial = 24 ∨ additional hd.initial = 25 ∨
    additional hd.initial = 26 ∨ additional hd.initial = 27) with h | h | h | h | h
  · have hext : extLen (additional hd.initial) = 0 := by
      unfold extLen
      split <;> omega
    have harg : hd.arg = additional hd.initial := if_pos (by omega)
    rw [if_pos h, harg, hlen, hext]
    exact .pure _
  · simp only [h, Nat.reduceLeDiff, if_false, if_true]
    exact hbe 1 (by rw [h]; rfl) (by omega)
  · simp only [h, Nat.reduceLeDiff, Nat.reduceEqDiff, if_false, if_true]
    exact hbe 2 (by rw [h]; rfl) (by omega)
  · simp only [h, Nat.reduceLeDiff, Nat.reduceEqDiff, if_false, if_true]
    exact hbe 4 (by rw [h]; rfl) (by omega)
  · simp only [h, Nat.reduceLeDiff, Nat.reduceEqDiff, if_false, if_true]
    exact hbe 8 (by rw [h]; rfl) (by omega)

/-- A big-endian number that was read was passed. -/
theorem readBe_pos {n acc v : Nat} {c c' : Cur} (hp : c.pos + n < wordSize) (h : Dec.readBe d n acc c = (.ok v, c')) :
    c'.pos = c.pos + n := by
  induction n generalizing acc c with
  | zero => rw [(pure_ok_iff.1 h).2, Nat.add_zero]
  | succ n ih =>
    obtain ⟨b, c₁, hb, hrest⟩ := bind_ok_iff.1 h
    have hc₁ := byte_pos (by omega) hb
    rw [ih (by omega) hrest, hc₁]
    omega

/-- An argument is the additional information itself, or bytes after it. -/
theorem decodeAdditional_pos {ai v : Nat} {c c' : Cur} (hp : c.pos + 8 < wordSize)
    (h : Dec.decodeAdditional d ai c = (.ok v, c')) : ai < 24 ∧ v = ai ∨ c.pos < c'.pos := by
  unfold Dec.decodeAdditional at h
  split_ifs at h with h23 h24 h25 h26 h27
  · exact .inl ⟨by omega, (pure_ok_iff.1 h).1⟩
  · exact .inr (by rw [readBe_pos (by omega) h]; omega)
  · exact .inr (by rw [readBe_pos (by omega) h]; omega)
  · exact .inr (by rw [readBe_pos (by omega) h]; omega)
  · exact .inr (by rw [readBe_pos (by omega) h]; omega)
  · simp at h

/-- The initial byte of a head is read. -/
theorem readByte_reads {hd : Head} (hat : At d p hd.bytes) (hp : p + hd.bytes.length < wordSize) :
    Reads (Dec.readByte d) p hd.initial (p + 1) := by
  have hpos := hd.bytes_pos
  exact .byte (at_append_iff.1 (show At d p ([hd.initial] ++ hd.tail) from hat)).1 (by omega)

/-- A head is read as its argument. -/
theorem readHead_reads {m : Nat} {hd : Head} {e : Nat → FdoError} (hat : At d p hd.bytes) (hm : hd.IsMajor m)
    (h28 : additional hd.initial < 28) (hp : p + hd.bytes.length < wordSize) :
    Reads (Dec.readHead d m e) p hd.arg (p + hd.bytes.length) :=
  (readByte_reads hat hp).bind (.ensure hm (decodeAdditional_reads hat h28 hp))

/-- A byte string. -/
theorem readBytes_reads {hd : Head} {s : Bytes} (hat : At d p (hd.bytes ++ s)) (hm : hd.IsMajor 2)
    (h28 : additional hd.initial < 28) (hs : s.length = hd.arg) (hp : p + (hd.bytes ++ s).length < wordSize) :
    Reads (Dec.readBytes d) p s (p + (hd.bytes ++ s).length) := by
  obtain ⟨hhead, hcontent⟩ := at_append_iff.1 hat
  rw [List.length_append] at hp ⊢
  refine (readHead_reads hhead hm h28 (by omega)).bind ?_
  rw [← hs]
  refine (Reads.content hcontent (by omega)).bind ?_
  rw [← Nat.add_assoc]
  exact (Reads.bump (by omega)).bind (.pure s)

/-- A text string. -/
theorem readText_reads {hd : Head} {s : Bytes} (hat : At d p (hd.bytes ++ s)) (hm : hd.IsMajor 3)
    (h28 : additional hd.initial < 28) (hs : s.length = hd.arg) (hutf : utf8Valid s = true)
    (hp : p + (hd.bytes ++ s).length < wordSize) : Reads (Dec.readText d) p s (p + (hd.bytes ++ s).length) := by
  obtain ⟨hhead, hcontent⟩ := at_append_iff.1 hat
  rw [List.length_append] at hp ⊢
  refine (readHead_reads hhead hm h28 (by omega)).bind ?_
  rw [← hs]
  refine (Reads.content hcontent (by omega)).bind (.ensure hutf ?_)
  rw [← Nat.add_assoc]
  exact (Reads.bump (by omega)).bind (.pure s)

/-- A byte string has the length its head announces. -/
theorem readBytes_length {hd : Head} {s : Bytes} {c c' : Cur} (hat : At d c.pos hd.bytes) (hm : hd.IsMajor 2)
    (h28 : additional hd.initial < 28) (hp : c.pos + hd.bytes.length + hd.arg < wordSize)
    (h : Dec.readBytes d c = (.ok s, c')) : s.length = hd.arg := by
  unfold Dec.readBytes at h
  simp only [bind_ok_iff, pure_ok_iff] at h
  obtain ⟨len, c₁, hlen, t, c₂, ht, _, _, -, rfl, -⟩ := h
  obtain ⟨rfl, hc₁⟩ := Reads.eq (readHead_reads hat hm h28 (by omega)) hlen
  exact content_length (by rw [hc₁]; exact hp) ht

/-- A text has the length its head announces. -/
theorem readText_length {hd : Head} {s : Bytes} {c c' : Cur} (hat : At d c.pos hd.bytes) (hm : hd.IsMajor 3)
    (h28 : additional hd.initial < 28) (hp : c.pos + hd.bytes.length + hd.arg < wordSize)
    (h : Dec.readText d c = (.ok s, c')) : s.length = hd.arg := by
  unfold Dec.readText at h
  simp only [bind_ok_iff, pure_ok_iff] at h
  obtain ⟨len, c₁, hlen, t, c₂, ht, _, _, -, _, _, -, rfl, -⟩ := h
  obtain ⟨rfl, hc₁⟩ := Reads.eq (readHead_reads hat hm h28 (by omega)) hlen
  exact content_length (by rw [hc₁]; exact hp) ht

/-- `read_map_len` reads its argument by itself, and no argument of more than two bytes. -/
theorem readMapLen_reads {hd : Head} (hat : At d p hd.bytes) (hm : hd.IsMajor 5) (h26 : additional hd.initial < 26)
    (hp : p + hd.bytes.length < wordSize) : Reads (Dec.readMapLen d) p hd.arg (p + hd.bytes.length) := by
  refine (readByte_reads hat hp).bind (.ensure hm ?_)
  have hread := decodeAdditional_reads hat (by omega) hp
  have heq : (if additional hd.initial < 24 then Pure.pure (additional hd.initial)
      else if additional hd.initial = 24 then Dec.readBe d 1 0
      else if additional hd.initial = 25 then Dec.readBe d 2 0
      else fail (cborErr "Unsupported map length")) = Dec.decodeAdditional d (additional hd.initial) := by
    unfold Dec.decodeAdditional
    rcases (by omega : additional hd.initial ≤ 23 ∨ additional hd.initial = 24 ∨ additional hd.initial = 25) with h | h | h
    · rw [if_pos (by omega), if_pos h]
    · simp only [h, Nat.lt_irrefl, Nat.reduceLeDiff, if_false, if_true]
    · simp only [h, Nat.reduceLeDiff, Nat.reduceEqDiff, Nat.reduceLT, if_false, if_true]
  simp only
  rw [heq]
  exact hread

/-- An integer, positive or negative. Its argument is cut to 32 bits. -/
theorem readInt_reads {hd : Head} {v : Int} (hat : At d p hd.bytes) (h28 : additional hd.initial < 28)
    (hp : p + hd.bytes.length < wordSize)
    (hv : hd.IsMajor 0 ∧ v = asI32 hd.arg ∨ hd.IsMajor 1 ∧ v = -1 - asI32 hd.arg) :
    Reads (Dec.readInt d) p v (p + hd.bytes.length) := by
  refine (readByte_reads hat hp).bind ?_
  have harg := decodeAdditional_reads hat h28 hp
  rcases hv with ⟨hm, hval⟩ | ⟨hm, hval⟩
  · have hm' : major hd.initial = 0 := hm
    rw [hval]
    simp only [hm']
    exact harg.bind (.pure _)
  · have hm' : major hd.initial = 1 := hm
    rw [hval]
    simp only [hm']
    exact harg.bind (.pure _)

/-- What was read where an integer was read: the first byte, and the argument that it announces. -/
theorem readInt_cases {v : Int} {c c' : Cur} (h : Dec.readInt d c = (.ok v, c')) :
    ∃ b c₁ x, Dec.readByte d c = (.ok b, c₁) ∧ Dec.decodeAdditional d (additional b) c₁ = (.ok x, c') ∧
      (major b = 0 ∧ v = asI32 x ∨ major b = 1 ∧ v = -1 - asI32 x) := by
  unfold Dec.readInt at h
  obtain ⟨b, c₁, hb, h⟩ := bind_ok_iff.1 h
  have hlt := major_lt b
  rcases (by omega : major b = 0 ∨ major b = 1 ∨ major b = 2 ∨ major b = 3 ∨ major b = 4 ∨ major b = 5 ∨ major b = 6 ∨
    major b = 7) with hm | hm | hm | hm | hm | hm | hm | hm <;> simp only [hm] at h
  · obtain ⟨x, c₂, hx, hv⟩ := bind_ok_iff.1 h
    obtain ⟨hval, rfl⟩ := pure_ok_iff.1 hv
    exact ⟨b, c₁, x, hb, hx, .inl ⟨hm, hval⟩⟩
  · obtain ⟨x, c₂, hx, hv⟩ := bind_ok_iff.1 h
    obtain ⟨hval, rfl⟩ := pure_ok_iff.1 hv
    exact ⟨b, c₁, x, hb, hx, .inr ⟨hm, hval⟩⟩
  all_goals simp at h

/-- An integer that is read is the argument of its head, cut to 32 bits, or one less than its negative. -/
theorem readInt_of_head {hd : Head} {v : Int} {c c' : Cur} (hat : At d c.pos hd.bytes) (h28 : additional hd.initial < 28)
    (hp : c.pos + hd.bytes.length < wordSize) (h : Dec.readInt d c = (.ok v, c')) :
    hd.IsMajor 0 ∧ v = asI32 hd.arg ∨ hd.IsMajor 1 ∧ v = -1 - asI32 hd.arg := by
  obtain ⟨b, c₁, x, hb, hx, hv⟩ := readInt_cases h
  obtain ⟨rfl, hc₁⟩ := Reads.eq (readByte_reads hat hp) hb
  have hreads := decodeAdditional_reads hat h28 hp
  rw [← hc₁] at hreads
  obtain ⟨rfl, -⟩ := Reads.eq hreads hx
  exact hv

/-- An integer that is read from one byte alone. -/
theorem readInt_one {b : UInt8} {v : Int} {c c' : Cur} (hat : At d c.pos [b]) (hp : c.pos + 16 < wordSize)
    (h : Dec.readInt d c = (.ok v, c')) (hpos : c'.pos = c.pos + 1) :
    additional b < 24 ∧ (major b = 0 ∧ v = additional b ∨ major b = 1 ∧ v = -1 - additional b) := by
  obtain ⟨b', c₁, x, hb, hx, hv⟩ := readInt_cases h
  obtain ⟨rfl, hc₁⟩ := Reads.eq (Reads.byte hat (by omega)) hb
  rcases decodeAdditional_pos (by omega) hx with ⟨h24, rfl⟩ | hlt
  · rw [asI32_of_range (by omega) (by omega)] at hv
    exact ⟨h24, hv⟩
  · omega

/-! ## Messages of the session cipher -/

/-- A head that was written. -/
theorem readHead_encHead {m n : Nat} {e : Nat → FdoError} (hm : m < 7) (hn : n < 2 ^ 16) (hat : At d p (Enc.head m n))
    (hp : p + 3 < wordSize) : Reads (Dec.readHead d m e) p n (p + (Enc.head m n).length) := by
  obtain ⟨hd, hb, hmaj, harg, h26⟩ := encHead_head (n := n) hm
  have hlen := encHead_length_le m n
  rw [hb] at hat hlen ⊢
  have hread := readHead_reads (e := e) hat hmaj (by omega) (by omega)
  rwa [harg, Nat.mod_eq_of_lt hn] at hread

/-- The head of a map is read as the encoder writes it. -/
theorem readMapLen_encHead {n : Nat} (hn : n < 2 ^ 16) (hat : At d p (Enc.encodeMap n)) (hp : p + 3 < wordSize) :
    Reads (Dec.readMapLen d) p n (p + (Enc.encodeMap n).length) := by
  obtain ⟨hd, hb, hmaj, harg, h26⟩ := encHead_head (m := 5) (n := n) (by omega)
  have hlen := encHead_length_le 5 n
  rw [Enc.encodeMap, hb] at hat ⊢
  rw [hb] at hlen
  have hread := readMapLen_reads hat hmaj h26 (by omega)
  rwa [harg, Nat.mod_eq_of_lt hn] at hread

/-- Of a byte string that was written, as many bytes are read as the low 16 bits of its length say. -/
theorem readBytes_encBytes {s : Bytes} (hat : At d p (Enc.bytes s)) (hp : p + 2 ^ 17 < wordSize) :
    Reads (Dec.readBytes d) p (s.take (s.length % 2 ^ 16)) (p + ((Enc.head 2 s.length).length + s.length % 2 ^ 16)) := by
  obtain ⟨hd, hb, hmaj, harg, h26⟩ := encHead_head (m := 2) (n := s.length) (by omega)
  have hlen := encHead_length_le 2 s.length
  have hcut : (s.take (s.length % 2 ^ 16)).length = s.length % 2 ^ 16 := by
    rw [List.length_take]
    omega
  have hpre : At d p (hd.bytes ++ s.take (s.length % 2 ^ 16)) := by
    rw [Enc.bytes, hb] at hat
    obtain ⟨hhead, hcontent⟩ := at_append_iff.1 hat
    refine at_append_iff.2 ⟨hhead, ?_⟩
    rw [← List.take_append_drop (s.length % 2 ^ 16) s] at hcontent
    exact (at_append_iff.1 hcontent).1
  rw [hb] at hlen ⊢
  have hread := readBytes_reads hpre hmaj (by omega) (by rw [hcut, harg]) (by rw [List.length_append, hcut]; omega)
  rwa [List.length_append, hcut] at hread

/-- A short byte string that was written is read. -/
theorem readBytes_encBytes_short {s : Bytes} (hs : s.length < 2 ^ 16) (hat : At d p (Enc.bytes s)) (hp : p + 2 ^ 17 < wordSize) :
    Reads (Dec.readBytes d) p s (p + (Enc.bytes s).length) := by
  have hread := readBytes_encBytes hat hp
  rwa [Nat.mod_eq_of_lt hs, List.take_length, ← List.length_append] at hread

/-- Encryption needs a key and a nonce of the right sizes, and the cipher. -/
theorem aes256GcmEncrypt_ok_iff {Γ : Ctx} {key nonce plaintext aad ct : Bytes} :
    aes256GcmEncrypt Γ key nonce plaintext aad = .ok ct ↔
      key.length = 32 ∧ nonce.length = 12 ∧ Γ.aesGcmEncrypt key nonce aad plaintext = some ct := by
  simp only [aes256GcmEncrypt, Outcome.bind_ok_iff, Outcome.ensure_ok_iff]
  cases Γ.aesGcmEncrypt key nonce aad plaintext with
  | none => simp
  | some a => simp [Outcome.pure_ok_iff, eq_comm]

/-- Decryption needs the tag, too. -/
theorem aes256GcmDecrypt_ok_iff {Γ : Ctx} {key nonce plaintext aad ct : Bytes} :
    aes256GcmDecrypt Γ key nonce ct aad = .ok plaintext ↔
      key.length = 32 ∧ nonce.length = 12 ∧ 16 ≤ ct.length ∧ Γ.aesGcmDecrypt key nonce aad ct = some plaintext := by
  simp only [aes256GcmDecrypt, Outcome.bind_ok_iff, Outcome.ensure_ok_iff]
  cases Γ.aesGcmDecrypt key nonce aad ct with
  | none => simp
  | some a => simp [Outcome.pure_ok_iff, eq_comm]

/-- What `cose_encrypt0_a256gcm` puts together. -/
def encrypt0Message (nonce ciphertext : Bytes) : Bytes :=
  [0xd0] ++ Enc.array 3 ++ Enc.bytes buildA256gcmProtectedHeaders ++ Enc.encodeMap 1 ++ Enc.uint 5 ++ Enc.bytes nonce ++
    Enc.bytes ciphertext

/-- A message is the ciphertext in its envelope. -/
theorem coseEncrypt0A256gcm_ok_iff {Γ : Ctx} {key nonce plaintext m : Bytes} :
    coseEncrypt0A256gcm Γ key nonce plaintext = .ok m ↔
      ∃ ct, aes256GcmEncrypt Γ key nonce plaintext (buildCoseEncStructure buildA256gcmProtectedHeaders []) = .ok ct ∧
        m = encrypt0Message nonce ct := by
  simp only [coseEncrypt0A256gcm, Outcome.bind_ok_iff, Outcome.pure_ok_iff, encrypt0Message]

/-- Of the ciphertext, as many bytes are read as the low 16 bits of its length say. -/
theorem parseEncryptedMessage_reads {nonce : Bytes} (ciphertext : Bytes) (fuel : Nat) (hnonce : nonce.length = 12) :
    ∃ q, Reads (parseEncryptedMessage fuel (encrypt0Message nonce ciphertext)) 0
      (nonce, ciphertext.take (ciphertext.length % 2 ^ 16)) q := by
  have hall : At (encrypt0Message nonce ciphertext) 0 (encrypt0Message nonce ciphertext) := at_zero_iff.2 ⟨[], by simp⟩
  obtain ⟨h6, hct⟩ := at_append_iff.1 hall
  obtain ⟨h5, hn⟩ := at_append_iff.1 h6
  obtain ⟨h4, hiv⟩ := at_append_iff.1 h5
  obtain ⟨h3, hmap⟩ := at_append_iff.1 h4
  obtain ⟨h2, hprot⟩ := at_append_iff.1 h3
  obtain ⟨htag, harr⟩ := at_append_iff.1 h2
  have hn12 : (Enc.bytes nonce).length = 13 := by
    rw [Enc.bytes, Enc.head, if_pos (by omega), List.length_append, hnonce]
    rfl
  have hprot4 : (Enc.bytes buildA256gcmProtectedHeaders).length = 4 := by decide
  have hprot3 : buildA256gcmProtectedHeaders.length = 3 := by decide
  have hmap1 : (Enc.encodeMap 1).length = 1 := rfl
  have hiv1 : (Enc.uint 5).length = 1 := rfl
  have harr1 : (Enc.array 3).length = 1 := rfl
  simp only [List.length_append, List.length_singleton, hprot4, hmap1, hiv1, harr1, hn12, Nat.reduceAdd, Nat.zero_add]
    at hct hn hiv hmap hprot harr
  have hloop : Reads (encryptedHeaderLoop fuel (encrypt0Message nonce ciphertext) 1 []) 7 nonce 21 := by
    have hkey : Reads (Dec.readUint (encrypt0Message nonce ciphertext)) 7 5 8 :=
      readHead_encHead (by omega) (by omega) hiv (by decide)
    refine hkey.bind ?_
    have hvalue := readBytes_encBytes_short (by omega) hn (by decide)
    rw [hn12] at hvalue
    simp only [if_true]
    exact hvalue.bind (.pure nonce)
  refine ⟨21 + ((Enc.head 2 ciphertext.length).length + ciphertext.length % 2 ^ 16), ?_⟩
  refine (Reads.peek htag).bind (.ensure (by decide) ((Reads.byte htag (by decide)).bind ?_))
  have htagnum : Reads (if additional 0xd0 < 24 then Pure.pure (additional 0xd0)
      else Dec.readUint (encrypt0Message nonce ciphertext)) (0 + 1) 16 1 := Reads.pure 16
  refine htagnum.bind (.ensure rfl ?_)
  have hlen : Reads (Dec.readArrayLen (encrypt0Message nonce ciphertext)) 1 3 2 :=
    readHead_encHead (by omega) (by omega) harr (by decide)
  refine hlen.bind (.ensure rfl ?_)
  have hprotected : Reads (Dec.readBytes (encrypt0Message nonce ciphertext)) 2 buildA256gcmProtectedHeaders 6 :=
    readBytes_encBytes_short (by omega) hprot (by decide)
  refine hprotected.bind ?_
  have hmapLen : Reads (Dec.readMapLen (encrypt0Message nonce ciphertext)) 6 1 7 :=
    readMapLen_encHead (by omega) hmap (by decide)
  refine hmapLen.bind (hloop.bind ((readBytes_encBytes hct (by decide)).bind (.ensure ?_ (.pure _))))
  rintro rfl
  simp at hnonce

end FdoUefi
