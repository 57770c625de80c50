import FdoUefi.Lib.Der
import FdoUefi.Csr
import FdoUefi.Delegate

/-!
# The parts of a certificate signing request

What each part of a request is as a DER element, what the writers of `di/protocol.rs` make of it and what the readers of
`delegate.rs` read there.
-/

namespace FdoUefi

open Prog Prog.Run

/-! ## The elements -/

/-- The content of an INTEGER: no zeros in front, but one where the first bit is set, and one for zero itself. -/
def integerContent (bytes : Bytes) : Bytes :=
  match bytes.dropWhile (· == 0) with
  | [] => [0]
  | b :: rest => if b &&& 0x80 ≠ 0 then 0x00 :: b :: rest else b :: rest

/-- `CN=cn` -/
def nameDer (cn : Bytes) : Der := .node 0x30 [.node 0x31 [.node 0x30 [.prim 0x06 [0x55, 0x04, 0x03], .prim 0x0c cn]]]

/-- A SubjectPublicKeyInfo with a point of P-256. -/
def spkiDer (x y : Bytes) : Der :=
  .node 0x30 [.node 0x30 [.prim 0x06 oidEcPublicKey, .prim 0x06 oidPrime256v1], .prim 0x03 (0x00 :: 0x04 :: (x ++ y))]

/-- The CertificationRequestInfo: version, subject, key and no attributes. -/
def requestInfoDer (cn x y : Bytes) : Der := .node 0x30 [.prim 0x02 [0x00], nameDer cn, spkiDer x y, .node 0xa0 []]

/-- A signature `r || s`. -/
def ecdsaSignatureDer (sig : Bytes) : Der :=
  .node 0x30 [.prim 0x02 (integerContent (sig.take 32)), .prim 0x02 (integerContent (sig.drop 32))]

/-- The whole request. -/
def csrDer (cn x y sig : Bytes) : Der :=
  .node 0x30 [requestInfoDer cn x y, .node 0x30 [.prim 0x06 oidEcdsaWithSha256],
    .prim 0x03 (0x00 :: (ecdsaSignatureDer sig).encode)]

namespace Aux

/-! ## INTEGER -/

/-- A leading zero is dropped. -/
theorem dropWhile_zero (bytes : Bytes) : (0 :: bytes).dropWhile (· == 0) = bytes.dropWhile (· == 0) := rfl

/-- The zeros in front of some bytes, and the rest. -/
theorem eq_replicate_append_dropWhile (bytes : Bytes) :
    bytes = List.replicate (bytes.length - (bytes.dropWhile (· == 0)).length) 0 ++ bytes.dropWhile (· == 0) := by
  induction bytes with
  | nil => rfl
  | cons b bytes ih =>
    have hle : (bytes.dropWhile (· == 0)).length ≤ bytes.length := (List.dropWhile_sublist _).length_le
    by_cases hb : b = 0
    · subst hb
      rw [dropWhile_zero, List.length_cons, Nat.succ_sub hle, List.replicate_succ, List.cons_append, ← ih]
    · rw [List.dropWhile_cons_of_neg (by simpa using hb), Nat.sub_self]
      rfl

/-- What `encode_integer` does not skip. -/
theorem drop_encodeIntegerStart {bytes : Bytes} (h : bytes ≠ []) :
    bytes.drop (encodeIntegerStart bytes) =
      match bytes.dropWhile (· == 0) with
      | [] => [0]
      | t => t := by
  fun_induction encodeIntegerStart bytes with
  | case1 b rest ih =>
    rw [List.drop_succ_cons, ih (by simp), dropWhile_zero]
  | case2 bytes hno =>
    cases bytes with
    | nil => exact absurd rfl h
    | cons b rest =>
      rw [List.drop_zero]
      by_cases hb : b = 0
      · subst hb
        cases rest with
        | nil => rfl
        | cons c rest => exact absurd rfl (hno c rest)
      · rw [List.dropWhile_cons_of_neg (by simpa using hb)]

/-- An integer is its content behind a short header. -/
theorem encodeInteger_eq {bytes : Bytes} (h : bytes ≠ []) : encodeInteger bytes = .ok (derShort 0x02 (integerContent bytes)) := by
  rw [encodeInteger, drop_encodeIntegerStart h, integerContent]
  cases bytes.dropWhile (· == 0) <;> rfl

/-- The content has at most one byte more than the number. -/
theorem integerContent_length_le {bytes : Bytes} (h : bytes ≠ []) : (integerContent bytes).length ≤ bytes.length + 1 := by
  have hle : (bytes.dropWhile (· == 0)).length ≤ bytes.length := (List.dropWhile_sublist _).length_le
  have hpos := List.length_pos_iff.2 h
  unfold integerContent
  split
  · simp
  · rename_i b rest heq
    rw [heq] at hle
    split
    · simpa using hle
    · exact Nat.le_succ_of_le hle

/-- What the decoder strips off an INTEGER, the encoder has put there or left out. -/
theorem copyIntegerToFixed_integerContent {bytes : Bytes} {width : Nat} (hlen : bytes.length = width) (h : bytes ≠ []) :
    copyIntegerToFixed (integerContent bytes) width = bytes := by
  have hsplit := eq_replicate_append_dropWhile bytes
  have hle : (bytes.dropWhile (· == 0)).length ≤ bytes.length := (List.dropWhile_sublist _).length_le
  have hpos := List.length_pos_iff.2 h
  rw [hlen] at hsplit hle hpos
  unfold integerContent
  cases hdrop : bytes.dropWhile (· == 0) with
  | nil =>
    rw [hdrop, List.append_nil, List.length_nil, Nat.sub_zero] at hsplit
    show (if width < 1 then _ else List.replicate (width - 1) 0 ++ [0]) = bytes
    rw [if_neg (by omega), hsplit]
    obtain ⟨n, rfl⟩ : ∃ n, width = n + 1 := ⟨width - 1, by omega⟩
    rw [Nat.add_sub_cancel, ← List.replicate_succ']
  | cons b rest =>
    have hb : ¬(b == 0) = true := by
      have := List.head_dropWhile_not (· == 0) (l := bytes) (by rw [hdrop]; simp)
      simpa [hdrop] using this
    rw [hdrop] at hsplit hle
    have hrest : (b :: rest).dropWhile (· == 0) = b :: rest := List.dropWhile_cons_of_neg hb
    have hstrip : (if b &&& 0x80 ≠ 0 then 0x00 :: b :: rest else b :: rest).dropWhile (· == 0) = b :: rest := by
      split
      · rw [dropWhile_zero, hrest]
      · exact hrest
    rw [copyIntegerToFixed, hstrip]
    show (if width < (b :: rest).length then _ else List.replicate (width - (b :: rest).length) 0 ++ b :: rest) = bytes
    rw [if_neg (by omega)]
    exact hsplit.symm

/-! ## Lengths of one byte -/

/-- A length of one byte is right below 128. -/
theorem derShort_eq (tag : UInt8) {content : Bytes} (h : content.length < 128) :
    derShort tag content = derHeader tag content.length ++ content := by
  rw [derHeader, derLength_of_lt_128 h]
  rfl

/-- A short header has two bytes. -/
theorem derShort_length (tag : UInt8) (content : Bytes) : (derShort tag content).length = content.length + 2 := rfl

/-! ## The readers -/

variable {d : Bytes} {p n : Nat} {tag : UInt8}

/-- A check that holds passes. -/
theorem ensure_of {c : Prop} [Decidable c] (h : c) (p : Nat) : (ensure c () : Run Nat Unit Unit) p = (.ok (), p) :=
  ensure_ok_iff.2 ⟨h, rfl⟩

/-- A tag that stands there is found. -/
theorem expectTag_of_at (h : At d p [tag]) : expectTag d tag p = (.ok (), p + 1) := by
  rw [expectTag, bind_of_ok (peek_apply d p), getElem?_eq_some_iff_at.2 h]
  show (if tag = tag then advance 1 else fail () : Run Nat Unit Unit) p = _
  rw [if_pos rfl]
  rfl

/-- A short length that stands there is read. -/
theorem readDerLength_of_at (hn : n < 128) (h : At d p [UInt8.ofNat n]) : readDerLength d p = (.ok n, p + 1) := by
  have htoNat : (UInt8.ofNat n).toNat = n := by
    rw [UInt8.toNat_ofNat']
    omega
  have hlow : UInt8.ofNat n < 0x80 := by
    rw [UInt8.lt_iff_toNat_lt, htoNat]
    exact hn
  rw [readDerLength, bind_of_ok (next_ok_iff.2 ⟨h, rfl⟩), if_pos hlow, htoNat]
  rfl

/-- The tag and the length of an element that stands at the cursor. -/
theorem header_of_at (hn : n < 128) (h : At d p (derHeader tag n)) : At d p [tag] ∧ At d (p + 1) [UInt8.ofNat n] := by
  rw [derHeader, derLength_of_lt_128 hn] at h
  have happ : At d p ([tag] ++ [UInt8.ofNat n]) := h
  exact at_append_iff.1 happ

/-- An element with a short length that stands there is read. -/
theorem readTlv_of_at {content : Bytes} (hn : content.length < 128) (h : At d p (derHeader tag content.length ++ content)) :
    readTlv d tag p = (.ok content, p + (content.length + 2)) := by
  obtain ⟨hheader, hcontent⟩ := at_append_iff.1 h
  obtain ⟨htag, hlen⟩ := header_of_at hn hheader
  rw [derHeader_length_of_lt_128 tag hn] at hcontent
  rw [readTlv, bind_of_ok (expectTag_of_at htag), bind_of_ok (readDerLength_of_at hn hlen)]
  exact take_ok_iff.2 ⟨hcontent, rfl, by omega⟩

/-- The header of a short sequence that stands there is read. -/
theorem readSequenceHeader_of_at (hn : n < 128) (h : At d p (derHeader 0x30 n)) (hend : p + 2 + n ≤ d.length) :
    readSequenceHeader d p = (.ok (p + 2, p + 2 + n), p + 2) := by
  obtain ⟨htag, hlen⟩ := header_of_at hn h
  rw [readSequenceHeader, bind_of_ok (expectTag_of_at htag), bind_of_ok (readDerLength_of_at hn hlen),
    bind_of_ok (getS_apply _), bind_of_ok (ensure_of hend _)]
  rfl

/-- A BIT STRING without unused bits. -/
theorem readBitString_of_at (bits : Bytes) (hn : bits.length + 1 < 128)
    (h : At d p (derHeader 0x03 (bits.length + 1) ++ 0x00 :: bits)) :
    readBitString d p = (.ok bits, p + (bits.length + 3)) := by
  obtain ⟨hheader, hcontent⟩ := at_append_iff.1 h
  obtain ⟨htag, hlen⟩ := header_of_at hn hheader
  rw [derHeader_length_of_lt_128 _ hn] at hcontent
  have happ : At d (p + 2) ([0x00] ++ bits) := hcontent
  obtain ⟨hunused, hbits⟩ := at_append_iff.1 happ
  rw [readBitString, bind_of_ok (expectTag_of_at htag), bind_of_ok (readDerLength_of_at hn hlen),
    bind_of_ok (ensure_of (by omega) _), bind_of_ok (next_ok_iff.2 ⟨hunused, rfl⟩)]
  exact take_ok_iff.2 ⟨hbits, by omega, by omega⟩

end Aux

end FdoUefi
