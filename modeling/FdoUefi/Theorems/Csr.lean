import FdoUefi.Lemmas.Csr

/-!
# The certificate signing request and its signature

The signature encoder of `di/protocol.rs` and the decoder of `delegate.rs` are inverse. The request is well-formed DER exactly
when the subject has at most 116 bytes: a longer one does not leave room for the length of the Name in one byte.
-/

namespace FdoUefi

open Prog Prog.Run

namespace Aux

/-! ## The signature -/

/-- The halves of a signature have 32 bytes each. -/
theorem sig_halves {sig : Bytes} (h : sig.length = 64) :
    (sig.take 32).length = 32 ∧ (sig.drop 32).length = 32 ∧ sig.take 32 ≠ [] ∧ sig.drop 32 ≠ [] := by
  have htake : (sig.take 32).length = 32 := by simp [h]
  have hdrop : (sig.drop 32).length = 32 := by simp [h]
  refine ⟨htake, hdrop, ?_, ?_⟩
  · intro hnil
    simp [hnil] at htake
  · intro hnil
    simp [hnil] at hdrop

/-- Both numbers of a signature fit in 33 bytes. -/
theorem integerContent_halves {sig : Bytes} (h : sig.length = 64) :
    (integerContent (sig.take 32)).length ≤ 33 ∧ (integerContent (sig.drop 32)).length ≤ 33 := by
  obtain ⟨htake, hdrop, hr, hs⟩ := sig_halves h
  have hrlen := integerContent_length_le hr
  have hslen := integerContent_length_le hs
  exact ⟨by omega, by omega⟩

/-- A signature is written as its DER encoding. -/
theorem encodeEcdsaSignature_eq {sig : Bytes} (h : sig.length = 64) :
    encodeEcdsaSignature sig = .ok (ecdsaSignatureDer sig).encode := by
  obtain ⟨-, -, hr, hs⟩ := sig_halves h
  obtain ⟨hrlen, hslen⟩ := integerContent_halves h
  have hhalf : sig.length / 2 = 32 := by omega
  have hcode : encodeEcdsaSignature sig =
      .ok (derShort 0x30 (derShort 0x02 (integerContent (sig.take 32)) ++ derShort 0x02 (integerContent (sig.drop 32)))) := by
    rw [encodeEcdsaSignature, hhalf, encodeInteger_eq hr, encodeInteger_eq hs]
    rfl
  rw [hcode, derShort_eq 0x02 (by omega), derShort_eq 0x02 (by omega), derShort_eq 0x30]
  · simp [ecdsaSignatureDer]
  · simp only [List.length_append, derHeader_length_of_lt_128 0x02 (show (integerContent (sig.take 32)).length < 128 by omega),
      derHeader_length_of_lt_128 0x02 (show (integerContent (sig.drop 32)).length < 128 by omega)]
    omega

/-- A signature has at most 72 bytes. -/
theorem ecdsaSignatureDer_length {sig : Bytes} (h : sig.length = 64) : (ecdsaSignatureDer sig).encode.length ≤ 72 := by
  obtain ⟨hr, hs⟩ := integerContent_halves h
  have hr' := derHeader_length_of_lt_128 0x02 (show (integerContent (sig.take 32)).length < 128 by omega)
  have hs' := derHeader_length_of_lt_128 0x02 (show (integerContent (sig.drop 32)).length < 128 by omega)
  simp only [ecdsaSignatureDer, Der.encode_node, Der.encode_prim, Der.encodeAll_cons, Der.encodeAll_nil, List.append_nil,
    List.length_append, hr', hs']
  rw [derHeader_length_of_lt_128 0x30 (by omega)]
  omega

/-- The decoder reads two short INTEGERs in a SEQUENCE. -/
theorem ecdsaDerToRs_of_at {d r s : Bytes} (hr : r.length ≤ 33) (hs : s.length ≤ 33)
    (h : At d 0 (Der.node 0x30 [.prim 0x02 r, .prim 0x02 s]).encode) :
    ecdsaDerToRs d = .ok (copyIntegerToFixed r 32 ++ copyIntegerToFixed s 32) := by
  have hrlen := derHeader_length_of_lt_128 0x02 (show r.length < 128 by omega)
  have hslen := derHeader_length_of_lt_128 0x02 (show s.length < 128 by omega)
  simp only [Der.encode_node, Der.encode_prim, Der.encodeAll_cons, Der.encodeAll_nil, List.append_nil] at h
  obtain ⟨hheader, hcontent⟩ := at_append_iff.1 h
  simp only [List.length_append, hrlen, hslen] at hheader hcontent
  rw [derHeader_length_of_lt_128 0x30 (by omega)] at hcontent
  obtain ⟨htag, hlen⟩ := header_of_at (by omega) hheader
  obtain ⟨hrAt, hsAt⟩ := at_append_iff.1 hcontent
  rw [List.length_append, hrlen, Nat.add_comm 2 r.length] at hsAt
  have hrRead : readDerInteger d (0 + 2) = (.ok r, 0 + 2 + (r.length + 2)) := readTlv_of_at (by omega) hrAt
  have hsRead : readDerInteger d (0 + 2 + (r.length + 2)) = (.ok s, 0 + 2 + (r.length + 2) + (s.length + 2)) :=
    readTlv_of_at (by omega) hsAt
  rw [ecdsaDerToRs, Run.eval, bind_of_ok (expectTag_of_at htag), bind_of_ok (readDerLength_of_at (by omega) hlen),
    bind_of_ok hrRead, bind_of_ok hsRead]
  rfl

end Aux

/-- What the encoder makes of a signature, the decoder turns back into it. -/
theorem ecdsaDerToRs_encodeEcdsaSignature (sig : Bytes) (h : sig.length = 64) :
    (encodeEcdsaSignature sig >>= ecdsaDerToRs) = .ok sig := by
  obtain ⟨htake, hdrop, hr, hs⟩ := Aux.sig_halves h
  obtain ⟨hrlen, hslen⟩ := Aux.integerContent_halves h
  have hread := Aux.ecdsaDerToRs_of_at hrlen hslen (at_zero_iff.2 ⟨[], by rw [List.append_nil]⟩)
  rw [Aux.copyIntegerToFixed_integerContent htake hr, Aux.copyIntegerToFixed_integerContent hdrop hs,
    List.take_append_drop] at hread
  exact Outcome.bind_ok_iff.2 ⟨_, Aux.encodeEcdsaSignature_eq h, hread⟩

/-- An `r` of zeros and an `s` with its first bit set. -/
def extremeSig : Bytes := List.replicate 32 0x00 ++ 0x80 :: List.replicate 31 0x00

/-- A signature whose halves begin with a zero byte and with a high bit comes back. -/
theorem ecdsaDerToRs_extremeSig : (encodeEcdsaSignature extremeSig >>= ecdsaDerToRs) = .ok extremeSig :=
  ecdsaDerToRs_encodeEcdsaSignature extremeSig (by decide)

/-! ## The request -/

/-- The request is the DER form of the elements it is made of, and the key in it is the one it was made for. -/
structure CsrWellFormed (cn x y sig : Bytes) : Prop where
  tiled : assembleCsrDer (buildCsrTbs cn x y) sig = .ok (csrDer cn x y sig).encode
  key : parseSpkiP256Point (spkiDer x y).encode = .ok (0x04 :: (x ++ y))

namespace Aux

variable {cn x y sig : Bytes}

/-- A public key is written as its DER encoding. -/
theorem buildEcSpki_eq (hx : x.length = 32) (hy : y.length = 32) : buildEcSpki x y = (spkiDer x y).encode := by
  have hpoint : (0x00 :: 0x04 :: (x ++ y)).length = 66 := by simp [hx, hy]
  have hbits : derShort 0x03 ([0x00, 0x04] ++ x ++ y) = derHeader 0x03 66 ++ 0x00 :: 0x04 :: (x ++ y) := by
    rw [derShort_eq 0x03 (by simp [hx, hy])]
    simp [hx, hy]
  have halg : (Der.node 0x30 [.prim 0x06 oidEcPublicKey, .prim 0x06 oidPrime256v1]).encode = ecAlgId := by
    simp [derHeader, derLength, ecAlgId, oidEcPublicKey, oidPrime256v1]
  rw [buildEcSpki, hbits, spkiDer, Der.encode_node]
  simp only [Der.encodeAll_cons, Der.encodeAll_nil, halg, Der.encode_prim, hpoint, List.append_nil]
  refine derShort_eq 0x30 ?_
  simp [ecAlgId, derHeader_length_of_lt_128, hx, hy]

/-- The bytes of a SubjectPublicKeyInfo, element by element. -/
theorem spkiDer_encode (hx : x.length = 32) (hy : y.length = 32) :
    (spkiDer x y).encode = derHeader 0x30 89 ++ (derHeader 0x30 19 ++ (derHeader 0x06 7 ++ oidEcPublicKey ++
      (derHeader 0x06 8 ++ oidPrime256v1)) ++ (derHeader 0x03 66 ++ 0x00 :: 0x04 :: (x ++ y))) := by
  simp [spkiDer, derHeader_length_of_lt_128, hx, hy, oidEcPublicKey, oidPrime256v1]

/-- The point is read back. -/
theorem parseSpkiP256Point_of_at {d : Bytes} (hx : x.length = 32) (hy : y.length = 32) (h : At d 0 (spkiDer x y).encode) :
    parseSpkiP256Point d = .ok (0x04 :: (x ++ y)) := by
  rw [spkiDer_encode hx hy] at h
  have hend := h.end_le
  obtain ⟨hspki, hcontent⟩ := at_append_iff.1 h
  obtain ⟨halgorithm, hbits⟩ := at_append_iff.1 hcontent
  obtain ⟨halg, hoids⟩ := at_append_iff.1 halgorithm
  obtain ⟨hoid, hcurve⟩ := at_append_iff.1 hoids
  have hlength : (0x04 :: (x ++ y)).length = 65 := by simp [hx, hy]
  simp [derHeader_length_of_lt_128, hx, hy, oidEcPublicKey, oidPrime256v1] at hend
  simp only [List.length_append, derHeader_length_of_lt_128 _ (show 89 < 128 by omega),
    derHeader_length_of_lt_128 _ (show 19 < 128 by omega), derHeader_length_of_lt_128 _ (show 7 < 128 by omega),
    derHeader_length_of_lt_128 _ (show 8 < 128 by omega), show oidEcPublicKey.length = 7 from rfl,
    show oidPrime256v1.length = 8 from rfl] at halg hoid hcurve hbits
  have hspkiRead : readSequenceHeader d 0 = (.ok (2, 91), 2) := readSequenceHeader_of_at (by omega) hspki (by omega)
  have halgRead : readSequenceHeader d 2 = (.ok (4, 23), 4) := readSequenceHeader_of_at (by omega) halg (by omega)
  have hoidRead : readOid d 4 = (.ok oidEcPublicKey, 13) := readTlv_of_at (by decide) hoid
  have hcurveRead : readOid d 13 = (.ok oidPrime256v1, 23) := readTlv_of_at (by decide) hcurve
  have hbitsRead : readBitString d 23 = (.ok (0x04 :: (x ++ y)), 91) := by
    have hread : readBitString d 23 = _ := readBitString_of_at (0x04 :: (x ++ y)) (by omega) (by rw [hlength]; exact hbits)
    rwa [hlength] at hread
  rw [parseSpkiP256Point, Run.eval, parseSpkiP256PointRun, bind_of_ok hspkiRead, bind_of_ok halgRead, bind_of_ok hoidRead,
    bind_of_ok (ensure_of rfl _), bind_of_ok hcurveRead, bind_of_ok (ensure_of rfl _), bind_of_ok (getS_apply _),
    bind_of_ok (ensure_of (by omega) _), bind_of_ok (setS_apply _ _), bind_of_ok hbitsRead, bind_of_ok (getS_apply _),
    bind_of_ok (ensure_of (by omega) _), bind_of_ok (ensure_of ⟨hlength, rfl⟩ _)]
  rfl

/-- The encoding of a public key has 91 bytes. -/
theorem spkiDer_length (hx : x.length = 32) (hy : y.length = 32) : (spkiDer x y).encode.length = 91 := by
  rw [← buildEcSpki_eq hx hy, buildEcSpki, derShort_length, List.length_append, derShort_length]
  simp [ecAlgId, hx, hy]

/-! A subject of at most 116 bytes -/

/-- A name of up to 116 bytes is written as its DER encoding. -/
theorem buildX509NameCn_eq (h : cn.length ≤ 116) : buildX509NameCn cn = (nameDer cn).encode := by
  have hvalue : cn.length < 128 := by omega
  have hatv : ([0x06, 0x03, 0x55, 0x04, 0x03] ++ derShort 0x0c cn).length = cn.length + 7 := by
    simp only [List.length_append, derShort_length, List.length_cons, List.length_nil]
    omega
  have htype : (Der.prim 0x06 [0x55, 0x04, 0x03]).encode = [0x06, 0x03, 0x55, 0x04, 0x03] := by
    simp [derHeader, derLength]
  have hcn : derShort 0x0c cn = (Der.prim 0x0c cn).encode := by rw [derShort_eq _ hvalue, Der.encode_prim]
  rw [buildX509NameCn]
  rw [derShort_eq 0x30 (by simp only [derShort_length, hatv]; omega), derShort_eq 0x31 (by rw [derShort_length, hatv]; omega),
    derShort_eq 0x30 (by rw [hatv]; omega), hcn]
  simp only [nameDer, Der.encode_node, Der.encodeAll_cons, Der.encodeAll_nil, List.append_nil, htype]

/-- A name takes 13 bytes more than it has. -/
theorem buildX509NameCn_length (cn : Bytes) : (buildX509NameCn cn).length = cn.length + 13 := by
  simp only [buildX509NameCn, derShort_length, List.length_append, List.length_cons, List.length_nil]
  omega

/-- The bytes between the header and the end of the CertificationRequestInfo. -/
def csrTbsContent (cn x y : Bytes) : Bytes := [0x02, 0x01, 0x00] ++ buildX509NameCn cn ++ buildEcSpki x y ++ [0xa0, 0x00]

/-- The content of a request takes 109 bytes more than the name. -/
theorem csrTbsContent_length (cn : Bytes) (hx : x.length = 32) (hy : y.length = 32) :
    (csrTbsContent cn x y).length = cn.length + 109 := by
  simp only [csrTbsContent, List.length_append, buildX509NameCn_length, buildEcSpki_eq hx hy, spkiDer_length hx hy,
    List.length_cons, List.length_nil]
  omega

/-- A request for a name of up to 116 bytes is written as its DER encoding. -/
theorem buildCsrTbs_eq (hx : x.length = 32) (hy : y.length = 32) (h : cn.length ≤ 116) :
    buildCsrTbs cn x y = (requestInfoDer cn x y).encode := by
  have hlen := csrTbsContent_length cn hx hy
  have hcontent : csrTbsContent cn x y =
      Der.encodeAll [.prim 0x02 [0x00], nameDer cn, spkiDer x y, .node 0xa0 []] := by
    simp [csrTbsContent, buildX509NameCn_eq h, buildEcSpki_eq hx hy, derHeader, derLength]
  have hheader : buildCsrTbs cn x y = derHeader 0x30 (csrTbsContent cn x y).length ++ csrTbsContent cn x y := by
    show (if (csrTbsContent cn x y).length < 128 then _ else _) = _
    by_cases hshort : (csrTbsContent cn x y).length < 128
    · rw [if_pos hshort, derHeader, derLength_of_lt_128 hshort]
      rfl
    · rw [if_neg hshort, derHeader, derLength_of_lt_256 (by omega) (by omega)]
      rfl
  rw [hheader, requestInfoDer, Der.encode_node, hcontent]

/-- The bytes between the header and the end of the request. -/
def csrContent (tbs sig : Bytes) : Bytes :=
  tbs ++ ecdsaSigAlg ++ [0x03, lenByte ((ecdsaSignatureDer sig).encode.length + 1), 0x00] ++ (ecdsaSignatureDer sig).encode

/-- The header that `assemble_csr_der` writes for a content of `n` bytes. -/
def csrHeader (n : Nat) : Bytes :=
  if n < 128 then [0x30, lenByte n]
  else if n < 256 then [0x30, 0x81, lenByte n]
  else [0x30, 0x82, lenByte (n >>> 8), lenByte n]

/-- A request and its signature stand behind one header. -/
theorem assembleCsrDer_eq {tbs : Bytes} (hs : sig.length = 64) :
    assembleCsrDer tbs sig = .ok (csrHeader (csrContent tbs sig).length ++ csrContent tbs sig) := by
  rw [assembleCsrDer, encodeEcdsaSignature_eq hs, csrHeader]
  show (if (csrContent tbs sig).length < 128 then _ else if (csrContent tbs sig).length < 256 then _ else _) = _
  by_cases h128 : (csrContent tbs sig).length < 128
  · rw [if_pos h128, if_pos h128]
    rfl
  · by_cases h256 : (csrContent tbs sig).length < 256
    · rw [if_neg h128, if_pos h256, if_neg h128, if_pos h256]
      rfl
    · rw [if_neg h128, if_neg h256, if_neg h128, if_neg h256]
      rfl

/-- The header of a request is that of DER for a length below 65536. -/
theorem csrHeader_eq {n : Nat} (h : n < 65536) : csrHeader n = derHeader 0x30 n := by
  unfold csrHeader derHeader
  split
  · rw [derLength_of_lt_128 (by omega), lenByte]
  · split
    · rw [derLength_of_lt_256 (by omega) (by omega), lenByte]
    · rw [derLength_of_lt_65536 (by omega) h, lenByte, lenByte]

/-- The elements behind the CertificationRequestInfo. -/
theorem csrContent_eq (hs : sig.length = 64) {info : Der} :
    csrContent info.encode sig = Der.encodeAll [info, .node 0x30 [.prim 0x06 oidEcdsaWithSha256],
      .prim 0x03 (0x00 :: (ecdsaSignatureDer sig).encode)] := by
  have hlen := ecdsaSignatureDer_length hs
  have halg : (Der.node 0x30 [.prim 0x06 oidEcdsaWithSha256]).encode = ecdsaSigAlg := by
    simp [derHeader, derLength, ecdsaSigAlg, oidEcdsaWithSha256]
  have hbits : derHeader 0x03 ((ecdsaSignatureDer sig).encode.length + 1) =
      [0x03, lenByte ((ecdsaSignatureDer sig).encode.length + 1)] := by
    rw [derHeader, derLength_of_lt_128 (by omega), lenByte]
  simp only [csrContent, Der.encodeAll_cons, Der.encodeAll_nil, halg, Der.encode_prim, List.length_cons, hbits]
  simp

/-- The length of a signed request behind its header. -/
theorem csrContent_length (tbs sig : Bytes) :
    (csrContent tbs sig).length = tbs.length + (ecdsaSignatureDer sig).encode.length + 15 := by
  simp only [csrContent, List.length_append, List.length_cons, List.length_nil, show ecdsaSigAlg.length = 12 from rfl]
  omega

/-- A signed request for a name of up to 116 bytes is its DER encoding. -/
theorem assembleCsrDer_of_short (hx : x.length = 32) (hy : y.length = 32) (hs : sig.length = 64) (h : cn.length ≤ 116) :
    assembleCsrDer (buildCsrTbs cn x y) sig = .ok (csrDer cn x y sig).encode := by
  have htbs : (buildCsrTbs cn x y).length ≤ 228 := by
    have hlen := csrTbsContent_length cn hx hy
    show (if (csrTbsContent cn x y).length < 128 then 0x30 :: lenByte (csrTbsContent cn x y).length :: csrTbsContent cn x y
      else 0x30 :: 0x81 :: lenByte (csrTbsContent cn x y).length :: csrTbsContent cn x y).length ≤ 228
    split <;> simp only [List.length_cons] <;> omega
  have hsig := ecdsaSignatureDer_length hs
  have htotal := csrContent_length (buildCsrTbs cn x y) sig
  rw [assembleCsrDer_eq hs, csrDer, Der.encode_node, ← csrContent_eq hs, ← buildCsrTbs_eq hx hy h]
  rw [csrHeader_eq (by omega)]

/-! A longer subject -/

/-- The length of the Name itself takes two bytes or more. -/
theorem nameDer_length_of_long (h : 117 ≤ cn.length) : cn.length + 14 ≤ (nameDer cn).encode.length := by
  have htype : (Der.prim 0x06 [0x55, 0x04, 0x03]).encode.length = 5 := by simp [derHeader, derLength]
  have hvalue := two_le_derHeader_length 0x0c cn.length
  simp only [nameDer, Der.encode_node, Der.encodeAll_cons, Der.encodeAll_nil, List.append_nil, List.length_append, htype]
  rw [Der.encode_prim, List.length_append]
  generalize hatv : 5 + ((derHeader 0x0c cn.length).length + cn.length) = atv
  have hatv' := two_le_derHeader_length 0x30 atv
  generalize hrdn : (derHeader 0x30 atv).length + atv = rdn
  have hrdn' := two_le_derHeader_length 0x31 rdn
  generalize hname : (derHeader 0x31 rdn).length + rdn = name
  have hname' := three_le_derHeader_length 0x30 (n := name) (by omega)
  omega

/-- For a longer name the encoding is longer. -/
theorem requestInfoDer_length_of_long (hx : x.length = 32) (hy : y.length = 32) (h : 117 ≤ cn.length) :
    cn.length + 113 ≤ (requestInfoDer cn x y).encode.length := by
  have hname := nameDer_length_of_long h
  have hversion : (Der.prim 0x02 [0x00]).encode.length = 3 := by simp [derHeader, derLength]
  have hattributes : (Der.node 0xa0 []).encode.length = 2 := by simp [derHeader, derLength]
  simp only [requestInfoDer, Der.encode_node 0x30, Der.encodeAll_cons, Der.encodeAll_nil, List.append_nil, List.length_append,
    hversion, hattributes, spkiDer_length hx hy]
  generalize hcontent : 3 + ((nameDer cn).encode.length + (91 + 2)) = content
  have hheader := three_le_derHeader_length 0x30 (n := content) (by omega)
  omega

/-- For a longer name the request that is built is shorter than the encoding. -/
theorem buildCsrTbs_length_of_long (hx : x.length = 32) (hy : y.length = 32) (h : 117 ≤ cn.length) :
    (buildCsrTbs cn x y).length = cn.length + 112 := by
  have hlen := csrTbsContent_length cn hx hy
  show (if (csrTbsContent cn x y).length < 128 then _
    else 0x30 :: 0x81 :: lenByte (csrTbsContent cn x y).length :: csrTbsContent cn x y).length = _
  rw [if_neg (by omega)]
  simp only [List.length_cons]
  omega

/-- A header of the request is not longer than that of DER for a longer content. -/
theorem csrHeader_length_le {n m : Nat} (h : 128 ≤ n) (hnm : n ≤ m) : (csrHeader n).length ≤ (derHeader 0x30 m).length := by
  have hthree := three_le_derHeader_length 0x30 (n := m) (by omega)
  unfold csrHeader
  rw [if_neg (by omega)]
  split
  · exact hthree
  · exact four_le_derHeader_length 0x30 (by omega)

/-- With a longer subject the request is shorter than its DER form. -/
theorem assembleCsrDer_ne_of_long (hx : x.length = 32) (hy : y.length = 32) (hs : sig.length = 64) (h : 117 ≤ cn.length) :
    assembleCsrDer (buildCsrTbs cn x y) sig ≠ .ok (csrDer cn x y sig).encode := by
  rw [assembleCsrDer_eq hs, csrDer, Der.encode_node, ← csrContent_eq hs]
  intro heq
  have hlen := congrArg List.length (Outcome.ok.inj heq)
  have hinfo := requestInfoDer_length_of_long hx hy h
  have htbs := buildCsrTbs_length_of_long hx hy h
  simp only [List.length_append, csrContent_length] at hlen
  have hheader := csrHeader_length_le
    (n := (buildCsrTbs cn x y).length + (ecdsaSignatureDer sig).encode.length + 15)
    (m := (requestInfoDer cn x y).encode.length + (ecdsaSignatureDer sig).encode.length + 15) (by omega) (by omega)
  omega

/-- The public key is read back as its point. -/
theorem parseSpkiP256Point_spkiDer (hx : x.length = 32) (hy : y.length = 32) :
    parseSpkiP256Point (spkiDer x y).encode = .ok (0x04 :: (x ++ y)) :=
  parseSpkiP256Point_of_at hx hy (at_zero_iff.2 ⟨[], by rw [List.append_nil]⟩)

end Aux

/-- The request is well-formed exactly when the subject has at most 116 bytes. -/
theorem csrWellFormed_iff (cn x y sig : Bytes) (hx : x.length = 32) (hy : y.length = 32) (hs : sig.length = 64) :
    CsrWellFormed cn x y sig ↔ cn.length ≤ 116 := by
  constructor
  · intro h
    by_contra hlong
    exact Aux.assembleCsrDer_ne_of_long hx hy hs (by omega) h.tiled
  · intro h
    exact ⟨Aux.assembleCsrDer_of_short hx hy hs h, Aux.parseSpkiP256Point_spkiDer hx hy⟩

/-- A subject of a given length. -/
def longSubject (n : Nat) : Bytes := List.replicate n 0x61

/-- A coordinate. -/
def sampleCoordinate : Bytes := List.replicate 32 0x01

/-- A name of 116 bytes is the longest that works. -/
theorem csrWellFormed_longSubject : CsrWellFormed (longSubject 116) sampleCoordinate sampleCoordinate extremeSig :=
  (csrWellFormed_iff (longSubject 116) sampleCoordinate sampleCoordinate extremeSig (by decide) (by decide)
    (by decide)).2 (by simp [longSubject])

/-- One byte more, and the Name says of itself that its length is indefinite. -/
theorem not_csrWellFormed_longSubject : ¬CsrWellFormed (longSubject 117) sampleCoordinate sampleCoordinate extremeSig :=
  fun h => Aux.assembleCsrDer_ne_of_long (by decide) (by decide) (by decide) (by simp [longSubject]) h.tiled

example : (buildX509NameCn (longSubject 117)).take 2 = [0x30, 0x80] := by simp [buildX509NameCn, derShort, lenByte, longSubject]

end FdoUefi
