import FdoUefi.Cose

/-!
# What `encode_head` writes

A head that `cose.rs` writes for a length below 2^32 is a CBOR head with that argument, so the strings it writes are string
items and a Sig_structure is an array of four items. CBOR is a prefix code, so a Sig_structure determines its parts.
-/

namespace FdoUefi

open Prog Cbor

/-- `encode_head` writes the shortest head. -/
theorem encodeHead_eq {m len : Nat} (hlen : len < 2 ^ 32) : encodeHead m len = shortHead m len := by
  unfold encodeHead shortHead
  rw [if_pos hlen]
  simp only [beBytes, Nat.shiftRight_eq_div_pow, Nat.mul_zero, Nat.pow_zero, Nat.div_one, Nat.reduceMul, Nat.reducePow]

/-- A head has five bytes at most. -/
theorem encodeHead_length_le (m len : Nat) : (encodeHead m len).length ≤ 5 := by
  unfold encodeHead
  split_ifs <;> simp

/-- A head for a length below 2^32. -/
theorem encodeHead_head {m len : Nat} (hm : m < 7) (hlen : len < 2 ^ 32) :
    ∃ hd : Head, encodeHead m len = hd.bytes ∧ hd.IsMajor m ∧ hd.arg = len ∧ hd.Rfc := by
  obtain ⟨hd, hb, hmaj, harg, hrfc, -⟩ := shortHead_head (n := len) hm (by omega)
  exact ⟨hd, (encodeHead_eq hlen).trans hb, hmaj, harg, hrfc⟩

/-- A head for any length: what is lost are the high bits. -/
theorem encodeHead_head_mod {m : Nat} (hm : m < 7) (len : Nat) :
    ∃ hd : Head, encodeHead m len = hd.bytes ∧ hd.arg = len % 2 ^ 32 := by
  by_cases hlen : len < 2 ^ 32
  · obtain ⟨hd, hb, -, harg, -⟩ := encodeHead_head hm hlen
    exact ⟨hd, hb, by rw [harg, Nat.mod_eq_of_lt hlen]⟩
  · obtain ⟨hd, hb, -, -, harg, -⟩ := Head.exists_of (k := 26) hm (by omega) (beBytes_length 4 len)
    refine ⟨hd, ?_, ?_⟩
    · rw [hb, encodeHead, if_neg (by omega), if_neg (by omega), if_neg (by omega)]
      simp only [beBytes, Nat.shiftRight_eq_div_pow, Nat.mul_zero, Nat.pow_zero, Nat.div_one, Nat.reduceMul]
    · rw [harg, argVal, if_neg (by omega), beNat_beBytes_mod, show (256 : Nat) ^ 4 = 2 ^ 32 from rfl]

/-- A string of less than 2^32 bytes is written as one. -/
theorem encodeStr_isStr {m : Nat} (hm : m = 2 ∨ m = 3) {s : Bytes} (hs : s.length < 2 ^ 32) :
    IsStr m (encodeHead m s.length ++ s) s ∧ Item Head.Rfc (encodeHead m s.length ++ s) := by
  obtain ⟨hd, heq, hmaj, harg, hrfc⟩ := encodeHead_head (m := m) (by omega) hs
  rw [heq]
  refine ⟨⟨hd, hmaj, harg.symm, rfl⟩, Item.str hd s hrfc ?_ harg.symm⟩
  unfold Head.IsMajor at hmaj ⊢
  omega

/-- A byte string of less than 2^32 bytes is written as one. -/
theorem encodeBstr_isBstr {s : Bytes} (hs : s.length < 2 ^ 32) : IsBstr (encodeBstr s) s ∧ Item Head.Rfc (encodeBstr s) :=
  encodeStr_isStr (.inl rfl) hs

/-- A text of less than 2^32 bytes is written as one. -/
theorem encodeTstr_isText {s : Bytes} (hs : s.length < 2 ^ 32) : IsText (encodeTstr s) s ∧ Item Head.Rfc (encodeTstr s) :=
  encodeStr_isStr (.inr rfl) hs

/-- `msg` is the array `["Signature1", prot, aad, payload]`, in CBOR. -/
def IsSigStructure (msg prot aad payload : Bytes) : Prop :=
  ∃ context p a m, IsArray Head.Rfc msg [context, p, a, m] ∧ IsText context (utf8 "Signature1") ∧ IsBstr p prot ∧ IsBstr a aad ∧
    IsBstr m payload

/-- `aad` is the array `[tag]`, in CBOR. -/
def IsDomainAad (aad tag : Bytes) : Prop := ∃ t, IsArray Head.Rfc aad [t] ∧ IsText t tag

/-- The head of an array of `n` elements, for `n` below 24. -/
theorem isArray_of_small {n : Nat} {xs : List Bytes} (hn : n < 24) (hlen : xs.length = n) (hxs : ∀ x ∈ xs, Item Head.Rfc x) :
    IsArray Head.Rfc (UInt8.ofNat (4 * 32 + n) :: xs.flatten) xs := by
  have hhead := @encodeHead_head 4 n (by omega) (by omega)
  obtain ⟨hd, heq, hmaj, harg, hrfc⟩ := hhead
  refine ⟨hd, hrfc, hmaj, by rw [harg, hlen], ?_, hxs⟩
  rw [← heq, encodeHead, if_pos hn]
  rfl

/-- What `build_sig_structure` builds is a Sig_structure. -/
theorem buildSigStructure_isSigStructure {prot aad payload : Bytes} (hp : prot.length < 2 ^ 32) (ha : aad.length < 2 ^ 32)
    (hm : payload.length < 2 ^ 32) : IsSigStructure (buildSigStructure prot aad payload) prot aad payload := by
  have hctx : (utf8 "Signature1").length < 2 ^ 32 := by decide
  refine ⟨encodeTstr (utf8 "Signature1"), encodeBstr prot, encodeBstr aad, encodeBstr payload, ?_,
    (encodeTstr_isText hctx).1, (encodeBstr_isBstr hp).1, (encodeBstr_isBstr ha).1, (encodeBstr_isBstr hm).1⟩
  have harr := @isArray_of_small 4 [encodeTstr (utf8 "Signature1"), encodeBstr prot, encodeBstr aad,
    encodeBstr payload] (by omega) rfl (by
      simp only [List.mem_cons, List.not_mem_nil, or_false]
      rintro x (rfl | rfl | rfl | rfl)
      · exact (encodeTstr_isText hctx).2
      · exact (encodeBstr_isBstr hp).2
      · exact (encodeBstr_isBstr ha).2
      · exact (encodeBstr_isBstr hm).2)
  have heq : buildSigStructure prot aad payload = UInt8.ofNat (4 * 32 + 4) ::
      [encodeTstr (utf8 "Signature1"), encodeBstr prot, encodeBstr aad, encodeBstr payload].flatten := by
    have hhead : encodeTstr (utf8 "Signature1") = 0x6a :: utf8 "Signature1" := by decide
    simp [buildSigStructure, hhead]
  rw [heq]
  exact harr

/-- A string that was written and is one has lost no high bits of its length. -/
theorem encodeStr_lt {m n : Nat} (hm : m < 7) {s x r r' : Bytes} (hx : IsStr n x s)
    (heq : encodeHead m s.length ++ (s ++ r) = x ++ r') : s.length < 2 ^ 32 ∧ r = r' := by
  obtain ⟨h, -, hl, rfl⟩ := hx
  obtain ⟨k, hk, harg⟩ := encodeHead_head_mod hm s.length
  rw [hk, List.append_assoc] at heq
  obtain ⟨rfl, hrest⟩ := Head.append_inj heq
  exact ⟨by omega, List.append_cancel_left hrest⟩

/-- What `build_sig_structure` builds is a Sig_structure only where no length loses its high bits. -/
theorem lt_of_isSigStructure {prot aad payload : Bytes} (h : IsSigStructure (buildSigStructure prot aad payload) prot aad payload) :
    prot.length < 2 ^ 32 ∧ aad.length < 2 ^ 32 ∧ payload.length < 2 ^ 32 := by
  obtain ⟨context, p, a, m, ⟨hd, -, -, -, heq, -⟩, hcontext, hp, ha, hm⟩ := h
  obtain ⟨k, hk, -⟩ := encodeHead_head_mod (m := 4) (by decide) 4
  have hbuild : buildSigStructure prot aad payload = k.bytes ++ (encodeHead 3 (utf8 "Signature1").length ++ (utf8 "Signature1" ++
      (encodeHead 2 prot.length ++ (prot ++ (encodeHead 2 aad.length ++ (aad ++
        (encodeHead 2 payload.length ++ (payload ++ [])))))))) := by
    have hhead : encodeHead 3 (utf8 "Signature1").length = [0x6a] := by decide
    rw [← hk, hhead]
    simp [buildSigStructure, encodeBstr, encodeHead]
  rw [hbuild] at heq
  obtain ⟨rfl, helements⟩ := Head.append_inj heq
  rw [List.flatten_cons, List.flatten_cons, List.flatten_cons, List.flatten_cons] at helements
  obtain ⟨-, h1⟩ := encodeStr_lt (by decide) hcontext helements
  obtain ⟨hprot, h2⟩ := encodeStr_lt (by decide) hp h1
  obtain ⟨haad, h3⟩ := encodeStr_lt (by decide) ha h2
  obtain ⟨hpayload, -⟩ := encodeStr_lt (by decide) hm h3
  exact ⟨hprot, haad, hpayload⟩

/-- The AAD of a domain is one, from FDO 2.0 on. -/
theorem domainAad_isDomainAad {tag : Bytes} {version : Nat} (hv : fdoVersion200 ≤ version) (ht : tag.length < 2 ^ 32) :
    IsDomainAad (domainAad tag version) tag := by
  have harr := @isArray_of_small 1 [encodeTstr tag] (by omega) rfl (by
    simp only [List.mem_singleton]
    rintro x rfl
    exact (encodeTstr_isText ht).2)
  refine ⟨encodeTstr tag, ?_, (encodeTstr_isText ht).1⟩
  rw [domainAad, if_neg (by omega)]
  simpa using harr

/-! ## What the start of a Sig_structure determines -/

/-- A byte string that was written is read back as one. -/
theorem encodeBstr_append_inj {s t r r' : Bytes} (hs : s.length < 2 ^ 32) (ht : t.length < 2 ^ 32)
    (h : encodeBstr s ++ r = encodeBstr t ++ r') : s = t ∧ r = r' := by
  obtain ⟨⟨hd, -, hlen, heq⟩, -⟩ := encodeBstr_isBstr hs
  obtain ⟨⟨hd', -, hlen', heq'⟩, -⟩ := encodeBstr_isBstr ht
  rw [heq, heq', List.append_assoc, List.append_assoc] at h
  obtain ⟨rfl, hrest⟩ := Head.append_inj h
  exact List.append_inj hrest (hlen.trans hlen'.symm)

/-- A text that was written alone is read back. The length of the whole gives that of the text, also where its head has lost
the high bits. -/
theorem encodeTstr_inj {s t : Bytes} (h : encodeTstr s = encodeTstr t) : s = t := by
  have hsize : (encodeTstr s).length = (encodeTstr t).length := by rw [h]
  have hlen : s.length = t.length := by
    simp only [encodeTstr, encodeHead, List.length_append] at hsize
    split_ifs at hsize <;> simp only [List.length_cons, List.length_nil] at hsize <;> omega
  rw [encodeTstr, encodeTstr, hlen] at h
  exact List.append_cancel_left h

/-- `domain_aad` is injective in the tag. -/
theorem domainAad_inj {tag tag' : Bytes} {v v' : Nat} (hv : fdoVersion200 ≤ v) (hv' : fdoVersion200 ≤ v')
    (h : domainAad tag v = domainAad tag' v') : tag = tag' := by
  rw [domainAad, domainAad, if_neg (by omega), if_neg (by omega)] at h
  exact encodeTstr_inj (List.cons.inj h).2

/-- `msg` starts like a Sig_structure with this protected header and this external AAD. -/
def SigContext (msg prot aad : Bytes) : Prop :=
  prot.length < 2 ^ 32 ∧ aad.length < 2 ^ 32 ∧
    ∃ rest, msg = [0x84, 0x6a] ++ utf8 "Signature1" ++ (encodeBstr prot ++ (encodeBstr aad ++ rest))

/-- A Sig_structure carries one protected header and one AAD. -/
theorem SigContext.unique {msg p a p' a' : Bytes} (h : SigContext msg p a) (h' : SigContext msg p' a') : p = p' ∧ a = a' := by
  obtain ⟨hp, ha, rest, rfl⟩ := h
  obtain ⟨hp', ha', rest', heq⟩ := h'
  obtain ⟨rfl, hrest⟩ := encodeBstr_append_inj hp hp' (List.append_cancel_left heq)
  exact ⟨rfl, (encodeBstr_append_inj ha ha' hrest).1⟩

/-- The one that is built carries those it was built from. -/
theorem buildSigStructure_sigContext {p a : Bytes} (m : Bytes) (hp : p.length < 2 ^ 32) (ha : a.length < 2 ^ 32) :
    SigContext (buildSigStructure p a m) p a :=
  ⟨hp, ha, encodeBstr m, by simp only [buildSigStructure, List.append_assoc]⟩

/-- A Sig_structure determines its parts. -/
theorem buildSigStructure_inj {p a m p' a' m' : Bytes} (hp : p.length < 2 ^ 32) (ha : a.length < 2 ^ 32) (hm : m.length < 2 ^ 32)
    (hp' : p'.length < 2 ^ 32) (ha' : a'.length < 2 ^ 32) (hm' : m'.length < 2 ^ 32)
    (h : buildSigStructure p a m = buildSigStructure p' a' m') : p = p' ∧ a = a' ∧ m = m' := by
  have hcontext := buildSigStructure_sigContext m hp ha
  rw [h] at hcontext
  obtain ⟨rfl, rfl⟩ := hcontext.unique (buildSigStructure_sigContext m' hp' ha')
  have hmsg : encodeBstr m ++ [] = encodeBstr m' ++ [] := by
    rw [List.append_nil, List.append_nil]
    exact List.append_cancel_left h
  exact ⟨rfl, rfl, (encodeBstr_append_inj hm hm' hmsg).1⟩

end FdoUefi
