import FdoUefi.Lemmas.CoseReaders
import FdoUefi.Lemmas.DecoderReaders

/-!
# What a COSE_Sign1 envelope is made of

`parse_cose_sign1` accepts nothing but a four-element array, tagged or not, whose second element is one CBOR item; the parts
it returns are the parts of that array (`parseCoseSign1_ok`). `extract_cose_payload` walks the same parts with the other
decoder.
-/

namespace FdoUefi

open Prog Prog.Run Cbor

/-- Tag 18, or nothing. -/
def IsSign1Tag (bs : Bytes) : Prop := bs = [] ∨ ∃ h : Head, h.IsMajor 6 ∧ h.arg = 18 ∧ bs = h.bytes

/-- What stands before the unprotected header of an envelope: the tag, the head of the array and the protected header. -/
def IsSign1Prefix (pre prot : Bytes) : Prop :=
  ∃ (t : Bytes) (ah ph : Head), IsSign1Tag t ∧ ah.IsMajor 4 ∧ ah.arg = 4 ∧ ph.IsMajor 2 ∧ prot.length = ph.arg ∧
    pre = t ++ (ah.bytes ++ (ph.bytes ++ prot))

/-- The payload of an envelope, as a byte string or as null. -/
def IsSign1Payload (bs payload : Bytes) : Prop := IsBstr bs payload ∨ bs = [0xf6] ∧ payload = []

variable {d : Bytes}

/-- A byte string that was read is a byte string item. -/
theorem cborReadBstr_ok {p q : Nat} {s : Bytes} (h : cborReadBstr d p = (.ok s, q)) :
    ∃ hd : Head, hd.IsMajor 2 ∧ additional hd.initial < 27 ∧ At d p (hd.bytes ++ s) ∧ s.length = hd.arg ∧
      q = p + (hd.bytes ++ s).length := by
  simp only [cborReadBstr, bind_ok_iff, ensure_ok_iff, take_ok_iff] at h
  obtain ⟨b, t, hb, _, _, ⟨hm, rfl⟩, len, r, ha, hs, hl, rfl⟩ := h
  obtain ⟨hd, rfl, h27, hat, rfl, rfl⟩ := cborHead_ok hb ha
  refine ⟨hd, hm, h27, at_append_iff.2 ⟨hat, hs⟩, hl, ?_⟩
  rw [List.length_append, hl, Nat.add_assoc]

/-- The tag before an envelope, if there is one, is tag 18. -/
theorem skipSign1Tag_ok {p q : Nat} {u : Unit} (h : skipSign1Tag d p = (.ok u, q)) :
    ∃ t, IsSign1Tag t ∧ At d p t ∧ q = p + t.length := by
  unfold skipSign1Tag at h
  obtain ⟨o, r, ho, hr⟩ := bind_ok_iff.1 h
  simp only [peek_apply, Prod.mk.injEq, Outcome.ok.injEq] at ho
  obtain ⟨rfl, rfl⟩ := ho
  cases hb : d[p]? with
  | none =>
    simp only [hb] at hr
    simp at hr
  | some b =>
    simp only [hb] at hr
    have hat := getElem?_eq_some_iff_at.1 hb
    by_cases hm : major b = 6
    · simp only [hm, if_true, bind_ok_iff, advance_apply, ensure_ok_iff, Prod.mk.injEq] at hr
      obtain ⟨_, _, ⟨-, rfl⟩, v, r, ha, rfl, rfl⟩ := hr
      obtain ⟨hd, rfl, h27, hat, harg, rfl⟩ := cborHead_ok (next_ok_iff.2 ⟨hat, rfl⟩) ha
      exact ⟨hd.bytes, .inr ⟨hd, hm, harg.symm, rfl⟩, hat, rfl⟩
    · rw [if_neg hm] at hr
      obtain ⟨-, rfl⟩ := pure_ok_iff.1 hr
      exact ⟨[], .inl rfl, at_nil hat.pos_le, rfl⟩

/-- A payload that was read stands there, as a byte string or null. -/
theorem readSign1Payload_ok {p q : Nat} {payload : Bytes} (h : readSign1Payload d p = (.ok payload, q)) :
    ∃ bs, IsSign1Payload bs payload ∧ At d p bs ∧ q = p + bs.length := by
  unfold readSign1Payload at h
  obtain ⟨o, r, ho, hr⟩ := bind_ok_iff.1 h
  simp only [peek_apply, Prod.mk.injEq, Outcome.ok.injEq] at ho
  obtain ⟨rfl, rfl⟩ := ho
  cases hb : d[p]? with
  | none =>
    simp only [hb] at hr
    simp at hr
  | some b =>
    simp only [hb] at hr
    have hat := getElem?_eq_some_iff_at.1 hb
    by_cases hm : b = 0xf6
    · subst hm
      simp only [if_true, bind_ok_iff, advance_apply, pure_ok_iff, Prod.mk.injEq] at hr
      obtain ⟨_, _, ⟨-, rfl⟩, rfl, rfl⟩ := hr
      exact ⟨[0xf6], .inr ⟨rfl, rfl⟩, hat, rfl⟩
    · rw [if_neg hm] at hr
      obtain ⟨hd, hm, -, hat, hl, rfl⟩ := cborReadBstr_ok hr
      exact ⟨hd.bytes ++ payload, .inl ⟨hd, hm, hl, rfl⟩, hat, rfl⟩

/-- What the parser of envelopes reads, with the places that it comes to. -/
structure Sign1Fields (d : Bytes) (s : CoseSign1) where
  initial : UInt8
  initialAt : Nat
  argAt : Nat
  protectedAt : Nat
  unprotectedAt : Nat
  payloadAt : Nat
  signatureAt : Nat
  signatureEnd : Nat
  tag_read : skipSign1Tag d 0 = (.ok (), initialAt)
  initial_read : next d initialAt = (.ok initial, argAt)
  array : major initial = 4
  count_read : cborReadUintArg d (additional initial) argAt = (.ok 4, protectedAt)
  protected_read : cborReadBstr d protectedAt = (.ok s.protectedHeader, unprotectedAt)
  algorithm : parseProtectedAlg s.protectedHeader = .ok s.algorithm
  unprotected_skip : cborSkip d unprotectedAt = (.ok (), payloadAt)
  unprotected : range? d unprotectedAt payloadAt = some s.unprotectedHeader
  payload_read : readSign1Payload d payloadAt = (.ok s.payload, signatureAt)
  signature_read : cborReadBstr d signatureAt = (.ok s.signature, signatureEnd)

/-- The fields of an envelope stand one behind the other. -/
theorem parseCoseSign1_fields {s : CoseSign1} (h : parseCoseSign1 d = .ok s) : Nonempty (Sign1Fields d s) := by
  have hrun : parseCoseSign1Run d 0 = (.ok s, (parseCoseSign1Run d 0).2) := eq_of_fst h
  unfold parseCoseSign1Run at hrun
  obtain ⟨_, p₁, ht, r₁⟩ := bind_ok_iff.1 hrun
  obtain ⟨b, p₂, hb, r₂⟩ := bind_ok_iff.1 r₁
  obtain ⟨_, p₃, hmajor, r₃⟩ := bind_ok_iff.1 r₂
  obtain ⟨len, p₄, ha, r₄⟩ := bind_ok_iff.1 r₃
  obtain ⟨_, p₅, hfour, r₅⟩ := bind_ok_iff.1 r₄
  obtain ⟨prot, p₆, hprot, r₆⟩ := bind_ok_iff.1 r₅
  obtain ⟨alg, p₇, hparsed, r₇⟩ := bind_ok_iff.1 r₆
  obtain ⟨start, p₈, hstart, r₈⟩ := bind_ok_iff.1 r₇
  obtain ⟨_, p₉, hskip, r₉⟩ := bind_ok_iff.1 r₈
  obtain ⟨stop, p₁₀, hstop, r₁₀⟩ := bind_ok_iff.1 r₉
  obtain ⟨u, p₁₁, hrange, r₁₁⟩ := bind_ok_iff.1 r₁₀
  obtain ⟨payload, p₁₂, hpay, r₁₂⟩ := bind_ok_iff.1 r₁₁
  obtain ⟨sg, p₁₃, hsig, hc⟩ := bind_ok_iff.1 r₁₂
  obtain ⟨rfl, -⟩ := pure_ok_iff.1 hc
  obtain ⟨hm, rfl⟩ := ensure_ok_iff.1 hmajor
  obtain ⟨rfl, rfl⟩ := ensure_ok_iff.1 hfour
  obtain ⟨halg, rfl⟩ := ofOutcome_ok_iff.1 hparsed
  cases hstart
  cases hstop
  obtain ⟨hu, rfl⟩ := orFail_ok_iff.1 hrange
  exact ⟨⟨b, _, _, _, _, _, _, _, ht, hb, hm, ha, hprot, halg, hskip, hu, hpay, hsig⟩⟩

/-- The parts of an accepted envelope stand in it one after the other. -/
theorem parseCoseSign1_ok {s : CoseSign1} (h : parseCoseSign1 d = .ok s) :
    ∃ pre pl sg post, d = pre ++ (s.unprotectedHeader ++ (pl ++ sg)) ++ post ∧ IsSign1Prefix pre s.protectedHeader ∧
      Item Head.Narrow s.unprotectedHeader ∧ IsSign1Payload pl s.payload ∧ IsBstr sg s.signature ∧
      parseProtectedAlg s.protectedHeader = .ok s.algorithm := by
  obtain ⟨⟨b, p₁, p₂, p₃, p₄, p₅, p₆, p₇, ht, hb, hm, ha, hprot, halg, hskip, hu, hpay, hsig⟩⟩ := parseCoseSign1_fields h
  obtain ⟨t, htag, hat, rfl⟩ := skipSign1Tag_ok ht
  obtain ⟨ah, rfl, -, haat, h4, rfl⟩ := cborHead_ok hb ha
  obtain ⟨ph, hpm, -, hpat, hpl, rfl⟩ := cborReadBstr_ok hprot
  obtain ⟨huat, hulen⟩ := range?_eq_some_iff_at.1 hu
  obtain ⟨v, hvat, hitem, hvlen⟩ := cborSkip_item hskip (by rw [hulen]; exact huat.end_le)
  obtain rfl : v = s.unprotectedHeader := hvat.unique huat (by omega)
  obtain ⟨pl, hpl', hplat, rfl⟩ := readSign1Payload_ok hpay
  obtain ⟨sh, hsm, -, hsat, hsl, -⟩ := cborReadBstr_ok hsig
  have hpre : At d 0 (t ++ (ah.bytes ++ (ph.bytes ++ s.protectedHeader))) :=
    at_append_iff.2 ⟨hat, at_append_iff.2 ⟨haat, hpat⟩⟩
  have hrest : At d (0 + t.length + ah.bytes.length + (ph.bytes ++ s.protectedHeader).length)
      (s.unprotectedHeader ++ (pl ++ (sh.bytes ++ s.signature))) :=
    at_append_iff.2 ⟨hvat, at_append_iff.2 ⟨hulen ▸ hplat, by rw [← hulen]; exact hsat⟩⟩
  have hall : At d 0 (t ++ (ah.bytes ++ (ph.bytes ++ s.protectedHeader)) ++
      (s.unprotectedHeader ++ (pl ++ (sh.bytes ++ s.signature)))) := by
    refine at_append_iff.2 ⟨hpre, ?_⟩
    simpa only [List.length_append, Nat.zero_add, Nat.add_assoc] using hrest
  obtain ⟨post, hd⟩ := at_zero_iff.1 hall
  exact ⟨_, pl, sh.bytes ++ s.signature, post, hd, ⟨t, ah, ph, htag, hm, h4.symm, hpm, hpl, rfl⟩, hitem, hpl',
    ⟨sh, hsm, hsl, rfl⟩, halg⟩

/-! ## Sizes -/

/-- An argument that was read has less than 32 bits. -/
theorem cborReadUintArg_lt {d : Bytes} {ai p q v : Nat} (h : cborReadUintArg d ai p = (.ok v, q)) : v < 2 ^ 32 := by
  have hbytes : ∀ {n : Nat} {s : Bytes}, s.length = n → n ≤ 4 → beNat s < 2 ^ 32 := fun {n s} hs hn => by
    have hlt := beNat_lt s
    have hpow : 256 ^ s.length ≤ 256 ^ 4 := Nat.pow_le_pow_right (by omega) (by omega)
    omega
  unfold cborReadUintArg at h
  split_ifs at h with h23 h24 h25 h26
  · rw [(pure_ok_iff.1 h).1]
    omega
  · simp only [bind_ok_iff, pure_ok_iff] at h
    obtain ⟨b, _, -, rfl, -⟩ := h
    have := b.toNat_lt
    omega
  · simp only [bind_ok_iff, pure_ok_iff, take_ok_iff] at h
    obtain ⟨s, _, ⟨-, hs, -⟩, rfl, -⟩ := h
    exact hbytes hs (by omega)
  · simp only [bind_ok_iff, pure_ok_iff, take_ok_iff] at h
    obtain ⟨s, _, ⟨-, hs, -⟩, rfl, -⟩ := h
    exact hbytes hs (by omega)
  · simp at h

/-- A byte string has less than 2^32 bytes. -/
theorem cborReadBstr_length_lt {d : Bytes} {p q : Nat} {s : Bytes} (h : cborReadBstr d p = (.ok s, q)) : s.length < 2 ^ 32 := by
  simp only [cborReadBstr, bind_ok_iff, take_ok_iff] at h
  obtain ⟨b, _, -, _, _, -, len, _, harg, -, hlen, -⟩ := h
  have := cborReadUintArg_lt harg
  omega

/-- A payload has less than 2^32 bytes. -/
theorem readSign1Payload_length_lt {d : Bytes} {p q : Nat} {s : Bytes} (h : readSign1Payload d p = (.ok s, q)) :
    s.length < 2 ^ 32 := by
  unfold readSign1Payload at h
  rw [bind_of_ok (peek_apply d p)] at h
  cases hb : d[p]? with
  | none => simp [hb] at h
  | some b =>
    simp only [hb] at h
    split_ifs at h with hnull
    · simp only [bind_ok_iff, pure_ok_iff] at h
      obtain ⟨_, _, -, rfl, -⟩ := h
      simp
    · exact cborReadBstr_length_lt h

/-- The strings of an envelope that was parsed are shorter than 2^32 bytes. -/
theorem parseCoseSign1_length_lt {data : Bytes} {s1 : CoseSign1} (h : parseCoseSign1 data = .ok s1) :
    s1.protectedHeader.length < 2 ^ 32 ∧ s1.payload.length < 2 ^ 32 := by
  obtain ⟨f⟩ := parseCoseSign1_fields h
  exact ⟨cborReadBstr_length_lt f.protected_read, readSign1Payload_length_lt f.payload_read⟩

/-- The payload of an envelope lies in its bytes. -/
theorem parseCoseSign1_payload_le {data : Bytes} {s1 : CoseSign1} (h : parseCoseSign1 data = .ok s1) :
    s1.payload.length ≤ data.length := by
  obtain ⟨f⟩ := parseCoseSign1_fields h
  obtain ⟨bs, hbs, hat, -⟩ := readSign1Payload_ok f.payload_read
  have hend := hat.end_le
  rcases hbs with ⟨k, -, -, rfl⟩ | ⟨-, hnil⟩
  · rw [List.length_append] at hend
    omega
  · rw [hnil]
    exact Nat.zero_le _

end FdoUefi
