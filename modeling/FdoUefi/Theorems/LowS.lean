import FdoUefi.Tpm

/-!
# The low `s` of a signature

The byte-wise comparison and the subtraction with its borrow are those of the numbers the bytes stand for, so `s` is replaced by
`N - s` exactly when it is above half of the order `N` of P-256.
-/

namespace FdoUefi

open Prog Prog.Run

/-- The order of P-256. -/
def p256N : Nat := 0xFFFFFFFF00000000FFFFFFFFFFFFFFFFBCE6FAADA7179E84F3B9CAC2FC632551

/-- The number that a low `s` stands for. -/
def lowValue (v : Nat) : Nat := if v ≤ p256N / 2 then v else p256N - v

namespace Aux

/-! ## Bytes and numbers -/

/-- Bytes of the same number are compared like the numbers. -/
theorem compareBytes_eq {as bs : Bytes} (h : as.length = bs.length) : compareBytes as bs = compare (beNat as) (beNat bs) := by
  induction as generalizing bs with
  | nil =>
    obtain rfl := List.length_eq_zero_iff.1 h.symm
    rfl
  | cons a as ih =>
    obtain ⟨b, bs, rfl⟩ := List.exists_cons_of_length_eq_add_one h.symm
    have hlen : as.length = bs.length := by simpa using h
    have has := beNat_lt as
    have hbs := beNat_lt bs
    rw [beNat_cons, beNat_cons, compareBytes, UInt8.compare_eq_toNat_compare_toNat, hlen]
    rw [hlen] at has
    cases hc : compare a.toNat b.toNat with
    | lt =>
      have hab : (a.toNat + 1) * 256 ^ bs.length ≤ b.toNat * 256 ^ bs.length :=
        Nat.mul_le_mul_right _ (Nat.compare_eq_lt.1 hc)
      rw [Nat.add_mul, Nat.one_mul] at hab
      exact (Nat.compare_eq_lt.2 (by omega)).symm
    | eq =>
      rw [Nat.compare_eq_eq.1 hc]
      show compareBytes as bs = _
      rw [ih hlen]
      rcases Nat.lt_trichotomy (beNat as) (beNat bs) with hlt | heq | hgt
      · rw [Nat.compare_eq_lt.2 hlt, Nat.compare_eq_lt.2 (by omega)]
      · rw [heq, Nat.compare_eq_eq.2 rfl, Nat.compare_eq_eq.2 rfl]
      · rw [Nat.compare_eq_gt.2 hgt, Nat.compare_eq_gt.2 (by omega)]
    | gt =>
      have hab : (b.toNat + 1) * 256 ^ bs.length ≤ a.toNat * 256 ^ bs.length :=
        Nat.mul_le_mul_right _ (Nat.compare_eq_gt.1 hc)
      rw [Nat.add_mul, Nat.one_mul] at hab
      exact (Nat.compare_eq_gt.2 (by omega)).symm

/-- One byte of a difference: what is missing is borrowed. -/
theorem subtractByte_value (a b : UInt8) {borrow : UInt16} (hb : borrow.toNat ≤ 1) :
    (subtractByte a b borrow).1.toNat + b.toNat + borrow.toNat = a.toNat + 256 * (subtractByte a b borrow).2.toNat ∧
      (subtractByte a b borrow).2.toNat ≤ 1 := by
  have ha' := a.toNat_lt
  have hb' := b.toNat_lt
  have hdiff : (a.toUInt16 - b.toUInt16 - borrow).toNat =
      (2 ^ 16 - borrow.toNat + (2 ^ 16 - b.toNat + a.toNat) % 2 ^ 16) % 2 ^ 16 := by
    rw [UInt16.toNat_sub, UInt16.toNat_sub, UInt8.toNat_toUInt16, UInt8.toNat_toUInt16]
  simp only [subtractByte, gt_iff_lt, UInt16.lt_iff_toNat_lt, UInt16.toNat_toUInt8, hdiff,
    show (0xFF : UInt16).toNat = 255 from rfl]
  split
  · simp only [show (1 : UInt16).toNat = 1 from rfl]
    omega
  · simp only [show (0 : UInt16).toNat = 0 from rfl]
    omega

/-- The whole difference: what is missing at the end was borrowed. -/
theorem subtractLoop_value {as bs : Bytes} (h : as.length = bs.length) :
    beNat (subtractLoop as bs).1 + beNat bs = beNat as + 256 ^ as.length * (subtractLoop as bs).2.toNat ∧
      (subtractLoop as bs).2.toNat ≤ 1 ∧ (subtractLoop as bs).1.length = as.length := by
  induction as generalizing bs with
  | nil =>
    obtain rfl := List.length_eq_zero_iff.1 h.symm
    exact ⟨rfl, Nat.zero_le 1, rfl⟩
  | cons a as ih =>
    obtain ⟨b, bs, rfl⟩ := List.exists_cons_of_length_eq_add_one h.symm
    have hlen : as.length = bs.length := by simpa using h
    obtain ⟨hvalue, hborrow, hlength⟩ := ih hlen
    obtain ⟨hbyte, hborrow'⟩ := subtractByte_value a b hborrow
    refine ⟨?_, hborrow', by simp [subtractLoop, hlength]⟩
    show beNat ((subtractByte a b (subtractLoop as bs).2).1 :: (subtractLoop as bs).1) + beNat (b :: bs) = _
    rw [beNat_cons, beNat_cons, beNat_cons, hlength, ← hlen, List.length_cons, pow_succ]
    show _ = _ + _ * (subtractByte a b (subtractLoop as bs).2).2.toNat
    generalize 256 ^ as.length = w at hvalue ⊢
    calc (subtractByte a b (subtractLoop as bs).2).1.toNat * w + beNat (subtractLoop as bs).1 + (b.toNat * w + beNat bs)
        = ((subtractByte a b (subtractLoop as bs).2).1.toNat + b.toNat) * w +
            (beNat (subtractLoop as bs).1 + beNat bs) := by ring
      _ = ((subtractByte a b (subtractLoop as bs).2).1.toNat + b.toNat + (subtractLoop as bs).2.toNat) * w + beNat as := by
          rw [hvalue]
          ring
      _ = a.toNat * w + beNat as + w * 256 * (subtractByte a b (subtractLoop as bs).2).2.toNat := by
          rw [hbyte]
          ring

/-- No borrow is left when the smaller number is taken from the greater one. -/
theorem subtractBytes_value {as bs : Bytes} (h : as.length = bs.length) (hle : beNat bs ≤ beNat as) :
    beNat (subtractBytes as bs) = beNat as - beNat bs ∧ (subtractBytes as bs).length = as.length := by
  obtain ⟨hvalue, hborrow, hlength⟩ := subtractLoop_value h
  have hlt := beNat_lt (subtractLoop as bs).1
  rw [hlength] at hlt
  refine ⟨?_, hlength⟩
  show beNat (subtractLoop as bs).1 = _
  rcases Nat.le_one_iff_eq_zero_or_eq_one.1 hborrow with h0 | h1
  · rw [h0] at hvalue
    omega
  · rw [h1] at hvalue
    omega

/-- Zeros in front do not change a number. -/
theorem beNat_replicate_append (n : Nat) (bs : Bytes) : beNat (List.replicate n 0 ++ bs) = beNat bs := by
  induction n with
  | zero => rfl
  | succ n ih => rw [List.replicate_succ, List.cons_append, beNat_cons, ih, UInt8.toNat_zero, Nat.zero_mul, Nat.zero_add]

/-- A padded number has 32 bytes. -/
theorem padTo32_length (bs : Bytes) : (padTo32 bs).length = 32 := by
  simp [padTo32]
  omega

/-- A padded number is the same number. -/
theorem padTo32_value {bs : Bytes} (h : bs.length ≤ 32) : beNat (padTo32 bs) = beNat bs := by
  rw [padTo32, beNat_replicate_append, Nat.sub_eq_zero_of_le h, List.drop_zero]

/-! ## The order -/

/-- The bytes of the order are the order. -/
theorem beNat_p256Order : beNat p256Order = p256N := by decide

/-- The constant in the source is half of the order, rounded down. -/
theorem beNat_p256HalfOrder : beNat p256HalfOrder = p256N / 2 := by decide

/-- Comparing the bytes is comparing the numbers. -/
theorem compareBytes_half_iff {s : Bytes} (hlen : s.length = 32) :
    compareBytes s p256HalfOrder = .gt ↔ p256N / 2 < beNat s := by
  rw [compareBytes_eq (hlen.trans rfl), Nat.compare_eq_gt, beNat_p256HalfOrder]

/-- The low half is the smaller of a number and its negative. -/
theorem lowS_value {s : Bytes} (hlen : s.length = 32) (hs : beNat s < p256N) :
    beNat (lowS s) = lowValue (beNat s) ∧ (lowS s).length = 32 := by
  unfold lowS lowValue
  by_cases hle : beNat s ≤ p256N / 2
  · have hlow : ¬compareBytes s p256HalfOrder = .gt := fun h => by
      have := (compareBytes_half_iff hlen).1 h
      omega
    rw [if_neg hlow, if_pos hle]
    exact ⟨rfl, hlen⟩
  · rw [if_pos ((compareBytes_half_iff hlen).2 (by omega)), if_neg hle, ← beNat_p256Order]
    exact subtractBytes_value (hlen.symm : p256Order.length = s.length) (by rw [beNat_p256Order]; omega)

/-- A low `s` stays as it is. -/
theorem lowS_of_low {s : Bytes} (hlen : s.length = 32) (hs : beNat s ≤ p256N / 2) : lowS s = s := by
  unfold lowS
  refine if_neg fun h => ?_
  have := (compareBytes_half_iff hlen).1 h
  omega

/-- The order is odd: what is left of it is at most half. -/
theorem lowValue_le (v : Nat) : lowValue v ≤ p256N / 2 := by
  unfold lowValue
  have hodd : p256N = 2 * (p256N / 2) + 1 := by decide
  split <;> omega

end Aux

/-- Whatever `r` and `s` the TPM returns, the `s` of the signature has 32 bytes and stands for `v` or `N - v`, whichever is at
most half of the order, and a second time changes nothing. -/
theorem tpmSignWithPersistent_lowS (D : TpmDevice) (handle : Nat) (digest r s : Bytes) (t t' u : Tpm)
    (hopen : openTcg D t = (.ok (), t')) (hsign : tpmSubmit D (.sign handle digest) t' = (.ok (.signature (some (r, s))), u))
    (hlen : s.length ≤ 32) (hs : beNat s ≤ p256N - 1) :
    ∃ written, Tpm.tpmSignWithPersistent D handle digest t = (.ok (padTo32 r ++ written), u) ∧ written.length = 32 ∧
      beNat written = lowValue (beNat s) ∧ beNat written ≤ p256N / 2 ∧ lowS written = written := by
  have hpos : 0 < p256N := by decide
  have hvalue := Aux.padTo32_value hlen
  obtain ⟨hwritten, hlength⟩ := Aux.lowS_value (Aux.padTo32_length s) (by omega)
  rw [hvalue] at hwritten
  have hlow : beNat (lowS (padTo32 s)) ≤ p256N / 2 := by
    rw [hwritten]
    exact Aux.lowValue_le _
  refine ⟨lowS (padTo32 s), ?_, hlength, hwritten, hlow, Aux.lowS_of_low hlength hlow⟩
  rw [Tpm.tpmSignWithPersistent, bind_of_ok hopen, bind_of_ok hsign]
  rfl

/-- One below the order. -/
def highestS : Bytes :=
  [0xFF, 0xFF, 0xFF, 0xFF, 0x00, 0x00, 0x00, 0x00, 0xFF, 0xFF, 0xFF, 0xFF, 0xFF, 0xFF, 0xFF, 0xFF,
    0xBC, 0xE6, 0xFA, 0xAD, 0xA7, 0x17, 0x9E, 0x84, 0xF3, 0xB9, 0xCA, 0xC2, 0xFC, 0x63, 0x25, 0x50]

/-- A TPM that signs with the highest `s` and an `r` of one byte. -/
def signerDevice : TpmDevice where
  seed := 0
  publicPoint _ := ([], [])
  hmac _ _ := []
  sign _ _ _ := ([0x07], highestS)
  handle _ := 0x80000000
  answer _ := .run

/-- It holds a signing key at 0x81020002. -/
def signerTpm (submissions : Nat) : Tpm where
  persistent handle := if handle = 0x81020002 then some ⟨.signing, 0⟩ else none
  transient _ := none
  nv _ := none
  submissions := submissions
  effects := []
  failedReads := 0
  failedWrites := 0

/-- The highest value that a TPM may give comes out low. -/
theorem signerDevice_lowS :
    ∃ written, Tpm.tpmSignWithPersistent signerDevice 0x81020002 [] (signerTpm 0) =
        (.ok (padTo32 [0x07] ++ written), signerTpm 2) ∧ written.length = 32 ∧ beNat written = lowValue (beNat highestS) ∧
      beNat written ≤ p256N / 2 ∧ lowS written = written :=
  tpmSignWithPersistent_lowS signerDevice 0x81020002 [] [0x07] highestS (signerTpm 0) (signerTpm 1) (signerTpm 2) rfl rfl
    (by decide) (by decide)

example : lowValue (beNat highestS) = 1 := by decide

end FdoUefi
