import FdoUefi.Lemmas.ReadBack
import FdoUefi.Lib.Local

/-!
# Helpers about the reader of the credentials

The reader of `tpm.rs` steps over ten items, those that it reads and those that it skips, and looks nowhere else.
-/

namespace FdoUefi

open Prog Prog.Run Cbor

namespace Tpm

variable {d : Bytes} {p q : Nat}

/-! ## It looks nowhere else -/

/-- A routine that steps over what it has stepped over wherever that stands. -/
theorem local_of_stepsOver {m : Bytes → Nat → Run Nat Unit Unit} (hlt : ∀ d k p q, m d k p = (.ok (), q) → p ≤ q)
    (hsteps : ∀ d k p u, At d p u → m d k p = (.ok (), p + u.length) → StepsOver m 1 u) :
    Local fun d => m d (d.length + 1) := by
  intro d p a q h
  refine ⟨hlt d _ p q h, fun u hat hq d' p' hat' => ?_⟩
  subst hq
  have hend := hat'.end_le
  exact stepsOver_one_iff.1 (hsteps d _ p u hat h) d' p' (d'.length + 1) (by omega) hat'

/-- Skipping a value looks at nothing behind it. -/
theorem skipCborValue_local : Local skipCborValue :=
  local_of_stepsOver (m := skipCborValueTo) (fun _ _ _ _ h => (skipShort_lt h).le) fun _ _ _ _ hat h => stepsOver_of_end hat h

/-- Reading an argument looks at nothing behind it. -/
theorem cborReadUintArg_local (ai : Nat) : Local fun d => cborReadUintArg d ai := by
  unfold cborReadUintArg
  refine Local.ite (.pure ai) (Local.ite (Local.next.bind fun b => .pure b.toNat) ?_)
  refine Local.ite ((Local.take 2).bind fun b => .pure (beNat b)) ?_
  exact Local.ite ((Local.take 4).bind fun b => .pure (beNat b)) (.fail ())

/-- Reading an integer looks at nothing behind it. -/
theorem readCborUint_local : Local readCborUint :=
  Local.next.bind fun b => (Local.ensure _ ()).bind fun _ => cborReadUintArg_local (additional b)

/-- Reading an argument with the other reader looks at nothing behind it. -/
theorem readCborUintArg_local (ai : Nat) : Local fun d => readCborUintArg d ai := by
  unfold readCborUintArg
  refine Local.ite (.pure ai) (Local.ite (Local.next.bind fun b => .pure b.toNat) ?_)
  exact Local.ite ((Local.take 2).bind fun b => .pure (beNat b)) (.fail ())

/-- Reading the GUID looks at nothing behind it. -/
theorem readGuid_local : Local readGuid := by
  have hhead : Local fun d => readShortHead d 2 :=
    Local.next.bind fun b => (Local.ensure _ ()).bind fun _ => readCborUintArg_local (additional b)
  have hbstr : Local readCborBstr := hhead.bind fun len => Local.take len
  exact hbstr.bind fun guid => (Local.ensure _ ()).bind fun _ => .pure guid

/-- Reading the credentials in array form looks at nothing behind them. -/
theorem arrayCredentials_local : Local arrayCredentials := by
  have hmagic : Local readMagic := readCborUint_local.bind fun magic => Local.ensure (magic = dctpmMagic) ()
  have hthree : Local fun d => repeatN 3 (skipCborValue d) := skipCborValue_local.repeatN 3
  refine hmagic.bind fun _ => hthree.bind fun _ => readGuid_local.bind fun guid => hthree.bind fun _ => ?_
  exact readCborUint_local.bind fun deviceKeyHandle => readCborUint_local.bind fun hmacKeyHandle => .pure _

/-! ## It steps over ten items -/

/-- A number that is read is stepped over as one item. -/
theorem readCborUint_skips {v : Nat} (h : readCborUint d p = (.ok v, q)) : skipCborValue d p = (.ok (), q) := by
  simp only [readCborUint, cborReadUintValue, bind_ok_iff, ensure_ok_iff] at h
  obtain ⟨b, t, hb, _, _, ⟨hm, rfl⟩, ha⟩ := h
  obtain ⟨hd, rfl, h27, hat, -, rfl⟩ := cborHead_ok hb ha
  exact (skipShort_of_head h27 hat d.length).int (.inl hm)

/-- Where the GUID is read it is also skipped. -/
theorem readGuid_skips {guid : Bytes} (h : readGuid d p = (.ok guid, q)) : skipCborValue d p = (.ok (), q) := by
  simp only [readGuid, readCborBstr, readShortHead, bind_ok_iff, ensure_ok_iff, pure_ok_iff, take_ok_iff] at h
  obtain ⟨s, _, ⟨len, r, ⟨b, t, hb, _, t', ⟨hm, rfl⟩, ha⟩, hs, hlen, rfl⟩, _, _, ⟨-, rfl⟩, rfl, rfl⟩ := h
  obtain ⟨-, ha'⟩ := readCborUintArg_ok ha
  obtain ⟨hd, rfl, h27, hat, rfl, rfl⟩ := cborHead_ok hb ha'
  have hend := hs.end_le
  exact (skipShort_of_head h27 hat d.length).str (.inl hm) (.inr (by omega))

/-- Where the credentials are read ten values are also skipped. -/
theorem arrayCredentials_skips {c : FdoCredentials} (h : arrayCredentials d p = (.ok c, q)) :
    repeatN 10 (skipCborValue d) p = (.ok (), q) := by
  simp only [arrayCredentials, readMagic, bind_ok_iff, pure_ok_iff] at h
  obtain ⟨_, p₁, ⟨magic, _, hmagic, hens⟩, _, p₄, hthree, guid, p₅, hguid, _, p₈, hthree', dak, p₉, hdak, hmac, _, hhmac, -,
    rfl⟩ := h
  obtain ⟨-, rfl⟩ := ensure_ok_iff.1 hens
  have hone : ∀ {r t : Nat}, skipCborValue d r = (.ok (), t) → repeatN 1 (skipCborValue d) r = (.ok (), t) := by
    intro r t hr
    rw [repeatN_one, hr]
  have h4 : repeatN (1 + 3) (skipCborValue d) p = (.ok (), p₄) := by
    rw [repeatN_add_of_ok (hone (readCborUint_skips hmagic)), hthree]
  have h5 : repeatN (4 + 1) (skipCborValue d) p = (.ok (), p₅) := by
    rw [repeatN_add_of_ok h4, hone (readGuid_skips hguid)]
  have h8 : repeatN (5 + 3) (skipCborValue d) p = (.ok (), p₈) := by
    rw [repeatN_add_of_ok h5, hthree']
  have h9 : repeatN (8 + 1) (skipCborValue d) p = (.ok (), p₉) := by
    rw [repeatN_add_of_ok h8, hone (readCborUint_skips hdak)]
  have h10 : repeatN (9 + 1) (skipCborValue d) p = (.ok (), q) := by
    rw [repeatN_add_of_ok h9, hone (readCborUint_skips hhmac)]
  exact h10

/-! ## The head of the structure -/

/-- The head that is read has at most one byte behind the first. -/
theorem readNumItems_ok {m n : Nat} (h : readNumItems d p = (.ok (m, n), q)) :
    ∃ hd : Head, additional hd.initial < 25 ∧ At d p hd.bytes ∧ m = major hd.initial ∧ n = hd.arg ∧ q = p + hd.bytes.length := by
  have harg : ∃ b t, next d p = (.ok b, t) ∧ additional b < 25 ∧ m = major b ∧ cborReadUintArg d (additional b) t = (.ok n, q) := by
    rw [readNumItems] at h
    obtain ⟨b, t, hb, h⟩ := bind_ok_iff.1 h
    refine ⟨b, t, hb, ?_⟩
    unfold cborReadUintArg
    split_ifs at h with h24 h24'
    · obtain ⟨heq, rfl⟩ := pure_ok_iff.1 h
      obtain ⟨rfl, rfl⟩ := Prod.mk.inj heq
      rw [if_pos (by omega)]
      exact ⟨by omega, rfl, rfl⟩
    · obtain ⟨k, r, hk, h⟩ := bind_ok_iff.1 h
      obtain ⟨heq, rfl⟩ := pure_ok_iff.1 h
      obtain ⟨rfl, rfl⟩ := Prod.mk.inj heq
      rw [if_neg (by omega), if_pos h24', bind_of_ok hk]
      exact ⟨by omega, rfl, rfl⟩
    · simp at h
  obtain ⟨b, t, hb, h25, rfl, ha⟩ := harg
  obtain ⟨hd, rfl, -, hat, rfl, rfl⟩ := cborHead_ok hb ha
  exact ⟨hd, h25, hat, rfl, rfl, rfl⟩

/-- A head with an argument of one byte at most is read. -/
theorem readNumItems_of_head {hd : Head} (h25 : additional hd.initial < 25) (hat : At d p hd.bytes) :
    readNumItems d p = (.ok (major hd.initial, hd.arg), p + hd.bytes.length) := by
  have harg := cborReadUintArg_of_head (h := hd) (by omega) hat
  unfold cborReadUintArg at harg
  rw [readNumItems, bind_of_ok (next_of_head hat)]
  by_cases h24 : additional hd.initial < 24
  · rw [if_pos (by omega)] at harg
    obtain ⟨hv, hp⟩ := pure_ok_iff.1 harg
    rw [if_pos h24, hv, hp]
    rfl
  · have heq : additional hd.initial = 24 := by omega
    rw [if_neg (by omega), if_pos heq] at harg
    obtain ⟨k, r, hk, h⟩ := bind_ok_iff.1 harg
    obtain ⟨hv, hp⟩ := pure_ok_iff.1 h
    rw [if_neg h24, if_pos heq, bind_of_ok hk, hv, hp]
    rfl

end Tpm

end FdoUefi
