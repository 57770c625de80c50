import FdoUefi.Credentials
import FdoUefi.Lemmas.DiHeader
import FdoUefi.Lemmas.MinRevision

/-!
# Helpers about reading back the structure that DI builds

The pieces of a built structure, one after the other, and what the readers of `tpm.rs` and `rv_parse.rs` do at each of them.
-/

namespace FdoUefi

open Prog Prog.Run Cbor

namespace Tpm

variable {d : Bytes} {p q : Nat}

/-- What is stepped over within a depth of its length is stepped over by the routine. -/
theorem repeatN_skipCborValue {n : Nat} {u : Bytes} (hu : StepsOver skipCborValueTo n u) (hat : At d p u) :
    repeatN n (skipCborValue d) p = (.ok (), p + u.length) := by
  have hend := hat.end_le
  exact hu d p (d.length + 1) (by omega) hat

/-- What the skip routine has stepped over it steps over wherever it stands. -/
theorem stepsOver_of_skipped {d u : Bytes} {p : Nat} (hat : At d p u) (h : skipCborValue d p = (.ok (), p + u.length)) :
    StepsOver skipCborValueTo 1 u := stepsOver_of_end hat h

/-- Items without half floats are stepped over. -/
theorem stepsOver_of_noShortFloat {n : Nat} {u : Bytes} (hu : Items Head.NoShortFloat n u) : StepsOver skipCborValueTo n u := by
  refine stepsOver_of_items (fun _ hp => hp.1) (fun hd hp h7 => ?_) hu
  have h27 : additional hd.initial < 27 := hp.1
  have hno := hp.2 h7
  rw [if_neg hno.1, if_neg hno.2, if_neg (by omega)]

/-- A number with a short head is read. -/
theorem readCborUint_of_head {hd : Head} (hat : At d p hd.bytes) (hm : hd.IsMajor 0) (hshort : hd.Short) :
    readCborUint d p = (.ok hd.arg, p + hd.bytes.length) := by
  have hm' : major hd.initial = 0 := hm
  unfold readCborUint cborReadUintValue
  rw [bind_of_ok (next_of_head hat), ensure_of_true _ hm', bind_of_ok (pure_apply () _), cborReadUintArg_of_head hshort hat]

/-- The magic is read. -/
theorem readMagic_of_magic (hat : At d p [0x1a, 0x46, 0x44, 0x4f, 0x31]) : readMagic d p = (.ok (), p + 5) := by
  obtain ⟨hd, hm, hshort, harg, hbytes⟩ : ∃ hd : Head, hd.IsMajor 0 ∧ hd.Short ∧ hd.arg = dctpmMagic ∧
      hd.bytes = [0x1a, 0x46, 0x44, 0x4f, 0x31] :=
    ⟨⟨0x1a, [0x46, 0x44, 0x4f, 0x31], by decide, .inl (by decide)⟩, (by decide : major 0x1a = 0),
      (by decide : additional 0x1a < 27), (by decide : argVal (additional 0x1a) [0x46, 0x44, 0x4f, 0x31] = dctpmMagic), rfl⟩
  rw [← hbytes] at hat
  unfold readMagic
  rw [bind_of_ok (readCborUint_of_head hat hm hshort), ensure_of_true _ harg, hbytes]
  rfl

/-- A handle is read. -/
theorem readCborUint_handleItem {n : Nat} (hn : n < 2 ^ 32) (hat : At d p (Di.handleItem n)) :
    readCborUint d p = (.ok n, p + (Di.handleItem n).length) := by
  have ht : (beBytes 4 n).length = extLen (additional 0x1a) := by
    rw [beBytes_length]
    decide
  have hval : argVal (additional 0x1a) (beBytes 4 n) = n := by
    rw [argVal, if_neg (by decide), beNat_beBytes (by omega)]
  obtain ⟨hd, hm, hshort, harg, hbytes⟩ : ∃ hd : Head, hd.IsMajor 0 ∧ hd.Short ∧ hd.arg = n ∧ hd.bytes = Di.handleItem n :=
    ⟨⟨0x1a, beBytes 4 n, ht, .inl (by decide)⟩, (by decide : major 0x1a = 0), (by decide : additional 0x1a < 27), hval, rfl⟩
  rw [← hbytes] at hat ⊢
  rw [readCborUint_of_head hat hm hshort, harg]

/-- An argument of at most two bytes is read as one of at most four. -/
theorem readCborUintArg_ok {ai v : Nat} (h : readCborUintArg d ai p = (.ok v, q)) :
    ai < 26 ∧ cborReadUintArg d ai p = (.ok v, q) := by
  unfold readCborUintArg at h
  unfold cborReadUintArg
  by_cases h24 : ai < 24
  · rw [if_pos h24] at h
    rw [if_pos (by omega)]
    exact ⟨by omega, h⟩
  · rw [if_neg h24] at h
    rw [if_neg (by omega)]
    by_cases h24' : ai = 24
    · rw [if_pos h24'] at h ⊢
      exact ⟨by omega, h⟩
    · rw [if_neg h24'] at h ⊢
      by_cases h25 : ai = 25
      · rw [if_pos h25] at h ⊢
        exact ⟨by omega, h⟩
      · rw [if_neg h25] at h
        simp at h

/-- The GUID that is read is the content of a byte string whose head has at most three bytes. -/
theorem readGuid_ok {guid : Bytes} (h : readGuid d p = (.ok guid, q)) :
    ∃ hd : Head, hd.IsMajor 2 ∧ At d p hd.bytes ∧ hd.bytes.length ≤ 3 ∧ hd.arg = 16 := by
  simp only [readGuid, readCborBstr, readShortHead, bind_ok_iff, ensure_ok_iff, pure_ok_iff, take_ok_iff] at h
  obtain ⟨s, _, ⟨len, r, ⟨b, t, hb, _, t', ⟨hm, rfl⟩, ha⟩, -, hlen, rfl⟩, _, _, ⟨h16, rfl⟩, rfl, rfl⟩ := h
  obtain ⟨h26, ha'⟩ := readCborUintArg_ok ha
  obtain ⟨hd, rfl, -, hat, rfl, rfl⟩ := cborHead_ok hb ha'
  refine ⟨hd, hm, hat, ?_, hlen.symm.trans h16⟩
  rw [hd.bytes_length]
  unfold extLen
  split <;> omega

/-- A GUID that stands there is read. -/
theorem readGuid_of_guid {guid : Bytes} (hlen : guid.length = 16) (hat : At d p (0x50 :: [] ++ guid)) :
    readGuid d p = (.ok guid, p + (0x50 :: [] ++ guid).length) := by
  obtain ⟨hhead, hguid⟩ := at_append_iff.1 (show At d p ([0x50] ++ guid) from hat)
  have harg : readCborUintArg d (additional 0x50) (p + 1) = (.ok 16, p + 1) := rfl
  have htake : take d 16 (p + 1) = (.ok guid, p + 1 + 16) := take_ok_iff.2 ⟨hguid, hlen, rfl⟩
  unfold readGuid readCborBstr readShortHead
  simp only [bind_assoc]
  rw [bind_of_ok (next_ok_iff.2 ⟨hhead, rfl⟩), ensure_of_true _ (by decide), bind_of_ok (pure_apply () _), bind_of_ok harg,
    bind_of_ok htake, ensure_of_true _ hlen, bind_of_ok (pure_apply () _)]
  simp [hlen]

end Tpm

namespace Rv

/-- Items with short heads are stepped over. -/
theorem stepsOver_of_short {n : Nat} {u : Bytes} (hu : Items Head.Short n u) : StepsOver skipCborValueTo n u :=
  stepsOver_of_items (fun _ hp => hp) (fun _ _ _ => rfl) hu

end Rv

end FdoUefi
