import FdoUefi.Lemmas.TpmNv
import FdoUefi.Theorems.TpmRefinement

/-!
# Indices that are too large to be read

`tpm_nv_read` has a buffer of 1024 bytes for the response, and a response with more than 1003 bytes of data does not fit. Such an index
can be written, and no read of it ever succeeds.
-/

namespace FdoUefi

open Prog Prog.Run WireCallsAux TpmParsersAux

namespace TpmNvLimitAux

/-- A loop that submits a command ends with an error, or with a response that a submission has returned; what every submission
keeps is kept by the loop. -/
theorem submitLoop_inv {σ : Type} {T : Tcg σ} {cmd : Bytes} {n : Nat} {I : σ → Prop} {B : Bytes → Prop}
    (hstep : ∀ s, I s → I (T.submit cmd n s).2 ∧ ∀ b, (T.submit cmd n s).1 = some b → unpackAt b 6 10 = .ok 0 → B b) (hn : 10 ≤ n)
    (k : Nat) {s : σ} (hs : I s) :
    (∃ b u, T.submitLoop cmd n k s = (.ok b, u) ∧ B b ∧ I u) ∨ ∃ e u, T.submitLoop cmd n k s = (.err e, u) ∧ I u := by
  induction k generalizing s with
  | zero => exact .inr ⟨_, s, rfl, hs⟩
  | succ k ih =>
    obtain ⟨hkeep, hresponse⟩ := hstep s hs
    have hfirst : (T.submitCommand cmd n : Run σ Nat _) s = (.ok (T.submit cmd n s).1, (T.submit cmd n s).2) := rfl
    rw [Tcg.submitLoop, bind_of_ok hfirst]
    cases hsub : (T.submit cmd n s).1 with
    | none => exact ih hkeep
    | some b =>
      have hlen : b.length = n := T.submit_length cmd n s b hsub
      obtain ⟨u, hu, hulen⟩ := exists_at (d := b) (p := 6) (n := 4) (by omega)
      have hcode : unpackAt b 6 10 = .ok (beNat u) := unpackAt_ok_iff.2 ⟨u, hu, by omega, rfl⟩
      dsimp only
      rw [ensure_of_true _ (hlen ▸ hn), pure_bind, parsed_ok hcode, pure_bind]
      by_cases hretry : beNat u = rcRetry
      · rw [if_pos hretry]
        exact ih hkeep
      · rw [if_neg hretry]
        by_cases hzero : beNat u = 0
        · rw [if_neg (not_not.2 hzero)]
          exact .inl ⟨b, _, rfl, hresponse b hsub (by rw [hcode, hzero]), hkeep⟩
        · rw [if_pos hzero]
          exact .inr ⟨_, _, rfl, hkeep⟩

variable {W : WireDevice} {cmd : Bytes} {c : TpmCommand} {n : Nat} {t : Tpm}

/-- A response whose code is zero is the answer of the TPM to the command. -/
theorem submit_some {b : Bytes} (hc : readCommand cmd = some c) (h : (W.tcg.submit cmd n t).1 = some b) (hzero : unpackAt b 6 10 = .ok 0) :
    ∃ r, (t.execute W.toTpmDevice c).1 = .ok r ∧ WireDevice.buffer n (W.respond t c r) = some b := by
  have hnot {code : Nat} (hcode : code ≠ 0 ∧ code < 2 ^ 32) (hb : WireDevice.buffer n (reply 0x8001 code []) = some b) : False := by
    have hunpack := (unpack_code hcode.2 hb).2
    rw [hzero] at hunpack
    cases hunpack
    exact hcode.1 rfl
  have hran (hb : WireDevice.buffer n (W.executeBytes t cmd).1 = some b) :
      ∃ r, (t.execute W.toTpmDevice c).1 = .ok r ∧ WireDevice.buffer n (W.respond t c r) = some b := by
    have hcases := execute_cases W.toTpmDevice t c
    rw [WireDevice.executeBytes, hc] at hb
    dsimp only at hb
    generalize t.execute W.toTpmDevice c = ran at hcases hb ⊢
    cases hcases with
    | refused hcode => exact (hnot hcode hb).elim
    | answered _ _ => exact ⟨_, rfl, hb⟩
  have hrefused := W.answer_refused_lt t.submissions
  change (W.submit cmd n t).1 = some b at h
  rw [WireDevice.submit] at h
  dsimp only at h
  cases hans : W.answer t.submissions with
  | run =>
    rw [hans] at h
    exact hran h
  | garbled =>
    rw [hans] at h
    exact hran h
  | refused rc hrc =>
    rw [hans] at h
    exact (hnot ⟨hrc, hrefused rc hrc hans⟩ h).elim
  | lost ran =>
    rw [hans] at h
    cases ran with
    | true => cases h
    | false => cases h

/-- A command that changes nothing leaves every index as it is. -/
theorem submit_nv (hc : readCommand cmd = some c) (hstill : (t.execute W.toTpmDevice c).2 = t) : (W.tcg.submit cmd n t).2.nv = t.nv := by
  have hran : (W.executeBytes t cmd).2 = t := by
    have hcases := execute_cases W.toTpmDevice t c
    rw [WireDevice.executeBytes, hc]
    dsimp only
    generalize t.execute W.toTpmDevice c = ran at hcases hstill ⊢
    cases hcases with
    | refused _ => rfl
    | answered _ _ => exact hstill
  change (W.submit cmd n t).2.nv = t.nv
  rw [WireDevice.submit]
  dsimp only
  rw [hran]
  cases W.answer t.submissions with
  | run => rfl
  | garbled => rfl
  | refused _ _ => rfl
  | lost ran =>
    cases ran with
    | true => rfl
    | false => rfl

variable {index : Nat} {i : NvIndex}

/-- The size of an index is read back. -/
theorem readPublic_step (h : index < 2 ^ 32) (s : Tpm) (hs : s.nv index = some i) :
    (W.tcg.submit (buildNvReadPublicCmd index) 512 s).2.nv index = some i ∧
      ∀ b, (W.tcg.submit (buildNvReadPublicCmd index) 512 s).1 = some b → unpackAt b 6 10 = .ok 0 →
        parseNvReadPublicResponse b = .ok i.data.length := by
  have hc : readCommand (buildNvReadPublicCmd index) = some (.nvReadPublic index) := readCommand_bytes (c := .nvReadPublic index) h
  constructor
  · rw [submit_nv hc (execute_nvReadPublic_still index s), hs]
  · intro b hb hzero
    obtain ⟨r, hr, hbuffer⟩ := submit_some hc hb hzero
    have hanswers : Answers W.toTpmDevice s (.nvReadPublic index) r := by
      simp only [Tpm.execute, hs, Except.ok.injEq] at hr
      exact ⟨i, hs, hr.symm⟩
    obtain ⟨size, -, hsize, hparse⟩ := answered_nvReadPublic (by exact le_rfl) hanswers hbuffer
    obtain ⟨j, hj, rfl⟩ := hanswers
    obtain rfl : i = j := Option.some.inj (hs.symm.trans hj)
    cases hsize
    exact hparse

/-- All of a large index does not come back. -/
theorem read_step (h : index < 2 ^ 32) (hlarge : readableMax < i.data.length) (s : Tpm) (hs : s.nv index = some i) :
    (W.tcg.submit (buildNvReadCmd index i.data.length 0) 1024 s).2.nv index = some i ∧
      ∀ b, (W.tcg.submit (buildNvReadCmd index i.data.length 0) 1024 s).1 = some b → unpackAt b 6 10 = .ok 0 → False := by
  have hc : readCommand (buildNvReadCmd index i.data.length 0) = some (.nvRead index i.data.length) :=
    readCommand_bytes (c := .nvRead index i.data.length) ⟨h, i.small⟩
  constructor
  · rw [submit_nv hc (execute_nvRead_still index i.data.length s), hs]
  · intro b hb hzero
    obtain ⟨r, hr, hbuffer⟩ := submit_some hc hb hzero
    have hr' : r = .data (some i.data) := by
      simp only [Tpm.execute, hs, List.take_length] at hr
      split_ifs at hr
      exact (Except.ok.inj hr).symm
    subst hr'
    have hlen : (W.respond s (.nvRead index i.data.length) (.data (some i.data))).length ≤ 1024 := by
      by_contra hnot
      rw [WireDevice.buffer, if_neg hnot] at hbuffer
      cases hbuffer
    simp [WireDevice.respond] at hlen
    rw [readableMax] at hlarge
    omega

end TpmNvLimitAux

open TpmNvLimitAux

/-- An index with more than 1003 bytes of data is never read, whatever becomes of the commands. -/
theorem tpmNvRead_of_large (W : WireDevice) (t : Tpm) (index : Nat) (i : NvIndex) (h : index < 2 ^ 32) (hi : t.nv index = some i)
    (hlarge : readableMax < i.data.length) : (W.tcg.tpmNvRead index t).1 = .err () := by
  rw [Tcg.tpmNvRead]
  cases hopen : (W.tcg.opens t).1 with
  | false =>
    have herr : W.tcg.openTcg t = (.err (), (W.tcg.opens t).2) := by simp [Tcg.openTcg, hopen]
    rw [bind_of_err herr]
  | true =>
    have hok : W.tcg.openTcg t = (.ok (), (W.tcg.opens t).2) := by simp [Tcg.openTcg, hopen]
    have hi' : (W.tcg.opens t).2.nv index = some i := hi
    rw [bind_of_ok hok]
    rcases submitLoop_inv (readPublic_step (W := W) h) (by decide) tpmRetryMax hi' with ⟨b, u, hloop, hsize, hu⟩ | ⟨e, u, hloop, -⟩
    · have hsubmit : W.tcg.tpmSubmit (buildNvReadPublicCmd index) 512 (W.tcg.opens t).2 = (.ok b, u) := mapErr_ok_iff.2 hloop
      rw [bind_of_ok hsubmit, parsed_ok hsize, pure_bind]
      rcases submitLoop_inv (read_step (W := W) h hlarge) (by decide) tpmRetryMax hu with ⟨b', u', -, hfalse, -⟩ | ⟨e, u', hloop', -⟩
      · exact hfalse.elim
      · have herr : W.tcg.tpmSubmit (buildNvReadCmd index i.data.length 0) 1024 u = (.err (), u') := mapErr_err_iff.2 ⟨e, hloop', rfl⟩
        rw [bind_of_err herr]
    · have herr : W.tcg.tpmSubmit (buildNvReadPublicCmd index) 512 (W.tcg.opens t).2 = (.err (), u) := mapErr_err_iff.2 ⟨e, hloop, rfl⟩
      rw [bind_of_err herr]

/-- An index of 1004 bytes. -/
def largeIndex : NvIndex where
  attributes := 0
  data := List.replicate 1004 0
  written := true
  small := by
    rw [List.length_replicate]
    decide

/-- The sample index is not read. -/
theorem largeIndex_unread :
    (obligingDevice.tcg.tpmNvRead 0x01D10001 { threeByteTpm with nv := fun _ => some largeIndex }).1 = .err () :=
  tpmNvRead_of_large obligingDevice _ 0x01D10001 largeIndex (by decide) rfl (by
    rw [largeIndex, List.length_replicate]
    decide)

end FdoUefi
