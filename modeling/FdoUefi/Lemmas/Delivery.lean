import FdoUefi.Delivery
import FdoUefi.Lib.Trace
import FdoUefi.Lemmas.Dctpm
import FdoUefi.Lemmas.Di
import FdoUefi.Lib.Yields

/-!
# Helpers about the delivery of firmware and its counter

Raising the counter either leaves the index as it is, for a reason that is named, or writes a structure that holds the new
revision (`updateFirmwareRevCounter_cases`). A boot whose reads and writes all succeed chain-loads nothing and leaves the index as it
is, or chain-loads one image that is not older than the counter (`checkAndDeliver_cases`).
-/

namespace FdoUefi

open Prog Prog.Run Tpm

/-- The counter of a DCTPM, 0 where it cannot be read. -/
def counterOf (d : Bytes) : Nat := (Dctpm.minFirmwareRev d).toOption.getD 0

/-- The counter of an index that can be read is what is read. -/
theorem counterOf_of_ok {d : Bytes} {v : Nat} (h : Dctpm.minFirmwareRev d = .ok v) : counterOf d = v := by
  rw [counterOf, h]
  rfl

variable {D : TpmDevice}

/-! ## Raising the counter -/

/-- Writing the updated index is a write of that index only. -/
theorem writeUpdated_affects (data updated : Bytes) : Affects id (DataSteps dctpmNvIndex) (writeUpdated D data updated) := by
  unfold writeUpdated
  split_ifs
  · exact tpmNvWriteInPlace_affects _
  · exact tpmNvWrite_affects _ _

/-- A structure that was written stands at the start of the index. -/
theorem writeUpdated_cases (data updated : Bytes) (t : Tpm) :
    (∃ u z, writeUpdated D data updated t = (.ok (), u) ∧ u.content dctpmNvIndex = some (updated ++ z)) ∨
      t.failedWrites < (writeUpdated D data updated t).2.failedWrites := by
  unfold writeUpdated
  split_ifs
  · rcases cases_of_returns (tpmNvWriteInPlace_returns (D := D)
        (updated ++ List.replicate (data.length - updated.length) 0) t) with ⟨_, u, h⟩ | ⟨_, u, h⟩
    · obtain ⟨tail, htail⟩ := tpmNvWriteInPlace_ok h
      exact .inl ⟨u, _, h, by rw [htail, List.append_assoc]⟩
    · rw [h]
      exact .inr (tpmNvWriteInPlace_err h)
  · rcases cases_of_returns (tpmNvWrite_returns (D := D) (dctpmPadded updated) dctpmNvAttributes t) with
      ⟨_, u, h⟩ | ⟨_, u, h⟩
    · obtain ⟨tail, htail⟩ := tpmNvWrite_ok h
      exact .inl ⟨u, _, h, by rw [htail, dctpmPadded, List.append_assoc]⟩
    · rw [h]
      exact .inr (tpmNvWrite_err h)

/-- Reading an index: the content, or a failure that is counted. -/
theorem tpmNvRead_cases (index : Nat) (t : Tpm) :
    (∃ d n, t.content index = some d ∧ tpmNvRead D index t = (.ok d, t.counted n)) ∨
      ∃ u, tpmNvRead D index t = (.err (), u) ∧ u.content index = t.content index ∧ t.failedReads < u.failedReads := by
  rcases cases_of_returns (tpmNvRead_returns (D := D) index t) with ⟨d, u, h⟩ | ⟨e, u, h⟩
  · obtain ⟨hd, n, rfl⟩ := tpmNvRead_ok h
    exact .inl ⟨d, n, hd, h⟩
  · have hc := (tpmNvRead_affects (D := D) index).changes_nil t
    rw [h] at hc
    exact .inr ⟨u, h, hc.data index, tpmNvRead_err h⟩

/-- Everything that raising the counter can do to the index. -/
theorem updateFirmwareRevCounter_cases (rev : Nat) (t : Tpm) :
    (updateFirmwareRevCounter D rev t).2.content dctpmNvIndex = t.content dctpmNvIndex ∧
        (rev = 0 ∨ t.failedReads < (updateFirmwareRevCounter D rev t).2.failedReads ∨
          ∃ d, t.content dctpmNvIndex = some d ∧ (rev ≤ counterOf d ∨ ∀ o, Dctpm.withMinFirmwareRev d rev ≠ .ok o)) ∨
      t.failedWrites < (updateFirmwareRevCounter D rev t).2.failedWrites ∨
      ∃ d o z u, t.content dctpmNvIndex = some d ∧ counterOf d < rev ∧ Dctpm.withMinFirmwareRev d rev = .ok o ∧
        updateFirmwareRevCounter D rev t = (.ok (), u) ∧ u.content dctpmNvIndex = some (o ++ z) := by
  unfold updateFirmwareRevCounter
  by_cases hzero : rev = 0
  · rw [if_pos hzero]
    exact .inl ⟨rfl, .inl hzero⟩
  rw [if_neg hzero]
  rcases tpmNvRead_cases (D := D) dctpmNvIndex t with ⟨d, n, hd, hread⟩ | ⟨u, hread, hcontent, hfailed⟩
  · rw [bind_of_ok hread]
    by_cases hle : rev ≤ counterOf d
    · rw [counterOf] at hle
      simp only [if_pos hle]
      exact .inl ⟨rfl, .inr (.inr ⟨d, hd, .inl hle⟩)⟩
    · have hlt : ¬rev ≤ (Dctpm.minFirmwareRev d).toOption.getD 0 := hle
      simp only [if_neg hlt]
      have hfail : (∀ o, Dctpm.withMinFirmwareRev d rev ≠ .ok o) →
          ((ofOutcome (Dctpm.withMinFirmwareRev d rev) >>= fun updated => writeUpdated D d updated) (t.counted n)).2 =
            t.counted n := by
        intro hno
        rcases hw : Dctpm.withMinFirmwareRev d rev with o | e | _ | _
        · exact absurd hw (hno o)
        all_goals rfl
      by_cases hex : ∃ o, Dctpm.withMinFirmwareRev d rev = .ok o
      · obtain ⟨o, ho⟩ := hex
        rw [bind_of_ok (ofOutcome_ok_iff.2 ⟨ho, rfl⟩)]
        rcases writeUpdated_cases (D := D) d o (t.counted n) with ⟨u, z, hu, hz⟩ | hfailed
        · exact .inr (.inr ⟨d, o, z, u, hd, by omega, ho, hu, hz⟩)
        · exact .inr (.inl hfailed)
      · push Not at hex
        rw [hfail hex]
        exact .inl ⟨rfl, .inr (.inr ⟨d, hd, .inr hex⟩)⟩
  · rw [bind_of_err hread]
    exact .inl ⟨hcontent, .inr (.inl hfailed)⟩

/-! ## The parts of a boot -/

/-- Any effects. -/
abbrev AnyEffects : List TpmEffect → Prop := fun _ => True

/-- What affects the TPM somehow affects it. -/
theorem Affects.any {σ ε α : Type} {part : σ → Tpm} {P : List TpmEffect → Prop} {m : Run σ ε α} (h : Affects part P m) :
    Affects part AnyEffects m := h.mono fun _ _ => trivial

/-- Two steps that affect the TPM somehow do so one after the other. -/
theorem Affects.bind_any {σ ε α β : Type} {part : σ → Tpm} {m : Run σ ε α} {f : α → Run σ ε β} (hm : Affects part AnyEffects m)
    (hf : ∀ a, Affects part AnyEffects (f a)) : Affects part AnyEffects (m >>= f) := (hm.bind hf trivial).any

/-- What has been counted in the first part of a sequence stays counted. -/
theorem bind_failed_le {ε α β : Type} {m : Run Machine ε α} {f : α → Run Machine ε β} (s : Machine)
    (hf : ∀ a, Affects Machine.tpm AnyEffects (f a)) :
    (m s).2.tpm.failedReads ≤ ((m >>= f) s).2.tpm.failedReads ∧ (m s).2.tpm.failedWrites ≤ ((m >>= f) s).2.tpm.failedWrites := by
  rcases bind_cases m f s with ⟨a, t, hm, heq⟩ | ⟨heq, -⟩
  · obtain ⟨es, hc, -⟩ := hf a t
    rw [heq, hm]
    exact ⟨hc.failedReads, hc.failedWrites⟩
  · rw [heq]
    exact ⟨le_rfl, le_rfl⟩

namespace Delivery

variable {Γ : Ctx} {boot : Boot} {s : Machine}

/-- A call of the TPM in a delivery affects it as it does alone. -/
theorem askTpm_affects {α : Type} {m : TpmRun α} {P : List TpmEffect → Prop} (h : Affects id P m) :
    Affects Machine.tpm AnyEffects (askTpm m) := h.attempt.onTpm.any

/-- A call of the TPM in a delivery leaves the TPM that it leaves alone. -/
theorem askTpm_snd {α : Type} (m : TpmRun α) (s : Machine) : (askTpm m s).2.tpm = (m s.tpm).2 := attempt_snd m s.tpm

/-- The TPM chain-loads nothing. -/
theorem askTpm_emits {α : Type} (m : TpmRun α) : Emits Machine.chainloaded (fun _ => False) (askTpm m) := .still fun _ => rfl

/-- The attempts at DI affect the TPM somehow. -/
theorem diAttempts_affects (n : Nat) : Affects Machine.tpm AnyEffects (diAttempts Γ D boot n) := by
  induction n with
  | zero => exact .still (fun _ => rfl) trivial
  | succ n ih =>
    refine (Di.runDiProtocol_affects _ none).caught.any.bind_any fun r => ?_
    rcases r with e | u
    · cases e
      · exact .still (fun _ => rfl) trivial
      · exact ih
      · exact ih
    · exact .still (fun _ => rfl) trivial

/-- Giving up for want of a value leaves the TPM alone. -/
theorem orFail_still {α : Type} (o : Option α) (s : Machine) :
    ((orFail o .noUpdate : Delivery α) s).2.tpm = s.tpm := by
  cases o <;> rfl

/-- The search for a firmware server affects the TPM somehow. -/
theorem findFirmware_affects : Affects Machine.tpm AnyEffects (findFirmware D) := by
  refine (askTpm_affects (tpmNvRead_affects dctpmNvIndex)).bind_any fun data => ?_
  refine Affects.bind_still (orFail_still data) (fun dctpm => ?_) trivial
  refine Affects.bind_still (fun _ => rfl) (fun info => ?_) trivial
  exact Affects.bind_still (orFail_still info.firmwareUrl) (fun url => .still (fun _ => rfl) trivial) trivial

/-- Fetching an image changes nothing on the machine. -/
theorem fetchFirmware_still (url : Bytes) (s : Machine) : (fetchFirmware Γ boot url s).2 = s := by
  unfold fetchFirmware
  cases hget : boot.get url with
  | none => rfl
  | some signedData =>
    rw [bind_of_ok (orFail_ok_iff.2 ⟨rfl, rfl⟩)]
    rcases (Fw.verifyFirmware Γ boot.fuel signedData Cur.start).1 with r | e | _ | _
    · cases r <;> rfl
    · cases e
    · rfl
    · rfl

/-- The check of the revision leaves the TPM untouched. -/
theorem checkFirmwareRev_affects (rev : Nat) (rvMinRev : Option Nat) :
    Affects id Untouched (checkFirmwareRev D rev rvMinRev) := by
  refine Affects.then_still (Affects.then_still (tpmNvRead_affects dctpmNvIndex).attempt fun o s => ?_) fun _ _ => rfl
  cases o <;> rfl

/-- Ratcheting the counter affects the TPM somehow. -/
theorem updateFirmwareRevCounter_affects (rev : Nat) : Affects id AnyEffects (updateFirmwareRevCounter D rev) := by
  unfold updateFirmwareRevCounter
  split_ifs
  · exact .still (fun _ => rfl) trivial
  · refine (tpmNvRead_affects dctpmNvIndex).any.bind_any fun data => ?_
    dsimp only
    split_ifs
    · exact .still (fun _ => rfl) trivial
    · exact Affects.bind_still (fun _ => rfl) (fun updated => (writeUpdated_affects data updated).any) trivial

/-- What comes after the check of a revision. -/
theorem afterCheck_affects (payload : Fw.FirmwarePayload) (accepted : Option Bool) :
    Affects Machine.tpm AnyEffects (do
      ensure (accepted = some true) .error
      onlyIf (0 < payload.firmwareRev) (do
        let _ ← askTpm (updateFirmwareRevCounter D payload.firmwareRev)) : Delivery Unit) := by
  refine Affects.bind_still (fun s => ?_) (fun _ => ?_) trivial
  · simp only [Run.ensure]
    split_ifs <;> rfl
  · unfold onlyIf
    split_ifs
    · exact (askTpm_affects (updateFirmwareRevCounter_affects _)).then_still fun _ _ => rfl
    · exact .still (fun _ => rfl) trivial

/-- A chain-load is recorded and leaves the rest of the machine alone. -/
theorem chainloadImage_still (payload : Fw.FirmwarePayload) (image : Bytes) (s : Machine) :
    (chainloadImage boot payload image s).2 = { s with chainloaded := s.chainloaded ++ [(payload, image)] } := by
  simp only [chainloadImage, bind_def, andThen, modifyS, Run.ensure]
  split_ifs <;> rfl

/-- The check against a rollback affects the TPM somehow. -/
theorem checkRollback_affects (payload : Fw.FirmwarePayload) (info : Rv.RvFirmwareInfo) :
    Affects Machine.tpm AnyEffects (checkRollback D payload info) :=
  (askTpm_affects (checkFirmwareRev_affects _ _)).bind_any fun accepted => afterCheck_affects payload accepted

/-- What comes after the firmware has been found. -/
def afterFind (Γ : Ctx) (D : TpmDevice) (boot : Boot) (found : Rv.RvFirmwareInfo × Bytes) : Delivery Unit := do
  let (payload, image) ← fetchFirmware Γ boot found.2
  checkRollback D payload found.1
  chainloadImage boot payload image

/-- A delivery is a possible DI, the search for a server, and what follows it. -/
theorem deliver_eq : deliver Γ D boot = onlyIf (boot.di = true) (diIfBlank Γ D boot) >>= fun _ =>
    findFirmware D >>= afterFind Γ D boot := rfl

/-- What follows the search affects the TPM somehow. -/
theorem afterFind_affects (found : Rv.RvFirmwareInfo × Bytes) : Affects Machine.tpm AnyEffects (afterFind Γ D boot found) := by
  refine Affects.bind_still (fun s => congrArg Machine.tpm (fetchFirmware_still _ s)) (fun r => ?_) trivial
  refine (checkRollback_affects r.1 found.1).bind_any fun _ => ?_
  exact .still (fun s => by rw [chainloadImage_still]) trivial

/-! ## A boot whose reads and writes succeed -/

/-- Nothing has changed but the number of submissions. -/
def Quiet (s u : Machine) : Prop := ∃ n, u = { s with tpm := s.tpm.counted n }

/-- Doing nothing is quiet. -/
theorem Quiet.refl (s : Machine) : Quiet s s := ⟨s.tpm.submissions, rfl⟩

/-- The index as the boot sees it, or a failure that is counted. -/
theorem readIndex_cases (s : Machine) :
    (∃ d u, s.tpm.content dctpmNvIndex = some d ∧ askTpm (tpmNvRead D dctpmNvIndex) s = (.ok (some d), u) ∧ Quiet s u) ∨
      ∃ u, askTpm (tpmNvRead D dctpmNvIndex) s = (.ok none, u) ∧ s.tpm.failedReads < u.tpm.failedReads := by
  rcases tpmNvRead_cases (D := D) dctpmNvIndex s.tpm with ⟨d, n, hd, h⟩ | ⟨u, h, -, hlt⟩
  · exact .inl ⟨d, _, hd, onTpm_ok_iff.2 ⟨_, attempt_ok_iff.2 (.inl ⟨d, rfl, h⟩), rfl⟩, n, rfl⟩
  · exact .inr ⟨{ s with tpm := u }, onTpm_ok_iff.2 ⟨u, attempt_ok_iff.2 (.inr ⟨rfl, (), h⟩), rfl⟩, hlt⟩

/-- A device whose index can be read does not run DI. -/
theorem diIfBlank_cases (s : Machine) :
    (∃ u, onlyIf (boot.di = true) (diIfBlank Γ D boot) s = (.ok (), u) ∧ Quiet s u) ∨
      s.tpm.failedReads < (onlyIf (boot.di = true) (diIfBlank Γ D boot) s).2.tpm.failedReads := by
  unfold onlyIf
  split_ifs
  · rcases readIndex_cases (D := D) s with ⟨d, u, -, hread, hq⟩ | ⟨u, hread, hlt⟩
    · exact .inl ⟨u, by rw [diIfBlank, bind_of_ok hread]; rfl, hq⟩
    · obtain ⟨es, hc, -⟩ := diAttempts_affects (Γ := Γ) (D := D) 3 u
      right
      rw [diIfBlank, bind_of_ok hread]
      exact hlt.trans_le hc.failedReads
  · exact .inl ⟨s, rfl, .refl s⟩

/-- The firmware is looked for in the content of the index. -/
theorem findFirmware_cases (s : Machine) :
    (Quiet s (findFirmware D s).2 ∧ ∀ info url, (findFirmware D s).1 = .ok (info, url) →
      ∃ d, s.tpm.content dctpmNvIndex = some d ∧ Rv.parseRvFirmwareInfo d = .ok info ∧ info.firmwareUrl = some url) ∨
      s.tpm.failedReads < (findFirmware D s).2.tpm.failedReads := by
  unfold findFirmware
  rcases readIndex_cases (D := D) s with ⟨d, u, hd, hread, hq⟩ | ⟨u, hread, hlt⟩
  · rw [bind_of_ok hread, bind_of_ok (orFail_ok_iff.2 ⟨rfl, rfl⟩)]
    refine .inl ⟨?_, fun info url hok => ?_⟩
    · rcases hp : (Rv.parseRvFirmwareInfo d).noneAs DeliveryResult.noUpdate with info | _ | _ | _
      · rw [bind_of_ok (ofOutcome_ok_iff.2 ⟨rfl, rfl⟩)]
        cases info.firmwareUrl <;> exact hq
      all_goals exact hq
    · simp only [bind_fst_ok_iff, ofOutcome_ok_iff, orFail_ok_iff, Outcome.noneAs_ok_iff] at hok
      obtain ⟨info', _, ⟨hparse, rfl⟩, url', _, ⟨hurl, rfl⟩, heq⟩ := hok
      obtain ⟨rfl, rfl⟩ := Prod.mk.inj (Outcome.ok.inj heq)
      exact ⟨d, hd, hparse, hurl⟩
  · right
    rw [bind_of_ok hread]
    exact hlt

/-- A revision is accepted when it is at least the counter. -/
theorem checkFirmwareRev_cases (rev : Nat) (rvMinRev : Option Nat) (s : Machine) :
    (∃ d b u, s.tpm.content dctpmNvIndex = some d ∧ askTpm (checkFirmwareRev D rev rvMinRev) s = (.ok (some b), u) ∧ Quiet s u ∧
      (b = true → counterOf d ≤ rev)) ∨
      s.tpm.failedReads < (askTpm (checkFirmwareRev D rev rvMinRev) s).2.tpm.failedReads := by
  rcases tpmNvRead_cases (D := D) dctpmNvIndex s.tpm with ⟨d, n, hd, h⟩ | ⟨u, h, -, hlt⟩
  · have hcounter : readFirmwareRevCounter D s.tpm = (.ok (counterOf d), s.tpm.counted n) := by
      rw [readFirmwareRevCounter, bind_of_ok (attempt_ok_iff.2 (.inl ⟨d, rfl, h⟩))]
      rfl
    have hcheck : checkFirmwareRev D rev rvMinRev s.tpm = (.ok (max (counterOf d) (rvMinRev.getD 0) = 0 ||
        max (counterOf d) (rvMinRev.getD 0) ≤ rev), s.tpm.counted n) := by
      rw [checkFirmwareRev, bind_of_ok hcounter]
      rfl
    refine .inl ⟨d, _, _, hd, onTpm_ok_iff.2 ⟨_, attempt_ok_iff.2 (.inl ⟨_, rfl, hcheck⟩), rfl⟩, ⟨n, rfl⟩, fun hb => ?_⟩
    simp only [Bool.or_eq_true, decide_eq_true_eq] at hb
    omega
  · have hcounter : readFirmwareRevCounter D s.tpm = (.ok 0, u) := by
      rw [readFirmwareRevCounter, bind_of_ok (attempt_ok_iff.2 (.inr ⟨rfl, (), h⟩))]
      rfl
    have hcheck : (checkFirmwareRev D rev rvMinRev s.tpm).2 = u := by
      rw [checkFirmwareRev, bind_of_ok hcounter]
      rfl
    right
    rw [askTpm_snd, hcheck]
    exact hlt

/-- The check against a rollback chain-loads nothing. -/
theorem checkRollback_chainloaded (payload : Fw.FirmwarePayload) (info : Rv.RvFirmwareInfo) (s : Machine) :
    (checkRollback D payload info s).2.chainloaded = s.chainloaded := by
  refine Emits.trace_eq ?_ s
  refine Emits.bind (askTpm_emits _) fun accepted => ?_
  refine Emits.bind (Emits.ite (.pure ()) (.still fun _ => rfl)) fun _ => ?_
  exact Emits.onlyIf (Emits.bind (askTpm_emits _) fun _ => .pure ())

end Delivery

/-- What becomes of an index that held `d` when a firmware of revision `rev` has been accepted: it is as it was, for one of two
reasons, or it holds a structure with that revision. -/
def Ratcheted (d : Bytes) (rev : Nat) (content : Option Bytes) : Prop :=
  content = some d ∧ (rev ≤ counterOf d ∨ ∀ o, Dctpm.withMinFirmwareRev d rev ≠ .ok o) ∨
    ∃ o z, counterOf d < rev ∧ Dctpm.withMinFirmwareRev d rev = .ok o ∧ content = some (o ++ z)

namespace Delivery

/-- The check refuses the firmware and leaves the index alone, or it has accepted it and the counter has been raised if it can
be. -/
theorem checkRollback_cases (payload : Fw.FirmwarePayload) (info : Rv.RvFirmwareInfo) (s : Machine) :
    (checkRollback D payload info s).2.tpm.content dctpmNvIndex = s.tpm.content dctpmNvIndex ∧
        (∀ a, (checkRollback D payload info s).1 ≠ .ok a) ∨
      s.tpm.failedReads < (checkRollback D payload info s).2.tpm.failedReads ∨
      s.tpm.failedWrites < (checkRollback D payload info s).2.tpm.failedWrites ∨
      ∃ d, s.tpm.content dctpmNvIndex = some d ∧ counterOf d ≤ payload.firmwareRev ∧
        Ratcheted d payload.firmwareRev ((checkRollback D payload info s).2.tpm.content dctpmNvIndex) := by
  unfold checkRollback
  rcases checkFirmwareRev_cases (D := D) payload.firmwareRev info.minFirmwareRev s with
    ⟨d, b, u, hd, hcheck, ⟨n, rfl⟩, haccepted⟩ | hlt
  · rw [bind_of_ok hcheck]
    cases b with
    | false =>
      rw [ensure_of_false _ (by simp)]
      exact .inl ⟨rfl, by simp [bind_def, andThen]⟩
    | true =>
      have hle := haccepted rfl
      rw [ensure_of_true _ rfl, bind_of_ok (pure_apply () _)]
      by_cases hpos : 0 < payload.firmwareRev
      · have hsnd : ((onlyIf (0 < payload.firmwareRev) (do
            let _ ← askTpm (updateFirmwareRevCounter D payload.firmwareRev)) : Delivery Unit)
              { s with tpm := s.tpm.counted n }).2.tpm = (updateFirmwareRevCounter D payload.firmwareRev (s.tpm.counted n)).2 := by
          rw [onlyIf, if_pos hpos, ← askTpm_snd _ { s with tpm := s.tpm.counted n }]
          rcases bind_cases (askTpm (updateFirmwareRevCounter D payload.firmwareRev)) (fun _ => (pure () : Delivery Unit))
            { s with tpm := s.tpm.counted n } with ⟨a, t, hm, heq⟩ | ⟨heq, -⟩
          · rw [heq, hm]
            rfl
          · rw [heq]
        rw [hsnd]
        rcases updateFirmwareRevCounter_cases (D := D) payload.firmwareRev (s.tpm.counted n) with
          ⟨hsame, hzero | hfailed | ⟨d', hd', hno⟩⟩ | hfailed | ⟨d', o, z, t, hd', hlt, ho, hrun, hnew⟩
        · omega
        · exact .inr (.inl hfailed)
        · obtain rfl : d = d' := Option.some.inj (hd.symm.trans hd')
          exact .inr (.inr (.inr ⟨d, hd, hle, .inl ⟨hsame.trans hd, hno⟩⟩))
        · exact .inr (.inr (.inl hfailed))
        · obtain rfl : d = d' := Option.some.inj (hd.symm.trans hd')
          refine .inr (.inr (.inr ⟨d, hd, hle, .inr ⟨o, z, hlt, ho, ?_⟩⟩))
          rw [hrun]
          exact hnew
      · rw [onlyIf, if_neg hpos]
        exact .inr (.inr (.inr ⟨d, hd, hle, .inl ⟨hd, .inl (by omega)⟩⟩))
  · exact .inr (.inl (hlt.trans_le (bind_failed_le s (afterCheck_affects payload)).1))

/-- The boot offers this firmware to a device whose index holds `d`. -/
def Offers (Γ : Ctx) (boot : Boot) (d : Bytes) (payload : Fw.FirmwarePayload) (image : Bytes) : Prop :=
  ∃ info url file, Rv.parseRvFirmwareInfo d = .ok info ∧ info.firmwareUrl = some url ∧ boot.get url = some file ∧
    (Fw.verifyFirmware Γ boot.fuel file Cur.start).1 = .ok (.ok payload image)

/-- An image that was fetched came from the server and was verified. -/
theorem fetchFirmware_ok {url : Bytes} {s u : Machine} {payload : Fw.FirmwarePayload} {image : Bytes}
    (h : fetchFirmware Γ boot url s = (.ok (payload, image), u)) :
    ∃ file, boot.get url = some file ∧ (Fw.verifyFirmware Γ boot.fuel file Cur.start).1 = .ok (.ok payload image) := by
  simp only [fetchFirmware, bind_ok_iff, orFail_ok_iff] at h
  obtain ⟨file, t, ⟨hget, rfl⟩, h⟩ := h
  refine ⟨file, hget, ?_⟩
  rcases hv : (Fw.verifyFirmware Γ boot.fuel file Cur.start).1 with r | e | _ | _
  · rw [hv] at h
    cases r with
    | ok payload' image' =>
      obtain ⟨heq, -⟩ := pure_ok_iff.1 h
      obtain ⟨rfl, rfl⟩ := Prod.mk.inj heq
      rfl
    | _ => simp at h
  · cases e
  · rw [hv] at h
    simp at h
  · rw [hv] at h
    simp at h

/-- A boot after the firmware has been found. -/
theorem afterFind_cases {d : Bytes} {info : Rv.RvFirmwareInfo} {url : Bytes} {s : Machine}
    (hparse : Rv.parseRvFirmwareInfo d = .ok info) (hurl : info.firmwareUrl = some url)
    (hd : s.tpm.content dctpmNvIndex = some d) {u : Machine}
    (hu : u = (afterFind Γ D boot (info, url) s).2) :
    u.chainloaded = s.chainloaded ∧ u.tpm.content dctpmNvIndex = s.tpm.content dctpmNvIndex ∨
      s.tpm.failedReads < u.tpm.failedReads ∨ s.tpm.failedWrites < u.tpm.failedWrites ∨
      ∃ payload image, Offers Γ boot d payload image ∧ counterOf d ≤ payload.firmwareRev ∧
        Ratcheted d payload.firmwareRev (u.tpm.content dctpmNvIndex) ∧
        (u.chainloaded = s.chainloaded ∨ u.chainloaded = s.chainloaded ++ [(payload, image)]) := by
  have hfetch : (fetchFirmware Γ boot url s).2 = s := fetchFirmware_still url s
  unfold afterFind at hu
  rcases bind_cases (fetchFirmware Γ boot url) (fun r => checkRollback D r.1 info >>= fun _ => chainloadImage boot r.1 r.2) s with
    ⟨⟨payload, image⟩, t, hok, heq⟩ | ⟨heq, -⟩
  · rw [heq] at hu
    rw [hok] at hfetch
    obtain rfl : t = s := hfetch
    obtain ⟨file, hget, hverify⟩ := fetchFirmware_ok hok
    have hoffers : Offers Γ boot d payload image := ⟨info, url, file, hparse, hurl, hget, hverify⟩
    have hchain := checkRollback_chainloaded (D := D) payload info t
    have hcases := checkRollback_cases (D := D) payload info t
    rcases bind_cases (checkRollback D payload info) (fun _ => chainloadImage boot payload image) t with
      ⟨a, v, hv, heq'⟩ | ⟨heq', -⟩
    · have hu' : u = { v with chainloaded := v.chainloaded ++ [(payload, image)] } := by
        have hload : (chainloadImage boot payload image v).2 = { v with chainloaded := v.chainloaded ++ [(payload, image)] } :=
          chainloadImage_still payload image v
        rw [hu, ← hload]
        exact congrArg Prod.snd heq'
      rw [hv] at hcases hchain
      rcases hcases with ⟨-, hno⟩ | hfailed | hfailed | ⟨d', hd', hle, hratchet⟩
      · exact absurd rfl (hno a)
      · exact .inr (.inl (by rw [hu']; exact hfailed))
      · exact .inr (.inr (.inl (by rw [hu']; exact hfailed)))
      · obtain rfl : d = d' := Option.some.inj (hd.symm.trans hd')
        refine .inr (.inr (.inr ⟨payload, image, hoffers, hle, by rw [hu']; exact hratchet, .inr ?_⟩))
        rw [hu', ← hchain]
    · have hu' : u = (checkRollback D payload info t).2 := hu.trans heq'
      rw [← hu'] at hcases hchain
      rcases hcases with ⟨hsame, -⟩ | hfailed | hfailed | ⟨d', hd', hle, hratchet⟩
      · exact .inl ⟨hchain, hsame⟩
      · exact .inr (.inl hfailed)
      · exact .inr (.inr (.inl hfailed))
      · obtain rfl : d = d' := Option.some.inj (hd.symm.trans hd')
        exact .inr (.inr (.inr ⟨payload, image, hoffers, hle, hratchet, .inl hchain⟩))
  · have hu' : u = s := hu.trans (heq.trans hfetch)
    subst hu'
    exact .inl ⟨rfl, rfl⟩

end Delivery

/-- The result of a delivery does not change what it leaves. -/
theorem checkAndDeliver_snd (Γ : Ctx) (boot : Boot) (s : Machine) :
    (checkAndDeliver Γ D boot s).2 = (Delivery.deliver Γ D boot s).2 := by
  have hsnd : ((caught (Delivery.deliver Γ D boot) : Run Machine Empty (Except DeliveryResult Unit)) s).2 =
      (Delivery.deliver Γ D boot s).2 := caught_snd _ s
  rw [← hsnd]
  unfold checkAndDeliver
  rcases bind_cases (caught (Delivery.deliver Γ D boot) : Run Machine Empty (Except DeliveryResult Unit)) _ s with
    ⟨r, t, hok, heq⟩ | ⟨heq, -⟩
  · rw [heq, hok]
    cases r <;> rfl
  · rw [heq]

/-- Everything that a boot can do: a read or a write fails, nothing is chain-loaded and the index is as it was, or a firmware is
accepted, the counter is raised to its revision if it can be, and that firmware is chain-loaded if anything is. -/
theorem checkAndDeliver_cases {Γ : Ctx} {boot : Boot} {s u : Machine} (hu : u = (checkAndDeliver Γ D boot s).2) :
    u.chainloaded = s.chainloaded ∧ u.tpm.content dctpmNvIndex = s.tpm.content dctpmNvIndex ∨
      s.tpm.failedReads < u.tpm.failedReads ∨ s.tpm.failedWrites < u.tpm.failedWrites ∨
      ∃ d payload image, s.tpm.content dctpmNvIndex = some d ∧ Delivery.Offers Γ boot d payload image ∧
        counterOf d ≤ payload.firmwareRev ∧ Ratcheted d payload.firmwareRev (u.tpm.content dctpmNvIndex) ∧
        (u.chainloaded = s.chainloaded ∨ u.chainloaded = s.chainloaded ++ [(payload, image)]) := by
  rw [checkAndDeliver_snd, Delivery.deliver_eq] at hu
  have hrest : ∀ a : Unit, Affects Machine.tpm AnyEffects (Delivery.findFirmware D >>= Delivery.afterFind Γ D boot) := fun _ =>
    Delivery.findFirmware_affects.bind_any fun found => Delivery.afterFind_affects found
  rcases Delivery.diIfBlank_cases (Γ := Γ) (D := D) s with ⟨t, hdi, n, rfl⟩ | hlt
  · rw [bind_of_ok hdi] at hu
    rcases Delivery.findFirmware_cases (D := D) { s with tpm := s.tpm.counted n } with ⟨hq, hfound⟩ | hlt
    · rcases bind_cases (Delivery.findFirmware D) (Delivery.afterFind Γ D boot) { s with tpm := s.tpm.counted n } with
        ⟨⟨info, url⟩, t, hok, heq⟩ | ⟨heq, -⟩
      · rw [hok] at hq hfound
        obtain ⟨d, hd, hparse, hurl⟩ := hfound info url rfl
        obtain ⟨m, rfl⟩ := hq
        have hcases := Delivery.afterFind_cases (D := D) (Γ := Γ) (s := { s with tpm := s.tpm.counted m }) hparse hurl hd
          (hu.trans (congrArg Prod.snd heq))
        rcases hcases with hsame | hfailed | hfailed | ⟨payload, image, hrest⟩
        · exact .inl hsame
        · exact .inr (.inl hfailed)
        · exact .inr (.inr (.inl hfailed))
        · exact .inr (.inr (.inr ⟨d, payload, image, hd, hrest⟩))
      · obtain ⟨m, hm⟩ := hq
        have hu' : u = { s with tpm := s.tpm.counted m } := hu.trans (heq.trans hm)
        subst hu'
        exact .inl ⟨rfl, rfl⟩
    · right
      left
      rw [hu]
      exact hlt.trans_le (bind_failed_le { s with tpm := s.tpm.counted n } fun found => Delivery.afterFind_affects found).1
  · right
    left
    rw [hu]
    exact hlt.trans_le (bind_failed_le s hrest).1

/-! ## The revision of a firmware is a 64-bit number -/

namespace Fw

variable {d : Bytes} {c c' : Cur}

/-- The bytes of an argument make a number of 64 bits. -/
theorem argBytes_lt {k v : Nat} (hk : k ≤ 8) (h : argBytes d k c = (.ok v, c')) : v < 2 ^ 64 := by
  simp only [argBytes, bind_ok_iff, orFail_ok_iff, pure_ok_iff] at h
  obtain ⟨pos, _, -, bs, _, ⟨hbs, -⟩, _, _, -, rfl, -⟩ := h
  have hlen := (range?_eq_some_iff_at.1 hbs).2
  have hlt := beNat_lt bs
  have hpow : 256 ^ bs.length ≤ 256 ^ 8 := Nat.pow_le_pow_right (by omega) (by omega)
  omega

/-- An argument that is read has 64 bits. -/
theorem cborReadUintArg_lt {ai v : Nat} (h : cborReadUintArg d ai c = (.ok v, c')) : v < 2 ^ 64 := by
  unfold cborReadUintArg at h
  split_ifs at h
  · obtain ⟨rfl, -⟩ := pure_ok_iff.1 h
    omega
  · exact argBytes_lt (by omega) h
  · exact argBytes_lt (by omega) h
  · exact argBytes_lt (by omega) h
  · exact argBytes_lt (by omega) h
  · simp at h

/-- An unsigned integer that is read has 64 bits. -/
theorem cborReadUintValue_lt {fuel v : Nat} (h : cborReadUintValue d fuel c = (.ok v, c')) : v < 2 ^ 64 := by
  induction fuel generalizing c with
  | zero => simp [cborReadUintValue] at h
  | succ fuel ih =>
    obtain ⟨b, _, -, h⟩ := bind_ok_iff.1 h
    split_ifs at h
    · obtain ⟨_, _, -, h⟩ := bind_ok_iff.1 h
      exact ih h
    · obtain ⟨_, _, -, h⟩ := bind_ok_iff.1 h
      exact cborReadUintArg_lt h

/-- The revision in a payload has 64 bits. -/
theorem parseFirmwarePayload_rev {fuel : Nat} {payload : FirmwarePayload}
    (h : parseFirmwarePayload fuel d c = (.ok payload, c')) : payload.firmwareRev < 2 ^ 64 := by
  have hyields : Yields (parseFirmwarePayload fuel d) fun payload => payload.firmwareRev < 2 ^ 64 := by
    refine .next fun _ => .next fun _ => .next fun _ => .next fun _ => .next fun _ => .next fun _ => ?_
    refine .next fun _ => .next fun _ => .next fun _ => .next fun _ => .next fun _ => ?_
    refine .bind (fun _ _ _ => cborReadUintValue_lt) fun rev hrev => ?_
    exact .next fun _ => .next fun _ => .next fun _ => .pure hrev
  exact hyields c payload c' h

/-- The revision of a verified image has 64 bits. -/
theorem verifyFirmware_rev {Γ : Ctx} {fuel : Nat} {file image : Bytes} {payload : FirmwarePayload}
    (h : (verifyFirmware Γ fuel file c).1 = .ok (.ok payload image)) : payload.firmwareRev < 2 ^ 64 := by
  obtain ⟨o, t, -, h⟩ := bind_fst_ok_iff.1 h
  cases o with
  | none => cases h
  | some sign1 =>
    dsimp only at h
    split_ifs at h
    · cases h
    · cases h
    · obtain ⟨o, t', hparse, h⟩ := bind_fst_ok_iff.1 h
      cases o with
      | none => cases h
      | some payload' =>
        dsimp only at h
        split_ifs at h
        · cases h
        · have hrev : payload'.firmwareRev < 2 ^ 64 := by
            rcases attempt_ok_iff.1 hparse with ⟨_, heq, hrun⟩ | ⟨hnone, -⟩
            · obtain rfl := Option.some.inj heq
              exact parseFirmwarePayload_rev (eq_of_fst (congrArg Prod.fst hrun))
            · cases hnone
          obtain ⟨_, _, -, h⟩ := bind_fst_ok_iff.1 h
          split_ifs at h
          · cases h
          · obtain ⟨imageData, _, -, h⟩ := bind_fst_ok_iff.1 h
            cases hhash : verifyImageHash Γ payload' imageData with
            | ok =>
              rw [hhash] at h
              obtain ⟨rfl, -⟩ := VerifyResult.ok.inj (Outcome.ok.inj h)
              exact hrev
            | mismatch =>
              rw [hhash] at h
              cases h
            | unsupported alg =>
              rw [hhash] at h
              cases h

end Fw

/-- The revision of an image on offer has 64 bits. -/
theorem Delivery.Offers.rev_lt {Γ : Ctx} {boot : Boot} {d image : Bytes} {payload : Fw.FirmwarePayload}
    (h : Delivery.Offers Γ boot d payload image) : payload.firmwareRev < 2 ^ 64 := by
  obtain ⟨_, _, _, -, -, -, hverify⟩ := h
  exact Fw.verifyFirmware_rev hverify

end FdoUefi
