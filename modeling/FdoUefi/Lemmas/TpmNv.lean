import FdoUefi.Lemmas.TpmCalls

/-!
# Helpers about reading and writing NV indices

A read that succeeds gives back the content of the index; a write that succeeds leaves the data at its start. Either changes no
other slot, and a failure is counted.
-/

namespace FdoUefi

open Prog Prog.Run Tpm

variable {D : TpmDevice} {index : Nat}

/-! ## Reading -/

/-- Asking for the size of an index leaves the TPM as it is. -/
theorem execute_nvReadPublic_still (index : Nat) (t : Tpm) : (t.execute D (.nvReadPublic index)).2 = t := by
  simp only [execute]
  cases t.nv index <;> rfl

/-- Reading an index leaves the TPM as it is. -/
theorem execute_nvRead_still (index size : Nat) (t : Tpm) : (t.execute D (.nvRead index size)).2 = t := by
  simp only [execute]
  cases t.nv index with
  | none => rfl
  | some i =>
    simp only
    split_ifs <;> rfl

/-- A call whose failure is recorded has the effects it has. -/
theorem AffectsAt.recorded {α : Type} {note : Tpm → Tpm} {P : List TpmEffect → Prop} {m : TpmRun α} {t : Tpm}
    (hnote : ∀ es u, Changes t es u → Changes t es (note u)) (h : AffectsAt id P m t) :
    AffectsAt id P (FdoUefi.recorded note m) t := by
  obtain ⟨es, hc, hP⟩ := h
  refine ⟨es, ?_, hP⟩
  rcases hm : m t with ⟨_ | _ | _ | _, u⟩
  · rw [hm] at hc
    simpa [FdoUefi.recorded, hm] using hc
  · rw [hm] at hc
    simpa [FdoUefi.recorded, hm] using hnote es u hc
  · rw [hm] at hc
    simpa [FdoUefi.recorded, hm] using hc
  · rw [hm] at hc
    simpa [FdoUefi.recorded, hm] using hc

/-- A failed read that is noted changes no index and no key. -/
theorem noteFailedRead_changes {t u : Tpm} {es : List TpmEffect} (h : Changes t es u) : Changes t es u.noteFailedRead :=
  ⟨h.effects, h.keys, h.data, h.failedReads.trans (Nat.le_succ _), h.failedWrites⟩

/-- A failed write that is noted changes no index and no key. -/
theorem noteFailedWrite_changes {t u : Tpm} {es : List TpmEffect} (h : Changes t es u) : Changes t es u.noteFailedWrite :=
  ⟨h.effects, h.keys, h.data, h.failedReads, h.failedWrites.trans (Nat.le_succ _)⟩

/-- Failures are noted, and a call that goes well is as it was. -/
theorem recorded_ok_iff {α : Type} {note : Tpm → Tpm} {m : TpmRun α} {t u : Tpm} {a : α} :
    recorded note m t = (.ok a, u) ↔ m t = (.ok a, u) := by
  rcases hm : m t with ⟨_ | _ | _ | _, v⟩ <;> simp [recorded, hm]

/-- A failure that is recorded as one of a read is counted. -/
theorem recorded_failedReads {α : Type} {m : TpmRun α} {P : List TpmEffect → Prop} {t u : Tpm} {e : Unit}
    (hm : AffectsAt id P m t) (h : recorded noteFailedRead m t = (.err e, u)) : t.failedReads < u.failedReads := by
  obtain ⟨es, hc, -⟩ := hm
  rcases hrun : m t with ⟨_ | _ | _ | _, v⟩
  all_goals simp only [recorded, hrun, Prod.mk.injEq, reduceCtorEq, false_and] at h
  rw [hrun] at hc
  rw [← h.2]
  exact Nat.lt_succ_of_le hc.failedReads

/-- A failure that is recorded as one of a write is counted. -/
theorem recorded_failedWrites {α : Type} {m : TpmRun α} {P : List TpmEffect → Prop} {t u : Tpm} {e : Unit}
    (hm : AffectsAt id P m t) (h : recorded noteFailedWrite m t = (.err e, u)) : t.failedWrites < u.failedWrites := by
  obtain ⟨es, hc, -⟩ := hm
  rcases hrun : m t with ⟨_ | _ | _ | _, v⟩
  all_goals simp only [recorded, hrun, Prod.mk.injEq, reduceCtorEq, false_and] at h
  rw [hrun] at hc
  rw [← h.2]
  exact Nat.lt_succ_of_le hc.failedWrites

/-- Reading the space of an index leaves the TPM untouched. -/
theorem readSpace_affects (index : Nat) : Affects id Untouched (readSpace D index) := by
  refine Affects.bind_only openTcg_affects fun _ => ?_
  refine (tpmSubmit_affects _).bind_only fun r => ?_
  refine Affects.bind_still (fun s => ?_) (fun size => ?_) only_nil
  · rcases hr : r.size? with _ | n <;> rfl
  · refine (tpmSubmit_affects _).then_still fun r' s => ?_
    rcases hr : r'.data? with _ | v <;> rfl

/-- Reading an index leaves the TPM untouched. -/
theorem tpmNvRead_affects (index : Nat) : Affects id Untouched (tpmNvRead D index) :=
  fun t => (readSpace_affects index t).recorded fun _ _ => noteFailedRead_changes

/-- What is read is the content of the index. -/
theorem tpmNvRead_ok {t u : Tpm} {d : Bytes} (h : tpmNvRead D index t = (.ok d, u)) :
    t.content index = some d ∧ ∃ n, u = t.counted n := by
  have hm := recorded_ok_iff.1 h
  simp only [readSpace, bind_ok_iff, orFail_ok_iff] at hm
  obtain ⟨_, t₁, hopen, r, t₂, hr, size, t₃, ⟨hsize, rfl⟩, r', t₄, hr', hdata, rfl⟩ := hm
  have ht₁ : t₁ = t.counted (t.submissions + 1) := (congrArg Prod.snd hopen).symm
  obtain ⟨s₀, r₀, ⟨n, rfl⟩, hx, hgar, m, rfl⟩ := tpmSubmit_ok_of_still (execute_nvReadPublic_still index) hr
  obtain ⟨s₁, r₁, ⟨n', rfl⟩, hx', hgar', m', rfl⟩ := tpmSubmit_ok_of_still (execute_nvRead_still index size) hr'
  subst ht₁
  refine ⟨?_, m', rfl⟩
  simp only [execute, counted] at hx hx'
  cases hn : t.nv index with
  | none =>
    rw [hn] at hx
    cases hx
  | some i =>
    rw [hn] at hx hx'
    obtain rfl := Except.ok.inj hx
    have hlen : i.data.length = size := by
      rcases hgar with rfl | rfl
      · exact Option.some.inj hsize
      · cases hsize
    subst hlen
    simp only [lt_irrefl, if_false] at hx'
    split_ifs at hx' with hw
    obtain rfl := Except.ok.inj hx'
    have hd : i.data.take i.data.length = d := by
      rcases hgar' with rfl | rfl
      · exact Option.some.inj hdata
      · cases hdata
    rw [List.take_length] at hd
    rw [Bool.not_eq_false] at hw
    change content t index = some d
    rw [content, hn]
    dsimp only
    rw [if_pos hw, hd]

/-- A read that fails is counted. -/
theorem tpmNvRead_err {t u : Tpm} {e : Unit} (h : tpmNvRead D index t = (.err e, u)) : t.failedReads < u.failedReads :=
  recorded_failedReads (readSpace_affects index t) h

/-! ## Writing -/

/-- What a write of `data` leaves in an index. -/
def overwritten (t : Tpm) (index : Nat) (data : Bytes) : Option Bytes :=
  (t.nv index).map fun i => data ++ i.data.drop data.length

/-- Writing data once, twice or not at all: every write has the same content. -/
theorem writeSpace_affects (data : Bytes) (t : Tpm) :
    AffectsAt id (Only fun e => ∃ c, overwritten t index data = some c ∧ e = .written index c) (writeSpace D index data) t := by
  let R (t u : Tpm) : Prop := overwritten u index data = overwritten t index data ∧
    ∃ es, Changes t es u ∧ Only (fun e => ∃ c, overwritten t index data = some c ∧ e = .written index c) es
  have hr : ∀ t, R t t := fun t => ⟨rfl, [], .refl t, only_nil⟩
  have htrans : ∀ t u v, R t u → R u v → R t v := by
    rintro t u v ⟨hu, h1⟩ ⟨hv, h2⟩
    rw [hu] at hv h2
    exact ⟨hv, changes_only_trans t u v h1 h2⟩
  have hs : ∀ t, R t ((submitCommand D (.nvWrite index data.length.toUInt16 data) : Run Tpm Nat Submitted) t).2 := by
    intro t
    rcases submitCommand_snd (ε := Nat) D (.nvWrite index data.length.toUInt16 data) t with h | h
    · rw [h]
      exact ⟨rfl, [], counted_changes (.refl t) _, only_nil⟩
    · rw [h]
      rcases execute_write D t index data.length.toUInt16 data with ⟨i, hl, hn, hx⟩ | ⟨rc, hx⟩
      · rw [hx]
        have hc : overwritten t index data = some (data ++ i.data.drop data.length) := by rw [overwritten, hn]; rfl
        refine ⟨?_, _, counted_changes (write_changes t index rfl) _, ?_⟩
        · rw [hc]
          simp [overwritten, counted, write, NvIndex.overwritten]
        · intro e he
          rw [List.mem_singleton.1 he]
          exact ⟨_, hc, rfl⟩
      · rw [hx]
        exact ⟨rfl, [], counted_changes (.refl t) _, only_nil⟩
  refine AffectsAt.of_snd_eq (m := tpmSubmitWithRetry D (.nvWrite index data.length.toUInt16 data))
    (submitLoop_rel hr htrans hs tpmRetryMax t).2 ?_
  rcases hm : tpmSubmitWithRetry D (.nvWrite index data.length.toUInt16 data) t with ⟨_ | _ | _ | _, u⟩ <;>
    simp [writeSpace, tpmSubmit, Run.mapErr, bind_def, andThen, hm]

/-- Data that have been written stand at the start of the index. -/
theorem writeSpace_ok {data : Bytes} {t u : Tpm} (h : writeSpace D index data t = (.ok (), u)) :
    ∃ tail, u.content index = some (data ++ tail) := by
  obtain ⟨r, v, hr, hrest⟩ := bind_ok_iff.1 h
  obtain ⟨-, rfl⟩ := pure_ok_iff.1 hrest
  obtain ⟨t₀, r₀, -, hx, -, rfl⟩ := tpmSubmit_ok (R := fun _ _ => True) (fun _ => trivial) (fun _ _ _ _ _ => trivial)
    (fun _ => trivial) hr
  rcases execute_write D t₀ index data.length.toUInt16 data with ⟨i, hl, hn, hex⟩ | ⟨rc, hex⟩
  · rw [hex]
    exact ⟨i.data.drop data.length, by simp [content, counted, write, NvIndex.overwritten]⟩
  · rw [hex] at hx
    cases hx

/-- An overwrite of an index is one step of its data. -/
theorem dataSteps_of_written {t : Tpm} {data : Bytes} {es : List TpmEffect}
    (h : Only (fun e => ∃ c, overwritten t index data = some c ∧ e = .written index c) es) :
    ∃ c, Only (· = .written index c) es := by
  cases hc : overwritten t index data with
  | none =>
    refine ⟨[], fun e he => ?_⟩
    obtain ⟨c, hcc, -⟩ := h e he
    rw [hc] at hcc
    cases hcc
  | some c =>
    refine ⟨c, fun e he => ?_⟩
    obtain ⟨c', hcc, rfl⟩ := h e he
    rw [hc] at hcc
    rw [Option.some.inj hcc]

/-- Opening the TPM and writing into an index is at most one such step. -/
theorem openWrite_affects (data : Bytes) :
    Affects id (DataSteps index) (do openTcg D; writeSpace D index data : TpmRun Unit) := by
  intro t
  refine AffectsAt.mono (AffectsAt.bind (openTcg_affects (E := fun _ => False) t) (fun _ u _ => ?_) dataSteps_nil)
    fun _ => untouched_then
  refine (writeSpace_affects data u).mono fun es hes => ?_
  obtain ⟨c, hc⟩ := dataSteps_of_written hes
  exact ⟨c, [], es, rfl, only_nil, hc⟩

/-- Writing in place is at most one step of the index. -/
theorem tpmNvWriteInPlace_affects (data : Bytes) : Affects id (DataSteps index) (tpmNvWriteInPlace D index data) :=
  fun t => (openWrite_affects data t).recorded fun _ _ => noteFailedWrite_changes

/-- After a write in place the index begins with the data. -/
theorem tpmNvWriteInPlace_ok {data : Bytes} {t u : Tpm} (h : tpmNvWriteInPlace D index data t = (.ok (), u)) :
    ∃ tail, u.content index = some (data ++ tail) := by
  obtain ⟨_, v, -, hw⟩ := bind_ok_iff.1 (recorded_ok_iff.1 h)
  exact writeSpace_ok hw

/-- Defining a space defines at most that index. -/
theorem defineSpace_affects (size : UInt16) (attributes : Nat) :
    Affects id (Only (· = .defined index)) (defineSpace D index size attributes) := by
  refine Affects.then_still (Affects.mono (tpmSubmitWithRetry_affects (.nvDefineSpace index size attributes)).caught ?_) ?_
  · exact fun _ h => h
  · rintro (code | r) s
    · simp only [Run.ensure]
      split_ifs <;> rfl
    · rfl

/-- Clearing an index before the steps that clear and write it is another of those steps. -/
theorem clear_then {E : TpmEffect → Prop} (hE : ∀ e, E e → e = .undefined index ∨ e = .defined index) {es : List TpmEffect}
    (h : Then (Only E) (DataSteps index) es) : DataSteps index es := by
  obtain ⟨xs, _, rfl, hx, data, ys, zs, rfl, hy, hz⟩ := h
  exact ⟨data, xs ++ ys, zs, (List.append_assoc xs ys zs).symm, Only.append (fun e he => hE e (hx e he)) hy, hz⟩

/-- Writing with a new definition touches that index only. -/
theorem redefine_affects (data : Bytes) (attributes : Nat) : Affects id (DataSteps index) (redefine D index data attributes) := by
  refine Affects.mono (Affects.bind (openTcg_affects (E := fun _ => False)) (fun _ => ?_) dataSteps_nil) fun _ => untouched_then
  refine Affects.mono (Affects.bind (bestEffort_affects (.nvUndefineSpace index)) (fun _ => ?_) dataSteps_nil)
    fun _ => clear_then fun _ => .inl
  refine Affects.mono (Affects.bind (defineSpace_affects _ attributes) (fun _ t => ?_) dataSteps_nil)
    fun _ => clear_then fun _ => .inr
  refine (writeSpace_affects data t).mono fun es hes => ?_
  obtain ⟨c, hc⟩ := dataSteps_of_written hes
  exact ⟨c, [], es, rfl, only_nil, hc⟩

/-- A write touches its index only. -/
theorem tpmNvWrite_affects (data : Bytes) (attributes : Nat) : Affects id (DataSteps index) (tpmNvWrite D index data attributes) :=
  fun t => (redefine_affects data attributes t).recorded fun _ _ => noteFailedWrite_changes

/-- After a write the index begins with the data. -/
theorem tpmNvWrite_ok {data : Bytes} {attributes : Nat} {t u : Tpm} (h : tpmNvWrite D index data attributes t = (.ok (), u)) :
    ∃ tail, u.content index = some (data ++ tail) := by
  have hm := recorded_ok_iff.1 h
  simp only [redefine, bind_ok_iff] at hm
  obtain ⟨_, t₁, -, _, t₂, -, _, t₃, -, hw⟩ := hm
  exact writeSpace_ok hw

/-! ## Calls come back -/

/-- A value that may be missing comes back or is an error. -/
theorem orFail_returns {α : Type} (o : Option α) (t : Tpm) : ((orFail o () : TpmRun α) t).1.Returns := by
  cases o <;> trivial

/-- Opening the TPM comes back. -/
theorem openTcg_returns (t : Tpm) : (openTcg D t).1.Returns := by
  simp only [openTcg]
  split_ifs <;> trivial

/-- A submission has an outcome. -/
theorem submitCommand_ok {ε : Type} (cmd : TpmCommand) (t : Tpm) :
    ∃ r u, (submitCommand D cmd : Run Tpm ε Submitted) t = (.ok r, u) := by
  simp only [submitCommand]
  split <;> exact ⟨_, _, rfl⟩

/-- The retries come to an end. -/
theorem submitLoop_returns (cmd : TpmCommand) (n : Nat) (t : Tpm) : (submitLoop D cmd n t).1.Returns := by
  induction n generalizing t with
  | zero => trivial
  | succ n ih =>
    obtain ⟨r, u, hr⟩ := submitCommand_ok (D := D) (ε := Nat) cmd t
    rw [submitLoop, bind_of_ok hr]
    cases r with
    | failed => exact ih u
    | rc code =>
      dsimp only
      split_ifs
      · exact ih u
      · trivial
    | response r => trivial

/-- Submitting a command comes back. -/
theorem tpmSubmit_returns (cmd : TpmCommand) (t : Tpm) : (tpmSubmit D cmd t).1.Returns := by
  have h := submitLoop_returns (D := D) cmd tpmRetryMax t
  rcases hm : submitLoop D cmd tpmRetryMax t with ⟨_ | _ | _ | _, u⟩ <;> rw [hm] at h <;>
    simp_all [tpmSubmit, tpmSubmitWithRetry, Run.mapErr, Outcome.Returns]

/-- Noting a failure does not keep a call from coming back. -/
theorem recorded_returns {α : Type} {note : Tpm → Tpm} {m : TpmRun α} {t : Tpm} (h : (m t).1.Returns) :
    (recorded note m t).1.Returns := by
  rcases hm : m t with ⟨_ | _ | _ | _, u⟩ <;> rw [hm] at h <;> simp_all [recorded, Outcome.Returns]

/-- Reading an index comes back. -/
theorem tpmNvRead_returns (index : Nat) (t : Tpm) : (tpmNvRead D index t).1.Returns := by
  refine recorded_returns (bind_returns (openTcg_returns t) fun _ t₁ _ => ?_)
  refine bind_returns (tpmSubmit_returns _ t₁) fun r t₂ _ => ?_
  refine bind_returns (orFail_returns _ t₂) fun size t₃ _ => ?_
  exact bind_returns (tpmSubmit_returns _ t₃) fun r' t₄ _ => orFail_returns _ t₄

/-- Writing into an index comes back. -/
theorem writeSpace_returns (data : Bytes) (t : Tpm) : (writeSpace D index data t).1.Returns :=
  bind_returns (tpmSubmit_returns _ t) fun _ _ _ => trivial

/-- Writing in place comes back. -/
theorem tpmNvWriteInPlace_returns (data : Bytes) (t : Tpm) : (tpmNvWriteInPlace D index data t).1.Returns :=
  recorded_returns (bind_returns (openTcg_returns t) fun _ u _ => writeSpace_returns data u)

/-- Writing with a definition comes back. -/
theorem tpmNvWrite_returns (data : Bytes) (attributes : Nat) (t : Tpm) : (tpmNvWrite D index data attributes t).1.Returns := by
  refine recorded_returns (bind_returns (openTcg_returns t) fun _ t₁ _ => ?_)
  obtain ⟨r, t₂, hr⟩ := submitCommand_ok (D := D) (ε := Unit) (.nvUndefineSpace index) t₁
  have hundefine : bestEffort D (.nvUndefineSpace index) t₁ = (.ok (), t₂) := by
    rw [bestEffort, bind_of_ok hr]
    rfl
  rw [bind_of_ok hundefine]
  refine bind_returns ?_ fun _ u _ => writeSpace_returns data u
  have hdefine := submitLoop_returns (D := D) (.nvDefineSpace index data.length.toUInt16 attributes) tpmRetryMax t₂
  refine bind_returns ?_ fun o u _ => ?_
  · rcases hm : submitLoop D (.nvDefineSpace index data.length.toUInt16 attributes) tpmRetryMax t₂ with ⟨_ | _ | _ | _, u⟩ <;>
      rw [hm] at hdefine <;> simp_all [tpmSubmitWithRetry, Run.caught, Outcome.Returns]
  · cases o with
    | ok r => trivial
    | error code =>
      simp only [Run.ensure]
      split_ifs <;> trivial

/-- A write that fails is counted. -/
theorem tpmNvWriteInPlace_err {data : Bytes} {t u : Tpm} {e : Unit} (h : tpmNvWriteInPlace D index data t = (.err e, u)) :
    t.failedWrites < u.failedWrites :=
  recorded_failedWrites (openWrite_affects data t) h

/-- A write that fails is counted. -/
theorem tpmNvWrite_err {data : Bytes} {attributes : Nat} {t u : Tpm} {e : Unit}
    (h : tpmNvWrite D index data attributes t = (.err e, u)) : t.failedWrites < u.failedWrites :=
  recorded_failedWrites (redefine_affects data attributes t) h

end FdoUefi
