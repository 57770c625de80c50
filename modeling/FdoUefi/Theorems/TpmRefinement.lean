import FdoUefi.Lemmas.WireCalls

/-!
# The client over bytes does what it does over values

The functions of `tpm.rs` build bytes and parse bytes; in `Tpm` they submit commands and look at answers. In front of a TPM that reads
its commands as TPM 2.0 lays them out the two are the same: they end in the same way and leave the same TPM, whatever is lost,
refused or retried on the way.
-/

namespace FdoUefi

open Prog Prog.Run WireCallsAux

namespace TpmRefinementAux

variable {W : WireDevice}

/-- A value that is parsed out of the bytes is the one that is found in the response. -/
theorem parsed_simulates {α : Type} {P : α → Prop} {o : Outcome Unit α} {o' : Option α} (h : ∃ a, P a ∧ o' = some a ∧ o = .ok a) :
    Simulates Same Eq (fun x y => x = y ∧ P x) (Tcg.parsed o () : Run Tpm Unit α) (orFail o' ()) := by
  obtain ⟨a, ha, rfl, ho⟩ := h
  rw [TpmParsersAux.parsed_ok ho]
  exact .pure ⟨rfl, ha⟩

/-- A value that is parsed from the bytes is the value that was answered. -/
theorem parsed_eq_simulates {α : Type} {o : Outcome Unit α} {o' : Option α} (h : ∃ a, o' = some a ∧ o = .ok a) :
    Simulates Same Eq Eq (Tcg.parsed o () : Run Tpm Unit α) (orFail o' ()) := by
  obtain ⟨a, rfl, ho⟩ := h
  rw [TpmParsersAux.parsed_ok ho]
  exact .pure rfl

/-! ## NV indices -/

variable {index attributes : Nat} {data : Bytes}

/-- Reading an index runs alike. -/
theorem readSpace_simulates (h : index < 2 ^ 32) :
    Simulates Same Eq Eq (W.tcg.tpmNvRead index) (readSpace W.toTpmDevice index) := by
  refine openTcg_simulates.bind fun _ _ _ => ?_
  refine (tpmSubmit_simulates (c := .nvReadPublic index) h le_rfl).bind fun b r hr => ?_
  refine (parsed_simulates (holds_nvReadPublic le_rfl hr)).bind ?_
  rintro size _ ⟨rfl, hsize⟩
  refine (tpmSubmit_simulates (c := .nvRead index size) ⟨h, hsize⟩ le_rfl).bind fun b' r' hr' => ?_
  exact parsed_eq_simulates (holds_nvRead hr')

/-- Writing into an index runs alike. -/
theorem writeSpace_simulates (h : index < 2 ^ 32) (hdata : data.length < 2 ^ 16) :
    Simulates Same Eq Eq (W.tcg.tpmSubmit (buildNvWriteCmd index data) 64 >>= fun _ => Pure.pure ())
      (writeSpace W.toTpmDevice index data) :=
  (tpmSubmit_simulates (c := .nvWrite index data.length.toUInt16 data) ⟨h, hdata, rfl⟩ le_rfl).bind fun _ _ _ => .pure rfl

/-- Defining an index runs alike. -/
theorem defineSpace_simulates (h : index < 2 ^ 32) (hdata : data.length ≤ readableMax) (hattributes : attributes < 2 ^ 32) :
    Simulates Same Eq Eq (W.tcg.defineSpace index data.length attributes)
      (defineSpace W.toTpmDevice index data.length.toUInt16 attributes) := by
  have hlen : data.length.toUInt16.toNat = data.length := toNat_toUInt16 (hdata.trans_lt (by decide))
  have hloop := submitLoop_simulates (W := W) (c := .nvDefineSpace index data.length.toUInt16 attributes)
    ⟨h, hattributes, hlen.trans_le hdata⟩ le_rfl tpmRetryMax
  rw [TpmCommand.bytes, hlen] at hloop
  refine hloop.caught.bind fun a b hab => ?_
  cases hab with
  | ok _ => exact .pure rfl
  | error hcode =>
    subst hcode
    exact .ensure Iff.rfl rfl

/-- Writing an index with a definition runs alike. -/
theorem redefine_simulates (h : index < 2 ^ 32) (hdata : data.length ≤ readableMax) (hattributes : attributes < 2 ^ 32) :
    Simulates Same Eq Eq (W.tcg.tpmNvWrite index data attributes) (redefine W.toTpmDevice index data attributes) := by
  refine openTcg_simulates.bind fun _ _ _ => ?_
  refine (bestEffort_simulates (c := .nvUndefineSpace index) h le_rfl).bind fun _ _ _ => ?_
  refine (defineSpace_simulates h hdata hattributes).bind fun _ _ _ => ?_
  exact writeSpace_simulates h (hdata.trans_lt (by decide))

/-- Writing an index in place runs alike. -/
theorem writeInPlace_simulates (h : index < 2 ^ 32) (hdata : data.length < 2 ^ 16) :
    Simulates Same Eq Eq (W.tcg.tpmNvWriteInPlace index data) (do
      openTcg W.toTpmDevice
      writeSpace W.toTpmDevice index data) :=
  openTcg_simulates.bind fun _ _ _ => writeSpace_simulates h hdata

/-! ## Keys -/

variable {handle persistentHandle : Nat}

/-- Making a key persistent, or flushing it, runs alike. -/
theorem persistOrFlush_simulates (h : handle < 2 ^ 32) (hp : persistentHandle < 2 ^ 32) :
    Simulates Same Eq Eq (W.tcg.persistOrFlush handle persistentHandle) (persistOrFlush W.toTpmDevice handle persistentHandle) := by
  refine (tpmSubmit_simulates (c := .evictControl handle persistentHandle) ⟨h, hp⟩ le_rfl).attempt.bind fun a b hab => ?_
  cases hab with
  | some _ => exact .pure rfl
  | none => exact (bestEffort_simulates (c := .flushContext handle) h le_rfl).bind fun _ _ _ => .fail rfl

/-- An HMAC, or a flush, runs alike. -/
theorem hmacOrFlush_simulates (h : handle < 2 ^ 32) (hdata : data.length < 2 ^ 16) :
    Simulates Same Eq Eq (W.tcg.hmacOrFlush handle data) (hmacOrFlush W.toTpmDevice handle data) := by
  have hhmac := (tpmSubmit_simulates (W := W) (c := .hmac handle data.length.toUInt16 data) ⟨h, hdata, rfl⟩ le_rfl).bind
    fun b r hr => parsed_eq_simulates (holds_hmac hr)
  refine hhmac.attempt.bind fun a b hab => ?_
  cases hab with
  | some heq => exact .pure heq
  | none => exact (bestEffort_simulates (c := .flushContext handle) h le_rfl).bind fun _ _ _ => .fail rfl

/-- Making a signing key runs alike. -/
theorem createSigningKey_simulates (hp : persistentHandle < 2 ^ 32) :
    Simulates Same Eq Eq (W.tcg.tpmCreateAndPersistSigningKey persistentHandle)
      (tpmCreateAndPersistSigningKey W.toTpmDevice persistentHandle) := by
  refine openTcg_simulates.bind fun _ _ _ => ?_
  refine (bestEffort_simulates (c := .evictControl persistentHandle persistentHandle) ⟨hp, hp⟩ le_rfl).bind fun _ _ _ => ?_
  refine (tpmSubmit_simulates (c := .createPrimary .signing) trivial (by decide)).bind fun b r hr => ?_
  refine (parsed_simulates (holds_primaryKey hr)).bind ?_
  rintro ⟨handle, x, y⟩ _ ⟨rfl, hhandle⟩
  exact (persistOrFlush_simulates hhandle hp).bind fun _ _ _ => .pure rfl

/-- Making an HMAC key and using it runs alike. -/
theorem createHmac_simulates (hp : persistentHandle < 2 ^ 32) (hdata : data.length < 2 ^ 16) :
    Simulates Same Eq Eq (W.tcg.tpmCreateHmacAndPersist data persistentHandle)
      (tpmCreateHmacAndPersist W.toTpmDevice data persistentHandle) := by
  refine openTcg_simulates.bind fun _ _ _ => ?_
  refine (bestEffort_simulates (c := .evictControl persistentHandle persistentHandle) ⟨hp, hp⟩ le_rfl).bind fun _ _ _ => ?_
  refine (tpmSubmit_simulates (c := .createPrimary .hmac) trivial le_rfl).bind fun b r hr => ?_
  obtain ⟨handle, hhandle, hr', hlen, hunpack⟩ := holds_handle hr
  rw [ensure_of_true _ hlen, pure_bind]
  refine (parsed_simulates (P := fun handle => handle < 2 ^ 32) ⟨handle, hhandle, hr', hunpack⟩).bind ?_
  rintro handle _ ⟨rfl, hhandle⟩
  refine (hmacOrFlush_simulates hhandle hdata).bind ?_
  rintro value _ rfl
  exact (persistOrFlush_simulates hhandle hp).ignored.bind fun _ _ _ => .pure rfl

/-- A signature runs alike. -/
theorem sign_simulates {n : Nat} {digest : Bytes} (finish : Bytes × Bytes → Bytes) (h : handle < 2 ^ 32)
    (hdigest : digest.length < 2 ^ 16) (hn : 256 ≤ n) :
    Simulates Same Eq Eq
      (do
        W.tcg.openTcg
        let response ← W.tcg.tpmSubmit (buildSignCmd handle digest) n
        let rs ← Tcg.parsed (parseSignResponse response) ()
        return finish rs)
      (do
        openTcg W.toTpmDevice
        let response ← tpmSubmit W.toTpmDevice (.sign handle digest)
        let rs ← orFail response.signature? ()
        return finish rs) := by
  refine openTcg_simulates.bind fun _ _ _ => ?_
  refine (tpmSubmit_simulates (c := .sign handle digest) ⟨h, hdigest⟩ hn).bind fun b r hr => ?_
  refine (parsed_eq_simulates (holds_sign hr)).bind ?_
  rintro rs _ rfl
  exact .pure rfl

/-! ## Runs -/

/-- Both runs end in the same way, and the TPM they leave is one that the next run may start from. -/
def Alike {α : Type} (m m' : TpmRun α) (t : Tpm) : Prop := m t = m' t ∧ Held (m t).2

/-- What runs alike gives the same result and the same TPM. -/
theorem alike {α : Type} {m m' : TpmRun α} {t : Tpm} (h : Simulates Same Eq Eq m m') (hheld : Held t) : Alike m m' t :=
  ⟨h.run_eq hheld, (h t t ⟨rfl, hheld⟩).2.2⟩

/-- The record of a failed call is no part of what an index holds. -/
theorem recorded_alike {α : Type} {note : Tpm → Tpm} {m m' : TpmRun α} {t : Tpm} (hnote : ∀ u, (note u).nv = u.nv) (h : Alike m m' t) :
    Alike (recorded note m) (recorded note m') t := by
  obtain ⟨heq, hheld⟩ := h
  have hnv : (recorded note m t).2.nv = (m t).2.nv := by
    rcases hm : m t with ⟨_ | _ | _ | _, u⟩
    · simp only [recorded, hm]
    · simp only [recorded, hm, hnote]
    · simp only [recorded, hm]
    · simp only [recorded, hm]
  refine ⟨by simp only [recorded, heq], ?_⟩
  rw [Held, hnv]
  exact hheld

end TpmRefinementAux

open TpmRefinementAux

/-- From a TPM `t`, each function over bytes ends as the function over values does and keeps the indices readable. The two records
of failed calls are kept beside the TPM and not by the client, so they are added to what it does over bytes. -/
structure RunsAlike (W : WireDevice) (t : Tpm) : Prop where
  nvRead : ∀ index < 2 ^ 32, Alike (recorded Tpm.noteFailedRead (W.tcg.tpmNvRead index)) (tpmNvRead W.toTpmDevice index) t
  nvWrite : ∀ index < 2 ^ 32, ∀ data : Bytes, data.length ≤ readableMax → ∀ attributes < 2 ^ 32,
    Alike (recorded Tpm.noteFailedWrite (W.tcg.tpmNvWrite index data attributes)) (tpmNvWrite W.toTpmDevice index data attributes) t
  nvWriteInPlace : ∀ index < 2 ^ 32, ∀ data : Bytes, data.length < 2 ^ 16 →
    Alike (recorded Tpm.noteFailedWrite (W.tcg.tpmNvWriteInPlace index data)) (tpmNvWriteInPlace W.toTpmDevice index data) t
  createSigningKey : ∀ persistentHandle < 2 ^ 32,
    Alike (W.tcg.tpmCreateAndPersistSigningKey persistentHandle) (tpmCreateAndPersistSigningKey W.toTpmDevice persistentHandle) t
  createHmac : ∀ data : Bytes, data.length < 2 ^ 16 → ∀ persistentHandle < 2 ^ 32,
    Alike (W.tcg.tpmCreateHmacAndPersist data persistentHandle) (tpmCreateHmacAndPersist W.toTpmDevice data persistentHandle) t
  signEcdsa : ∀ handle < 2 ^ 32, ∀ digest : Bytes, digest.length < 2 ^ 16 →
    Alike (W.tcg.tpmSignEcdsa handle digest) (tpmSignEcdsa W.toTpmDevice handle digest) t
  signWithPersistent : ∀ handle < 2 ^ 32, ∀ digest : Bytes, digest.length < 2 ^ 16 →
    Alike (W.tcg.tpmSignWithPersistent handle digest) (Tpm.tpmSignWithPersistent W.toTpmDevice handle digest) t
  flushContext : ∀ handle < 2 ^ 32, Alike (W.tcg.tpmFlushContext handle) (tpmFlushContext W.toTpmDevice handle) t

/-- In front of a TPM whose indices are small enough to be read back, the client over bytes is the client over values. -/
theorem tcg_runsAlike (W : WireDevice) (t : Tpm) (hheld : Held t) : RunsAlike W t where
  nvRead _ h := recorded_alike (fun _ => rfl) (alike (readSpace_simulates h) hheld)
  nvWrite _ h _ hdata _ hattributes := recorded_alike (fun _ => rfl) (alike (redefine_simulates h hdata hattributes) hheld)
  nvWriteInPlace _ h _ hdata := recorded_alike (fun _ => rfl) (alike (writeInPlace_simulates h hdata) hheld)
  createSigningKey _ hp := alike (createSigningKey_simulates hp) hheld
  createHmac _ hdata _ hp := alike (createHmac_simulates hp hdata) hheld
  signEcdsa _ h _ hdigest := alike (sign_simulates (fun rs => padTo32 rs.1 ++ padTo32 rs.2) h hdigest le_rfl) hheld
  signWithPersistent _ h _ hdigest :=
    alike (sign_simulates (fun rs => padTo32 rs.1 ++ lowS (padTo32 rs.2)) h hdigest (by decide)) hheld
  flushContext _ h := alike (openTcg_simulates.bind fun _ _ _ => bestEffort_simulates (c := .flushContext _) h le_rfl).ignored hheld

/-- A device that runs every command. -/
def obligingDevice : WireDevice where
  seed := 7
  publicPoint _ := ([1], [2])
  hmac _ data := data.take 32
  sign _ _ digest := (digest.take 32, [3])
  handle _ := 0x80000000
  answer _ := .run
  details _ := []
  details_le _ := Nat.zero_le _
  handle_lt _ := by decide
  publicPoint_le _ x y h := by
    cases h
    decide
  hmac_le _ data := by
    rw [List.length_take]
    omega
  sign_le _ _ digest r s h := by
    cases h
    refine ⟨?_, by decide⟩
    rw [List.length_take]
    omega
  answer_ne_garbled _ h := by cases h
  answer_refused_lt _ _ _ h := by cases h

/-- A TPM with an index of three bytes. -/
def threeByteTpm : Tpm where
  persistent _ := none
  transient _ := none
  nv index := if index = 0x01D10001 then some ⟨0, [1, 2, 3], true, by decide⟩ else none
  submissions := 0
  effects := []
  failedReads := 0
  failedWrites := 0

/-- The client runs alike in front of the obliging device. -/
theorem obligingDevice_runsAlike : RunsAlike obligingDevice threeByteTpm := by
  refine tcg_runsAlike obligingDevice threeByteTpm ?_
  intro index i hi
  change (if index = 0x01D10001 then some _ else none) = some i at hi
  split at hi
  · cases hi
    decide
  · cases hi

end FdoUefi
