import FdoUefi.Di
import FdoUefi.Lemmas.TpmNv

/-!
# Helpers about Device Initialization

DI touches the TPM in three places: `makeDeviceKey` and `setHmac` each replace a key, `writeDctpm` replaces the index. What is in
between sends messages and leaves the TPM alone. So the effects of a run are the steps of the device key, then those of the HMAC
key, then those of the index (`DiSteps`), each of them possibly none.
-/

namespace FdoUefi

open Prog Prog.Run Tpm

/-! ## Slots -/

/-- The writes to a handle that is evicted and filled. -/
theorem KeySteps.keyWrites_self {handle : Nat} {k : TpmKey} {es : List TpmEffect} (h : KeySteps handle k es) :
    ClearedThenFilled k (keyWrites handle es) := by
  obtain ⟨xs, ys, rfl, hx, hy⟩ := h
  refine ⟨keyWrites handle xs, keyWrites handle ys, keyWrites_append _ _ _, fun w hw => ?_, fun w hw => ?_⟩
  · obtain ⟨e, he, hew⟩ := List.mem_filterMap.1 hw
    rw [hx e he] at hew
    simpa using hew.symm
  · obtain ⟨e, he, hew⟩ := List.mem_filterMap.1 hw
    rw [hy e he] at hew
    simpa using hew.symm

/-- The other handles are left alone. -/
theorem KeySteps.keyWrites_other {handle other : Nat} (hne : other ≠ handle) {k : TpmKey} {es : List TpmEffect}
    (h : KeySteps handle k es) : keyWrites other es = [] := by
  obtain ⟨xs, ys, rfl, hx, hy⟩ := h
  refine List.filterMap_eq_nil_iff.2 fun e he => ?_
  rcases List.mem_append.1 he with he | he
  · rw [hx e he]
    simp [hne.symm]
  · rw [hy e he]
    simp [hne.symm]

/-- Steps of a key write no data. -/
theorem KeySteps.dataWrites {handle index : Nat} {k : TpmKey} {es : List TpmEffect} (h : KeySteps handle k es) :
    Tpm.dataWrites index es = [] := by
  obtain ⟨xs, ys, rfl, hx, hy⟩ := h
  refine List.filterMap_eq_nil_iff.2 fun e he => ?_
  rcases List.mem_append.1 he with he | he
  · rw [hx e he]
  · rw [hy e he]

/-- The writes to an index that is defined again and filled. -/
theorem DataSteps.dataWrites_self {index : Nat} {es : List TpmEffect} (h : DataSteps index es) :
    ∃ data, ClearedThenFilled data (Tpm.dataWrites index es) := by
  obtain ⟨data, xs, ys, rfl, hx, hy⟩ := h
  refine ⟨data, Tpm.dataWrites index xs, Tpm.dataWrites index ys, dataWrites_append _ _ _, fun w hw => ?_, fun w hw => ?_⟩
  · obtain ⟨e, he, hew⟩ := List.mem_filterMap.1 hw
    rcases hx e he with rfl | rfl
    · simpa using hew.symm
    · simpa using hew.symm
  · obtain ⟨e, he, hew⟩ := List.mem_filterMap.1 hw
    rw [hy e he] at hew
    simpa using hew.symm

/-- Steps of an index write no key. -/
theorem DataSteps.keyWrites {handle index : Nat} {es : List TpmEffect} (h : DataSteps index es) :
    Tpm.keyWrites handle es = [] := by
  obtain ⟨data, xs, ys, rfl, hx, hy⟩ := h
  refine List.filterMap_eq_nil_iff.2 fun e he => ?_
  rcases List.mem_append.1 he with he | he
  · rcases hx e he with rfl | rfl <;> rfl
  · rw [hy e he]

/-- A key that is written was made persistent. -/
theorem some_mem_keyWrites {handle : Nat} {k : TpmKey} {es : List TpmEffect} :
    some k ∈ keyWrites handle es ↔ .persisted handle k ∈ es := by
  simp only [keyWrites, List.mem_filterMap]
  constructor
  · rintro ⟨e, he, hek⟩
    cases e with
    | persisted h k' =>
      dsimp only at hek
      split_ifs at hek with hh
      obtain rfl := Option.some.inj (Option.some.inj hek)
      rwa [← hh]
    | evicted h =>
      dsimp only at hek
      split_ifs at hek
      cases Option.some.inj hek
    | _ => cases hek
  · intro he
    exact ⟨_, he, by simp⟩

/-- A key that is removed was evicted. -/
theorem none_mem_keyWrites {handle : Nat} {es : List TpmEffect} : none ∈ keyWrites handle es ↔ .evicted handle ∈ es := by
  simp only [keyWrites, List.mem_filterMap]
  constructor
  · rintro ⟨e, he, hek⟩
    cases e with
    | evicted h =>
      dsimp only at hek
      split_ifs at hek with hh
      rwa [← hh]
    | persisted h k =>
      dsimp only at hek
      split_ifs at hek
      cases Option.some.inj hek
    | _ => cases hek
  · intro he
    exact ⟨_, he, by simp⟩

/-- Data that are written are an overwrite. -/
theorem some_mem_dataWrites {index : Nat} {data : Bytes} {es : List TpmEffect} :
    some data ∈ dataWrites index es ↔ .written index data ∈ es := by
  simp only [dataWrites, List.mem_filterMap]
  constructor
  · rintro ⟨e, he, hed⟩
    cases e with
    | written i data' =>
      dsimp only at hed
      split_ifs at hed with hi
      obtain rfl := Option.some.inj (Option.some.inj hed)
      rwa [← hi]
    | undefined i =>
      dsimp only at hed
      split_ifs at hed
      cases Option.some.inj hed
    | defined i =>
      dsimp only at hed
      split_ifs at hed
      cases Option.some.inj hed
    | _ => cases hed
  · intro he
    exact ⟨_, he, by simp⟩

/-- Data that are removed come of undefining the index or defining it anew. -/
theorem none_mem_dataWrites {index : Nat} {es : List TpmEffect} :
    none ∈ dataWrites index es ↔ .undefined index ∈ es ∨ .defined index ∈ es := by
  simp only [dataWrites, List.mem_filterMap]
  constructor
  · rintro ⟨e, he, hed⟩
    cases e with
    | undefined i =>
      dsimp only at hed
      split_ifs at hed with hi
      exact .inl (by rwa [← hi])
    | defined i =>
      dsimp only at hed
      split_ifs at hed with hi
      exact .inr (by rwa [← hi])
    | written i data =>
      dsimp only at hed
      split_ifs at hed
      cases Option.some.inj hed
    | _ => cases hed
  · rintro (he | he)
    · exact ⟨_, he, by simp⟩
    · exact ⟨_, he, by simp⟩

/-! ## The parts of a run -/

variable {Γ : Ctx} {D : TpmDevice} {server : Nat → Option HttpPostResponse} {P : List TpmEffect → Prop}

/-- A call of the TPM affects that of the machine as it does alone. -/
theorem Affects.onTpm {ε α : Type} {m : Run Tpm ε α} (h : Affects id P m) : Affects Machine.tpm P (Di.onTpm m) :=
  fun s => h s.tpm

/-- A call of the TPM whose failure is renamed affects the TPM of the machine as it does alone. -/
theorem Affects.tpmOrFail {α : Type} {m : TpmRun α} (h : Affects id P m) : Affects Machine.tpm P (Di.tpmOrFail m) :=
  h.onTpm.mapErr

/-- A call of the TPM that goes well leaves the TPM that it leaves alone. -/
theorem onTpm_ok_iff {ε α : Type} {m : Run Tpm ε α} {s u : Machine} {a : α} :
    Di.onTpm m s = (.ok a, u) ↔ ∃ t, m s.tpm = (.ok a, t) ∧ u = { s with tpm := t } := by
  rcases h : m s.tpm with ⟨b | e | _ | _, t⟩ <;> simp [Di.onTpm, onPart, h, eq_comm]

/-- A call whose failure is renamed and that goes well leaves the TPM that it leaves alone. -/
theorem tpmOrFail_ok_iff {α : Type} {m : TpmRun α} {s u : Machine} {a : α} :
    Di.tpmOrFail m s = (.ok a, u) ↔ ∃ t, m s.tpm = (.ok a, t) ∧ u = { s with tpm := t } :=
  mapErr_ok_iff.trans onTpm_ok_iff

/-- A call to the TPM that must succeed fails in one way. -/
theorem tpmOrFail_err {α : Type} {m : TpmRun α} {s u : Machine} {e : DiFailure} (h : Di.tpmOrFail m s = (.err e, u)) :
    e = .deviceError := by
  obtain ⟨_, -, he⟩ := mapErr_err_iff.1 h
  exact he.symm

namespace Di

variable {serverUrl payload : Bytes} {msgType : Nat} {authToken : Option Bytes}

/-- Sending a message leaves the TPM alone. -/
theorem sendDiMessage_still (s : Machine) :
    (sendDiMessage server serverUrl msgType payload authToken s).2.tpm = s.tpm := by
  simp only [sendDiMessage, bind_def, andThen, modifyS]
  cases server msgType with
  | none => rfl
  | some resp =>
    simp only [orFail, pure_apply, Run.ensure]
    split_ifs <;> rfl

/-- A message that was answered has been sent. -/
theorem sendDiMessage_ok {s u : Machine} {responseType : Nat} {body : Bytes} {token : Option Bytes}
    (h : sendDiMessage server serverUrl msgType payload authToken s = (.ok (responseType, body, token), u)) :
    (∃ resp, server msgType = some resp ∧ responseType = resp.messageType.getD (msgType + 1) ∧ body = resp.body) ∧
      u = { s with sent := s.sent ++ [⟨messageUrl serverUrl msgType, msgType, payload, authToken⟩] } := by
  simp only [sendDiMessage, bind_ok_iff, orFail_ok_iff, ensure_ok_iff, pure_ok_iff, Prod.mk.injEq] at h
  obtain ⟨_, t, ht, resp, _, ⟨hresp, rfl⟩, _, _, ⟨-, rfl⟩, ⟨rfl, rfl, -⟩, rfl⟩ := h
  exact ⟨⟨resp, hresp, rfl, rfl⟩, (congrArg Prod.snd ht).symm⟩

/-- Building the request leaves the TPM untouched. -/
theorem generateCsr_affects (cn x y : Bytes) (handle : Nat) : Affects id Untouched (generateCsr Γ D cn x y handle) :=
  (sign_affects handle _).then_still fun _ _ => rfl

/-- The device key is replaced. -/
theorem makeDeviceKey_affects : Affects Machine.tpm (KeySteps fdoDakHandle ⟨.signing, D.seed⟩) (makeDeviceKey Γ D) := by
  have hp : isTransient fdoDakHandle = false := by decide
  refine Affects.mono (Affects.bind (signingKey_affects hp).tpmOrFail (fun key => ?_) only_nil) fun _ => then_untouched
  refine Affects.bind_only (generateCsr_affects _ _ _ _).onTpm.attempt fun o => ?_
  cases o with
  | some csr => exact .still (fun _ => rfl) only_nil
  | none => exact ((tpmFlushContext_affects key.handle).tpmOrFail).then_still fun _ _ => rfl

/-- The request that is returned is signed for the key at the handle. -/
theorem makeDeviceKey_ok {s u : Machine} {csr : Bytes} (h : makeDeviceKey Γ D s = (.ok csr, u)) :
    u.tpm.persistent fdoDakHandle = some ⟨.signing, D.seed⟩ ∧ u.sent = s.sent ∧
      ∃ x y sig, (x, y) = D.publicPoint ⟨.signing, D.seed⟩ ∧ assembleCsrDer (buildCsrTbs deviceSerial x y) sig = .ok csr := by
  have hp : isTransient fdoDakHandle = false := by decide
  obtain ⟨key, t, hkey, h⟩ := bind_ok_iff.1 h
  obtain ⟨o, u', hcsr, h⟩ := bind_ok_iff.1 h
  obtain ⟨t', hrun, rfl⟩ := tpmOrFail_ok_iff.1 hkey
  obtain ⟨hh, hpoint, hpers⟩ := signingKey_ok hp hrun
  rcases attempt_ok_iff.1 hcsr with ⟨csr', rfl, hgen⟩ | ⟨rfl, -⟩
  · obtain ⟨rfl, rfl⟩ := pure_ok_iff.1 h
    obtain ⟨t'', hsign, rfl⟩ := onTpm_ok_iff.1 hgen
    have hsame := (generateCsr_affects deviceSerial key.publicX key.publicY key.handle).keys_eq hsign fdoDakHandle
    obtain ⟨sig, _, -, hout⟩ := bind_ok_iff.1 hsign
    exact ⟨hsame.trans hpers, rfl, key.publicX, key.publicY, sig, hpoint, (ofOutcome_ok_iff.1 hout).1⟩
  · obtain ⟨_, _, -, hfail⟩ := bind_ok_iff.1 h
    simp at hfail

/-- When no device key can be made, DI ends in a device error. -/
theorem makeDeviceKey_err {s u : Machine} {e : DiFailure} (h : makeDeviceKey Γ D s = (.err e, u)) : e = .deviceError := by
  rcases bind_err_iff.1 h with h | ⟨key, t, -, h⟩
  · exact tpmOrFail_err h
  · rcases bind_err_iff.1 h with h | ⟨o, u', -, h⟩
    · rcases hm : onTpm (generateCsr Γ D deviceSerial key.publicX key.publicY key.handle) t with ⟨_ | _ | _ | _, _⟩ <;>
        simp [attempt, hm] at h
    · cases o with
      | some csr => simp at h
      | none =>
        rcases bind_err_iff.1 h with h | ⟨_, _, -, h⟩
        · exact tpmOrFail_err h
        · rw [fail_apply] at h
          exact (Outcome.err.inj (congrArg Prod.fst h)).symm

/-- DI.AppStart leaves the TPM alone. -/
theorem appStart_still (server : Nat → Option HttpPostResponse) (serverUrl csrDer : Bytes) (s : Machine) :
    (appStart server serverUrl csrDer s).2.tpm = s.tpm := by
  have hsend : (sendDiMessage server serverUrl msgAppStart
      (buildDiAppStart (deviceMfgInfo deviceSerial deviceModel csrDer)) none s).2.tpm = s.tpm := sendDiMessage_still s
  rw [← hsend]
  unfold appStart
  rcases bind_cases (sendDiMessage server serverUrl msgAppStart
      (buildDiAppStart (deviceMfgInfo deviceSerial deviceModel csrDer)) none) _ s with ⟨⟨m, body, token⟩, t, hm, heq⟩ | ⟨heq, -⟩
  · rw [heq, hm]
    simp only [Run.ensure, ofOutcome, bind_def, andThen]
    split_ifs
    · simp only [pure_apply]
      cases (parseDiSetCredentials body).noneAs DiFailure.protocolError <;> rfl
    · rfl
  · rw [heq]

/-- The server goes through with DI: it answers the request with this header and accepts the HMAC. -/
structure ServerAccepts (server : Nat → Option HttpPostResponse) (header : OvHeader) : Prop where
  start : ∃ resp, server msgAppStart = some resp ∧ resp.messageType.getD (msgAppStart + 1) = msgSetCredentials ∧
    parseDiSetCredentials resp.body = .ok header
  hmac : ∃ resp, server msgSetHmac = some resp ∧ resp.messageType.getD (msgSetHmac + 1) = msgDone

/-- The header that is returned is the one the server's answer carries. -/
theorem appStart_ok {csrDer : Bytes} {s u : Machine} {header : OvHeader} {token : Option Bytes}
    (h : appStart server serverUrl csrDer s = (.ok (header, token), u)) :
    (∃ resp, server msgAppStart = some resp ∧ resp.messageType.getD (msgAppStart + 1) = msgSetCredentials ∧
        parseDiSetCredentials resp.body = .ok header) ∧
      u = { s with sent := s.sent ++ [⟨messageUrl serverUrl msgAppStart, msgAppStart,
        buildDiAppStart (deviceMfgInfo deviceSerial deviceModel csrDer), none⟩] } := by
  simp only [appStart, bind_ok_iff, ensure_ok_iff, ofOutcome_ok_iff, pure_ok_iff, Prod.exists, Prod.mk.injEq,
    Outcome.noneAs_ok_iff] at h
  obtain ⟨m, body, token', t, hsend, _, _, ⟨htype, rfl⟩, header', _, ⟨hparse, rfl⟩, ⟨rfl, rfl⟩, rfl⟩ := h
  obtain ⟨⟨resp, hresp, rfl, rfl⟩, hu⟩ := sendDiMessage_ok hsend
  exact ⟨⟨resp, hresp, htype, hparse⟩, hu⟩

variable {header : OvHeader} {token : Option Bytes}

/-- The HMAC key is replaced. -/
theorem setHmac_affects (server : Nat → Option HttpPostResponse) (serverUrl : Bytes) (header : OvHeader)
    (token : Option Bytes) : Affects Machine.tpm (KeySteps fdoHmacHandle ⟨.hmac, D.seed⟩) (setHmac D server serverUrl header token) := by
  have hp : isTransient fdoHmacHandle = false := by decide
  refine ((createHmac_affects hp header.rawCbor).tpmOrFail).then_still fun r s => ?_
  obtain ⟨handle, hmacValue⟩ := r
  have hsend : (sendDiMessage server serverUrl msgSetHmac (buildDiSetHmac hmacValue) token s).2.tpm = s.tpm :=
    sendDiMessage_still s
  rw [← hsend]
  dsimp only
  rcases bind_cases (sendDiMessage server serverUrl msgSetHmac (buildDiSetHmac hmacValue) token) _ s with
    ⟨⟨m, body, token'⟩, t, hm, heq⟩ | ⟨heq, -⟩
  · rw [heq, hm]
    simp only [Run.ensure]
    split_ifs <;> rfl
  · rw [heq]

/-- The HMAC that was sent is that of the created key. -/
theorem setHmac_ok {s u : Machine} (h : setHmac D server serverUrl header token s = (.ok (), u)) :
    (∃ resp, server msgSetHmac = some resp ∧ resp.messageType.getD (msgSetHmac + 1) = msgDone) ∧
      u.sent = s.sent ++ [⟨messageUrl serverUrl msgSetHmac, msgSetHmac,
        buildDiSetHmac (D.hmac ⟨.hmac, D.seed⟩ header.rawCbor), token⟩] := by
  simp only [setHmac, bind_ok_iff, ensure_ok_iff, Prod.exists] at h
  obtain ⟨handle, value, t, hcreate, m, body, token', _, hsend, htype, rfl⟩ := h
  obtain ⟨t', hrun, rfl⟩ := tpmOrFail_ok_iff.1 hcreate
  obtain ⟨-, rfl⟩ := createHmac_ok hrun
  obtain ⟨⟨resp, hresp, rfl, -⟩, rfl⟩ := sendDiMessage_ok hsend
  exact ⟨⟨resp, hresp, htype⟩, rfl⟩

/-- Writing the DCTPM touches its index only. -/
theorem writeDctpm_affects (header : OvHeader) : Affects Machine.tpm (DataSteps dctpmNvIndex) (writeDctpm Γ D header) :=
  (tpmNvWrite_affects _ _).tpmOrFail

/-- After it the index begins with the structure that was built, and nothing was sent. -/
theorem writeDctpm_ok {s u : Machine} (h : writeDctpm Γ D header s = (.ok (), u)) :
    (∃ tail, u.tpm.content dctpmNvIndex = some (buildDctpm Γ header fdoDakHandle fdoHmacHandle ++ tail)) ∧ u.sent = s.sent := by
  obtain ⟨t, hwrite, rfl⟩ := tpmOrFail_ok_iff.1 h
  obtain ⟨tail, htail⟩ := tpmNvWrite_ok hwrite
  exact ⟨⟨_, by rw [htail, dctpmPadded, List.append_assoc]⟩, rfl⟩

/-- The effects of a run: the device key, the HMAC key and the index, in this order. -/
def DiSteps (D : TpmDevice) : List TpmEffect → Prop :=
  Then (KeySteps fdoDakHandle ⟨.signing, D.seed⟩) (Then (KeySteps fdoHmacHandle ⟨.hmac, D.seed⟩) (DataSteps dctpmNvIndex))

/-- No effects are steps of a key and of an index. -/
theorem then_dataSteps_nil {k : TpmKey} {handle index : Nat} : Then (KeySteps handle k) (DataSteps index) [] :=
  ⟨[], [], rfl, keySteps_nil, dataSteps_nil⟩

/-- What comes after the device key. -/
theorem afterKey_affects (server : Nat → Option HttpPostResponse) (serverUrl csrDer : Bytes) :
    Affects Machine.tpm (Then (KeySteps fdoHmacHandle ⟨.hmac, D.seed⟩) (DataSteps dctpmNvIndex)) (do
      let (header, token) ← appStart server serverUrl csrDer
      setHmac D server serverUrl header token
      writeDctpm Γ D header) := by
  refine Affects.bind_still (appStart_still server serverUrl _) (fun ht => ?_) then_dataSteps_nil
  exact (setHmac_affects server serverUrl _ _).bind (fun _ => writeDctpm_affects _) dataSteps_nil

/-- A run of DI has steps of both keys and of the index, in this order. -/
theorem runDiProtocol_affects (server : Nat → Option HttpPostResponse) (cliUrl : Option Bytes) :
    Affects Machine.tpm (DiSteps D) (runDiProtocol Γ D server cliUrl) := by
  have hnil : DiSteps D [] := ⟨[], [], rfl, keySteps_nil, then_dataSteps_nil⟩
  refine Affects.mono (Affects.bind tpmFlushAllTransient_affects.tpmOrFail (fun _ => ?_) hnil) fun _ => untouched_then
  refine Affects.bind_still (fun _ => rfl) (fun serverUrl => ?_) hnil
  exact makeDeviceKey_affects.bind (fun csr => afterKey_affects server serverUrl csr) then_dataSteps_nil

/-- A run that does not leave the device key at its handle has changed nothing else. -/
theorem runDiProtocol_deviceKey (server : Nat → Option HttpPostResponse) (cliUrl : Option Bytes) (s : Machine) :
    (runDiProtocol Γ D server cliUrl s).2.tpm.persistent fdoDakHandle = some ⟨.signing, D.seed⟩ ∨
      AffectsAt Machine.tpm (KeySteps fdoDakHandle ⟨.signing, D.seed⟩) (runDiProtocol Γ D server cliUrl) s := by
  have hne : fdoDakHandle ≠ fdoHmacHandle := by decide
  obtain ⟨es, hc, hes⟩ := (tpmFlushAllTransient_affects (D := D)).tpmOrFail s
  rw [untouched_iff.1 hes] at hc
  rw [runDiProtocol]
  rcases bind_cases (tpmOrFail (tpmFlushAllTransient D)) _ s with ⟨_, s₁, h₁, heq₁⟩ | ⟨heq₁, -⟩
  · rw [AffectsAt, heq₁]
    rw [h₁] at hc
    obtain ⟨serverUrl, hurl⟩ : ∃ serverUrl, getDiServerUrl cliUrl = some serverUrl := ⟨_, rfl⟩
    rw [bind_of_ok (orFail_ok_iff.2 ⟨hurl, rfl⟩)]
    obtain ⟨fs, hc', hfs⟩ := makeDeviceKey_affects (Γ := Γ) (D := D) s₁
    rcases bind_cases (makeDeviceKey Γ D) (fun csrDer => do
        let (header, token) ← appStart server serverUrl csrDer
        setHmac D server serverUrl header token
        writeDctpm Γ D header) s₁ with ⟨csr, s₂, h₂, heq₂⟩ | ⟨heq₂, -⟩
    · obtain ⟨gs, hc₂, _, _, rfl, hhmac, hdata⟩ := afterKey_affects (Γ := Γ) (D := D) server serverUrl csr s₂
      left
      rw [heq₂, hc₂.keys, keyWrites_append, hhmac.keyWrites_other hne, hdata.keyWrites]
      exact (makeDeviceKey_ok h₂).1
    · right
      exact ⟨fs, by rw [heq₂]; exact hc.trans hc', hfs⟩
  · right
    exact ⟨[], by rw [heq₁]; exact hc, keySteps_nil⟩

/-- The run up to the write of the index. -/
def exchange (Γ : Ctx) (D : TpmDevice) (server : Nat → Option HttpPostResponse) (cliUrl : Option Bytes) : DiRun OvHeader := do
  tpmOrFail (tpmFlushAllTransient D)
  let serverUrl ← orFail (getDiServerUrl cliUrl) .notFound
  let csrDer ← makeDeviceKey Γ D
  let (header, token) ← appStart server serverUrl csrDer
  setHmac D server serverUrl header token
  return header

/-- A run of DI is the exchange with the server, and writing what it agreed on. -/
theorem runDiProtocol_eq (cliUrl : Option Bytes) :
    runDiProtocol Γ D server cliUrl = exchange Γ D server cliUrl >>= fun header => writeDctpm Γ D header := by
  simp only [runDiProtocol, exchange, bind_assoc, pure_bind]

/-- The exchange leaves the index alone. -/
theorem exchange_data (server : Nat → Option HttpPostResponse) (cliUrl : Option Bytes) (s : Machine) :
    (exchange Γ D server cliUrl s).2.tpm.content dctpmNvIndex = s.tpm.content dctpmNvIndex ∧
      s.tpm.failedWrites ≤ (exchange Γ D server cliUrl s).2.tpm.failedWrites := by
  have hnil : Then (KeySteps fdoDakHandle ⟨.signing, D.seed⟩) (KeySteps fdoHmacHandle ⟨.hmac, D.seed⟩) [] :=
    ⟨[], [], rfl, keySteps_nil, keySteps_nil⟩
  have haffects : Affects Machine.tpm (Then (KeySteps fdoDakHandle ⟨.signing, D.seed⟩) (KeySteps fdoHmacHandle ⟨.hmac, D.seed⟩))
      (exchange Γ D server cliUrl) := by
    refine Affects.mono (Affects.bind tpmFlushAllTransient_affects.tpmOrFail (fun _ => ?_) hnil) fun _ => untouched_then
    refine Affects.bind_still (fun _ => rfl) (fun serverUrl => ?_) hnil
    refine makeDeviceKey_affects.bind (fun csr => ?_) keySteps_nil
    refine Affects.bind_still (appStart_still server serverUrl _) (fun ht => ?_) keySteps_nil
    exact (setHmac_affects server serverUrl _ _).then_still fun _ _ => rfl
  obtain ⟨es, hc, xs, ys, rfl, hx, hy⟩ := haffects s
  refine ⟨?_, hc.failedWrites⟩
  rw [hc.data, dataWrites_append, hx.dataWrites, hy.dataWrites]
  rfl

/-- The server has accepted in an exchange that came back. -/
theorem exchange_ok {cliUrl : Option Bytes} {s u : Machine} {header : OvHeader}
    (h : exchange Γ D server cliUrl s = (.ok header, u)) : ServerAccepts server header := by
  simp only [exchange, bind_ok_iff, pure_ok_iff, Prod.exists] at h
  obtain ⟨_, _, -, _, _, -, _, _, -, header', token, _, hstart, _, _, hhmac, rfl, rfl⟩ := h
  exact ⟨(appStart_ok hstart).1, (setHmac_ok hhmac).1⟩

/-- Everything that a run can do to the index. -/
theorem runDiProtocol_index (server : Nat → Option HttpPostResponse) (cliUrl : Option Bytes) (s : Machine) :
    (runDiProtocol Γ D server cliUrl s).2.tpm.content dctpmNvIndex = s.tpm.content dctpmNvIndex ∨
      s.tpm.failedWrites < (runDiProtocol Γ D server cliUrl s).2.tpm.failedWrites ∨
      ∃ header tail, ServerAccepts server header ∧ (runDiProtocol Γ D server cliUrl s).2.tpm.content dctpmNvIndex =
        some (buildDctpm Γ header fdoDakHandle fdoHmacHandle ++ tail) := by
  obtain ⟨hdata, hfailed⟩ := exchange_data (Γ := Γ) (D := D) server cliUrl s
  rw [runDiProtocol_eq]
  rcases bind_cases (exchange Γ D server cliUrl) (fun header => writeDctpm Γ D header) s with ⟨header, t, hok, heq⟩ | ⟨heq, -⟩
  · rw [heq]
    rw [hok] at hfailed
    rcases cases_of_returns (tpmNvWrite_returns (D := D)
        (dctpmPadded (buildDctpm Γ header fdoDakHandle fdoHmacHandle)) dctpmNvAttributes t.tpm) with ⟨_, u, hw⟩ | ⟨_, u, hw⟩
    · have hrun : writeDctpm Γ D header t = (.ok (), { t with tpm := u }) := tpmOrFail_ok_iff.2 ⟨u, hw, rfl⟩
      obtain ⟨⟨tail, htail⟩, -⟩ := writeDctpm_ok hrun
      rw [hrun]
      exact .inr (.inr ⟨header, tail, exchange_ok hok, htail⟩)
    · have hlt := tpmNvWrite_err hw
      have hsnd : (writeDctpm Γ D header t).2.tpm = u := by
        simp [writeDctpm, tpmOrFail, onTpm, onPart, Run.mapErr, hw]
      rw [hsnd]
      exact .inr (.inl (hfailed.trans_lt hlt))
  · rw [heq]
    exact .inl hdata

/-- A run that succeeds: what it has sent and what it leaves in the index and at the handle of the device key. -/
theorem runDiProtocol_ok {cliUrl : Option Bytes} {s u : Machine} (h : runDiProtocol Γ D server cliUrl s = (.ok (), u)) :
    ∃ header start hmac, ServerAccepts server header ∧
      (∃ tail, u.tpm.content dctpmNvIndex = some (buildDctpm Γ header fdoDakHandle fdoHmacHandle ++ tail)) ∧
      u.tpm.persistent fdoDakHandle = some ⟨.signing, D.seed⟩ ∧ u.sent = s.sent ++ [start, hmac] ∧
      (∃ x y sig csr, (x, y) = D.publicPoint ⟨.signing, D.seed⟩ ∧
        assembleCsrDer (buildCsrTbs deviceSerial x y) sig = .ok csr ∧
        start.payload = buildDiAppStart (deviceMfgInfo deviceSerial deviceModel csr)) ∧
      hmac.payload = buildDiSetHmac (D.hmac ⟨.hmac, D.seed⟩ header.rawCbor) := by
  simp only [runDiProtocol, bind_ok_iff, orFail_ok_iff, Prod.exists] at h
  obtain ⟨_, s₁, hflush, serverUrl, _, ⟨-, rfl⟩, csr, s₂, hkey, header, token, s₃, hstart, _, s₄, hhmac, hwrite⟩ := h
  obtain ⟨hdak, hsent₂, x, y, sig, hpoint, hcsr⟩ := makeDeviceKey_ok hkey
  obtain ⟨haccepts, rfl⟩ := appStart_ok hstart
  obtain ⟨haccepts', hsent₄⟩ := setHmac_ok hhmac
  obtain ⟨htail, hsent⟩ := writeDctpm_ok hwrite
  obtain ⟨t₁, -, rfl⟩ := tpmOrFail_ok_iff.1 hflush
  -- The device key is left alone by what comes after it.
  have hne : fdoDakHandle ≠ fdoHmacHandle := by decide
  obtain ⟨es, hc, hes⟩ := setHmac_affects (D := D) server serverUrl header token
    { s₂ with sent := s₂.sent ++ [⟨messageUrl serverUrl msgAppStart, msgAppStart,
      buildDiAppStart (deviceMfgInfo deviceSerial deviceModel csr), none⟩] }
  obtain ⟨fs, hc', hfs⟩ := writeDctpm_affects (Γ := Γ) (D := D) header s₄
  rw [hhmac] at hc
  rw [hwrite] at hc'
  have hk := (hc.trans hc').keys fdoDakHandle
  rw [keyWrites_append, hes.keyWrites_other hne, hfs.keyWrites] at hk
  refine ⟨header, ⟨messageUrl serverUrl msgAppStart, msgAppStart,
    buildDiAppStart (deviceMfgInfo deviceSerial deviceModel csr), none⟩, ⟨messageUrl serverUrl msgSetHmac, msgSetHmac,
    buildDiSetHmac (D.hmac ⟨.hmac, D.seed⟩ header.rawCbor), token⟩, ⟨haccepts, haccepts'⟩, htail, hk.trans hdak, ?_,
    ⟨x, y, sig, csr, hpoint, hcsr, rfl⟩, rfl⟩
  rw [hsent, hsent₄, hsent₂, List.append_assoc]
  rfl

/-- A run that fails in the exchange with the server: the device key has been made, and the index is as it was. -/
theorem runDiProtocol_protocolError {cliUrl : Option Bytes} {s u : Machine}
    (h : runDiProtocol Γ D server cliUrl s = (.err .protocolError, u)) :
    u.tpm.persistent fdoDakHandle = some ⟨.signing, D.seed⟩ ∧ u.tpm.content dctpmNvIndex = s.tpm.content dctpmNvIndex := by
  have hne : fdoDakHandle ≠ fdoHmacHandle := by decide
  have hflush := (tpmFlushAllTransient_affects (D := D)).tpmOrFail s
  rcases bind_err_iff.1 h with hf | ⟨_, s₁, h₁, hr₁⟩
  · cases tpmOrFail_err hf
  rcases bind_err_iff.1 hr₁ with hf | ⟨serverUrl, s₂, h₂, hr₂⟩
  · simp [orFail, getDiServerUrl] at hf
  obtain rfl := (orFail_ok_iff.1 h₂).2
  rcases bind_err_iff.1 hr₂ with hf | ⟨csr, s₃, h₃, hr₃⟩
  · cases makeDeviceKey_err hf
  obtain ⟨hdak, -⟩ := makeDeviceKey_ok h₃
  obtain ⟨es, hc, hes⟩ := makeDeviceKey_affects (Γ := Γ) (D := D) s₂
  obtain ⟨fs, hc', hfs⟩ := hflush
  rw [h₁] at hc'
  rw [h₃] at hc
  have hdata : s₃.tpm.content dctpmNvIndex = s.tpm.content dctpmNvIndex := by
    rw [hc.data, hes.dataWrites, after_nil, hc'.data, untouched_iff.1 hfs]
    rfl
  have hstill := appStart_still server serverUrl csr s₃
  rcases bind_err_iff.1 hr₃ with hf | ⟨⟨header, token⟩, s₄, h₄, hr₄⟩
  · rw [hf] at hstill
    rw [hstill]
    exact ⟨hdak, hdata⟩
  rw [h₄] at hstill
  obtain ⟨gs, hc₄, hgs⟩ := setHmac_affects (D := D) server serverUrl header token s₄
  rcases bind_err_iff.1 hr₄ with hf | ⟨_, s₅, h₅, hr₅⟩
  · rw [hf] at hc₄
    rw [hc₄.keys, hc₄.data, hgs.keyWrites_other hne, hgs.dataWrites, after_nil, after_nil, hstill]
    exact ⟨hdak, hdata⟩
  · cases tpmOrFail_err hr₅

end Di

end FdoUefi
