import FdoUefi.Lemmas.Di
import FdoUefi.Theorems.Voucher

/-!
# What Device Initialization leaves behind

A run that reports success has written the index and has made the device key persistent, whatever the TPM and the server did. The
HMAC key is another matter: that it could not be made persistent is not reported. A run that fails has destroyed what it had
already begun to replace and could not put back.
-/

namespace FdoUefi

open Prog Prog.Run Tpm

/-- The DIAppStart `m` carries a certificate request for the public point of `k`. -/
def RequestsKey (D : TpmDevice) (k : TpmKey) (m : DiMessage) : Prop :=
  ∃ x y sig csr, (x, y) = D.publicPoint k ∧ assembleCsrDer (buildCsrTbs Di.deviceSerial x y) sig = .ok csr ∧
    m.payload = Di.buildDiAppStart (Di.deviceMfgInfo Di.deviceSerial Di.deviceModel csr)

/-- A run of DI from `s` has left a provisioned device: the index holds the structure of the accepted header, and at the two
handles the structure names are the key of the certificate request and the key of the HMAC that was sent. -/
def Provisioned (Γ : Ctx) (D : TpmDevice) (server : Nat → Option HttpPostResponse) (s s' : Machine) : Prop :=
  ∃ resp header start hmac, server Di.msgAppStart = some resp ∧ Di.parseDiSetCredentials resp.body = .ok header ∧
    s'.sent = s.sent ++ [start, hmac] ∧
    (∃ tail, s'.tpm.content dctpmNvIndex = some (Di.buildDctpm Γ header Di.fdoDakHandle Di.fdoHmacHandle ++ tail)) ∧
    (∃ k, k.template = .signing ∧ s'.tpm.persistent Di.fdoDakHandle = some k ∧ RequestsKey D k start) ∧
    hmac.payload = Di.buildDiSetHmac (D.hmac ⟨.hmac, D.seed⟩ header.rawCbor) ∧
    s'.tpm.persistent Di.fdoHmacHandle = some ⟨.hmac, D.seed⟩

/-- The TPM has made the HMAC key persistent, or it has left that very key alone at the handle. -/
def HmacKeyPersisted (D : TpmDevice) (s : Machine) (es : List TpmEffect) : Prop :=
  .persisted Di.fdoHmacHandle ⟨.hmac, D.seed⟩ ∈ es ∨
    .evicted Di.fdoHmacHandle ∉ es ∧ s.tpm.persistent Di.fdoHmacHandle = some ⟨.hmac, D.seed⟩

namespace Aux

variable {Γ : Ctx} {D : TpmDevice} {server : Nat → Option HttpPostResponse} {cliUrl : Option Bytes} {s : Machine}
  {es : List TpmEffect}

/-- What the steps of a run write to each of the three slots. -/
theorem diSteps_slots (h : Di.DiSteps D es) :
    ClearedThenFilled ⟨.signing, D.seed⟩ (keyWrites Di.fdoDakHandle es) ∧
      ClearedThenFilled ⟨.hmac, D.seed⟩ (keyWrites Di.fdoHmacHandle es) ∧
      ∃ data, ClearedThenFilled data (dataWrites dctpmNvIndex es) := by
  obtain ⟨xs, _, rfl, hx, ys, zs, rfl, hy, hz⟩ := h
  have hne : Di.fdoDakHandle ≠ Di.fdoHmacHandle := by decide
  simp only [keyWrites_append, dataWrites_append]
  rw [hy.keyWrites_other hne, hz.keyWrites, hx.keyWrites_other hne.symm, hz.keyWrites, hx.dataWrites, hy.dataWrites]
  refine ⟨?_, ?_, ?_⟩
  · simpa using hx.keyWrites_self
  · simpa using hy.keyWrites_self
  · simpa using hz.dataWrites_self

/-- The handle of the HMAC key holds the created key exactly when that was persisted, or was there and left alone. -/
theorem hmacKey_iff (h : Di.DiSteps D es) :
    after (s.tpm.persistent Di.fdoHmacHandle) (keyWrites Di.fdoHmacHandle es) = some ⟨.hmac, D.seed⟩ ↔
      HmacKeyPersisted D s es := by
  obtain ⟨-, hslot, -⟩ := diSteps_slots h
  rw [after_filled_iff hslot, some_mem_keyWrites, none_mem_keyWrites]
  rfl

end Aux

/-- When DI reports success the device is provisioned exactly if the TPM has made the HMAC key persistent, or has left it alone at
its handle. -/
theorem runDiProtocol_provisioned_iff {Γ : Ctx} {D : TpmDevice} {server : Nat → Option HttpPostResponse} {cliUrl : Option Bytes}
    {s : Machine} (h : (runDiProtocol Γ D server cliUrl s).1 = .ok ()) :
    ∃ es, (runDiProtocol Γ D server cliUrl s).2.tpm.effects = s.tpm.effects ++ es ∧
      (Provisioned Γ D server s (runDiProtocol Γ D server cliUrl s).2 ↔ HmacKeyPersisted D s es) := by
  obtain ⟨es, hc, hes⟩ := Di.runDiProtocol_affects (Γ := Γ) (D := D) server cliUrl s
  have hkey := hc.keys Di.fdoHmacHandle
  refine ⟨es, hc.effects, ?_⟩
  rw [← Aux.hmacKey_iff hes, ← hkey]
  constructor
  · rintro ⟨_, _, _, _, -, -, -, -, -, -, hhmac⟩
    exact hhmac
  · intro hhmac
    obtain ⟨header, start, hmac, ⟨⟨resp, hresp, -, hparse⟩, -⟩, htail, hdak, hsent, hstart, hpayload⟩ :=
      Di.runDiProtocol_ok (eq_of_fst h)
    exact ⟨resp, header, start, hmac, hresp, hparse, hsent, htail, ⟨_, rfl, hdak, hstart⟩, hpayload, hhmac⟩

/-- The effects `es` leave the key at a handle alone, or put it back. -/
def KeyPutBack (handle : Nat) (k : TpmKey) (es : List TpmEffect) : Prop :=
  (.evicted handle ∈ es ∨ ∃ k', .persisted handle k' ∈ es) → .persisted handle k ∈ es

/-- The effects `es` leave the content of an index alone, or put it back. -/
def DataPutBack (index : Nat) (data : Bytes) (es : List TpmEffect) : Prop :=
  (.undefined index ∈ es ∨ .defined index ∈ es ∨ ∃ data', .written index data' ∈ es) → .written index data ∈ es

namespace Aux

/-- A key is written if it is evicted or made persistent. -/
theorem keyWrites_ne_nil_iff {handle : Nat} :
    keyWrites handle es ≠ [] ↔ .evicted handle ∈ es ∨ ∃ k, .persisted handle k ∈ es := by
  constructor
  · intro h
    obtain ⟨w, hw⟩ := List.exists_mem_of_ne_nil _ h
    cases w with
    | none => exact .inl (none_mem_keyWrites.1 hw)
    | some k => exact .inr ⟨k, some_mem_keyWrites.1 hw⟩
  · rintro (h | ⟨k, h⟩)
    · exact List.ne_nil_of_mem (none_mem_keyWrites.2 h)
    · exact List.ne_nil_of_mem (some_mem_keyWrites.2 h)

/-- An index is written if it is undefined, defined or overwritten. -/
theorem dataWrites_ne_nil_iff {index : Nat} :
    dataWrites index es ≠ [] ↔ .undefined index ∈ es ∨ .defined index ∈ es ∨ ∃ data, .written index data ∈ es := by
  constructor
  · intro h
    obtain ⟨w, hw⟩ := List.exists_mem_of_ne_nil _ h
    cases w with
    | none =>
      rcases none_mem_dataWrites.1 hw with hw | hw
      · exact .inl hw
      · exact .inr (.inl hw)
    | some data => exact .inr (.inr ⟨data, some_mem_dataWrites.1 hw⟩)
  · rintro (h | h | ⟨data, h⟩)
    · exact List.ne_nil_of_mem (none_mem_dataWrites.2 (.inl h))
    · exact List.ne_nil_of_mem (none_mem_dataWrites.2 (.inr h))
    · exact List.ne_nil_of_mem (some_mem_dataWrites.2 h)

/-- A slot for a key that is evicted and filled holds its old key exactly when that was put back. -/
theorem keyPutBack_iff {handle : Nat} {k w : TpmKey} (h : ClearedThenFilled w (keyWrites handle es)) :
    after (some k) (keyWrites handle es) = some k ↔ KeyPutBack handle k es := by
  rw [after_cleared_iff h, keyWrites_ne_nil_iff, some_mem_keyWrites]
  rfl

/-- An index that is cleared and filled once holds the data again if they are what fills it. -/
theorem dataPutBack_iff {index : Nat} {data w : Bytes} (h : ClearedThenFilled w (dataWrites index es)) :
    after (some data) (dataWrites index es) = some data ↔ DataPutBack index data es := by
  rw [after_cleared_iff h, dataWrites_ne_nil_iff, some_mem_dataWrites]
  rfl

end Aux

/-- When DI fails on a device with valid credentials, each of the two keys and the content of the index are what they were exactly
if what the run destroyed of them was put back. A run without the old device key has destroyed nothing else, and one that fails
in the exchange with the server has kept the device key and the index. -/
theorem runDiProtocol_failed_iff {Γ : Ctx} {D : TpmDevice} {server : Nat → Option HttpPostResponse} {cliUrl : Option Bytes}
    {s s' : Machine} {e : DiFailure} {data : Bytes} (h : runDiProtocol Γ D server cliUrl s = (.err e, s'))
    (hdak : s.tpm.persistent Di.fdoDakHandle = some ⟨.signing, D.seed⟩)
    (hhmac : s.tpm.persistent Di.fdoHmacHandle = some ⟨.hmac, D.seed⟩) (hdata : s.tpm.content dctpmNvIndex = some data) :
    ∃ es, s'.tpm.effects = s.tpm.effects ++ es ∧
      (s'.tpm.persistent Di.fdoDakHandle = s.tpm.persistent Di.fdoDakHandle ↔
        KeyPutBack Di.fdoDakHandle ⟨.signing, D.seed⟩ es) ∧
      (s'.tpm.persistent Di.fdoHmacHandle = s.tpm.persistent Di.fdoHmacHandle ↔
        KeyPutBack Di.fdoHmacHandle ⟨.hmac, D.seed⟩ es) ∧
      (s'.tpm.content dctpmNvIndex = s.tpm.content dctpmNvIndex ↔ DataPutBack dctpmNvIndex data es) ∧
      (s'.tpm.persistent Di.fdoDakHandle ≠ s.tpm.persistent Di.fdoDakHandle →
        s'.tpm.persistent Di.fdoHmacHandle = s.tpm.persistent Di.fdoHmacHandle ∧
          s'.tpm.content dctpmNvIndex = s.tpm.content dctpmNvIndex) ∧
      (e = .protocolError → s'.tpm.persistent Di.fdoDakHandle = s.tpm.persistent Di.fdoDakHandle ∧
        s'.tpm.content dctpmNvIndex = s.tpm.content dctpmNvIndex) := by
  have hne : Di.fdoHmacHandle ≠ Di.fdoDakHandle := by decide
  obtain ⟨es, hc, hes⟩ := Di.runDiProtocol_affects (Γ := Γ) (D := D) server cliUrl s
  rw [h] at hc
  obtain ⟨hslot, hslot', w, hslotd⟩ := Aux.diSteps_slots hes
  refine ⟨es, hc.effects, ?_, ?_, ?_, fun hlost => ?_, fun hprot => ?_⟩
  · rw [hc.keys, hdak]
    exact Aux.keyPutBack_iff hslot
  · rw [hc.keys, hhmac]
    exact Aux.keyPutBack_iff hslot'
  · rw [hc.data, hdata]
    exact Aux.dataPutBack_iff hslotd
  · rcases Di.runDiProtocol_deviceKey (Γ := Γ) (D := D) server cliUrl s with hkept | ⟨fs, hfs, hsteps⟩
    · rw [h] at hkept
      exact absurd (hkept.trans hdak.symm) hlost
    · rw [h] at hfs
      rw [hfs.keys, hfs.data, hsteps.keyWrites_other hne, hsteps.dataWrites]
      exact ⟨rfl, rfl⟩
  · subst hprot
    rw [hdak]
    exact Di.runDiProtocol_protocolError h

/-! ## Runs with the sample header -/

def sampleDevicePoint : Bytes × Bytes :=
  (beBytes 32 0x11d6bf7f71e9b445e41d1c4c44a0fb730a39f3bd23464d2f40388abe95220eac,
    beBytes 32 0x3b7f1298401253d08ff5defe922a8f29b3020a0f81032d4b916086ca66d38262)

/-- The signature of the sample device over its certificate request. -/
def sampleCsrSignature : Bytes × Bytes :=
  (beBytes 32 0x6f1de9e01f110e3ed69e90b9efa1eccdbd9f068ef886b3921b257e340f67882f,
    beBytes 32 0x926ef0f3038b67963c07d13d0aaef4129073316ee4ad9c27760d46857144038c)

def sampleCsrHash : Bytes := beBytes 32 0x7a95a5a386078dcb912b37bcfe891673706ee83f91719403eb1ed9335d4fcf5f

/-- The hash of the public key in the sample header. -/
def samplePubKeyHash : Bytes := beBytes 32 0x5081b5fa5ca2129048396ee3674a097469d7a7c9a3747d61ffb47889f20a8827

/-- The sample header with a rendezvous information that asks for revision 7, and its HMAC under the same secret. -/
def sampleOvHeader7 : Bytes := beBytes 127
  0x8618c850000102030405060708090a0b0c0d0e0f81818212410763646576830a01585b3059301306072a8648ce3d020106082a8648ce3d030107034200045593bf725a1ff60b77df476a04d440e99e3f91c89bd3e771f79d06e1ccab039297532db0b833ffd7267a997aa926b251f70e98f0f47a1d1e91b4bbaff235165df6

def sampleHmac7 : Bytes := beBytes 32 0x592bef93dfd5330808a90b5b6452c0035197e98b566397799c6fb1f77c8b6977

/-- The TPM of the sample device. Its HMAC key is the one the sample HMAC was made with. -/
def sampleDevice (answer : Nat → Answer) : TpmDevice where
  seed := 7
  publicPoint _ := sampleDevicePoint
  hmac _ m := ([(sampleOvHeader, sampleHmac), (sampleOvHeader7, sampleHmac7)].lookup m).getD []
  sign _ _ digest := if digest = sampleCsrHash then sampleCsrSignature else ([], [])
  handle n := 0x80000000 + n
  answer := answer

/-- A context with the two digests the sample runs need; every other one is zero. -/
def sampleDiCtx : Ctx :=
  { Ctx.ofTables [] [] [] with sha256 := fun _ => List.replicate 32 0 }.extend []
    [(buildCsrTbs Di.deviceSerial sampleDevicePoint.1 sampleDevicePoint.2, sampleCsrHash),
      ((sampleOvHeader.drop 25).take 96, samplePubKeyHash)]

/-- The sample hash has 32 bytes. -/
theorem sampleDiCtx_digest (m : Bytes) : (sampleDiCtx.sha256 m).length = 32 := by
  simp only [sampleDiCtx, Ctx.extend, Ctx.ofTables, List.lookup_cons, List.lookup_nil]
  split
  · rfl
  · split <;> rfl

/-- A server that sends a header and accepts the HMAC. -/
def sampleServer (ovHeader : Bytes) (msgType : Nat) : Option HttpPostResponse :=
  if msgType = Di.msgAppStart then
    some ⟨[0x83, 0x41, 0x00, 0x80] ++ encodeBstr ovHeader, some (utf8 "token"), some Di.msgSetCredentials⟩
  else some ⟨[0x80], none, some Di.msgDone⟩

def sampleDiServer : Nat → Option HttpPostResponse := sampleServer sampleOvHeader

/-- A device as it comes from the factory. -/
def sampleBlank : Machine where
  tpm := {
    persistent := fun _ => none
    transient := fun _ => none
    nv := fun _ => none
    submissions := 0
    effects := []
    failedReads := 0
    failedWrites := 0 }
  sent := []
  chainloaded := []

/-- The device after a run of DI in which every command was carried out. -/
def sampleProvisioned : Machine := (runDiProtocol sampleDiCtx (sampleDevice fun _ => .run) sampleDiServer none sampleBlank).2

/-- The sample device is provisioned. -/
theorem sampleProvisioned_provisioned :
    Provisioned sampleDiCtx (sampleDevice fun _ => .run) sampleDiServer sampleBlank sampleProvisioned := by
  have hok : (runDiProtocol sampleDiCtx (sampleDevice fun _ => .run) sampleDiServer none sampleBlank).1 = .ok () := by
    decide +kernel
  have hmem : .persisted Di.fdoHmacHandle ⟨.hmac, 7⟩ ∈ sampleProvisioned.tpm.effects := by decide +kernel
  obtain ⟨es, heffects, hiff⟩ := runDiProtocol_provisioned_iff hok
  refine hiff.2 (.inl ?_)
  rw [sampleProvisioned, heffects] at hmem
  exact hmem

/-- The TPM refuses to make the HMAC key persistent, and DI reports success with nothing at the handle of that key. -/
theorem success_without_hmacKey :
    (runDiProtocol sampleDiCtx (sampleDevice fun n => if n = 27 then .refused 0x14b (by decide) else .run) sampleDiServer none
      sampleBlank).1 = .ok () ∧
    ¬Provisioned sampleDiCtx (sampleDevice fun n => if n = 27 then .refused 0x14b (by decide) else .run) sampleDiServer sampleBlank
      (runDiProtocol sampleDiCtx (sampleDevice fun n => if n = 27 then .refused 0x14b (by decide) else .run) sampleDiServer none
        sampleBlank).2 := by
  refine ⟨by decide +kernel, ?_⟩
  rintro ⟨_, _, _, _, -, -, -, -, -, -, hhmac⟩
  have hnone : (runDiProtocol sampleDiCtx (sampleDevice fun n => if n = 27 then .refused 0x14b (by decide) else .run)
      sampleDiServer none sampleBlank).2.tpm.persistent Di.fdoHmacHandle = none := by decide +kernel
  rw [hnone] at hhmac
  cases hhmac

/-- A provisioned device whose server does not answer keeps its device key and its index. -/
theorem sampleProvisioned_unanswered :
    (runDiProtocol sampleDiCtx (sampleDevice fun _ => .run) (fun _ => none) none sampleProvisioned).2.tpm.persistent
        Di.fdoDakHandle = sampleProvisioned.tpm.persistent Di.fdoDakHandle ∧
      (runDiProtocol sampleDiCtx (sampleDevice fun _ => .run) (fun _ => none) none sampleProvisioned).2.tpm.content
        dctpmNvIndex = sampleProvisioned.tpm.content dctpmNvIndex := by
  have herr : (runDiProtocol sampleDiCtx (sampleDevice fun _ => .run) (fun _ => none) none sampleProvisioned).1 =
      .err .protocolError := by decide +kernel
  have hdak : sampleProvisioned.tpm.persistent Di.fdoDakHandle = some ⟨.signing, 7⟩ := by decide +kernel
  have hhmac : sampleProvisioned.tpm.persistent Di.fdoHmacHandle = some ⟨.hmac, 7⟩ := by decide +kernel
  have hsome : (sampleProvisioned.tpm.content dctpmNvIndex).isSome = true := by decide +kernel
  obtain ⟨data, hdata⟩ := Option.isSome_iff_exists.1 hsome
  obtain ⟨_, -, -, -, -, -, hprot⟩ := runDiProtocol_failed_iff (eq_of_fst herr) hdak hhmac hdata
  exact hprot rfl

/-- A provisioned device runs DI again, and the TPM refuses to create the device key after it has evicted the old one. -/
theorem failed_without_deviceKey :
    sampleProvisioned.tpm.persistent Di.fdoDakHandle = some ⟨.signing, 7⟩ ∧
    sampleProvisioned.tpm.persistent Di.fdoHmacHandle = some ⟨.hmac, 7⟩ ∧
    (sampleProvisioned.tpm.content dctpmNvIndex).isSome = true ∧
    (runDiProtocol sampleDiCtx (sampleDevice fun n => if n = 51 then .refused rcObjectMemory (by decide) else .run) sampleDiServer
      none sampleProvisioned).1 = .err .deviceError ∧
    (runDiProtocol sampleDiCtx (sampleDevice fun n => if n = 51 then .refused rcObjectMemory (by decide) else .run) sampleDiServer
      none sampleProvisioned).2.tpm.persistent Di.fdoDakHandle = none := by
  refine ⟨?_, ?_, ?_, ?_, ?_⟩ <;> decide +kernel

end FdoUefi
