import FdoUefi.Lemmas.MinRevision
import FdoUefi.Theorems.Di

/-!
# DCMinFirmwareRev over the writers of the index

Two operations write the DCTPM index. Raising the counter never lowers it. DI builds the structure from the server's header alone,
so it sets the counter to whatever the rendezvous information of that header asks for, or to 0.
-/

namespace FdoUefi

open Prog Prog.Run Tpm

/-- An operation that writes the DCTPM index. -/
inductive DctpmOp where
  | di (server : Nat → Option HttpPostResponse) (cliUrl : Option Bytes)
  | raise (newRev : UInt64)

/-- The device after an operation, however it ends. -/
def DctpmOp.run (Γ : Ctx) (D : TpmDevice) (s : Machine) : DctpmOp → Machine
  | .di server cliUrl => (runDiProtocol Γ D server cliUrl s).2
  | .raise newRev => (Di.onTpm (updateFirmwareRevCounter D newRev.toNat) s).2

/-- What `min_firmware_rev` reads from the index. -/
def minRev (s : Machine) : Option Nat := (s.tpm.content dctpmNvIndex).bind fun d => (Dctpm.minFirmwareRev d).toOption

/-- A run of DI that the server goes through with asks for no lower revision than the index holds, in a header whose structure can
be read back. -/
def DctpmOp.CarriesOver (s : Machine) : DctpmOp → Prop
  | .di server _ => ∀ header v, Di.ServerAccepts server header → minRev s = some v →
      v ≤ Dctpm.rvMinFirmwareRev header.rvInfo ∧ header.deviceInfo.length < 256 ∧
        Dctpm.skipItem header.rvInfo 0 = (.ok (), header.rvInfo.length)
  | .raise _ => True

/-- One operation that carries the counter over and in which no write of an index fails. -/
def DctpmStep (Γ : Ctx) (D : TpmDevice) (s t : Machine) : Prop :=
  ∃ op : DctpmOp, op.CarriesOver s ∧ t = op.run Γ D s ∧ t.tpm.failedWrites = s.tpm.failedWrites

namespace Aux

variable {Γ : Ctx} {D : TpmDevice} {s t : Machine} {v : Nat}

/-- The minimal revision is the one in the index. -/
theorem minRev_of_content {d : Bytes} (hd : s.tpm.content dctpmNvIndex = some d) (hv : Dctpm.minFirmwareRev d = .ok v) :
    minRev s = some v := by
  rw [minRev, hd, Option.bind_some, hv]
  rfl

/-- The minimal revision depends on the index only. -/
theorem minRev_congr (h : t.tpm.content dctpmNvIndex = s.tpm.content dctpmNvIndex) : minRev t = minRev s := by
  rw [minRev, h, minRev]

/-- Raising the counter does not lower it. -/
theorem raise_minRev (newRev : UInt64) (hwrites : (DctpmOp.run Γ D s (.raise newRev)).tpm.failedWrites = s.tpm.failedWrites)
    (hv : minRev s = some v) : ∃ v', minRev (DctpmOp.run Γ D s (.raise newRev)) = some v' ∧ v ≤ v' := by
  rcases updateFirmwareRevCounter_cases (D := D) newRev.toNat s.tpm with
    ⟨hsame, -⟩ | hfailed | ⟨d, o, z, u, hd, hlt, ho, hrun, hnew⟩
  · exact ⟨v, (minRev_congr hsame).trans hv, le_rfl⟩
  · exact absurd hwrites hfailed.ne'
  · obtain ⟨-, hrev⟩ := Dctpm.withMinFirmwareRev_ok newRev.toNat_lt ho z
    have hold : counterOf d = v := by
      rw [minRev, hd, Option.bind_some] at hv
      rw [counterOf, hv, Option.getD_some]
    have hcontent : (DctpmOp.run Γ D s (.raise newRev)).tpm.content dctpmNvIndex = some (o ++ z) := by
      rw [← hnew]
      exact congrArg (fun r => Tpm.content r.2 dctpmNvIndex) hrun
    exact ⟨newRev.toNat, minRev_of_content hcontent hrev, by omega⟩

/-- DI sets the counter to what its header asks for. -/
theorem di_minRev (hsha : ∀ m, (Γ.sha256 m).length = 32) {server : Nat → Option HttpPostResponse} {cliUrl : Option Bytes}
    (hcarries : (DctpmOp.di server cliUrl).CarriesOver s)
    (hwrites : (DctpmOp.run Γ D s (.di server cliUrl)).tpm.failedWrites = s.tpm.failedWrites) (hv : minRev s = some v) :
    ∃ v', minRev (DctpmOp.run Γ D s (.di server cliUrl)) = some v' ∧ v ≤ v' := by
  rcases Di.runDiProtocol_index (Γ := Γ) (D := D) server cliUrl s with hsame | hfailed | ⟨header, tail, haccepts, hnew⟩
  · exact ⟨v, (minRev_congr hsame).trans hv, le_rfl⟩
  · exact absurd hwrites hfailed.ne'
  · obtain ⟨hle, hinfo, hskip⟩ := hcarries header v haccepts hv
    obtain ⟨resp, -, -, hparse⟩ := haccepts.start
    obtain ⟨u, hat, hlen, hitem⟩ := Dctpm.skipItem_ok_iff.1 hskip
    obtain ⟨rest, hrest⟩ := at_zero_iff.1 hat
    obtain rfl : u = header.rvInfo := by
      have hnil : rest = [] := by
        have := congrArg List.length hrest
        rw [List.length_append] at this
        exact List.length_eq_zero_iff.1 (by omega)
      rw [hrest, hnil, List.append_nil]
    have hread := Di.buildDctpm_minFirmwareRev (Di.parseDiSetCredentials_guid hparse) hinfo hitem (hsha header.pubKey)
      Di.fdoDakHandle Di.fdoHmacHandle tail
    exact ⟨_, minRev_of_content hnew hread, hle⟩

end Aux

/-- Over every sequence of operations that carry the counter over, what is read from the index does not fall. -/
theorem minRev_never_falls {Γ : Ctx} {D : TpmDevice} (hsha : ∀ m, (Γ.sha256 m).length = 32) {s t : Machine} {v : Nat}
    (hrun : Relation.ReflTransGen (DctpmStep Γ D) s t) (hv : minRev s = some v) : ∃ v', minRev t = some v' ∧ v ≤ v' := by
  induction hrun with
  | refl => exact ⟨v, hv, le_rfl⟩
  | tail _ hstep ih =>
    obtain ⟨v', hv', hle⟩ := ih
    obtain ⟨op, hcarries, rfl, hwrites⟩ := hstep
    cases op with
    | di server cliUrl =>
      obtain ⟨v'', hv'', hle'⟩ := Aux.di_minRev hsha hcarries hwrites hv'
      exact ⟨v'', hv'', hle.trans hle'⟩
    | raise newRev =>
      obtain ⟨v'', hv'', hle'⟩ := Aux.raise_minRev newRev hwrites hv'
      exact ⟨v'', hv'', hle.trans hle'⟩

/-! ## Runs of the sample device -/

/-- The provisioned sample device after its counter has been raised to 5. -/
def sampleRaised : Machine := DctpmOp.run sampleDiCtx (sampleDevice fun _ => .run) sampleProvisioned (.raise 5)

/-- With a header that asks for revision 7, DI carries the counter of that device over. -/
theorem sampleRaised_provisioned_again :
    ∃ v', minRev (DctpmOp.run sampleDiCtx (sampleDevice fun _ => .run) sampleRaised (.di (sampleServer sampleOvHeader7) none)) =
      some v' ∧ 5 ≤ v' := by
  have hfive : minRev sampleRaised = some 5 := by decide +kernel
  have hheader : Outcome.okWith (fun h : Di.OvHeader => 5 ≤ Dctpm.rvMinFirmwareRev h.rvInfo ∧ h.deviceInfo.length < 256 ∧
      Dctpm.skipItem h.rvInfo 0 = (.ok (), h.rvInfo.length))
      (Di.parseDiSetCredentials ([0x83, 0x41, 0x00, 0x80] ++ encodeBstr sampleOvHeader7)) = true := by decide +kernel
  refine minRev_never_falls sampleDiCtx_digest (.single ⟨.di (sampleServer sampleOvHeader7) none, ?_, rfl, ?_⟩) hfive
  · intro header v haccepts hv
    obtain ⟨resp, hresp, -, hparse⟩ := haccepts.start
    obtain rfl : _ = resp := Option.some.inj hresp
    obtain ⟨header', hparse', hall⟩ := Outcome.okWith_iff.1 hheader
    obtain rfl : header' = header := Outcome.ok.inj (hparse'.symm.trans hparse)
    obtain rfl : 5 = v := Option.some.inj (hfive.symm.trans hv)
    exact of_decide_eq_true hall
  · decide +kernel

/-- The same device runs DI again with a server whose header asks for no revision, every write succeeds, and the counter is 0. -/
theorem di_resets_minRev :
    minRev sampleRaised = some 5 ∧
    (runDiProtocol sampleDiCtx (sampleDevice fun _ => .run) sampleDiServer none sampleRaised).1 = .ok () ∧
    (DctpmOp.run sampleDiCtx (sampleDevice fun _ => .run) sampleRaised (.di sampleDiServer none)).tpm.failedWrites =
      sampleRaised.tpm.failedWrites ∧
    minRev (DctpmOp.run sampleDiCtx (sampleDevice fun _ => .run) sampleRaised (.di sampleDiServer none)) = some 0 := by
  refine ⟨?_, ?_, ?_, ?_⟩ <;> decide +kernel

end FdoUefi
