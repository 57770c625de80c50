import FdoUefi.Lib.Contract
import FdoUefi.Theorems.AntiRollback
import FdoUefi.Theorems.Boot
import FdoUefi.Theorems.Identity

/-!
# The life of a device

A device that holds an identity keeps it over any number of boots, whatever they meet, as long as no read and no write of an index
fails and nobody asks for Device Initialization. It runs TO1 and TO2 as itself only, it is never initialised again, and it does not go
back to an older firmware.
-/

namespace FdoUefi

open Prog Prog.Run

/-- Is it an event of the device with these credentials? Device Initialization is not. -/
def MainEvent.ActsAs (c : FdoCredentials) : MainEvent → Prop
  | .di _ _ => False
  | .to1 _ guid deviceKeyHandle _ => guid = c.guid ∧ deviceKeyHandle = c.deviceKeyHandle
  | .to2 args _ => args.guid = c.guid ∧ args.deviceKeyHandle = c.deviceKeyHandle ∧ args.hmacKeyHandle = c.hmacKeyHandle
  | _ => True

/-- A start of the program without `-force-di`, in which no read and no write of an index fails. -/
def BootsTo (Γ : Ctx) (s t : MainState) : Prop :=
  ∃ P : Platform, (parseArgs P.commandLine).forceDi = false ∧ t = (main Γ P s).2 ∧
    t.machine.tpm.failedReads = s.machine.tpm.failedReads ∧ t.machine.tpm.failedWrites = s.machine.tpm.failedWrites

namespace LifeAux

variable {Γ : Ctx} {P : Platform} {opts : FdoOptions} {c : FdoCredentials} {u : Bytes} {base : MainState} {α β : Type}

open Main BootAux

/-- What stays from `base` on. -/
structure Faithful (c : FdoCredentials) (u : Bytes) (base s : MainState) : Prop where
  identity : ∃ d, s.machine.tpm.content dctpmNvIndex = some d ∧ HoldsIdentity c u d
  ratchet : ∃ new, s.machine.chainloaded = base.machine.chainloaded ++ new ∧ Aux.Ratchet new s.machine
  events : ∃ new, s.trace = base.trace ++ new ∧ ∀ e ∈ new, MainEvent.ActsAs c e

/-- At least as many reads and writes have failed. -/
def FailedLe (s t : MainState) : Prop :=
  s.machine.tpm.failedReads ≤ t.machine.tpm.failedReads ∧ s.machine.tpm.failedWrites ≤ t.machine.tpm.failedWrites

instance : IsPreorder MainState FailedLe where
  refl _ := ⟨le_rfl, le_rfl⟩
  trans _ _ _ h h' := ⟨h.1.trans h'.1, h.2.trans h'.2⟩

/-- A part of `main` that leaves a faithful state faithful, unless a read or a write fails. -/
abbrev Stays (c : FdoCredentials) (u : Bytes) (base : MainState) (m : Main α) : Prop :=
  Keeps FailedLe (Faithful c u base) (Faithful c u base) m fun _ => Faithful c u base

/-! ## The calls -/

/-- A change of the machine that the device does not notice. -/
theorem Faithful.quiet {s : MainState} {machine : Machine} (h : Faithful c u base s)
    (hcontent : machine.tpm.content dctpmNvIndex = s.machine.tpm.content dctpmNvIndex)
    (hchain : machine.chainloaded = s.machine.chainloaded) : Faithful c u base { s with machine } := by
  obtain ⟨hid, ⟨new, hnew, hratchet⟩, hevents⟩ := h
  refine ⟨?_, ⟨new, hchain.trans hnew, hratchet.ascending, fun d hd => hratchet.below d (hcontent.symm.trans hd)⟩, hevents⟩
  obtain ⟨d, hd, hholds⟩ := hid
  exact ⟨d, hcontent.trans hd, hholds⟩

/-- An event of the device itself. -/
theorem note_stays {e : MainEvent} (he : e.ActsAs c) : Stays c u base (note e) := by
  have hnote (s : MainState) (h : Faithful c u base s) : Faithful c u base { s with trace := s.trace ++ [e] } := by
    obtain ⟨hid, hratchet, new, hnew, hall⟩ := h
    refine ⟨hid, hratchet, new ++ [e], ?_, ?_⟩
    · rw [← List.append_assoc, ← hnew]
    · intro e' he'
      rcases List.mem_append.1 he' with hmem | hmem
      · exact hall e' hmem
      · rw [List.mem_singleton.1 hmem]
        exact he
  exact .changes (fun _ => rfl) (fun _ => ⟨le_rfl, le_rfl⟩) hnote fun s _ h _ => hnote s h

/-- A value leaves the device as it is. -/
theorem return_stays (a : α) : Stays c u base (pure a : Main α) := .pure (fun _ hs => hs) fun _ hs => hs

/-- Asking for a session leaves the device as it is. -/
theorem onSession_stays (m : To2 α) : Stays c u base (onSession m) :=
  .changes (g := id) (onSession_still m) (fun _ => ⟨le_rfl, le_rfl⟩) (fun _ hs => hs) fun _ _ hs _ => hs

/-! ## Reading the index -/

/-- What a reader finds is what it makes of a structure that holds the identity. -/
theorem readDctpm_stays {D : TpmDevice} {read : Bytes → Outcome Unit α} :
    Keeps FailedLe (Faithful c u base) (Faithful c u base) (readDctpm D read) fun o s => Faithful c u base s ∧
      ∃ d, HoldsIdentity c u d ∧ ∀ a, read d = .ok a → o = some a := by
  have hindex : Keeps FailedLe (Faithful c u base) (Faithful c u base)
      (onMachine (Di.onTpm (attempt (tpmNvRead D dctpmNvIndex)))) fun o s => Faithful c u base s ∧
        ∃ d, o = some d ∧ HoldsIdentity c u d := by
    intro s
    have hsnd : (onMachine (Di.onTpm (attempt (tpmNvRead D dctpmNvIndex))) s).2 =
        { s with machine := { s.machine with tpm := (tpmNvRead D dctpmNvIndex s.machine.tpm).2 } } := by
      change { s with machine := { s.machine with tpm := (attempt (tpmNvRead D dctpmNvIndex) s.machine.tpm).2 } } = _
      rw [attempt_snd]
    rw [hsnd]
    rcases tpmNvRead_cases (D := D) dctpmNvIndex s.machine.tpm with ⟨d, n, hd, hread⟩ | ⟨t, hread, hcontent, hlt⟩
    · rw [hread]
      refine ⟨⟨le_rfl, le_rfl⟩, fun hs _ => ⟨hs.quiet rfl rfl, fun o ho => ⟨hs.quiet rfl rfl, d, ?_, ?_⟩⟩⟩
      · have hfst : (attempt (tpmNvRead D dctpmNvIndex) s.machine.tpm : Outcome Empty (Option Bytes) × Tpm).1 = .ok o := ho
        rw [attempt_ok_iff.2 (.inl ⟨d, rfl, hread⟩)] at hfst
        exact (Outcome.ok.inj hfst).symm
      · obtain ⟨d', hd', hholds⟩ := hs.identity
        obtain rfl : d = d' := Option.some.inj (hd.symm.trans hd')
        exact hholds
    · obtain ⟨es, hc, -⟩ := tpmNvRead_affects (D := D) dctpmNvIndex s.machine.tpm
      rw [hread] at hc ⊢
      exact ⟨⟨hc.failedReads, hc.failedWrites⟩, fun _ hback => absurd hback.1 (Nat.not_le.2 hlt)⟩
  refine hindex.bind fun o => ?_
  cases o with
  | none =>
    refine .unreached (.pure none) ?_
    rintro s ⟨-, d, hd, -⟩
    cases hd
  | some data =>
    refine .changes (g := id) (fun s => ?_) (fun _ => ⟨le_rfl, le_rfl⟩) (fun s hs => hs.1) ?_
    · exact attempt_snd (ofOutcome (read data)) s
    · rintro s o ⟨hs, d, hd, hholds⟩ ho
      obtain rfl := Option.some.inj hd
      refine ⟨hs, data, hholds, fun a ha => ?_⟩
      have hfst : (attempt (ofOutcome (read data) : Run MainState Unit α) s : Outcome Empty (Option α) × MainState).1 = .ok o := ho
      rw [attempt_ok_iff.2 (.inl ⟨a, rfl, ofOutcome_ok_iff.2 ⟨ha, rfl⟩⟩)] at hfst
      exact (Outcome.ok.inj hfst).symm

/-- The credentials are found. -/
theorem readFdoCredentials_stays {D : TpmDevice} :
    Keeps FailedLe (Faithful c u base) (Faithful c u base) (readFdoCredentials D) fun o s =>
      Faithful c u base s ∧ o = some c := by
  refine readDctpm_stays.weaken (fun _ hs => hs) ?_
  rintro o s ⟨hs, d, hholds, ho⟩
  exact ⟨hs, ho c hholds.credentials⟩

/-- Finding the URL of the Owner leaves the device as it is. -/
theorem ownerUrl_stays : Stays c u base (ownerUrl P opts) := by
  unfold ownerUrl
  split
  · exact return_stays _
  · exact readDctpm_stays.weaken (fun _ hs => hs) fun _ _ hs => hs.1

/-! ## The delivery -/

/-- A delivery only adds to the failures that were counted. -/
theorem checkAndDeliver_failed (D : TpmDevice) (boot : Boot) (s : Machine) :
    s.tpm.failedReads ≤ (checkAndDeliver Γ D boot s).2.tpm.failedReads ∧
      s.tpm.failedWrites ≤ (checkAndDeliver Γ D boot s).2.tpm.failedWrites := by
  have hblank : Affects Machine.tpm AnyEffects (Delivery.diIfBlank Γ D boot) := by
    refine (Delivery.askTpm_affects (tpmNvRead_affects dctpmNvIndex)).bind_any fun data => ?_
    cases data with
    | some data => exact .still (fun _ => rfl) trivial
    | none => exact Delivery.diAttempts_affects 3
  have hdeliver : Affects Machine.tpm AnyEffects (Delivery.deliver Γ D boot) := by
    rw [Delivery.deliver_eq]
    refine Affects.bind_any ?_ fun _ => Delivery.findFirmware_affects.bind_any fun found => Delivery.afterFind_affects found
    unfold onlyIf
    split
    · exact hblank
    · exact .still (fun _ => rfl) trivial
  obtain ⟨es, hc, -⟩ := hdeliver s
  rw [checkAndDeliver_snd]
  exact ⟨hc.failedReads, hc.failedWrites⟩

/-- A delivery leaves the structure as it is, or with another revision in it. -/
theorem checkAndDeliver_stays {D : TpmDevice} {boot : Boot} : Stays c u base (onMachine (checkAndDeliver Γ D boot)) := by
  intro s
  have hfailed := checkAndDeliver_failed (Γ := Γ) D boot s.machine
  refine ⟨hfailed, fun hs hback => ?_⟩
  have hto : BootTo Γ D boot s.machine (checkAndDeliver Γ D boot s.machine).2 :=
    ⟨rfl, le_antisymm hback.1 hfailed.1, le_antisymm hback.2 hfailed.2⟩
  obtain ⟨⟨d, hd, hholds⟩, ⟨new, hnew, hratchet⟩, hevents⟩ := hs
  obtain ⟨-, n, five, four, old, rest, l⟩ := id hholds
  have hrewritable : Dctpm.Rewritable d := ⟨_, _, _, _, l.parts⟩
  obtain ⟨more, hmore, hratchet'⟩ := Aux.ratchet_step (Aux.bootStep_of_rewritable hto hd hrewritable).1 hratchet
  have hnext : Faithful c u base { s with machine := (checkAndDeliver Γ D boot s.machine).2 } := by
    refine ⟨?_, ⟨new ++ more, ?_, hratchet'⟩, hevents⟩
    · rcases Aux.bootTo_cases hto with ⟨-, hcontent⟩ | ⟨d', payload, image, hd', hoffers, -, hratcheted, -⟩
      · exact ⟨d, hcontent.trans hd, hholds⟩
      · obtain rfl : d = d' := Option.some.inj (hd.symm.trans hd')
        rcases hratcheted with ⟨hsame, -⟩ | ⟨o, z, -, ho, hwritten⟩
        · exact ⟨d, hsame, hholds⟩
        · exact ⟨o ++ z, hwritten, (identity_rewritten hholds hoffers.rev_lt ho z).1⟩
    · exact hmore.trans (by rw [hnew, List.append_assoc])
  exact ⟨hnext, fun _ _ => hnext⟩

/-- A delivery keeps the identity. -/
theorem deliverFirmware_stays : Stays c u base (deliverFirmware Γ P opts) := by
  unfold deliverFirmware
  refine .ite (fun _ => ?_) fun _ => return_stays _
  exact checkAndDeliver_stays.bind fun result => (note_stays (e := .delivered result) trivial).bind fun _ => return_stays _

/-! ## The parts of a boot -/

/-- Onboarding with the credentials of the index keeps the identity. -/
theorem runOnboarding_stays : Stays c u base (runOnboarding Γ P opts c) := by
  refine ownerUrl_stays.bind fun o => ?_
  cases o with
  | none => exact return_stays ()
  | some url =>
    refine (onSession_stays _).bind fun to1d => ?_
    refine (note_stays (e := .to1 url c.guid c.deviceKeyHandle to1d) ⟨rfl, rfl⟩).bind fun _ => ?_
    refine (onSession_stays _).bind fun done => ?_
    exact note_stays (e := .to2 ⟨url, c.guid, c.deviceKeyHandle, c.hmacKeyHandle, to1d⟩ done.isSome) ⟨rfl, rfl, rfl⟩

/-- An event that is noted is no failure. -/
theorem note_failed (e : MainEvent) : Effect FailedLe (note e) := fun _ => ⟨le_rfl, le_rfl⟩

/-- The attempts at DI only add to the failures. -/
theorem diAttempts_failed (n attempt : Nat) : Effect FailedLe (diAttempts Γ P opts n attempt) := by
  induction n generalizing attempt with
  | zero => exact .pure ()
  | succ n ih =>
    have hdi : Effect FailedLe (onMachine (caught (runDiProtocol Γ P.tpm (P.diServer attempt) opts.diUrl))) := by
      intro s
      obtain ⟨es, hc, -⟩ := Di.runDiProtocol_affects (Γ := Γ) (D := P.tpm) (P.diServer attempt) opts.diUrl s.machine
      have hsnd : ((caught (runDiProtocol Γ P.tpm (P.diServer attempt) opts.diUrl) : Run Machine Empty (Except DiFailure Unit))
          s.machine).2 = (runDiProtocol Γ P.tpm (P.diServer attempt) opts.diUrl s.machine).2 := caught_snd _ _
      rw [← hsnd] at hc
      exact ⟨hc.failedReads, hc.failedWrites⟩
    refine hdi.bind fun result => (note_failed _).bind fun _ => ?_
    cases result with
    | ok done => exact .pure ()
    | error e =>
      cases e with
      | notFound => exact .pure ()
      | deviceError => exact ih (attempt + 1)
      | protocolError => exact ih (attempt + 1)

/-- A device with an identity is not initialised. -/
theorem onboardOrInitialise_stays (hforce : opts.forceDi = false) : Stays c u base (onboardOrInitialise Γ P opts) := by
  rw [onboardOrInitialise_eq, if_neg (Bool.not_eq_true _ ▸ hforce)]
  refine readFdoCredentials_stays.bind fun existing => ?_
  cases existing with
  | none =>
    refine .unreached (Effect.onlyIf (diAttempts_failed 3 0)) ?_
    rintro s ⟨-, hc⟩
    cases hc
  | some creds =>
    have hstays : Stays creds u base (onlyIf (P.fdoInstaller = true) (runOnboarding Γ P opts creds)) :=
      .onlyIf fun _ => runOnboarding_stays
    by_cases hc : creds = c
    · subst hc
      exact hstays.weaken (fun _ hs => hs.1) fun _ _ hs => hs
    · refine .unreached hstays.effect ?_
      rintro s ⟨-, hsome⟩
      exact hc (Option.some.inj hsome)

/-- With a TPM, a start keeps the identity if DI is not forced. -/
theorem withTpm_stays (hforce : opts.forceDi = false) : Stays c u base (withTpm Γ P opts) := by
  refine deliverFirmware_stays.bind fun chainloaded => .ite (fun _ => return_stays _) fun _ => ?_
  refine Keeps.bind (.onlyIf fun _ => onboardOrInitialise_stays hforce) fun _ => ?_
  exact (note_stays (e := .watchdog 0 0x10000) trivial).bind fun _ => return_stays _

/-- The chain-load test leaves the device as it is. -/
theorem controlTest_stays (path : Bytes) : Stays c u base (controlTest P path) := by
  unfold controlTest
  split
  next image _ => exact note_stays (e := .chainload image) trivial
  · exact return_stays ()

/-- With a TPM, a whole start keeps the identity if DI is not forced. -/
theorem main_stays (hforce : (parseArgs P.commandLine).forceDi = false) : Stays c u base (main Γ P) := by
  refine (note_stays (e := .watchdog watchdogTimeoutSecs 0x10000) trivial).bind fun _ => ?_
  refine Keeps.bind (note_stays (e := .loadMode _ _) trivial) fun _ => ?_
  split
  next secs _ => exact (note_stays (e := .watchdog secs 0x10002) trivial).bind fun _ => return_stays _
  next path _ _ =>
    refine (controlTest_stays path).bind fun _ => ?_
    exact (note_stays (e := .watchdog 0 0x10000) trivial).bind fun _ => return_stays _
  · exact .ite (fun _ => withTpm_stays hforce) fun _ => return_stays _

/-- One boot leaves a faithful state faithful. -/
theorem faithful_step {s t : MainState} (hstep : BootsTo Γ s t) (hs : Faithful c u base s) : Faithful c u base t := by
  obtain ⟨P, hforce, rfl, hreads, hwrites⟩ := hstep
  exact ((main_stays hforce s).2 hs ⟨hreads.le, hwrites.le⟩).1

/-- Every run does. -/
theorem faithful_run {s t : MainState} (hrun : Relation.ReflTransGen (BootsTo Γ) s t) (hs : Faithful c u base s) :
    Faithful c u base t := by
  induction hrun with
  | refl => exact hs
  | tail _ hstep ih => exact faithful_step hstep ih

end LifeAux

open LifeAux

/-- Over every sequence of boots without `-force-di` in which no read and no write of an index fails, a device that holds an
identity keeps it, acts as itself only and is not initialised again, and no image is chain-loaded after one with a higher revision. -/
theorem identity_for_life {Γ : Ctx} {c : FdoCredentials} {u d : Bytes} {s t : MainState}
    (hrun : Relation.ReflTransGen (BootsTo Γ) s t) (hd : s.machine.tpm.content dctpmNvIndex = some d) (h : HoldsIdentity c u d) :
    (∃ d', t.machine.tpm.content dctpmNvIndex = some d' ∧ HoldsIdentity c u d') ∧
      (∃ new, t.trace = s.trace ++ new ∧ ∀ e ∈ new, MainEvent.ActsAs c e) ∧
      ∃ new, t.machine.chainloaded = s.machine.chainloaded ++ new ∧ new.Pairwise fun a b => a.1.firmwareRev ≤ b.1.firmwareRev := by
  have hstart : Faithful c u s s :=
    ⟨⟨d, hd, h⟩, ⟨[], (List.append_nil _).symm, .nil, by simp⟩, [], (List.append_nil _).symm, by simp⟩
  obtain ⟨hid, ⟨new, hnew, hratchet⟩, hevents⟩ := faithful_run hrun hstart
  exact ⟨hid, hevents, new, hnew, hratchet.ascending⟩

/-! ## A boot -/

/-- What DI makes of the header that asks for revision 7. -/
def sampleIdentity : Bytes :=
  ((Di.parseOvHeaderCbor sampleOvHeader7).toOption.map fun h => Di.buildDctpm sampleDiCtx h Di.fdoDakHandle Di.fdoHmacHandle).getD []

/-- The sample index holds an identity. -/
theorem sampleIdentity_holds : ∃ c u, HoldsIdentity c u sampleIdentity := by
  have hshort : Outcome.okWith (fun h : Di.OvHeader => h.deviceInfo.length < 256 ∧
      Tpm.skipCborValue h.rvInfo 0 = (.ok (), h.rvInfo.length)) (Di.parseOvHeaderCbor sampleOvHeader7) = true := by
    decide +kernel
  obtain ⟨h, hparse, hcond⟩ := Outcome.okWith_iff.1 hshort
  obtain ⟨hinfo, hskip⟩ := of_decide_eq_true hcond
  have hbuilt := identity_built sampleDiCtx_digest (s := ⟨sampleOvHeader7, by decide +kernel⟩) hparse hinfo hskip
    0x81020002 0x81020003 []
  rw [List.append_nil] at hbuilt
  rw [sampleIdentity, hparse]
  exact ⟨_, _, hbuilt⟩

/-- A boot with a URL on the command line, and nobody who answers. -/
def samplePlatform : Platform where
  rvFirmware := true
  fdoInstaller := true
  tpm := sampleDevice fun _ => .run
  tpmPresent := true
  commandLine := some ((utf8 "fdo -rv http://o").map UInt8.toUInt16)
  readFile := fun _ => none
  boot := sampleBoot []
  diServer := fun _ _ => none
  peers := ⟨fun _ => none, fun _ => none, fun _ _ _ => none, fun _ _ _ => none, fun _ _ _ _ _ => none, fun _ _ _ => none⟩

def sampleStart : MainState := ⟨sampleHolding sampleIdentity (by decide +kernel), []⟩

/-- What that boot leaves. -/
def sampleLater : MainState := (main sampleDiCtx samplePlatform sampleStart).2

/-- The sample device keeps its identity from start to start. -/
theorem sampleLater_identity :
    ∃ c u, (∃ d', sampleLater.machine.tpm.content dctpmNvIndex = some d' ∧ HoldsIdentity c u d') ∧
      (∃ new, sampleLater.trace = sampleStart.trace ++ new ∧ ∀ e ∈ new, MainEvent.ActsAs c e) ∧
      ∃ new, sampleLater.machine.chainloaded = sampleStart.machine.chainloaded ++ new ∧
        new.Pairwise fun a b => a.1.firmwareRev ≤ b.1.firmwareRev := by
  have hboots : BootsTo sampleDiCtx sampleStart sampleLater :=
    ⟨samplePlatform, by decide +kernel, rfl, by decide +kernel, by decide +kernel⟩
  have hcontent : sampleStart.machine.tpm.content dctpmNvIndex = some sampleIdentity := by decide +kernel
  obtain ⟨c, u, hholds⟩ := sampleIdentity_holds
  exact ⟨c, u, identity_for_life (.single hboots) hcontent hholds⟩

end FdoUefi
