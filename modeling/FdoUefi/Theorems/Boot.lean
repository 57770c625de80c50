import FdoUefi.Lib.Speaks
import FdoUefi.Main

/-!
# What a boot does

The events of a boot are a word of one language, which the command line and the features of the image choose; a boot that panics
has done the beginning of one. After the delivery, unless that has chain-loaded an image, the program onboards the device or
initialises it, and never both: TO1 and TO2 run at one URL with one set of credentials and TO2 gets what came of TO1, and there are
three attempts at Device Initialization unless one before the third ends them.
-/

namespace FdoUefi

open Prog Prog.Run

/-! ## The language -/

def event (e : MainEvent) : Language MainEvent := fun w => w = [e]

/-- TO1 and TO2 with their results. -/
def onboardingEvents (Γ : Ctx) (P : Platform) (url : Bytes) (creds : FdoCredentials) : List MainEvent :=
  let to1d := (performTo1 Γ P.boot.fuel P.peers url creds.guid creds.deviceKeyHandle .new).1.toOption
  let args : To2Args := ⟨url, creds.guid, creds.deviceKeyHandle, creds.hmacKeyHandle, to1d⟩
  [.to1 url creds.guid creds.deviceKeyHandle to1d, .to2 args (performTo2 Γ P.boot.fuel P.peers args .new).1.toOption.isSome]

/-- Nothing, or TO1 and TO2 at a URL, which is that of the command line if there is one. -/
def onboardings (Γ : Ctx) (P : Platform) (opts : FdoOptions) : Language MainEvent := fun w =>
  w = [] ∨ ∃ url creds, (∀ rvUrl, opts.rvUrl = some rvUrl → url = rvUrl) ∧ w = onboardingEvents Γ P url creds

/-- Does an attempt at Device Initialization end the attempts? -/
def EndsAttempts (result : Except DiFailure Unit) : Prop := result = .ok () ∨ result = .error .notFound

/-- Up to so many attempts at Device Initialization: fewer only when the last of them ends the attempts. -/
def initialisations (url : Option Bytes) : Nat → Language MainEvent
  | 0 => 1
  | n + 1 => fun w => ∃ result rest, w = .di url result :: rest ∧
    (EndsAttempts result ∧ rest = [] ∨ ¬EndsAttempts result ∧ rest ∈ initialisations url n)

/-- The device is onboarded, if it may be, or initialised. -/
def provisionings (Γ : Ctx) (P : Platform) (opts : FdoOptions) : Language MainEvent := fun w =>
  w = [] ∨ P.fdoInstaller = true ∧ opts.forceDi = false ∧ w ∈ onboardings Γ P opts ∨
    P.boot.di = true ∧ w ∈ initialisations opts.diUrl 3

/-- The firmware delivery, and what follows it unless an image was chain-loaded. -/
def afterDelivery (P : Platform) (opts : FdoOptions) (L : Language MainEvent) : Language MainEvent := fun w =>
  if P.rvFirmware = true ∧ opts.forceDi = false then
    w = [.delivered .chainloaded] ∨ ∃ result rest, result ≠ .chainloaded ∧ w = .delivered result :: rest ∧ rest ∈ L
  else w ∈ L

/-- The image of a file that was named on the command line. -/
def controlEvents (P : Platform) (path : Bytes) : List MainEvent := (P.readFile path).toList.map .chainload

/-- What the options of a boot lead to. -/
def optionTraces (Γ : Ctx) (P : Platform) (opts : FdoOptions) : Language MainEvent :=
  match opts.watchdogTest, opts.chainloadFile with
  | some secs, _ => event (.watchdog secs 0x10002)
  | none, some path => fun w => w = controlEvents P path ++ [.watchdog 0 0x10000]
  | none, none =>
    if P.tpmPresent = true then afterDelivery P opts (provisionings Γ P opts * event (.watchdog 0 0x10000)) else 1

/-- The events of a boot. -/
def bootTraces (Γ : Ctx) (P : Platform) : Language MainEvent :=
  let opts := parseArgs P.commandLine
  event (.watchdog watchdogTimeoutSecs 0x10000) * (event (.loadMode opts.loadMode opts.teardown) * optionTraces Γ P opts)

namespace BootAux

variable {Γ : Ctx} {P : Platform} {opts : FdoOptions} {L : Language MainEvent} {α β : Type}

open Main

/-- An event is a word of its language. -/
theorem event_word (e : MainEvent) : [e] ∈ event e := rfl

/-- Provisioning may say nothing. -/
theorem nil_mem_provisionings : [] ∈ provisionings Γ P opts := .inl rfl

/-- There can be attempts at DI. -/
theorem initialisations_word (url : Option Bytes) (n : Nat) : ∃ v, v ∈ initialisations url n := by
  cases n with
  | zero => exact ⟨[], rfl⟩
  | succ n => exact ⟨[.di url (.ok ())], _, [], rfl, .inl ⟨.inl rfl, rfl⟩⟩

/-- The watchdog can be disarmed after provisioning. -/
theorem disarmed_word : ∃ v, v ∈ provisionings Γ P opts * event (.watchdog 0 0x10000) :=
  ⟨_, Language.append_mem_mul nil_mem_provisionings (event_word _)⟩

/-- What follows a delivery has a word if the rest has. -/
theorem afterDelivery_word (h : ∃ v, v ∈ L) : ∃ v, v ∈ afterDelivery P opts L := by
  by_cases hdelivers : P.rvFirmware = true ∧ opts.forceDi = false
  · exact ⟨[.delivered .chainloaded], (if_pos hdelivers).mpr (.inl rfl)⟩
  · obtain ⟨v, hv⟩ := h
    exact ⟨v, (if_neg hdelivers).mpr hv⟩

/-- Every choice of options has a word. -/
theorem optionTraces_word : ∃ v, v ∈ optionTraces Γ P opts := by
  unfold optionTraces
  split
  · exact ⟨_, event_word _⟩
  · exact ⟨_, rfl⟩
  · split
    · exact afterDelivery_word disarmed_word
    · exact ⟨[], rfl⟩

/-! ## The calls -/

/-- An event that is noted is said. -/
theorem note_speaks (e : MainEvent) : Speaks MainState.trace (event e) (note e) :=
  fun _ => ⟨[e], rfl, mem_openings_of_mem (event_word e), fun _ _ => event_word e⟩

/-- What is said in a call is said after an event that is noted. -/
theorem note_bind {e : MainEvent} {f : Unit → Main α} {v : List MainEvent} (hv : v ∈ L) (hf : Speaks MainState.trace L (f ())) :
    Speaks MainState.trace (event e * L) (note e >>= f) :=
  .bind hv (note_speaks e) fun _ _ => hf

/-- A word that starts with an event is that event and a word of the rest. -/
theorem event_mul_mem {e : MainEvent} {w : List MainEvent} : w ∈ event e * L ↔ ∃ rest ∈ L, w = e :: rest := by
  rw [Language.mem_mul]
  constructor
  · rintro ⟨_, rfl, rest, hrest, rfl⟩
    exact ⟨rest, hrest, rfl⟩
  · rintro ⟨rest, hrest, rfl⟩
    exact ⟨[e], rfl, rest, hrest, rfl⟩

/-- Work on the machine says nothing. -/
theorem onMachine_silent (m : Run Machine Empty α) : Silent MainState.trace (onMachine m) := fun _ => rfl

/-- A session says nothing of itself, and what it returns is its result. -/
theorem onSession_ok {m : To2 α} {o : Option α} {s : MainState} (h : (onSession m s).1 = .ok o) : o = (m .new).1.toOption := by
  unfold onSession at h
  cases hm : (m .new).1 with
  | ok a =>
    rw [hm] at h
    exact (Outcome.ok.inj h).symm
  | err e =>
    rw [hm] at h
    exact (Outcome.ok.inj h).symm
  | panic =>
    rw [hm] at h
    cases h
  | hang =>
    rw [hm] at h
    cases h

/-- Asking for a session leaves the state alone. -/
theorem onSession_still (m : To2 α) (s : MainState) : (onSession m s).2 = s := by
  unfold onSession
  split <;> rfl

/-- Asking for a session says nothing. -/
theorem onSession_silent (m : To2 α) : Silent MainState.trace (onSession m) := fun s => congrArg MainState.trace (onSession_still m s)

/-- What follows a session follows its result. -/
theorem onSession_bind {m : To2 α} {f : Option α → Main β} {v : List MainEvent} (hv : v ∈ L)
    (hf : Speaks MainState.trace L (f (m .new).1.toOption)) : Speaks MainState.trace L (onSession m >>= f) := by
  refine .after hv (onSession_silent m) ?_
  rintro o ⟨s, hs⟩
  rw [onSession_ok hs]
  exact hf

/-- Reading the index says nothing. -/
theorem readDctpm_silent {D : TpmDevice} {read : Bytes → Outcome Unit α} : Silent MainState.trace (readDctpm D read) := by
  refine .bind (onMachine_silent _) fun data => ?_
  cases data with
  | none => exact .pure _
  | some data =>
    intro s
    change (attempt (ofOutcome (read data)) s).2.trace = s.trace
    unfold attempt ofOutcome
    cases read data <;> rfl

/-- Finding the URL of the Owner says nothing. -/
theorem ownerUrl_silent : Silent MainState.trace (ownerUrl P opts) := by
  unfold ownerUrl
  split
  · exact .pure _
  · exact readDctpm_silent

/-- The URL of the command line comes first. -/
theorem ownerUrl_ok {url : Bytes} {s : MainState} (h : (ownerUrl P opts s).1 = .ok (some url)) (rvUrl : Bytes)
    (hrv : opts.rvUrl = some rvUrl) : url = rvUrl := by
  rw [ownerUrl, hrv] at h
  exact (Option.some.inj (Outcome.ok.inj h)).symm

/-- Onboarding says TO1 and TO2. -/
theorem runOnboarding_speaks (creds : FdoCredentials) :
    Speaks MainState.trace (onboardings Γ P opts) (runOnboarding Γ P opts creds) := by
  refine .after (v := []) (.inl rfl) ownerUrl_silent ?_
  rintro o ⟨s, hs⟩
  cases o with
  | none => exact Speaks.of_silent (.inl rfl) (.pure _)
  | some url =>
    have hevents : ∀ w, w = onboardingEvents Γ P url creds → w ∈ onboardings Γ P opts := fun w hw =>
      .inr ⟨url, creds, ownerUrl_ok hs, hw⟩
    refine Speaks.mono (L := fun w => w = onboardingEvents Γ P url creds) ?_ hevents
    refine onSession_bind rfl ((note_bind (event_word _) (onSession_bind (event_word _) (note_speaks _))).mono ?_)
    intro w hw
    obtain ⟨rest, rfl, rfl⟩ := event_mul_mem.1 hw
    rfl

/-- The attempts at DI say so many of them. -/
theorem diAttempts_speaks (n attempt : Nat) :
    Speaks MainState.trace (initialisations opts.diUrl n) (diAttempts Γ P opts n attempt) := by
  induction n generalizing attempt with
  | zero => exact Speaks.of_silent rfl (.pure _)
  | succ n ih =>
    obtain ⟨v, hv⟩ := initialisations_word opts.diUrl (n + 1)
    refine .after hv (onMachine_silent _) ?_
    rintro result -
    have hlast (hends : EndsAttempts result) : event (.di opts.diUrl result) * 1 ≤ initialisations opts.diUrl (n + 1) := by
      intro w hw
      obtain ⟨rest, hrest, rfl⟩ := event_mul_mem.1 hw
      exact ⟨result, rest, rfl, .inl ⟨hends, hrest⟩⟩
    have hmore (hgoes : ¬EndsAttempts result) :
        event (.di opts.diUrl result) * initialisations opts.diUrl n ≤ initialisations opts.diUrl (n + 1) := by
      intro w hw
      obtain ⟨rest, hrest, rfl⟩ := event_mul_mem.1 hw
      exact ⟨result, rest, rfl, .inr ⟨hgoes, hrest⟩⟩
    have hnil : [] ∈ (1 : Language MainEvent) := rfl
    obtain ⟨u, hu⟩ := initialisations_word opts.diUrl n
    cases result with
    | ok done => exact (note_bind hnil (.silent (.pure _))).mono (hlast (.inl rfl))
    | error e =>
      cases e with
      | notFound => exact (note_bind hnil (.silent (.pure _))).mono (hlast (.inr rfl))
      | deviceError => exact (note_bind hu (ih (attempt + 1))).mono (hmore (by simp [EndsAttempts]))
      | protocolError => exact (note_bind hu (ih (attempt + 1))).mono (hmore (by simp [EndsAttempts]))

/-- A device with credentials is onboarded, one without is initialised. -/
theorem onboardOrInitialise_eq : onboardOrInitialise Γ P opts =
    (if opts.forceDi = true then pure none else readFdoCredentials P.tpm) >>= fun existing =>
      existing.elim (onlyIf (P.boot.di = true) (diAttempts Γ P opts 3 0)) fun creds =>
        onlyIf (P.fdoInstaller = true) (runOnboarding Γ P opts creds) := by
  unfold onboardOrInitialise
  split
  all_goals exact bind_congr fun existing => by cases existing <;> rfl

/-- A device is onboarded only with credentials that were asked for. -/
theorem onboardOrInitialise_speaks : Speaks MainState.trace (provisionings Γ P opts) (onboardOrInitialise Γ P opts) := by
  rw [onboardOrInitialise_eq]
  refine .after nil_mem_provisionings ?_ ?_
  · split
    · exact .pure _
    · exact readDctpm_silent
  · rintro existing ⟨s, hs⟩
    cases existing with
    | none => exact .onlyIf nil_mem_provisionings fun hdi => (diAttempts_speaks 3 0).mono fun w hw => .inr (.inr ⟨hdi, hw⟩)
    | some creds =>
      have hforce : opts.forceDi = false := by
        by_contra hno
        rw [if_pos (Bool.eq_true_of_not_eq_false hno)] at hs
        cases hs
      refine .onlyIf nil_mem_provisionings fun hinstalls => ?_
      exact (runOnboarding_speaks creds).mono fun w hw => .inr (.inl ⟨hinstalls, hforce, hw⟩)

/-- The chain-load test says its events. -/
theorem controlTest_speaks (path : Bytes) : Speaks MainState.trace (fun w => w = controlEvents P path) (controlTest P path) := by
  unfold controlTest controlEvents
  cases P.readFile path with
  | none => exact .silent (.pure _)
  | some image => exact note_speaks (.chainload image)

/-- Provisioning says what it may, and disarms the watchdog. -/
theorem provision_speaks :
    Speaks MainState.trace (provisionings Γ P opts * event (.watchdog 0 0x10000)) (do
      onlyIf (P.boot.di = true ∨ P.fdoInstaller = true) (onboardOrInitialise Γ P opts)
      note (.watchdog 0 0x10000)
      return ExitStatus.success) := by
  refine .bind (event_word _) (.onlyIf nil_mem_provisionings fun _ => onboardOrInitialise_speaks) fun _ _ => ?_
  exact (note_speaks _).before fun _ => .pure _

/-- With a TPM, delivery comes first and provisioning behind it. -/
theorem withTpm_speaks :
    Speaks MainState.trace (afterDelivery P opts (provisionings Γ P opts * event (.watchdog 0 0x10000))) (withTpm Γ P opts) := by
  have hdisarmed : ∃ v, v ∈ provisionings Γ P opts * event (.watchdog 0 0x10000) := disarmed_word
  obtain ⟨v, hv⟩ := afterDelivery_word hdisarmed
  by_cases hdelivers : P.rvFirmware = true ∧ opts.forceDi = false
  · have hopen (w : List MainEvent) : w ∈ afterDelivery P opts (provisionings Γ P opts * event (.watchdog 0 0x10000)) ↔
        w = [.delivered .chainloaded] ∨ ∃ result rest, result ≠ .chainloaded ∧ w = .delivered result :: rest ∧
          rest ∈ provisionings Γ P opts * event (.watchdog 0 0x10000) := iff_of_eq (if_pos hdelivers)
    unfold withTpm deliverFirmware
    rw [if_pos hdelivers]
    simp only [bind_assoc, pure_bind]
    refine .after hv (onMachine_silent _) ?_
    rintro result -
    by_cases hchain : result = .chainloaded
    · subst hchain
      have hnil : [] ∈ (1 : Language MainEvent) := rfl
      refine (note_bind hnil ?_).mono fun w hw => ?_
      · simp only [decide_true, if_true]
        exact .silent (.pure _)
      · obtain ⟨rest, rfl, rfl⟩ := event_mul_mem.1 hw
        exact (hopen _).2 (.inl rfl)
    · obtain ⟨u, hu⟩ := hdisarmed
      refine (note_bind hu ?_).mono fun w hw => ?_
      · simp only [hchain, decide_false, Bool.false_eq_true, if_false]
        exact provision_speaks
      · obtain ⟨rest, hrest, rfl⟩ := event_mul_mem.1 hw
        exact (hopen _).2 (.inr ⟨result, rest, hchain, rfl, hrest⟩)
  · unfold withTpm deliverFirmware
    rw [if_neg hdelivers, pure_bind]
    exact provision_speaks.mono fun w hw => (if_neg hdelivers).mpr hw

/-- The load mode is set, and the options decide on the rest. -/
theorem withOptions_speaks :
    Speaks MainState.trace (event (.loadMode opts.loadMode opts.teardown) * optionTraces Γ P opts) (withOptions Γ P opts) := by
  obtain ⟨v, hv⟩ : ∃ v, v ∈ optionTraces Γ P opts := optionTraces_word
  refine note_bind hv ?_
  unfold optionTraces
  cases hsecs : opts.watchdogTest with
  | some secs => exact (note_speaks _).before fun _ => .pure _
  | none =>
    cases hpath : opts.chainloadFile with
    | some path =>
      have hspeaks : Speaks MainState.trace _ (controlTest P path >>= fun _ => note (.watchdog 0 0x10000) >>= fun _ =>
          pure ExitStatus.success) := .bind (event_word _) (controlTest_speaks path) fun _ _ => (note_speaks _).before fun _ => .pure _
      refine hspeaks.mono fun w hw => ?_
      obtain ⟨_, rfl, _, rfl, rfl⟩ := Language.mem_mul.1 hw
      rfl
    | none =>
      by_cases hpresent : P.tpmPresent = true
      · simp only [if_pos hpresent]
        exact withTpm_speaks
      · simp only [if_neg hpresent]
        exact .silent (.pure _)

/-- A start of the program says a trace of a boot. -/
theorem main_speaks : Speaks MainState.trace (bootTraces Γ P) (main Γ P) :=
  note_bind (Language.append_mem_mul (event_word _) optionTraces_word.choose_spec) withOptions_speaks

end BootAux

open BootAux

/-- The events of every boot are a word of its language, or the beginning of one when the boot ends in a panic. -/
theorem main_trace (Γ : Ctx) (P : Platform) (machine : Machine) :
    (main Γ P ⟨machine, []⟩).2.trace ∈ openings (bootTraces Γ P) ∧
      ∀ status, (main Γ P ⟨machine, []⟩).1 = .ok status → (main Γ P ⟨machine, []⟩).2.trace ∈ bootTraces Γ P :=
  main_speaks.all rfl

end FdoUefi
