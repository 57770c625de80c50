import FdoUefi.Credentials
import FdoUefi.Delivery
import FdoUefi.To1
import FdoUefi.To2

/-!
# The program (`main.rs`)

One boot: the command line is parsed, firmware is delivered if that is compiled in, and the device is onboarded with the credentials
in its TPM, or initialised when it has none. What a boot meets is a `Platform`; what it does beside the calls of the protocols is
its trace.
-/

namespace FdoUefi

open Prog Prog.Run

/-! ## The command line -/

inductive LoadMode where
  | buffer
  | file
  deriving DecidableEq, Repr

/-- The options of the command line. -/
structure FdoOptions where
  diUrl : Option Bytes
  rvUrl : Option Bytes
  watchdogTest : Option Nat
  chainloadFile : Option Bytes
  forceDi : Bool
  loadMode : LoadMode
  teardown : Bool
  verbose : Bool
  deriving DecidableEq, Repr

def FdoOptions.default : FdoOptions where
  diUrl := none
  rvUrl := none
  watchdogTest := none
  chainloadFile := none
  forceDi := false
  loadMode := .buffer
  teardown := false
  verbose := false

/-- `u8::is_ascii_whitespace` -/
def isAsciiWhitespace (b : UInt8) : Bool := b = 0x20 || b = 0x09 || b = 0x0A || b = 0x0C || b = 0x0D

/-- `split_ascii_whitespace` -/
def splitAsciiWhitespace (s : Bytes) : List Bytes := (s.splitOnP isAsciiWhitespace).filter (· ≠ [])

/-- The load mode that a word names. -/
def loadModeOf (word : Bytes) : LoadMode := if word = utf8 "file" then .file else .buffer

/-- The seconds that follow `-watchdog`, and what is left: 30, unless the next word is a number. -/
def watchdogSecs : List Bytes → Nat × List Bytes
  | [] => (30, [])
  | word :: rest =>
    match parseUnsigned 64 word with
    | some n => (n, rest)
    | none => (30, word :: rest)

/-- The loop over the words, with the number of rounds it may still go. -/
def parseWords : Nat → List Bytes → FdoOptions → FdoOptions
  | 0, _, opts => opts
  | _, [], opts => opts
  | n + 1, flag :: rest, opts =>
    if flag = utf8 "-di" then
      match rest with
      | url :: rest => parseWords n rest { opts with diUrl := some url }
      | [] => opts
    else if flag = utf8 "-rv" then
      match rest with
      | url :: rest => parseWords n rest { opts with rvUrl := some url }
      | [] => opts
    else if flag = utf8 "-watchdog" then
      parseWords n (watchdogSecs rest).2 { opts with watchdogTest := some (watchdogSecs rest).1 }
    else if flag = utf8 "-v" ∨ flag = utf8 "-verbose" then parseWords n rest { opts with verbose := true }
    else if flag = utf8 "-teardown" then parseWords n rest { opts with teardown := true }
    else if flag = utf8 "-load-mode" then
      match rest with
      | word :: rest => parseWords n rest { opts with loadMode := loadModeOf word }
      | [] => opts
    else if flag = utf8 "-force-di" then parseWords n rest { opts with forceDi := true }
    else if flag = utf8 "-chainload" then
      match rest with
      | path :: rest => parseWords n rest { opts with chainloadFile := some path }
      | [] => opts
    -- `-h` prints the usage; it and every other word change nothing
    else parseWords n rest opts

/-- The low bytes of the characters, up to the first that is zero. -/
def asciiOf (chars : List UInt16) : Bytes := (chars.map UInt16.toUInt8).takeWhile (· ≠ 0)

/-- `parse_args`, on the load options of the image if they are a text. The first word is the path of the program. -/
def parseArgs (commandLine : Option (List UInt16)) : FdoOptions :=
  match commandLine with
  | none => .default
  | some chars =>
    let args := asciiOf chars
    if utf8Valid args then parseWords args.length (splitAsciiWhitespace args).tail .default else .default

/-! ## A boot -/

/-- `WATCHDOG_TIMEOUT_SECS` -/
def watchdogTimeoutSecs : Nat := 1800

/-- What a boot does. -/
inductive MainEvent where
  /-- `set_watchdog_timer` -/
  | watchdog (secs code : Nat)
  /-- `set_load_mode` and `set_teardown` -/
  | loadMode (mode : LoadMode) (teardown : Bool)
  /-- An image from the ESP is chain-loaded. -/
  | chainload (image : Bytes)
  | delivered (result : DeliveryResult)
  | di (url : Option Bytes) (result : Except DiFailure Unit)
  | to1 (rvUrl guid : Bytes) (deviceKeyHandle : Nat) (to1d : Option Bytes)
  | to2 (args : To2Args) (succeeded : Bool)

/-- What a boot meets: the features that are compiled in (`di` is that of the firmware delivery), the TPM, the networks of the
protocols and the firmware. -/
structure Platform where
  rvFirmware : Bool
  fdoInstaller : Bool
  tpm : TpmDevice
  tpmPresent : Bool
  commandLine : Option (List UInt16)
  readFile : Bytes → Option Bytes
  boot : Boot
  /-- The answers to the messages of an attempt at Device Initialization. -/
  diServer : Nat → Nat → Option HttpPostResponse
  peers : World

structure MainState where
  machine : Machine
  trace : List MainEvent

inductive ExitStatus where
  | success
  | deviceError
  deriving DecidableEq, Repr

/-- A part of `main`. It has no error of its own; a panic reboots the machine. -/
abbrev Main (α : Type) : Type := Run MainState Empty α

namespace Main

def note (e : MainEvent) : Main Unit := modifyS fun s => { s with trace := s.trace ++ [e] }

def onMachine {α : Type} (m : Run Machine Empty α) : Main α := onPart MainState.machine (fun machine s => { s with machine }) m

/-- A session with a peer, from its beginning. -/
def onSession {α : Type} (m : To2 α) : Main (Option α) :=
  match (m .new).1 with
  | .ok a => return some a
  | .err _ => return none
  | .panic => panics
  | .hang => hangs

/-- `load_file_from_esp` and `chainload_image`, whose results are only logged. -/
def controlTest (P : Platform) (path : Bytes) : Main Unit :=
  match P.readFile path with
  | some data => note (.chainload data)
  | none => return ()

/-- What a reader makes of the DCTPM index; `None` where it cannot be read. -/
def readDctpm {α : Type} (D : TpmDevice) (read : Bytes → Outcome Unit α) : Main (Option α) := do
  match ← onMachine (Di.onTpm (attempt (tpmNvRead D dctpmNvIndex))) with
  | none => return none
  | some data => attempt (ofOutcome (read data) : Run MainState Unit α)

/-- `read_fdo_credentials` -/
def readFdoCredentials (D : TpmDevice) : Main (Option FdoCredentials) := readDctpm D Tpm.readFdoCredentials

/-- `read_fdo_rv_info` -/
def readFdoRvInfo (D : TpmDevice) : Main (Option Bytes) := readDctpm D Tpm.readFdoRvInfo

/-- The URL of the command line, or that of the credentials. -/
def ownerUrl (P : Platform) (opts : FdoOptions) : Main (Option Bytes) :=
  match opts.rvUrl with
  | some url => return some url
  | none => readFdoRvInfo P.tpm

/-- `run_onboarding`: TO1, and TO2 with or without its result. -/
def runOnboarding (Γ : Ctx) (P : Platform) (opts : FdoOptions) (creds : FdoCredentials) : Main Unit := do
  match ← ownerUrl P opts with
  | none => return ()
  | some url =>
    let to1d ← onSession (performTo1 Γ P.boot.fuel P.peers url creds.guid creds.deviceKeyHandle)
    note (.to1 url creds.guid creds.deviceKeyHandle to1d)
    let args : To2Args := ⟨url, creds.guid, creds.deviceKeyHandle, creds.hmacKeyHandle, to1d⟩
    let done ← onSession (performTo2 Γ P.boot.fuel P.peers args)
    note (.to2 args done.isSome)

/-- Up to so many attempts at Device Initialization, after some others. -/
def diAttempts (Γ : Ctx) (P : Platform) (opts : FdoOptions) : Nat → Nat → Main Unit
  | 0, _ => return ()
  | n + 1, attempt => do
    let result ← onMachine (caught (runDiProtocol Γ P.tpm (P.diServer attempt) opts.diUrl))
    note (.di opts.diUrl result)
    match result with
    | .ok _ => return ()
    | .error .notFound => return ()
    | .error _ => diAttempts Γ P opts n (attempt + 1)

/-- The device is onboarded with its credentials, or initialised if it has none. -/
def onboardOrInitialise (Γ : Ctx) (P : Platform) (opts : FdoOptions) : Main Unit := do
  let existing ← if opts.forceDi = true then pure none else readFdoCredentials P.tpm
  match existing with
  | some creds => onlyIf (P.fdoInstaller = true) (runOnboarding Γ P opts creds)
  | none => onlyIf (P.boot.di = true) (diAttempts Γ P opts 3 0)

/-- The firmware delivery; it says whether an image was chain-loaded. -/
def deliverFirmware (Γ : Ctx) (P : Platform) (opts : FdoOptions) : Main Bool :=
  if P.rvFirmware = true ∧ opts.forceDi = false then do
    let result ← onMachine (checkAndDeliver Γ P.tpm P.boot)
    note (.delivered result)
    return result = .chainloaded
  else return false

/-- What is done in front of a TPM. -/
def withTpm (Γ : Ctx) (P : Platform) (opts : FdoOptions) : Main ExitStatus := do
  if ← deliverFirmware Γ P opts then return .success
  else
    onlyIf (P.boot.di = true ∨ P.fdoInstaller = true) (onboardOrInitialise Γ P opts)
    note (.watchdog 0 0x10000)
    return .success

/-- What is done for the options of the command line. -/
def withOptions (Γ : Ctx) (P : Platform) (opts : FdoOptions) : Main ExitStatus := do
  note (.loadMode opts.loadMode opts.teardown)
  match opts.watchdogTest, opts.chainloadFile with
  | some secs, _ => do
    note (.watchdog secs 0x10002)
    return .success
  | none, some path => do
    controlTest P path
    note (.watchdog 0 0x10000)
    return .success
  | none, none => if P.tpmPresent = true then withTpm Γ P opts else return .deviceError

end Main

/-- `main` -/
def main (Γ : Ctx) (P : Platform) : Main ExitStatus := do
  Main.note (.watchdog watchdogTimeoutSecs 0x10000)
  Main.withOptions Γ P (parseArgs P.commandLine)

end FdoUefi
