import FdoUefi.ShortCbor

/-!
# Firmware tags of the rendezvous information (`rv_firmware/rv_parse.rs`)

Item 5 of a DCTPM holds directives of instructions `[variable, bstr value]`. This reader goes on after most failures, from wherever
the failed reader left the cursor.
-/

namespace FdoUefi

open Prog Prog.Run Cbor

namespace Rv

/-- A run of a reader; `None` in the source is the only failure. -/
abbrev R (α : Type) : Type := Run Nat Unit α

/-! ## CBOR helpers -/

def readCborUintArg (d : Bytes) (ai : Nat) : R Nat := cborReadUintArg d ai

def readCborUintAt (d : Bytes) : R Nat := cborReadUintValue d

/-- `skip_cbor_value`, whose result is not looked at. -/
def stepOver (d : Bytes) : R Unit := ignored (skipCborValueTo d (d.length + 1))

/-- The content of a byte string. Any other item is stepped over, without a check, and is a failure. -/
def readCborBstrRaw (d : Bytes) : R Bytes := do
  let b ← next d
  let arg ← readCborUintArg d (additional b)
  match major b with
  | 2 => take d arg
  | 3 => do
    advance arg
    fail ()
  | 4 => do
    repeatN arg (stepOver d)
    fail ()
  | 5 => do
    repeatN (arg * 2) (stepOver d)
    fail ()
  | _ => fail ()

def decodeCborText (d : Bytes) : Option Bytes :=
  (do
    let b ← next d
    ensure (major b = 3) ()
    let len ← readCborUintArg d (additional b)
    takeText d len : R Bytes).eval.toOption

def decodeCborBstr (d : Bytes) : Option Bytes :=
  (do
    let b ← next d
    ensure (major b = 2) ()
    let len ← readCborUintArg d (additional b)
    take d len : R Bytes).eval.toOption

def decodeCborUint (d : Bytes) : Option Nat := (readCborUintAt d).eval.toOption

/-! ## Instructions -/

structure RvFirmwareInfo where
  firmwareUrls : List Bytes
  firmwarePath : Option Bytes
  minFirmwareRev : Option Nat
  serverUrl : Option Bytes
  deriving DecidableEq, Repr

/-- The variables of a directive. -/
structure Directive where
  dnsName : Option Bytes
  ipAddr : Option Bytes
  port : Nat
  scheme : Bytes
  deriving DecidableEq, Repr

def Directive.new : Directive where
  dnsName := none
  ipAddr := none
  port := 8080
  scheme := utf8 "http"

/-- The four bytes of an address: as such, at the end of an IPv4-mapped address, or after a family byte. -/
def ipOf (bs : Bytes) : Option Bytes :=
  if bs.length = 4 then some bs
  else if bs.length = 16 then some (bs.drop 12)
  else if bs.length = 5 then some (bs.drop 1)
  else none

/-- What an instruction does, by its variable. -/
def apply (varId : Nat) (value : Bytes) (info : RvFirmwareInfo) (dir : Directive) : RvFirmwareInfo × Directive :=
  match varId with
  | 5 => (info, { dir with dnsName := (decodeCborText value).or dir.dnsName })
  | 2 => (info, { dir with ipAddr := ((decodeCborBstr value).bind ipOf).or dir.ipAddr })
  | 3 => (info, { dir with port := ((decodeCborUint value).map (· % 2 ^ 16)).getD dir.port })
  | 12 =>
    match (decodeCborUint value).map (· % 2 ^ 8) with
    | some 1 => (info, { dir with scheme := utf8 "http" })
    | some 2 => (info, { dir with scheme := utf8 "https" })
    | _ => (info, dir)
  | 16 => ({ info with firmwarePath := (decodeCborText value).or info.firmwarePath }, dir)
  | 17 => ({ info with firmwareUrls := info.firmwareUrls ++ (decodeCborText value).toList }, dir)
  | 18 => ({ info with minFirmwareRev := (decodeCborUint value).or info.minFirmwareRev }, dir)
  | _ => (info, dir)

/-- One instruction. At the end of the data the loop over the instructions is left: what remains of it does nothing. -/
def instruction (rv : Bytes) (s : RvFirmwareInfo × Directive) : R (RvFirmwareInfo × Directive) := do
  let pos ← getS
  if rv.length ≤ pos then return s
  else
    let b ← next rv
    if major b ≠ 4 then
      stepOver rv
      return s
    else
      let len ← readCborUintArg rv (additional b)
      if len < 2 then
        repeatN len (stepOver rv)
        return s
      else
        let var ← attempt (readCborUintAt rv)
        let value ← attempt (readCborBstrRaw rv)
        repeatN (len - 2) (stepOver rv)
        match value with
        | none => return s
        | some v => return apply (var.getD 255 % 2 ^ 8) v s.1 s.2

/-- `{scheme}://{host}:{port}` -/
def serverUrlOf (dir : Directive) : Option Bytes :=
  match dir.dnsName, dir.ipAddr with
  | some dns, _ => some (dir.scheme ++ utf8 "://" ++ dns ++ utf8 s!":{dir.port}")
  | none, some ip =>
    some (dir.scheme ++ utf8 "://" ++ utf8 (".".intercalate (ip.map fun b => toString b.toNat)) ++ utf8 s!":{dir.port}")
  | none, none => none

/-- One directive. The first server URL stays. -/
def directive (rv : Bytes) (info : RvFirmwareInfo) : R RvFirmwareInfo := do
  let pos ← getS
  if rv.length ≤ pos then return info
  else
    let b ← next rv
    if major b ≠ 4 then
      stepOver rv
      return info
    else
      let len ← readCborUintArg rv (additional b)
      let (info', dir) ← foldN len (instruction rv) (info, Directive.new)
      return { info' with serverUrl := info'.serverUrl.or (serverUrlOf dir) }

/-- The directives, from the cursor on. The first byte is indexed without a check. -/
def directives (rv : Bytes) : R RvFirmwareInfo := do
  let pos ← getS
  let b ← ofOutcome (Outcome.index rv pos)
  advance 1
  ensure (major b = 4) ()
  let len ← readCborUintArg rv (additional b)
  let info ← foldN len (directive rv)
    { firmwareUrls := [], firmwarePath := none, minFirmwareRev := none, serverUrl := none }
  ensure (info.serverUrl ≠ none ∨ info.firmwareUrls ≠ []) ()
  return info

/-! ## The structure -/

/-- The rendezvous information at the cursor, an array or one wrapped in a byte string. -/
def parseRvFirmwareInfoAt (d : Bytes) : R RvFirmwareInfo := do
  let pos ← getS
  let b ← orFail d[pos]? ()
  if major b = 2 then
    let rv ← readCborBstrRaw d
    ofOutcome (directives rv).eval
  else directives d

/-- Look for the key 5 in a map. -/
def findRvInfo (d : Bytes) : Nat → R RvFirmwareInfo
  | 0 => fail ()
  | n + 1 => do
    let key ← readCborUintAt d
    if key = 5 then parseRvFirmwareInfoAt d
    else
      stepOver d
      findRvInfo d n

/-- `parse_rv_firmware_info`: item 5 of an array of at least six items, or the entry 5 of a map. -/
def parseRvFirmwareInfo (dctpm : Bytes) : Outcome Unit RvFirmwareInfo :=
  (do
    let b ← next dctpm
    let numItems ←
      (if additional b < 24 then pure (additional b)
      else if additional b = 24 then do
        let n ← next dctpm
        return n.toNat
      else fail () : R Nat)
    match major b with
    | 4 => do
      ensure (6 ≤ numItems) ()
      repeatN 5 (skipCborValueTo dctpm (dctpm.length + 1))
      parseRvFirmwareInfoAt dctpm
    | 5 => findRvInfo dctpm numItems
    | _ => fail () : R RvFirmwareInfo).eval

/-- `firmware_url`: an explicit URL, or the server URL with a path. -/
def RvFirmwareInfo.firmwareUrl (info : RvFirmwareInfo) : Option Bytes :=
  match info.firmwareUrls.head?, info.serverUrl with
  | some url, _ => some url
  | none, some base => some (base ++ utf8 "/" ++ info.firmwarePath.getD (utf8 "fdo-firmware") ++ utf8 "/payload.cose")
  | none, none => none

end Rv

end FdoUefi
