import FdoUefi.RvParse

/-!
# Device credentials in the DCTPM structure (`tpm.rs`)

What onboarding reads from the NV index that DI has written: the GUID and the key handles, and the rendezvous URL. Both readers
take the structure as an array or as a map, and step over what they do not need with the skip routine of `tpm.rs`. They are
given the contents of the index.
-/

namespace FdoUefi

open Prog Prog.Run Cbor

/-- `DCTPM_MAGIC`, "FDO1" -/
def dctpmMagic : Nat := 0x46444f31

structure FdoCredentials where
  guid : Bytes
  deviceKeyHandle : Nat
  hmacKeyHandle : Nat
  deriving DecidableEq, Repr

namespace Tpm

/-- A run of a reader; `None` in the source is the only failure. -/
abbrev R (α : Type) : Type := Run Nat Unit α

/-! ## CBOR helpers -/

def readCborUint (d : Bytes) : R Nat := cborReadUintValue d

/-- `read_cbor_uint_arg`: an argument of at most two bytes. -/
def readCborUintArg (d : Bytes) (ai : Nat) : R Nat :=
  if ai < 24 then pure ai
  else if ai = 24 then do
    let b ← next d
    return b.toNat
  else if ai = 25 then do
    let b ← take d 2
    return beNat b
  else fail ()

/-- An initial byte of major type `m`, then its argument. -/
def readShortHead (d : Bytes) (m : Nat) : R Nat := do
  let b ← next d
  ensure (major b = m) ()
  readCborUintArg d (additional b)

def readCborBstr (d : Bytes) : R Bytes := do
  let len ← readShortHead d 2
  take d len

def readCborSmallUint (d : Bytes) : R Nat := readShortHead d 0

def skipCborValue (d : Bytes) : R Unit := skipCborValueTo d (d.length + 1)

/-- `skip_cbor_value`, whose result is not looked at. -/
def stepOver (d : Bytes) : R Unit := ignored (skipCborValue d)

def decodeCborText (d : Bytes) : Option Bytes :=
  (do
    let len ← readShortHead d 3
    takeText d len : R Bytes).eval.toOption

def decodeCborBstr (d : Bytes) : Option Bytes := (readCborBstr d).eval.toOption

def decodeCborUint (d : Bytes) : Option Nat := (readCborSmallUint d).eval.toOption

/-- The initial byte of the structure and the number of its items, which has at most one byte of its own. -/
def readNumItems (d : Bytes) : R (Nat × Nat) := do
  let b ← next d
  if additional b < 24 then return (major b, additional b)
  else if additional b = 24 then
    let n ← next d
    return (major b, n.toNat)
  else fail ()

/-- A key of the map. -/
def readMapKey (d : Bytes) : R Nat := do
  let b ← next d
  ensure (major b = 0) ()
  if additional b < 24 then return additional b
  else if additional b = 24 then
    let k ← next d
    return k.toNat
  else fail ()

/-! ## Credentials -/

/-- The GUID, a byte string of 16 bytes. -/
def readGuid (d : Bytes) : R Bytes := do
  let guid ← readCborBstr d
  ensure (guid.length = 16) ()
  return guid

/-- DCTPMMagic. -/
def readMagic (d : Bytes) : R Unit := do
  let magic ← readCborUint d
  ensure (magic = dctpmMagic) ()

/-- The items 0 to 9 of an array. -/
def arrayCredentials (d : Bytes) : R FdoCredentials := do
  readMagic d
  repeatN 3 (skipCborValue d)
  let guid ← readGuid d
  repeatN 3 (skipCborValue d)
  let deviceKeyHandle ← readCborUint d
  let hmacKeyHandle ← readCborUint d
  return { guid, deviceKeyHandle, hmacKeyHandle }

/-- What has been found in a map. -/
structure MapFields where
  guid : Option Bytes
  deviceKeyHandle : Option Nat
  hmacKeyHandle : Option Nat
  magicOk : Bool
  deriving DecidableEq, Repr

/-- One entry of a map. At the end of the data the loop is left: what remains of it does nothing. -/
def mapEntry (d : Bytes) (f : MapFields) : R MapFields := do
  let pos ← getS
  if d.length ≤ pos then return f
  else
    match ← readMapKey d with
    | 0 => do
      readMagic d
      return { f with magicOk := true }
    | 4 => do
      let guid ← readGuid d
      return { f with guid := some guid }
    | 8 => do
      let handle ← readCborUint d
      return { f with deviceKeyHandle := some handle }
    | 9 => do
      let handle ← readCborUint d
      return { f with hmacKeyHandle := some handle }
    | _ => do
      skipCborValue d
      return f

def mapCredentials (d : Bytes) (numItems : Nat) : R FdoCredentials := do
  let f ← foldN numItems (mapEntry d) { guid := none, deviceKeyHandle := none, hmacKeyHandle := none, magicOk := false }
  ensure (f.magicOk = true) ()
  match f.guid, f.deviceKeyHandle, f.hmacKeyHandle with
  | some guid, some deviceKeyHandle, some hmacKeyHandle => return { guid, deviceKeyHandle, hmacKeyHandle }
  | _, _, _ => fail ()

/-- `read_fdo_credentials`, on the contents of the index. -/
def readFdoCredentials (d : Bytes) : Outcome Unit FdoCredentials :=
  (do
    let (m, numItems) ← readNumItems d
    match m with
    | 4 => do
      ensure (10 ≤ numItems) ()
      arrayCredentials d
    | 5 => mapCredentials d numItems
    | _ => fail () : R FdoCredentials).eval

/-! ## The rendezvous URL -/

/-- What an instruction says about the server, by its variable. -/
def applyInstruction (varId : Nat) (value : Bytes) (dir : Rv.Directive) : Rv.Directive :=
  match varId with
  | 5 => { dir with dnsName := (decodeCborText value).or dir.dnsName }
  | 2 => { dir with ipAddr := ((decodeCborBstr value).bind Rv.ipOf).or dir.ipAddr }
  | 3 => { dir with port := ((decodeCborUint value).map (· % 2 ^ 16)).getD dir.port }
  | 12 =>
    match (decodeCborUint value).map (· % 2 ^ 8) with
    | some 1 => { dir with scheme := utf8 "http" }
    | some 2 => { dir with scheme := utf8 "https" }
    | _ => dir
  | _ => dir

/-- One instruction. After a failure the loop goes on from wherever the failed reader left the cursor. -/
def rvInstruction (rv : Bytes) (dir : Rv.Directive) : R Rv.Directive := do
  let pos ← getS
  if rv.length ≤ pos then return dir
  else
    let b ← next rv
    if major b ≠ 4 then
      stepOver rv
      return dir
    else
      match ← (attempt (readCborUintArg rv (additional b)) : R (Option Nat)) with
      | none => return dir
      | some len =>
        if len < 2 then
          repeatN len (stepOver rv)
          return dir
        else
          let var ← attempt (readCborSmallUint rv)
          let value ← attempt (readCborBstr rv)
          repeatN (len - 2) (stepOver rv)
          match value with
          | none => return dir
          | some v => return applyInstruction (var.getD 255 % 2 ^ 8) v dir

/-- One directive, after those that gave no URL. -/
def rvDirective (rv : Bytes) (url : Option Bytes) : R (Option Bytes) := do
  let pos ← getS
  if url ≠ none ∨ rv.length ≤ pos then return url
  else
    let b ← next rv
    if major b ≠ 4 then
      stepOver rv
      return none
    else
      match ← (attempt (readCborUintArg rv (additional b)) : R (Option Nat)) with
      | none => return none
      | some len =>
        let dir ← foldN len (rvInstruction rv) Rv.Directive.new
        return Rv.serverUrlOf dir

/-- The directives, from the cursor on. The first byte is indexed without a check. -/
def rvDirectives (rv : Bytes) : R Bytes := do
  let pos ← getS
  let b ← ofOutcome (Outcome.index rv pos)
  advance 1
  ensure (major b = 4) ()
  let len ← readCborUintArg rv (additional b)
  let url ← foldN len (rvDirective rv) none
  orFail url ()

/-- `parse_rv_info_at`: the rendezvous information at the cursor, an array or one wrapped in a byte string. -/
def parseRvInfoAt (d : Bytes) : R Bytes := do
  match ← (peek d : R (Option UInt8)) with
  | none => fail ()
  | some b =>
    if major b = 2 then
      let rv ← readCborBstr d
      ofOutcome (rvDirectives rv).eval
    else rvDirectives d

/-- Look for the key 5 in a map. -/
def seekRvInfo (d : Bytes) : Nat → R Unit
  | 0 => fail ()
  | n + 1 => do
    let key ← readMapKey d
    if key = 5 then pure ()
    else
      skipCborValue d
      seekRvInfo d n

/-- The cursor goes to the rendezvous information: item 5 of an array of at least six items, or the entry 5 of a map. -/
def findRvInfo (d : Bytes) : R Unit := do
  let (m, numItems) ← readNumItems d
  match m with
  | 4 => do
    ensure (6 ≤ numItems) ()
    repeatN 5 (skipCborValue d)
  | 5 => seekRvInfo d numItems
  | _ => fail ()

/-- `read_fdo_rv_info`, on the contents of the index. -/
def readFdoRvInfo (d : Bytes) : Outcome Unit Bytes :=
  (do
    findRvInfo d
    parseRvInfoAt d : R Bytes).eval

end Tpm

end FdoUefi
