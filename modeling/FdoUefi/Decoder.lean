import FdoUefi.Lib.Usize
import FdoUefi.Ctx

/-!
# The CBOR encoder and decoder of the protocol messages (`fdo.rs`)

`CborDecoder` accepts arguments of eight bytes, so a declared length can be any 64-bit number. Additions on its cursor are
those of `usize` in a release build: they wrap.
-/

namespace FdoUefi

open Prog Prog.Run Cbor

/-- An FDO protocol error, with its text. -/
inductive FdoError where
  | httpError (text : Bytes)
  | cborError (text : Bytes)
  | protocolError (text : Bytes)
  | cryptoError (text : Bytes)
  deriving DecidableEq, Repr

def cborErr (s : String) : FdoError := .cborError (utf8 s)
def protocolErr (s : String) : FdoError := .protocolError (utf8 s)
def cryptoErr (s : String) : FdoError := .cryptoError (utf8 s)
def httpErr (s : String) : FdoError := .httpError (utf8 s)

/-- A byte as two hexadecimal digits. -/
def hex2 (b : UInt8) : String := String.ofList [Nat.digitChar (b.toNat / 16), Nat.digitChar (b.toNat % 16)]

/-! ## `CborEncoder` -/

namespace Enc

/-- A head for a length of at most 16 bits; a longer one loses its high bits. -/
def head (m len : Nat) : Bytes :=
  if len < 24 then [UInt8.ofNat (m * 32 + len)]
  else if len < 256 then [UInt8.ofNat (m * 32 + 24), UInt8.ofNat len]
  else [UInt8.ofNat (m * 32 + 25), UInt8.ofNat (len / 2 ^ 8), UInt8.ofNat len]

def uint (v : Nat) : Bytes := head 0 v
def array (len : Nat) : Bytes := head 4 len
def encodeMap (len : Nat) : Bytes := head 5 len
def bytes (data : Bytes) : Bytes := head 2 data.length ++ data
def text (s : Bytes) : Bytes := head 3 s.length ++ s
def null : Bytes := [0xf6]
def boolVal (b : Bool) : Bytes := if b then [0xf5] else [0xf4]

/-- `neg_int`, for an `i8`. -/
def negInt (v : Int) : Bytes :=
  if 0 ≤ v then [UInt8.ofNat v.toNat]
  else
    let abs := (-1 - v).toNat
    if abs < 24 then [UInt8.ofNat (0x20 + abs)] else [0x38, UInt8.ofNat abs]

end Enc

/-! ## `CborDecoder` -/

namespace Dec

/-- A run of the decoder. -/
abbrev R (α : Type) : Type := Run Cur FdoError α

def peek (d : Bytes) : R (Option UInt8) := Cur.peek d

def readByte (d : Bytes) : R UInt8 := Cur.byte d (cborErr "unexpected end of data")

/-- `n` bytes, most significant first, after the value `acc`. -/
def readBe (d : Bytes) : Nat → Nat → R Nat
  | 0, acc => return acc
  | n + 1, acc => do
    let b ← readByte d
    readBe d n (acc * 256 + b.toNat)

def decodeAdditional (d : Bytes) (ai : Nat) : R Nat :=
  if ai ≤ 23 then pure ai
  else if ai = 24 then readBe d 1 0
  else if ai = 25 then readBe d 2 0
  else if ai = 26 then readBe d 4 0
  else if ai = 27 then readBe d 8 0
  else fail (cborErr s!"invalid additional info: {ai}")

/-- An initial byte of major type `m`, then its argument. -/
def readHead (d : Bytes) (m : Nat) (e : Nat → FdoError) : R Nat := do
  let initial ← readByte d
  ensure (major initial = m) (e (major initial))
  decodeAdditional d (additional initial)

def readUint (d : Bytes) : R Nat := readHead d 0 fun m => cborErr s!"expected uint, got major type {m}"

def readInt (d : Bytes) : R Int := do
  let initial ← readByte d
  match major initial with
  | 0 => do
    let v ← decodeAdditional d (additional initial)
    return asI32 v
  | 1 => do
    let v ← decodeAdditional d (additional initial)
    return -1 - asI32 v
  | m => fail (cborErr s!"expected int, got major type {m}")

def readTag (d : Bytes) : R Nat := readHead d 6 fun m => cborErr s!"expected tag (major 6), got {m}"

def readArrayLen (d : Bytes) : R Nat := readHead d 4 fun m => cborErr s!"expected array, got major type {m}"

/-- The content of a string of `len` bytes. -/
def readStr (d : Bytes) (len : Nat) (e : Nat → FdoError) : R Bytes := Cur.content d len e

def readBytes (d : Bytes) : R Bytes := do
  let len ← readHead d 2 fun m => cborErr s!"expected bstr, got major type {m}"
  let bytes ← readStr d len fun pos =>
    let avail := d.length - pos
    cborErr s!"bstr length exceeds data: declared {len} at pos {pos}, only {avail} available"
  Cur.bump len
  return bytes

def readText (d : Bytes) : R Bytes := do
  let len ← readHead d 3 fun m => cborErr s!"expected tstr, got major type {m}"
  let s ← readStr d len fun _ => cborErr "tstr length exceeds data"
  ensure (utf8Valid s) (cborErr "invalid UTF-8")
  Cur.bump len
  return s

/-- `skip_value` to a recursion depth. The content of a string is stepped over unchecked, and a simple value in two bytes is
stepped over as if it had one. -/
def skipValue (d : Bytes) : Nat → R Unit
  | 0 => hangs
  | fuel + 1 => do
    let initial ← readByte d
    match major initial with
    | 0 | 1 => do
      let _ ← decodeAdditional d (additional initial)
    | 2 | 3 => do
      let len ← decodeAdditional d (additional initial)
      let pos ← Cur.place
      Cur.note (.str pos len)
      Cur.bump len
    | 4 => do
      let len ← decodeAdditional d (additional initial)
      repeatN len (skipValue d fuel)
    | 5 => do
      let len ← decodeAdditional d (additional initial)
      repeatN len (do
        skipValue d fuel
        skipValue d fuel)
    | 6 => do
      let _ ← decodeAdditional d (additional initial)
      skipValue d fuel
    | 7 => Cur.bump (if additional initial = 24 then 0 else extLen (additional initial))
    | m => fail (cborErr s!"unknown major type {m}")

def readMapLen (d : Bytes) : R Nat := do
  let initial ← readByte d
  ensure (major initial = 5) (cborErr s!"Expected map (major 5), got {major initial}")
  let ai := additional initial
  if ai < 24 then return ai
  else if ai = 24 then readBe d 1 0
  else if ai = 25 then readBe d 2 0
  else fail (cborErr "Unsupported map length")

/-- `read_u8`: the value is cut to eight bits. -/
def readU8 (d : Bytes) : R Nat := do
  let v ← readUint d
  return v % 256

def peekNull (d : Bytes) : R Bool := do
  let b ← peek d
  return b == some 0xf6

def readNull (d : Bytes) : R Unit := do
  let b ← readByte d
  ensure (b = 0xf6) (cborErr s!"expected null (0xf6), got 0x{hex2 b}")

def readBool (d : Bytes) : R Bool := do
  let b ← readByte d
  if b = 0xf4 then return false
  else if b = 0xf5 then return true
  else fail (cborErr s!"expected bool (0xf4/0xf5), got 0x{hex2 b}")

/-- `&self.data[self.pos..]`. -/
def remainingBytes (d : Bytes) : R Bytes := do
  let pos ← Cur.place
  Cur.cut d pos d.length

/-- Run a decoder from the start of its data. -/
def eval {α : Type} (m : R α) : Outcome FdoError α := (m Cur.start).1

end Dec

end FdoUefi
