import FdoUefi.Lib.Cursor

/-!
# DNS packets (`dns.rs`)

A name on the wire is a row of labels, each after its length, and a zero; in place of a rest it can have a pointer to a rest that
stands elsewhere in the packet. `None` is the only failure of the readers. A loop that follows pointers has as many turns as the
packet has places for each of the 64 jumps it may make.
-/

namespace FdoUefi

open Prog

def dnsFlagRd : Nat := 0x0100
def dnsFlagQr : Nat := 0x8000
def dnsRcodeMask : Nat := 0x000F
def dnsTypeA : Nat := 1
def dnsTypeCname : Nat := 5
def dnsClassIn : Nat := 1

/-! ## Queries -/

/-- A label after its length; of a longer one than 63 bytes only the start. An empty one is left out. -/
def encodeDnsLabel (label : Bytes) : Bytes :=
  if label = [] then []
  else if 63 < label.length then 63 :: label.take 63
  else UInt8.ofNat label.length :: label

/-- The wire form of a dotted name. -/
def encodeDnsName (name : Bytes) : Bytes := (name.splitOn 0x2E).flatMap encodeDnsLabel ++ [0x00]

/-- A query for the A record of a name. -/
def buildDnsQuery (hostname : Bytes) (txId : Nat) : Bytes :=
  beBytes 2 txId ++ beBytes 2 dnsFlagRd ++ beBytes 2 1 ++ beBytes 2 0 ++ beBytes 2 0 ++ beBytes 2 0 ++ encodeDnsName hostname ++
    beBytes 2 dnsTypeA ++ beBytes 2 dnsClassIn

/-! ## Names -/

/-- The place a pointer with these two bytes leads to. -/
def pointerOffset (len low : UInt8) : Nat := (len &&& 0x3F).toNat <<< 8 ||| low.toNat

/-- Enough turns for the names of a packet. -/
def dnsTurns (data : Bytes) : Nat := 65 * (data.length + 1)

/-- The loop of `skip_dns_name`. `endPos` is the end of the name, once it has had a pointer. -/
def skipDnsLoop (data : Bytes) : Nat → Nat → Nat → Option Nat → Outcome Unit Nat
  | 0, _, _, _ => .hang
  | turns + 1, pos, jumps, endPos =>
    if data.length ≤ pos then .err ()
    else do
      let len ← Outcome.index data pos
      if len = 0 then return endPos.getD (pos + 1)
      else if len &&& 0xC0 = 0xC0 then
        if data.length ≤ pos + 1 then .err ()
        else do
          let low ← Outcome.index data (pos + 1)
          if 64 < jumps + 1 then .err ()
          else skipDnsLoop data turns (pointerOffset len low) (jumps + 1) (some (endPos.getD (pos + 2)))
      else skipDnsLoop data turns (pos + (1 + len.toNat)) jumps endPos

/-- The place behind the name at a place. -/
def skipDnsName (data : Bytes) (pos : Nat) : Outcome Unit Nat := skipDnsLoop data (dnsTurns data) pos 0 none

/-- `b as char`, in UTF-8. -/
def latin1 (b : UInt8) : Bytes := if b < 0x80 then [b] else [b >>> 6 ||| 0xC0, b &&& 0x3F ||| 0x80]

/-- A name with one more label. -/
def pushLabel (name label : Bytes) : Bytes := (if name = [] then [] else name ++ [0x2E]) ++ label.flatMap latin1

/-- The loop of `decode_dns_name`. -/
def decodeDnsLoop (data : Bytes) : Nat → Nat → Nat → Option Nat → Bytes → Outcome Unit (Bytes × Nat)
  | 0, _, _, _, _ => .hang
  | turns + 1, pos, jumps, endPos, name =>
    if data.length ≤ pos then .err ()
    else do
      let len ← Outcome.index data pos
      if len = 0 then return (name, endPos.getD (pos + 1))
      else if len &&& 0xC0 = 0xC0 then
        if data.length ≤ pos + 1 then .err ()
        else do
          let low ← Outcome.index data (pos + 1)
          if 64 < jumps + 1 then .err ()
          else decodeDnsLoop data turns (pointerOffset len low) (jumps + 1) (some (endPos.getD (pos + 2))) name
      else if data.length < pos + 1 + len.toNat then .err ()
      else
        match range? data (pos + 1) (pos + 1 + len.toNat) with
        | none => .panic
        | some label => decodeDnsLoop data turns (pos + (1 + len.toNat)) jumps endPos (pushLabel name label)

/-- The name at a place, dotted, and the place behind it. -/
def decodeDnsName (data : Bytes) (pos : Nat) : Outcome Unit (Bytes × Nat) :=
  decodeDnsLoop data (dnsTurns data) pos 0 none []

/-! ## Responses -/

/-- Two bytes that are indexed without a check. -/
def dnsU16 (data : Bytes) (pos : Nat) : Outcome Unit Nat := do
  let high ← Outcome.index data pos
  let low ← Outcome.index data (pos + 1)
  return high.toNat * 256 + low.toNat

/-- The number of questions and that of answers, of a response to the query `expectedId` that reports no error. -/
def readDnsHeader (data : Bytes) (expectedId : Nat) : Outcome Unit (Nat × Nat) := do
  Outcome.ensure (12 ≤ data.length) ()
  let id ← dnsU16 data 0
  let flags ← dnsU16 data 2
  let qdcount ← dnsU16 data 4
  let ancount ← dnsU16 data 6
  Outcome.ensure (id = expectedId) ()
  Outcome.ensure (flags &&& dnsFlagQr ≠ 0) ()
  Outcome.ensure (flags &&& dnsRcodeMask = 0) ()
  return (qdcount, ancount)

/-- The place behind a number of questions. -/
def skipQuestions (data : Bytes) : Nat → Nat → Outcome Unit Nat
  | 0, pos => return pos
  | n + 1, pos => do
    let nameEnd ← skipDnsName data pos
    Outcome.ensure (nameEnd + 4 ≤ data.length) ()
    skipQuestions data n (nameEnd + 4)

/-- The answers, up to the first that `found` takes. It gets the place of the answer behind its name and the length of its data. -/
def findAnswer {α : Type} (data : Bytes) (found : Nat → Nat → Outcome Unit (Option α)) : Nat → Nat → Outcome Unit α
  | 0, _ => .err ()
  | n + 1, pos => do
    Outcome.ensure (pos < data.length) ()
    let pos ← skipDnsName data pos
    Outcome.ensure (pos + 10 ≤ data.length) ()
    let rdlength ← dnsU16 data (pos + 8)
    Outcome.ensure (pos + 10 + rdlength ≤ data.length) ()
    match ← found pos rdlength with
    | some answer => return answer
    | none => findAnswer data found n (pos + 10 + rdlength)

/-- The address in an A record. -/
def aRecord (data : Bytes) (pos rdlength : Nat) : Outcome Unit (Option Bytes) := do
  let rtype ← dnsU16 data pos
  let rclass ← dnsU16 data (pos + 2)
  if rtype = dnsTypeA ∧ rclass = dnsClassIn ∧ rdlength = 4 then
    let a ← Outcome.index data (pos + 10)
    let b ← Outcome.index data (pos + 10 + 1)
    let c ← Outcome.index data (pos + 10 + 2)
    let d ← Outcome.index data (pos + 10 + 3)
    return some [a, b, c, d]
  else return none

/-- The address in the first A record of a response. -/
def parseDnsResponse (data : Bytes) (expectedId : Nat) : Outcome Unit Bytes := do
  let (qdcount, ancount) ← readDnsHeader data expectedId
  Outcome.ensure (ancount ≠ 0) ()
  let pos ← skipQuestions data qdcount 12
  findAnswer data (aRecord data) ancount pos

/-- The name in a CNAME record. -/
def cnameRecord (data : Bytes) (pos rdlength : Nat) : Outcome Unit (Option Bytes) := do
  let rtype ← dnsU16 data pos
  if rtype = dnsTypeCname ∧ 0 < rdlength then
    let (cname, _) ← decodeDnsName data (pos + 10)
    return some cname
  else return none

/-- The target of the first CNAME record of a response. -/
def extractCnameTarget (data : Bytes) (expectedId : Nat) : Outcome Unit Bytes := do
  let (qdcount, ancount) ← readDnsHeader data expectedId
  let pos ← skipQuestions data qdcount 12
  findAnswer data (cnameRecord data) ancount pos

end FdoUefi
