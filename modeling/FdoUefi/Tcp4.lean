import FdoUefi.Lib.Gather
import FdoUefi.Lib.Usize
import Mathlib.Data.List.Infix

/-!
# HTTP over TCP4 (`tcp4_http.rs`)

The response to a POST and the response to a GET are received in chunks into a buffer that grows, until the peer closes the connection
or the headers and a body of the announced length are there. The headers are text; here they are the bytes of its UTF-8 form.
-/

namespace FdoUefi

open Prog

/-- `MAX_RESPONSE_BYTES` -/
def maxResponseBytes : Nat := 512 * 1024 * 1024

/-! ## Text -/

/-- The ASCII part of `to_lowercase`. The names of headers that are looked for have no letter that another character turns into. -/
def asciiLower (b : UInt8) : UInt8 := if 0x41 ≤ b && b ≤ 0x5A then b + 0x20 else b

/-- `line.to_lowercase().starts_with(name)` -/
def startsWithLower (name line : Bytes) : Bool := name.isPrefixOf (line.map asciiLower)

/-- A line without the carriage return of its ending. -/
def stripCr (line : Bytes) : Bytes := if line.getLast? = some 0x0D then line.dropLast else line

/-- The lines of what follows when `line` is the beginning of the first one. A last line needs no ending. -/
def linesFrom (line : Bytes) : Bytes → List Bytes
  | [] => if line = [] then [] else [line]
  | b :: rest => if b = 0x0A then stripCr line :: linesFrom [] rest else linesFrom (line ++ [b]) rest

/-- `str::lines` -/
def lines (s : Bytes) : List Bytes := linesFrom [] s

/-- The UTF-8 forms of white space, by length. -/
def whiteSpace : List Bytes :=
  [[0x09], [0x0A], [0x0B], [0x0C], [0x0D], [0x20], [0xC2, 0x85], [0xC2, 0xA0], [0xE1, 0x9A, 0x80], [0xE2, 0x80, 0x80],
    [0xE2, 0x80, 0x81], [0xE2, 0x80, 0x82], [0xE2, 0x80, 0x83], [0xE2, 0x80, 0x84], [0xE2, 0x80, 0x85], [0xE2, 0x80, 0x86],
    [0xE2, 0x80, 0x87], [0xE2, 0x80, 0x88], [0xE2, 0x80, 0x89], [0xE2, 0x80, 0x8A], [0xE2, 0x80, 0xA8], [0xE2, 0x80, 0xA9],
    [0xE2, 0x80, 0xAF], [0xE2, 0x81, 0x9F], [0xE3, 0x80, 0x80]]

/-- The bytes without the forms `spaces` at their start. -/
def stripStart (spaces : List Bytes) : Bytes → Bytes
  | [] => []
  | a :: r₀ =>
    if [a] ∈ spaces then stripStart spaces r₀
    else match r₀ with
      | [] => [a]
      | b :: r₁ =>
        if [a, b] ∈ spaces then stripStart spaces r₁
        else match r₁ with
          | [] => [a, b]
          | c :: r₂ => if [a, b, c] ∈ spaces then stripStart spaces r₂ else a :: b :: c :: r₂

/-- `str::trim` -/
def trim (s : Bytes) : Bytes :=
  (stripStart (whiteSpace.map List.reverse) (stripStart whiteSpace s).reverse).reverse

/-- `line.splitn(2, ':').nth(1)` -/
def afterColon (line : Bytes) : Option Bytes :=
  match line.dropWhile (· != 0x3A) with
  | [] => none
  | _ :: r => some r

/-- Decimal digits read into `bits` bits after the value `acc`. -/
def parseDigits (bits : Nat) (acc : Nat) : Bytes → Option Nat
  | [] => some acc
  | b :: r =>
    if 0x30 ≤ b && b ≤ 0x39 then
      let v := acc * 10 + (b.toNat - 0x30)
      if v < 2 ^ bits then parseDigits bits v r else none
    else none

/-- `str::parse` for an unsigned integer of `bits` bits: digits, with or without a plus sign. -/
def parseUnsigned (bits : Nat) (s : Bytes) : Option Nat :=
  let digits := if s.head? = some 0x2B then s.tail else s
  if digits = [] then none else parseDigits bits 0 digits

/-! ## Responses -/

/-- The blank line that ends the headers. -/
def headerTerminator : Bytes := [0x0D, 0x0A, 0x0D, 0x0A]

/-- The position after the headers. -/
def findHeaderEnd : Bytes → Option Nat
  | [] => none
  | b :: rest => if headerTerminator.isPrefixOf (b :: rest) then some 4 else (findHeaderEnd rest).map (· + 1)

/-- The first line that is a Content-Length decides. -/
def contentLengthLine : List Bytes → Option Nat
  | [] => none
  | line :: rest =>
    if startsWithLower (utf8 "content-length:") line then (afterColon line).bind fun val => parseUnsigned 64 (trim val)
    else contentLengthLine rest

def extractContentLength (headers : Bytes) : Option Nat := if utf8Valid headers then contentLengthLine (lines headers) else none

/-- The body after the headers, cut to the announced length where that much is there. -/
def responseBody (headerEnd : Nat) (data : Bytes) : Bytes :=
  let rawBody := data.drop headerEnd
  match extractContentLength (data.take headerEnd) with
  | some cl => if cl ≤ rawBody.length then rawBody.take cl else rawBody
  | none => rawBody

structure HttpPostResponse where
  body : Bytes
  authToken : Option Bytes
  messageType : Option Nat
  deriving DecidableEq, Repr

/-- One line of the headers. -/
def readHeaderLine (resp : HttpPostResponse) (line : Bytes) : HttpPostResponse :=
  if startsWithLower (utf8 "authorization:") line then
    match (afterColon line).map trim with
    | some val => { resp with authToken := some (if (utf8 "Bearer ").isPrefixOf val then val.drop 7 else val) }
    | none => resp
  else if startsWithLower (utf8 "message-type:") line then
    match ((afterColon line).map trim).bind (parseUnsigned 8) with
    | some mt => { resp with messageType := some mt }
    | none => resp
  else resp

def parseHttpResponse (data : Bytes) : Option HttpPostResponse := do
  let headerEnd ← findHeaderEnd data
  let headersSection := data.take headerEnd
  let body := responseBody headerEnd data
  if utf8Valid headersSection then
    match lines headersSection with
    | [] => none
    | _ :: rest => some (rest.foldl readHeaderLine ⟨body, none, none⟩)
  else none

/-- The first line of the headers, where they are text, has the status 200 in it. -/
def statusOk (headersSection : Bytes) : Bool :=
  if utf8Valid headersSection then
    match lines headersSection with
    | [] => true
    | first :: _ => decide (utf8 "200" <:+: first)
  else true

/-- The body of the response to a GET. -/
def getResponseBody (data : Bytes) : Option Bytes := do
  let headerEnd ← findHeaderEnd data
  if statusOk (data.take headerEnd) then some (responseBody headerEnd data) else none

/-! ## Receiving -/

/-- A buffer that a response is received into: its first length and what is added when it is full. -/
structure RxBuffer where
  initial : Nat
  grow : Nat

/-- The buffer of a POST. It is grown by the first of two checks for a full buffer; the second then finds room. -/
def postBuffer : RxBuffer := ⟨131072, 64 * 1024⟩

def getBuffer : RxBuffer := ⟨1024 * 1024, 1024 * 1024⟩

/-- The length of the buffer when the next chunk is received: never full. -/
def RxBuffer.grown (buf : RxBuffer) (len totalReceived : Nat) : Nat :=
  if len - totalReceived = 0 then len + buf.grow else len

/-- What has been received is a complete response. The sum of the two lengths is not checked. -/
def responseComplete (data : Bytes) : Bool :=
  match findHeaderEnd data with
  | none => false
  | some headerEnd =>
    match extractContentLength (data.take headerEnd) with
    | none => false
    | some contentLen => decide ((headerEnd + contentLen) % wordSize ≤ data.length)

/-- The loop of receives, with the data received so far: each call takes one chunk, until the connection is closed. -/
def receiveLoop (data : Bytes) : List Bytes → Bytes
  | [] => data
  | chunk :: rest =>
    if maxResponseBytes < data.length then data
    else
      let data := data ++ chunk
      if responseComplete data then data else receiveLoop data rest

/-- The chunks can be received one after the other into a buffer of length `len` that has `totalReceived` bytes in it: none is empty,
and each fits in the room that its call offers. -/
def Receivable (buf : RxBuffer) (len totalReceived : Nat) : List Bytes → Prop
  | [] => True
  | chunk :: rest =>
    chunk ≠ [] ∧ totalReceived + chunk.length ≤ buf.grown len totalReceived ∧
      Receivable buf (buf.grown len totalReceived) (totalReceived + chunk.length) rest

/-- What `tcp4_http_post` makes of a response that comes in these chunks. -/
def tcp4HttpPost (chunks : List Bytes) : Option HttpPostResponse :=
  let response := receiveLoop [] chunks
  if response = [] then none else parseHttpResponse response

/-- What `tcp4_http_get` makes of a response that comes in these chunks. -/
def tcp4HttpGet (chunks : List Bytes) : Option Bytes :=
  let response := receiveLoop [] chunks
  if response = [] then none else getResponseBody response

end FdoUefi
