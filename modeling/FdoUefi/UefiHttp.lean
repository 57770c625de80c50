import FdoUefi.Lib.Run
import FdoUefi.Tcp4

/-!
# HTTP over the firmware's driver (`http.rs`)

The response to a POST as `EFI_HTTP_PROTOCOL` delivers it: the first call of `Response()` brings the headers and the beginning of the
body, every further one a segment of the rest. Header names and values are the bytes up to their zero; a value that is not UTF-8 is
read like one that is. With `verbose` the arguments of `debug!` are evaluated, and some of them cut a text at a byte.
-/

namespace FdoUefi

open Prog

/-- The length of `rx_body`. -/
def rxBodyLength : Nat := 131072

/-- `MAX_DRAIN_IDLE` -/
def maxDrainIdle : Nat := 50000

/-- `RX_SENTINEL` -/
def rxSentinel : UInt8 := 0xA5

/-! ## Headers -/

structure UefiHttpHeader where
  fieldName : Bytes
  fieldValue : Bytes
  deriving DecidableEq, Repr

/-- What is read from the header array. -/
structure UefiHttpFields where
  authHeader : Option Bytes := none
  msgTypeHeader : Option Nat := none
  contentLength : Option Nat := none
  deriving DecidableEq, Repr

/-- `name.eq_ignore_ascii_case(other)`, where `other` is in lower case. -/
def eqIgnoreAsciiCase (name other : Bytes) : Bool := name.map asciiLower = other

/-- The start of a text of at most `n` bytes can be cut out: the cut is not inside a character. -/
def startSliceable (n : Nat) (s : Bytes) : Bool :=
  match s[n]? with
  | some b => !utf8Cont b
  | none => true

/-- The token in the value of an Authorization header. -/
def bearerToken (value : Bytes) : Bytes := if (utf8 "Bearer ").isPrefixOf value then value.drop 7 else value

/-- One header. -/
def readUefiHeader (fields : UefiHttpFields) (h : UefiHttpHeader) : UefiHttpFields :=
  let fields := if eqIgnoreAsciiCase h.fieldName (utf8 "content-length") then
    { fields with contentLength := parseUnsigned 64 (trim h.fieldValue) } else fields
  if eqIgnoreAsciiCase h.fieldName (utf8 "authorization") then
    { fields with authHeader := some (bearerToken h.fieldValue) }
  else if eqIgnoreAsciiCase h.fieldName (utf8 "message-type") then
    match parseUnsigned 8 (trim h.fieldValue) with
    | some mt => { fields with msgTypeHeader := some mt }
    | none => fields
  else if eqIgnoreAsciiCase h.fieldName (utf8 "content-length") then
    match parseUnsigned 64 (trim h.fieldValue) with
    | some cl => { fields with contentLength := some cl }
    | none => fields
  else fields

/-- The texts that are logged of a header can be cut. -/
def headerLoggable (h : UefiHttpHeader) : Bool :=
  startSliceable 60 h.fieldValue &&
    (!eqIgnoreAsciiCase h.fieldName (utf8 "authorization") || startSliceable 20 (bearerToken h.fieldValue))

/-- The loop over the header array. -/
def readUefiHeaders (verbose : Bool) (fields : UefiHttpFields) : List UefiHttpHeader → Outcome Unit UefiHttpFields
  | [] => .ok fields
  | h :: headers =>
    if verbose && !headerLoggable h then .panic else readUefiHeaders verbose (readUefiHeader fields h) headers

/-- The value of the first Authorization header of raw HTTP. -/
def extractAuthorizationHeader (headers : Bytes) : Option Bytes :=
  if utf8Valid headers then
    (lines headers).find? (startsWithLower (utf8 "authorization:")) |>.bind fun line => (afterColon line).map trim
  else none

/-! ## The body -/

/-- A further call of `Response()` that was queued: the length the driver reports, if it does not leave the one that was asked for, and
what it writes. -/
structure DrainReply where
  bodyLength : Option Nat
  written : Bytes
  deriving DecidableEq, Repr

/-- What the pending region holds after a call. -/
def pendingRegion (want : Nat) (written : Bytes) : Bytes :=
  (written ++ List.replicate (want - written.length) rxSentinel).take want

/-- The drain loop, with the body so far. Where no reply is left, `Response()` fails. -/
def drainLoop (cl : Nat) : Nat → Bytes → List DrainReply → Outcome Unit Bytes
  | _, rxBody, [] => .ok rxBody
  | idle, rxBody, reply :: replies =>
    if rxBody.length < cl ∧ rxBody.length < rxBodyLength then
      let want := min (rxBodyLength - rxBody.length) (cl - rxBody.length)
      let got := reply.bodyLength.getD want
      if want < got then .err ()
      else if got = 0 then
        if maxDrainIdle < idle + 1 then .ok rxBody else drainLoop cl (idle + 1) rxBody replies
      else drainLoop cl 0 (rxBody ++ (pendingRegion want reply.written).take got) replies
    else .ok rxBody

/-- The body behind the first response. Without a length it is what the first call brought. -/
def drainBody (contentLength : Option Nat) (first : Bytes) (replies : List DrainReply) : Outcome Unit Bytes :=
  match contentLength with
  | some cl => drainLoop cl 0 first replies
  | none => .ok first

/-- Where no Authorization header was among the headers, the body is searched for headers. -/
def splitRawHeaders (authHeader : Option Bytes) (rxBody : Bytes) : Bytes × Option Bytes :=
  match authHeader with
  | some token => (rxBody, some token)
  | none =>
    match findHeaderEnd rxBody with
    | some pos => (rxBody.drop pos, extractAuthorizationHeader (rxBody.take pos))
    | none => (rxBody, none)

/-- `http_post_internal` from its first response on: the headers, the beginning of the body and the further replies. -/
def httpPostInternal (verbose : Bool) (headers : List UefiHttpHeader) (first : Bytes) (replies : List DrainReply) :
    Outcome Unit HttpPostResponse := do
  let fields ← readUefiHeaders verbose {} headers
  let rxBody ← drainBody fields.contentLength first replies
  let (body, authToken) := splitRawHeaders fields.authHeader rxBody
  return ⟨body, authToken, fields.msgTypeHeader⟩

end FdoUefi
