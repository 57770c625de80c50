import FdoUefi.Lemmas.Tcp4
import FdoUefi.UefiHttp

/-!
# The body of a response from the firmware's driver

The drain loop puts the segments together. What is returned is the body that was put together unless no header was an
Authorization header: then a body with a blank line in it loses everything up to that line.
-/

namespace FdoUefi

open Prog

/-- The driver reports what it has written. -/
def DrainReply.honest (segment : Bytes) : DrainReply := ⟨some segment.length, segment⟩

/-- So many calls in a row that bring nothing are waited for, after `idle` of them. -/
def IdleWithin (idle : Nat) : List Bytes → Prop
  | [] => True
  | segment :: segments => if segment = [] then idle + 1 ≤ maxDrainIdle ∧ IdleWithin (idle + 1) segments else IdleWithin 0 segments

/-- The fields of the header array. -/
def uefiHttpFields (headers : List UefiHttpHeader) : UefiHttpFields := headers.foldl readUefiHeader {}

/-- The driver delivers a body: the headers announce its length, and the first call and the further ones bring all of it. -/
structure DeliversBody (headers : List UefiHttpHeader) (first : Bytes) (segments : List Bytes) (body : Bytes) : Prop where
  announced : (uefiHttpFields headers).contentLength = some body.length
  whole : first ++ segments.flatten = body
  fits : body.length ≤ rxBodyLength
  idle : IdleWithin 0 segments

/-- The header array has an Authorization header. -/
def HasAuthorization (headers : List UefiHttpHeader) : Prop :=
  ∃ h ∈ headers, eqIgnoreAsciiCase h.fieldName (utf8 "authorization") = true

/-- What is logged of the headers can be cut, where it is logged. -/
def Loggable (verbose : Bool) (headers : List UefiHttpHeader) : Prop := verbose = true → ∀ h ∈ headers, headerLoggable h = true

namespace Aux

variable {headers : List UefiHttpHeader} {fields : UefiHttpFields} {verbose : Bool} {body : Bytes}

/-! ### The headers -/

/-- Headers that can be logged are read one by one. -/
theorem readUefiHeaders_of_loggable (hlog : Loggable verbose headers) :
    readUefiHeaders verbose fields headers = .ok (headers.foldl readUefiHeader fields) := by
  induction headers generalizing fields with
  | nil => rfl
  | cons h headers ih =>
    have hrest : Loggable verbose headers := fun hv h' hh' => hlog hv h' (by simp [hh'])
    have hfirst : ¬(verbose && !headerLoggable h) = true := by
      intro hboth
      rw [Bool.and_eq_true] at hboth
      have := hlog hboth.1 h (by simp)
      simp [this] at hboth
    rw [readUefiHeaders, if_neg hfirst, List.foldl_cons, ih hrest]

/-- Headers that cannot be logged end in a panic. -/
theorem readUefiHeaders_of_not_loggable (hlog : ¬Loggable verbose headers) :
    readUefiHeaders verbose fields headers = .panic := by
  induction headers generalizing fields with
  | nil => exact absurd (fun _ h hh => absurd hh (by simp)) hlog
  | cons h headers ih =>
    rw [readUefiHeaders]
    by_cases hfirst : (verbose && !headerLoggable h) = true
    · rw [if_pos hfirst]
    · rw [if_neg hfirst]
      refine ih fun hrest => hlog fun hv h' hh' => ?_
      rcases List.mem_cons.1 hh' with rfl | hmem
      · simpa [hv] using hfirst
      · exact hrest hv h' hmem

/-- A header leaves a token, if it is an Authorization header, and else what there was. -/
theorem readUefiHeader_authHeader (fields : UefiHttpFields) (h : UefiHttpHeader) :
    (readUefiHeader fields h).authHeader =
      if eqIgnoreAsciiCase h.fieldName (utf8 "authorization") then some (bearerToken h.fieldValue) else fields.authHeader := by
  unfold readUefiHeader
  split
  · split
    · rfl
    · split
      · split <;> rfl
      · split <;> rfl
  · split
    · rfl
    · split
      · split <;> rfl
      · rfl

/-- A token is found if one was there or a header has it. -/
theorem foldl_authHeader (headers : List UefiHttpHeader) (fields : UefiHttpFields) :
    (headers.foldl readUefiHeader fields).authHeader = none ↔ fields.authHeader = none ∧ ¬HasAuthorization headers := by
  induction headers generalizing fields with
  | nil => simp [HasAuthorization]
  | cons h headers ih =>
    rw [List.foldl_cons, ih, readUefiHeader_authHeader]
    by_cases hauth : eqIgnoreAsciiCase h.fieldName (utf8 "authorization") = true
    · rw [if_pos hauth]
      simp [HasAuthorization, hauth]
    · rw [if_neg hauth]
      simp [HasAuthorization, hauth]

/-! ### The drain loop -/

/-- What was delivered stands at the start of its region. -/
theorem take_pendingRegion {want : Nat} {segment : Bytes} (h : segment.length ≤ want) :
    (pendingRegion want segment).take segment.length = segment := by
  rw [pendingRegion, List.take_take, Nat.min_eq_left h, List.take_left]

/-- The loop has all that was announced. -/
theorem drainLoop_of_full {cl idle : Nat} {rxBody : Bytes} (h : cl ≤ rxBody.length) (replies : List DrainReply) :
    drainLoop cl idle rxBody replies = .ok rxBody := by
  cases replies with
  | nil => rfl
  | cons reply replies => rw [drainLoop, if_neg (by omega)]

/-- The segments are put one behind the other, whatever the driver would answer afterwards. -/
theorem drainLoop_honest {cl idle : Nat} {rxBody : Bytes} {segments : List Bytes} (more : List DrainReply)
    (hlen : rxBody.length + segments.flatten.length = cl) (hfits : cl ≤ rxBodyLength) (hidle : IdleWithin idle segments) :
    drainLoop cl idle rxBody (segments.map DrainReply.honest ++ more) = .ok (rxBody ++ segments.flatten) := by
  induction segments generalizing idle rxBody with
  | nil =>
    rw [List.flatten_nil, List.append_nil]
    exact drainLoop_of_full (by simpa using hlen.ge) _
  | cons segment segments ih =>
    rw [List.flatten_cons, List.length_append] at hlen
    by_cases hfull : cl ≤ rxBody.length
    · have hsegment : segment = [] := List.eq_nil_of_length_eq_zero (by omega)
      have hrest : segments.flatten = [] := List.eq_nil_of_length_eq_zero (by omega)
      rw [drainLoop_of_full hfull, List.flatten_cons, hsegment, hrest, List.nil_append, List.append_nil]
    · have hwant : min (rxBodyLength - rxBody.length) (cl - rxBody.length) = cl - rxBody.length := by omega
      have hgot : (some segment.length).getD (cl - rxBody.length) = segment.length := rfl
      simp only [List.map_cons, List.cons_append, drainLoop, DrainReply.honest, hwant, hgot]
      rw [if_pos (by omega), if_neg (by omega)]
      by_cases hempty : segment = []
      · subst hempty
        obtain ⟨hone, hrest⟩ := hidle
        rw [if_pos List.length_nil, if_neg (by omega), List.flatten_cons, List.nil_append]
        exact ih (by simpa using hlen) hrest
      · have hpos : segment.length ≠ 0 := fun hzero => hempty (List.eq_nil_of_length_eq_zero hzero)
        rw [IdleWithin, if_neg hempty] at hidle
        rw [if_neg hpos, take_pendingRegion (by omega), List.flatten_cons, ← List.append_assoc]
        exact ih (by rw [List.length_append]; omega) hidle

/-! ### Headers in the body -/

/-- There is a blank line in the data exactly when an end of headers is found. -/
theorem findHeaderEnd_eq_none_iff (data : Bytes) : findHeaderEnd data = none ↔ ¬headerTerminator <:+: data := by
  induction data with
  | nil => exact ⟨fun _ h => absurd h.length_le (by decide), fun _ => rfl⟩
  | cons b data ih =>
    rw [findHeaderEnd]
    by_cases hhere : headerTerminator.isPrefixOf (b :: data) = true
    · rw [if_pos hhere]
      simp [(List.isPrefixOf_iff_prefix.1 hhere).isInfix]
    · rw [if_neg hhere, Option.map_eq_none_iff, ih, List.infix_cons_iff]
      have hno : ¬headerTerminator <+: b :: data := fun hp => hhere (List.isPrefixOf_iff_prefix.2 hp)
      simp [hno]

/-- A body that is searched for headers loses at least their end. -/
theorem splitRawHeaders_body_iff (authHeader : Option Bytes) (rxBody : Bytes) :
    (splitRawHeaders authHeader rxBody).1 = rxBody ↔ authHeader ≠ none ∨ findHeaderEnd rxBody = none := by
  unfold splitRawHeaders
  cases authHeader with
  | some token => simp
  | none =>
    cases hf : findHeaderEnd rxBody with
    | none => simp
    | some pos =>
      obtain ⟨hpos, hle⟩ := findHeaderEnd_bounds hf
      simp only [ne_eq, not_true_eq_false, reduceCtorEq, or_self, iff_false]
      intro heq
      have hlen := congrArg List.length heq
      rw [List.length_drop] at hlen
      omega

end Aux

/-- Of a body that the driver delivers as a whole, `http_post_internal` returns exactly the bytes, whatever they are, if and only if an
Authorization header came with it or there is no blank line in it, and no text of a header that is logged is cut inside a
character. -/
theorem httpPostInternal_body_iff (verbose : Bool) (headers : List UefiHttpHeader) (first : Bytes) (segments : List Bytes)
    (more : List DrainReply) (body : Bytes) (h : DeliversBody headers first segments body) :
    (∃ resp, httpPostInternal verbose headers first (segments.map DrainReply.honest ++ more) = .ok resp ∧ resp.body = body) ↔
      Loggable verbose headers ∧ (HasAuthorization headers ∨ ¬headerTerminator <:+: body) := by
  have hdrain : drainBody (uefiHttpFields headers).contentLength first (segments.map DrainReply.honest ++ more) = .ok body := by
    rw [h.announced, drainBody, ← h.whole]
    exact Aux.drainLoop_honest more (by rw [List.length_append]) (by rw [h.whole]; exact h.fits) h.idle
  by_cases hlog : Loggable verbose headers
  · have hrun : httpPostInternal verbose headers first (segments.map DrainReply.honest ++ more) =
        .ok ⟨(splitRawHeaders (uefiHttpFields headers).authHeader body).1,
          (splitRawHeaders (uefiHttpFields headers).authHeader body).2, (uefiHttpFields headers).msgTypeHeader⟩ := by
      rw [httpPostInternal, Aux.readUefiHeaders_of_loggable hlog]
      show drainBody (uefiHttpFields headers).contentLength first (segments.map DrainReply.honest ++ more) >>= _ = _
      rw [hdrain]
      rfl
    have hauth : (uefiHttpFields headers).authHeader ≠ none ↔ HasAuthorization headers := by
      rw [uefiHttpFields, ne_eq, Aux.foldl_authHeader]
      simp
    rw [hrun]
    simp only [Outcome.ok.injEq, exists_eq_left', hlog, true_and]
    rw [Aux.splitRawHeaders_body_iff, hauth, Aux.findHeaderEnd_eq_none_iff]
  · have hrun : httpPostInternal verbose headers first (segments.map DrainReply.honest ++ more) = .panic := by
      rw [httpPostInternal, Aux.readUefiHeaders_of_not_loggable hlog]
      rfl
    simp [hrun, hlog]

/-- The headers of a response of six bytes, with a token or without. -/
def sixByteHeaders (token : Option Bytes) : List UefiHttpHeader :=
  ⟨utf8 "Content-Length", utf8 "6"⟩ :: ⟨utf8 "Message-Type", utf8 "13"⟩ ::
    (token.map fun t => (⟨utf8 "authorization", utf8 "Bearer " ++ t⟩ : UefiHttpHeader)).toList

/-- A CBOR byte string of five bytes, the first four of which are a blank line. -/
def blankLineBody : Bytes := 0x45 :: headerTerminator ++ [0x01]

/-- A blank line in the body belongs to it. -/
theorem blankLineBody_delivered :
    ∃ resp, httpPostInternal true (sixByteHeaders (some (utf8 "t"))) [0x45, 0x0D]
        ([[], [0x0A, 0x0D], [0x0A, 0x01]].map DrainReply.honest ++ []) = .ok resp ∧ resp.body = blankLineBody :=
  (httpPostInternal_body_iff true (sixByteHeaders (some (utf8 "t"))) [0x45, 0x0D] [[], [0x0A, 0x0D], [0x0A, 0x01]] [] blankLineBody
    { announced := by decide +kernel
      whole := by decide
      fits := by decide
      idle := by simp [IdleWithin, maxDrainIdle] }).2
    ⟨fun _ => by decide +kernel, .inl ⟨⟨utf8 "authorization", utf8 "Bearer t"⟩, by decide, by decide⟩⟩

/-- Without a token the same body is cut behind the blank line. -/
theorem blankLineBody_cut :
    DeliversBody (sixByteHeaders none) blankLineBody [] blankLineBody ∧
      httpPostInternal false (sixByteHeaders none) blankLineBody [] = .ok ⟨[0x01], none, some 13⟩ ∧ [0x01] ≠ blankLineBody :=
  ⟨{ announced := by decide +kernel
     whole := by decide
     fits := by decide
     idle := trivial }, by decide +kernel, by decide⟩

end FdoUefi
