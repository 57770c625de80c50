import FdoUefi.Lemmas.InfoRounds
import FdoUefi.Lib.Total

/-!
# The Owner's messages reach the BMO module once and in order, however a run ends

Over every world and every run: the messages the BMO module was called with are, in order, those in the ServiceInfos of the
responses to DeviceSvcInfo20, unless the run ended in the middle of a response with a panic. None is lost, none comes twice and
none comes from elsewhere.
-/

namespace FdoUefi

open Prog Prog.Run Cbor

/-- A message the BMO module is called with. -/
def To2Event.bmoMessage? : To2Event → Option (Bytes × Bytes)
  | .bmo _ _ _ key value => some (key, value)
  | _ => none

/-- The messages the BMO module was called with, oldest first. -/
def bmoMessages (trace : List To2Event) : List (Bytes × Bytes) := trace.filterMap To2Event.bmoMessage?

/-- A response to DeviceSvcInfo20. -/
def To2Event.infoResponse? : To2Event → Option HttpPostResponse
  | .post _ msgType _ _ answer => if msgType = msgTo2DeviceSvcInfo then answer else none
  | _ => none

/-- The responses to DeviceSvcInfo20, oldest first. -/
def infoResponses (trace : List To2Event) : List HttpPostResponse := trace.filterMap To2Event.infoResponse?

/-- The messages for the BMO module in a response: those of its ServiceInfo, when it is not an error message, decrypts under the
session key and is an OwnerSvcInfo. -/
def ownerMessages (Γ : Ctx) (fuel : Nat) (sek : Bytes) (resp : HttpPostResponse) : List (Bytes × Bytes) :=
  if resp.messageType = some msgError then []
  else
    match coseDecrypt0A256gcm Γ fuel sek resp.body with
    | .ok plain =>
      match parseOwnerSvcInfo plain with
      | .ok owner => bmoEntries fuel owner.serviceInfo
      | _ => []
    | _ => []

namespace DeliveryAux

variable {Γ : Ctx} {fuel : Nat} {w : World} {args : To2Args} {session : To2Session} {peer : To2Peer} {sek : Bytes} {α β : Type}
  {s t : To2State}

/-- What the Owner has sent up to a state. -/
def owed (Γ : Ctx) (fuel : Nat) (sek : Bytes) (s : To2State) : List (Bytes × Bytes) :=
  (infoResponses s.trace).flatMap (ownerMessages Γ fuel sek)

/-- From a state in which all that was owed has been delivered, a call delivers what comes to be owed in it: all, when it
returns, and else a beginning. -/
def Delivers (Γ : Ctx) (fuel : Nat) (sek : Bytes) (m : To2 α) : Prop :=
  ∀ s, bmoMessages s.trace = owed Γ fuel sek s →
    bmoMessages (m s).2.trace <+: owed Γ fuel sek (m s).2 ∧
      ((m s).1.Returns → bmoMessages (m s).2.trace = owed Γ fuel sek (m s).2)

/-- An event that is neither a call of the BMO module nor an exchange of ServiceInfos. -/
def Unrelated (e : To2Event) : Prop := e.bmoMessage? = none ∧ e.infoResponse? = none

/-- The messages for the module in two parts of a trace are those of one after those of the other. -/
theorem bmoMessages_append (a b : List To2Event) : bmoMessages (a ++ b) = bmoMessages a ++ bmoMessages b :=
  List.filterMap_append

/-- The good responses in two parts of a trace are those of one after those of the other. -/
theorem infoResponses_append (a b : List To2Event) : infoResponses (a ++ b) = infoResponses a ++ infoResponses b :=
  List.filterMap_append

/-- Unrelated events change neither side. -/
theorem unrelated_same {m : To2 α} (h : Emits To2State.trace Unrelated m) (s : To2State) :
    bmoMessages (m s).2.trace = bmoMessages s.trace ∧ infoResponses (m s).2.trace = infoResponses s.trace := by
  obtain ⟨new, hnew, hall⟩ := h s
  have hbmo : bmoMessages new = [] := List.filterMap_eq_nil_iff.2 fun e he => (hall e he).1
  have hinfo : infoResponses new = [] := List.filterMap_eq_nil_iff.2 fun e he => (hall e he).2
  rw [hnew, bmoMessages_append, infoResponses_append, hbmo, hinfo, List.append_nil, List.append_nil]
  exact ⟨rfl, rfl⟩

/-- What has nothing to do with ServiceInfo delivers what was owed. -/
theorem Delivers.unrelated {m : To2 α} (h : Emits To2State.trace Unrelated m) : Delivers Γ fuel sek m := by
  intro s hs
  obtain ⟨hbmo, hinfo⟩ := unrelated_same h s
  rw [hbmo, owed, hinfo, hs]
  exact ⟨List.prefix_refl _, fun _ => rfl⟩

/-- Two steps that deliver what they are owed deliver it together. -/
theorem Delivers.bind {m : To2 α} {f : α → To2 β} (hm : Delivers Γ fuel sek m) (hf : ∀ a, Delivers Γ fuel sek (f a)) :
    Delivers Γ fuel sek (m >>= f) := by
  intro s hs
  obtain ⟨hpart, hall⟩ := hm s hs
  rcases hrun : m s with ⟨a | e | _ | _, t⟩
  · rw [bind_of_ok hrun]
    rw [hrun] at hall
    exact hf a t (hall trivial)
  · rw [bind_of_err hrun]
    rw [hrun] at hpart hall
    exact ⟨hpart, hall⟩
  · rw [bind_of_panic hrun]
    rw [hrun] at hpart
    exact ⟨hpart, fun h => h.elim⟩
  · rw [bind_of_hang hrun]
    rw [hrun] at hpart
    exact ⟨hpart, fun h => h.elim⟩

/-- A choice delivers what its branches deliver. -/
theorem Delivers.ite {c : Prop} [Decidable c] {m m' : To2 α} (h : Delivers Γ fuel sek m) (h' : Delivers Γ fuel sek m') :
    Delivers Γ fuel sek (if c then m else m') := by
  split
  · exact h
  · exact h'

/-! ## A round -/

/-- A call of the module is made, and its failure is no failure of the round. -/
theorem callBmo_trace (key value : Bytes) (s : To2State) :
    (callBmo Γ fuel w args peer key value s).2.trace =
      s.trace ++ [.bmo (some peer.ownerKey) peer.peerAuthority (some args.guid) key value] := by
  have htell : tell (.bmo (some peer.ownerKey) peer.peerAuthority (some args.guid) key value) s =
      (.ok (), s.add (.bmo (some peer.ownerKey) peer.peerAuthority (some args.guid) key value)) := rfl
  have hquiet : Emits To2State.trace (fun _ => False) (do
      let answer ← attempt (onPart To2State.bmoSession (fun b s => { s with bmoSession := b })
        (processBmoMessage Γ fuel (some peer.ownerKey) peer.peerAuthority (some args.guid) ⟨key, value, w.get s.trace⟩))
      return answer.join : To2 BmoAnswer) := Emits.bind (.attempt (.onPart _ fun _ _ => rfl)) fun _ => .pure _
  rw [callBmo, bind_of_ok (getS_apply s), bind_of_ok htell, hquiet.trace_eq, Aux.add_trace]

/-- An entry for the module, and what is done with its answer. -/
def takeEntry (Γ : Ctx) (fuel : Nat) (w : World) (args : To2Args) (peer : To2Peer) (e : Bytes × Bytes) : To2 Unit :=
  onlyIf (bmoPrefix.isPrefixOf e.1 = true) (do
    let answer ← callBmo Γ fuel w args peer e.1 e.2
    modifyS fun s => { s with bmoResponses := s.bmoResponses ++ answer.toList })

/-- Giving an entry to the module does not fail. -/
theorem takeEntry_unfailing (e : Bytes × Bytes) : Unfailing (takeEntry Γ fuel w args peer e) := by
  refine .ite ?_ (.pure _)
  exact .bind (.bind .getS fun _ => .bind .modifyS fun _ => .bind .attempt fun _ => .pure _) fun _ => .modifyS

/-- An entry with the prefix of the module is given to it, once. -/
theorem takeEntry_delivers (e : Bytes × Bytes) (s : To2State) :
    bmoMessages (takeEntry Γ fuel w args peer e s).2.trace =
        bmoMessages s.trace ++ [e].filter (fun e => bmoPrefix.isPrefixOf e.1) ∧
      infoResponses (takeEntry Γ fuel w args peer e s).2.trace = infoResponses s.trace := by
  unfold takeEntry onlyIf
  split
  next hkey =>
    have htrace : ((callBmo Γ fuel w args peer e.1 e.2 >>= fun answer =>
        modifyS fun s => { s with bmoResponses := s.bmoResponses ++ answer.toList } : To2 Unit) s).2.trace =
        s.trace ++ [.bmo (some peer.ownerKey) peer.peerAuthority (some args.guid) e.1 e.2] := by
      refine (Emits.bind_quiet (fun answer => ?_) s).trans (callBmo_trace _ _ s)
      exact .modifyS fun _ => rfl
    rw [htrace, bmoMessages_append, infoResponses_append, List.filter_cons_of_pos (by simpa using hkey)]
    exact ⟨rfl, List.append_nil _⟩
  next hkey =>
    rw [List.filter_cons_of_neg (by simpa using hkey)]
    exact ⟨(List.append_nil _).symm, rfl⟩

/-- The module is called with the messages for it, in order, and with all of them when the loop returns. -/
theorem processServiceInfo_delivers (entries : List (Bytes × Bytes)) (s : To2State) :
    ∃ sent rest, entries.filter (fun e => bmoPrefix.isPrefixOf e.1) = sent ++ rest ∧
      bmoMessages (processServiceInfo Γ fuel w args peer entries s).2.trace = bmoMessages s.trace ++ sent ∧
      infoResponses (processServiceInfo Γ fuel w args peer entries s).2.trace = infoResponses s.trace ∧
      ((processServiceInfo Γ fuel w args peer entries s).1.Returns → rest = []) := by
  induction entries generalizing s with
  | nil => exact ⟨[], [], rfl, (List.append_nil _).symm, rfl, fun _ => rfl⟩
  | cons e entries ih =>
    have heq : processServiceInfo Γ fuel w args peer (e :: entries) =
        takeEntry Γ fuel w args peer e >>= fun _ => processServiceInfo Γ fuel w args peer entries := rfl
    have hsplit : (e :: entries).filter (fun e => bmoPrefix.isPrefixOf e.1) =
        [e].filter (fun e => bmoPrefix.isPrefixOf e.1) ++ entries.filter (fun e => bmoPrefix.isPrefixOf e.1) := by
      rw [← List.filter_append, List.singleton_append]
    obtain ⟨hbmo, hinfo⟩ := @takeEntry_delivers Γ fuel w args peer e s
    rw [heq, hsplit]
    rcases hrun : takeEntry Γ fuel w args peer e s with ⟨u | err | _ | _, t⟩
    · rw [hrun] at hbmo hinfo
      obtain ⟨sent, rest, hrest, hbmo', hinfo', hall⟩ := ih t
      rw [bind_of_ok hrun]
      refine ⟨_ ++ sent, rest, by rw [hrest, List.append_assoc], ?_, hinfo'.trans hinfo, hall⟩
      rw [hbmo', hbmo, List.append_assoc]
    · exact absurd hrun (takeEntry_unfailing e s err t)
    · rw [hrun] at hbmo hinfo
      rw [bind_of_panic hrun]
      exact ⟨_, _, rfl, hbmo, hinfo, fun h => h.elim⟩
    · rw [hrun] at hbmo hinfo
      rw [bind_of_hang hrun]
      exact ⟨_, _, rfl, hbmo, hinfo, fun h => h.elim⟩

/-- An error message is never taken for a response. -/
theorem checkFdoError_ne_ok {body context : Bytes} (u : Unit) : Dec.eval (checkFdoError (some msgError) body context) ≠ .ok u := by
  intro h
  have hrun : checkFdoError (some msgError) body context Cur.start = (.ok u, _) := eq_of_fst h
  rw [checkFdoError, if_neg (not_not.2 rfl)] at hrun
  obtain ⟨⟨code, msg⟩, t, -, hfail⟩ := bind_ok_iff.1 hrun
  cases hfail

/-- A DeviceSvcInfo20 without a good response brings nothing. -/
theorem exchange_info (body : Bytes) (token : Option Bytes) (failed context : String) (s : To2State) :
    (∃ resp t, exchange w args msgTo2DeviceSvcInfo body token failed context s = (.ok resp, t) ∧
        resp.messageType ≠ some msgError) ∨
      (∀ resp, (exchange w args msgTo2DeviceSvcInfo body token failed context s).1 ≠ .ok resp) ∧
        owed Γ fuel sek (exchange w args msgTo2DeviceSvcInfo body token failed context s).2 = owed Γ fuel sek s := by
  rcases hanswer : w.post s.trace (messageUrl args.ownerUrl msgTo2DeviceSvcInfo) msgTo2DeviceSvcInfo body token with _ | resp
  · have hpost : httpPostWithSession w (messageUrl args.ownerUrl msgTo2DeviceSvcInfo) body msgTo2DeviceSvcInfo token failed s =
        (.err (httpErr failed), s.add (.post (messageUrl args.ownerUrl msgTo2DeviceSvcInfo) msgTo2DeviceSvcInfo body token none)) := by
      simp only [httpPostWithSession, askFor, ask, bind_def, andThen, hanswer]
      rfl
    right
    rw [exchange, bind_of_err hpost]
    refine ⟨fun _ => by simp, ?_⟩
    rw [owed, Aux.add_trace, infoResponses_append]
    simp [infoResponses, To2Event.infoResponse?, owed]
  · have hpost : httpPostWithSession w (messageUrl args.ownerUrl msgTo2DeviceSvcInfo) body msgTo2DeviceSvcInfo token failed s =
        (.ok resp, s.add (.post (messageUrl args.ownerUrl msgTo2DeviceSvcInfo) msgTo2DeviceSvcInfo body token (some resp))) := by
      simp only [httpPostWithSession, askFor, ask, bind_def, andThen, hanswer]
      rfl
    rw [exchange, bind_of_ok hpost]
    by_cases herr : resp.messageType = some msgError
    · right
      have hstate : (((ofOutcome (Dec.eval (checkFdoError resp.messageType resp.body (utf8 context))) >>= fun _ => pure resp) :
          To2 HttpPostResponse) (s.add (.post (messageUrl args.ownerUrl msgTo2DeviceSvcInfo) msgTo2DeviceSvcInfo body token
            (some resp)))).2 = s.add (.post (messageUrl args.ownerUrl msgTo2DeviceSvcInfo) msgTo2DeviceSvcInfo body token
            (some resp)) := by
        cases Dec.eval (checkFdoError resp.messageType resp.body (utf8 context)) <;> rfl
      refine ⟨fun resp' hok => ?_, ?_⟩
      · obtain ⟨u, t, hcheck, -⟩ := bind_ok_iff.1 (eq_of_fst hok)
        rw [herr] at hcheck
        exact checkFdoError_ne_ok u (ofOutcome_ok_iff.1 hcheck).1
      · rw [hstate, owed, Aux.add_trace, infoResponses_append]
        simp [infoResponses, To2Event.infoResponse?, owed, ownerMessages, herr]
    · left
      have hcheck : Dec.eval (checkFdoError resp.messageType resp.body (utf8 context)) = .ok () := by
        rw [checkFdoError, if_pos herr]
        rfl
      rw [hcheck]
      exact ⟨resp, _, rfl, herr⟩

/-- The loop over entries, and a value that does not depend on it. -/
theorem processServiceInfo_pure_delivers {b : Bool} (entries : List (Bytes × Bytes)) (s : To2State) :
    ∃ sent rest, entries.filter (fun e => bmoPrefix.isPrefixOf e.1) = sent ++ rest ∧
      bmoMessages ((processServiceInfo Γ fuel w args peer entries >>= fun _ => pure b : To2 Bool) s).2.trace =
        bmoMessages s.trace ++ sent ∧
      infoResponses ((processServiceInfo Γ fuel w args peer entries >>= fun _ => pure b : To2 Bool) s).2.trace =
        infoResponses s.trace ∧
      (((processServiceInfo Γ fuel w args peer entries >>= fun _ => pure b : To2 Bool) s).1.Returns → rest = []) := by
  obtain ⟨sent, rest, hsplit, hbmo, hinfo, hall⟩ := @processServiceInfo_delivers Γ fuel w args peer entries s
  have htrace : ((processServiceInfo Γ fuel w args peer entries >>= fun _ => pure b : To2 Bool) s).2.trace =
      (processServiceInfo Γ fuel w args peer entries s).2.trace := Emits.bind_quiet (fun _ => .pure b) s
  rw [htrace]
  exact ⟨sent, rest, hsplit, hbmo, hinfo, fun h => hall (bind_returns_iff.1 h).1⟩

/-- What is done with a response. -/
def takeResponse (Γ : Ctx) (fuel : Nat) (w : World) (args : To2Args) (session : To2Session) (resp : HttpPostResponse) :
    To2 Bool := do
  let plain ← ofOutcome (coseDecrypt0A256gcm Γ fuel session.sek resp.body)
  let ownerSvc ← ofOutcome (parseOwnerSvcInfo plain)
  let entries ← attempt (ofOutcome (parseServiceInfoArray fuel ownerSvc.serviceInfo) : To2 (List (Bytes × Bytes)))
  processServiceInfo Γ fuel w args session.peer (entries.getD [])
  return ownerSvc.isDone

/-- The messages of a good response are delivered. -/
theorem takeResponse_delivers {resp : HttpPostResponse} (hresp : resp.messageType ≠ some msgError) (s : To2State) :
    ∃ sent rest, ownerMessages Γ fuel session.sek resp = sent ++ rest ∧
      bmoMessages (takeResponse Γ fuel w args session resp s).2.trace = bmoMessages s.trace ++ sent ∧
      infoResponses (takeResponse Γ fuel w args session resp s).2.trace = infoResponses s.trace ∧
      ((takeResponse Γ fuel w args session resp s).1.Returns → rest = []) := by
  rw [ownerMessages, if_neg hresp, takeResponse]
  -- a response that cannot be read ends the run, or is taken for one without messages
  have hnone {α : Type} {o : Outcome FdoError α} {f : α → To2 Bool} (ho : ∀ a, o ≠ .ok a) :
      ∃ sent rest : List (Bytes × Bytes), ([] : List (Bytes × Bytes)) = sent ++ rest ∧
        bmoMessages ((ofOutcome o >>= f : To2 Bool) s).2.trace = bmoMessages s.trace ++ sent ∧
        infoResponses ((ofOutcome o >>= f : To2 Bool) s).2.trace = infoResponses s.trace ∧
        (((ofOutcome o >>= f : To2 Bool) s).1.Returns → rest = []) := by
    have hstate : ((ofOutcome o >>= f : To2 Bool) s).2 = s := by
      cases o with
      | ok a => exact absurd rfl (ho a)
      | err e => rfl
      | panic => rfl
      | hang => rfl
    rw [hstate]
    exact ⟨[], [], rfl, (List.append_nil _).symm, rfl, fun _ => rfl⟩
  cases hplain : coseDecrypt0A256gcm Γ fuel session.sek resp.body with
  | err e => exact hnone (by simp)
  | panic => exact hnone (by simp)
  | hang => exact hnone (by simp)
  | ok plain =>
    rw [bind_of_ok (ofOutcome_ok_iff.2 ⟨rfl, rfl⟩)]
    dsimp only
    cases howner : parseOwnerSvcInfo plain with
    | err e => exact hnone (by simp)
    | panic => exact hnone (by simp)
    | hang => exact hnone (by simp)
    | ok owner =>
      rw [bind_of_ok (ofOutcome_ok_iff.2 ⟨rfl, rfl⟩)]
      dsimp only
      unfold bmoEntries
      cases hparse : parseServiceInfoArray fuel owner.serviceInfo with
      | ok entries =>
        rw [bind_of_ok (attempt_of_ok (ofOutcome_ok_iff.2 ⟨rfl, rfl⟩))]
        exact processServiceInfo_pure_delivers entries s
      | err e =>
        rw [bind_of_ok (attempt_ok_iff.2 (.inr ⟨rfl, e, rfl⟩))]
        exact processServiceInfo_pure_delivers [] s
      | panic => exact ⟨[], [], rfl, (List.append_nil _).symm, rfl, fun _ => rfl⟩
      | hang => exact ⟨[], [], rfl, (List.append_nil _).symm, rfl, fun _ => rfl⟩

/-- A round sends what the device has to say, and takes the response. -/
theorem serviceInfoRound_eq {round : Nat} : serviceInfoRound Γ fuel w args session round = takeServiceInfo round >>= fun svcInfo =>
    sendSealed Γ w args session msgTo2DeviceSvcInfo (buildDeviceSvcInfo false svcInfo) "DeviceSvcInfo failed" "TO2.OwnerSvcInfo" >>=
      takeResponse Γ fuel w args session := rfl

/-- A message under the session key calls nothing, and what it brings is what is in a good response. -/
theorem sendSealed_info (plaintext : Bytes) (failed context : String) (s : To2State) :
    bmoMessages (sendSealed Γ w args session msgTo2DeviceSvcInfo plaintext failed context s).2.trace = bmoMessages s.trace ∧
      ((∃ resp t, sendSealed Γ w args session msgTo2DeviceSvcInfo plaintext failed context s = (.ok resp, t) ∧
          resp.messageType ≠ some msgError ∧ infoResponses t.trace = infoResponses s.trace ++ [resp]) ∨
        (∀ resp, (sendSealed Γ w args session msgTo2DeviceSvcInfo plaintext failed context s).1 ≠ .ok resp) ∧
          owed Γ fuel sek (sendSealed Γ w args session msgTo2DeviceSvcInfo plaintext failed context s).2 = owed Γ fuel sek s) := by
  have hquiet : Emits To2State.trace (fun e => e.bmoMessage? = none)
      (sendSealed Γ w args session msgTo2DeviceSvcInfo plaintext failed context) :=
    Aux.sendSealed_emits (fun _ _ => rfl) fun _ _ _ _ => rfl
  obtain ⟨new, hnew, hall⟩ := hquiet s
  refine ⟨?_, ?_⟩
  · have hnone : bmoMessages new = [] := List.filterMap_eq_nil_iff.2 hall
    rw [hnew, bmoMessages_append, hnone, List.append_nil]
  obtain ⟨u, hu, heq⟩ := Aux.sendSealed_eq Γ w args session msgTo2DeviceSvcInfo plaintext failed context s
  have hinfo : infoResponses u.trace = infoResponses s.trace := by
    rw [hu, infoResponses_append]
    exact List.append_nil _
  rw [heq]
  rcases bind_cases (ofOutcome (coseEncrypt0A256gcm Γ session.sek (sessionIv s.ivCounter) plaintext))
    (fun body => exchange w args msgTo2DeviceSvcInfo body session.hello.sessionToken failed context) u with
    ⟨body, v, hv, hrun⟩ | ⟨hsnd, hfail⟩
  · obtain ⟨-, rfl⟩ := ofOutcome_ok_iff.1 hv
    rw [hrun]
    rcases @exchange_info Γ fuel w args sek body session.hello.sessionToken failed context v with ⟨resp, t, hok, hgood⟩ | ⟨hbad, howed⟩
    · refine .inl ⟨resp, t, hok, hgood, ?_⟩
      rw [Aux.exchange_ok hok, Aux.add_trace, infoResponses_append, hinfo]
      rfl
    · exact .inr ⟨hbad, howed.trans (by rw [owed, owed, hinfo])⟩
  · refine .inr ⟨fun resp => hfail resp, ?_⟩
    rw [hsnd, ofOutcome_apply, owed, owed, hinfo]

/-- A round delivers what its response holds. -/
theorem serviceInfoRound_delivers {round : Nat} : Delivers Γ fuel session.sek (serviceInfoRound Γ fuel w args session round) := by
  rw [serviceInfoRound_eq]
  refine .bind (.unrelated Aux.takeServiceInfo_emits) fun svcInfo => ?_
  intro s hs
  obtain ⟨hbmo, hinfo⟩ := @sendSealed_info Γ fuel w args session session.sek (buildDeviceSvcInfo false svcInfo) "DeviceSvcInfo failed"
    "TO2.OwnerSvcInfo" s
  rcases hinfo with ⟨resp, t, hok, hgood, hinfo⟩ | ⟨hbad, howed⟩
  · rw [hok] at hbmo
    rw [bind_of_ok hok]
    obtain ⟨sent, rest, hsplit, hbmo', hinfo', hall⟩ := @takeResponse_delivers Γ fuel w args session resp hgood t
    rw [hbmo', hbmo, hs, owed, owed, hinfo', hinfo, List.flatMap_append, List.flatMap_singleton, hsplit, ← List.append_assoc]
    refine ⟨List.prefix_append _ _, fun h => ?_⟩
    rw [hall h, List.append_nil]
  · rcases bind_cases (sendSealed Γ w args session msgTo2DeviceSvcInfo (buildDeviceSvcInfo false svcInfo) "DeviceSvcInfo failed"
      "TO2.OwnerSvcInfo") (takeResponse Γ fuel w args session) s with ⟨resp, t, hok, -⟩ | ⟨hsnd, -⟩
    · exact absurd (congrArg Prod.fst hok) (hbad resp)
    · rw [hsnd, hbmo, hs, howed]
      exact ⟨List.prefix_refl _, fun _ => rfl⟩

/-- All rounds deliver what their responses hold. -/
theorem serviceInfoRounds_delivers (left round : Nat) :
    Delivers Γ fuel session.sek (serviceInfoRounds Γ fuel w args session left round) := by
  induction left generalizing round with
  | zero => exact .unrelated (.pure _)
  | succ left ih => exact .bind serviceInfoRound_delivers fun _ => .ite (.unrelated (.pure _)) (ih (round + 1))

/-! ## The other parts -/

/-- A message of another type has nothing to do with ServiceInfo. -/
theorem post_unrelated {url body : Bytes} {msgType : Nat} {token : Option Bytes} {answer : Option HttpPostResponse}
    (h : msgType ≠ msgTo2DeviceSvcInfo) : Unrelated (.post url msgType body token answer) := ⟨rfl, if_neg h⟩

/-- The handshake has nothing to do with ServiceInfo. -/
theorem handshake_unrelated : Emits To2State.trace Unrelated (handshake Γ fuel w args) := by
  refine Aux.handshake_emits ⟨fun _ => ⟨rfl, rfl⟩, fun _ => ⟨rfl, rfl⟩, fun _ _ _ => ⟨rfl, rfl⟩, fun _ _ _ _ => ⟨rfl, rfl⟩, ?_⟩
  intro url msgType body token a h
  refine post_unrelated ?_
  rintro rfl
  revert h
  decide

/-- What follows the handshake delivers what is owed. -/
theorem onboard_delivers : Delivers Γ fuel session.sek (onboard Γ fuel w args session) := by
  refine .bind (.unrelated ?_) fun nonce => ?_
  · refine .bind (Aux.randomNonce_emits fun _ => ⟨rfl, rfl⟩) fun nonce => ?_
    refine .bind (Aux.sendSealed_emits (fun _ _ => ⟨rfl, rfl⟩) fun _ _ _ _ => post_unrelated (by decide)) fun resp => ?_
    exact .bind (.ofOutcome _) fun _ => .bind (.ofOutcome _) fun _ => .pure _
  refine .bind (serviceInfoRounds_delivers _ _) fun _ => .bind (.unrelated ?_) fun _ => .unrelated ?_
  · refine .bind (Aux.sendSealed_emits (fun _ _ => ⟨rfl, rfl⟩) fun _ _ _ _ => post_unrelated (by decide)) fun resp => ?_
    exact .bind (.ofOutcome _) fun _ => .bind (.ofOutcome _) fun _ => .ofOutcome _
  · exact .bind .getS fun s => .onlyIf (Aux.tell_emits ⟨rfl, rfl⟩)

end DeliveryAux

open DeliveryAux

/-- However a run ends, under the session key it has agreed on: the BMO module was called with the messages for it in the good
responses to DeviceSvcInfo20, in order and each once, and with all of them unless the run ended in a panic or did not come back. -/
theorem performTo2_delivers (Γ : Ctx) (fuel : Nat) (w : World) (args : To2Args) :
    ∃ sek, (∀ session s, handshake Γ fuel w args .new = (.ok session, s) → sek = session.sek) ∧
      bmoMessages (performTo2 Γ fuel w args .new).2.trace <+:
        (infoResponses (performTo2 Γ fuel w args .new).2.trace).flatMap (ownerMessages Γ fuel sek) ∧
      ((performTo2 Γ fuel w args .new).1.Returns → bmoMessages (performTo2 Γ fuel w args .new).2.trace =
        (infoResponses (performTo2 Γ fuel w args .new).2.trace).flatMap (ownerMessages Γ fuel sek)) := by
  obtain ⟨hbmo, hinfo⟩ := unrelated_same (@handshake_unrelated Γ fuel w args) .new
  by_cases hsession : ∃ session s, handshake Γ fuel w args .new = (.ok session, s)
  · obtain ⟨session, s, hrun⟩ := hsession
    rw [hrun] at hbmo hinfo
    have hnone : bmoMessages s.trace = owed Γ fuel session.sek s := by
      rw [hbmo, owed, hinfo]
      rfl
    refine ⟨session.sek, ?_, ?_⟩
    · intro session' s' hrun'
      rw [Outcome.ok.inj (congrArg Prod.fst (hrun.symm.trans hrun'))]
    · rw [performTo2, bind_of_ok hrun]
      exact onboard_delivers s hnone
  -- without a session nothing is owed and nothing is delivered
  · refine ⟨[], fun session s hrun => absurd ⟨session, s, hrun⟩ hsession, ?_⟩
    rcases bind_cases (handshake Γ fuel w args) (onboard Γ fuel w args) .new with ⟨session, s, hrun, -⟩ | ⟨hsnd, -⟩
    · exact absurd ⟨session, s, hrun⟩ hsession
    · rw [performTo2, hsnd, hbmo, hinfo]
      exact ⟨List.prefix_refl _, fun _ => rfl⟩

end FdoUefi
