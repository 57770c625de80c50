import FdoUefi.Lemmas.To2
import FdoUefi.Lib.Yields

/-!
# The ServiceInfo rounds of a TO2 run

For each part of a round: which messages of the Owner it hands to the BMO module, what the module answers to them, and what the
next round takes of these answers.
-/

namespace FdoUefi

open Prog Prog.Run Cbor

/-! ## What a round is -/

/-- The entries of a ServiceInfo for the BMO module; there are none when it does not parse. -/
def bmoEntries (fuel : Nat) (serviceInfo : Bytes) : List (Bytes × Bytes) :=
  match parseServiceInfoArray fuel serviceInfo with
  | .ok entries => entries.filter fun e => bmoPrefix.isPrefixOf e.1
  | _ => []

/-- The BMO module takes messages one after the other, in a session with a peer, and gives answers. -/
inductive BmoTakes (Γ : Ctx) (fuel : Nat) (args : To2Args) (peer : To2Peer) :
    BmoSession → List BmoMessage → List (Bytes × Bytes) → BmoSession → Prop where
  | nil (b : BmoSession) : BmoTakes Γ fuel args peer b [] [] b
  | cons {b b₁ b' : BmoSession} {m : BmoMessage} {ms : List BmoMessage} {answer : BmoAnswer} {answers : List (Bytes × Bytes)}
      (hstep : processBmoMessage Γ fuel (some peer.ownerKey) peer.peerAuthority (some args.guid) m b = (.ok answer, b₁))
      (hrest : BmoTakes Γ fuel args peer b₁ ms answers b') : BmoTakes Γ fuel args peer b (m :: ms) (answer.toList ++ answers) b'

/-- A round: the ServiceInfo of the device and the message it went out in, the response and what it holds, and the messages
for the BMO module in it. -/
structure InfoRound where
  iv : Bytes
  svcInfo : Bytes
  body : Bytes
  resp : HttpPostResponse
  owner : OwnerSvcInfo
  messages : List BmoMessage

/-- The call of the BMO module. -/
def bmoEvent (args : To2Args) (peer : To2Peer) (m : BmoMessage) : To2Event :=
  .bmo (some peer.ownerKey) peer.peerAuthority (some args.guid) m.key m.value

def InfoRound.events (args : To2Args) (session : To2Session) (r : InfoRound) : List To2Event :=
  [.encrypt session.sek r.iv (buildDeviceSvcInfo false r.svcInfo),
    .post (messageUrl args.ownerUrl msgTo2DeviceSvcInfo) msgTo2DeviceSvcInfo r.body session.hello.sessionToken (some r.resp)] ++
    r.messages.map (bmoEvent args session.peer)

/-- What was sent is the ServiceInfo of the device, encrypted under the session key; the response was encrypted under that key too,
and the messages are those in it. -/
structure InfoRound.Exchanged (Γ : Ctx) (fuel : Nat) (session : To2Session) (r : InfoRound) : Prop where
  sealed : coseEncrypt0A256gcm Γ session.sek r.iv (buildDeviceSvcInfo false r.svcInfo) = .ok r.body
  opened : ∃ plain, coseDecrypt0A256gcm Γ fuel session.sek r.resp.body = .ok plain ∧ parseOwnerSvcInfo plain = .ok r.owner
  messages : r.messages.map (fun m => (m.key, m.value)) = bmoEntries fuel r.owner.serviceInfo

/-- The ServiceInfo of the device: in the first round its description, then the answers of the round before, if there are any. -/
def deviceInfo (round : Nat) (answers : List (Bytes × Bytes)) : Bytes :=
  if round = 1 then buildDevmodServiceInfo else if answers ≠ [] then buildServiceInfoArray answers else []

/-- Rounds one after the other, as many as are left or up to the one in which the Owner is done: from a number, a state of the
BMO module and the answers that have not been sent. -/
inductive InfoChain (Γ : Ctx) (fuel : Nat) (args : To2Args) (session : To2Session) :
    Nat → Nat → BmoSession → List (Bytes × Bytes) → List InfoRound → BmoSession → Prop where
  | spent (round : Nat) (b : BmoSession) (answers : List (Bytes × Bytes)) :
      InfoChain Γ fuel args session 0 round b answers [] b
  | done {left round : Nat} {b b' : BmoSession} {answers answers' : List (Bytes × Bytes)} {r : InfoRound}
      (hsent : r.svcInfo = deviceInfo round answers) (hexchanged : r.Exchanged Γ fuel session) (hdone : r.owner.isDone = true)
      (htakes : BmoTakes Γ fuel args session.peer b r.messages answers' b') :
      InfoChain Γ fuel args session (left + 1) round b answers [r] b'
  | more {left round : Nat} {b b₁ b' : BmoSession} {answers answers' : List (Bytes × Bytes)} {r : InfoRound}
      {rs : List InfoRound} (hsent : r.svcInfo = deviceInfo round answers) (hexchanged : r.Exchanged Γ fuel session)
      (hmore : r.owner.isDone = false) (htakes : BmoTakes Γ fuel args session.peer b r.messages answers' b₁)
      (hrest : InfoChain Γ fuel args session left (round + 1) b₁ answers' rs b') :
      InfoChain Γ fuel args session (left + 1) round b answers (r :: rs) b'

namespace InfoAux

variable {Γ : Ctx} {fuel : Nat} {w : World} {args : To2Args} {session : To2Session} {peer : To2Peer} {s t : To2State}

/-! ## The BMO module -/

/-- Authorisation has a result and no error. -/
theorem checkBmoAuthorization_ne_err {data expectedCt : Bytes} {ownerKeyPoint deviceGuid : Option Bytes}
    {authority : PeerAuthority} (e : Unit) :
    checkBmoAuthorization Γ data ownerKeyPoint authority expectedCt deviceGuid ≠ .err e := by
  unfold checkBmoAuthorization
  intro h
  split at h
  · split at h <;> cases h
  · split at h
    · cases h
    · cases h
    · cases h
    · split at h <;> cases h

/-- Refusing an image is an answer, not a failure. -/
theorem refuseImage_unfailing (text : Bytes) : Unfailing (refuseImage text) := .bind .modifyS fun _ => .pure _

/-- Completing an image is an answer, not a failure. -/
theorem completeWith_unfailing (begin : BmoImageBegin) (text : Bytes) : Unfailing (completeWith begin text) :=
  .bind .modifyS fun _ => .pure _

/-- The start of an inline delivery does not fail. -/
theorem beginInline_unfailing (begin : BmoImageBegin) : Unfailing (beginInline begin) :=
  .bind .modifyS fun _ => .ite .panics (.bind .modifyS fun _ => .ite (.pure _) (.pure _))

/-- Delivery from a URL does not fail, whatever the server sends. -/
theorem beginUrl_unfailing {get : Nat → Bytes → Option Bytes} {begin : BmoImageBegin} : Unfailing (beginUrl Γ get begin) := by
  refine .ite (refuseImage_unfailing _) (.bind .caught fun r => ?_)
  cases r with
  | ok _ => exact completeWith_unfailing _ _
  | error code => exact refuseImage_unfailing _

/-- Delivery by a meta-payload does not fail. -/
theorem beginMetaUrl_unfailing {get : Nat → Bytes → Option Bytes} {begin : BmoImageBegin} {ownerKeyPoint : Option Bytes} :
    Unfailing (beginMetaUrl Γ fuel get begin ownerKeyPoint) := by
  refine .ite (refuseImage_unfailing _) (.bind .caught fun r => ?_)
  cases r with
  | ok _ => exact completeWith_unfailing _ _
  | error code => exact refuseImage_unfailing _

/-- No mode of delivery fails. -/
theorem deliver_unfailing {get : Nat → Bytes → Option Bytes} {begin : BmoImageBegin} {ownerKeyPoint : Option Bytes} :
    Unfailing (deliver Γ fuel get ownerKeyPoint begin) := by
  refine .bind .getS fun session => ?_
  split
  · exact refuseImage_unfailing _
  · exact .ite (beginInline_unfailing _) (.ite beginUrl_unfailing (.ite beginMetaUrl_unfailing (refuseImage_unfailing _)))

/-- A begin message does not fail. -/
theorem imageBegin_unfailing {m : BmoMessage} {ownerKeyPoint deviceGuid : Option Bytes} {authority : PeerAuthority} :
    Unfailing (imageBegin Γ fuel ownerKeyPoint authority deviceGuid m) := by
  refine .bind (.ofOutcome checkBmoAuthorization_ne_err) fun r => ?_
  refine .ite (refuseImage_unfailing _) (.bind .modifyS fun _ => .bind .attempt fun begin => ?_)
  cases begin with
  | none => exact .bind .modifyS fun _ => .pure _
  | some begin => exact deliver_unfailing

/-- A chunk has data, wrapped or raw. -/
theorem chunkData_ne_err {value : Bytes} (e : Unit) : chunkData value ≠ .err e := by
  unfold chunkData
  intro h
  split at h
  · split at h <;> cases h
  · cases h

/-- A chunk does not fail. -/
theorem imageData_unfailing {m : BmoMessage} : Unfailing (imageData m) :=
  .bind .getS fun _ => .ite (.pure _) (.bind (.ofOutcome chunkData_ne_err) fun _ => .bind .modifyS fun _ => .pure _)

/-- An end message does not fail. -/
theorem imageEnd_unfailing {m : BmoMessage} : Unfailing (imageEnd Γ fuel m) := by
  refine .bind .getS fun _ => .ite (.pure _) (.ite (refuseImage_unfailing _) (.bind .attempt fun endHash => ?_))
  refine .bind .getS fun _ => ?_
  split
  · exact refuseImage_unfailing _
  · exact .ite (refuseImage_unfailing _) (.bind .modifyS fun _ => .pure _)

/-- A message that sets parameters does not fail. -/
theorem setParameters_unfailing {m : BmoMessage} {ownerKeyPoint deviceGuid : Option Bytes} {authority : PeerAuthority} :
    Unfailing (setParameters Γ ownerKeyPoint authority deviceGuid m) := by
  refine .bind (.ofOutcome checkBmoAuthorization_ne_err) fun r => ?_
  exact .ite (.bind .modifyS fun _ => .pure _) (.bind .otherwise fun _ => .pure _)

/-- What goes wrong in a message is answered, and never an error of the module. -/
theorem processBmoMessage_unfailing {m : BmoMessage} {ownerKeyPoint deviceGuid : Option Bytes} {authority : PeerAuthority} :
    Unfailing (processBmoMessage Γ fuel ownerKeyPoint authority deviceGuid m) :=
  .ite imageBegin_unfailing (.ite imageData_unfailing (.ite imageEnd_unfailing (.ite setParameters_unfailing (.pure _))))

/-- A call of the BMO module that came back: the module was run on the message, and the call is in the trace. -/
theorem callBmo_ok {key value : Bytes} {answer : BmoAnswer}
    (h : callBmo Γ fuel w args peer key value s = (.ok answer, t)) :
    ∃ get, processBmoMessage Γ fuel (some peer.ownerKey) peer.peerAuthority (some args.guid) ⟨key, value, get⟩ s.bmoSession =
        (.ok answer, t.bmoSession) ∧
      t.trace = s.trace ++ [bmoEvent args peer ⟨key, value, get⟩] ∧ t.bmoResponses = s.bmoResponses := by
  have htell : tell (.bmo (some peer.ownerKey) peer.peerAuthority (some args.guid) key value) s =
      (.ok (), s.add (bmoEvent args peer ⟨key, value, w.get s.trace⟩)) := rfl
  rw [callBmo, bind_of_ok (getS_apply s), bind_of_ok htell] at h
  obtain ⟨o, s₁, hattempt, h⟩ := bind_ok_iff.1 h
  obtain ⟨rfl, rfl⟩ := pure_ok_iff.1 h
  rcases attempt_ok_iff.1 hattempt with ⟨a, rfl, hrun⟩ | ⟨rfl, e, hrun⟩
  · obtain ⟨ha, rfl⟩ := Prod.mk.inj hrun
    exact ⟨w.get s.trace, Prod.ext ha rfl, rfl, rfl⟩
  · exact absurd hrun (processBmoMessage_unfailing.onPart _ e _)

/-- The messages for the module are handed to it in order, each once, and its answers are kept in order. -/
theorem processServiceInfo_ok {entries : List (Bytes × Bytes)} {u : Unit}
    (h : processServiceInfo Γ fuel w args peer entries s = (.ok u, t)) :
    ∃ messages answers, messages.map (fun m => (m.key, m.value)) = entries.filter (fun e => bmoPrefix.isPrefixOf e.1) ∧
      BmoTakes Γ fuel args peer s.bmoSession messages answers t.bmoSession ∧
      t.trace = s.trace ++ messages.map (bmoEvent args peer) ∧ t.bmoResponses = s.bmoResponses ++ answers := by
  induction entries generalizing s with
  | nil =>
    obtain ⟨-, rfl⟩ := pure_ok_iff.1 h
    exact ⟨[], [], rfl, .nil _, by simp, by simp⟩
  | cons e entries ih =>
    obtain ⟨_, s₁, hcall, hrest⟩ := bind_ok_iff.1 h
    obtain ⟨messages, answers, hmsgs, htakes, htrace, hresp⟩ := ih hrest
    by_cases hkey : bmoPrefix.isPrefixOf e.1 = true
    · rw [onlyIf, if_pos hkey] at hcall
      obtain ⟨answer, s₂, hbmo, hmodify⟩ := bind_ok_iff.1 hcall
      rw [modifyS_apply] at hmodify
      obtain ⟨-, rfl⟩ := Prod.mk.inj hmodify
      obtain ⟨get, hprocess, htrace₂, hresp₂⟩ := callBmo_ok hbmo
      refine ⟨⟨e.1, e.2, get⟩ :: messages, answer.toList ++ answers, ?_, .cons hprocess htakes, ?_, ?_⟩
      · rw [List.filter_cons_of_pos (by simpa using hkey), List.map_cons, hmsgs]
      · rw [htrace, htrace₂, List.map_cons, List.append_assoc, List.singleton_append]
      · rw [hresp, hresp₂, List.append_assoc]
    · rw [onlyIf, if_neg hkey] at hcall
      obtain ⟨-, rfl⟩ := pure_ok_iff.1 hcall
      refine ⟨messages, answers, ?_, htakes, htrace, hresp⟩
      rw [hmsgs, List.filter_cons_of_neg (by simpa using hkey)]

/-! ## A round -/

/-- What the device sends in a round, and that it is sent once. -/
theorem takeServiceInfo_ok {round : Nat} {svcInfo : Bytes} (hfirst : round = 1 → s.bmoResponses = [])
    (h : takeServiceInfo round s = (.ok svcInfo, t)) :
    svcInfo = deviceInfo round s.bmoResponses ∧ t.trace = s.trace ∧ t.bmoSession = s.bmoSession ∧ t.bmoResponses = [] := by
  rw [takeServiceInfo, bind_of_ok (getS_apply s)] at h
  unfold deviceInfo
  by_cases hround : round = 1
  · rw [if_pos hround] at h
    obtain ⟨rfl, rfl⟩ := pure_ok_iff.1 h
    rw [if_pos hround]
    exact ⟨rfl, rfl, rfl, hfirst hround⟩
  · rw [if_neg hround] at h
    rw [if_neg hround]
    by_cases hresp : s.bmoResponses ≠ []
    · rw [if_pos hresp, bind_of_ok (setS_apply s _)] at h
      obtain ⟨rfl, rfl⟩ := pure_ok_iff.1 h
      rw [if_pos hresp]
      exact ⟨rfl, rfl, rfl, rfl⟩
    · rw [if_neg hresp] at h
      obtain ⟨rfl, rfl⟩ := pure_ok_iff.1 h
      rw [if_neg hresp]
      exact ⟨rfl, rfl, rfl, not_not.1 hresp⟩

/-- What the BMO module has, and what it has answered. -/
def module (s : To2State) : BmoSession × List (Bytes × Bytes) := (s.bmoSession, s.bmoResponses)

/-- A call leaves the module alone. -/
abbrev SameModule (s t : To2State) : Prop := module t = module s

instance : IsPreorder To2State SameModule where
  refl _ := rfl
  trans _ _ _ h h' := h'.trans h

/-- Sending a message leaves the BMO module alone. -/
theorem sendSealed_sameModule {msgType : Nat} {plaintext : Bytes} {failed context : String} :
    Effect SameModule (sendSealed Γ w args session msgType plaintext failed context) := by
  refine Effect.bind (fun _ => rfl) fun nonce => ?_
  refine Effect.bind (fun _ => rfl) fun _ => ?_
  refine Effect.bind (.ofOutcome _) fun encryptedMsg => ?_
  exact Aux.exchange_effect fun _ _ _ => rfl

/-- The entries for the BMO module are those of the array with its prefix, and none when the array cannot be read. -/
theorem bmoEntries_eq {serviceInfo : Bytes} {o : Option (List (Bytes × Bytes))}
    (h : (attempt (ofOutcome (parseServiceInfoArray fuel serviceInfo)) : To2 (Option (List (Bytes × Bytes)))) s = (.ok o, t)) :
    t = s ∧ bmoEntries fuel serviceInfo = (o.getD []).filter fun e => bmoPrefix.isPrefixOf e.1 := by
  unfold bmoEntries
  rcases attempt_ok_iff.1 h with ⟨entries, rfl, hrun⟩ | ⟨rfl, e, hrun⟩
  · obtain ⟨hparse, rfl⟩ := ofOutcome_ok_iff.1 hrun
    rw [hparse]
    exact ⟨rfl, rfl⟩
  · obtain ⟨hparse, rfl⟩ := Prod.mk.inj hrun
    rw [hparse]
    exact ⟨rfl, rfl⟩

/-- A round that came back is an exchange, after which the module has taken the messages of the Owner. -/
theorem serviceInfoRound_ok {round : Nat} {isDone : Bool} (hfirst : round = 1 → s.bmoResponses = [])
    (h : serviceInfoRound Γ fuel w args session round s = (.ok isDone, t)) :
    ∃ r : InfoRound, r.svcInfo = deviceInfo round s.bmoResponses ∧ r.Exchanged Γ fuel session ∧ r.owner.isDone = isDone ∧
      BmoTakes Γ fuel args session.peer s.bmoSession r.messages t.bmoResponses t.bmoSession ∧
      t.trace = s.trace ++ r.events args session := by
  obtain ⟨svcInfo, s₁, htake, h⟩ := bind_ok_iff.1 h
  obtain ⟨resp, s₂, hsend, h⟩ := bind_ok_iff.1 h
  obtain ⟨plain, s₃, hplain, h⟩ := bind_ok_iff.1 h
  obtain ⟨owner, s₄, howner, h⟩ := bind_ok_iff.1 h
  obtain ⟨o, s₅, hparse, h⟩ := bind_ok_iff.1 h
  obtain ⟨_, s₆, hprocess, h⟩ := bind_ok_iff.1 h
  obtain ⟨rfl, rfl⟩ := pure_ok_iff.1 h
  obtain ⟨hopen, rfl⟩ := ofOutcome_ok_iff.1 hplain
  obtain ⟨hread, rfl⟩ := ofOutcome_ok_iff.1 howner
  obtain ⟨rfl, hentries⟩ := bmoEntries_eq hparse
  obtain ⟨rfl, htrace₁, hbmo₁, hnone⟩ := takeServiceInfo_ok hfirst htake
  obtain ⟨body, hsealed, htrace₂⟩ := Aux.sendSealed_ok hsend
  -- the module is where the last round left it, and its answers have been taken
  have hmodule : module s₅ = module s₁ := by
    have hsame : Effect SameModule (sendSealed Γ w args session msgTo2DeviceSvcInfo
        (buildDeviceSvcInfo false (deviceInfo round s.bmoResponses)) "DeviceSvcInfo failed" "TO2.OwnerSvcInfo") :=
      sendSealed_sameModule
    have hkept := hsame s₁
    rwa [hsend] at hkept
  obtain ⟨hbmo₂, hresp₂⟩ := Prod.mk.inj hmodule
  obtain ⟨messages, answers, hmsgs, htakes, htrace, hresp⟩ := processServiceInfo_ok hprocess
  rw [hresp₂, hnone, List.nil_append] at hresp
  refine ⟨⟨sessionIv s₁.ivCounter, deviceInfo round s.bmoResponses, body, resp, owner, messages⟩, rfl,
    ⟨hsealed, ⟨plain, hopen, hread⟩, hmsgs.trans hentries.symm⟩, rfl, ?_, ?_⟩
  · rw [hresp, ← hbmo₁, ← hbmo₂]
    exact htakes
  · rw [htrace, htrace₂, htrace₁, InfoRound.events, ← List.append_assoc]

/-! ## All rounds -/

/-- The rounds that came back are a chain, each with the answers of the module from the round before. -/
theorem serviceInfoRounds_ok {left round : Nat} {u : Unit} (hround : 1 ≤ round) (hfirst : round = 1 → s.bmoResponses = [])
    (h : serviceInfoRounds Γ fuel w args session left round s = (.ok u, t)) :
    ∃ rs : List InfoRound, InfoChain Γ fuel args session left round s.bmoSession s.bmoResponses rs t.bmoSession ∧
      t.trace = s.trace ++ rs.flatMap (InfoRound.events args session) := by
  induction left generalizing round s with
  | zero =>
    obtain ⟨-, rfl⟩ := pure_ok_iff.1 h
    exact ⟨[], .spent _ _ _, by simp⟩
  | succ left ih =>
    obtain ⟨isDone, s₁, hrun, hrest⟩ := bind_ok_iff.1 h
    obtain ⟨r, hsent, hexchanged, hdone, htakes, htrace⟩ := serviceInfoRound_ok hfirst hrun
    cases isDone with
    | true =>
      obtain ⟨-, rfl⟩ := pure_ok_iff.1 hrest
      exact ⟨[r], .done hsent hexchanged hdone htakes, by simp [htrace]⟩
    | false =>
      obtain ⟨rs, hchain, htrace'⟩ := ih (by omega) (by omega) hrest
      exact ⟨r :: rs, .more hsent hexchanged hdone htakes hchain, by rw [htrace', htrace]; simp⟩

end InfoAux

end FdoUefi
