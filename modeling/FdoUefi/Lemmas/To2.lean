import FdoUefi.Lib.Trace
import FdoUefi.To2

/-!
# The parts of a TO2 run

For each part of `performTo2`: what it adds to the trace however it ends, and what it has checked when it returns a value.
-/

namespace FdoUefi

open Prog Prog.Run Cbor

/-! ## What the peer has to show -/

/-- ProveOVHdr20 is signed by the Owner, when its payload has no delegate chain, and else by the leaf of the chain, which leads
to the Owner and may onboard. The authority of the peer is that of the signer. -/
def SignedProveOvHdr (Γ : Ctx) (response : Bytes) (delegateChain : Option (List Bytes)) (peer : To2Peer) : Prop :=
  ∃ s1, parseCoseSign1 response = .ok s1 ∧
    verifySign1 Γ s1 (domainAad aadTagProveOvHdr fdoProtocolVersion) peer.proveOvSigner = true ∧
    match delegateChain with
    | none => peer.proveOvSigner = peer.ownerKey ∧ peer.peerAuthority = .ownerDirect
    | some certDers => ∃ chain, verifyDelegateChain Γ certDers peer.ownerKey = .ok chain ∧ chain.hasOnboard = true ∧
        peer.proveOvSigner = chain.leafKeyPoint ∧ peer.peerAuthority = .delegate chain.hasProvision

/-- A rendezvous blob is signed by the Owner, when its payload has no delegate chain, and else by the leaf of the chain, which
leads to the Owner and may redirect. -/
def SignedTo1d (Γ : Ctx) (fuel : Nat) (ovHeader ownerKey blob : Bytes) : Prop :=
  ∃ s1 header to1dChain, parseCoseSign1 blob = .ok s1 ∧ parseOvHeader Γ ovHeader = .ok header ∧
    Dec.eval (to1dDelegateChain fuel s1.payload) = .ok to1dChain ∧
    match to1dChain with
    | none => verifySign1 Γ s1 (domainAad aadTagOwnerSign header.protver) ownerKey = true
    | some certDers => ∃ chain, verifyDelegateChain Γ certDers ownerKey = .ok chain ∧ chain.hasRedirect = true ∧
        verifySign1 Γ s1 (domainAad aadTagOwnerSign header.protver) chain.leafKeyPoint = true

/-- The peer has shown who it is: in a response to ProveDevice20, which carried `nonce`, and in voucher entries. -/
structure PeerShown (Γ : Ctx) (fuel : Nat) (args : To2Args) (nonce response : Bytes) (proveOv : To2ProveOvHdr20Payload)
    (ovEntries : List Bytes) (peer : To2Peer) : Prop where
  parsed : readProveOvHdr fuel response = .ok proveOv
  voucher : verifyVoucher Γ proveOv.ovHeader proveOv.hmacRaw proveOv.hmac args.hmacKeyHandle args.guid ovEntries =
    .ok peer.ownerKey
  signed : SignedProveOvHdr Γ response proveOv.delegateChain peer
  fresh : proveOv.nonceTo2ProveOv = nonce
  to1d : ∀ blob, args.to1d = some blob → blob ≠ [] → SignedTo1d Γ fuel proveOv.ovHeader peer.ownerKey blob

/-- The entries were fetched one by one, for the indices from `entryNum` on, in the events given. -/
inductive EntriesFetched (args : To2Args) (token : Option Bytes) : Nat → List To2Event → List Bytes → Prop where
  | nil (entryNum : Nat) : EntriesFetched args token entryNum [] []
  | cons {entryNum : Nat} {resp : HttpPostResponse} {entry : Bytes} {events : List To2Event} {ovEntries : List Bytes}
      (hentry : Dec.eval (parseOvNextEntry entryNum resp.body) = .ok entry)
      (hrest : EntriesFetched args token (entryNum + 1) events ovEntries) :
      EntriesFetched args token entryNum
        (.post (messageUrl args.ownerUrl msgTo2GetOvNextEntry) msgTo2GetOvNextEntry (buildTo2GetOvNextEntry entryNum) token
          (some resp) :: events) (entry :: ovEntries)

/-- The events of step 1. -/
def helloEvents (args : To2Args) (sugar : Bytes) (resp : HttpPostResponse) : List To2Event :=
  [.random (some sugar),
    .post (messageUrl args.ownerUrl msgTo2HelloDeviceProbe) msgTo2HelloDeviceProbe
      (buildTo2HelloDeviceProbe args.guid sugar) none (some resp)]

/-- The events of step 2, up to the response. The second random value is the nonce of ProveDevice20. -/
def proveDeviceEvents (Γ : Ctx) (args : To2Args) (hello : To2Hello) (ecdhKey : EcdhKeyPair) (kexRandom nonce signature : Bytes)
    (resp : HttpPostResponse) : List To2Event :=
  let payload := proveDeviceEat Γ args hello (buildXa ecdhKey.publicX ecdhKey.publicY kexRandom) nonce
  [.createEcdhKey (some ecdhKey), .random (some kexRandom), .random (some nonce),
    .sign args.deviceKeyHandle
      (Γ.sha256 (buildCoseSigStructure buildCoseProtectedHeader (proveDeviceAad hello) payload)) (some signature),
    .post (messageUrl args.ownerUrl msgTo2ProveDevice) msgTo2ProveDevice
      (buildTo2ProveDeviceFromParts buildCoseProtectedHeader payload signature) hello.sessionToken (some resp)]

/-- The events of the key agreement. -/
def sessionKeyEvents (ecdhKey2 : EcdhKeyPair) (xb shx : Bytes) : List To2Event :=
  [.createEcdhKey (some ecdhKey2), .ecdhDerive ecdhKey2.handle xb (some shx)]

/-- The peer has proved in the events `past` that it is who the session takes it for: the whole of a handshake in which the
nonce that was drawn for ProveDevice20 came back. -/
inductive PeerProven (Γ : Ctx) (fuel : Nat) (args : To2Args) : List To2Event → To2Session → Prop where
  | intro {sugar kexRandom nonce signature shx sek : Bytes} {helloResp ovResp : HttpPostResponse}
      {ecdhKey ecdhKey2 : EcdhKeyPair} {hello : To2Hello} {proveOv : To2ProveOvHdr20Payload}
      {entryEvents : List To2Event} {ovEntries : List Bytes} {peer : To2Peer}
      (hhello : hello.sessionToken = helloResp.authToken ∧ hello.raw = helloResp.body ∧
        Dec.eval (parseTo2HelloDeviceAck Γ fuel helloResp.body) = .ok hello.ack ∧
        verifyHashPrev Γ hello.ack.hashPrevType hello.ack.hashPrev (buildTo2HelloDeviceProbe args.guid sugar) = .ok ())
      (hkey : ∃ xaRand xbRand, parseKexRandom (buildXa ecdhKey.publicX ecdhKey.publicY kexRandom) = some xaRand ∧
        parseKexRandom proveOv.xbKeyExchange = some xbRand ∧
        sek = (deriveSessionKeys Γ (buildEcdhShse shx xaRand xbRand)).sek)
      (hnonce : nonce.length = 16)
      (hfetched : EntriesFetched args hello.sessionToken 0 entryEvents ovEntries)
      (hcount : ovEntries.length = proveOv.numOvEntries)
      (hshown : PeerShown Γ fuel args nonce ovResp.body proveOv ovEntries peer) :
      PeerProven Γ fuel args
        (helloEvents args sugar helloResp ++ proveDeviceEvents Γ args hello ecdhKey kexRandom nonce signature ovResp ++
          sessionKeyEvents ecdhKey2 proveOv.xbKeyExchange shx ++ entryEvents)
        ⟨hello, sek, peer⟩

/-! ## What a run does before and after -/

/-- An event of steps 1 to 3. -/
def To2Event.InHandshake : To2Event → Prop
  | .post _ msgType _ _ _ =>
    msgType = msgTo2HelloDeviceProbe ∨ msgType = msgTo2ProveDevice ∨ msgType = msgTo2GetOvNextEntry
  | .encrypt _ _ _ => False
  | .bmo _ _ _ _ _ => False
  | .chainload _ => False
  | _ => True

/-- An event of steps 5 and 6 that concerns the peer `peer` and no other. -/
def To2Event.InSession (args : To2Args) (peer : To2Peer) : To2Event → Prop
  | .post _ msgType _ _ _ => msgType = msgTo2DeviceSvcInfo ∨ msgType = msgTo2Done
  | .encrypt _ _ _ => True
  | .bmo ownerKeyPoint authority deviceGuid _ _ =>
    ownerKeyPoint = some peer.ownerKey ∧ authority = peer.peerAuthority ∧ deviceGuid = some args.guid
  | _ => False

/-- What is done for a peer only after it has proved itself: to send a message under the session key, to act on its BMO
messages and to boot. -/
def To2Event.ActsForPeer : To2Event → Prop
  | .post _ msgType _ _ _ => msgType = msgTo2DeviceSvcInfoRdy ∨ msgType = msgTo2DeviceSvcInfo ∨ msgType = msgTo2Done
  | .bmo _ _ _ _ _ => True
  | .chainload _ => True
  | _ => False

/-- The events that send DeviceSvcInfoRdy20 with a nonce drawn for it. -/
def readyEvents (args : To2Args) (session : To2Session) (nonce iv body : Bytes) (answer : Option HttpPostResponse) :
    List To2Event :=
  [.random (some nonce), .encrypt session.sek iv (buildDeviceSvcInfoRdy (some 65535) nonce),
    .post (messageUrl args.ownerUrl msgTo2DeviceSvcInfoRdy) msgTo2DeviceSvcInfoRdy body session.hello.sessionToken answer]

/-- The bytes the device attestation key signs. -/
def proveDeviceSigStructure (Γ : Ctx) (args : To2Args) (hello : To2Hello) (xa nonce : Bytes) : Bytes :=
  buildCoseSigStructure buildCoseProtectedHeader (proveDeviceAad hello) (proveDeviceEat Γ args hello xa nonce)

namespace Aux

variable {Γ : Ctx} {fuel : Nat} {w : World} {args : To2Args} {s t : To2State}

/-! ## The checks -/

/-- An accepted ProveOVHdr20 is signed by the Owner key or by the delegate at the end of the chain. -/
theorem verifyProveOvHdr_ok {response : Bytes} {delegateChain : Option (List Bytes)} {ownerKey : Bytes} {peer : To2Peer}
    (h : verifyProveOvHdr Γ response delegateChain ownerKey = .ok peer) :
    peer.ownerKey = ownerKey ∧ SignedProveOvHdr Γ response delegateChain peer := by
  cases delegateChain with
  | none =>
    simp only [verifyProveOvHdr, Outcome.bind_ok_iff, Outcome.noneAs_ok_iff, Outcome.ensure_ok_iff, Outcome.pure_ok_iff] at h
    obtain ⟨s1, hs1, _, hv, rfl⟩ := h
    exact ⟨rfl, s1, hs1, hv, rfl, rfl⟩
  | some certDers =>
    simp only [verifyProveOvHdr, Outcome.bind_ok_iff, Outcome.noneAs_ok_iff, Outcome.ensure_ok_iff, Outcome.pure_ok_iff] at h
    obtain ⟨s1, hs1, chain, hchain, _, honboard, _, hv, rfl⟩ := h
    exact ⟨rfl, s1, hs1, hv, chain, hchain, honboard, rfl, rfl⟩

/-- An accepted rendezvous blob is signed by the Owner. -/
theorem verifyTo1dBlob_ok {ovHeader blob ownerKey : Bytes} {u : Unit}
    (h : verifyTo1dBlob Γ fuel ovHeader blob ownerKey = .ok u) : SignedTo1d Γ fuel ovHeader ownerKey blob := by
  simp only [verifyTo1dBlob, Outcome.bind_ok_iff, Outcome.noneAs_ok_iff, Outcome.mapErr_ok_iff] at h
  obtain ⟨s1, hs1, header, hheader, to1dChain, hchain, hv⟩ := h
  refine ⟨s1, header, to1dChain, hs1, hheader, hchain, ?_⟩
  cases to1dChain with
  | none => exact Outcome.ensure_ok_iff.1 hv
  | some certDers =>
    simp only [Outcome.bind_ok_iff, Outcome.noneAs_ok_iff, Outcome.ensure_ok_iff] at hv
    obtain ⟨chain, hc, _, hredirect, hsig⟩ := hv
    exact ⟨chain, hc, hredirect, hsig⟩

/-- If there is a blob, it is an accepted one. -/
theorem verifyTo1d_ok {ovHeader ownerKey : Bytes} {to1d : Option Bytes} {u : Unit}
    (h : verifyTo1d Γ fuel ovHeader ownerKey to1d = .ok u) (blob : Bytes) (hb : to1d = some blob) (hne : blob ≠ []) :
    SignedTo1d Γ fuel ovHeader ownerKey blob := by
  subst hb
  rw [verifyTo1d, if_neg hne] at h
  exact verifyTo1dBlob_ok h

/-- A peer that was accepted has shown what it has to. -/
theorem verifyPeer_ok {sent : To2ProveDevice} {proveOv : To2ProveOvHdr20Payload} {ovEntries : List Bytes} {peer : To2Peer}
    (hparsed : readProveOvHdr fuel sent.response = .ok proveOv)
    (h : verifyPeer Γ fuel args sent proveOv ovEntries = .ok peer) :
    PeerShown Γ fuel args sent.nonceTo2ProveOvPrep sent.response proveOv ovEntries peer := by
  simp only [verifyPeer, verifyNonceEcho, Outcome.bind_ok_iff, Outcome.mapErr_ok_iff, Outcome.ensure_ok_iff,
    Outcome.pure_ok_iff] at h
  obtain ⟨ownerKey, hvoucher, peer', hsigned, _, hnonce, _, hto1d, rfl⟩ := h
  obtain ⟨rfl, hsig⟩ := verifyProveOvHdr_ok hsigned
  exact ⟨hparsed, hvoucher, hsig, hnonce.symm, verifyTo1d_ok hto1d⟩

/-! ## The calls -/

/-- An event goes to the end of the trace. -/
@[simp] theorem add_trace (s : To2State) (e : To2Event) : (s.add e).trace = s.trace ++ [e] := rfl

/-- The counter of the IVs does not count events. -/
@[simp] theorem add_ivCounter (s : To2State) (e : To2Event) : (s.add e).ivCounter = s.ivCounter := rfl

/-- A call is answered from the trace and added to it. -/
theorem ask_ok_iff {α : Type} {answer : List To2Event → α} {event : α → To2Event} {a : α} :
    ask answer event s = (.ok a, t) ↔ a = answer s.trace ∧ t = s.add (event a) := by
  simp only [ask, Prod.mk.injEq, Outcome.ok.injEq]
  constructor
  · rintro ⟨rfl, rfl⟩
    exact ⟨rfl, rfl⟩
  · rintro ⟨rfl, rfl⟩
    exact ⟨rfl, rfl⟩

/-- A call that can fail adds its event in any case. -/
theorem askFor_snd {α : Type} {answer : List To2Event → Option α} {event : Option α → To2Event} {e : FdoError} :
    (askFor answer event e s).2 = s.add (event (answer s.trace)) := by
  rw [askFor, bind_of_ok (ask_ok_iff.2 ⟨rfl, rfl⟩)]
  cases answer s.trace <;> rfl

/-- A call that was answered is in the trace with its answer. -/
theorem askFor_ok {α : Type} {answer : List To2Event → Option α} {event : Option α → To2Event} {e : FdoError} {a : α}
    (h : askFor answer event e s = (.ok a, t)) : t = s.add (event (some a)) := by
  simp only [askFor, bind_ok_iff, ask_ok_iff, orFail_ok_iff] at h
  obtain ⟨o, u, ⟨-, rfl⟩, rfl, rfl⟩ := h
  rfl

/-- A nonce has 16 bytes, and the TPM was asked for it. -/
theorem randomNonce_ok {what : String} {r : Bytes} (h : randomNonce w what s = (.ok r, t)) :
    t = s.add (.random (some r)) ∧ r.length = 16 := by
  obtain ⟨a, u, ha, hrest⟩ := bind_ok_iff.1 h
  split at hrest
  · obtain ⟨rfl, rfl⟩ := pure_ok_iff.1 hrest
    exact ⟨askFor_ok ha, ‹_›⟩
  · simp at hrest

/-- A response that was taken is in the trace with its message. -/
theorem exchange_ok {msgType : Nat} {body : Bytes} {token : Option Bytes} {failed context : String}
    {resp : HttpPostResponse} (h : exchange w args msgType body token failed context s = (.ok resp, t)) :
    t = s.add (.post (messageUrl args.ownerUrl msgType) msgType body token (some resp)) := by
  simp only [exchange, bind_ok_iff, ofOutcome_ok_iff, pure_ok_iff] at h
  obtain ⟨resp', u, hpost, _, u', ⟨-, rfl⟩, rfl, rfl⟩ := h
  exact askFor_ok hpost

/-- A message has been sent, whatever comes back. -/
theorem exchange_trace (w : World) (args : To2Args) (msgType : Nat) (body : Bytes) (token : Option Bytes)
    (failed context : String) (s : To2State) :
    ∃ answer, (exchange w args msgType body token failed context s).2.trace =
      s.trace ++ [.post (messageUrl args.ownerUrl msgType) msgType body token answer] := by
  refine ⟨w.post s.trace (messageUrl args.ownerUrl msgType) msgType body token, ?_⟩
  calc (exchange w args msgType body token failed context s).2.trace
      = (httpPostWithSession w (messageUrl args.ownerUrl msgType) body msgType token failed s).2.trace :=
        Emits.bind_quiet (fun _ => .bind (.ofOutcome _) fun _ => .pure _) s
    _ = _ := by rw [httpPostWithSession, askFor_snd, add_trace]

/-! ## The handshake -/

/-- HelloDevice that came back: its events, and a response with the hash of the message. -/
theorem performTo2Hello_ok {hello : To2Hello} (h : performTo2Hello Γ fuel w args s = (.ok hello, t)) :
    ∃ sugar resp, t.trace = s.trace ++ helloEvents args sugar resp ∧
      hello.sessionToken = resp.authToken ∧ hello.raw = resp.body ∧
      Dec.eval (parseTo2HelloDeviceAck Γ fuel resp.body) = .ok hello.ack ∧
      verifyHashPrev Γ hello.ack.hashPrevType hello.ack.hashPrev (buildTo2HelloDeviceProbe args.guid sugar) = .ok () := by
  simp only [performTo2Hello, bind_ok_iff, ofOutcome_ok_iff, pure_ok_iff] at h
  obtain ⟨sugar, s₁, hsugar, resp, s₂, hpost, ack, _, ⟨hack, rfl⟩, _, _, ⟨hhash, rfl⟩, rfl, rfl⟩ := h
  obtain ⟨rfl, -⟩ := randomNonce_ok hsugar
  refine ⟨sugar, resp, ?_, rfl, rfl, hack, hhash⟩
  rw [exchange_ok hpost]
  simp [helloEvents]

/-- ProveDevice that came back: its events, a fresh key and a nonce of 16 bytes. -/
theorem proveDevice_ok {hello : To2Hello} {sent : To2ProveDevice} (h : proveDevice Γ w args hello s = (.ok sent, t)) :
    ∃ ecdhKey kexRandom signature resp,
      t.trace = s.trace ++
        proveDeviceEvents Γ args hello ecdhKey kexRandom sent.nonceTo2ProveOvPrep signature resp ∧
      sent.xa = buildXa ecdhKey.publicX ecdhKey.publicY kexRandom ∧ sent.response = resp.body ∧
      sent.nonceTo2ProveOvPrep.length = 16 := by
  simp only [proveDevice, bind_ok_iff, pure_ok_iff] at h
  obtain ⟨ecdhKey, s₁, hkey, kexRandom, s₂, hrandom, nonce, s₃, hnonce, signature, s₄, hsign, resp, s₅, hpost, rfl, rfl⟩ := h
  obtain ⟨rfl, hlen⟩ := randomNonce_ok hnonce
  refine ⟨ecdhKey, kexRandom, signature, resp, ?_, rfl, rfl, hlen⟩
  rw [exchange_ok hpost, askFor_ok hsign, askFor_ok hrandom, askFor_ok hkey]
  simp [proveDeviceEvents]

/-- The session key is derived from the secret of both keys and from both random parts. -/
theorem agreeSessionKey_ok {xa xb sek : Bytes} (h : agreeSessionKey Γ w xa xb s = (.ok sek, t)) :
    ∃ ecdhKey2 shx xaRand xbRand, t.trace = s.trace ++ sessionKeyEvents ecdhKey2 xb shx ∧
      parseKexRandom xa = some xaRand ∧ parseKexRandom xb = some xbRand ∧
      sek = (deriveSessionKeys Γ (buildEcdhShse shx xaRand xbRand)).sek := by
  simp only [agreeSessionKey, bind_ok_iff, orFail_ok_iff, pure_ok_iff] at h
  obtain ⟨ecdhKey2, s₁, hkey, shx, s₂, hshx, xbRand, _, ⟨hxb, rfl⟩, xaRand, _, ⟨hxa, rfl⟩, rfl, rfl⟩ := h
  refine ⟨ecdhKey2, shx, xaRand, xbRand, ?_, hxa, hxb, rfl⟩
  rw [askFor_ok hshx, askFor_ok hkey]
  simp [sessionKeyEvents]

/-- The loop asks for every index once, in order, and returns one entry for each. -/
theorem fetchOvEntries_ok {token : Option Bytes} {n entryNum : Nat} {ovEntries : List Bytes}
    (h : fetchOvEntries w args token n entryNum s = (.ok ovEntries, t)) :
    ∃ events, t.trace = s.trace ++ events ∧ EntriesFetched args token entryNum events ovEntries ∧ ovEntries.length = n := by
  induction n generalizing entryNum s ovEntries with
  | zero =>
    obtain ⟨rfl, rfl⟩ := pure_ok_iff.1 h
    exact ⟨[], by simp, .nil entryNum, rfl⟩
  | succ n ih =>
    simp only [fetchOvEntries, bind_ok_iff, ofOutcome_ok_iff, pure_ok_iff] at h
    obtain ⟨resp, s₁, hpost, entry, _, ⟨hentry, rfl⟩, rest, s₂, hrest, rfl, rfl⟩ := h
    obtain ⟨events, htrace, hfetched, hlen⟩ := ih hrest
    refine ⟨_ :: events, ?_, .cons hentry hfetched, by rw [List.length_cons, hlen]⟩
    rw [htrace, exchange_ok hpost]
    simp

/-- A handshake that came back has proven its peer. -/
theorem handshake_ok {session : To2Session} (h : handshake Γ fuel w args s = (.ok session, t)) :
    ∃ past, t.trace = s.trace ++ past ∧ PeerProven Γ fuel args past session := by
  simp only [handshake, bind_ok_iff, ofOutcome_ok_iff, pure_ok_iff] at h
  obtain ⟨hello, s₁, hhello, sent, s₂, hsent, proveOv, _, ⟨hparsed, rfl⟩, sek, s₃, hsek, ovEntries, s₄, hentries, peer, _,
    ⟨hpeer, rfl⟩, rfl, rfl⟩ := h
  obtain ⟨sugar, helloResp, ht₁, hchecked⟩ := performTo2Hello_ok hhello
  obtain ⟨ecdhKey, kexRandom, signature, ovResp, ht₂, hxa, hresp, hlen⟩ := proveDevice_ok hsent
  obtain ⟨ecdhKey2, shx, xaRand, xbRand, ht₃, hxaRand, hxbRand, hkey⟩ := agreeSessionKey_ok hsek
  obtain ⟨events, ht₄, hfetched, hcount⟩ := fetchOvEntries_ok hentries
  have hshown := verifyPeer_ok hparsed hpeer
  rw [hresp] at hshown
  rw [hxa] at hxaRand
  have htrace : t.trace = s.trace ++ (helloEvents args sugar helloResp ++
      proveDeviceEvents Γ args hello ecdhKey kexRandom sent.nonceTo2ProveOvPrep signature ovResp ++
      sessionKeyEvents ecdhKey2 proveOv.xbKeyExchange shx ++ events) := by
    rw [ht₄, ht₃, ht₂, ht₁]
    simp only [List.append_assoc]
  exact ⟨_, htrace, .intro hchecked ⟨xaRand, xbRand, hxaRand, hxbRand, hkey⟩ hlen hfetched hcount hshown⟩

/-! ## What the parts do to the state -/

variable {R : To2State → To2State → Prop} {E : To2Event → Prop}

/-- An event that is told is emitted. -/
theorem tell_emits {e : To2Event} (he : E e) : Emits To2State.trace E (tell e) := .one fun _ => ⟨e, rfl, he⟩

/-- A call has the effect of its event. -/
theorem askFor_effect {α : Type} {answer : List To2Event → Option α} {event : Option α → To2Event} {e : FdoError}
    (he : ∀ a s, R s (s.add (event a))) : Effect R (askFor answer event e) := by
  intro s
  rw [askFor_snd]
  exact he _ s

variable [IsPreorder To2State R]

/-- Asking for a nonce has the effect of its event. -/
theorem randomNonce_effect {what : String} (he : ∀ a s, R s (s.add (.random a))) : Effect R (randomNonce w what) :=
  .bind (askFor_effect he) fun _ => .ite (.pure _) .panics

/-- Sending a message has the effect of its event. -/
theorem exchange_effect {msgType : Nat} {body : Bytes} {token : Option Bytes} {failed context : String}
    (he : ∀ url answer s, R s (s.add (.post url msgType body token answer))) :
    Effect R (exchange w args msgType body token failed context) :=
  .bind (askFor_effect (he _)) fun _ => .bind (.ofOutcome _) fun _ => .pure _

/-- An event that satisfies `E` is added at the end. -/
theorem appends_add {e : To2Event} (he : E e) (s : To2State) : Appends To2State.trace E s (s.add e) :=
  ⟨[e], rfl, by simpa using he⟩

/-- A call emits its event. -/
theorem askFor_emits {α : Type} {answer : List To2Event → Option α} {event : Option α → To2Event} {e : FdoError}
    (he : ∀ a, E (event a)) : Emits To2State.trace E (askFor answer event e) :=
  askFor_effect (R := Appends To2State.trace E) fun a => appends_add (he a)

/-- Asking for a nonce emits that. -/
theorem randomNonce_emits {what : String} (he : ∀ a, E (.random a)) : Emits To2State.trace E (randomNonce w what) :=
  randomNonce_effect (R := Appends To2State.trace E) fun a => appends_add (he a)

/-- Sending a message emits that. -/
theorem exchange_emits {msgType : Nat} {body : Bytes} {token : Option Bytes} {failed context : String}
    (he : ∀ url answer, E (.post url msgType body token answer)) :
    Emits To2State.trace E (exchange w args msgType body token failed context) :=
  exchange_effect (R := Appends To2State.trace E) fun url answer => appends_add (he url answer)

/-- The events a handshake can add satisfy `E`. -/
structure HandshakeEvents (Γ : Ctx) (args : To2Args) (E : To2Event → Prop) : Prop where
  random : ∀ a, E (.random a)
  createEcdhKey : ∀ a, E (.createEcdhKey a)
  ecdhDerive : ∀ handle peerKey a, E (.ecdhDerive handle peerKey a)
  sign : ∀ hello xa nonce a, E (.sign args.deviceKeyHandle (Γ.sha256 (proveDeviceSigStructure Γ args hello xa nonce)) a)
  post : ∀ url msgType body token a,
    msgType = msgTo2HelloDeviceProbe ∨ msgType = msgTo2ProveDevice ∨ msgType = msgTo2GetOvNextEntry →
      E (.post url msgType body token a)

/-- A wider set holds the events of the handshake, too. -/
theorem HandshakeEvents.mono {F : To2Event → Prop} (hE : HandshakeEvents Γ args E) (hEF : ∀ e, E e → F e) :
    HandshakeEvents Γ args F where
  random a := hEF _ (hE.random a)
  createEcdhKey a := hEF _ (hE.createEcdhKey a)
  ecdhDerive handle peerKey a := hEF _ (hE.ecdhDerive handle peerKey a)
  sign hello xa nonce a := hEF _ (hE.sign hello xa nonce a)
  post url msgType body token a h := hEF _ (hE.post url msgType body token a h)

/-- Every event of a handshake takes a state to one that `R` relates to it. -/
abbrev HandshakeEffects (Γ : Ctx) (args : To2Args) (R : To2State → To2State → Prop) : Prop :=
  HandshakeEvents Γ args fun e => ∀ s : To2State, R s (s.add e)

/-- HelloDevice has effects of the handshake only. -/
theorem performTo2Hello_effect (hR : HandshakeEffects Γ args R) : Effect R (performTo2Hello Γ fuel w args) := by
  refine Effect.bind (randomNonce_effect hR.random) ?_
  intro sugar
  refine Effect.bind (exchange_effect fun _ _ => hR.post _ _ _ _ _ (.inl rfl)) ?_
  intro resp
  refine Effect.bind (.ofOutcome _) ?_
  intro ack
  exact Effect.bind (.ofOutcome _) fun _ => .pure _

/-- ProveDevice has effects of the handshake only. -/
theorem proveDevice_effect (hR : HandshakeEffects Γ args R) {hello : To2Hello} : Effect R (proveDevice Γ w args hello) := by
  refine Effect.bind (askFor_effect hR.createEcdhKey) ?_
  intro ecdhKey
  refine Effect.bind (askFor_effect hR.random) ?_
  intro random
  refine Effect.bind (randomNonce_effect hR.random) ?_
  intro nonce
  refine Effect.bind (askFor_effect (hR.sign hello (buildXa ecdhKey.publicX ecdhKey.publicY random) nonce)) ?_
  intro signature
  exact Effect.bind (exchange_effect fun _ _ => hR.post _ _ _ _ _ (.inr (.inl rfl))) fun _ => .pure _

/-- Agreeing on the session key has effects of the handshake only. -/
theorem agreeSessionKey_effect (hR : HandshakeEffects Γ args R) {xa xb : Bytes} :
    Effect R (agreeSessionKey Γ w xa xb) := by
  refine Effect.bind (askFor_effect hR.createEcdhKey) ?_
  intro ecdhKey2
  refine Effect.bind (askFor_effect (hR.ecdhDerive ecdhKey2.handle xb)) ?_
  intro shx
  refine Effect.bind (.orFail _ _) ?_
  intro xbRand
  exact Effect.bind (.orFail _ _) fun _ => .pure _

/-- Fetching the entries has effects of the handshake only. -/
theorem fetchOvEntries_effect (hR : HandshakeEffects Γ args R) {token : Option Bytes} (n entryNum : Nat) :
    Effect R (fetchOvEntries w args token n entryNum) := by
  induction n generalizing entryNum with
  | zero => exact .pure _
  | succ n ih =>
    refine Effect.bind (exchange_effect fun _ _ => hR.post _ _ _ _ _ (.inr (.inr rfl))) ?_
    intro resp
    refine Effect.bind (.ofOutcome _) ?_
    intro entry
    exact Effect.bind (ih (entryNum + 1)) fun _ => .pure _

/-- What every event of a handshake does to the state, a handshake does. -/
theorem handshake_effect (hR : HandshakeEffects Γ args R) : Effect R (handshake Γ fuel w args) := by
  refine Effect.bind (performTo2Hello_effect hR) ?_
  intro hello
  refine Effect.bind (proveDevice_effect hR) ?_
  intro sent
  refine Effect.bind (.ofOutcome _) ?_
  intro proveOv
  refine Effect.bind (agreeSessionKey_effect hR) ?_
  intro sek
  refine Effect.bind (fetchOvEntries_effect hR _ _) ?_
  intro ovEntries
  exact Effect.bind (.ofOutcome _) fun _ => .pure _

/-- The handshake emits its own events only. -/
theorem handshake_emits (hE : HandshakeEvents Γ args E) : Emits To2State.trace E (handshake Γ fuel w args) :=
  handshake_effect (R := Appends To2State.trace E) (hE.mono fun _ he => appends_add he)

/-- These are the events that stand in a handshake. -/
theorem handshakeEvents_inHandshake : HandshakeEvents Γ args To2Event.InHandshake where
  random _ := trivial
  createEcdhKey _ := trivial
  ecdhDerive _ _ _ := trivial
  sign _ _ _ _ := trivial
  post _ _ _ _ _ h := h

/-! ## The session -/

variable {session : To2Session}

/-- The state in which the encryption of a message is attempted. -/
theorem sendSealed_eq (Γ : Ctx) (w : World) (args : To2Args) (session : To2Session) (msgType : Nat) (plaintext : Bytes)
    (failed context : String) (s : To2State) :
    ∃ u : To2State, u.trace = s.trace ++ [.encrypt session.sek (sessionIv s.ivCounter) plaintext] ∧
      sendSealed Γ w args session msgType plaintext failed context s =
        (do
          let encryptedMsg ← ofOutcome (coseEncrypt0A256gcm Γ session.sek (sessionIv s.ivCounter) plaintext)
          exchange w args msgType encryptedMsg session.hello.sessionToken failed context : To2 HttpPostResponse) u :=
  ⟨To2State.add { s with ivCounter := (s.ivCounter + 1) % 2 ^ 64 } (.encrypt session.sek (sessionIv s.ivCounter) plaintext),
    rfl, rfl⟩

/-- A message that was answered was encrypted with the next IV and sent. -/
theorem sendSealed_ok {msgType : Nat} {plaintext : Bytes} {failed context : String} {resp : HttpPostResponse}
    (h : sendSealed Γ w args session msgType plaintext failed context s = (.ok resp, t)) :
    ∃ body, coseEncrypt0A256gcm Γ session.sek (sessionIv s.ivCounter) plaintext = .ok body ∧
      t.trace = s.trace ++ [.encrypt session.sek (sessionIv s.ivCounter) plaintext,
        .post (messageUrl args.ownerUrl msgType) msgType body session.hello.sessionToken (some resp)] := by
  obtain ⟨u, hu, heq⟩ := sendSealed_eq Γ w args session msgType plaintext failed context s
  simp only [heq, bind_ok_iff, ofOutcome_ok_iff] at h
  obtain ⟨body, _, ⟨hsealed, rfl⟩, hpost⟩ := h
  refine ⟨body, hsealed, ?_⟩
  rw [exchange_ok hpost, add_trace, hu]
  simp

/-- A message under the session key is encrypted, and sent unless the encryption fails. -/
theorem sendSealed_trace {msgType : Nat} {plaintext : Bytes} {failed context : String} :
    (sendSealed Γ w args session msgType plaintext failed context s).2.trace =
        s.trace ++ [.encrypt session.sek (sessionIv s.ivCounter) plaintext] ∨
      ∃ body answer, (sendSealed Γ w args session msgType plaintext failed context s).2.trace =
        s.trace ++ [.encrypt session.sek (sessionIv s.ivCounter) plaintext,
          .post (messageUrl args.ownerUrl msgType) msgType body session.hello.sessionToken answer] := by
  obtain ⟨u, hu, heq⟩ := sendSealed_eq Γ w args session msgType plaintext failed context s
  rw [heq]
  rcases bind_cases (ofOutcome (coseEncrypt0A256gcm Γ session.sek (sessionIv s.ivCounter) plaintext))
    (fun body => exchange w args msgType body session.hello.sessionToken failed context) u with
    ⟨body, v, hv, hrun⟩ | ⟨hsnd, -⟩
  · obtain ⟨-, rfl⟩ := ofOutcome_ok_iff.1 hv
    obtain ⟨answer, htrace⟩ := exchange_trace w args msgType body session.hello.sessionToken failed context v
    refine .inr ⟨body, answer, ?_⟩
    rw [hrun, htrace, hu]
    simp
  · refine .inl ?_
    rw [hsnd, ← hu]
    rfl

/-- Sending an encrypted message emits an encryption and a message. -/
theorem sendSealed_emits {msgType : Nat} {plaintext : Bytes} {failed context : String}
    (he : ∀ key nonce, E (.encrypt key nonce plaintext)) (hp : ∀ url body token answer, E (.post url msgType body token answer)) :
    Emits To2State.trace E (sendSealed Γ w args session msgType plaintext failed context) := by
  refine Emits.bind (.still fun _ => rfl) ?_
  intro nonce
  refine Emits.bind (tell_emits (he session.sek nonce)) ?_
  intro _
  refine Emits.bind (.ofOutcome _) ?_
  intro body
  exact exchange_emits fun url answer => hp url body _ answer

/-- DeviceSvcInfoRdy20 that was answered: its events, its ciphertext, and SetupDevice20 accepted. -/
theorem setupDevice_ok {nonce : Bytes} (h : setupDevice Γ fuel w args session s = (.ok nonce, t)) :
    ∃ iv body resp plain disposition, t.trace = s.trace ++ readyEvents args session nonce iv body (some resp) ∧
      coseEncrypt0A256gcm Γ session.sek iv (buildDeviceSvcInfoRdy (some 65535) nonce) = .ok body ∧
      coseDecrypt0A256gcm Γ fuel session.sek resp.body = .ok plain ∧
      checkSetupDevice20 Γ fuel plain nonce session.peer.proveOvSigner = .ok disposition := by
  simp only [setupDevice, bind_ok_iff, ofOutcome_ok_iff, pure_ok_iff] at h
  obtain ⟨nonce', s₁, hnonce, resp, s₂, hsend, plain, _, ⟨hplain, rfl⟩, disposition, _, ⟨hsetup, rfl⟩, rfl, rfl⟩ := h
  obtain ⟨rfl, -⟩ := randomNonce_ok hnonce
  obtain ⟨body, hsealed, htrace⟩ := sendSealed_ok hsend
  refine ⟨sessionIv s.ivCounter, body, resp, plain, disposition, ?_, hsealed, hplain, hsetup⟩
  rw [htrace, readyEvents, add_trace, add_ivCounter, List.append_assoc, List.singleton_append]

/-- However step 4 ends, it has only drawn and encrypted, or it has sent DeviceSvcInfoRdy20. -/
theorem setupDevice_trace (Γ : Ctx) (fuel : Nat) (w : World) (args : To2Args) (session : To2Session) (s : To2State) :
    (∃ new, (setupDevice Γ fuel w args session s).2.trace = s.trace ++ new ∧ ∀ e ∈ new, ¬e.ActsForPeer) ∨
      ∃ nonce iv body answer, (setupDevice Γ fuel w args session s).2.trace =
        s.trace ++ readyEvents args session nonce iv body answer := by
  have hdraw : Emits To2State.trace (fun e => ¬e.ActsForPeer) (randomNonce w "NonceTO2SetupDv") :=
    randomNonce_emits fun _ => id
  rcases bind_cases (randomNonce w "NonceTO2SetupDv") _ s with ⟨nonce, t, hnonce, heq⟩ | ⟨hsnd, -⟩
  · obtain ⟨rfl, -⟩ := randomNonce_ok hnonce
    have htail : (setupDevice Γ fuel w args session s).2.trace =
        (sendSealed Γ w args session msgTo2DeviceSvcInfoRdy (buildDeviceSvcInfoRdy (some 65535) nonce)
          "DeviceSvcInfoRdy failed" "TO2.SetupDevice" (s.add (.random (some nonce)))).2.trace := by
      rw [setupDevice, heq]
      exact Emits.bind_quiet (fun _ => .bind (.ofOutcome _) fun _ => .bind (.ofOutcome _) fun _ => .pure _) _
    rw [htail]
    rcases sendSealed_trace (s := s.add (.random (some nonce))) with hfail | ⟨body, answer, hsent⟩
    · refine .inl ⟨_, hfail.trans (by rw [add_trace, List.append_assoc]), ?_⟩
      simp [To2Event.ActsForPeer]
    · refine .inr ⟨nonce, sessionIv s.ivCounter, body, answer, ?_⟩
      rw [hsent, readyEvents, add_trace, add_ivCounter, List.append_assoc, List.singleton_append]
  · obtain ⟨new, hnew, hidle⟩ := hdraw s
    exact .inl ⟨new, by rw [setupDevice, hsnd, hnew], hidle⟩

/-- Calling the BMO module is an event of the session. -/
theorem callBmo_emits {peer : To2Peer} {key value : Bytes} :
    Emits To2State.trace (To2Event.InSession args peer) (callBmo Γ fuel w args peer key value) := by
  refine Emits.bind .getS ?_
  intro s
  refine Emits.bind (tell_emits ⟨rfl, rfl, rfl⟩) ?_
  intro _
  exact Emits.bind (.attempt (.onPart _ fun _ _ => rfl)) fun _ => .pure _

/-- Everything that is done with a ServiceInfo is an event of the session. -/
theorem processServiceInfo_emits {peer : To2Peer} (entries : List (Bytes × Bytes)) :
    Emits To2State.trace (To2Event.InSession args peer) (processServiceInfo Γ fuel w args peer entries) := by
  induction entries with
  | nil => exact .pure _
  | cons e entries ih =>
    exact .bind (.onlyIf (.bind callBmo_emits fun _ => .modifyS fun _ => rfl)) fun _ => ih

/-- Taking the ServiceInfo of a round emits nothing. -/
theorem takeServiceInfo_emits {round : Nat} : Emits To2State.trace E (takeServiceInfo round) := by
  refine .still fun s => ?_
  simp only [takeServiceInfo, bind_of_ok (getS_apply s)]
  split
  · rfl
  · split <;> rfl

/-- A round has events of the session only. -/
theorem serviceInfoRound_emits {round : Nat} :
    Emits To2State.trace (To2Event.InSession args session.peer) (serviceInfoRound Γ fuel w args session round) := by
  refine Emits.bind takeServiceInfo_emits ?_
  intro svcInfo
  refine Emits.bind (sendSealed_emits (fun _ _ => trivial) fun _ _ _ _ => .inl rfl) ?_
  intro resp
  refine Emits.bind (.ofOutcome _) ?_
  intro plain
  refine Emits.bind (.ofOutcome _) ?_
  intro ownerSvc
  refine Emits.bind (.attempt (.ofOutcome _)) ?_
  intro entries
  exact Emits.bind (processServiceInfo_emits _) fun _ => .pure _

/-- All rounds have events of the session only. -/
theorem serviceInfoRounds_emits (left round : Nat) :
    Emits To2State.trace (To2Event.InSession args session.peer) (serviceInfoRounds Γ fuel w args session left round) := by
  induction left generalizing round with
  | zero => exact .pure _
  | succ left ih => exact .bind serviceInfoRound_emits fun _ => .ite (.pure _) (ih (round + 1))

/-- Done20 has events of the session only. -/
theorem finishTo2_emits {nonce : Bytes} :
    Emits To2State.trace (To2Event.InSession args session.peer) (finishTo2 Γ fuel w args session nonce) := by
  refine Emits.bind (sendSealed_emits (fun _ _ => trivial) fun _ _ _ _ => .inr rfl) ?_
  intro resp
  refine Emits.bind (.ofOutcome _) ?_
  intro plain
  exact Emits.bind (.ofOutcome _) fun _ => .ofOutcome _

/-- Done20 that was answered: its events, its ciphertext, and the nonce in the response. -/
theorem finishTo2_ok {nonce : Bytes} {u : Unit} (h : finishTo2 Γ fuel w args session nonce s = (.ok u, t)) :
    ∃ body resp plain, t.trace = s.trace ++
        [.encrypt session.sek (sessionIv s.ivCounter) (buildTo2Done session.hello.ack.nonceTo2ProveDv),
          .post (messageUrl args.ownerUrl msgTo2Done) msgTo2Done body session.hello.sessionToken (some resp)] ∧
      coseEncrypt0A256gcm Γ session.sek (sessionIv s.ivCounter) (buildTo2Done session.hello.ack.nonceTo2ProveDv) = .ok body ∧
      coseDecrypt0A256gcm Γ fuel session.sek resp.body = .ok plain ∧ parseTo2DoneAck plain = .ok nonce := by
  simp only [finishTo2, verifyNonceEcho, bind_ok_iff, ofOutcome_ok_iff, Outcome.ensure_ok_iff] at h
  obtain ⟨resp, s₁, hsend, plain, _, ⟨hplain, rfl⟩, nonce', _, ⟨hack, rfl⟩, rfl, rfl⟩ := h
  obtain ⟨body, hsealed, htrace⟩ := sendSealed_ok hsend
  exact ⟨body, resp, plain, htrace, hsealed, hplain, hack⟩

/-- The last thing a run does is to boot the image it holds, if any. -/
theorem chainloadImage_trace (s : To2State) :
    (chainloadImage s).2.trace = s.trace ∨ ∃ image, (chainloadImage s).2.trace = s.trace ++ [.chainload image] := by
  simp only [chainloadImage, bind_of_ok (getS_apply s), onlyIf]
  split
  · exact .inr ⟨_, rfl⟩
  · exact .inl rfl

end Aux

end FdoUefi
