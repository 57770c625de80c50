import FdoUefi.Lemmas.SetupDevice
import FdoUefi.Theorems.DelegateChain
import FdoUefi.Theorems.To2

/-!
# A delegate that lets the device keep its credentials

`verify_delegate_chain` computes whether a chain may reuse credentials, and `perform_to2` asks it only whether the chain may
onboard. So the permission binds in exactly the runs in which the other side keeps to it on its own.
-/

namespace FdoUefi

open Prog Prog.Run Cbor

/-- DeviceSvcInfoRdy20 up to the plaintext of its answer: the nonce that was drawn for it, and SetupDevice20. -/
def receiveSetupDevice (Γ : Ctx) (fuel : Nat) (w : World) (args : To2Args) (session : To2Session) : To2 (Bytes × Bytes) := do
  let nonceTo2SetupDv ← randomNonce w "NonceTO2SetupDv"
  let resp ← sendSealed Γ w args session msgTo2DeviceSvcInfoRdy (buildDeviceSvcInfoRdy (some 65535) nonceTo2SetupDv)
    "DeviceSvcInfoRdy failed" "TO2.SetupDevice"
  let plain ← ofOutcome (coseDecrypt0A256gcm Γ fuel session.sek resp.body)
  return (nonceTo2SetupDv, plain)

/-- ProveOVHdr20, the answer to ProveDevice20 among the events, is signed through the delegate chain `certDers`. -/
def SignedThrough (fuel : Nat) (events : List To2Event) (certDers : List Bytes) : Prop :=
  ∃ url body token resp proveOv, To2Event.post url msgTo2ProveDevice body token (some resp) ∈ events ∧
    readProveOvHdr fuel resp.body = .ok proveOv ∧ proveOv.delegateChain = some certDers

/-- A run of TO2 has the plaintext of SetupDevice20, in the state `t`, from a peer that has proved itself through the delegate
chain `certDers`. -/
structure DelegateSetup (Γ : Ctx) (fuel : Nat) (w : World) (args : To2Args) (certDers : List Bytes) (session : To2Session)
    (nonce plain : Bytes) (t : To2State) : Prop where
  received : ∃ s, handshake Γ fuel w args To2State.new = (.ok session, s) ∧ SignedThrough fuel s.trace certDers ∧
    receiveSetupDevice Γ fuel w args session s = (.ok (nonce, plain), t)

/-- Every certificate of the chain carries PERM.3. -/
def CarriesReuseCred (certDers : List Bytes) : Prop :=
  ∃ ps, Outcome.collect parseX509Cert certDers = .ok ps ∧ ∀ p ∈ ps, p.HasEkuOid oidPermitOnboardReusecred

/-- The plaintext is an envelope with the disposition 2 and a null for the new credentials, signed by `point`. -/
def SignedReuse (Γ : Ctx) (plain point : Bytes) : Prop :=
  ∃ s1 pre, parseCoseSign1 plain = .ok s1 ∧ IsSetupStart pre 2 ∧ At s1.payload 0 (pre ++ [0xf6]) ∧
    verifySign1 Γ s1 setupDeviceAad point = true

/-- TO2 goes on with the session after DispCredReuse only if the delegate chain may reuse credentials. -/
def ReusePermitted (Γ : Ctx) (fuel : Nat) (w : World) (args : To2Args) : Prop :=
  ∀ certDers session nonce plain t, DelegateSetup Γ fuel w args certDers session nonce plain t →
    checkSetupDevice20 Γ fuel plain nonce session.peer.proveOvSigner = .ok .credReuse →
    performTo2 Γ fuel w args To2State.new = runSession Γ fuel w args session nonce t →
    ∃ chain, verifyDelegateChain Γ certDers session.peer.ownerKey = .ok chain ∧ chain.hasReuseCred = true

namespace Aux

variable {Γ : Ctx} {fuel : Nat} {w : World} {args : To2Args} {session : To2Session}

/-- SetupDevice20 is received and then checked. -/
theorem setupDevice_eq (Γ : Ctx) (fuel : Nat) (w : World) (args : To2Args) (session : To2Session) :
    setupDevice Γ fuel w args session = (receiveSetupDevice Γ fuel w args session >>= fun r =>
      ofOutcome (checkSetupDevice20 Γ fuel r.2 r.1 session.peer.proveOvSigner) >>= fun _ => pure r.1) := by
  simp only [setupDevice, receiveSetupDevice, bind_assoc, pure_bind]

/-- With a plaintext that passes the check, step 4 is over. -/
theorem setupDevice_ok_of_receive {nonce plain : Bytes} {disposition : SetupDisposition} {s t : To2State}
    (hrecv : receiveSetupDevice Γ fuel w args session s = (.ok (nonce, plain), t))
    (hcheck : checkSetupDevice20 Γ fuel plain nonce session.peer.proveOvSigner = .ok disposition) :
    setupDevice Γ fuel w args session s = (.ok nonce, t) := by
  rw [setupDevice_eq, bind_of_ok hrecv, bind_of_ok (ofOutcome_ok_iff.2 ⟨hcheck, rfl⟩), pure_apply]

/-- The entries are asked for with messages of their own type. -/
theorem not_proveDevice_of_fetched {token : Option Bytes} {entryNum : Nat} {events : List To2Event} {ovEntries : List Bytes}
    (h : EntriesFetched args token entryNum events ovEntries) {url body : Bytes} {token' : Option Bytes}
    {answer : Option HttpPostResponse} : To2Event.post url msgTo2ProveDevice body token' answer ∉ events := by
  induction h with
  | nil => simp
  | cons _ _ ih =>
    intro hmem
    rcases List.mem_cons.1 hmem with heq | hmem
    · cases heq
    · exact ih hmem

/-- The chain that is in the answer to ProveDevice20 is the one that the peer has proved itself through. -/
theorem chain_of_peerProven {past : List To2Event} {certDers : List Bytes} (h : PeerProven Γ fuel args past session)
    (hchain : SignedThrough fuel past certDers) : ∃ chain, verifyDelegateChain Γ certDers session.peer.ownerKey = .ok chain := by
  obtain ⟨url, body, token, resp, proveOv', hmem, hparsed, hsome⟩ := hchain
  cases h with
  | @intro sugar kexRandom nonce signature shx sek helloResp ovResp ecdhKey ecdhKey2 hello proveOv entryEvents ovEntries peer
      hhello hkey hnonce hfetched hcount hshown =>
    -- No other message of the handshake has the type of ProveDevice20.
    have hresp : resp = ovResp := by
      simp only [List.mem_append] at hmem
      rcases hmem with ((hmem | hmem) | hmem) | hmem
      · simp [helloEvents, msgTo2ProveDevice, msgTo2HelloDeviceProbe] at hmem
      · simp only [proveDeviceEvents, List.mem_cons, reduceCtorEq, false_or, To2Event.post.injEq, Option.some.injEq,
          List.not_mem_nil, or_false] at hmem
        exact hmem.2.2.2.2
      · simp [sessionKeyEvents] at hmem
      · exact absurd hmem (not_proveDevice_of_fetched hfetched)
    subst hresp
    obtain rfl : proveOv' = proveOv := Outcome.ok.inj (hparsed.symm.trans hshown.parsed)
    obtain ⟨s1, -, -, hsigner⟩ := hshown.signed
    rw [hsome] at hsigner
    obtain ⟨chain, hverify, -⟩ := hsigner
    exact ⟨chain, hverify⟩

/-- The chain permits the reuse if every certificate carries the permission. -/
theorem hasReuseCred_iff {certDers : List Bytes} {ownerKey : Bytes} {chain : DelegateChainResult}
    (h : verifyDelegateChain Γ certDers ownerKey = .ok chain) : chain.hasReuseCred = true ↔ CarriesReuseCred certDers := by
  obtain ⟨ps, root, leaf, hl, -, -, -, rfl⟩ := verifyDelegateChain_ok_iff.1 h
  have hall : ps.all (·.hasPermitReuseCred) = true ↔ ∀ p ∈ ps, p.HasEkuOid oidPermitOnboardReusecred :=
    hl.all_iff_oid (π := EkuFlags.reuseCred) rfl add_reuseCred_iff
  constructor
  · intro hflag
    exact ⟨ps, hl.parsed, hall.1 hflag⟩
  · rintro ⟨ps', hps', hcarries⟩
    obtain rfl : ps' = ps := Outcome.ok.inj (hps'.symm.trans hl.parsed)
    exact hall.2 hcarries

end Aux

/-- In every run: the permission to reuse credentials binds exactly when every delegate whose SetupDevice20 is a signed
DispCredReuse has it. -/
theorem performTo2_reusePermitted_iff (Γ : Ctx) (fuel : Nat) (w : World) (args : To2Args) :
    ReusePermitted Γ fuel w args ↔
      ∀ certDers session nonce plain t, DelegateSetup Γ fuel w args certDers session nonce plain t →
        SignedReuse Γ plain session.peer.proveOvSigner → CarriesReuseCred certDers := by
  constructor
  · intro hperm certDers session nonce plain t hsetup hreuse
    have hcheck : checkSetupDevice20 Γ fuel plain nonce session.peer.proveOvSigner = .ok .credReuse :=
      checkSetupDevice20_credReuse_iff.2 hreuse
    obtain ⟨s, hshake, -, hrecv⟩ := hsetup.received
    have hset : setupDevice Γ fuel w args session s = (.ok nonce, t) := Aux.setupDevice_ok_of_receive hrecv hcheck
    have hgoes : performTo2 Γ fuel w args To2State.new = runSession Γ fuel w args session nonce t := by
      rw [performTo2, bind_of_ok hshake, onboard, bind_of_ok hset]
    obtain ⟨chain, hchain, hflag⟩ := hperm certDers session nonce plain t hsetup hcheck hgoes
    exact (Aux.hasReuseCred_iff hchain).1 hflag
  · intro hcond certDers session nonce plain t hsetup hcheck _
    have hcarries := hcond certDers session nonce plain t hsetup (checkSetupDevice20_credReuse_iff.1 hcheck)
    obtain ⟨s, hshake, hthrough, -⟩ := hsetup.received
    obtain ⟨past, hpast, hproven⟩ := Aux.handshake_ok hshake
    rw [show To2State.new.trace = [] from rfl, List.nil_append] at hpast
    rw [hpast] at hthrough
    obtain ⟨chain, hchain⟩ := Aux.chain_of_peerProven hproven hthrough
    exact ⟨chain, hchain, (Aux.hasReuseCred_iff hchain).2 hcarries⟩

/-! ## A delegate without the permission -/

/-- A certificate for PERM.2, signed by the Owner. -/
def sampleDelegateCert : Bytes := beBytes 268
  0x308201083081afa003020102020103300a06082a8648ce3d0403023000301e170d3236303130313030303030305a170d3336303130313030303030305a30003059301306072a8648ce3d020106082a8648ce3d030107034200047bfff69e22b0bf63ab70957be2bb19a746d07c1f7f669840a460f1944e4b9affc79c3e9dd924b093a1a306207fb185e2f85f7dc7e57ad7c310005cf55fda48fca31a301830160603551d25040f300d060b2b0601040182e51c030102300a06082a8648ce3d0403020348003045022100caace42c175e16a663851bdedc94a25a8e14f6d5d6a183b632a7364ca0a00f8402202325320b88e4c78c50864f5a60496488836bf2f5ee3e5728d19e4cddf3fbd7b0

def sampleDelegatePoint : Bytes := beBytes 65
  0x047bfff69e22b0bf63ab70957be2bb19a746d07c1f7f669840a460f1944e4b9affc79c3e9dd924b093a1a306207fb185e2f85f7dc7e57ad7c310005cf55fda48fc

/-- ProveOVHdr20 of the sample voucher, with this certificate as the delegate chain. -/
def sampleDelegateProveOvHdr : Bytes :=
  Enc.array 8 ++ Enc.bytes sampleOvHeader ++ Enc.uint 2 ++ sampleHmacRaw ++ Enc.bytes (sampleRandom 2) ++
    Enc.bytes sampleXb ++ Enc.uint 65535 ++ sampleOwnerPubKey ++ Enc.array 1 ++ Enc.bytes sampleDelegateCert

def sampleDelegateProveOvHdrSignature : Bytes := beBytes 64
  0x76eab204630a7256ed9eb841b69d5ff6aae7fcbc3af38b57809dc38259322c67d88fcb6b309546f63062d7b3a43b3147d28e42d4784adb0fb0694bcf58a7db59

def sampleDelegateSetupSignature : Bytes := beBytes 64
  0x69aebd0c8705334926f2a7dcb14e8d1cd52044a847d3a9730a3693c6e739a61e4766d92aea8fd9de16cb7c12623a5c64b8d78a0e387aeb2cc0939e3f5bbf0272

def sampleDelegateSetupCiphertext : Bytes := beBytes 96
  0x23fc1abf6d1b3417210c69b16a68ac4227f69f4ef74b313d5dada887b18f051762cc2b9a4ce0bb59c392cefdea1c124d50fe8f56dc62c99fe57c1a5be42eb8b5e54a0fcc92e3d11c866af6e2d5cb8e4b73060dfb5b46725f2aaea7f98a8c858f

/-- What the delegate signs. -/
def sampleDelegateSigned (tag payload signature : Bytes) : Bytes × Bytes × Bytes :=
  (buildSigStructure buildCoseProtectedHeader (domainAad tag 200) payload, signature, sampleDelegatePoint)

/-- The signature in the certificate. -/
def sampleDelegateCertSigned : List (Bytes × Bytes × Bytes) :=
  match parseX509Cert sampleDelegateCert with
  | .ok cert => [(cert.tbsRaw, cert.signatureRs, sampleOwner2Point)]
  | _ => []

def sampleDelegateCtx : Ctx :=
  (sampleTo2Ctx.extend
    (sampleDelegateSigned aadTagProveOvHdr sampleDelegateProveOvHdr sampleDelegateProveOvHdrSignature ::
      sampleDelegateSigned aadTagSetupDevice sampleSetupDevice sampleDelegateSetupSignature :: sampleDelegateCertSigned)
    []).withCipher
    (sampleKdfBlocks.mapIdx fun i block =>
      ((buildEcdhShse sampleShx (sampleRandom 1) (sampleRandom 5), fdoKdfInput (i + 1) 256), block))
    (sampleGcm 1 0 (sampleSign1 sampleSetupDevice sampleDelegateSetupSignature) sampleDelegateSetupCiphertext ::
      sampleMessages.eraseIdx 1)

/-- The delegate in the place of the Owner. -/
def sampleDelegateWorld : World :=
  { sampleWorld with
    post := fun _ _ msgType body _ =>
      let response :=
        if msgType = msgTo2ProveDevice then sampleSign1 sampleDelegateProveOvHdr sampleDelegateProveOvHdrSignature
        else if msgType = msgTo2DeviceSvcInfoRdy then sampleSealed 0 sampleDelegateSetupCiphertext
        else sampleResponse msgType body
      some ⟨response, some (utf8 "token"), some (msgType + 1)⟩ }

/-- The event is the answer to ProveDevice20 with this delegate chain. -/
def carriesChain (fuel : Nat) (certDers : List Bytes) : To2Event → Bool
  | .post _ msgType _ _ (some resp) =>
    msgType == msgTo2ProveDevice &&
      (readProveOvHdr fuel resp.body).okWith fun proveOv => decide (proveOv.delegateChain = some certDers)
  | _ => false

/-- A chain that an event carries was signed through. -/
theorem signedThrough_of_any {fuel : Nat} {certDers : List Bytes} {events : List To2Event}
    (h : events.any (carriesChain fuel certDers) = true) : SignedThrough fuel events certDers := by
  obtain ⟨e, hmem, he⟩ := List.any_eq_true.1 h
  cases e with
  | post url msgType body token answer =>
    cases answer with
    | none => cases he
    | some resp =>
      obtain ⟨htype, hread⟩ := Bool.and_eq_true_iff.1 he
      obtain ⟨proveOv, hparsed, hchain⟩ := Outcome.okWith_iff.1 hread
      obtain rfl : msgType = msgTo2ProveDevice := beq_iff_eq.1 htype
      exact ⟨url, body, token, resp, proveOv, hmem, hparsed, of_decide_eq_true hchain⟩
  | _ => cases he

/-- The delegate may not reuse credentials, and TO2 goes on after its DispCredReuse. -/
theorem sampleDelegate_not_reusePermitted : ¬ReusePermitted sampleDelegateCtx 8 sampleDelegateWorld sampleTo2Args := by
  intro hperm
  have hrun : Outcome.okWith (fun session : To2Session =>
      (receiveSetupDevice sampleDelegateCtx 8 sampleDelegateWorld sampleTo2Args session
        (handshake sampleDelegateCtx 8 sampleDelegateWorld sampleTo2Args To2State.new).2).1 =
          .ok (sampleRandom 3, sampleSign1 sampleSetupDevice sampleDelegateSetupSignature) ∧
      checkSetupDevice20 sampleDelegateCtx 8 (sampleSign1 sampleSetupDevice sampleDelegateSetupSignature) (sampleRandom 3)
        session.peer.proveOvSigner = .ok .credReuse ∧
      Outcome.okWith (fun chain => !chain.hasReuseCred)
        (verifyDelegateChain sampleDelegateCtx [sampleDelegateCert] session.peer.ownerKey) = true)
      (handshake sampleDelegateCtx 8 sampleDelegateWorld sampleTo2Args To2State.new).1 = true := by decide +kernel
  have hthrough : SignedThrough 8 (handshake sampleDelegateCtx 8 sampleDelegateWorld sampleTo2Args To2State.new).2.trace
      [sampleDelegateCert] := signedThrough_of_any (by decide +kernel)
  generalize hshake : handshake sampleDelegateCtx 8 sampleDelegateWorld sampleTo2Args To2State.new = r at hrun hthrough
  obtain ⟨o, s⟩ := r
  obtain ⟨session, rfl, hcond⟩ := Outcome.okWith_iff.1 hrun
  obtain ⟨hrecv, hcheck, hlacks⟩ := of_decide_eq_true hcond
  obtain ⟨chain, hchain, hflag⟩ := Outcome.okWith_iff.1 hlacks
  obtain ⟨t, hreceived⟩ : ∃ t, receiveSetupDevice sampleDelegateCtx 8 sampleDelegateWorld sampleTo2Args session s =
      (.ok (sampleRandom 3, sampleSign1 sampleSetupDevice sampleDelegateSetupSignature), t) := ⟨_, eq_of_fst hrecv⟩
  have hgoes : performTo2 sampleDelegateCtx 8 sampleDelegateWorld sampleTo2Args To2State.new =
      runSession sampleDelegateCtx 8 sampleDelegateWorld sampleTo2Args session (sampleRandom 3) t := by
    rw [performTo2, bind_of_ok hshake, onboard, bind_of_ok (Aux.setupDevice_ok_of_receive hreceived hcheck)]
  obtain ⟨chain', hchain', hflag'⟩ := hperm [sampleDelegateCert] session _ _ t ⟨s, hshake, hthrough, hreceived⟩ hcheck hgoes
  obtain rfl : chain' = chain := Outcome.ok.inj (hchain'.symm.trans hchain)
  rw [hflag'] at hflag
  cases hflag

end FdoUefi
