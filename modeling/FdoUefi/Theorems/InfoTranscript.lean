import FdoUefi.Lemmas.InfoRounds
import FdoUefi.Theorems.Bmo
import FdoUefi.Theorems.To2

/-!
# What happens in a run of TO2 that succeeds

Event by event: the peer proves itself, and then, round after round, the client sends what it has to say, takes every message of
the Owner for the BMO module out of the response, in order, and keeps the answers for the next round. The image that is booted
at the end, if there is one, is the one that is left in the module after all these messages, so it is vouched for.
-/

namespace FdoUefi

open Prog Prog.Run Cbor

/-- The events that send Done20. -/
def doneEvents (args : To2Args) (session : To2Session) (iv body : Bytes) (resp : HttpPostResponse) : List To2Event :=
  [.encrypt session.sek iv (buildTo2Done session.hello.ack.nonceTo2ProveDv),
    .post (messageUrl args.ownerUrl msgTo2Done) msgTo2Done body session.hello.sessionToken (some resp)]

/-- A complete image that is not empty is booted. -/
def bootEvents (b : BmoSession) : List To2Event :=
  if b.state = .complete ∧ b.imageBuffer ≠ [] then [.chainload b.imageBuffer] else []

/-- DeviceSvcInfoRdy20 goes out encrypted under the session key, and so does its response come back, with what the nonce and the Owner
allow. -/
structure ReadyExchanged (Γ : Ctx) (fuel : Nat) (session : To2Session) (nonce iv body : Bytes) (resp : HttpPostResponse) : Prop where
  sealed : coseEncrypt0A256gcm Γ session.sek iv (buildDeviceSvcInfoRdy (some 65535) nonce) = .ok body
  opened : ∃ plain disposition, coseDecrypt0A256gcm Γ fuel session.sek resp.body = .ok plain ∧
    checkSetupDevice20 Γ fuel plain nonce session.peer.proveOvSigner = .ok disposition

/-- Done20 and DoneAck20 are encrypted under the session key, too, and the response returns the nonce of the run. -/
structure DoneExchanged (Γ : Ctx) (fuel : Nat) (session : To2Session) (nonce iv body : Bytes) (resp : HttpPostResponse) : Prop where
  sealed : coseEncrypt0A256gcm Γ session.sek iv (buildTo2Done session.hello.ack.nonceTo2ProveDv) = .ok body
  opened : ∃ plain, coseDecrypt0A256gcm Γ fuel session.sek resp.body = .ok plain ∧ parseTo2DoneAck plain = .ok nonce

/-- The events of a run that succeeds, with the ServiceInfo rounds `rs`, which leave the BMO module in the state `b`. Whatever is posted
after the handshake is encrypted under the session key. -/
structure Onboarded (Γ : Ctx) (fuel : Nat) (args : To2Args) (trace : List To2Event) (session : To2Session)
    (rs : List InfoRound) (b : BmoSession) : Prop where
  rounds : InfoChain Γ fuel args session maxServiceInfoRounds 1 .new [] rs b
  split : ∃ past nonce iv body resp iv' body' resp', PeerProven Γ fuel args past session ∧
    ReadyExchanged Γ fuel session nonce iv body resp ∧ DoneExchanged Γ fuel session nonce iv' body' resp' ∧
    trace = past ++ readyEvents args session nonce iv body (some resp) ++ rs.flatMap (InfoRound.events args session) ++
      doneEvents args session iv' body' resp' ++ bootEvents b

namespace InfoAux

variable {Γ : Ctx} {fuel : Nat} {w : World} {args : To2Args} {session : To2Session} {peer : To2Peer} {s t : To2State}

/-- All of TO2 but the boot. -/
def beforeBoot (Γ : Ctx) (fuel : Nat) (w : World) (args : To2Args) : To2 Unit := do
  let session ← handshake Γ fuel w args
  let nonceTo2SetupDv ← setupDevice Γ fuel w args session
  serviceInfoRounds Γ fuel w args session maxServiceInfoRounds 1
  finishTo2 Γ fuel w args session nonceTo2SetupDv

/-- A run is what comes before the boot, and the boot. -/
theorem performTo2_eq : performTo2 Γ fuel w args = beforeBoot Γ fuel w args >>= fun _ => chainloadImage := by
  simp only [performTo2, onboard, runSession, beforeBoot, bind_assoc]

/-! ## The parts around the rounds leave the BMO module alone -/

/-- The handshake leaves the BMO module alone. -/
theorem handshake_sameModule : Effect SameModule (handshake Γ fuel w args) :=
  Aux.handshake_effect
    { random := fun _ _ => rfl
      createEcdhKey := fun _ _ => rfl
      ecdhDerive := fun _ _ _ _ => rfl
      sign := fun _ _ _ _ _ => rfl
      post := fun _ _ _ _ _ _ _ => rfl }

/-- DeviceSvcInfoRdy20 leaves the BMO module alone. -/
theorem setupDevice_sameModule : Effect SameModule (setupDevice Γ fuel w args session) := by
  refine Effect.bind (Aux.randomNonce_effect fun _ _ => rfl) fun nonce => ?_
  refine Effect.bind sendSealed_sameModule fun resp => ?_
  refine Effect.bind (.ofOutcome _) fun plain => ?_
  exact Effect.bind (.ofOutcome _) fun _ => .pure _

/-- Done20 leaves the BMO module alone. -/
theorem finishTo2_sameModule {nonce : Bytes} : Effect SameModule (finishTo2 Γ fuel w args session nonce) := by
  refine Effect.bind sendSealed_sameModule fun resp => ?_
  refine Effect.bind (.ofOutcome _) fun plain => ?_
  exact Effect.bind (.ofOutcome _) fun _ => .ofOutcome _

/-! ## The run -/

/-- What comes before the boot of a run that succeeds, part by part. -/
theorem beforeBoot_ok {u : Unit} (h : beforeBoot Γ fuel w args .new = (.ok u, t)) :
    ∃ session rs past nonce iv body resp iv' body' resp',
      InfoChain Γ fuel args session maxServiceInfoRounds 1 .new [] rs t.bmoSession ∧ PeerProven Γ fuel args past session ∧
      ReadyExchanged Γ fuel session nonce iv body resp ∧ DoneExchanged Γ fuel session nonce iv' body' resp' ∧
      t.trace = past ++ readyEvents args session nonce iv body (some resp) ++ rs.flatMap (InfoRound.events args session) ++
        doneEvents args session iv' body' resp' := by
  obtain ⟨session, s₁, hhandshake, h⟩ := bind_ok_iff.1 h
  obtain ⟨nonce, s₂, hsetup, h⟩ := bind_ok_iff.1 h
  obtain ⟨_, s₃, hrounds, hfinish⟩ := bind_ok_iff.1 h
  -- the module is fresh when the rounds begin, and stays as they leave it
  have hsame₁ : SameModule .new s₁ := by
    have hkept : SameModule .new (handshake Γ fuel w args .new).2 := handshake_sameModule .new
    rwa [hhandshake] at hkept
  have hsame₂ : SameModule s₁ s₂ := by
    have hkept : SameModule s₁ (setupDevice Γ fuel w args session s₁).2 := setupDevice_sameModule s₁
    rwa [hsetup] at hkept
  have hsame₃ : SameModule s₃ t := by
    have hkept : SameModule s₃ (finishTo2 Γ fuel w args session nonce s₃).2 := finishTo2_sameModule s₃
    rwa [hfinish] at hkept
  obtain ⟨hbmo, hresp⟩ := Prod.mk.inj (hsame₂.trans hsame₁)
  obtain ⟨hbmo₃, -⟩ := Prod.mk.inj hsame₃
  obtain ⟨past, htrace₁, hproven⟩ := Aux.handshake_ok hhandshake
  obtain ⟨iv, body, resp, plain, disposition, htrace₂, hsealed, hopen, hcheck⟩ := Aux.setupDevice_ok hsetup
  obtain ⟨rs, hchain, htrace₃⟩ := serviceInfoRounds_ok le_rfl (fun _ => hresp) hrounds
  obtain ⟨body', resp', plain', htrace₄, hsealed', hopen', hack⟩ := Aux.finishTo2_ok hfinish
  rw [hbmo, hresp, ← hbmo₃] at hchain
  refine ⟨session, rs, past, nonce, iv, body, resp, sessionIv s₃.ivCounter, body', resp', hchain, hproven,
    ⟨hsealed, plain, disposition, hopen, hcheck⟩, ⟨hsealed', plain', hopen', hack⟩, ?_⟩
  rw [htrace₄, htrace₃, htrace₂, htrace₁]
  rfl

/-- The boot goes by what is in the module, and does not fail. -/
theorem chainloadImage_run (s : To2State) :
    ∃ t, chainloadImage s = (.ok (), t) ∧ t.trace = s.trace ++ bootEvents s.bmoSession := by
  rw [chainloadImage, bind_of_ok (getS_apply s), onlyIf, bootEvents]
  split
  · exact ⟨_, rfl, rfl⟩
  · exact ⟨s, rfl, (List.append_nil _).symm⟩

/-- DeviceSvcInfoRdy20 asks for a nonce, encrypts and sends. -/
theorem setupDevice_emits {E : To2Event → Prop} (hrandom : ∀ a, E (.random a))
    (hencrypt : ∀ key nonce plaintext, E (.encrypt key nonce plaintext))
    (hpost : ∀ url body token answer, E (.post url msgTo2DeviceSvcInfoRdy body token answer)) :
    Emits To2State.trace E (setupDevice Γ fuel w args session) := by
  refine .bind (Aux.randomNonce_emits hrandom) fun nonce => ?_
  refine .bind (Aux.sendSealed_emits (fun _ _ => hencrypt _ _ _) hpost) fun resp => ?_
  exact .bind (.ofOutcome _) fun _ => .bind (.ofOutcome _) fun _ => .pure _

/-- Nothing is booted before all the rest is done. -/
theorem beforeBoot_emits : Emits To2State.trace (fun e => ∀ image, e ≠ .chainload image) (beforeBoot Γ fuel w args) := by
  refine .bind ((Aux.handshake_emits Aux.handshakeEvents_inHandshake).mono ?_) fun session => ?_
  · rintro e he image rfl
    exact he
  refine .bind (setupDevice_emits (by simp) (by simp) (by simp)) fun nonce => ?_
  refine .bind ((Aux.serviceInfoRounds_emits _ _).mono fun e => Aux.not_chainload_of_inSession) fun _ => ?_
  exact Aux.finishTo2_emits.mono fun e => Aux.not_chainload_of_inSession

/-- A run that gets as far as the boot succeeds, and one that does not boots nothing. -/
theorem performTo2_cases (Γ : Ctx) (fuel : Nat) (w : World) (args : To2Args) :
    ((performTo2 Γ fuel w args .new).1 = .ok () ∧
        ∃ session rs b, Onboarded Γ fuel args (performTo2 Γ fuel w args .new).2.trace session rs b ∧
        ∀ image, .chainload image ∈ (performTo2 Γ fuel w args .new).2.trace → .chainload image ∈ bootEvents b) ∨
      (performTo2 Γ fuel w args .new).1 ≠ .ok () ∧ ∀ image, .chainload image ∉ (performTo2 Γ fuel w args .new).2.trace := by
  have hbooted (image : Bytes) : .chainload image ∉ (beforeBoot Γ fuel w args .new).2.trace := by
    obtain ⟨new, hnew, hquiet⟩ := @beforeBoot_emits Γ fuel w args .new
    rw [hnew]
    intro hmem
    exact hquiet _ hmem image rfl
  rw [performTo2_eq]
  rcases bind_cases (beforeBoot Γ fuel w args) (fun _ => chainloadImage) .new with ⟨u, s, hbefore, heq⟩ | ⟨hsnd, hfail⟩
  · obtain ⟨session, rs, past, nonce, iv, body, resp, iv', body', resp', hchain, hproven, hready, hdone, htrace⟩ :=
      beforeBoot_ok hbefore
    obtain ⟨t, hboot, ht⟩ := chainloadImage_run s
    rw [heq, hboot, ht]
    refine .inl ⟨rfl, session, rs, s.bmoSession,
      ⟨hchain, past, nonce, iv, body, resp, iv', body', resp', hproven, hready, hdone, ?_⟩, ?_⟩
    · rw [htrace]
    · intro image hmem
      rw [hbefore] at hbooted
      exact (List.mem_append.1 hmem).resolve_left (hbooted image)
  · rw [hsnd]
    exact .inr ⟨fun h => hfail () h, hbooted⟩

/-! ## The image -/

/-- What the module takes message by message it takes as a run. -/
theorem takes_run {b b' : BmoSession} {ms : List BmoMessage} {answers : List (Bytes × Bytes)}
    (h : BmoTakes Γ fuel args peer b ms answers b') :
    processBmoMessages Γ fuel (some peer.ownerKey) peer.peerAuthority (some args.guid) ms b = (.ok (), b') := by
  induction h with
  | nil => rfl
  | cons hstep _ ih => exact (bind_of_ok hstep).trans ih

/-- Two runs of the module are one. -/
theorem processBmoMessages_append {b b₁ b' : BmoSession} {ms ms' : List BmoMessage} {k guid : Option Bytes}
    {authority : PeerAuthority} (h : processBmoMessages Γ fuel k authority guid ms b = (.ok (), b₁))
    (h' : processBmoMessages Γ fuel k authority guid ms' b₁ = (.ok (), b')) :
    processBmoMessages Γ fuel k authority guid (ms ++ ms') b = (.ok (), b') := by
  induction ms generalizing b with
  | nil =>
    obtain ⟨-, rfl⟩ := pure_ok_iff.1 h
    exact h'
  | cons m ms ih =>
    obtain ⟨r, b₂, hm, hrest⟩ := bind_ok_iff.1 h
    exact (bind_of_ok hm).trans (ih hrest)

/-- The module has taken the messages of all rounds. -/
theorem chain_run {left round : Nat} {b b' : BmoSession} {answers : List (Bytes × Bytes)} {rs : List InfoRound}
    (h : InfoChain Γ fuel args session left round b answers rs b') :
    processBmoMessages Γ fuel (some session.peer.ownerKey) session.peer.peerAuthority (some args.guid)
      (rs.flatMap InfoRound.messages) b = (.ok (), b') := by
  induction h with
  | spent => rfl
  | done _ _ _ htakes => simpa using takes_run htakes
  | more _ _ _ htakes _ ih => exact processBmoMessages_append (takes_run htakes) ih

end InfoAux

open InfoAux

/-- A run of TO2 that succeeds consists of the handshake in which the peer proved itself, DeviceSvcInfoRdy20, the rounds, Done20
and the boot: in the first round the device says what it is and in each later one what the BMO module answered in the round
before; the module gets every message of the Owner for it, once and in order; the rounds end when the Owner is done, or with the last
that is allowed; and every message and every response from DeviceSvcInfoRdy20 on is encrypted under the session key. -/
theorem performTo2_onboarded (Γ : Ctx) (fuel : Nat) (w : World) (args : To2Args)
    (h : (performTo2 Γ fuel w args .new).1 = .ok ()) :
    ∃ session rs b, Onboarded Γ fuel args (performTo2 Γ fuel w args .new).2.trace session rs b := by
  rcases performTo2_cases Γ fuel w args with ⟨-, session, rs, b, hdone, -⟩ | ⟨hfail, -⟩
  · exact ⟨session, rs, b, hdone⟩
  · exact absurd h hfail

/-- The sample run is the transcript of a run that succeeds. -/
theorem sampleRun_onboarded : ∃ session rs b, Onboarded sampleTo2Ctx 8 sampleTo2Args
    (performTo2 sampleTo2Ctx 8 sampleWorld sampleTo2Args .new).2.trace session rs b :=
  performTo2_onboarded _ _ _ _ sampleRun_boots.1

/-- An image is booted only in a run that succeeds, and it is the one the messages in the Owner's ServiceInfos have left in the
BMO module; the last begin message among them, which the proven Owner key has authorised, vouches for its hash. -/
theorem performTo2_bootsVouched (Γ : Ctx) (fuel : Nat) (w : World) (args : To2Args) (image : Bytes)
    (h : .chainload image ∈ (performTo2 Γ fuel w args .new).2.trace) :
    (performTo2 Γ fuel w args .new).1 = .ok () ∧
      ∃ session rs b, Onboarded Γ fuel args (performTo2 Γ fuel w args .new).2.trace session rs b ∧
        b.state = .complete ∧ b.imageBuffer = image ∧ ImageVouched Γ fuel session.peer.ownerKey session.peer.peerAuthority
          (some args.guid) (rs.flatMap InfoRound.messages) (Γ.sha256 image) := by
  rcases performTo2_cases Γ fuel w args with ⟨hok, session, rs, b, hdone, hboot⟩ | ⟨-, hnone⟩
  · have hmem : .chainload image ∈ bootEvents b := hboot image h
    rw [bootEvents] at hmem
    split at hmem
    next hcomplete =>
      obtain rfl : image = b.imageBuffer := To2Event.chainload.inj (List.mem_singleton.1 hmem)
      have hinv := Aux.inv_run Aux.inv_new (chain_run hdone.rounds)
      rw [List.nil_append] at hinv
      exact ⟨hok, session, rs, b, hdone, hcomplete.1, rfl, hinv.complete hcomplete.1⟩
    next => cases hmem
  · exact absurd h (hnone image)

/-- The image that the sample run boots is vouched for. -/
theorem sampleRun_bootsVouched : (performTo2 sampleTo2Ctx 8 sampleWorld sampleTo2Args .new).1 = .ok () ∧
    ∃ session rs b, Onboarded sampleTo2Ctx 8 sampleTo2Args
        (performTo2 sampleTo2Ctx 8 sampleWorld sampleTo2Args .new).2.trace session rs b ∧ b.state = .complete ∧
      b.imageBuffer = [1, 2, 3] ∧ ImageVouched sampleTo2Ctx 8 session.peer.ownerKey session.peer.peerAuthority
        (some sampleTo2Args.guid) (rs.flatMap InfoRound.messages) (sampleTo2Ctx.sha256 [1, 2, 3]) :=
  performTo2_bootsVouched _ _ _ _ _ (List.mem_of_getLast? sampleRun_boots.2)

end FdoUefi
