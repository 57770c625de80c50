import FdoUefi.Lemmas.To2
import FdoUefi.Theorems.Voucher

/-!
# TO2 acts only for a peer that has proved itself

Over every world and every run, however it ends: before the peer has proved that it is the Owner, or a delegate of the Owner,
nothing is sent under the session key, no BMO message is processed and nothing is booted; after that, all of it is for that
peer, and the boot is the last thing and comes after SetupDevice20 was verified and the nonce of the run came back.
-/

namespace FdoUefi

open Prog Prog.Run

/-- The answer to a Done20 among the events returned the nonce. -/
def DoneAcked (Γ : Ctx) (fuel : Nat) (session : To2Session) (nonce : Bytes) (events : List To2Event) : Prop :=
  ∃ url body token resp plain, To2Event.post url msgTo2Done body token (some resp) ∈ events ∧
    coseDecrypt0A256gcm Γ fuel session.sek resp.body = .ok plain ∧ parseTo2DoneAck plain = .ok nonce

/-- SetupDevice20, in the answer to DeviceSvcInfoRdy20, was verified, and DoneAck20 returned the nonce. -/
structure SetupConfirmed (Γ : Ctx) (fuel : Nat) (session : To2Session) (nonce : Bytes) (answer : Option HttpPostResponse)
    (before : List To2Event) : Prop where
  setup : ∃ resp plain disposition, answer = some resp ∧ coseDecrypt0A256gcm Γ fuel session.sek resp.body = .ok plain ∧
    checkSetupDevice20 Γ fuel plain nonce session.peer.proveOvSigner = .ok disposition
  done : DoneAcked Γ fuel session nonce before

/-- A trace in which the peer proved itself and DeviceSvcInfoRdy20 was sent: first the handshake, then that message with a
nonce drawn for it, then the session with this peer. -/
structure ProvenSession (Γ : Ctx) (fuel : Nat) (args : To2Args) (trace past : List To2Event) (session : To2Session)
    (nonce iv body : Bytes) (answer : Option HttpPostResponse) (rest : List To2Event) : Prop where
  split : trace = past ++ readyEvents args session nonce iv body answer ++ rest
  before : ∀ e ∈ past, e.InHandshake
  proven : PeerProven Γ fuel args past session
  after : ∀ e ∈ rest, e.InSession args session.peer ∨ ∃ image, e = .chainload image
  boot : ∀ pre image post, rest = pre ++ .chainload image :: post → SetupConfirmed Γ fuel session nonce answer pre

namespace Aux

variable {Γ : Ctx} {fuel : Nat} {w : World} {args : To2Args} {s t : To2State} {session : To2Session}

/-- Nothing in the handshake acts for the peer. -/
theorem not_acts_of_inHandshake {e : To2Event} (h : e.InHandshake) : ¬e.ActsForPeer := by
  cases e with
  | post url msgType body token answer =>
    intro hacts
    simp only [To2Event.InHandshake, To2Event.ActsForPeer, msgTo2HelloDeviceProbe, msgTo2ProveDevice, msgTo2GetOvNextEntry,
      msgTo2DeviceSvcInfoRdy, msgTo2DeviceSvcInfo, msgTo2Done] at h hacts
    omega
  | bmo => exact h.elim
  | chainload => exact h.elim
  | _ => exact id

/-- Nothing in the session boots an image. -/
theorem not_chainload_of_inSession {peer : To2Peer} {e : To2Event} (h : e.InSession args peer) (image : Bytes) :
    e ≠ .chainload image := by
  rintro rfl
  exact h

/-- Where nothing is booted, nothing has to be confirmed. -/
theorem boot_of_inSession {rest : List To2Event} {peer : To2Peer} (h : ∀ e ∈ rest, e.InSession args peer)
    {P : List To2Event → Prop} : ∀ pre image post, rest = pre ++ .chainload image :: post → P pre := by
  rintro pre image post rfl
  exact absurd rfl (not_chainload_of_inSession (h (.chainload image) (by simp)) image)

/-- Where the last event is the first boot, what comes before it is all the rest. -/
theorem eq_of_chainload_last {rest pre post : List To2Event} {image image' : Bytes} {peer : To2Peer}
    (h : ∀ e ∈ rest, e.InSession args peer) (heq : rest ++ [.chainload image] = pre ++ .chainload image' :: post) :
    pre = rest := by
  induction rest generalizing pre with
  | nil =>
    cases pre with
    | nil => rfl
    | cons e pre => simp at heq
  | cons e rest ih =>
    cases pre with
    | nil =>
      simp only [List.cons_append, List.nil_append, List.cons.injEq] at heq
      exact absurd heq.1 (not_chainload_of_inSession (h e (by simp)) image')
    | cons e' pre =>
      simp only [List.cons_append, List.cons.injEq] at heq
      rw [heq.1, ih (fun x hx => h x (by simp [hx])) heq.2]

/-- The events of a session: they are for the peer, and a boot comes last, after DoneAck20. -/
def SessionEvents (Γ : Ctx) (fuel : Nat) (args : To2Args) (session : To2Session) (nonce : Bytes) (rest : List To2Event) :
    Prop :=
  (∀ e ∈ rest, e.InSession args session.peer ∨ ∃ image, e = .chainload image) ∧
    ∀ pre image post, rest = pre ++ .chainload image :: post → DoneAcked Γ fuel session nonce pre

/-- What stands in the session may follow SetupDevice20. -/
theorem sessionEvents_of_inSession {nonce : Bytes} {rest : List To2Event} (h : ∀ e ∈ rest, e.InSession args session.peer) :
    SessionEvents Γ fuel args session nonce rest :=
  ⟨fun e he => .inl (h e he), boot_of_inSession h⟩

/-- A boot may follow the events of a session, if Done20 was answered. -/
theorem sessionEvents_boot {nonce image : Bytes} {rest : List To2Event} (h : ∀ e ∈ rest, e.InSession args session.peer)
    (hack : DoneAcked Γ fuel session nonce rest) : SessionEvents Γ fuel args session nonce (rest ++ [.chainload image]) := by
  refine ⟨fun e he => ?_, fun pre image' post heq => ?_⟩
  · rcases List.mem_append.1 he with he | he
    · exact .inl (h e he)
    · exact .inr ⟨image, List.mem_singleton.1 he⟩
  · rw [eq_of_chainload_last h heq]
    exact hack

/-- Step 6 and the boot, after events for the peer. -/
theorem finish_trace {nonce : Bytes} {past new : List To2Event} (ht : t.trace = past ++ new)
    (hnew : ∀ e ∈ new, e.InSession args session.peer) :
    ∃ rest, ((finishTo2 Γ fuel w args session nonce >>= fun _ => chainloadImage) t).2.trace = past ++ rest ∧
      SessionEvents Γ fuel args session nonce rest := by
  have hfinish : Emits To2State.trace (To2Event.InSession args session.peer) (finishTo2 Γ fuel w args session nonce) :=
    finishTo2_emits
  obtain ⟨new', hnew', hin⟩ := hfinish t
  have hall : ∀ e ∈ new ++ new', e.InSession args session.peer := by
    intro e he
    rcases List.mem_append.1 he with he | he
    · exact hnew e he
    · exact hin e he
  rcases bind_cases (finishTo2 Γ fuel w args session nonce) (fun _ => chainloadImage) t with ⟨_, u, hok, heq⟩ | ⟨hsnd, -⟩
  · obtain ⟨body, resp, plain, htrace, -, hplain, hack⟩ := finishTo2_ok hok
    rw [hok, htrace] at hnew'
    have hu : u.trace = past ++ (new ++ new') := by rw [htrace, hnew', ht, List.append_assoc]
    have hacked : DoneAcked Γ fuel session nonce (new ++ new') :=
      ⟨messageUrl args.ownerUrl msgTo2Done, body, session.hello.sessionToken, resp, plain,
        by simp [← List.append_cancel_left hnew'], hplain, hack⟩
    rw [heq]
    rcases chainloadImage_trace u with hsame | ⟨image, hboot⟩
    · exact ⟨new ++ new', hsame.trans hu, sessionEvents_of_inSession hall⟩
    · exact ⟨new ++ new' ++ [.chainload image], by rw [hboot, hu, List.append_assoc], sessionEvents_boot hall hacked⟩
  · refine ⟨new ++ new', ?_, sessionEvents_of_inSession hall⟩
    rw [hsnd, hnew', ht, List.append_assoc]

/-- Steps 5 and 6 and the boot. -/
theorem runSession_trace (Γ : Ctx) (fuel : Nat) (w : World) (args : To2Args) (session : To2Session) (nonce : Bytes)
    (s : To2State) :
    ∃ rest, (runSession Γ fuel w args session nonce s).2.trace = s.trace ++ rest ∧
      SessionEvents Γ fuel args session nonce rest := by
  have hrounds : Emits To2State.trace (To2Event.InSession args session.peer)
      (serviceInfoRounds Γ fuel w args session maxServiceInfoRounds 1) := serviceInfoRounds_emits _ _
  obtain ⟨new, hnew, hin⟩ := hrounds s
  rcases bind_cases (serviceInfoRounds Γ fuel w args session maxServiceInfoRounds 1)
    (fun _ => finishTo2 Γ fuel w args session nonce >>= fun _ => chainloadImage) s with ⟨_, t, hok, heq⟩ | ⟨hsnd, -⟩
  · rw [hok] at hnew
    rw [runSession, heq]
    exact finish_trace hnew hin
  · exact ⟨new, by rw [runSession, hsnd, hnew], sessionEvents_of_inSession hin⟩

/-- From step 4 on, after a handshake in which the peer proved itself. -/
theorem onboard_trace {past : List To2Event} (hs : s.trace = past) (hin : ∀ e ∈ past, e.InHandshake)
    (hproven : PeerProven Γ fuel args past session) :
    (∀ e ∈ (onboard Γ fuel w args session s).2.trace, ¬e.ActsForPeer) ∨
      ∃ nonce iv body answer rest, ProvenSession Γ fuel args (onboard Γ fuel w args session s).2.trace past session nonce iv
        body answer rest := by
  rcases bind_cases (setupDevice Γ fuel w args session) (runSession Γ fuel w args session) s with
    ⟨nonce, t, hset, heq⟩ | ⟨hsnd, -⟩
  · obtain ⟨iv, body, resp, plain, disposition, ht, -, hplain, hsetup⟩ := setupDevice_ok hset
    obtain ⟨rest, hrest, hafter, hboot⟩ := runSession_trace Γ fuel w args session nonce t
    refine .inr ⟨nonce, iv, body, some resp, rest, ?_, hin, hproven, hafter, fun pre image post hsplit => ?_⟩
    · rw [onboard, heq, hrest, ht, hs]
    · exact ⟨⟨resp, plain, disposition, rfl, hplain, hsetup⟩, hboot pre image post hsplit⟩
  · rw [onboard, hsnd]
    rcases setupDevice_trace Γ fuel w args session s with ⟨new, hnew, hidle⟩ | ⟨nonce, iv, body, answer, hnew⟩
    · left
      rw [hnew, hs]
      intro e he
      rcases List.mem_append.1 he with he | he
      · exact not_acts_of_inHandshake (hin e he)
      · exact hidle e he
    · refine .inr ⟨nonce, iv, body, answer, [], ?_, hin, hproven, by simp, by simp⟩
      rw [hnew, hs, List.append_nil]

end Aux

/-- However a run ends, and whatever the network and the TPM answered: it has not acted for the peer at all, or the peer had
proved itself before, and everything since was for that peer. -/
theorem performTo2_provenSession (Γ : Ctx) (fuel : Nat) (w : World) (args : To2Args) :
    (∀ e ∈ (performTo2 Γ fuel w args To2State.new).2.trace, ¬e.ActsForPeer) ∨
      ∃ past session nonce iv body answer rest, ProvenSession Γ fuel args (performTo2 Γ fuel w args To2State.new).2.trace
        past session nonce iv body answer rest := by
  have hhandshake : Emits To2State.trace To2Event.InHandshake (handshake Γ fuel w args) :=
    Aux.handshake_emits Aux.handshakeEvents_inHandshake
  obtain ⟨past, hpast, hin⟩ := hhandshake To2State.new
  rw [show To2State.new.trace = [] from rfl, List.nil_append] at hpast
  rcases bind_cases (handshake Γ fuel w args) (onboard Γ fuel w args) To2State.new with ⟨session, s, hok, heq⟩ | ⟨hsnd, -⟩
  · obtain ⟨past', hpast', hproven⟩ := Aux.handshake_ok hok
    rw [hok] at hpast
    obtain rfl : past = past' := hpast.symm.trans hpast'
    rw [performTo2, heq]
    rcases Aux.onboard_trace hpast hin hproven with hidle | hacts
    · exact .inl hidle
    · exact .inr ⟨past, session, hacts⟩
  · left
    rw [performTo2, hsnd, hpast]
    exact fun e he => Aux.not_acts_of_inHandshake (hin e he)

/-! ## A run that ends with a boot -/

/-- The two random parts and the nonces of the run: of the probe, of the device's key exchange, of ProveDevice20, of
DeviceSvcInfoRdy20, of the Owner and of the Owner's key exchange. -/
def sampleRandom (i : Nat) : Bytes := (List.range 16).map fun j => UInt8.ofNat (16 * (i + 1) + j)

/-- A COSE_Sign1 by the key of the last voucher entry. -/
def sampleSign1 (payload signature : Bytes) : Bytes := buildTo2ProveDeviceFromParts buildCoseProtectedHeader payload signature

/-- What the key of the last voucher entry signs. -/
def sampleSigned (tag payload signature : Bytes) : Bytes × Bytes × Bytes :=
  (buildSigStructure buildCoseProtectedHeader (domainAad tag 200) payload, signature, sampleOwner2Point)

def sampleProbe : Bytes := buildTo2HelloDeviceProbe sampleGuid (sampleRandom 0)

def sampleProbeHash : Bytes := beBytes 32 0x2e372e753d49e6db9b13c2c942f1ca9f834145235bfef5c85a57878e1bf85687

/-- HelloDeviceAck20: FDO 2.0, ECDH256, A256GCM. -/
def sampleHelloAck : Bytes :=
  Enc.array 8 ++ Enc.bytes [capb0SupFdo20] ++ Enc.array 0 ++ Enc.bytes sampleGuid ++ Enc.uint 65535 ++ Enc.array 1 ++
    Enc.text kexSuite20 ++ Enc.array 1 ++ Enc.uint 3 ++ Enc.bytes (sampleRandom 4) ++ Enc.array 2 ++ Enc.negInt (-16) ++
    Enc.bytes sampleProbeHash

/-- The device's ECDH key. -/
def sampleEcdhKey : EcdhKeyPair where
  handle := 0x80000001
  publicX := beBytes 32 0xc93dbd3f74357d59dc7391046f02cd14ec6a972d06b4d95f1b58ebc14e38a89d
  publicY := beBytes 32 0xb067b5eeb0a3c7ce2ed6ad42a5490f069cb44e9b286ee713b61d940d808207d6

/-- The Owner's part of the key exchange. -/
def sampleXb : Bytes :=
  buildXa (beBytes 32 0x16f399753bec74479a28196cfa662d6e68219e683f28a26cb556f01082b888d3)
    (beBytes 32 0x56d61c0f0342d1e9b50890de40d326813383ac0531276a3f0d682874536d7f0d) (sampleRandom 5)

def sampleShx : Bytes := beBytes 32 0x143ede4d43e2b251ac0529995890621cd423f0ab4973095f5ba662c31628db09

def sampleOwnerPubKey : Bytes := beBytes 96
  0x830a01585b3059301306072a8648ce3d020106082a8648ce3d03010703420004259d52200d4b49bf9a390b32fbd2ac71ede884eec1b6dd0cb6aaca6c9c379c175fba205c7befb013763b096a91bb676b76de88c04bd7817b0d9093b8a5b24542

/-- ProveOVHdr20 for a voucher with two entries, without a delegate chain. -/
def sampleProveOvHdr : Bytes :=
  Enc.array 8 ++ Enc.bytes sampleOvHeader ++ Enc.uint 2 ++ sampleHmacRaw ++ Enc.bytes (sampleRandom 2) ++
    Enc.bytes sampleXb ++ Enc.uint 65535 ++ sampleOwnerPubKey ++ Enc.null

def sampleProveOvHdrSignature : Bytes := beBytes 64
  0xb22345fd2ec55cd09793b7318918ad1137d36087ec8ba08740156eebd0992a2cd554afca9f8451a3c197eed4979fce3c8cb86c757c9355fe5a085176d686b9eb

/-- The rendezvous blob, signed by the Owner. -/
def sampleTo1d : Bytes := Enc.array 2 ++ Enc.array 0 ++ Enc.array 2 ++ Enc.negInt (-16) ++ Enc.bytes (List.replicate 32 0)

def sampleTo1dSignature : Bytes := beBytes 64
  0x4803479cfc4c2b56df9fa7a3e64f8828baccc701eec74735214b4881618b4923087654c8934d5df276ed3759d16275d57478ef3b4d3acd6613b9786aa17b6c17

/-- SetupDevice20: the credentials stay as they are. -/
def sampleSetupDevice : Bytes := Enc.array 3 ++ Enc.uint 2 ++ Enc.null ++ Enc.uint 65535

def sampleSetupDeviceSignature : Bytes := beBytes 64
  0x91efb724bc38de2e2efb8656d1cd52156ce55b072bc7382ac85c39bca5e0495d0d96a4c3ffbce70ac85376458e0767174bb346829a070c5b3bb89b8ae21f0e9f

def sampleImageHash : Bytes := beBytes 32 0x039058c6f2c0cb492c533b0a4d14ef77cc0f78abccced5287d84a1a2011cfb81

/-- The last OwnerSvcInfo: an image of three bytes, in one chunk. -/
def sampleOwnerSvcInfo : Bytes :=
  Enc.array 3 ++ Enc.boolVal false ++ Enc.boolVal true ++ Enc.array 3 ++
    svcInfoKv "fdo.bmo:image-begin" (Enc.encodeMap 1 ++ Enc.uint 8 ++ Enc.bytes sampleImageHash) ++
    svcInfoKv "fdo.bmo:image-data-0" [1, 2, 3] ++ svcInfoKv "fdo.bmo:image-end" (Enc.encodeMap 0)

/-- The blocks of the key derivation, the first of which is the session key. -/
def sampleKdfBlocks : List Bytes :=
  [beBytes 32 0xd31e9ae23a998c61320437e4aa7a1ec7e7c80377d4186d68ee87159e8e84bb62,
    beBytes 32 0xde3c0862a6d0a049ec26ebf6773ce843674591ccf543e806df9b0c66e63e73ed,
    beBytes 32 0x15cc4411a68b32838ec814a0db36a5c2aae413a7190d493f73abf8a52cf3e33a,
    beBytes 32 0x8fe2e0b5eef4d12605768dc7a29b3b9ea49dd5689b8561273fbf86a4fac070ee,
    beBytes 32 0xe1404b019676d45f80c16faaac0ca72ace68861723561f83c22d487d565147eb,
    beBytes 32 0xdb0d1f842fe507785a416a94c757287c2748ae0421f5adefd1219f90e8d76700,
    beBytes 32 0x3399f4b27cb41a5f13272f27a4263304413040a6d865ecca132cd9fbd7886a09,
    beBytes 32 0x9dfffc333eec2a44afa920326007a7ee9f31e744d1f40a8d1832c70d133d63e7]

def sampleSek : Bytes := sampleKdfBlocks.headD []

/-- A message under the session key. The first byte of the nonce is 0 for the device and 1 for the Owner. -/
def sampleGcm (side : UInt8) (i : Nat) (plaintext ciphertext : Bytes) : GcmEntry where
  key := sampleSek
  nonce := [side, 0, 0, 0] ++ beBytes 8 i
  aad := buildCoseEncStructure buildA256gcmProtectedHeaders []
  plaintext := plaintext
  ciphertext := ciphertext

def sampleSetupDeviceCiphertext : Bytes := beBytes 96
  0x23fc1abf6d1b3417210c69b16a68ac42dfb79566cc76dc5a55a4890dd10cda1edb09343520f42a0001f86487a8c5fd0e1a0ef2bfc951f74b3be4100c081383c6162ec340309e366b7d41f3576c6b82a6e328ad29e2f45dfa401c49a469a5b6a7

def sampleOwnerSvcInfoCiphertext : Bytes := beBytes 126
  0xbad3e9226b5974aebd47a64464a2c8bfac11508f120139560b61d275fd2bec2da6435a87ba543b9de11dc53724e1a0e07b5448c769f5d1cae71a2c5ec2318d65c7ce8ece27f330a96d4ab417600d8be0129e48b23211a0058a0b3980b6a66e544bd1b733900e193314bba20b2c10a2317e4a00fb8954dbe6d3308be9b15a

def sampleDoneAckCiphertext : Bytes := beBytes 34
  0xfd2dbf6ecd781d1852a92f607e09d3ab474f4de4788768ae04f0c8ca7029395003f3

def sampleMessages : List GcmEntry :=
  [sampleGcm 0 0 (buildDeviceSvcInfoRdy (some 65535) (sampleRandom 3))
      (beBytes 38 0x0b5bb7b6d0df4dc10e798bc2549449aed5db87975a49c3941585cd32722ef4fe1ddbd16c5f73),
    sampleGcm 1 0 (sampleSign1 sampleSetupDevice sampleSetupDeviceSignature) sampleSetupDeviceCiphertext,
    sampleGcm 0 1 (buildDeviceSvcInfo false buildDevmodServiceInfo) (beBytes 281
      0xdc652fbe430013b98cbd96af610338d959aab885bd0f02b6345c8a5480e03cfdb5b52ec28bafcf705f1f0b417f07cd2c86cb507ae5431a1c8cd93fc9e4a9d5c264cce4c1a71a8c357da5a395a498e23261fe1ac090372a9e253f8a6d10f696412e5566ba8e28edf87d2bc542f4b6fa027f42ae63e3bd239d6b70a3fa9a2a3c3f0eae81933b786a0c669060d707d06bf178d30e17a5bb179a345172fff977d168ad4b2f257d95a21be09e8e88e1551f6e365f09d29c2b7d4a6604d302a6be5f4bf0242d88c2e0e2c8b1e6f2232bbc6bfce17acdcb47f938c77818505734d21b722bb80802635d06595cc5d169e05abd8207ccccdfdcae41ec0ac6f5004dc9dcd044b26126380de10f4838625f0a2639337bddda4d80925e35f9),
    sampleGcm 1 1 sampleOwnerSvcInfo sampleOwnerSvcInfoCiphertext,
    sampleGcm 0 2 (buildTo2Done (sampleRandom 4))
      (beBytes 35 0x484930463f74d4354ded326a2f95ff1fc07b507f868fc3a2f71b52ce72b2e9835147d2),
    sampleGcm 1 2 (Enc.array 1 ++ Enc.bytes (sampleRandom 3)) sampleDoneAckCiphertext]

/-- The Owner's message with a ciphertext. -/
def sampleSealed (i : Nat) (ciphertext : Bytes) : Bytes :=
  [0xd0] ++ Enc.array 3 ++ Enc.bytes buildA256gcmProtectedHeaders ++ Enc.encodeMap 1 ++ Enc.uint 5 ++
    Enc.bytes ([1, 0, 0, 0] ++ beBytes 8 i) ++ Enc.bytes ciphertext

def sampleTo2Args : To2Args where
  ownerUrl := utf8 "http://owner"
  guid := sampleGuid
  deviceKeyHandle := 0x81000002
  hmacKeyHandle := 0x81000001
  to1d := some (sampleSign1 sampleTo1d sampleTo1dSignature)

def sampleHelloHash : Bytes := beBytes 32 0x89505792b6b151a958989fa8e6f0f77000e0cfd65dcf16457971db8a13d778c5

/-- What the device attestation key signs. -/
def sampleSigStructure : Bytes :=
  buildCoseSigStructure buildCoseProtectedHeader buildProveDeviceAad
    (buildTo2ProveDeviceEat sampleGuid (sampleRandom 4)
      (buildTo2ProveDevicePayload kexSuite20 3 (buildXa sampleEcdhKey.publicX sampleEcdhKey.publicY (sampleRandom 1))
        (sampleRandom 2) sampleHelloHash))

def sampleTo2Ctx : Ctx :=
  (sampleVoucherCtx.extend
    [sampleSigned aadTagProveOvHdr sampleProveOvHdr sampleProveOvHdrSignature,
      sampleSigned aadTagOwnerSign sampleTo1d sampleTo1dSignature,
      sampleSigned aadTagSetupDevice sampleSetupDevice sampleSetupDeviceSignature]
    [(sampleProbe, sampleProbeHash), (sampleHelloAck, sampleHelloHash), ([1, 2, 3], sampleImageHash),
      (sampleSigStructure, beBytes 32 0x8249e1c4a1c9373826d69aee13cbf32f07e7a09c9c3fbec55d9a6d9a86c198de)]).withCipher
    (sampleKdfBlocks.mapIdx fun i block =>
      ((buildEcdhShse sampleShx (sampleRandom 1) (sampleRandom 5), fdoKdfInput (i + 1) 256), block))
    sampleMessages

/-- The Owner's answers, by message type. -/
def sampleResponse (msgType : Nat) (body : Bytes) : Bytes :=
  if msgType = msgTo2HelloDeviceProbe then sampleHelloAck
  else if msgType = msgTo2ProveDevice then sampleSign1 sampleProveOvHdr sampleProveOvHdrSignature
  else if msgType = msgTo2GetOvNextEntry then
    if body = buildTo2GetOvNextEntry 0 then Enc.array 2 ++ Enc.uint 0 ++ Enc.bytes sampleEntry0
    else Enc.array 2 ++ Enc.uint 1 ++ Enc.bytes sampleEntry1
  else if msgType = msgTo2DeviceSvcInfoRdy then sampleSealed 0 sampleSetupDeviceCiphertext
  else if msgType = msgTo2DeviceSvcInfo then sampleSealed 1 sampleOwnerSvcInfoCiphertext
  else sampleSealed 2 sampleDoneAckCiphertext

/-- The Owner of the sample voucher, and a TPM that works. -/
def sampleWorld : World where
  random past := some (sampleRandom (past.filter (· matches .random _)).length)
  createEcdhKey _ := some sampleEcdhKey
  ecdhDerive _ _ _ := some sampleShx
  sign _ _ _ := some (beBytes 64 0x371aafab9ccb4b0b13259059dce1ed0940a0d20a0435706a00a884e6a3a2ffac48e33fa1f4bfa5b0e20b2fac20a412021a0f8a8c9d8cf745d84921011417766a)
  post _ _ msgType body _ := some ⟨sampleResponse msgType body, some (utf8 "token"), some (msgType + 1)⟩
  get _ _ _ := none

/-- The Owner delivers an image, and the run ends with its boot. -/
theorem sampleRun_boots :
    (performTo2 sampleTo2Ctx 8 sampleWorld sampleTo2Args To2State.new).1 = .ok () ∧
      (performTo2 sampleTo2Ctx 8 sampleWorld sampleTo2Args To2State.new).2.trace.getLast? = some (.chainload [1, 2, 3]) := by
  decide +kernel

/-- The Owner of the sample run had proved itself. -/
theorem sampleRun_provenSession :
    ∃ past session nonce iv body answer rest, ProvenSession sampleTo2Ctx 8 sampleTo2Args
      (performTo2 sampleTo2Ctx 8 sampleWorld sampleTo2Args To2State.new).2.trace past session nonce iv body answer rest := by
  rcases performTo2_provenSession sampleTo2Ctx 8 sampleWorld sampleTo2Args with hidle | hproven
  · exact absurd trivial (hidle (.chainload [1, 2, 3]) (List.mem_of_getLast? sampleRun_boots.2))
  · exact hproven

end FdoUefi
