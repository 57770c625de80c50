import FdoUefi.Csr
import FdoUefi.To1
import FdoUefi.Lemmas.To2
import FdoUefi.Lemmas.SigStructure

/-!
# What the device attestation key signs

The key signs in TO1, in TO2 and for the certificate signing request of DI. Whatever the servers choose, nothing it signs in
one of these places is ever signed in another: the external AAD stands before everything a server can choose, and a request is
DER, not CBOR.
-/

namespace FdoUefi

open Prog Prog.Run Cbor

/-- What the device attestation key signs for. -/
inductive DakUse where
  | proveToRv
  /-- ProveDevice20, with the domain AAD for a peer with FDO 2.0 and the empty AAD for another. -/
  | proveDevice (fdo20 : Bool)
  | csr
  deriving DecidableEq, Repr

/-- For some inputs, `msg` is what the key signs for this use. -/
inductive DakSigns (Γ : Ctx) : DakUse → Bytes → Prop where
  | proveToRv (guid nonce4 : Bytes) : DakSigns Γ .proveToRv (proveToRvSigStructure guid nonce4)
  | proveDevice (args : To2Args) (hello : To2Hello) (xa nonce : Bytes) :
      DakSigns Γ (.proveDevice hello.ack.supportsFdo20) (proveDeviceSigStructure Γ args hello xa nonce)
  | csr (subjectCn publicX publicY : Bytes) : DakSigns Γ .csr (buildCsrTbs subjectCn publicX publicY)

/-- A signature the TPM was asked for is over the digest of what the key signs for one of these uses. -/
def To2Event.SignsFor (Γ : Ctx) (uses : DakUse → Prop) : To2Event → Prop
  | .sign _ digest _ => ∃ use msg, uses use ∧ DakSigns Γ use msg ∧ digest = Γ.sha256 msg
  | _ => True

/-- `msg` is a Sig_structure with this external AAD, built by `cose.rs` or by `fdo.rs`. -/
inductive SigStructureWith (aad : Bytes) : Bytes → Prop where
  | cose (prot payload : Bytes) (hprot : prot.length < 2 ^ 32) (haad : aad.length < 2 ^ 32) :
      SigStructureWith aad (buildSigStructure prot aad payload)
  | fdo (payload : Bytes) (haad : aad.length < 2 ^ 16) :
      SigStructureWith aad (buildCoseSigStructure buildCoseProtectedHeader aad payload)

namespace Aux

variable {Γ : Ctx} {w : World}

/-- Up to 16 bits of length both modules write the same byte strings. -/
theorem encBytes_eq {s : Bytes} (hs : s.length < 2 ^ 16) : Enc.bytes s = encodeBstr s := by
  rw [Enc.bytes, encodeBstr, Enc.head, encodeHead]
  simp only [show s.length < 65536 from hs, if_true]

/-- What the device signs carries its protected header and its AAD. -/
theorem buildCoseSigStructure_sigContext {aad : Bytes} (payload : Bytes) (haad : aad.length < 2 ^ 16) :
    SigContext (buildCoseSigStructure buildCoseProtectedHeader aad payload) buildCoseProtectedHeader aad := by
  have hprot : buildCoseProtectedHeader.length < 2 ^ 16 := by decide
  have hctx : Enc.array 4 ++ Enc.text (utf8 "Signature1") = [0x84, 0x6a] ++ utf8 "Signature1" := by decide
  refine ⟨by omega, by omega, Enc.bytes payload, ?_⟩
  rw [buildCoseSigStructure, hctx, encBytes_eq hprot, encBytes_eq haad]
  simp only [List.append_assoc]

/-- Every Sig_structure carries its protected header and its AAD. -/
theorem SigStructureWith.sigContext {aad msg : Bytes} (h : SigStructureWith aad msg) : ∃ prot, SigContext msg prot aad := by
  cases h with
  | cose prot payload hprot haad => exact ⟨prot, buildSigStructure_sigContext payload hprot haad⟩
  | fdo payload haad => exact ⟨_, buildCoseSigStructure_sigContext payload haad⟩

/-- The external AAD of what the key signs in TO1 and in TO2. -/
def DakUse.aad : DakUse → Option Bytes
  | .proveToRv => some (domainAad aadTagProveToRv fdoProtocolVersion)
  | .proveDevice true => some buildProveDeviceAad
  | .proveDevice false => some []
  | .csr => none

/-- Two uses of the key do not share an AAD. -/
theorem dakUse_aad_inj {use use' : DakUse} {aad : Bytes} (h : DakUse.aad use = some aad) (h' : DakUse.aad use' = some aad) :
    use = use' := by
  have hdistinct : ∀ x ∈ [DakUse.proveToRv, .proveDevice true, .proveDevice false],
      ∀ y ∈ [DakUse.proveToRv, .proveDevice true, .proveDevice false], DakUse.aad x = DakUse.aad y → x = y := by
    decide
  have hmem : ∀ x : DakUse, DakUse.aad x = some aad → x ∈ [DakUse.proveToRv, .proveDevice true, .proveDevice false] := by
    intro x hx
    match x with
    | .proveToRv => simp
    | .proveDevice true => simp
    | .proveDevice false => simp
    | .csr => cases hx
  exact hdistinct _ (hmem _ h) _ (hmem _ h') (h.trans h'.symm)

/-- What the key signs is a Sig_structure with the AAD of its use, or it is DER. -/
theorem DakSigns.context {use : DakUse} {msg : Bytes} (h : DakSigns Γ use msg) :
    (∃ prot aad, DakUse.aad use = some aad ∧ SigContext msg prot aad) ∨ use = .csr ∧ msg.head? = some 0x30 := by
  cases h with
  | proveToRv guid nonce4 =>
    exact .inl ⟨_, _, rfl, buildSigStructure_sigContext _ (by decide) (by decide)⟩
  | proveDevice args hello xa nonce =>
    refine .inl ⟨buildCoseProtectedHeader, proveDeviceAad hello, ?_, buildCoseSigStructure_sigContext _ ?_⟩
    · rw [proveDeviceAad]
      cases hello.ack.supportsFdo20 <;> rfl
    · rw [proveDeviceAad]
      split_ifs
      · decide
      · decide
  | csr subjectCn publicX publicY =>
    refine .inr ⟨rfl, ?_⟩
    simp only [buildCsrTbs]
    split_ifs <;> rfl

/-- A Sig_structure starts with the head of an array of four. -/
theorem sigContext_head {msg prot aad : Bytes} (h : SigContext msg prot aad) : msg.head? = some 0x84 := by
  obtain ⟨-, -, rest, rfl⟩ := h
  rfl

/-- What is signed for one use is signed for no other. -/
theorem DakSigns.use_unique {use use' : DakUse} {msg : Bytes} (h : DakSigns Γ use msg) (h' : DakSigns Γ use' msg) :
    use = use' := by
  rcases DakSigns.context h with ⟨prot, aad, haad, hctx⟩ | ⟨rfl, hhead⟩
  · rcases DakSigns.context h' with ⟨prot', aad', haad', hctx'⟩ | ⟨-, hhead'⟩
    · obtain ⟨-, rfl⟩ := hctx.unique hctx'
      exact dakUse_aad_inj haad haad'
    · rw [sigContext_head hctx] at hhead'
      cases hhead'
  · rcases DakSigns.context h' with ⟨prot', aad', haad', hctx'⟩ | ⟨rfl, -⟩
    · rw [sigContext_head hctx'] at hhead
      cases hhead
    · rfl

/-! ## The runs -/

/-- TO1 signs for ProveToRV only. -/
theorem performTo1_signs (fuel : Nat) (rvUrl guid : Bytes) (deviceKeyHandle : Nat) :
    Emits To2State.trace (To2Event.SignsFor Γ (· = .proveToRv)) (performTo1 Γ fuel w rvUrl guid deviceKeyHandle) := by
  refine Emits.bind (.bind (askFor_emits fun _ => trivial) fun _ => .bind (.ofOutcome _) fun _ => .bind (.ofOutcome _) fun _ =>
    .pure _) ?_
  rintro ⟨ack, sessionToken⟩
  have hsign : ∀ answer, To2Event.SignsFor Γ (· = .proveToRv)
      (.sign deviceKeyHandle (Γ.sha256 (proveToRvSigStructure guid ack.nonce4)) answer) :=
    fun _ => ⟨.proveToRv, _, rfl, .proveToRv guid ack.nonce4, rfl⟩
  refine Emits.bind (.bind (askFor_emits hsign) fun signature => .bind (.ite (.pure _) (.still fun _ => rfl)) fun _ => .pure _) ?_
  intro proveToRv
  refine Emits.bind (askFor_emits fun _ => trivial) ?_
  intro resp
  exact Emits.bind (.ofOutcome _) fun _ => .ofOutcome _

/-- The handshake of TO2 signs for ProveDevice only. -/
theorem handshakeEvents_signs (args : To2Args) :
    HandshakeEvents Γ args (To2Event.SignsFor Γ fun use => ∃ fdo20, use = .proveDevice fdo20) where
  random _ := trivial
  createEcdhKey _ := trivial
  ecdhDerive _ _ _ := trivial
  sign hello xa nonce _ := ⟨_, _, ⟨_, rfl⟩, .proveDevice args hello xa nonce, rfl⟩
  post _ _ _ _ _ _ := trivial

/-- Nothing is signed in a session. -/
theorem signsFor_of_inSession {args : To2Args} {peer : To2Peer} {uses : DakUse → Prop} (e : To2Event)
    (h : e.InSession args peer) : e.SignsFor Γ uses := by
  cases e with
  | sign => cases h
  | _ => trivial

/-- What follows the handshake signs for nothing. -/
theorem onboard_signs {uses : DakUse → Prop} (fuel : Nat) (args : To2Args) (session : To2Session) :
    Emits To2State.trace (To2Event.SignsFor Γ uses) (onboard Γ fuel w args session) := by
  have hsetup : Emits To2State.trace (To2Event.SignsFor Γ uses) (setupDevice Γ fuel w args session) := by
    refine Emits.bind (randomNonce_emits fun _ => trivial) ?_
    intro nonce
    refine Emits.bind (sendSealed_emits (fun _ _ => trivial) fun _ _ _ _ => trivial) ?_
    intro resp
    refine Emits.bind (.ofOutcome _) ?_
    intro plain
    exact Emits.bind (.ofOutcome _) fun _ => .pure _
  refine Emits.bind hsetup ?_
  intro nonce
  refine Emits.bind ((serviceInfoRounds_emits _ _).mono signsFor_of_inSession) ?_
  intro _
  refine Emits.bind (finishTo2_emits.mono signsFor_of_inSession) ?_
  intro _
  exact Emits.bind .getS fun _ => .onlyIf (tell_emits trivial)

/-- TO2 signs for ProveDevice only. -/
theorem performTo2_signs (fuel : Nat) (args : To2Args) :
    Emits To2State.trace (To2Event.SignsFor Γ fun use => ∃ fdo20, use = .proveDevice fdo20) (performTo2 Γ fuel w args) :=
  .bind (handshake_emits (handshakeEvents_signs args)) fun session => onboard_signs fuel args session

/-- Every event of a run from the empty trace. -/
theorem emits_new {α : Type} {E : To2Event → Prop} {m : To2 α} (h : Emits To2State.trace E m) :
    ∀ e ∈ (m To2State.new).2.trace, E e := by
  obtain ⟨new, hnew, hE⟩ := h To2State.new
  rw [hnew]
  exact hE

end Aux

/-- A Sig_structure determines its parts and an AAD its tag, so no Sig_structure is built with two tags. In every run of TO1 and
of TO2 the device attestation key signs the digest of what it signs for that use, and what it signs for ProveToRV, for
ProveDevice20 with either AAD and for a certificate signing request is never the same. -/
theorem signed_contexts_disjoint (Γ : Ctx) :
    (∀ p a m p' a' m' : Bytes, p.length < 2 ^ 32 → a.length < 2 ^ 32 → m.length < 2 ^ 32 → p'.length < 2 ^ 32 →
      a'.length < 2 ^ 32 → m'.length < 2 ^ 32 → buildSigStructure p a m = buildSigStructure p' a' m' →
        p = p' ∧ a = a' ∧ m = m') ∧
    (∀ (tag tag' : Bytes) (version version' : Nat), 200 ≤ version → 200 ≤ version' →
      domainAad tag version = domainAad tag' version' → tag = tag') ∧
    (∀ (tag tag' msg : Bytes) (version version' : Nat), 200 ≤ version → 200 ≤ version' →
      SigStructureWith (domainAad tag version) msg → SigStructureWith (domainAad tag' version') msg → tag = tag') ∧
    (∀ use use' msg, DakSigns Γ use msg → DakSigns Γ use' msg → use = use') ∧
    (∀ fuel w rvUrl guid handle, ∀ e ∈ (performTo1 Γ fuel w rvUrl guid handle To2State.new).2.trace,
      e.SignsFor Γ (· = .proveToRv)) ∧
    ∀ fuel w args, ∀ e ∈ (performTo2 Γ fuel w args To2State.new).2.trace,
      e.SignsFor Γ fun use => ∃ fdo20, use = .proveDevice fdo20 := by
  refine ⟨?_, ?_, ?_, ?_, ?_, ?_⟩
  · intro p a m p' a' m' hp ha hm hp' ha' hm' h
    exact buildSigStructure_inj hp ha hm hp' ha' hm' h
  · intro tag tag' version version' hv hv' h
    exact domainAad_inj hv hv' h
  · intro tag tag' msg version version' hv hv' h h'
    obtain ⟨prot, hctx⟩ := Aux.SigStructureWith.sigContext h
    obtain ⟨prot', hctx'⟩ := Aux.SigStructureWith.sigContext h'
    exact domainAad_inj hv hv' (hctx.unique hctx').2
  · intro use use' msg h h'
    exact Aux.DakSigns.use_unique h h'
  · intro fuel w rvUrl guid handle
    exact Aux.emits_new (Aux.performTo1_signs fuel rvUrl guid handle)
  · intro fuel w args
    exact Aux.emits_new (Aux.performTo2_signs fuel args)

/-- A byte that moves from the AAD to the payload makes another Sig_structure; a tag of TO1 is not one of TO2; what is signed
for TO1 is not a certificate signing request. -/
theorem signed_contexts_apart :
    buildSigStructure [1] [2] [] ≠ buildSigStructure [1] [] [2] ∧
    domainAad aadTagProveToRv 200 ≠ domainAad aadTagProveOvHdr 200 ∧
    ¬SigStructureWith (domainAad aadTagProveOvHdr 200)
      (buildSigStructure [1] (domainAad aadTagProveToRv 200) [2]) ∧
    ¬DakSigns (Ctx.ofTables [] [] []) .csr (proveToRvSigStructure (List.replicate 16 0) (List.replicate 16 1)) := by
  have htags : aadTagProveToRv ≠ aadTagProveOvHdr := by decide
  obtain ⟨hinj, htag, hwith, huse, -, -⟩ := signed_contexts_disjoint (Ctx.ofTables [] [] [])
  refine ⟨fun h => ?_, fun h => ?_, fun h => ?_, fun h => ?_⟩
  · have hparts := hinj _ _ _ _ _ _ (by decide) (by decide) (by decide) (by decide) (by decide) (by decide) h
    exact absurd hparts.2.1 (by decide)
  · exact htags (htag _ _ _ _ le_rfl le_rfl h)
  · have hcose : SigStructureWith (domainAad aadTagProveToRv 200) (buildSigStructure [1] (domainAad aadTagProveToRv 200) [2]) :=
      .cose [1] [2] (by decide) (by decide)
    exact htags (hwith _ _ _ _ _ le_rfl le_rfl hcose h)
  · exact absurd (huse _ _ _ (.proveToRv _ _) h) (by decide)

end FdoUefi
