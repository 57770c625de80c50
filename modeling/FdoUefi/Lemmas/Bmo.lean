import FdoUefi.Bmo

/-!
# What one message does to a session

The cases of each handler of `process_bmo_message`, in terms of what has authorised the last begin message and which hash the
image was compared with. The Owner key is always present, as it is in TO2.
-/

namespace FdoUefi

open Prog Prog.Run Cbor

/-- The begin message was authorised, with this authority and this content: unsigned from a peer with channel authority, or
signed and verified. -/
inductive BeginAuthorised (Γ : Ctx) (k : Bytes) (peer : PeerAuthority) (guid : Option Bytes) (value : Bytes) :
    Authority → Bytes → Prop where
  | channel (hplain : isCborTag18 value = false) (hpeer : peer = .ownerDirect ∨ peer = .delegate true) :
      BeginAuthorised Γ k peer guid value .channel value
  | artifact {body : Bytes} (htag : isCborTag18 value = true)
      (hsigned : verifyBmoSigned Γ value k bmoContentTypeImageBegin guid = .ok body) :
      BeginAuthorised Γ k peer guid value .artifact body

/-- The message was authorised and its content is this begin message. -/
def BeginAccepted (Γ : Ctx) (fuel : Nat) (k : Bytes) (peer : PeerAuthority) (guid : Option Bytes) (m : BmoMessage)
    (auth : Authority) (begin : BmoImageBegin) : Prop :=
  ∃ body, BeginAuthorised Γ k peer guid m.value auth body ∧ parseBmoImageBegin fuel body = .ok begin

/-- The key a meta-payload verifies under: that of the publisher the begin message names, the Owner key, or the leaf of a chain
to it that grants provisioning. -/
inductive MetaSigner (Γ : Ctx) (k : Bytes) (s1 : CoseSign1) : Option Bytes → Bytes → Prop where
  | named {coseKey point : Bytes} (h : parseCoseKeyP256 coseKey = .ok point) : MetaSigner Γ k s1 (some coseKey) point
  | owner (h : hasDelegateHeader s1.unprotectedHeader = .ok false) : MetaSigner Γ k s1 none k
  | chain {certs : List Bytes} {chain : DelegateChainResult}
      (hcerts : extractX5chainFromUnprotected s1.unprotectedHeader = .ok certs)
      (hchain : verifyDelegateChain Γ certs k = .ok chain) (hperm : chain.hasProvision = true) :
      MetaSigner Γ k s1 none chain.leafKeyPoint

/-- The fetched bytes are a meta-payload with this content whose signature verifies. -/
def MetaVerified (Γ : Ctx) (k : Bytes) (metaSigner : Option Bytes) (data content : Bytes) : Prop :=
  ∃ s1 point, parseCoseSign1 data = .ok s1 ∧ MetaSigner Γ k s1 metaSigner point ∧
    verifyEs256 Γ (buildSigStructure s1.protectedHeader (domainAad aadTagMetaPayload fdoVersion200) s1.payload)
      s1.signature point = true ∧ content = s1.payload

/-- The hash stands in a verified meta-payload that the begin message points to. -/
def MetaVouches (Γ : Ctx) (fuel : Nat) (k : Bytes) (m : BmoMessage) (begin : BmoImageBegin) (hash : Bytes) : Prop :=
  ∃ url data content mp, begin.url = some url ∧ m.get 0 url = some data ∧
    MetaVerified Γ k begin.metaSigner data content ∧ parseMetaPayload fuel content = .ok mp ∧ mp.expectedHash = some hash

variable {Γ : Ctx} {fuel : Nat} {k : Bytes} {peer : PeerAuthority} {guid : Option Bytes} {s t : BmoSession}

/-! ## Signatures -/

/-- The signer of an artifact is the Owner or an end of a chain under its key. -/
theorem artifactSignerPoint_ok {s1 : CoseSign1} {key : Bytes}
    (h : artifactSignerPoint Γ s1.unprotectedHeader k = .ok key) : MetaSigner Γ k s1 none key := by
  simp only [artifactSignerPoint, Outcome.bind_ok_iff] at h
  obtain ⟨delegated, hdel, h⟩ := h
  cases delegated with
  | false =>
    simp only [if_true, Outcome.pure_ok_iff] at h
    subst h
    exact .owner hdel
  | true =>
    simp only [Bool.true_eq_false, if_false, Outcome.bind_ok_iff, Outcome.ensure_ok_iff, Outcome.pure_ok_iff] at h
    obtain ⟨certs, hcerts, chain, hchain, _, hperm, rfl⟩ := h
    exact .chain hcerts hchain hperm

/-- A meta-payload that counts as authenticated has been verified. -/
theorem verifyAndExtractMeta_ok {data content : Bytes} {metaSigner : Option Bytes}
    (h : verifyAndExtractMeta Γ data metaSigner (some k) = .ok (content, true)) :
    MetaVerified Γ k metaSigner data content := by
  unfold verifyAndExtractMeta at h
  cases metaSigner with
  | some coseKey =>
    simp only [Outcome.bind_ok_iff, Outcome.ensure_ok_iff, Outcome.noneAs_ok_iff, Outcome.pure_ok_iff, Prod.mk.injEq,
      and_true] at h
    obtain ⟨_, -, point, hpoint, s1, hs1, _, hsig, rfl⟩ := h
    rw [verifySign1, Bool.and_eq_true] at hsig
    exact ⟨s1, point, hs1, .named hpoint, hsig.2, rfl⟩
  | none =>
    by_cases htag : isCborTag18 data = true
    · simp only [if_pos htag, Outcome.bind_ok_iff, Outcome.noneAs_ok_iff, Outcome.pure_ok_iff, Prod.mk.injEq, and_true] at h
      obtain ⟨inner, hinner, rfl⟩ := h
      simp only [verifyMetaSigned, Outcome.bind_ok_iff, Outcome.ensure_ok_iff, Outcome.pure_ok_iff] at hinner
      obtain ⟨s1, hs1, key, hkey, _, hsig, rfl⟩ := hinner
      exact ⟨s1, key, hs1, artifactSignerPoint_ok hkey, hsig, rfl⟩
    · simp [if_neg htag] at h

/-- An authorised message, with what its authority is and what its content is. -/
theorem checkBmoAuthorization_ok {value : Bytes} {auth : BmoAuthResult} {inner : Option Bytes}
    (h : checkBmoAuthorization Γ value (some k) peer bmoContentTypeImageBegin guid = .ok (auth, inner))
    (hauth : auth.isAuthorized = true) :
    BeginAuthorised Γ k peer guid value auth.toAuthority (inner.getD value) := by
  unfold checkBmoAuthorization at h
  by_cases htag : isCborTag18 value = true
  · rw [if_pos htag] at h
    cases hun : unwrapBmoSigned Γ value (some k) bmoContentTypeImageBegin guid with
    | ok body =>
      rw [hun] at h
      simp only [Outcome.ok.injEq, Prod.mk.injEq] at h
      obtain ⟨rfl, rfl⟩ := h
      simp only [unwrapBmoSigned, htag, Bool.true_eq_false, if_false] at hun
      exact .artifact htag hun
    | err e =>
      rw [hun] at h
      simp only [Outcome.ok.injEq, Prod.mk.injEq] at h
      obtain ⟨rfl, rfl⟩ := h
      cases hauth
    | panic => simp [hun] at h
    | hang => simp [hun] at h
  · rw [if_neg htag] at h
    have hplain : isCborTag18 value = false := by simpa using htag
    cases peer with
    | ownerDirect =>
      simp only [Outcome.ok.injEq, Prod.mk.injEq] at h
      obtain ⟨rfl, rfl⟩ := h
      exact .channel hplain (.inl rfl)
    | delegate provision =>
      cases provision with
      | true =>
        simp only [Outcome.ok.injEq, Prod.mk.injEq] at h
        obtain ⟨rfl, rfl⟩ := h
        exact .channel hplain (.inr rfl)
      | false =>
        simp only [Outcome.ok.injEq, Prod.mk.injEq] at h
        obtain ⟨rfl, rfl⟩ := h
        cases hauth
    | unauthenticated =>
      simp only [Option.isSome_some, if_true, Outcome.ok.injEq, Prod.mk.injEq] at h
      obtain ⟨rfl, rfl⟩ := h
      cases hauth

/-! ## Begin messages -/

/-- After a refusal the session is in error. -/
theorem refuseImage_ok {text : Bytes} {r : BmoAnswer} (h : refuseImage text s = (.ok r, t)) : t.state = .error := by
  simp only [refuseImage, bind_ok_iff, modifyS_apply, Prod.mk.injEq, pure_ok_iff] at h
  obtain ⟨_, _, ⟨-, rfl⟩, -, rfl⟩ := h
  rfl

/-- A completed session keeps the image. -/
theorem completeWith_ok {begin : BmoImageBegin} {text : Bytes} {r : BmoAnswer}
    (h : completeWith begin text s = (.ok r, t)) : t.state = .complete ∧ t.imageBuffer = s.imageBuffer := by
  simp only [completeWith, bind_ok_iff, modifyS_apply, Prod.mk.injEq, pure_ok_iff] at h
  obtain ⟨_, _, ⟨-, rfl⟩, -, rfl⟩ := h
  exact ⟨rfl, rfl⟩

/-- An image fetched from a URL has the hash of the begin message. -/
theorem processBmoUrlDelivery_ok {get : Nat → Bytes → Option Bytes} {begin : BmoImageBegin} {u : Unit}
    (h : processBmoUrlDelivery Γ get begin s = (.ok u, t)) : begin.expectedHash = some (Γ.sha256 t.imageBuffer) := by
  simp only [processBmoUrlDelivery, bind_ok_iff, orFail_ok_iff, getS_apply, mapErr_ok_iff, ofExcept_ok_iff, ensure_ok_iff,
    modifyS_apply, Prod.mk.injEq, Outcome.ok.injEq] at h
  obtain ⟨url, _, ⟨-, rfl⟩, _, _, ⟨rfl, rfl⟩, hash, _, ⟨hdec, rfl⟩, image, _, ⟨-, rfl⟩, _, _, ⟨-, rfl⟩, _, _, ⟨hsha, rfl⟩,
    -, rfl⟩ := h
  cases hb : begin.expectedHash with
  | none => simp [urlHashDecision, hb] at hdec
  | some h =>
    simp only [urlHashDecision, hb, Except.ok.injEq] at hdec
    rw [hdec, ← hsha]

/-- An image found through a meta-payload has the hash of the begin message, or, without one, the hash of a verified
meta-payload. -/
theorem processBmoMetaUrlDelivery_ok {m : BmoMessage} {begin : BmoImageBegin} {u : Unit}
    (h : processBmoMetaUrlDelivery Γ fuel m.get begin (some k) s = (.ok u, t)) :
    (∀ hash, begin.expectedHash = some hash → Γ.sha256 t.imageBuffer = hash) ∧
      (begin.expectedHash = none → MetaVouches Γ fuel k m begin (Γ.sha256 t.imageBuffer)) := by
  simp only [processBmoMetaUrlDelivery, bind_ok_iff, orFail_ok_iff, getS_apply, mapErr_ok_iff, ofExcept_ok_iff,
    ofOutcome_ok_iff, Outcome.noneAs_ok_iff, ensure_ok_iff, modifyS_apply, Prod.mk.injEq, Outcome.ok.injEq] at h
  obtain ⟨url, _, ⟨hurl, rfl⟩, data, _, ⟨hdata, rfl⟩, ⟨content, authenticated⟩, _, ⟨hmeta, rfl⟩, mp, _, ⟨hmp, rfl⟩, _, _,
    ⟨-, rfl⟩, _, _, ⟨rfl, rfl⟩, required, _, ⟨hdec, rfl⟩, image, _, ⟨-, rfl⟩, _, _, ⟨hsha, rfl⟩, -, rfl⟩ := h
  have hreq : required = begin.expectedHash.toList ++ mp.expectedHash.toList ∧
      (begin.expectedHash.isSome ∨ authenticated = true ∧ mp.expectedHash.isSome) := by
    unfold metaHashDecision at hdec
    split at hdec
    · next hev => exact ⟨(Except.ok.inj hdec).symm, hev⟩
    · cases hdec
  obtain ⟨rfl, hevidence⟩ := hreq
  refine ⟨?_, ?_⟩
  · intro hash hb
    exact hsha hash (by simp [hb])
  · intro hb
    rcases hevidence with hsome | ⟨rfl, hsome⟩
    · simp [hb] at hsome
    · obtain ⟨hash, hmh⟩ := Option.isSome_iff_exists.1 hsome
      refine ⟨url, data, content, mp, hurl, hdata, verifyAndExtractMeta_ok hmeta, hmp, ?_⟩
      rw [hmh, hsha hash (by simp [hmh])]

/-- How a begin message that has not ended in an error leaves the session. -/
structure BeginDone (Γ : Ctx) (fuel : Nat) (k : Bytes) (m : BmoMessage) (auth : Authority) (begin : BmoImageBegin)
    (t : BmoSession) : Prop where
  awaiting : t.state = .awaitingData → begin.deliveryMode = bmoDeliveryInline ∧ t.begin = some begin ∧
    t.authority = auth ∧ (auth = .artifact → begin.expectedHash ≠ none)
  complete : t.state = .complete → (∀ hash, begin.expectedHash = some hash → Γ.sha256 t.imageBuffer = hash) ∧
    (begin.expectedHash = none → begin.deliveryMode = bmoDeliveryMetaUrl ∧
      MetaVouches Γ fuel k m begin (Γ.sha256 t.imageBuffer))

/-- A begin message that ends in an error has promised nothing. -/
theorem BeginDone.of_error {m : BmoMessage} {auth : Authority} {begin : BmoImageBegin} (h : t.state = .error) :
    BeginDone Γ fuel k m auth begin t where
  awaiting := by simp [h]
  complete := by simp [h]

/-- An inline delivery waits for its chunks, under its begin message. -/
theorem beginInline_done {m : BmoMessage} {begin : BmoImageBegin} {r : BmoAnswer}
    (hmode : begin.deliveryMode = bmoDeliveryInline) (hbind : s.authority = .artifact → begin.expectedHash ≠ none)
    (h : beginInline begin s = (.ok r, t)) : BeginDone Γ fuel k m s.authority begin t := by
  simp only [beginInline, bind_ok_iff, modifyS_apply, Prod.mk.injEq] at h
  obtain ⟨_, _, ⟨-, rfl⟩, h⟩ := h
  split at h
  · simp at h
  · simp only [bind_ok_iff, modifyS_apply, Prod.mk.injEq] at h
    obtain ⟨_, _, ⟨-, rfl⟩, h⟩ := h
    have ht : t = { s with
        state := .awaitingData, imageBuffer := [], begin := some begin, chunksReceived := 0, bytesReceived := 0 } := by
      split at h
      · exact (pure_ok_iff.1 h).2
      · exact (pure_ok_iff.1 h).2
    subst ht
    exact ⟨fun _ => ⟨hmode, rfl, rfl, hbind⟩, fun hc => by cases hc⟩

/-- A delivery from a URL is complete with the hash that was promised. -/
theorem beginUrl_done {m : BmoMessage} {auth : Authority} {begin : BmoImageBegin} {r : BmoAnswer}
    (h : beginUrl Γ m.get begin s = (.ok r, t)) : BeginDone Γ fuel k m auth begin t := by
  unfold beginUrl at h
  split at h
  · exact .of_error (refuseImage_ok h)
  · obtain ⟨result, s₁, hres, h⟩ := bind_ok_iff.1 h
    rcases caught_ok_iff.1 hres with ⟨u, rfl, hrun⟩ | ⟨code, rfl, -⟩
    · obtain ⟨hstate, hbuf⟩ := completeWith_ok h
      have hhash := processBmoUrlDelivery_ok hrun
      refine ⟨fun ha => by simp [hstate] at ha, fun _ => ⟨fun hash hb => ?_, fun hb => ?_⟩⟩
      · rw [hbuf]
        exact Option.some.inj (hhash.symm.trans hb)
      · rw [hb] at hhash
        cases hhash
    · exact .of_error (refuseImage_ok h)

/-- A delivery by a meta-payload is complete with the hash that the meta-payload holds. -/
theorem beginMetaUrl_done {m : BmoMessage} {auth : Authority} {begin : BmoImageBegin} {r : BmoAnswer}
    (hmode : begin.deliveryMode = bmoDeliveryMetaUrl)
    (h : beginMetaUrl Γ fuel m.get begin (some k) s = (.ok r, t)) : BeginDone Γ fuel k m auth begin t := by
  unfold beginMetaUrl at h
  split at h
  · exact .of_error (refuseImage_ok h)
  · obtain ⟨result, s₁, hres, h⟩ := bind_ok_iff.1 h
    rcases caught_ok_iff.1 hres with ⟨u, rfl, hrun⟩ | ⟨code, rfl, -⟩
    · obtain ⟨hstate, hbuf⟩ := completeWith_ok h
      obtain ⟨hbegin, hmeta⟩ := processBmoMetaUrlDelivery_ok hrun
      rw [← hbuf] at hbegin hmeta
      exact ⟨fun ha => by simp [hstate] at ha, fun _ => ⟨hbegin, fun hb => ⟨hmode, hmeta hb⟩⟩⟩
    · exact .of_error (refuseImage_ok h)

/-- Every mode of delivery does what its begin message says. -/
theorem deliver_done {m : BmoMessage} {begin : BmoImageBegin} {r : BmoAnswer}
    (h : deliver Γ fuel m.get (some k) begin s = (.ok r, t)) : BeginDone Γ fuel k m s.authority begin t := by
  simp only [deliver, bind_ok_iff, getS_apply, Prod.mk.injEq, Outcome.ok.injEq] at h
  obtain ⟨_, _, ⟨rfl, rfl⟩, h⟩ := h
  cases hb : signedBeginBindsContent s.authority begin with
  | error e =>
    simp only [hb] at h
    exact .of_error (refuseImage_ok h)
  | ok u =>
    simp only [hb] at h
    split at h
    · next hmode =>
      refine beginInline_done hmode ?_ h
      intro ha hnone
      simp [signedBeginBindsContent, ha, hmode, hnone] at hb
    · split at h
      · exact beginUrl_done h
      · split at h
        · exact beginMetaUrl_done ‹_› h
        · exact .of_error (refuseImage_ok h)

/-- A begin message ends in an error, or it was accepted and is done with. -/
theorem imageBegin_ok {m : BmoMessage} {r : BmoAnswer}
    (h : imageBegin Γ fuel (some k) peer guid m s = (.ok r, t)) :
    t.state = .error ∨
      ∃ auth begin, BeginAccepted Γ fuel k peer guid m auth begin ∧ BeginDone Γ fuel k m auth begin t := by
  simp only [imageBegin, bind_ok_iff, ofOutcome_ok_iff] at h
  obtain ⟨⟨auth, inner⟩, _, ⟨hcheck, rfl⟩, h⟩ := h
  by_cases hauth : auth.isAuthorized = true
  · simp only [hauth, Bool.true_eq_false, if_false, bind_ok_iff, modifyS_apply, Prod.mk.injEq] at h
    obtain ⟨_, _, ⟨-, rfl⟩, parsed, s₂, hparse, h⟩ := h
    rcases attempt_ok_iff.1 hparse with ⟨begin, rfl, hrun⟩ | ⟨rfl, -⟩
    · obtain ⟨hbegin, rfl⟩ := ofOutcome_ok_iff.1 hrun
      exact .inr ⟨auth.toAuthority, begin, ⟨_, checkBmoAuthorization_ok hcheck hauth, hbegin⟩, deliver_done h⟩
    · simp only [bind_ok_iff, modifyS_apply, Prod.mk.injEq, pure_ok_iff] at h
      obtain ⟨_, _, ⟨-, rfl⟩, -, rfl⟩ := h
      exact .inl rfl
  · simp only [Bool.not_eq_true] at hauth
    simp only [hauth, if_true] at h
    exact .inl (refuseImage_ok h)

/-! ## The other messages -/

/-- A chunk changes the buffer of a session that waits for it, and nothing else that counts. -/
theorem imageData_ok {m : BmoMessage} {r : BmoAnswer} (h : imageData m s = (.ok r, t)) :
    t = s ∨ s.state = .awaitingData ∧ t.state = .awaitingData ∧ t.begin = s.begin ∧ t.authority = s.authority := by
  simp only [imageData, bind_ok_iff, getS_apply, Prod.mk.injEq, Outcome.ok.injEq] at h
  obtain ⟨_, _, ⟨rfl, rfl⟩, h⟩ := h
  split at h
  · exact .inl (pure_ok_iff.1 h).2
  · next hstate =>
    simp only [ne_eq, Decidable.not_not] at hstate
    simp only [bind_ok_iff, ofOutcome_ok_iff, modifyS_apply, Prod.mk.injEq, pure_ok_iff] at h
    obtain ⟨chunk, _, ⟨-, rfl⟩, _, _, ⟨-, rfl⟩, -, rfl⟩ := h
    exact .inr ⟨hstate, hstate, rfl, rfl⟩

/-- The hash an inline image must have is the one of the begin message, and else, over the channel, the one of the end
message. -/
theorem inlineHashDecision_ok {authority : Authority} {beginHash endHash : Option Bytes} {expected : Bytes}
    (h : inlineHashDecision authority beginHash endHash = .ok expected) :
    (∀ hash, beginHash = some hash → expected = hash) ∧
      (beginHash = none → authority ≠ .artifact ∧ endHash = some expected) := by
  simp only [inlineHashDecision] at h
  split at h
  · cases h
  split at h
  · cases h
  next hnotart =>
  refine ⟨fun hash hb => ?_, fun hb => ⟨fun ha => hnotart ⟨ha, hb⟩, ?_⟩⟩
  · simp only [hb, Option.some_or, Except.ok.injEq] at h
    exact h.symm
  · cases endHash with
    | none => simp [hb] at h
    | some hash =>
      simp only [hb, Option.none_or, Except.ok.injEq] at h
      rw [h]

/-- A transfer that completes holds an image with the hash that was decided on. -/
theorem finishInline_ok {endHash : Option Bytes} {r : BmoAnswer} (h : finishInline Γ endHash s = (.ok r, t)) :
    t.state = .error ∨ t.state = .complete ∧
      inlineHashDecision s.authority (s.begin.bind (·.expectedHash)) endHash = .ok (Γ.sha256 t.imageBuffer) := by
  simp only [finishInline, bind_ok_iff, getS_apply, Prod.mk.injEq, Outcome.ok.injEq] at h
  obtain ⟨_, _, ⟨rfl, rfl⟩, h⟩ := h
  cases hdec : inlineHashDecision s.authority (s.begin.bind (·.expectedHash)) endHash with
  | error e =>
    simp only [hdec] at h
    exact .inl (refuseImage_ok h)
  | ok expected =>
    simp only [hdec] at h
    split at h
    · exact .inl (refuseImage_ok h)
    · next hsha =>
      simp only [ne_eq, Decidable.not_not] at hsha
      simp only [bind_ok_iff, modifyS_apply, Prod.mk.injEq, pure_ok_iff] at h
      obtain ⟨_, _, ⟨-, rfl⟩, -, rfl⟩ := h
      exact .inr ⟨rfl, by rw [hsha]⟩

/-- An end message leaves the session alone, ends in an error, or completes the transfer with the hash of the begin message
or, when that has none, its own. -/
theorem imageEnd_ok {m : BmoMessage} {r : BmoAnswer} (h : imageEnd Γ fuel m s = (.ok r, t)) :
    t = s ∨ t.state = .error ∨
      s.state = .awaitingData ∧ t.state = .complete ∧
        ∀ begin, s.begin = some begin → (∀ hash, begin.expectedHash = some hash → Γ.sha256 t.imageBuffer = hash) ∧
          (begin.expectedHash = none → s.authority ≠ .artifact ∧
            parseImageEndHash fuel m.value = .ok (Γ.sha256 t.imageBuffer)) := by
  simp only [imageEnd, bind_ok_iff, getS_apply, Prod.mk.injEq, Outcome.ok.injEq] at h
  obtain ⟨_, _, ⟨rfl, rfl⟩, h⟩ := h
  split at h
  · exact .inl (pure_ok_iff.1 h).2
  next hstate =>
  simp only [ne_eq, Decidable.not_not] at hstate
  split at h
  · exact .inr (.inl (refuseImage_ok h))
  obtain ⟨endHash, s₁, hend, hfin⟩ := bind_ok_iff.1 h
  obtain ⟨rfl, hparse⟩ := attempt_ofOutcome_ok hend
  rcases finishInline_ok hfin with herr | ⟨hcomplete, hdec⟩
  · exact .inr (.inl herr)
  · refine .inr (.inr ⟨hstate, hcomplete, ?_⟩)
    intro begin hbegin
    rw [hbegin, Option.bind_some] at hdec
    obtain ⟨hown, hother⟩ := inlineHashDecision_ok hdec
    refine ⟨hown, fun hnone => ?_⟩
    obtain ⟨hauth, hhash⟩ := hother hnone
    exact ⟨hauth, hparse _ hhash⟩

/-- A set message ends in an error or leaves the session alone. -/
theorem setParameters_ok {m : BmoMessage} {owner : Option Bytes} {r : BmoAnswer}
    (h : setParameters Γ owner peer guid m s = (.ok r, t)) : t = s ∨ t.state = .error := by
  simp only [setParameters, bind_ok_iff, ofOutcome_ok_iff] at h
  obtain ⟨⟨auth, inner⟩, _, ⟨-, rfl⟩, h⟩ := h
  split at h
  · simp only [bind_ok_iff, modifyS_apply, Prod.mk.injEq, pure_ok_iff] at h
    obtain ⟨_, _, ⟨-, rfl⟩, -, rfl⟩ := h
    exact .inr rfl
  · left
    obtain ⟨text, s₁, htext, h⟩ := bind_ok_iff.1 h
    obtain ⟨-, rfl⟩ := pure_ok_iff.1 h
    rcases otherwise_ok_iff.1 htext with hrun | ⟨-, e, hrun⟩
    · simp only [bind_ok_iff, ofOutcome_ok_iff, pure_ok_iff] at hrun
      obtain ⟨_, _, ⟨-, rfl⟩, -, rfl⟩ := hrun
      rfl
    · rcases hp : parseBmoSet (inner.getD m.value) with a | e' | _ | _ <;>
        simp [bind_def, andThen, hp] at hrun
      exact hrun.symm

end FdoUefi
