import FdoUefi.Lemmas.Bmo

/-!
# An image is booted only when its begin message vouches for it

Over every sequence of messages: a session that is complete holds an image whose hash the last begin message, or what that
message authorises to speak for it, has vouched for.
-/

namespace FdoUefi

open Prog Prog.Run

/-- The messages end with `m`, the last begin message, and `post`. -/
structure LastBegin (msgs : List BmoMessage) (m : BmoMessage) (post : List BmoMessage) : Prop where
  split : ∃ pre, msgs = pre ++ m :: post
  isBegin : m.key = bmoKeyImageBegin
  last : ∀ x ∈ post, x.key ≠ bmoKeyImageBegin

/-- The hash is vouched for: it is the one the begin message carries; when it carries none, it is the one of an end message,
for an unsigned inline begin message, or the one of a verified meta-payload, in mode 2. `begin.expectedHash` is what the code
reads: a key counts modulo 2^32, and of several entries for one key the last. -/
structure Vouched (Γ : Ctx) (fuel : Nat) (k : Bytes) (m : BmoMessage) (post : List BmoMessage) (auth : Authority)
    (begin : BmoImageBegin) (hash : Bytes) : Prop where
  own : ∀ h, begin.expectedHash = some h → hash = h
  other : begin.expectedHash = none →
    (auth = .channel ∧ begin.deliveryMode = bmoDeliveryInline ∧
      ∃ e ∈ post, e.key = bmoKeyImageEnd ∧ parseImageEndHash fuel e.value = .ok hash) ∨
    begin.deliveryMode = bmoDeliveryMetaUrl ∧ MetaVouches Γ fuel k m begin hash

/-- The last begin message was accepted and the hash is vouched for. -/
def ImageVouched (Γ : Ctx) (fuel : Nat) (k : Bytes) (peer : PeerAuthority) (guid : Option Bytes) (msgs : List BmoMessage)
    (hash : Bytes) : Prop :=
  ∃ m post auth begin, LastBegin msgs m post ∧ BeginAccepted Γ fuel k peer guid m auth begin ∧
    Vouched Γ fuel k m post auth begin hash

/-- The session waits for the chunks of the last begin message. -/
def AwaitsChunks (Γ : Ctx) (fuel : Nat) (k : Bytes) (peer : PeerAuthority) (guid : Option Bytes) (msgs : List BmoMessage)
    (s : BmoSession) : Prop :=
  ∃ m post auth begin, LastBegin msgs m post ∧ BeginAccepted Γ fuel k peer guid m auth begin ∧
    begin.deliveryMode = bmoDeliveryInline ∧ s.begin = some begin ∧ s.authority = auth ∧
    (auth = .artifact → begin.expectedHash ≠ none)

/-- What holds of a session after the messages `past`. -/
structure BmoInv (Γ : Ctx) (fuel : Nat) (k : Bytes) (peer : PeerAuthority) (guid : Option Bytes) (past : List BmoMessage)
    (s : BmoSession) : Prop where
  awaiting : s.state = .awaitingData → AwaitsChunks Γ fuel k peer guid past s
  complete : s.state = .complete → ImageVouched Γ fuel k peer guid past (Γ.sha256 s.imageBuffer)

namespace Aux

variable {Γ : Ctx} {fuel : Nat} {k : Bytes} {peer : PeerAuthority} {guid : Option Bytes} {past : List BmoMessage}
  {s t : BmoSession} {m : BmoMessage}

/-- A begin message is the last one when it comes. -/
theorem lastBegin_self (h : m.key = bmoKeyImageBegin) : LastBegin (past ++ [m]) m [] where
  split := ⟨past, rfl⟩
  isBegin := h
  last := by simp

/-- A begin message stays the last one until the next. -/
theorem lastBegin_snoc {b : BmoMessage} {post : List BmoMessage} (h : LastBegin past b post)
    (hm : m.key ≠ bmoKeyImageBegin) : LastBegin (past ++ [m]) b (post ++ [m]) where
  split := by
    obtain ⟨pre, rfl⟩ := h.split
    exact ⟨pre, by simp⟩
  isBegin := h.isBegin
  last := by
    intro x hx
    rcases List.mem_append.1 hx with hx | hx
    · exact h.last x hx
    · rw [List.mem_singleton.1 hx]
      exact hm

/-- What was vouched for stays so. -/
theorem vouched_snoc {b : BmoMessage} {post : List BmoMessage} {auth : Authority} {begin : BmoImageBegin} {hash : Bytes}
    (h : Vouched Γ fuel k b post auth begin hash) : Vouched Γ fuel k b (post ++ [m]) auth begin hash where
  own := h.own
  other hb := by
    rcases h.other hb with ⟨ha, hmode, e, he, hrest⟩ | hmeta
    · exact .inl ⟨ha, hmode, e, by simp [he], hrest⟩
    · exact .inr hmeta

/-- A session in error has nothing to keep. -/
theorem inv_error (h : t.state = .error) : BmoInv Γ fuel k peer guid past t where
  awaiting ha := by simp [h] at ha
  complete hc := by simp [h] at hc

/-- A message that is not a begin message and leaves the session alone keeps the invariant. -/
theorem inv_same (hi : BmoInv Γ fuel k peer guid past s) (hm : m.key ≠ bmoKeyImageBegin) :
    BmoInv Γ fuel k peer guid (past ++ [m]) s where
  awaiting ha := by
    obtain ⟨b, post, auth, begin, hlast, hrest⟩ := hi.awaiting ha
    exact ⟨b, post ++ [m], auth, begin, lastBegin_snoc hlast hm, hrest⟩
  complete hc := by
    obtain ⟨b, post, auth, begin, hlast, hacc, hv⟩ := hi.complete hc
    exact ⟨b, post ++ [m], auth, begin, lastBegin_snoc hlast hm, hacc, vouched_snoc hv⟩

/-- A begin message establishes the invariant. -/
theorem inv_imageBegin (hm : m.key = bmoKeyImageBegin) {r : BmoAnswer}
    (h : imageBegin Γ fuel (some k) peer guid m s = (.ok r, t)) : BmoInv Γ fuel k peer guid (past ++ [m]) t := by
  rcases imageBegin_ok h with herr | ⟨auth, begin, hacc, hdone⟩
  · exact inv_error herr
  · refine ⟨fun ha => ?_, fun hc => ?_⟩
    · exact ⟨m, [], auth, begin, lastBegin_self hm, hacc, hdone.awaiting ha⟩
    · obtain ⟨hown, hother⟩ := hdone.complete hc
      exact ⟨m, [], auth, begin, lastBegin_self hm, hacc, hown, fun hb => .inr (hother hb)⟩

/-- A chunk keeps the invariant. -/
theorem inv_imageData (hi : BmoInv Γ fuel k peer guid past s) (hm : m.key ≠ bmoKeyImageBegin) {r : BmoAnswer}
    (h : imageData m s = (.ok r, t)) : BmoInv Γ fuel k peer guid (past ++ [m]) t := by
  rcases imageData_ok h with rfl | ⟨hs, ht, hbegin, hauth⟩
  · exact inv_same hi hm
  · refine ⟨fun _ => ?_, fun hc => by simp [ht] at hc⟩
    obtain ⟨b, post, auth, begin, hlast, hacc, hmode, hb, ha, hart⟩ := hi.awaiting hs
    exact ⟨b, post ++ [m], auth, begin, lastBegin_snoc hlast hm, hacc, hmode, hbegin.trans hb, hauth.trans ha, hart⟩

/-- An authorised message without artifact authority came over the channel. -/
theorem authority_channel {value body : Bytes} {auth : Authority} (h : BeginAuthorised Γ k peer guid value auth body)
    (hno : auth ≠ .artifact) : auth = .channel := by
  cases h with
  | channel => rfl
  | artifact => exact absurd rfl hno

/-- An end message keeps the invariant. -/
theorem inv_imageEnd (hi : BmoInv Γ fuel k peer guid past s) (hm : m.key = bmoKeyImageEnd) {r : BmoAnswer}
    (h : imageEnd Γ fuel m s = (.ok r, t)) : BmoInv Γ fuel k peer guid (past ++ [m]) t := by
  have hne : m.key ≠ bmoKeyImageBegin := by
    rw [hm]
    decide
  rcases imageEnd_ok h with rfl | herr | ⟨hs, ht, hhash⟩
  · exact inv_same hi hne
  · exact inv_error herr
  · refine ⟨fun ha => by simp [ht] at ha, fun _ => ?_⟩
    obtain ⟨b, post, auth, begin, hlast, hacc, hmode, hb, rfl, -⟩ := hi.awaiting hs
    obtain ⟨hown, hend⟩ := hhash begin hb
    refine ⟨b, post ++ [m], s.authority, begin, lastBegin_snoc hlast hne, hacc, hown, fun hnone => .inl ?_⟩
    obtain ⟨hno, hparse⟩ := hend hnone
    obtain ⟨body, hbody, -⟩ := hacc
    exact ⟨authority_channel hbody hno, hmode, m, by simp, hm, hparse⟩

/-- One message keeps the invariant. -/
theorem inv_step (hi : BmoInv Γ fuel k peer guid past s) {r : BmoAnswer}
    (h : processBmoMessage Γ fuel (some k) peer guid m s = (.ok r, t)) : BmoInv Γ fuel k peer guid (past ++ [m]) t := by
  unfold processBmoMessage at h
  split at h
  · exact inv_imageBegin ‹_› h
  next hm =>
  split at h
  · exact inv_imageData hi hm h
  split at h
  · exact inv_imageEnd hi ‹_› h
  split at h
  · rcases setParameters_ok h with rfl | herr
    · exact inv_same hi hm
    · exact inv_error herr
  · obtain ⟨-, rfl⟩ := pure_ok_iff.1 h
    exact inv_same hi hm

/-- Any number of messages keep the invariant. -/
theorem inv_run {msgs : List BmoMessage} {u : Unit} (hi : BmoInv Γ fuel k peer guid past s)
    (h : processBmoMessages Γ fuel (some k) peer guid msgs s = (.ok u, t)) :
    BmoInv Γ fuel k peer guid (past ++ msgs) t := by
  induction msgs generalizing past s with
  | nil =>
    obtain ⟨-, rfl⟩ := pure_ok_iff.1 h
    rw [List.append_nil]
    exact hi
  | cons m msgs ih =>
    obtain ⟨r, s₁, hm, hrest⟩ := bind_ok_iff.1 h
    have hnext := ih (inv_step hi hm) hrest
    rwa [List.append_assoc, List.singleton_append] at hnext

/-- A fresh session has the invariant. -/
theorem inv_new : BmoInv Γ fuel k peer guid [] BmoSession.new where
  awaiting ha := by cases ha
  complete hc := by cases hc

end Aux

/-- A session that ends complete holds an image that is vouched for. -/
theorem processBmoMessages_vouched (Γ : Ctx) (fuel : Nat) (k : Bytes) (peer : PeerAuthority) (guid : Option Bytes)
    (msgs : List BmoMessage) (t : BmoSession)
    (hrun : processBmoMessages Γ fuel (some k) peer guid msgs BmoSession.new = (.ok (), t))
    (hcomplete : t.state = .complete) : ImageVouched Γ fuel k peer guid msgs (Γ.sha256 t.imageBuffer) := by
  have hinv := Aux.inv_run Aux.inv_new hrun
  rw [List.nil_append] at hinv
  exact hinv.complete hcomplete

/-- The SHA-256 digest of an image of three bytes. -/
def sampleDigest : Bytes := beBytes 32 0x039058c6f2c0cb492c533b0a4d14ef77cc0f78abccced5287d84a1a2011cfb81

def sampleImageCtx : Ctx := Ctx.ofTables [] [([1, 2, 3], sampleDigest)] []

/-- `{8: digest}`, then the image in two chunks, one of them as a CBOR byte string, then `{}`. -/
def sampleTransfer : List BmoMessage :=
  [⟨bmoKeyImageBegin, [0xa1, 0x08, 0x58, 0x20] ++ sampleDigest, fun _ _ => none⟩,
    ⟨bmoKeyImageData ++ utf8 "0", [1], fun _ _ => none⟩, ⟨bmoKeyImageData ++ utf8 "1", [0x42, 2, 3], fun _ _ => none⟩,
    ⟨bmoKeyImageEnd, [0xa0], fun _ _ => none⟩]

/-- The image of the sample is vouched for by its begin message. -/
theorem sampleTransfer_vouched : ∃ t : BmoSession, t.state = .complete ∧ t.imageBuffer = [1, 2, 3] ∧
    ImageVouched sampleImageCtx 8 [4] .ownerDirect none sampleTransfer (sampleImageCtx.sha256 t.imageBuffer) := by
  have hrun : processBmoMessages sampleImageCtx 8 (some [4]) .ownerDirect none sampleTransfer BmoSession.new =
      (.ok (), ⟨.complete, some { expectedHash := some sampleDigest }, [1, 2, 3], 2, 3, .channel⟩) := by
    decide +kernel
  exact ⟨_, rfl, rfl, processBmoMessages_vouched _ _ _ _ _ _ _ hrun rfl⟩

end FdoUefi
