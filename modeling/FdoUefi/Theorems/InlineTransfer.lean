import FdoUefi.Lemmas.InlineTransfer
import FdoUefi.Lib.Trace

/-!
# An inline image is put together again

An image is sent in chunks, each raw or wrapped in a byte string, between a begin message that commits to it and an end
message. The session ends complete, with the image, exactly when no raw chunk looks like a wrapped one and the end message
does not contradict the begin message.
-/

namespace FdoUefi

open Prog Prog.Run Cbor

/-- A chunk of an image, and the head it is wrapped in when it is sent as a byte string. -/
structure ImageChunk where
  content : Bytes
  wrapper : Option Head
  announces : ∀ h ∈ wrapper, h.IsMajor 2 ∧ h.arg = content.length
  fits : (wrapper.elim [] Head.bytes ++ content).length ≤ sliceMax

/-- The value of the message that carries the chunk. -/
def ImageChunk.value (c : ImageChunk) : Bytes := c.wrapper.elim [] Head.bytes ++ c.content

/-- The chunk is sent raw and looks like a wrapped one. -/
def ImageChunk.Misread (c : ImageChunk) : Prop := c.wrapper = none ∧ LooksWrapped c.content

/-- The messages carry the chunks, in order. -/
def CarryChunks (ms : List BmoMessage) (cs : List ImageChunk) : Prop :=
  List.Forall₂ (fun m c => bmoKeyImageData.isPrefixOf m.key = true ∧ m.value = c.value) ms cs

/-- The chunks are a split of the image. -/
def IsSplit (cs : List ImageChunk) (image : Bytes) : Prop := (cs.map ImageChunk.content).flatten = image

/-- The message is an authorised inline begin message with the size and the hash of the image. -/
structure CommitsTo (Γ : Ctx) (fuel : Nat) (owner : Option Bytes) (peer : PeerAuthority) (guid : Option Bytes) (m : BmoMessage)
    (image : Bytes) : Prop where
  key : m.key = bmoKeyImageBegin
  begin : ∃ auth inner b, checkBmoAuthorization Γ m.value owner peer bmoContentTypeImageBegin guid = .ok (auth, inner) ∧
    auth.isAuthorized = true ∧ parseBmoImageBegin fuel (inner.getD m.value) = .ok b ∧
    b.deliveryMode = bmoDeliveryInline ∧ b.totalSize = image.length ∧ b.expectedHash = some (Γ.sha256 image)

/-- The end message has no hash that can be read, or that of the image. -/
def EndAgrees (Γ : Ctx) (fuel : Nat) (m : BmoMessage) (image : Bytes) : Prop :=
  parseImageEndHash fuel m.value = .err () ∨ parseImageEndHash fuel m.value = .ok (Γ.sha256 image)

/-- A begin message, chunks and an end message, with the answer to the last. -/
def inlineTransfer (Γ : Ctx) (fuel : Nat) (owner : Option Bytes) (peer : PeerAuthority) (guid : Option Bytes)
    (first : BmoMessage) (chunks : List BmoMessage) (last : BmoMessage) : Run BmoSession Unit BmoAnswer := do
  let _ ← processBmoMessage Γ fuel owner peer guid first
  processBmoMessages Γ fuel owner peer guid chunks
  processBmoMessage Γ fuel owner peer guid last

/-- The session is complete with the image, and the answer is a success. -/
def Reassembled (image : Bytes) (r : Outcome Unit BmoAnswer × BmoSession) : Prop :=
  r.2.state = .complete ∧ r.2.imageBuffer = image ∧
    ∃ text, r.1 = .ok (some (bmoKeyImageResult, buildBmoImageResult bmoStatusSuccess text))

namespace Aux

variable {Γ : Ctx} {fuel : Nat} {owner : Option Bytes} {peer : PeerAuthority} {guid : Option Bytes} {s t : BmoSession}
  {m : BmoMessage} {image : Bytes}

/-- The session waits for the chunks of the image. -/
structure Waits (Γ : Ctx) (image : Bytes) (s : BmoSession) : Prop where
  state : s.state = .awaitingData
  begin : ∃ b, s.begin = some b ∧ b.totalSize = image.length ∧ b.expectedHash = some (Γ.sha256 image)
  buffer : s.imageBuffer = []
  chunks : s.chunksReceived = 0
  received : s.bytesReceived = 0

/-- A begin message that commits to an image makes the session wait for its chunks. -/
theorem begin_waits (hfits : image.length ≤ sliceMax) (h : CommitsTo Γ fuel owner peer guid m image) (s : BmoSession) :
    ∃ r s₁, processBmoMessage Γ fuel owner peer guid m s = (.ok r, s₁) ∧ Waits Γ image s₁ := by
  obtain ⟨auth, inner, b, hcheck, hauth, hparse, hmode, hsize, hhash⟩ := h.begin
  have hbinds : signedBeginBindsContent auth.toAuthority b = .ok () := by simp [signedBeginBindsContent, hhash]
  have hroom : ¬sliceMax < b.totalSize := by omega
  rw [processBmoMessage, if_pos h.key, imageBegin, hcheck, bind_of_ok (ofOutcome_apply _ s)]
  simp only [hauth, Bool.true_eq_false, if_false, bind_of_ok (modifyS_apply _ s), hparse]
  have hdeliver : ∃ r s₁, deliver Γ fuel m.get owner b { s with authority := auth.toAuthority } = (.ok r, s₁) ∧
      Waits Γ image s₁ := by
    rw [deliver, bind_of_ok (getS_apply _)]
    simp only [hbinds, hmode, if_true, beginInline, bind_of_ok (modifyS_apply _ _), if_neg hroom]
    split
    · exact ⟨_, _, rfl, rfl, ⟨b, rfl, hsize, hhash⟩, rfl, rfl, rfl⟩
    · exact ⟨_, _, rfl, rfl, ⟨b, rfl, hsize, hhash⟩, rfl, rfl, rfl⟩
  exact hdeliver

/-- A raw chunk is its content. -/
theorem raw_value {c : ImageChunk} (h : c.wrapper = none) : c.value = c.content ∧ c.content.length ≤ sliceMax := by
  have hfits := c.fits
  rw [h] at hfits
  refine ⟨by simp [ImageChunk.value, h], by simpa using hfits⟩

/-- The chunk has this content for the receiver. -/
theorem chunkData_value {c : ImageChunk} (h : ¬c.Misread) : chunkData c.value = .ok c.content := by
  cases hw : c.wrapper with
  | none =>
    obtain ⟨hvalue, hfits⟩ := raw_value hw
    rw [hvalue]
    exact chunkData_of_not_looksWrapped hfits fun hlooks => h ⟨hw, hlooks⟩
  | some k =>
    have hvalue : c.value = k.bytes ++ c.content := by simp [ImageChunk.value, hw]
    have hfits := c.fits
    rw [hw] at hfits
    obtain ⟨hm, harg⟩ := c.announces k hw
    rw [hvalue]
    exact chunkData_wrapped hm harg hfits

/-- A chunk has at most its content for the receiver, and less when it is misread. -/
theorem chunkData_value_length {c : ImageChunk} {x : Bytes} (hx : chunkData c.value = .ok x) :
    x.length ≤ c.content.length ∧ (c.Misread → x.length < c.content.length) := by
  by_cases h : c.Misread
  · obtain ⟨hw, hlooks⟩ := h
    obtain ⟨hvalue, hfits⟩ := raw_value hw
    rw [hvalue] at hx
    rcases chunkData_of_looksWrapped hfits hlooks with hp | ⟨y, hy, hlt⟩
    · rw [hp] at hx
      cases hx
    · rw [hy, Outcome.ok.injEq] at hx
      subst hx
      exact ⟨hlt.le, fun _ => hlt⟩
  · rw [chunkData_value h, Outcome.ok.injEq] at hx
    subst hx
    exact ⟨Nat.le_refl _, fun hm => absurd hm h⟩

/-- Chunks none of which is misread are taken with their contents. -/
theorem contents_of_carry {ms : List BmoMessage} {cs : List ImageChunk} (h : CarryChunks ms cs) (hno : ∀ c ∈ cs, ¬c.Misread) :
    List.Forall₂ (fun m x => bmoKeyImageData.isPrefixOf m.key = true ∧ chunkData m.value = .ok x) ms
      (cs.map ImageChunk.content) := by
  induction h with
  | nil => exact .nil
  | @cons m c ms cs hmc _ ih =>
    obtain ⟨hkey, hvalue⟩ := hmc
    refine .cons ⟨hkey, ?_⟩ (ih fun c' hc' => hno c' (by simp [hc']))
    rw [hvalue]
    exact chunkData_value (hno c (by simp))

/-- Messages that carry chunks have the key of image data. -/
theorem carry_keys {ms : List BmoMessage} {cs : List ImageChunk} (h : CarryChunks ms cs) :
    ∀ m ∈ ms, bmoKeyImageData.isPrefixOf m.key = true := by
  induction h with
  | nil => simp
  | @cons m c ms cs hmc _ ih =>
    intro m' hm'
    rcases List.mem_cons.1 hm' with rfl | hm'
    · exact hmc.1
    · exact ih m' hm'

/-- What the receiver takes from the chunks is at most as long as they are, and shorter when one is misread. -/
theorem taken_length {ms : List BmoMessage} {cs : List ImageChunk} {xs : List Bytes} (h : CarryChunks ms cs)
    (hxs : List.Forall₂ (fun m x => bmoKeyImageData.isPrefixOf m.key = true ∧ chunkData m.value = .ok x) ms xs) :
    xs.flatten.length ≤ (cs.map ImageChunk.content).flatten.length ∧
      ((∃ c ∈ cs, c.Misread) → xs.flatten.length < (cs.map ImageChunk.content).flatten.length) := by
  induction h generalizing xs with
  | nil =>
    cases hxs
    simp
  | @cons m c ms cs hmc _ ih =>
    obtain _ | ⟨⟨-, hx⟩, hrest⟩ := hxs
    rw [hmc.2] at hx
    obtain ⟨hle, hlt⟩ := chunkData_value_length hx
    obtain ⟨hle', hlt'⟩ := ih hrest
    simp only [List.map_cons, List.flatten_cons, List.length_append, List.mem_cons]
    refine ⟨by omega, ?_⟩
    rintro ⟨c', rfl | hc', hmis⟩
    · have := hlt hmis
      omega
    · have := hlt' ⟨c', hc', hmis⟩
      omega

/-- What an end message with this hash makes of a session that holds the image the begin message announced. -/
theorem finishInline_eq {u : BmoSession} (hexp : u.begin.bind (·.expectedHash) = some (Γ.sha256 u.imageBuffer))
    (endHash : Option Bytes) : finishInline Γ endHash u =
      if endHash ≠ none ∧ some (Γ.sha256 u.imageBuffer) ≠ endHash then
        refuseImage (utf8 HashPolicyError.beginEndDisagree.message) u
      else
        (.ok (some (bmoKeyImageResult, buildBmoImageResult bmoStatusSuccess (some (utf8 "Image received")))),
          { u with state := .complete }) := by
  rw [finishInline, bind_of_ok (getS_apply _), hexp]
  by_cases hdis : endHash ≠ none ∧ some (Γ.sha256 u.imageBuffer) ≠ endHash
  · have hdec : inlineHashDecision u.authority (some (Γ.sha256 u.imageBuffer)) endHash = .error .beginEndDisagree := by
      rw [inlineHashDecision, if_pos ⟨by simp, hdis⟩]
    simp only [hdec, if_pos hdis]
  · have hdec : inlineHashDecision u.authority (some (Γ.sha256 u.imageBuffer)) endHash = .ok (Γ.sha256 u.imageBuffer) := by
      rw [inlineHashDecision, if_neg (fun h => hdis h.2), if_neg (by simp), Option.some_or]
    simp only [hdec, if_neg hdis, ne_eq, not_true_eq_false, if_false]
    rfl

/-- A session that holds the announced image is completed exactly by an end message that agrees. -/
theorem finish_reassembles (fuel : Nat) (m : BmoMessage) {u : BmoSession} (hexp : u.begin.bind (·.expectedHash) = some (Γ.sha256 u.imageBuffer)) :
    Reassembled u.imageBuffer (((attempt (ofOutcome (parseImageEndHash fuel m.value) : Run BmoSession Unit Bytes) :
      Run BmoSession Unit (Option Bytes)) >>= finishInline Γ) u) ↔ EndAgrees Γ fuel m u.imageBuffer := by
  unfold EndAgrees
  cases hparse : parseImageEndHash fuel m.value with
  | ok hash =>
    rw [bind_of_ok (a := some hash) (t := u) rfl, finishInline_eq hexp]
    by_cases heq : Γ.sha256 u.imageBuffer = hash
    · rw [if_neg (by simp [heq])]
      simp only [reduceCtorEq, heq, false_or, iff_true]
      exact ⟨rfl, rfl, _, rfl⟩
    · rw [if_pos (by simp [heq])]
      simp only [reduceCtorEq, Outcome.ok.injEq, false_or]
      exact ⟨fun h => (nomatch h.1), fun h => absurd h.symm heq⟩
  | err e =>
    rw [bind_of_ok (a := none) (t := u) rfl, finishInline_eq hexp, if_neg (by simp)]
    simp only [reduceCtorEq, or_false, iff_true]
    exact ⟨rfl, rfl, _, rfl⟩
  | panic =>
    rw [bind_of_panic (t := u) rfl]
    simp [Reassembled]
  | hang =>
    rw [bind_of_hang (t := u) rfl]
    simp [Reassembled]

/-- The end message is the only one with its key. -/
theorem processBmoMessage_end (hkey : m.key = bmoKeyImageEnd) :
    processBmoMessage Γ fuel owner peer guid m = imageEnd Γ fuel m := by
  rw [processBmoMessage, hkey, if_neg (by decide), if_neg (by decide), if_pos rfl]

/-- A refusal leaves the buffer alone. -/
theorem refuseImage_buffer (text : Bytes) : Emits BmoSession.imageBuffer (fun _ => False) (refuseImage text) :=
  .bind (.modifyS fun _ => rfl) fun _ => .pure _

/-- An end message leaves the image as it is. -/
theorem end_buffer (hkey : m.key = bmoKeyImageEnd) :
    (processBmoMessage Γ fuel owner peer guid m s).2.imageBuffer = s.imageBuffer := by
  rw [processBmoMessage_end hkey]
  have hquiet : Emits BmoSession.imageBuffer (fun _ => False) (imageEnd Γ fuel m) := by
    refine .bind .getS fun u => .ite (.pure _) (.ite (refuseImage_buffer _) ?_)
    refine .bind (.attempt (.ofOutcome _)) fun endHash => .bind .getS fun v => ?_
    cases inlineHashDecision v.authority (v.begin.bind (·.expectedHash)) endHash with
    | error e => exact refuseImage_buffer _
    | ok hash => exact .ite (refuseImage_buffer _) (.bind (.modifyS fun _ => rfl) fun _ => .pure _)
  exact hquiet.trace_eq s

/-- After the chunks of the image, the end message completes the session exactly when it agrees. -/
theorem end_completes (hfits : image.length ≤ sliceMax) (hw : Waits Γ image s) {xs : List Bytes} (hxs : xs.flatten = image)
    (hkey : m.key = bmoKeyImageEnd) :
    Reassembled image (processBmoMessage Γ fuel owner peer guid m (s.withData xs)) ↔ EndAgrees Γ fuel m image := by
  obtain ⟨b, hb, hsize, hhash⟩ := hw.begin
  have hbuffer : (s.withData xs).imageBuffer = image := by
    simp only [BmoSession.withData, hw.buffer, List.nil_append, hxs]
  have hreceived : (s.withData xs).bytesReceived = image.length := by
    simp only [BmoSession.withData, hw.received, hxs, Nat.zero_add]
    simp only [sliceMax] at hfits
    exact Nat.mod_eq_of_lt (by omega)
  have hbegin : (s.withData xs).begin = some b := hb
  have hsame : ¬(s.withData xs).begin.any (fun b => b.totalSize ≠ 0 ∧ (s.withData xs).bytesReceived ≠ b.totalSize) = true := by
    rw [hreceived, hbegin]
    simp [hsize]
  have hstate : ¬(s.withData xs).state ≠ .awaitingData := fun h => h hw.state
  have hexp : (s.withData xs).begin.bind (·.expectedHash) = some (Γ.sha256 (s.withData xs).imageBuffer) := by
    rw [hbegin, Option.bind_some, hhash, hbuffer]
  have hfinish := finish_reassembles fuel m hexp
  rw [hbuffer] at hfinish
  rw [processBmoMessage_end hkey, imageEnd, bind_of_ok (getS_apply _), if_neg hstate, if_neg hsame]
  exact hfinish

/-- The chunks are all taken exactly when the run goes on to the end message. -/
theorem transfer_of_waits {ms : List BmoMessage} {cs : List ImageChunk} {last : BmoMessage} (hfits : image.length ≤ sliceMax)
    (hw : Waits Γ image s) (hsplit : IsSplit cs image) (hms : CarryChunks ms cs) (hlast : last.key = bmoKeyImageEnd) :
    Reassembled image ((processBmoMessages Γ fuel owner peer guid ms >>= fun _ =>
      processBmoMessage Γ fuel owner peer guid last) s) ↔ (∀ c ∈ cs, ¬c.Misread) ∧ EndAgrees Γ fuel last image := by
  have hchunks : s.chunksReceived < 2 ^ 32 := by rw [hw.chunks]; decide
  have hreceived : s.bytesReceived < 2 ^ 64 := by rw [hw.received]; decide
  constructor
  · rintro ⟨hstate, hbuffer, text, hok⟩
    obtain ⟨u, t, hrun, hend⟩ := bind_ok_iff.1 (eq_of_fst hok)
    obtain ⟨xs, hxs⟩ := chunkData_of_run hw.state (carry_keys hms) hrun
    rw [processBmoMessages_data hw.state hchunks hreceived hxs] at hrun
    obtain ⟨-, rfl⟩ := Prod.mk.inj hrun
    have hbind : (processBmoMessages Γ fuel owner peer guid ms >>= fun _ =>
        processBmoMessage Γ fuel owner peer guid last) s = processBmoMessage Γ fuel owner peer guid last (s.withData xs) :=
      bind_of_ok (processBmoMessages_data hw.state hchunks hreceived hxs)
    rw [hbind] at hstate hbuffer hok
    have htaken : xs.flatten = image := by
      rw [← hbuffer, end_buffer hlast]
      simp only [BmoSession.withData, hw.buffer, List.nil_append]
    refine ⟨fun c hc hmis => ?_, (end_completes hfits hw htaken hlast).1 ⟨hstate, hbuffer, text, hok⟩⟩
    have hlt := (taken_length hms hxs).2 ⟨c, hc, hmis⟩
    rw [htaken, hsplit] at hlt
    exact Nat.lt_irrefl _ hlt
  · rintro ⟨hno, hagrees⟩
    have hxs := contents_of_carry hms hno
    rw [bind_of_ok (processBmoMessages_data hw.state hchunks hreceived hxs)]
    exact (end_completes hfits hw hsplit hlast).2 hagrees

end Aux

/-- The image arrives exactly when no raw chunk is misread and the end message agrees, from every session. -/
theorem inlineTransfer_iff (Γ : Ctx) (fuel : Nat) (owner : Option Bytes) (peer : PeerAuthority) (guid : Option Bytes)
    (image : Slice) (cs : List ImageChunk) (first : BmoMessage) (ms : List BmoMessage) (last : BmoMessage) (s : BmoSession)
    (hfirst : CommitsTo Γ fuel owner peer guid first image.bytes) (hsplit : IsSplit cs image.bytes) (hms : CarryChunks ms cs)
    (hlast : last.key = bmoKeyImageEnd) :
    Reassembled image.bytes (inlineTransfer Γ fuel owner peer guid first ms last s) ↔
      (∀ c ∈ cs, ¬c.Misread) ∧ EndAgrees Γ fuel last image.bytes := by
  obtain ⟨r, s₁, hbegin, hwaits⟩ := Aux.begin_waits image.fits hfirst s
  rw [inlineTransfer, bind_of_ok hbegin]
  exact Aux.transfer_of_waits image.fits hwaits hsplit hms hlast

/-- The SHA-256 digests of two images, one of three bytes and one of two. -/
def inlineDigest3 : Bytes := beBytes 32 0x039058c6f2c0cb492c533b0a4d14ef77cc0f78abccced5287d84a1a2011cfb81

def inlineDigest2 : Bytes := beBytes 32 0x7f5c7c5ed0bb82c418b7e73042feecea9daa5bfc3238362700bd96a837d52ec4

def inlineCtx : Ctx := Ctx.ofTables [] [([1, 2, 3], inlineDigest3), ([0x41, 5], inlineDigest2)] []

/-- `{0: size, 8: digest}` -/
def inlineFirst (size : UInt8) (digest : Bytes) : BmoMessage :=
  ⟨bmoKeyImageBegin, [0xa2, 0x00, size, 0x08, 0x58, 0x20] ++ digest, fun _ _ => none⟩

def inlineLast : BmoMessage := ⟨bmoKeyImageEnd, [0xa0], fun _ _ => none⟩

/-- The head of a byte string of two bytes. -/
theorem twoBytesHead_tail : ([] : Bytes).length = extLen (additional 0x42) := rfl

/-- The head of a byte string of two bytes is not reserved. -/
theorem twoBytesHead_defined : additional 0x42 < 28 ∨ major 0x42 = 7 := .inl (by decide)

def twoBytesHead : Head := ⟨0x42, [], twoBytesHead_tail, twoBytesHead_defined⟩

/-- An image in two chunks, the second of them wrapped. -/
def sampleChunks : List ImageChunk :=
  [⟨[1], none, by simp, by decide⟩, ⟨[2, 3], some twoBytesHead, fun _ hh => Option.some.inj hh ▸ ⟨rfl, rfl⟩, by decide⟩]

/-- An image in two chunks is put together. -/
theorem sampleInline_reassembled : Reassembled [1, 2, 3] (inlineTransfer inlineCtx 8 (some [4]) .ownerDirect none
    (inlineFirst 3 inlineDigest3) [⟨bmoKeyImageData ++ utf8 "0", [1], fun _ _ => none⟩,
      ⟨bmoKeyImageData ++ utf8 "1", [0x42, 2, 3], fun _ _ => none⟩] inlineLast BmoSession.new) := by
  have hfirst : CommitsTo inlineCtx 8 (some [4]) .ownerDirect none (inlineFirst 3 inlineDigest3) [1, 2, 3] :=
    ⟨rfl, .unsignedModel1, none, { totalSize := 3, expectedHash := some inlineDigest3 }, by decide +kernel, rfl,
      by decide +kernel, rfl, rfl, by decide +kernel⟩
  refine (inlineTransfer_iff inlineCtx 8 (some [4]) .ownerDirect none ⟨[1, 2, 3], by decide⟩ sampleChunks
    (inlineFirst 3 inlineDigest3) _ inlineLast BmoSession.new hfirst rfl ?_ rfl).2 ⟨?_, ?_⟩
  · exact .cons ⟨by decide, rfl⟩ (.cons ⟨by decide, rfl⟩ .nil)
  · rintro c hc ⟨hraw, h, hm, hat, -⟩
    rcases List.mem_cons.1 hc with rfl | hc
    · obtain ⟨post, heq⟩ := at_zero_iff.1 hat
      have hinitial : h.initial = 1 := (List.cons.inj heq).1.symm
      unfold Head.IsMajor at hm
      rw [hinitial] at hm
      exact absurd hm (by decide)
    · rw [List.mem_singleton.1 hc] at hraw
      cases hraw
  · exact .inl (by decide)

/-- A raw chunk that is a byte string of one byte. -/
def rawByteString : ImageChunk := ⟨[0x41, 5], none, by simp, by decide⟩

/-- An image of two bytes, sent raw in one chunk: the device takes the second byte alone. -/
theorem rawByteString_not_reassembled :
    CommitsTo inlineCtx 8 (some [4]) .ownerDirect none (inlineFirst 2 inlineDigest2) [0x41, 5] ∧ IsSplit [rawByteString] [0x41, 5] ∧
      CarryChunks [⟨bmoKeyImageData ++ utf8 "0", [0x41, 5], fun _ _ => none⟩] [rawByteString] ∧
      EndAgrees inlineCtx 8 inlineLast [0x41, 5] ∧
      ¬Reassembled [0x41, 5] (inlineTransfer inlineCtx 8 (some [4]) .ownerDirect none (inlineFirst 2 inlineDigest2)
        [⟨bmoKeyImageData ++ utf8 "0", [0x41, 5], fun _ _ => none⟩] inlineLast BmoSession.new) := by
  refine ⟨⟨rfl, ?_⟩, rfl, ?_, .inl (by decide), fun h => absurd h.1 (by decide)⟩
  · exact ⟨.unsignedModel1, none, { totalSize := 2, expectedHash := some inlineDigest2 }, by decide +kernel, rfl,
      by decide +kernel, rfl, rfl, by decide +kernel⟩
  · exact .cons ⟨by decide, rfl⟩ .nil

end FdoUefi
