import FdoUefi.Lemmas.DecoderReaders
import FdoUefi.Lemmas.RoundTrip
import FdoUefi.Bmo

/-!
# The chunks of an inline image

`image-data` takes a chunk for a wrapped one when it starts with a head of a byte string that has all it announces.
`chunkData_of_not_looksWrapped` and `chunkData_of_looksWrapped` say what becomes of a chunk in either case, and
`processBmoMessages_data` what any number of chunks leave in the session.
-/

namespace FdoUefi

open Prog Prog.Run Prog.Cur Cbor

/-- The bytes start with the head of a byte string that ends within them, or that announces an end past 2^64. -/
def LooksWrapped (c : Bytes) : Prop :=
  ∃ h : Head, h.IsMajor 2 ∧ At c 0 h.bytes ∧ (h.bytes.length + h.arg ≤ c.length ∨ wordSize ≤ h.bytes.length + h.arg)

variable {c : Bytes}

/-! ## One chunk -/

/-- The first byte of a head of major type 2 shows it. -/
theorem chunkData_of_head {h : Head} (hm : h.IsMajor 2) (hat : At c 0 h.bytes) : chunkData c =
    match Dec.eval (Dec.readBytes c) with
    | .ok inner => .ok inner
    | .err _ => .ok c
    | .panic => .panic
    | .hang => .hang := by
  obtain ⟨post, rfl⟩ := at_zero_iff.1 hat
  have hhead : (h.bytes ++ post).head?.any (fun b => major b = 2) = true := by
    have hmajor : major h.initial = 2 := hm
    simp [Head.bytes, hmajor]
  exact if_pos hhead

/-- What is wrapped in a byte string is unwrapped. -/
theorem chunkData_wrapped {h : Head} (hm : h.IsMajor 2) (harg : h.arg = c.length) (hfits : (h.bytes ++ c).length ≤ sliceMax) :
    chunkData (h.bytes ++ c) = .ok c := by
  have hat : At (h.bytes ++ c) 0 (h.bytes ++ c) := at_zero_iff.2 ⟨[], by simp⟩
  have h28 : additional h.initial < 28 := h.defined.resolve_right (by unfold Head.IsMajor at hm; omega)
  have hread := readBytes_reads hat hm h28 harg.symm (by simp only [sliceMax, wordSize] at hfits ⊢; omega)
  obtain ⟨log, hrun⟩ := hread []
  have heval : Dec.eval (Dec.readBytes (h.bytes ++ c)) = .ok c := by
    change ((Dec.readBytes (h.bytes ++ c)) ⟨0, []⟩).1 = _
    rw [hrun]
  rw [chunkData_of_head hm (at_append_iff.1 hat).1, heval]

/-- A raw chunk that looks wrapped loses its head and what follows the string, or the device panics. -/
theorem chunkData_of_looksWrapped (hfits : c.length ≤ sliceMax) (h : LooksWrapped c) :
    chunkData c = .panic ∨ ∃ s, chunkData c = .ok s ∧ s.length < c.length := by
  obtain ⟨k, hm, hat, hend⟩ := h
  have h28 : additional k.initial < 28 := k.defined.resolve_right (by unfold Head.IsMajor at hm; omega)
  have hpos := k.bytes_pos
  have hkend := hat.end_le
  rw [Nat.zero_add] at hkend
  by_cases hin : k.bytes.length + k.arg ≤ c.length
  · obtain ⟨s, hs, hlen⟩ := exists_at hin
    have hread := readBytes_reads (at_append_iff.2 ⟨hat, by rwa [Nat.zero_add]⟩) hm h28 hlen
      (by simp only [List.length_append, sliceMax, wordSize] at hfits ⊢; omega)
    obtain ⟨log, hrun⟩ := hread []
    have heval : Dec.eval (Dec.readBytes c) = .ok s := by
      change ((Dec.readBytes c) ⟨0, []⟩).1 = _
      rw [hrun]
    exact .inr ⟨s, by rw [chunkData_of_head hm hat, heval], by omega⟩
  · have hwrap := hend.resolve_left hin
    obtain ⟨log, hhead⟩ := readHead_reads (m := 2)
      (e := fun m => cborErr s!"expected bstr, got major type {m}") hat hm h28
      (by simp only [sliceMax, wordSize] at hfits ⊢; omega) []
    have harg : k.arg < wordSize := k.arg_lt
    have heval : Dec.eval (Dec.readBytes c) = .panic := by
      change ((Dec.readBytes c) ⟨0, []⟩).1 = _
      have hcontent := Cur.content_of_wraps (s := ⟨0 + k.bytes.length, log⟩)
        (e := fun pos => cborErr
          s!"bstr length exceeds data: declared {k.arg} at pos {pos}, only {c.length - pos} available")
        hfits harg (by simpa using hkend) (by simpa using hwrap)
      rw [Dec.readBytes, bind_of_ok hhead]
      exact congrArg Prod.fst (bind_of_panic (eq_of_fst hcontent))
    exact .inl (by rw [chunkData_of_head hm hat, heval])

/-- A chunk that does not look wrapped is taken as it is. -/
theorem chunkData_of_not_looksWrapped (hfits : c.length ≤ sliceMax) (h : ¬LooksWrapped c) : chunkData c = .ok c := by
  by_cases hfirst : c.head?.any (fun b => major b = 2) = true
  · rw [chunkData, if_pos hfirst]
    have hread : ∃ e, Dec.eval (Dec.readBytes c) = .err e := by
      change ∃ e, ((Dec.readBytes c) Cur.start).1 = _
      rw [Dec.readBytes]
      rcases cases_of_returns (readHead_returns c 2 (fun m => cborErr s!"expected bstr, got major type {m}") Cur.start) with
        ⟨len, s, hhead⟩ | ⟨e, s, hhead⟩
      · obtain ⟨k, hm, hat, rfl, hpos⟩ := readHead_ok hfits hhead
        have hk : ¬(k.bytes.length + k.arg ≤ c.length ∨ wordSize ≤ k.bytes.length + k.arg) := fun hend => h ⟨k, hm, hat, hend⟩
        have hpos' : s.pos = k.bytes.length := by rw [hpos, Cur.start, Nat.zero_add]
        have hlong : c.length < s.pos + k.arg := by omega
        have hno : s.pos + k.arg < wordSize := by omega
        rw [bind_of_ok hhead]
        have hcontent := Cur.content_of_too_long
          (e := fun pos => cborErr
            s!"bstr length exceeds data: declared {k.arg} at pos {pos}, only {c.length - pos} available")
          hlong hno
        exact ⟨_, congrArg Prod.fst (bind_of_err (eq_of_fst hcontent))⟩
      · exact ⟨e, by rw [bind_of_err hhead]⟩
    obtain ⟨e, he⟩ := hread
    rw [he]
  · rw [chunkData, if_neg hfirst]

/-! ## Any number of chunks -/

/-- The session after chunks with these contents. -/
def BmoSession.withData (s : BmoSession) (xs : List Bytes) : BmoSession :=
  { s with
    imageBuffer := s.imageBuffer ++ xs.flatten, chunksReceived := (s.chunksReceived + xs.length) % 2 ^ 32,
    bytesReceived := (s.bytesReceived + xs.flatten.length) % 2 ^ 64 }

variable {Γ : Ctx} {fuel : Nat} {owner : Option Bytes} {peer : PeerAuthority} {guid : Option Bytes} {s t : BmoSession}

/-- The key of an `image-data` message is the key of nothing else. -/
theorem processBmoMessage_data {m : BmoMessage} (hkey : bmoKeyImageData.isPrefixOf m.key = true) :
    processBmoMessage Γ fuel owner peer guid m = imageData m := by
  have hbegin : m.key ≠ bmoKeyImageBegin := by
    intro h
    rw [h] at hkey
    exact absurd hkey (by decide)
  rw [processBmoMessage, if_neg hbegin, if_pos hkey]

/-- A chunk is added to the session that waits for it. -/
theorem imageData_of_chunk {m : BmoMessage} {x : Bytes} (hs : s.state = .awaitingData) (hx : chunkData m.value = .ok x) :
    imageData m s = (.ok none, s.withData [x]) := by
  rw [imageData, bind_of_ok (getS_apply s), if_neg (by simp [hs]), hx]
  simp only [BmoSession.withData, List.flatten_cons, List.flatten_nil, List.append_nil, List.length_singleton]
  rfl

/-- No chunks leave the session as it is. -/
theorem withData_nil (hc : s.chunksReceived < 2 ^ 32) (hb : s.bytesReceived < 2 ^ 64) : s.withData [] = s := by
  simp only [BmoSession.withData, List.flatten_nil, List.append_nil, List.length_nil, Nat.add_zero, Nat.mod_eq_of_lt hc,
    Nat.mod_eq_of_lt hb]

/-- Chunks are taken one after the other. -/
theorem withData_cons (x : Bytes) (xs : List Bytes) : (s.withData [x]).withData xs = s.withData (x :: xs) := by
  simp only [BmoSession.withData, List.flatten_cons, List.flatten_nil, List.append_nil, List.append_assoc,
    List.length_append, List.length_cons, List.length_nil, BmoSession.mk.injEq, true_and, and_true]
  omega

/-- What the chunks hold is added to the session, one after the other. -/
theorem processBmoMessages_data {ms : List BmoMessage} {xs : List Bytes} (hs : s.state = .awaitingData)
    (hc : s.chunksReceived < 2 ^ 32) (hb : s.bytesReceived < 2 ^ 64)
    (h : List.Forall₂ (fun m x => bmoKeyImageData.isPrefixOf m.key = true ∧ chunkData m.value = .ok x) ms xs) :
    processBmoMessages Γ fuel owner peer guid ms s = (.ok (), s.withData xs) := by
  induction h generalizing s with
  | nil => rw [processBmoMessages, pure_apply, withData_nil hc hb]
  | @cons m x ms xs hmx _ ih =>
    obtain ⟨hkey, hx⟩ := hmx
    have hnext := ih (s := s.withData [x]) hs (Nat.mod_lt _ (by decide)) (Nat.mod_lt _ (by decide))
    rw [processBmoMessages, processBmoMessage_data hkey, bind_of_ok (imageData_of_chunk hs hx), hnext, withData_cons]

/-- Chunks that were all taken each had a content. -/
theorem chunkData_of_run {ms : List BmoMessage} {u : Unit} (hs : s.state = .awaitingData)
    (hkeys : ∀ m ∈ ms, bmoKeyImageData.isPrefixOf m.key = true)
    (h : processBmoMessages Γ fuel owner peer guid ms s = (.ok u, t)) :
    ∃ xs, List.Forall₂ (fun m x => bmoKeyImageData.isPrefixOf m.key = true ∧ chunkData m.value = .ok x) ms xs := by
  induction ms generalizing s with
  | nil => exact ⟨[], .nil⟩
  | cons m ms ih =>
    have hkey := hkeys m (by simp)
    obtain ⟨r, s₁, hm, hrest⟩ := bind_ok_iff.1 h
    rw [processBmoMessage_data hkey] at hm
    have hx : ∃ x, chunkData m.value = .ok x := by
      simp only [imageData, bind_of_ok (getS_apply s), hs, ne_eq, not_true_eq_false, if_false] at hm
      obtain ⟨x, _, hx, -⟩ := bind_ok_iff.1 hm
      exact ⟨x, (ofOutcome_ok_iff.1 hx).1⟩
    obtain ⟨x, hx⟩ := hx
    rw [imageData_of_chunk hs hx] at hm
    obtain ⟨-, rfl⟩ := Prod.mk.inj hm
    obtain ⟨xs, hxs⟩ := ih (s := s.withData [x]) hs (fun m' hm' => hkeys m' (by simp [hm'])) hrest
    exact ⟨x :: xs, .cons ⟨hkey, hx⟩ hxs⟩

end FdoUefi
