import FdoUefi.Theorems.Fragmentation

/-!
# Responses that are cut short

Where the connection ends before the announced length is there, the part of the body that came is returned as the body: only a
response that is received as a whole has a body of the announced length.
-/

namespace FdoUefi

open Prog

/-- How many bytes the chunks have in all, up to the one that exceeds `MAX_RESPONSE_BYTES`, after `total` bytes. -/
def cappedLength (total : Nat) : List Bytes → Nat
  | [] => total
  | chunk :: rest => if maxResponseBytes < total then total else cappedLength (total + chunk.length) rest

/-- A body has `n` bytes, if there is one. -/
def WholeBody (n : Nat) (body : Option Bytes) : Prop := ∀ b, body = some b → b.length = n

namespace Aux

variable {data : Bytes} {cs : List Bytes} {h n total : Nat}

/-- What was received stays received. -/
theorem le_cappedLength (total : Nat) (cs : List Bytes) : total ≤ cappedLength total cs := by
  induction cs generalizing total with
  | nil => exact Nat.le_refl total
  | cons c cs ih =>
    rw [cappedLength]
    split
    · exact Nat.le_refl total
    · have := ih (total + c.length)
      omega

/-- A chunk has less than 2^32 bytes, so no length comes near 2^64. -/
theorem cappedLength_lt (htotal : total ≤ maxResponseBytes + 2 ^ 32) (hsize : ∀ c ∈ cs, c.length < 2 ^ 32) :
    cappedLength total cs < wordSize := by
  have hmax : maxResponseBytes + 2 ^ 32 < wordSize := by decide
  induction cs generalizing total with
  | nil => exact Nat.lt_of_le_of_lt htotal hmax
  | cons c cs ih =>
    have hc := hsize c (by simp)
    rw [cappedLength]
    split
    · omega
    · exact ih (by omega) fun c' hc' => hsize c' (by simp [hc'])

/-- The loop takes what there is, up to the sanity bound, or it stops with a complete response. -/
theorem receiveLoop_length (data : Bytes) (cs : List Bytes) :
    (receiveLoop data cs).length ≤ cappedLength data.length cs ∧
      ((receiveLoop data cs).length = cappedLength data.length cs ∨ responseComplete (receiveLoop data cs) = true) := by
  induction cs generalizing data with
  | nil => exact ⟨Nat.le_refl _, .inl rfl⟩
  | cons c cs ih =>
    rw [receiveLoop, cappedLength]
    by_cases hmax : maxResponseBytes < data.length
    · rw [if_pos hmax, if_pos hmax]
      exact ⟨Nat.le_refl _, .inl rfl⟩
    · rw [if_neg hmax, if_neg hmax, ← List.length_append]
      dsimp only
      by_cases hcomplete : responseComplete (data ++ c) = true
      · rw [if_pos hcomplete]
        exact ⟨le_cappedLength _ cs, .inr hcomplete⟩
      · rw [if_neg hcomplete]
        exact ih (data ++ c)

/-- The headers are received when they are among what there is, and the whole response when all of it is. -/
theorem le_receiveLoop_length_iff (hsize : ∀ c ∈ cs, c.length < 2 ^ 32) (hf : findHeaderEnd cs.flatten = some h)
    (hc : extractContentLength (cs.flatten.take h) = some n) :
    (h ≤ (receiveLoop [] cs).length ↔ h ≤ cappedLength 0 cs) ∧ (h + n ≤ (receiveLoop [] cs).length ↔ h + n ≤ cappedLength 0 cs) := by
  have hpre : receiveLoop [] cs <+: cs.flatten := receiveLoop_isPrefix
  have hlt : cappedLength 0 cs < wordSize := cappedLength_lt (Nat.zero_le _) hsize
  obtain ⟨hle, hend⟩ := receiveLoop_length [] cs
  rw [List.length_nil] at hle hend
  rcases hend with heq | hcomplete
  · rw [heq]
    exact ⟨Iff.rfl, Iff.rfl⟩
  · obtain ⟨hh, hsum⟩ := (responseComplete_prefix_iff hpre hf hc).1 hcomplete
    refine ⟨⟨fun _ => by omega, fun _ => hh⟩, ⟨fun _ => by omega, ?_⟩⟩
    intro hwhole
    rwa [Nat.mod_eq_of_lt (by omega)] at hsum

/-- What `view` makes of the response, where it keeps the body. -/
theorem wholeBody_iff {β : Type} {view : Bytes → Bytes → Option β} {body : β → Bytes} (hsize : ∀ c ∈ cs, c.length < 2 ^ 32)
    (hf : findHeaderEnd cs.flatten = some h) (hc : extractContentLength (cs.flatten.take h) = some n)
    (hview : ∀ b, ∃ r, view (cs.flatten.take h) b = some r ∧ body r = b) :
    WholeBody n ((readResponse view (receiveLoop [] cs)).map body) ↔ cappedLength 0 cs < h ∨ h + n ≤ cappedLength 0 cs := by
  have hpre : receiveLoop [] cs <+: cs.flatten := receiveLoop_isPrefix
  obtain ⟨hheaders, hwhole⟩ := le_receiveLoop_length_iff hsize hf hc
  rw [readResponse_cut view hpre hf]
  by_cases hle : h ≤ (receiveLoop [] cs).length
  · obtain ⟨r, hr, hbody⟩ := hview (responseBody h (receiveLoop [] cs))
    have hlen : (responseBody h (receiveLoop [] cs)).length = min n ((receiveLoop [] cs).length - h) :=
      responseBody_length (by rw [take_of_isPrefix hpre hle, hc])
    have hin := hheaders.1 hle
    rw [if_pos hle, hr, ← hwhole]
    simp only [WholeBody, Option.map_some, Option.some.injEq, forall_eq', hbody, hlen]
    omega
  · have hout : cappedLength 0 cs < h := Nat.lt_of_not_le fun hin => hle (hheaders.2 hin)
    rw [if_neg hle]
    simp [WholeBody, hout]

end Aux

/-- The stream in `chunks` has headers of `h` bytes that announce `n` bytes. The body that is returned has `n` bytes exactly when
headers and body are received as a whole, when not even the headers are, or when a GET is refused for its status. -/
theorem tcp4_wholeBody_iff (chunks : List Bytes) (h n : Nat) (hsize : ∀ c ∈ chunks, c.length < 2 ^ 32)
    (hf : findHeaderEnd chunks.flatten = some h) (hc : extractContentLength (chunks.flatten.take h) = some n) :
    (WholeBody n ((tcp4HttpPost chunks).map HttpPostResponse.body) ↔
        cappedLength 0 chunks < h ∨ h + n ≤ cappedLength 0 chunks) ∧
      (WholeBody n (tcp4HttpGet chunks) ↔
        statusOk (chunks.flatten.take h) ≠ true ∨ cappedLength 0 chunks < h ∨ h + n ≤ cappedLength 0 chunks) := by
  have hne : chunks.flatten.take h ≠ [] := by
    obtain ⟨h4, hle⟩ := findHeaderEnd_bounds hf
    refine List.ne_nil_of_length_pos ?_
    rw [List.length_take]
    omega
  rw [tcp4HttpPost_eq, tcp4HttpGet_eq]
  constructor
  · exact Aux.wholeBody_iff hsize hf hc (postView_eq_some (extractContentLength_lt hc).2 hne)
  · by_cases hstatus : statusOk (chunks.flatten.take h) = true
    · have hview (b : Bytes) : ∃ r, getView (chunks.flatten.take h) b = some r ∧ id r = b := ⟨b, if_pos hstatus, rfl⟩
      have hget := Aux.wholeBody_iff hsize hf hc hview
      rw [Option.map_id, id] at hget
      rw [hget]
      simp [hstatus]
    · rw [Aux.readResponse_of_not_statusOk receiveLoop_isPrefix hf hstatus]
      simp [WholeBody, hstatus]

/-- A response of two bytes in two chunks, cut inside its headers, and received as a whole. -/
theorem shortResponse_wholeBody :
    WholeBody 2 ((tcp4HttpPost [shortResponse.take 20, shortResponse.drop 20]).map HttpPostResponse.body) ∧
      WholeBody 2 (tcp4HttpGet [shortResponse.take 20, shortResponse.drop 20]) := by
  have hall := tcp4_wholeBody_iff [shortResponse.take 20, shortResponse.drop 20] 38 2 (by decide) (by decide)
    (by decide +kernel)
  exact ⟨hall.1.2 (.inr (by decide)), hall.2.2 (.inr (.inr (by decide)))⟩

/-- Two bytes of a body of five, and the connection ends. -/
def cutResponse : Bytes := announcedHeaders "5" ++ utf8 "ok"

/-- The two bytes that arrive of a body of five are taken for the body. -/
theorem cutResponse_not_wholeBody :
    findHeaderEnd cutResponse = some 38 ∧ extractContentLength (cutResponse.take 38) = some 5 ∧
      ¬WholeBody 5 ((tcp4HttpPost [cutResponse]).map HttpPostResponse.body) ∧ ¬WholeBody 5 (tcp4HttpGet [cutResponse]) := by
  have hresult : (tcp4HttpPost [cutResponse]).map HttpPostResponse.body = some (utf8 "ok") ∧
      tcp4HttpGet [cutResponse] = some (utf8 "ok") := by decide +kernel
  refine ⟨by decide, by decide +kernel, ?_, ?_⟩
  · intro hwhole
    exact absurd (hwhole _ hresult.1) (by decide)
  · intro hwhole
    exact absurd (hwhole _ hresult.2) (by decide)

end FdoUefi
