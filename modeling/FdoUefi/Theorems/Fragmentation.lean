import FdoUefi.Lemmas.Tcp4

/-!
# A response in any chunks

A response that is received over TCP4 gives the same result however it is cut into chunks, unless the sum of the lengths of its headers
and its body wraps around: then the headers alone are taken for a complete response, and what of the body came with the end of the
headers is the body (`tcp4_fragmentation_iff`).
-/

namespace FdoUefi

open Prog

variable {β : Type} {buf : RxBuffer} {stream : Bytes} {cs : List Bytes} {h n len total : Nat}

/-- Whatever chunks the stream is received in, the result is the same. -/
def FragmentationFree (buf : RxBuffer) (result : List Bytes → Option β) (stream : Bytes) : Prop :=
  ∀ cs cs' : List Bytes, cs.flatten = stream → cs'.flatten = stream → Receivable buf buf.initial 0 cs →
    Receivable buf buf.initial 0 cs' → result cs = result cs'

/-- The buffer is full at `n` bytes before it grows. -/
def RxBuffer.Boundary (buf : RxBuffer) (n : Nat) : Prop := ∃ k, n = buf.initial + k * buf.grow

/-- The announced length makes the sum of the two lengths wrap around, there is something behind the headers, and the buffer does not
end where the headers do. -/
def WrapsAround (buf : RxBuffer) (stream : Bytes) : Prop :=
  ∃ h n, findHeaderEnd stream = some h ∧ extractContentLength (stream.take h) = some n ∧ wordSize ≤ h + n ∧ h < stream.length ∧
    ¬buf.Boundary h

/-- The headers of the response have the status 200 in their first line. -/
def StatusOk (stream : Bytes) : Prop := ∀ h, findHeaderEnd stream = some h → statusOk (stream.take h) = true

namespace Aux

/-! ### The buffer -/

/-- The buffer has a length that it grows through, the first one that holds what was received. -/
structure Fits (buf : RxBuffer) (len total : Nat) : Prop where
  le : total ≤ len
  boundary : buf.Boundary len
  least : ∀ m, buf.Boundary m → total < m → len ≤ m

/-- An empty buffer fits. -/
theorem Fits.start : Fits buf buf.initial 0 where
  le := Nat.zero_le _
  boundary := ⟨0, by omega⟩
  least := by
    rintro m ⟨k, rfl⟩ -
    exact Nat.le_add_right _ _

/-- Before a receive the buffer has room, up to the next length that it grows through. -/
theorem Fits.grown (hg : 0 < buf.grow) (hfits : Fits buf len total) :
    total < buf.grown len total ∧ buf.Boundary (buf.grown len total) ∧
      ∀ m, buf.Boundary m → total < m → buf.grown len total ≤ m := by
  obtain ⟨hle, ⟨k, rfl⟩, hleast⟩ := hfits
  unfold RxBuffer.grown
  by_cases hfull : buf.initial + k * buf.grow - total = 0
  · rw [if_pos hfull]
    refine ⟨by omega, ⟨k + 1, by rw [Nat.succ_mul]; omega⟩, ?_⟩
    rintro m ⟨j, rfl⟩ hm
    have hkj : k < j := by
      by_contra hjk
      have := Nat.mul_le_mul_right buf.grow (Nat.le_of_not_lt hjk)
      omega
    have := Nat.mul_le_mul_right buf.grow hkj
    rw [Nat.succ_mul] at this
    omega
  · rw [if_neg hfull]
    exact ⟨by omega, ⟨k, rfl⟩, hleast⟩

/-- The buffer still fits after a chunk. -/
theorem Fits.step (hg : 0 < buf.grow) {c : Nat} (hfits : Fits buf len total) (hc : total + c ≤ buf.grown len total) :
    Fits buf (buf.grown len total) (total + c) where
  le := hc
  boundary := (hfits.grown hg).2.1
  least := fun m hm hlt => (hfits.grown hg).2.2 m hm (by omega)

/-- Single bytes can always be received. -/
theorem receivable_singles (hg : 0 < buf.grow) {u : Bytes} (hfits : Fits buf len total)
    (hrest : ∀ len', Fits buf len' (total + u.length) → Receivable buf len' (total + u.length) cs) :
    Receivable buf len total (u.map (fun b => [b]) ++ cs) := by
  induction u generalizing len total with
  | nil => exact hrest len hfits
  | cons b u ih =>
    have hroom := (hfits.grown hg).1
    refine ⟨List.cons_ne_nil _ _, hroom, ih (hfits.step hg (c := 1) hroom) ?_⟩
    intro len' hfits'
    have heq : total + 1 + u.length = total + (b :: u).length := by
      rw [List.length_cons]
      omega
    rw [List.length_singleton, heq]
    exact hrest len' (heq ▸ hfits')

/-! ### Where the sum does not wrap around -/

/-- What the loop ends up with. -/
theorem receiveLoop_flatten (hmax : stream.length ≤ maxResponseBytes) (hcs : cs.flatten = stream) :
    receiveLoop [] cs <+: stream ∧ (receiveLoop [] cs = stream ∨ responseComplete (receiveLoop [] cs) = true) := by
  have hgather : receiveLoop [] cs = gather responseComplete [] cs := receiveLoop_eq_gather (by rw [List.nil_append, hcs]; exact hmax)
  rw [hgather, ← hcs]
  exact ⟨gather_isPrefix, gather_eq_or_stop⟩

/-- Where the buffer ends with the headers, a chunk ends there, and the loop with it. -/
theorem receiveLoop_boundary (hg : 0 < buf.grow) (hmax : stream.length ≤ maxResponseBytes) (hf : findHeaderEnd stream = some h)
    (hc : extractContentLength (stream.take h) = some n) (hwrap : wordSize ≤ h + n) (hb : buf.Boundary h) {data : Bytes}
    (hdata : data ++ cs.flatten = stream) (hlt : data.length < h) (hfits : Fits buf len data.length)
    (hcs : Receivable buf len data.length cs) : receiveLoop data cs = stream.take h := by
  have hh := (findHeaderEnd_bounds hf).2
  have hsmall : h < wordSize := by
    have : maxResponseBytes < wordSize := by decide
    omega
  induction cs generalizing data len with
  | nil =>
    rw [List.flatten_nil, List.append_nil] at hdata
    rw [hdata] at hlt
    omega
  | cons c cs ih =>
    obtain ⟨-, hroom, hrest⟩ := hcs
    have hle : data.length + c.length ≤ h := hroom.trans ((hfits.grown hg).2.2 h hb hlt)
    have hpre : data ++ c <+: stream := by
      rw [← hdata, List.flatten_cons, ← List.append_assoc]
      exact List.prefix_append _ _
    have hcomplete := responseComplete_of_wrap hpre hf hc hwrap hsmall
    rw [List.length_append] at hcomplete
    rw [receiveLoop, if_neg (by omega)]
    by_cases hfull : h ≤ data.length + c.length
    · have hlen : (data ++ c).length = h := by
        rw [List.length_append]
        omega
      simp only [if_pos (hcomplete.2 hfull)]
      rw [← hlen]
      exact List.prefix_iff_eq_take.1 hpre
    · simp only [if_neg fun hp => hfull (hcomplete.1 hp)]
      have hfits' : Fits buf (buf.grown len data.length) (data ++ c).length := by
        rw [List.length_append]
        exact hfits.step hg hroom
      refine ih ?_ (by rw [List.length_append]; omega) hfits' ?_
      · rw [← hdata, List.flatten_cons, List.append_assoc]
      · rw [List.length_append]
        exact hrest

/-- Where nothing is behind the headers if the sum wraps around, what the loop ends up with is read like the whole. -/
theorem readResponse_receiveLoop (view : Bytes → Bytes → Option β) (hmax : stream.length ≤ maxResponseBytes)
    (hno : ∀ h n, findHeaderEnd stream = some h → extractContentLength (stream.take h) = some n → wordSize ≤ h + n → stream.length ≤ h)
    (hcs : cs.flatten = stream) : readResponse view (receiveLoop [] cs) = readResponse view stream := by
  obtain ⟨hpre, hend⟩ := receiveLoop_flatten hmax hcs
  rcases hend with heq | hcomplete
  · rw [heq]
  · obtain ⟨h, n, hfu, hcu, -⟩ := responseComplete_iff.1 hcomplete
    obtain ⟨hf, hh⟩ := (findHeaderEnd_prefix_iff hpre).1 hfu
    have hc : extractContentLength (stream.take h) = some n := by rw [← take_of_isPrefix hpre hh, hcu]
    by_cases hwrap : h + n < wordSize
    · exact readResponse_of_isPrefix view hpre hf hc hwrap hcomplete
    · have hle := hno h n hf hc (Nat.le_of_not_lt hwrap)
      rw [hpre.eq_of_length_le (hle.trans hh)]

/-- Without a sum that wraps around the result does not depend on the chunks. -/
theorem fragmentationFree_of_not_wraps (view : Bytes → Bytes → Option β) (hg : 0 < buf.grow) (hmax : stream.length ≤ maxResponseBytes)
    (hno : ¬WrapsAround buf stream) : FragmentationFree buf (fun cs => readResponse view (receiveLoop [] cs)) stream := by
  intro cs cs' hcs hcs' hr hr'
  by_cases hwraps : ∃ h n, findHeaderEnd stream = some h ∧ extractContentLength (stream.take h) = some n ∧ wordSize ≤ h + n ∧
      h < stream.length
  · obtain ⟨h, n, hf, hc, hwrap, hlt⟩ := hwraps
    have hb : buf.Boundary h := by
      by_contra hb
      exact hno ⟨h, n, hf, hc, hwrap, hlt, hb⟩
    have hpos : ([] : Bytes).length < h := Nat.lt_of_lt_of_le (by decide) (findHeaderEnd_bounds hf).1
    have hrun : receiveLoop [] cs = stream.take h := receiveLoop_boundary hg hmax hf hc hwrap hb hcs hpos Fits.start hr
    have hrun' : receiveLoop [] cs' = stream.take h := receiveLoop_boundary hg hmax hf hc hwrap hb hcs' hpos Fits.start hr'
    simp only [hrun, hrun']
  · have hall : ∀ h n, findHeaderEnd stream = some h → extractContentLength (stream.take h) = some n → wordSize ≤ h + n →
        stream.length ≤ h := by
      intro h n hf hc hwrap
      by_contra hlt
      exact hwraps ⟨h, n, hf, hc, hwrap, Nat.lt_of_not_le hlt⟩
    simp only [readResponse_receiveLoop view hmax hall hcs, readResponse_receiveLoop view hmax hall hcs']

/-! ### Where it does -/

/-- Headers that are received byte by byte but for the last one do not end the loop. -/
theorem receiveLoop_singles {u v : Bytes} {c : Bytes} (hmax : stream.length ≤ maxResponseBytes) (hf : findHeaderEnd stream = some h)
    (hc : extractContentLength (stream.take h) = some n) (hwrap : wordSize ≤ h + n) (hstream : u ++ (c ++ v) = stream)
    (hu : u.length < h) (huc : h ≤ (u ++ c).length) (hcs : cs.flatten = v) :
    receiveLoop [] (u.map (fun b => [b]) ++ c :: cs) = u ++ c := by
  have hsmall : h < wordSize := by
    have hmaxword : maxResponseBytes < wordSize := by decide
    have := (findHeaderEnd_bounds hf).2
    omega
  have hflat : (u.map (fun b => [b]) ++ c :: cs).flatten = stream := by
    rw [List.flatten_append, flatten_singles, List.flatten_cons, hcs, hstream]
  have hnone : ∀ w, w <+: [] ++ (u.map fun b => [b]).flatten → responseComplete w = false := by
    intro w hw
    rw [List.nil_append, flatten_singles] at hw
    have hpre : w <+: stream := hw.trans (hstream ▸ List.prefix_append u (c ++ v))
    have hle := hw.length_le
    rw [← Bool.not_eq_true, responseComplete_of_wrap hpre hf hc hwrap hsmall]
    omega
  have hpre : u ++ c <+: stream := by
    rw [← hstream, ← List.append_assoc]
    exact List.prefix_append _ _
  have hstop : responseComplete (u ++ c) = true := (responseComplete_of_wrap hpre hf hc hwrap hsmall).2 huc
  rw [receiveLoop_eq_gather (by rw [List.nil_append, hflat]; exact hmax), gather_append hnone, List.nil_append, flatten_singles]
  exact gather_of_stop hstop

/-- Two ways of cutting the stream up: one has a chunk that ends with the headers, one has a chunk that goes on for one byte. -/
theorem exists_chunks (hg : 0 < buf.grow) (hmax : stream.length ≤ maxResponseBytes) (hf : findHeaderEnd stream = some h)
    (hc : extractContentLength (stream.take h) = some n) (hwrap : wordSize ≤ h + n) (hlt : h < stream.length)
    (hb : ¬buf.Boundary h) {k : Nat} (hk : k = 1 ∨ k = 2) :
    ∃ cs : List Bytes, cs.flatten = stream ∧ Receivable buf buf.initial 0 cs ∧ receiveLoop [] cs = stream.take (h - 1 + k) := by
  have h4 := (findHeaderEnd_bounds hf).1
  have hsplit : stream.take (h - 1) ++ ((stream.drop (h - 1)).take k ++ stream.drop (h - 1 + k)) = stream := by
    rw [← List.drop_drop, List.take_append_drop, List.take_append_drop]
  have hlen : (stream.take (h - 1)).length = h - 1 := by
    rw [List.length_take]
    omega
  have hlenk : ((stream.drop (h - 1)).take k).length = k := by
    rw [List.length_take, List.length_drop]
    omega
  have hjoin : stream.take (h - 1) ++ (stream.drop (h - 1)).take k = stream.take (h - 1 + k) := (List.take_add).symm
  refine ⟨(stream.take (h - 1)).map (fun b => [b]) ++ (stream.drop (h - 1)).take k :: (stream.drop (h - 1 + k)).map fun b => [b], ?_, ?_,
    ?_⟩
  · rw [List.flatten_append, flatten_singles, List.flatten_cons, flatten_singles, hsplit]
  · refine receivable_singles hg Fits.start ?_
    intro len hfits
    obtain ⟨hroom, hgrown, -⟩ := hfits.grown hg
    have hne : buf.grown len (0 + (stream.take (h - 1)).length) ≠ h := by
      intro heq
      rw [heq] at hgrown
      exact hb hgrown
    have hfit : 0 + (stream.take (h - 1)).length + ((stream.drop (h - 1)).take k).length ≤
        buf.grown len (0 + (stream.take (h - 1)).length) := by
      rw [hlen] at hroom hne ⊢
      omega
    refine ⟨?_, hfit, ?_⟩
    · intro hnil
      rw [hnil, List.length_nil] at hlenk
      omega
    · rw [← List.append_nil ((stream.drop (h - 1 + k)).map _)]
      exact receivable_singles hg (hfits.step hg hfit) fun _ _ => trivial
  · rw [← hjoin]
    refine receiveLoop_singles hmax hf hc hwrap hsplit (by omega) ?_ (flatten_singles _)
    rw [List.length_append]
    omega

/-- Where the sum wraps around, the two ways give different bodies. -/
theorem not_fragmentationFree_of_wraps (view : Bytes → Bytes → Option β) (hg : 0 < buf.grow) (hmax : stream.length ≤ maxResponseBytes)
    (hwraps : WrapsAround buf stream)
    (hview : ∀ h n, findHeaderEnd stream = some h → extractContentLength (stream.take h) = some n → ∀ body body',
      view (stream.take h) body = view (stream.take h) body' → body = body') :
    ¬FragmentationFree buf (fun cs => readResponse view (receiveLoop [] cs)) stream := by
  obtain ⟨h, n, hf, hc, hwrap, hlt, hb⟩ := hwraps
  intro hfree
  obtain ⟨cs, hcs, hr, hrun⟩ := exists_chunks hg hmax hf hc hwrap hlt hb (k := 1) (.inl rfl)
  obtain ⟨cs', hcs', hr', hrun'⟩ := exists_chunks hg hmax hf hc hwrap hlt hb (k := 2) (.inr rfl)
  have h4 := (findHeaderEnd_bounds hf).1
  have heq := hfree cs cs' hcs hcs' hr hr'
  simp only [hrun, hrun'] at heq
  have hread : ∀ k, h ≤ k → k ≤ stream.length → readResponse view (stream.take k) = view (stream.take h) ((stream.take k).drop h) := by
    intro k hhk hks
    have hpre : stream.take k <+: stream := List.take_prefix _ _
    have hlen : (stream.take k).length = k := by
      rw [List.length_take]
      omega
    have hfu : findHeaderEnd (stream.take k) = some h := (findHeaderEnd_prefix_iff hpre).2 ⟨hf, by omega⟩
    have htake : (stream.take k).take h = stream.take h := take_of_isPrefix hpre (by omega)
    -- Less than the announced length is there, so that all of it is the body.
    have hbody : responseBody h (stream.take k) = (stream.take k).drop h := by
      have hmaxword : maxResponseBytes + maxResponseBytes < wordSize := by decide
      unfold responseBody
      simp only [htake, hc]
      rw [if_neg]
      rw [List.length_drop, hlen]
      omega
    simp only [readResponse, hfu, Option.bind_eq_bind, Option.bind_some, htake, hbody]
  rw [hread _ (by omega) (by omega), hread _ (by omega) (by omega)] at heq
  have hbodies := congrArg List.length (hview h n hf hc _ _ heq)
  simp only [List.length_drop, List.length_take] at hbodies
  omega

/-! ### The two results -/

/-- The response to a POST shows its body. -/
theorem postView_body {headers body body' : Bytes} (hutf8 : utf8Valid headers = true) (hne : headers ≠ [])
    (heq : postView headers body = postView headers body') : body = body' := by
  simp only [postView, if_pos hutf8] at heq
  cases hl : lines headers with
  | nil => exact absurd hl (lines_ne_nil hne)
  | cons first rest =>
    simp only [hl, Option.some.injEq] at heq
    have hbody := congrArg HttpPostResponse.body heq
    rwa [foldl_readHeaderLine_body, foldl_readHeaderLine_body] at hbody

/-- The response to a GET with a good status shows its body. -/
theorem getView_body {headers body body' : Bytes} (hstatus : statusOk headers = true)
    (heq : getView headers body = getView headers body') : body = body' := by
  simpa only [getView, if_pos hstatus, Option.some.injEq] using heq

/-- Another status than 200 is a failure, whatever has come of the body. -/
theorem readResponse_of_not_statusOk {u : Bytes} (hu : u <+: stream) (hf : findHeaderEnd stream = some h)
    (hstatus : statusOk (stream.take h) ≠ true) : readResponse getView u = none := by
  rw [readResponse_cut getView hu hf, getView, if_neg hstatus, ite_self]

/-- A POST does not depend on the chunks unless a length wraps around. -/
theorem post_free_iff (hmax : stream.length ≤ maxResponseBytes) :
    FragmentationFree postBuffer tcp4HttpPost stream ↔ ¬WrapsAround postBuffer stream := by
  have hpost : tcp4HttpPost = fun cs => readResponse postView (receiveLoop [] cs) := funext tcp4HttpPost_eq
  have hg : 0 < postBuffer.grow := by decide
  rw [hpost]
  constructor
  · intro hfree hwraps
    refine not_fragmentationFree_of_wraps postView hg hmax hwraps ?_ hfree
    intro h n hf hc body body' heq
    refine postView_body (extractContentLength_lt hc).2 ?_ heq
    intro hnil
    obtain ⟨h4, hle⟩ := findHeaderEnd_bounds hf
    have hlen := congrArg List.length hnil
    rw [List.length_take, List.length_nil] at hlen
    omega
  · exact fragmentationFree_of_not_wraps postView hg hmax

/-- A GET does not depend on the chunks unless a length wraps around under a good status. -/
theorem get_free_iff (hmax : stream.length ≤ maxResponseBytes) :
    FragmentationFree getBuffer tcp4HttpGet stream ↔ ¬(WrapsAround getBuffer stream ∧ StatusOk stream) := by
  have hget : tcp4HttpGet = fun cs => readResponse getView (receiveLoop [] cs) := funext tcp4HttpGet_eq
  have hg : 0 < getBuffer.grow := by decide
  rw [hget]
  constructor
  · rintro hfree ⟨hwraps, hstatus⟩
    refine not_fragmentationFree_of_wraps getView hg hmax hwraps ?_ hfree
    intro h n hf _ body body' heq
    exact getView_body (hstatus h hf) heq
  · intro hno
    by_cases hwraps : WrapsAround getBuffer stream
    · have hstatus : ¬StatusOk stream := fun hstatus => hno ⟨hwraps, hstatus⟩
      simp only [StatusOk, not_forall] at hstatus
      obtain ⟨h, hf, hstatus⟩ := hstatus
      intro cs cs' hcs hcs' _ _
      have hrun := readResponse_of_not_statusOk (receiveLoop_flatten hmax hcs).1 hf hstatus
      have hrun' := readResponse_of_not_statusOk (receiveLoop_flatten hmax hcs').1 hf hstatus
      simp only [hrun, hrun']
    · exact fragmentationFree_of_not_wraps getView hg hmax hwraps

end Aux

/-- The result of a POST and of a GET do not depend on the chunks that the response comes in, exactly when the sum of the two lengths
does not wrap around with something behind the headers; a GET with another status than 200 has no result in any case. -/
theorem tcp4_fragmentation_iff (stream : Bytes) (hmax : stream.length ≤ maxResponseBytes) :
    (FragmentationFree postBuffer tcp4HttpPost stream ∧ FragmentationFree getBuffer tcp4HttpGet stream) ↔
      ¬WrapsAround postBuffer stream ∧ ¬(WrapsAround getBuffer stream ∧ StatusOk stream) :=
  and_congr (Aux.post_free_iff hmax) (Aux.get_free_iff hmax)

/-! ## A length at the end of the machine words -/

/-- The headers of a response that announces `len` bytes. -/
def announcedHeaders (len : String) : Bytes :=
  utf8 "HTTP/1.1 200 OK" ++ [0x0D, 0x0A] ++ utf8 "Content-Length: " ++ utf8 len ++ headerTerminator

/-- A response of two bytes. -/
def shortResponse : Bytes := announcedHeaders "2" ++ utf8 "ok"

/-- The short response comes out the same in all chunks. -/
theorem shortResponse_free :
    tcp4HttpPost [shortResponse] = some ⟨utf8 "ok", none, none⟩ ∧
      FragmentationFree postBuffer tcp4HttpPost shortResponse ∧ FragmentationFree getBuffer tcp4HttpGet shortResponse := by
  have hno : ∀ buf, ¬WrapsAround buf shortResponse := by
    rintro buf ⟨h, n, hf, hc, hwrap, -⟩
    have hfind : findHeaderEnd shortResponse = some 38 := by decide
    obtain rfl : 38 = h := Option.some.inj (hfind.symm.trans hf)
    have hlength : extractContentLength (shortResponse.take 38) = some 2 := by decide +kernel
    obtain rfl : 2 = n := Option.some.inj (hlength.symm.trans hc)
    exact absurd hwrap (by decide)
  have hfree := (tcp4_fragmentation_iff shortResponse (by decide)).2 ⟨hno _, fun hboth => hno _ hboth.1⟩
  exact ⟨by decide +kernel, hfree⟩

/-- A response that announces 2^64 - 1 bytes and sends two. -/
def hugeResponse : Bytes := announcedHeaders "18446744073709551615" ++ utf8 "ok"

/-- In one chunk it has a body of two bytes; in two chunks, the first of which is the headers, it has none. -/
theorem hugeResponse_not_free :
    ¬(FragmentationFree postBuffer tcp4HttpPost hugeResponse ∧ FragmentationFree getBuffer tcp4HttpGet hugeResponse) := by
  rintro ⟨hpost, -⟩
  have hone : Receivable postBuffer postBuffer.initial 0 [hugeResponse] := ⟨by decide, by decide, trivial⟩
  have htwo : Receivable postBuffer postBuffer.initial 0 [announcedHeaders "18446744073709551615", utf8 "ok"] :=
    ⟨by decide, by decide, by decide, by decide, trivial⟩
  have heq := hpost [hugeResponse] [announcedHeaders "18446744073709551615", utf8 "ok"] (by decide +kernel) (by decide +kernel) hone htwo
  have hne : tcp4HttpPost [hugeResponse] ≠ tcp4HttpPost [announcedHeaders "18446744073709551615", utf8 "ok"] := by decide +kernel
  exact hne heq

end FdoUefi
