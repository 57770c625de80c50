import FdoUefi.Tcp4

/-!
# Responses received in chunks

Where the headers of a response end does not change when more of it arrives, so what a receive loop decides on a part of a response
is decided by the whole of it and the length of the part.
-/

namespace FdoUefi

open Prog

variable {u t s : Bytes} {h n : Nat}

/-! ## The end of the headers -/

/-- The headers have at least four bytes and end within the response. -/
theorem findHeaderEnd_bounds (hf : findHeaderEnd u = some h) : 4 ≤ h ∧ h ≤ u.length := by
  induction u generalizing h with
  | nil => cases hf
  | cons b u ih =>
    rw [findHeaderEnd] at hf
    by_cases hpre : headerTerminator.isPrefixOf (b :: u) = true
    · rw [if_pos hpre, Option.some.injEq] at hf
      have hle := (List.isPrefixOf_iff_prefix.1 hpre).length_le
      have hlen : headerTerminator.length = 4 := rfl
      omega
    · rw [if_neg hpre] at hf
      obtain ⟨k, hk, rfl⟩ := Option.map_eq_some_iff.1 hf
      have := ih hk
      rw [List.length_cons]
      omega

/-- The headers of a part end where those of the whole do, if that much of them is there. -/
theorem findHeaderEnd_append_iff : findHeaderEnd u = some h ↔ findHeaderEnd (u ++ t) = some h ∧ h ≤ u.length := by
  have hlen : headerTerminator.length = 4 := rfl
  induction u generalizing h with
  | nil =>
    constructor
    · intro hf
      cases hf
    · rintro ⟨hf, hle⟩
      have := (findHeaderEnd_bounds hf).1
      rw [List.length_nil] at hle
      omega
  | cons b u ih =>
    rw [List.cons_append, findHeaderEnd, findHeaderEnd]
    by_cases hpre : headerTerminator <+: b :: u
    · have hpre' : headerTerminator <+: b :: (u ++ t) := hpre.trans (List.prefix_append (b :: u) t)
      have hle := hpre.length_le
      rw [if_pos (List.isPrefixOf_iff_prefix.2 hpre), if_pos (List.isPrefixOf_iff_prefix.2 hpre')]
      constructor
      · intro hf
        rw [Option.some.injEq] at hf
        exact ⟨congrArg some hf, by omega⟩
      · exact And.left
    · rw [if_neg fun hp => hpre (List.isPrefixOf_iff_prefix.1 hp)]
      by_cases hpre' : headerTerminator <+: b :: (u ++ t)
      · -- The terminator ends behind the part, so that the part is shorter than it.
        have hshort : (b :: u).length < 4 := by
          by_contra hlong
          exact hpre (List.prefix_of_prefix_length_le hpre' (List.prefix_append (b :: u) t) (by omega))
        rw [if_pos (List.isPrefixOf_iff_prefix.2 hpre')]
        constructor
        · intro hf
          obtain ⟨k, hk, rfl⟩ := Option.map_eq_some_iff.1 hf
          have := findHeaderEnd_bounds hk
          rw [List.length_cons] at hshort
          omega
        · rintro ⟨hf, hle⟩
          rw [Option.some.injEq] at hf
          omega
      · rw [if_neg fun hp => hpre' (List.isPrefixOf_iff_prefix.1 hp)]
        constructor
        · intro hf
          obtain ⟨k, hk, rfl⟩ := Option.map_eq_some_iff.1 hf
          obtain ⟨hk', hle⟩ := ih.1 hk
          exact ⟨Option.map_eq_some_iff.2 ⟨k, hk', rfl⟩, Nat.succ_le_succ hle⟩
        · rintro ⟨hf, hle⟩
          obtain ⟨k, hk, rfl⟩ := Option.map_eq_some_iff.1 hf
          exact Option.map_eq_some_iff.2 ⟨k, ih.2 ⟨hk, Nat.le_of_succ_le_succ hle⟩, rfl⟩

/-- The headers end in a beginning of the stream exactly if they end there in the stream. -/
theorem findHeaderEnd_prefix_iff (hu : u <+: s) : findHeaderEnd u = some h ↔ findHeaderEnd s = some h ∧ h ≤ u.length := by
  obtain ⟨t, rfl⟩ := hu
  exact findHeaderEnd_append_iff

/-- A beginning of a beginning is one of the stream. -/
theorem take_of_isPrefix {k : Nat} (hu : u <+: s) (hk : k ≤ u.length) : u.take k = s.take k := by
  obtain ⟨t, rfl⟩ := hu
  rw [List.take_append_of_le_length hk]

/-! ## Content-Length -/

/-- Digits that are accepted make a number in range. -/
theorem parseDigits_lt {bits acc v : Nat} {ds : Bytes} (hacc : acc < 2 ^ bits) (hp : parseDigits bits acc ds = some v) : v < 2 ^ bits := by
  induction ds generalizing acc with
  | nil =>
    rw [parseDigits, Option.some.injEq] at hp
    rwa [← hp]
  | cons b ds ih =>
    rw [parseDigits] at hp
    by_cases hb : (0x30 ≤ b && b ≤ 0x39) = true
    · rw [if_pos hb] at hp
      by_cases hv : acc * 10 + (b.toNat - 0x30) < 2 ^ bits
      · simp only [if_pos hv] at hp
        exact ih hv hp
      · simp only [if_neg hv] at hp
        cases hp
    · rw [if_neg hb] at hp
      cases hp

/-- A number that is parsed is in range. -/
theorem parseUnsigned_lt {bits v : Nat} {val : Bytes} (hp : parseUnsigned bits val = some v) : v < 2 ^ bits := by
  unfold parseUnsigned at hp
  generalize (if val.head? = some 0x2B then val.tail else val) = digits at hp
  by_cases hnil : digits = []
  · simp only [if_pos hnil] at hp
    cases hp
  · simp only [if_neg hnil] at hp
    exact parseDigits_lt (Nat.two_pow_pos bits) hp

/-- A length that is announced is a machine word. -/
theorem contentLengthLine_lt {ls : List Bytes} (hc : contentLengthLine ls = some n) : n < wordSize := by
  induction ls with
  | nil => cases hc
  | cons line ls ih =>
    rw [contentLengthLine] at hc
    by_cases hline : startsWithLower (utf8 "content-length:") line = true
    · rw [if_pos hline] at hc
      obtain ⟨val, -, hval⟩ := Option.bind_eq_some_iff.1 hc
      exact parseUnsigned_lt hval
    · rw [if_neg hline] at hc
      exact ih hc

/-- The length that headers announce is a machine word, since the headers are a text. -/
theorem extractContentLength_lt {headers : Bytes} (hc : extractContentLength headers = some n) :
    n < wordSize ∧ utf8Valid headers = true := by
  unfold extractContentLength at hc
  by_cases hutf8 : utf8Valid headers = true
  · rw [if_pos hutf8] at hc
    exact ⟨contentLengthLine_lt hc, hutf8⟩
  · rw [if_neg hutf8] at hc
    cases hc

/-! ## Complete responses -/

/-- A response is complete when headers and body are there, computed in machine words. -/
theorem responseComplete_iff : responseComplete u = true ↔
    ∃ h n, findHeaderEnd u = some h ∧ extractContentLength (u.take h) = some n ∧ (h + n) % wordSize ≤ u.length := by
  unfold responseComplete
  cases hf : findHeaderEnd u with
  | none => simp
  | some h =>
    simp only [Option.some.injEq]
    cases hc : extractContentLength (u.take h) with
    | none => simp [hc]
    | some n => simp [hc]

/-- A part of a response is complete when its headers are there and the sum of the two lengths, as it comes out. -/
theorem responseComplete_prefix_iff (hu : u <+: s) (hf : findHeaderEnd s = some h) (hc : extractContentLength (s.take h) = some n) :
    responseComplete u = true ↔ h ≤ u.length ∧ (h + n) % wordSize ≤ u.length := by
  rw [responseComplete_iff]
  constructor
  · rintro ⟨h', n', hf', hc', hle⟩
    obtain ⟨hs, hh⟩ := (findHeaderEnd_prefix_iff hu).1 hf'
    obtain rfl : h = h' := Option.some.inj (hf.symm.trans hs)
    rw [take_of_isPrefix hu hh] at hc'
    obtain rfl : n = n' := Option.some.inj (hc.symm.trans hc')
    exact ⟨hh, hle⟩
  · rintro ⟨hh, hle⟩
    exact ⟨h, n, (findHeaderEnd_prefix_iff hu).2 ⟨hf, hh⟩, by rw [take_of_isPrefix hu hh, hc], hle⟩

/-- Where the sum wraps around, complete headers are enough. -/
theorem responseComplete_of_wrap (hu : u <+: s) (hf : findHeaderEnd s = some h) (hc : extractContentLength (s.take h) = some n)
    (hwrap : wordSize ≤ h + n) (hsmall : h < wordSize) : responseComplete u = true ↔ h ≤ u.length := by
  have hn := (extractContentLength_lt hc).1
  have hmod : (h + n) % wordSize = h + n - wordSize := by
    rw [Nat.mod_eq_sub_mod hwrap]
    exact Nat.mod_eq_of_lt (by omega)
  rw [responseComplete_prefix_iff hu hf hc, hmod]
  constructor
  · exact And.left
  · intro hle
    exact ⟨hle, by omega⟩

/-! ## What is read from a response -/

/-- What `view` says of the headers and the body of a response. -/
def readResponse {β : Type} (view : Bytes → Bytes → Option β) (data : Bytes) : Option β := do
  let headerEnd ← findHeaderEnd data
  view (data.take headerEnd) (responseBody headerEnd data)

/-- The headers and the body of the response to a POST. -/
def postView (headers body : Bytes) : Option HttpPostResponse :=
  if utf8Valid headers then
    match lines headers with
    | [] => none
    | _ :: rest => some (rest.foldl readHeaderLine ⟨body, none, none⟩)
  else none

/-- The headers and the body of the response to a GET. -/
def getView (headers body : Bytes) : Option Bytes := if statusOk headers then some body else none

/-- A POST reads the response from what was received. -/
theorem tcp4HttpPost_eq (cs : List Bytes) : tcp4HttpPost cs = readResponse postView (receiveLoop [] cs) := by
  unfold tcp4HttpPost
  by_cases hnil : receiveLoop [] cs = []
  · rw [hnil]
    rfl
  · rw [if_neg hnil]
    rfl

/-- A GET reads the response from what was received. -/
theorem tcp4HttpGet_eq (cs : List Bytes) : tcp4HttpGet cs = readResponse getView (receiveLoop [] cs) := by
  unfold tcp4HttpGet
  by_cases hnil : receiveLoop [] cs = []
  · rw [hnil]
    rfl
  · rw [if_neg hnil]
    rfl

/-! ## The two results -/

/-- A text that is not empty has a line. -/
theorem lines_ne_nil {s : Bytes} (hs : s ≠ []) : lines s ≠ [] := by
  have hfrom : ∀ (rest line : Bytes), line ≠ [] ∨ rest ≠ [] → linesFrom line rest ≠ [] := by
    intro rest
    induction rest with
    | nil =>
      intro line hne
      have hline : line ≠ [] := hne.resolve_right fun hn => hn rfl
      rw [linesFrom, if_neg hline]
      exact List.cons_ne_nil _ _
    | cons b rest ih =>
      intro line _
      rw [linesFrom]
      by_cases hb : b = 0x0A
      · rw [if_pos hb]
        exact List.cons_ne_nil _ _
      · rw [if_neg hb]
        exact ih _ (.inl (by simp))
  exact hfrom s [] (.inr hs)

/-- The lines of the headers leave the body as it is. -/
theorem foldl_readHeaderLine_body (ls : List Bytes) (resp : HttpPostResponse) : (ls.foldl readHeaderLine resp).body = resp.body := by
  induction ls generalizing resp with
  | nil => rfl
  | cons line ls ih =>
    rw [List.foldl_cons, ih]
    unfold readHeaderLine
    split
    · split <;> rfl
    · split
      · split <;> rfl
      · rfl

/-- A POST whose headers are text has a result, with the body as it is. -/
theorem postView_eq_some {headers : Bytes} (hutf8 : utf8Valid headers = true) (hne : headers ≠ []) (body : Bytes) :
    ∃ resp, postView headers body = some resp ∧ resp.body = body := by
  simp only [postView, if_pos hutf8]
  cases hl : lines headers with
  | nil => exact absurd hl (lines_ne_nil hne)
  | cons first rest => exact ⟨_, rfl, foldl_readHeaderLine_body rest _⟩

/-- A body has the announced length, or what there is when that is less. -/
theorem responseBody_length (hc : extractContentLength (u.take h) = some n) : (responseBody h u).length = min n (u.length - h) := by
  unfold responseBody
  simp only [hc, List.length_drop]
  split
  · rw [List.length_take, List.length_drop]
  · rw [List.length_drop]
    omega

/-- What is read from a part of a response: nothing from less than the headers. -/
theorem readResponse_cut {β : Type} (view : Bytes → Bytes → Option β) (hu : u <+: s) (hf : findHeaderEnd s = some h) :
    readResponse view u = if h ≤ u.length then view (s.take h) (responseBody h u) else none := by
  unfold readResponse
  by_cases hle : h ≤ u.length
  · rw [if_pos hle, (findHeaderEnd_prefix_iff hu).2 ⟨hf, hle⟩, ← take_of_isPrefix hu hle]
    rfl
  · rw [if_neg hle]
    cases hfu : findHeaderEnd u with
    | none => rfl
    | some h' =>
      obtain ⟨hf', hle'⟩ := (findHeaderEnd_prefix_iff hu).1 hfu
      obtain rfl : h = h' := Option.some.inj (hf.symm.trans hf')
      exact absurd hle' hle

/-- A body of which the announced length is there is the same for every part that has it. -/
theorem responseBody_of_isPrefix (hu : u <+: s) (hc : extractContentLength (s.take h) = some n) (hle : h + n ≤ u.length) :
    responseBody h u = responseBody h s := by
  have htake : u.take h = s.take h := take_of_isPrefix hu (by omega)
  obtain ⟨t, rfl⟩ := hu
  unfold responseBody
  simp only [htake, hc, List.length_drop, List.length_append]
  rw [if_pos (by omega), if_pos (by omega), List.drop_append_of_le_length (by omega),
    List.take_append_of_le_length (by rw [List.length_drop]; omega)]

/-- A complete part of a response is read like the whole, if the sum of the two lengths does not wrap around. -/
theorem readResponse_of_isPrefix {β : Type} (view : Bytes → Bytes → Option β) (hu : u <+: s) (hf : findHeaderEnd s = some h)
    (hc : extractContentLength (s.take h) = some n) (hwrap : h + n < wordSize) (hcomplete : responseComplete u = true) :
    readResponse view u = readResponse view s := by
  obtain ⟨hh, hle⟩ := (responseComplete_prefix_iff hu hf hc).1 hcomplete
  rw [Nat.mod_eq_of_lt hwrap] at hle
  have hfu : findHeaderEnd u = some h := (findHeaderEnd_prefix_iff hu).2 ⟨hf, hh⟩
  simp only [readResponse, hfu, hf, Option.bind_eq_bind, Option.bind_some]
  rw [take_of_isPrefix hu hh, responseBody_of_isPrefix hu hc hle]

/-! ## The loop -/

/-- Below the cap chunks are gathered until the response is complete. -/
theorem receiveLoop_eq_gather {data : Bytes} {cs : List Bytes} (hmax : (data ++ cs.flatten).length ≤ maxResponseBytes) :
    receiveLoop data cs = gather responseComplete data cs := by
  induction cs generalizing data with
  | nil => rfl
  | cons c cs ih =>
    rw [List.flatten_cons, ← List.append_assoc] at hmax
    have hle : ¬maxResponseBytes < data.length := by
      simp only [List.length_append] at hmax
      omega
    rw [receiveLoop, gather, if_neg hle]
    simp only [ih hmax]

/-- What is received is a part of the stream. -/
theorem receiveLoop_isPrefix {data : Bytes} {cs : List Bytes} : receiveLoop data cs <+: data ++ cs.flatten := by
  induction cs generalizing data with
  | nil => simp [receiveLoop]
  | cons c cs ih =>
    rw [receiveLoop, List.flatten_cons, ← List.append_assoc]
    split
    · rw [List.append_assoc]
      exact List.prefix_append _ _
    · dsimp only
      split
      · exact List.prefix_append _ _
      · exact ih

end FdoUefi
