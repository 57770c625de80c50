import FdoUefi.To2Messages
import FdoUefi.Lemmas.ExactSkip
import FdoUefi.Lemmas.RoundTrip

/-!
# One turn of the loop over a ServiceInfo

What `parse_service_info_array` does with the element that stands at its cursor: a pair is read, after the head of any other
array one item is skipped, and on everything else it fails.
-/

namespace FdoUefi

open Prog Prog.Run Cbor Cur

/-- The element is the pair of a text and a byte string. -/
def IsPair (e : Bytes) (kv : Bytes × Bytes) : Prop :=
  ∃ a b, IsArray Head.Rfc e [a, b] ∧ IsText a kv.1 ∧ utf8Valid kv.1 = true ∧ IsBstr b kv.2

/-- The pairs among some elements, in order. -/
inductive PairsOf : List Bytes → List (Bytes × Bytes) → Prop where
  | nil : PairsOf [] []
  | pair {e : Bytes} {kv : Bytes × Bytes} {es : List Bytes} {kvs : List (Bytes × Bytes)} (he : IsPair e kv) (hes : PairsOf es kvs) :
      PairsOf (e :: es) (kv :: kvs)
  | other {e : Bytes} {es : List Bytes} {kvs : List (Bytes × Bytes)} (he : ∀ kv, ¬IsPair e kv) (hes : PairsOf es kvs) :
      PairsOf (e :: es) kvs

/-- An element that is no array, or an array of two that is no pair. -/
inductive Refused (e : Bytes) : Prop where
  | noArray (hno : ∀ xs, ¬IsArray Head.Rfc e xs)
  | noPair {a b : Bytes} (he : IsArray Head.Rfc e [a, b]) (hno : ∀ kv, ¬IsPair e kv)

/-! ## Pairs -/

/-- A text is an item. -/
theorem IsText.item {u s : Bytes} (h : IsText u s) : Item PlainHead u := by
  obtain ⟨k, hm, hs, rfl⟩ := h
  exact Item.str k s (plain_of_low hm (by decide)) (.inr hm) hs

/-- A pair is a plain item. -/
theorem IsPair.plain {e : Bytes} {kv : Bytes × Bytes} (h : IsPair e kv) : Item PlainHead e := by
  obtain ⟨a, b, ⟨hd, -, hm, hl, rfl, -⟩, ha, -, k, hkm, hks, rfl⟩ := h
  have hb : Item PlainHead (k.bytes ++ kv.2) := Item.str k kv.2 (plain_of_low hkm (by decide)) (.inl hkm) hks
  have harray : IsArray PlainHead (hd.bytes ++ [a, k.bytes ++ kv.2].flatten) [a, k.bytes ++ kv.2] := by
    refine ⟨hd, plain_of_low hm (by decide), hm, hl, rfl, ?_⟩
    intro x hx
    rcases List.mem_pair.1 hx with rfl | rfl
    · exact IsText.item ha
    · exact hb
  exact harray.item

/-- An element is at most one pair. -/
theorem IsPair.unique {e : Bytes} {kv kv' : Bytes × Bytes} (h : IsPair e kv) (h' : IsPair e kv') : kv = kv' := by
  obtain ⟨a, b, harr, ha, -, hb⟩ := h
  obtain ⟨a', b', harr', ha', -, hb'⟩ := h'
  have hab : [a, b] = [a', b'] := harr.unique harr'
  obtain ⟨rfl, rfl⟩ : a = a' ∧ b = b' := by simpa using hab
  exact Prod.ext (ha.unique ha').2 (hb.unique hb').2

/-- An element with another number of items is not a pair. -/
theorem not_isPair_of_length {e : Bytes} {xs : List Bytes} (h : IsArray Head.Rfc e xs) (hne : xs.length ≠ 2) (kv : Bytes × Bytes) :
    ¬IsPair e kv := by
  rintro ⟨a, b, harr, -⟩
  rw [h.unique harr] at hne
  exact hne rfl

/-! ## What is read -/

variable {d : Bytes} {fuel n p q r : Nat}

/-- A place in the data, and one behind it, are machine words. -/
theorem word_of_at {u : Bytes} (hd : d.length ≤ sliceMax) (hat : At d p u) : p + u.length < wordSize := by
  have hend := hat.end_le
  simp only [sliceMax] at hd
  unfold wordSize
  omega

/-- The length of an array is read, and its elements stand behind it. -/
theorem arrayLen_reads {e : Bytes} {xs : List Bytes} (hd : d.length ≤ sliceMax) (h : IsArray Head.Rfc e xs) (hat : At d p e) :
    ∃ q, Reads (Dec.readArrayLen d) p xs.length q ∧ At d q xs.flatten ∧ q + xs.flatten.length = p + e.length ∧ p < q := by
  obtain ⟨hd', hrfc, hm, hl, rfl, -⟩ := h
  obtain ⟨hhead, hrest⟩ := at_append_iff.1 hat
  have hpos := hd'.bytes_pos
  refine ⟨p + hd'.bytes.length, ?_, hrest, by rw [List.length_append, Nat.add_assoc], by omega⟩
  rw [← hl]
  exact readHead_reads hhead hm hrfc.1 (word_of_at hd hhead)

/-- A head of another major type is refused. -/
theorem readHead_fails {m : Nat} {k : Head} {e : Nat → FdoError} (hd : d.length ≤ sliceMax) (hat : At d p k.bytes) (hm : ¬k.IsMajor m) :
    Fails (Dec.readHead d m e) p := .after (readByte_reads hat (word_of_at hd hat)) (.bind _ (.ensure hm))

/-- No head is read at the end of the data. -/
theorem readHead_fails_at_end {m : Nat} {e : Nat → FdoError} (hp : d.length ≤ p) : Fails (Dec.readHead d m e) p :=
  .bind _ (.byte hp)

/-- A string item whose major type is another one is refused, and so is any other item. -/
theorem str_cases {u : Bytes} {m : Nat} (hm23 : m = 2 ∨ m = 3) (hu : Item Head.Rfc u) (hat : At d p u) :
    (∃ s, IsStr m u s) ∨ ∃ k : Head, At d p k.bytes ∧ ¬k.IsMajor m := by
  obtain ⟨k, rest, -, rfl, hafter⟩ := hu.exists_head
  by_cases hm : k.IsMajor m
  · obtain ⟨s, r, hs, rfl, hr⟩ := hafter.str (by rcases hm23 with rfl | rfl; exacts [.inl hm, .inr hm])
    rw [items_zero_iff.1 hr, List.append_nil]
    exact .inl ⟨s, k, hm, hs, rfl⟩
  · exact .inr ⟨k, (at_append_iff.1 hat).1, hm⟩

/-- A text in UTF-8 is read. -/
theorem isText_reads {u s : Bytes} (hd : d.length ≤ sliceMax) (h : IsText u s) (hutf : utf8Valid s = true) (hat : At d p u) :
    Reads (Dec.readText d) p s (p + u.length) := by
  obtain ⟨k, hm, hs, rfl⟩ := h
  exact readText_reads hat hm (plain_of_low hm (by decide)).1.1 hs hutf (word_of_at hd hat)

/-- A byte string is read. -/
theorem isBstr_reads {u s : Bytes} (hd : d.length ≤ sliceMax) (h : IsBstr u s) (hat : At d p u) :
    Reads (Dec.readBytes d) p s (p + u.length) := by
  obtain ⟨k, hm, hs, rfl⟩ := h
  exact readBytes_reads hat hm (plain_of_low hm (by decide)).1.1 hs (word_of_at hd hat)

/-- An item that is no text in UTF-8 is not read as one. -/
theorem readText_fails {u : Bytes} (hd : d.length ≤ sliceMax) (hu : Item Head.Rfc u) (hno : ∀ s, IsText u s → utf8Valid s ≠ true)
    (hat : At d p u) : Fails (Dec.readText d) p := by
  rcases str_cases (.inr rfl) hu hat with ⟨s, k, hm, hs, rfl⟩ | ⟨k, hk, hm⟩
  · obtain ⟨hhead, hcontent⟩ := at_append_iff.1 hat
    have hlen := readHead_reads (e := fun m => cborErr s!"expected tstr, got major type {m}") hhead hm (plain_of_low hm (by decide)).1.1
      (word_of_at hd hhead)
    rw [← hs] at hlen
    exact .after hlen (.after (Reads.content hcontent (word_of_at hd hcontent)) (.bind _ (.ensure (hno s ⟨k, hm, hs, rfl⟩))))
  · exact .bind _ (readHead_fails hd hk hm)

/-- An item that is no byte string is not read as one. -/
theorem readBytes_fails {u : Bytes} (hd : d.length ≤ sliceMax) (hu : Item Head.Rfc u) (hno : ∀ s, ¬IsBstr u s) (hat : At d p u) :
    Fails (Dec.readBytes d) p := by
  rcases str_cases (.inl rfl) hu hat with ⟨s, hs⟩ | ⟨k, hk, hm⟩
  · exact absurd hs (hno s)
  · exact .bind _ (readHead_fails hd hk hm)

/-- An item with plain heads is skipped. -/
theorem skipValue_reads {u : Bytes} (hd : d.length ≤ sliceMax) (hfuel : d.length < fuel) (hu : Item PlainHead u) (hat : At d p u) :
    Reads (Dec.skipValue d fuel) p () (p + u.length) := by
  have hend := hat.end_le
  exact skipValue_complete hd (readsClean_of_item hu hat) ⟨u, hu.mono fun _ h => h.1, hat, rfl⟩ (by omega)

/-- No item is skipped at the end of the data. -/
theorem skipValue_fails_at_end (hfuel : d.length < fuel) (hp : d.length ≤ p) : Fails (Dec.skipValue d fuel) p := by
  obtain ⟨k, rfl⟩ : ∃ k, fuel = k + 1 := ⟨fuel - 1, by omega⟩
  exact .bind _ (.byte hp)

/-! ## The turns -/

/-- At the end of the data no element is read. -/
theorem turn_end (hp : d.length ≤ p) : Fails (serviceInfoLoop fuel d (n + 1)) p := .bind _ (readHead_fails_at_end hp)

/-- An element that is refused ends the loop with an error. -/
theorem turn_refused {e : Bytes} (hd : d.length ≤ sliceMax) (hitem : Item Head.Rfc e) (he : Refused e) (hat : At d p e) :
    Fails (serviceInfoLoop fuel d (n + 1)) p := by
  cases he with
  | noArray hno =>
    obtain ⟨k, rest, -, rfl, -⟩ := hitem.exists_head
    have hk := (at_append_iff.1 hat).1
    refine .bind _ (readHead_fails hd hk fun hm => ?_)
    obtain ⟨xs, hxs⟩ := hitem.exists_isArray (at_zero_iff.2 ⟨rest, rfl⟩) hm
    exact hno xs hxs
  | @noPair a b he hno =>
    obtain ⟨q, hlen, hrest, -, -⟩ := arrayLen_reads hd he hat
    have hitems : Item Head.Rfc a ∧ Item Head.Rfc b := by
      obtain ⟨_, -, -, -, -, hall⟩ := he
      exact ⟨hall a (by simp), hall b (by simp)⟩
    rw [List.flatten_cons] at hrest
    obtain ⟨ha, hb⟩ := at_append_iff.1 hrest
    rw [List.flatten_singleton] at hb
    refine .after hlen ?_
    rw [if_neg (by simp)]
    by_cases htext : ∃ s, IsText a s ∧ utf8Valid s = true
    · obtain ⟨s, hs, hutf⟩ := htext
      refine .after (isText_reads hd hs hutf ha) (.bind _ (readBytes_fails hd hitems.2 (fun v hv => ?_) hb))
      exact hno (s, v) ⟨a, b, he, hs, hutf, hv⟩
    · exact .bind _ (readText_fails hd hitems.1 (fun s hs hutf => htext ⟨s, hs, hutf⟩) ha)

/-- A pair is read, and the loop goes on behind it. -/
theorem turn_pair {e : Bytes} {kv : Bytes × Bytes} (hd : d.length ≤ sliceMax) (he : IsPair e kv) (hat : At d p e) :
    (Fails (serviceInfoLoop fuel d n) (p + e.length) → Fails (serviceInfoLoop fuel d (n + 1)) p) ∧
      ∀ kvs, Reads (serviceInfoLoop fuel d n) (p + e.length) kvs q → Reads (serviceInfoLoop fuel d (n + 1)) p (kv :: kvs) q := by
  obtain ⟨a, b, harr, htext, hutf, hbstr⟩ := he
  obtain ⟨s, hlen, hrest, hend, -⟩ := arrayLen_reads hd harr hat
  rw [List.flatten_cons, List.flatten_singleton] at hrest hend
  obtain ⟨ha, hb⟩ := at_append_iff.1 hrest
  have hread := isText_reads hd htext hutf ha
  have hread' := isBstr_reads hd hbstr hb
  rw [List.length_append, ← Nat.add_assoc] at hend
  rw [hend] at hread'
  constructor
  · intro hf
    refine .after hlen ?_
    rw [if_neg (by simp)]
    exact .after hread (.after hread' (.bind _ hf))
  · intro kvs hr
    refine hlen.bind ?_
    rw [if_neg (by simp)]
    exact hread.bind (hread'.bind (hr.bind (.pure _)))

/-- After the head of an array with another number of items the item that follows is skipped. -/
theorem turn_other {e x : Bytes} {xs : List Bytes} (hd : d.length ≤ sliceMax) (hfuel : d.length < fuel) (he : IsArray Head.Rfc e xs)
    (hne : xs.length ≠ 2) (hx : Item PlainHead x) (hat : At d p e) (hxat : At d r x) (hr : r + xs.flatten.length = p + e.length) :
    (Fails (serviceInfoLoop fuel d n) (r + x.length) → Fails (serviceInfoLoop fuel d (n + 1)) p) ∧
      ∀ kvs, Reads (serviceInfoLoop fuel d n) (r + x.length) kvs q → Reads (serviceInfoLoop fuel d (n + 1)) p kvs q := by
  obtain ⟨s, hlen, -, hend, -⟩ := arrayLen_reads hd he hat
  obtain rfl : s = r := by omega
  have hskip := skipValue_reads hd hfuel hx hxat
  constructor
  · intro hf
    refine .after hlen ?_
    rw [if_pos hne]
    exact .after hskip hf
  · intro kvs hr'
    refine hlen.bind ?_
    rw [if_pos hne]
    exact hskip.bind hr'

/-- After an empty array at the end nothing is left to be skipped. -/
theorem turn_empty_end {e : Bytes} (hd : d.length ≤ sliceMax) (hfuel : d.length < fuel) (he : IsArray Head.Rfc e []) (hat : At d p e)
    (hp : p + e.length = d.length) : Fails (serviceInfoLoop fuel d (n + 1)) p := by
  obtain ⟨s, hlen, -, hend, -⟩ := arrayLen_reads hd he hat
  rw [List.flatten_nil, List.length_nil] at hend
  refine .after hlen ?_
  rw [if_pos (by simp)]
  exact .bind _ (skipValue_fails_at_end hfuel (by omega))

end FdoUefi
