import FdoUefi.Messages

/-!
# The readers of `CborDecoder`

What a reader of `fdo.rs` has read when it succeeds, over a message that fits in memory. `skip_value` steps over an item as
CBOR delimits it unless one of its heads is that of a simple value in two bytes (`skipValue_item`).
-/

namespace FdoUefi

open Prog Prog.Run Cbor

variable {d : Bytes} {c c' : Cur}

/-! ## Heads -/

/-- A byte that was read stands there. -/
theorem readByte_ok (hd : d.length ≤ sliceMax) {b : UInt8} (h : Dec.readByte d c = (.ok b, c')) :
    At d c.pos [b] ∧ c'.pos = c.pos + 1 := Cur.byte_ok hd h

/-- Bytes read one after the other are the digits of the number. -/
theorem readBe_ok (hd : d.length ≤ sliceMax) {n acc v : Nat} (hp : c.pos ≤ d.length)
    (h : Dec.readBe d n acc c = (.ok v, c')) :
    ∃ bs, At d c.pos bs ∧ bs.length = n ∧ v = bs.foldl (fun acc b => acc * 256 + b.toNat) acc ∧
      c'.pos = c.pos + bs.length := by
  induction n generalizing acc c with
  | zero =>
    obtain ⟨rfl, rfl⟩ := pure_ok_iff.1 h
    exact ⟨[], at_nil hp, rfl, rfl, rfl⟩
  | succ n ih =>
    rw [Dec.readBe] at h
    obtain ⟨b, c₁, h1, h⟩ := bind_ok_iff.1 h
    obtain ⟨hat, hc₁⟩ := readByte_ok hd h1
    obtain ⟨bs, hbs, hl, hv, hc'⟩ := ih (by rw [hc₁]; exact hat.end_le) h
    rw [hc₁] at hbs hc'
    refine ⟨b :: bs, at_append_iff.2 ⟨hat, hbs⟩, by rw [List.length_cons, hl], hv, ?_⟩
    rw [hc', List.length_cons]
    omega

/-- The argument is what follows the initial byte, in at most eight bytes. -/
theorem decodeAdditional_ok (hd : d.length ≤ sliceMax) {ai v : Nat} (hp : c.pos ≤ d.length)
    (h : Dec.decodeAdditional d ai c = (.ok v, c')) :
    ai < 28 ∧ ∃ tail, At d c.pos tail ∧ tail.length = extLen ai ∧ v = argVal ai tail ∧ c'.pos = c.pos + tail.length := by
  unfold Dec.decodeAdditional at h
  by_cases h23 : ai ≤ 23
  · have he : extLen ai = 0 := by unfold extLen; split <;> omega
    rw [if_pos h23] at h
    obtain ⟨rfl, rfl⟩ := pure_ok_iff.1 h
    exact ⟨by omega, [], at_nil hp, he.symm, (if_pos (by omega)).symm, rfl⟩
  · rw [if_neg h23] at h
    have hbe : ∀ n, extLen ai = n → ai < 28 → Dec.readBe d n 0 c = (.ok v, c') →
        ai < 28 ∧ ∃ tail, At d c.pos tail ∧ tail.length = extLen ai ∧ v = argVal ai tail ∧
          c'.pos = c.pos + tail.length := by
      intro n hn h28 hb
      obtain ⟨bs, hbs, hl, hv, hc'⟩ := readBe_ok hd hp hb
      exact ⟨h28, bs, hbs, hl.trans hn.symm, by rw [hv, argVal, if_neg (by omega)]; rfl, hc'⟩
    by_cases h24 : ai = 24
    · rw [if_pos h24] at h
      exact hbe 1 (by rw [h24]; rfl) (by omega) h
    · rw [if_neg h24] at h
      by_cases h25 : ai = 25
      · rw [if_pos h25] at h
        exact hbe 2 (by rw [h25]; rfl) (by omega) h
      · rw [if_neg h25] at h
        by_cases h26 : ai = 26
        · rw [if_pos h26] at h
          exact hbe 4 (by rw [h26]; rfl) (by omega) h
        · rw [if_neg h26] at h
          by_cases h27 : ai = 27
          · rw [if_pos h27] at h
            exact hbe 8 (by rw [h27]; rfl) (by omega) h
          · simp [if_neg h27] at h

/-- An initial byte and its argument, read one after the other, are a head. -/
theorem decHead_ok (hd : d.length ≤ sliceMax) {b : UInt8} {v : Nat} {c₁ : Cur} (hb : Dec.readByte d c = (.ok b, c₁))
    (ha : Dec.decodeAdditional d (additional b) c₁ = (.ok v, c')) :
    ∃ h : Head, h.initial = b ∧ At d c.pos h.bytes ∧ v = h.arg ∧ c'.pos = c.pos + h.bytes.length := by
  obtain ⟨hat, hc₁⟩ := readByte_ok hd hb
  obtain ⟨h28, tail, htail, hl, hv, hc'⟩ := decodeAdditional_ok hd (by rw [hc₁]; exact hat.end_le) ha
  rw [hc₁] at htail hc'
  refine ⟨⟨b, tail, hl, .inl h28⟩, rfl, at_append_iff.2 ⟨hat, htail⟩, hv, ?_⟩
  rw [hc']
  simp only [Head.bytes, List.length_cons]
  omega

/-- Reading a head of a given major type. -/
theorem readHead_ok (hd : d.length ≤ sliceMax) {m v : Nat} {e : Nat → FdoError} (h : Dec.readHead d m e c = (.ok v, c')) :
    ∃ hd : Head, hd.IsMajor m ∧ At d c.pos hd.bytes ∧ v = hd.arg ∧ c'.pos = c.pos + hd.bytes.length := by
  unfold Dec.readHead at h
  simp only [bind_ok_iff, ensure_ok_iff] at h
  obtain ⟨b, c₁, h1, _, c₂, ⟨hm, rfl⟩, h2⟩ := h
  obtain ⟨hd, rfl, hat, hv, hc'⟩ := decHead_ok hd h1 h2
  exact ⟨hd, hm, hat, hv, hc'⟩

/-! ## Heads are read or refused -/

/-- Reading a byte comes back. -/
theorem readByte_returns (d : Bytes) (c : Cur) : (Dec.readByte d c).1.Returns := by
  unfold Dec.readByte Cur.byte
  refine bind_returns trivial ?_
  intro _ t _
  refine bind_returns trivial ?_
  intro o u _
  cases o with
  | none => trivial
  | some b => exact bind_returns trivial fun _ _ _ => trivial

/-- Reading a big-endian number comes back. -/
theorem readBe_returns (d : Bytes) (n acc : Nat) (c : Cur) : (Dec.readBe d n acc c).1.Returns := by
  induction n generalizing acc c with
  | zero => trivial
  | succ n ih => exact bind_returns (readByte_returns d c) fun b c₁ _ => ih _ c₁

/-- Reading an argument comes back. -/
theorem decodeAdditional_returns (d : Bytes) (ai : Nat) (c : Cur) : (Dec.decodeAdditional d ai c).1.Returns := by
  unfold Dec.decodeAdditional
  split_ifs
  · trivial
  · exact readBe_returns d 1 0 c
  · exact readBe_returns d 2 0 c
  · exact readBe_returns d 4 0 c
  · exact readBe_returns d 8 0 c
  · trivial

/-- Reading a head comes back. -/
theorem readHead_returns (d : Bytes) (m : Nat) (e : Nat → FdoError) (c : Cur) : (Dec.readHead d m e c).1.Returns := by
  refine bind_returns (readByte_returns d c) ?_
  intro b c₁ _
  refine bind_returns ensure_returns ?_
  intro _ c₂ _
  exact decodeAdditional_returns d _ c₂

/-! ## Strings -/

/-- A string that was read stands there. -/
theorem readStr_ok (hd : d.length ≤ sliceMax) {len : Nat} {e : Nat → FdoError} {s : Bytes} (hlen : len < 2 ^ 64)
    (hp : c.pos ≤ d.length) (h : Dec.readStr d len e c = (.ok s, c')) :
    At d c.pos s ∧ s.length = len ∧ c'.pos = c.pos := Cur.content_ok hd hlen hp h

/-- A byte string that was read is a byte string item. -/
theorem readBytes_ok (hd : d.length ≤ sliceMax) {s : Bytes} (h : Dec.readBytes d c = (.ok s, c')) :
    ∃ hd : Head, hd.IsMajor 2 ∧ At d c.pos (hd.bytes ++ s) ∧ s.length = hd.arg ∧
      c'.pos = c.pos + hd.bytes.length + s.length := by
  unfold Dec.readBytes at h
  obtain ⟨len, c₁, h1, h⟩ := bind_ok_iff.1 h
  obtain ⟨hd', hm, hat, rfl, hc₁⟩ := readHead_ok hd h1
  simp only [bind_ok_iff] at h
  obtain ⟨u, c₂, h2, _, c₃, h3, h4⟩ := h
  obtain ⟨rfl, rfl⟩ := pure_ok_iff.1 h4
  obtain ⟨hs, hl, hc₂⟩ := readStr_ok hd hd'.arg_lt (by rw [hc₁]; exact hat.end_le) h2
  rw [hc₁] at hs
  simp only [Cur.bump, Prod.mk.injEq] at h3
  refine ⟨hd', hm, at_append_iff.2 ⟨hat, hs⟩, hl, ?_⟩
  have hend := hs.end_le
  rw [← h3.2, hc₂, hc₁, hl]
  simp only [sliceMax] at hd
  exact Nat.mod_eq_of_lt (by unfold wordSize; omega)

/-! ## `skip_value` -/

/-- What `skip_value` does with an item whose head is `hd`, one case for each kind of item. -/
structure SkippedItem (d : Bytes) (fuel : Nat) (hd : Head) (c c' : Cur) : Prop where
  int : hd.IsMajor 0 ∨ hd.IsMajor 1 → c'.pos = c.pos + hd.bytes.length
  str : hd.IsMajor 2 ∨ hd.IsMajor 3 → c'.pos = (c.pos + hd.bytes.length + hd.arg) % wordSize
  array : hd.IsMajor 4 →
    ∃ c₁, c₁.pos = c.pos + hd.bytes.length ∧ repeatN hd.arg (Dec.skipValue d fuel) c₁ = (.ok (), c')
  map : hd.IsMajor 5 →
    ∃ c₁, c₁.pos = c.pos + hd.bytes.length ∧ repeatN (2 * hd.arg) (Dec.skipValue d fuel) c₁ = (.ok (), c')
  tag : hd.IsMajor 6 → ∃ c₁, c₁.pos = c.pos + hd.bytes.length ∧ Dec.skipValue d fuel c₁ = (.ok (), c')
  simple : hd.IsMajor 7 → hd.NoByteSimple → c'.pos = c.pos + hd.bytes.length

/-- What is skipped is the item under its head. -/
theorem skipValue_succ_ok (hd : d.length ≤ sliceMax) {fuel : Nat} {k : Head} (hat : At d c.pos k.bytes)
    (h : Dec.skipValue d (fuel + 1) c = (.ok (), c')) : SkippedItem d fuel k c c' := by
  rw [Dec.skipValue] at h
  obtain ⟨b, c₁, hb, hr⟩ := bind_ok_iff.1 h
  have hk1 : At d c.pos ([k.initial] ++ k.tail) := hat
  obtain ⟨hbat, hc₁⟩ := readByte_ok hd hb
  obtain rfl : b = k.initial := List.singleton_inj.1 (hbat.unique (at_append_iff.1 hk1).1 rfl)
  have hhead : ∀ {v c₂}, Dec.decodeAdditional d (additional k.initial) c₁ = (.ok v, c₂) →
      v = k.arg ∧ c₂.pos = c.pos + k.bytes.length := by
    intro v c₂ ha
    obtain ⟨k', -, hat', hv, hc₂⟩ := decHead_ok hd hb ha
    obtain rfl := Head.unique hat hat'
    exact ⟨hv, hc₂⟩
  refine ⟨?_, ?_, ?_, ?_, ?_, ?_⟩
  · intro hm
    have h' : (Dec.decodeAdditional d (additional k.initial) >>= fun _ => pure ()) c₁ = (.ok (), c') := by
      unfold Head.IsMajor at hm
      rcases hm with hm | hm <;> simpa only [hm] using hr
    obtain ⟨v, c₂, ha, hp⟩ := bind_ok_iff.1 h'
    rw [(pure_ok_iff.1 hp).2, (hhead ha).2]
  · intro hm
    have h' : (Dec.decodeAdditional d (additional k.initial) >>= fun len => Cur.place >>= fun pos =>
        Cur.note (.str pos len) >>= fun _ => Cur.bump len) c₁ = (.ok (), c') := by
      unfold Head.IsMajor at hm
      rcases hm with hm | hm <;> simpa only [hm] using hr
    simp only [bind_ok_iff, Cur.place, Cur.note, Cur.bump, modifyS_apply, Prod.mk.injEq, Outcome.ok.injEq] at h'
    obtain ⟨v, c₂, ha, _, _, ⟨-, rfl⟩, _, _, ⟨-, rfl⟩, -, rfl⟩ := h'
    obtain ⟨rfl, hc₂⟩ := hhead ha
    rw [← hc₂]
  · intro hm
    unfold Head.IsMajor at hm
    simp only [hm] at hr
    obtain ⟨v, c₂, ha, hn⟩ := bind_ok_iff.1 hr
    obtain ⟨rfl, hc₂⟩ := hhead ha
    exact ⟨c₂, hc₂, hn⟩
  · intro hm
    unfold Head.IsMajor at hm
    simp only [hm] at hr
    obtain ⟨v, c₂, ha, hn⟩ := bind_ok_iff.1 hr
    obtain ⟨rfl, hc₂⟩ := hhead ha
    exact ⟨c₂, hc₂, (repeatN_pair _ _ _).symm.trans hn⟩
  · intro hm
    unfold Head.IsMajor at hm
    simp only [hm] at hr
    obtain ⟨v, c₂, ha, hn⟩ := bind_ok_iff.1 hr
    exact ⟨c₂, (hhead ha).2, hn⟩
  · intro hm hns
    unfold Head.IsMajor at hm
    simp only [hm, Cur.bump, Prod.mk.injEq] at hr
    have h24 : additional k.initial ≠ 24 := fun h24 => hns (initial_ext (c := 0xf8) hm h24)
    have hend := hat.end_le
    have hlen := k.bytes_length
    rw [← hr.2, if_neg h24, hc₁]
    simp only [sliceMax] at hd
    rw [Nat.mod_eq_of_lt (by unfold wordSize; omega)]
    show c.pos + 1 + extLen (additional k.initial) = _
    omega

/-- An item of CBOR without a simple value in two bytes is stepped over from its first byte to its last. -/
theorem skipValue_item (hd : d.length ≤ sliceMax) {fuel : Nat} {u : Bytes} (hat : At d c.pos u)
    (hu : Item Head.NoByteSimple u) (h : Dec.skipValue d fuel c = (.ok (), c')) : c'.pos = c.pos + u.length := by
  induction fuel generalizing c c' u with
  | zero => simp [Dec.skipValue] at h
  | succ fuel ih =>
    -- A repetition walks a sequence of items with the induction hypothesis for one of them.
    have hrep : ∀ {n : Nat} {c c' : Cur} {u : Bytes}, At d c.pos u → Items Head.NoByteSimple n u →
        repeatN n (Dec.skipValue d fuel) c = (.ok (), c') → c'.pos = c.pos + u.length := by
      intro n
      induction n with
      | zero =>
        intro c c' u _ hi hn
        rw [items_zero_iff.1 hi, repeatN_zero_ok_iff.1 hn]
        rfl
      | succ n ihn =>
        intro c c' u hat hi hn
        obtain ⟨c₁, h1, h2⟩ := repeatN_succ_ok_iff.1 hn
        obtain ⟨v, w, rfl, hv, hw⟩ := hi.split 1 n (Nat.add_comm n 1)
        obtain ⟨hvat, hwat⟩ := at_append_iff.1 hat
        have hc₁ := ih hvat hv h1
        rw [← hc₁] at hwat
        rw [ihn hwat hw h2, hc₁, List.length_append, Nat.add_assoc]
    cases hu with
    | int k hp hm hr =>
      have hk := (at_append_iff.1 hat).1
      rw [items_zero_iff.1 hr, List.append_nil]
      exact (skipValue_succ_ok hd hk h).int hm
    | str k s hp hm hs hr =>
      have hk := (at_append_iff.1 hat).1
      have hend := hat.end_le
      rw [items_zero_iff.1 hr, List.append_nil] at hend ⊢
      rw [(skipValue_succ_ok hd hk h).str hm, ← hs, List.length_append]
      rw [List.length_append] at hend
      simp only [sliceMax] at hd
      rw [Nat.mod_eq_of_lt (by unfold wordSize; omega), Nat.add_assoc]
    | array k hp hm hr =>
      obtain ⟨hk, hrest⟩ := at_append_iff.1 hat
      obtain ⟨c₁, hc₁, hn⟩ := (skipValue_succ_ok hd hk h).array hm
      rw [← hc₁] at hrest
      rw [hrep hrest hr hn, hc₁, List.length_append, Nat.add_assoc]
    | map k hp hm hr =>
      obtain ⟨hk, hrest⟩ := at_append_iff.1 hat
      obtain ⟨c₁, hc₁, hn⟩ := (skipValue_succ_ok hd hk h).map hm
      rw [← hc₁] at hrest
      rw [hrep hrest hr hn, hc₁, List.length_append, Nat.add_assoc]
    | tag k hp hm hr =>
      obtain ⟨hk, hrest⟩ := at_append_iff.1 hat
      obtain ⟨c₁, hc₁, hn⟩ := (skipValue_succ_ok hd hk h).tag hm
      rw [← hc₁] at hrest
      rw [ih hrest hr hn, hc₁, List.length_append, Nat.add_assoc]
    | simple k hp hm hr =>
      have hk := (at_append_iff.1 hat).1
      rw [items_zero_iff.1 hr, List.append_nil]
      exact (skipValue_succ_ok hd hk h).simple hm hp

end FdoUefi
