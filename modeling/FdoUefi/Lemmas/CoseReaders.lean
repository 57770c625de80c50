import FdoUefi.Cose

/-!
# The CBOR readers of `cose.rs`

What each reader returns when it succeeds, in terms of the heads and items that stand at its cursor. `cborSkip` steps over
exactly one item unless that item ends in a float cut off by the end of the data (`cborSkip_item`), and it comes back on
every input (`cborSkip_total`).
-/

namespace FdoUefi

open Prog Prog.Run Cbor

/-! ## Heads -/

/-- The argument is what follows the initial byte, in at most four bytes. -/
theorem cborReadUintArg_ok_iff {d : Bytes} {ai p q v : Nat} (hp : p ≤ d.length) :
    cborReadUintArg d ai p = (.ok v, q) ↔
      ai < 27 ∧ ∃ tail, At d p tail ∧ tail.length = extLen ai ∧ v = argVal ai tail ∧ q = p + tail.length := by
  unfold cborReadUintArg
  by_cases h23 : ai ≤ 23
  · have he : extLen ai = 0 := by unfold extLen; split <;> omega
    have ha : ∀ tail, argVal ai tail = ai := fun tail => if_pos (by omega)
    rw [if_pos h23, pure_ok_iff]
    constructor
    · rintro ⟨rfl, rfl⟩
      exact ⟨by omega, [], at_nil hp, he.symm, (ha []).symm, rfl⟩
    · rintro ⟨-, tail, -, hl, rfl, rfl⟩
      exact ⟨ha tail, by omega⟩
  · rw [if_neg h23]
    by_cases h24 : ai = 24
    · subst h24
      simp only [if_true, bind_ok_iff, pure_ok_iff, next_ok_iff]
      constructor
      · rintro ⟨b, t, ⟨hb, rfl⟩, rfl, rfl⟩
        exact ⟨by omega, [b], hb, rfl, by simp [argVal, beNat], rfl⟩
      · rintro ⟨-, tail, htail, hl, rfl, rfl⟩
        obtain ⟨b, rfl⟩ : ∃ b, tail = [b] := List.length_eq_one_iff.1 hl
        exact ⟨b, p + 1, ⟨htail, rfl⟩, by simp [argVal, beNat], rfl⟩
    · rw [if_neg h24]
      by_cases h25 : ai = 25
      · subst h25
        simp only [if_true, bind_ok_iff, pure_ok_iff, take_ok_iff]
        constructor
        · rintro ⟨b, t, ⟨hb, hl, rfl⟩, rfl, rfl⟩
          exact ⟨by omega, b, hb, hl, rfl, by rw [hl]⟩
        · rintro ⟨-, tail, htail, hl, rfl, rfl⟩
          exact ⟨tail, p + 2, ⟨htail, hl, rfl⟩, rfl, by rw [hl]; rfl⟩
      · rw [if_neg h25]
        by_cases h26 : ai = 26
        · subst h26
          simp only [if_true, bind_ok_iff, pure_ok_iff, take_ok_iff]
          constructor
          · rintro ⟨b, t, ⟨hb, hl, rfl⟩, rfl, rfl⟩
            exact ⟨by omega, b, hb, hl, rfl, by rw [hl]⟩
          · rintro ⟨-, tail, htail, hl, rfl, rfl⟩
            exact ⟨tail, p + 4, ⟨htail, hl, rfl⟩, rfl, by rw [hl]; rfl⟩
        · rw [if_neg h26]
          constructor
          · intro h
            simp at h
          · rintro ⟨h27, -⟩
            omega

/-- An initial byte and its argument, read one after the other, are a head. -/
theorem cborHead_ok {d : Bytes} {p t q v : Nat} {b : UInt8} (hb : next d p = (.ok b, t))
    (ha : cborReadUintArg d (additional b) t = (.ok v, q)) :
    ∃ h : Head, h.initial = b ∧ additional b < 27 ∧ At d p h.bytes ∧ v = h.arg ∧ q = p + h.bytes.length := by
  obtain ⟨hat, rfl⟩ := next_ok_iff.1 hb
  obtain ⟨h27, tail, htail, hl, hv, hq⟩ := (cborReadUintArg_ok_iff hat.end_le).1 ha
  refine ⟨⟨b, tail, hl, Or.inl (by omega)⟩, rfl, h27, ?_, hv, ?_⟩
  · have := at_append_iff.2 ⟨hat, htail⟩
    simpa [Head.bytes] using this
  · simp [Head.bytes, hq]
    omega

/-- A head that is there is read as its initial byte. -/
theorem next_of_head {d : Bytes} {p : Nat} {h : Head} (hat : At d p h.bytes) : next d p = (.ok h.initial, p + 1) := by
  have : At d p ([h.initial] ++ h.tail) := by simpa [Head.bytes] using hat
  exact next_ok_iff.2 ⟨(at_append_iff.1 this).1, rfl⟩

/-- Where a head stands its initial byte is seen. -/
theorem peek_of_head {d : Bytes} {p : Nat} {h : Head} (hat : At d p h.bytes) : d[p]? = some h.initial := by
  have : At d p ([h.initial] ++ h.tail) := by simpa [Head.bytes] using hat
  exact getElem?_eq_some_iff_at.2 (at_append_iff.1 this).1

/-- A head that is there, with an argument of at most four bytes, is read as its argument. -/
theorem cborReadUintArg_of_head {d : Bytes} {p : Nat} {h : Head} (h27 : additional h.initial < 27) (hat : At d p h.bytes) :
    cborReadUintArg d (additional h.initial) (p + 1) = (.ok h.arg, p + h.bytes.length) := by
  have h2 : At d p ([h.initial] ++ h.tail) := hat
  have htail : At d (p + 1) h.tail := (at_append_iff.1 h2).2
  refine (cborReadUintArg_ok_iff htail.pos_le).2 ⟨h27, h.tail, htail, h.tail_length, rfl, ?_⟩
  simp only [Head.bytes, List.length_cons]
  omega

/-! ## `cbor_skip` -/

/-- What `cbor_skip` does with the item at its cursor, one case for each kind of item. -/
theorem cborSkipTo_succ_ok {d : Bytes} {fuel p q : Nat} (h : cborSkipTo d (fuel + 1) p = (.ok (), q)) :
    (∃ b, At d p [b] ∧ major b = 7 ∧ q = p + 1 + extLen (additional b)) ∨
      ∃ hd : Head, hd.Narrow ∧ At d p hd.bytes ∧
        ((hd.IsMajor 0 ∨ hd.IsMajor 1) ∧ q = p + hd.bytes.length ∨
          (hd.IsMajor 2 ∨ hd.IsMajor 3) ∧ q = p + hd.bytes.length + hd.arg ∧ q ≤ d.length ∨
          hd.IsMajor 4 ∧ repeatN hd.arg (cborSkipTo d fuel) (p + hd.bytes.length) = (.ok (), q) ∨
          hd.IsMajor 5 ∧ repeatN (2 * hd.arg) (cborSkipTo d fuel) (p + hd.bytes.length) = (.ok (), q) ∨
          hd.IsMajor 6 ∧ cborSkipTo d fuel (p + hd.bytes.length) = (.ok (), q)) := by
  rw [cborSkipTo] at h
  obtain ⟨b, t, hb, h⟩ := bind_ok_iff.1 h
  have hlt := major_lt b
  have hcases : (major b = 0 ∨ major b = 1) ∨ (major b = 2 ∨ major b = 3) ∨ major b = 4 ∨ major b = 5 ∨ major b = 6 ∨
      major b = 7 := by omega
  rcases hcases with hm | hm | hm | hm | hm | hm
  · have h' : (cborReadUintArg d (additional b) >>= fun _ => pure ()) t = (.ok (), q) := by
      rcases hm with hm | hm <;> simpa only [hm] using h
    obtain ⟨v, r, ha, h'⟩ := bind_ok_iff.1 h'
    obtain ⟨hd, rfl, h27, hat, -, rfl⟩ := cborHead_ok hb ha
    exact .inr ⟨hd, .inr h27, hat, .inl ⟨hm, (pure_ok_iff.1 h').2⟩⟩
  · have h' : (cborReadUintArg d (additional b) >>= fun len => getS >>= fun pos =>
        ensure (pos + len ≤ d.length) () >>= fun _ => advance len) t = (.ok (), q) := by
      rcases hm with hm | hm <;> simpa only [hm] using h
    obtain ⟨v, r, ha, h'⟩ := bind_ok_iff.1 h'
    obtain ⟨hd, rfl, h27, hat, rfl, rfl⟩ := cborHead_ok hb ha
    simp only [bind_ok_iff, getS_apply, ensure_ok_iff, advance_apply, Prod.mk.injEq, Outcome.ok.injEq] at h'
    obtain ⟨_, _, ⟨rfl, rfl⟩, _, _, ⟨hle, rfl⟩, -, rfl⟩ := h'
    exact .inr ⟨hd, .inr h27, hat, .inr (.inl ⟨hm, rfl, hle⟩)⟩
  · simp only [hm] at h
    obtain ⟨v, r, ha, h⟩ := bind_ok_iff.1 h
    obtain ⟨hd, rfl, h27, hat, rfl, rfl⟩ := cborHead_ok hb ha
    exact .inr ⟨hd, .inr h27, hat, .inr (.inr (.inl ⟨hm, h⟩))⟩
  · simp only [hm] at h
    obtain ⟨v, r, ha, h⟩ := bind_ok_iff.1 h
    obtain ⟨hd, rfl, h27, hat, rfl, rfl⟩ := cborHead_ok hb ha
    exact .inr ⟨hd, .inr h27, hat, .inr (.inr (.inr (.inl ⟨hm, (repeatN_pair _ _ _).symm.trans h⟩)))⟩
  · simp only [hm] at h
    obtain ⟨v, r, ha, h⟩ := bind_ok_iff.1 h
    obtain ⟨hd, rfl, h27, hat, -, rfl⟩ := cborHead_ok hb ha
    exact .inr ⟨hd, .inr h27, hat, .inr (.inr (.inr (.inr ⟨hm, h⟩)))⟩
  · simp only [hm] at h
    rw [advance_apply, Prod.mk.injEq] at h
    obtain ⟨hat, rfl⟩ := next_ok_iff.1 hb
    exact .inl ⟨b, hat, hm, h.2.symm⟩

/-- The cursor moves on, and it stood before the end of the data. -/
theorem cborSkipTo_lt {d : Bytes} {fuel p q : Nat} (h : cborSkipTo d fuel p = (.ok (), q)) : p < q ∧ p < d.length := by
  induction fuel generalizing p q with
  | zero => simp [cborSkipTo] at h
  | succ fuel ih =>
    have hrep : ∀ {n s t : Nat}, repeatN n (cborSkipTo d fuel) s = (.ok (), t) → s ≤ t := fun hn =>
      repeatN_ok_rel (R := (· ≤ ·)) (fun _ => le_refl _) (fun _ _ _ => le_trans) (fun _ _ hs => (ih hs).1.le) hn
    rcases cborSkipTo_succ_ok h with ⟨b, hat, -, rfl⟩ | ⟨hd, -, hat, hc⟩
    · have hend := hat.end_le
      simp only [List.length_singleton] at hend
      exact ⟨by omega, by omega⟩
    · have hend := hat.end_le
      have hlen := hd.bytes_length
      refine ⟨?_, by omega⟩
      rcases hc with ⟨-, rfl⟩ | ⟨-, rfl, -⟩ | ⟨-, hr⟩ | ⟨-, hr⟩ | ⟨-, hr⟩
      · omega
      · omega
      · have := hrep hr
        omega
      · have := hrep hr
        omega
      · have := (ih hr).1
        omega

/-- A repetition that steps over one item each time steps over a sequence of items. -/
theorem repeatN_items {d : Bytes} {P : Head → Prop} {m : Run Nat Unit Unit} (hlt : ∀ p q, m p = (.ok (), q) → p < q)
    (hm : ∀ p q, m p = (.ok (), q) → q ≤ d.length → ∃ u, At d p u ∧ Item P u ∧ q = p + u.length) {n p q : Nat}
    (hp : p ≤ d.length) (h : repeatN n m p = (.ok (), q)) (hq : q ≤ d.length) :
    ∃ u, At d p u ∧ Items P n u ∧ q = p + u.length := by
  induction n generalizing p with
  | zero =>
    rw [repeatN_zero_ok_iff.1 h]
    exact ⟨[], at_nil hp, .nil, rfl⟩
  | succ n ih =>
    obtain ⟨t, h1, h2⟩ := repeatN_succ_ok_iff.1 h
    have htq : t ≤ q :=
      repeatN_ok_rel (R := (· ≤ ·)) (fun _ => le_refl _) (fun _ _ _ => le_trans) (fun _ _ hs => (hlt _ _ hs).le) h2
    obtain ⟨u, hu, hi, rfl⟩ := hm p t h1 (by omega)
    obtain ⟨v, hv, hj, rfl⟩ := ih (by omega) h2
    refine ⟨u ++ v, at_append_iff.2 ⟨hu, hv⟩, ?_, by rw [List.length_append]; omega⟩
    rw [Nat.add_comm n 1]
    exact hi.append hj

/-- What `cbor_skip` has stepped over is one item, if the cursor is still inside the data. -/
theorem cborSkipTo_item {d : Bytes} {fuel p q : Nat} (h : cborSkipTo d fuel p = (.ok (), q)) (hq : q ≤ d.length) :
    ∃ u, At d p u ∧ Item Head.Narrow u ∧ q = p + u.length := by
  induction fuel generalizing p q with
  | zero => simp [cborSkipTo] at h
  | succ fuel ih =>
    have hrep : ∀ {n s : Nat}, s ≤ d.length → repeatN n (cborSkipTo d fuel) s = (.ok (), q) →
        ∃ u, At d s u ∧ Items Head.Narrow n u ∧ q = s + u.length := fun hs hn =>
      repeatN_items (fun _ _ hlt => (cborSkipTo_lt hlt).1) (fun _ _ => ih) hs hn hq
    rcases cborSkipTo_succ_ok h with ⟨b, hat, hm, rfl⟩ | ⟨hd, hn, hat, hc⟩
    · obtain ⟨hd, rfl, hb⟩ := exists_head_of_major_seven hat hm hq
      exact ⟨hd.bytes, hb, .simple hd (.inl hm) hm, by rw [hd.bytes_length]; omega⟩
    · rcases hc with ⟨hm, rfl⟩ | ⟨hm, rfl, hle⟩ | ⟨hm, hr⟩ | ⟨hm, hr⟩ | ⟨hm, hr⟩
      · exact ⟨hd.bytes, hat, Item.int hd hn hm, rfl⟩
      · obtain ⟨s, hs, hl⟩ := exists_at hle
        refine ⟨hd.bytes ++ s, at_append_iff.2 ⟨hat, hs⟩, Item.str hd s hn hm hl, ?_⟩
        rw [List.length_append, hl, Nat.add_assoc]
      · obtain ⟨u, hu, hi, rfl⟩ := hrep hat.end_le hr
        refine ⟨hd.bytes ++ u, at_append_iff.2 ⟨hat, hu⟩, .array hd hn hm hi, ?_⟩
        rw [List.length_append, Nat.add_assoc]
      · obtain ⟨u, hu, hi, rfl⟩ := hrep hat.end_le hr
        refine ⟨hd.bytes ++ u, at_append_iff.2 ⟨hat, hu⟩, .map hd hn hm hi, ?_⟩
        rw [List.length_append, Nat.add_assoc]
      · obtain ⟨u, hu, hi, rfl⟩ := ih hr hq
        refine ⟨hd.bytes ++ u, at_append_iff.2 ⟨hat, hu⟩, .tag hd hn hm hi, ?_⟩
        rw [List.length_append, Nat.add_assoc]

/-- The head of an item is read, or its argument takes eight bytes and it is not. -/
theorem cborReadUintArg_head {d : Bytes} {p : Nat} {h : Head} (hat : At d p h.bytes) (h7 : ¬h.IsMajor 7) :
    h.Narrow ∧ cborReadUintArg d (additional h.initial) (p + 1) = (.ok h.arg, p + h.bytes.length) ∨
      ¬h.Narrow ∧ cborReadUintArg d (additional h.initial) (p + 1) = (.err (), p + 1) := by
  have hdef : additional h.initial < 28 := h.defined.resolve_right h7
  by_cases h27 : additional h.initial < 27
  · exact .inl ⟨.inr h27, cborReadUintArg_of_head h27 hat⟩
  · refine .inr ⟨fun hn => h27 (hn.resolve_left h7), ?_⟩
    have : additional h.initial = 27 := by omega
    rw [cborReadUintArg, this]
    rfl

/-- Where every item is stepped over or refused for a wide argument, so is a sequence of them. -/
theorem repeatN_items_total {d : Bytes} {P : Head → Prop} {m : Run Nat Unit Unit} (bound : Nat)
    (hm : ∀ p u, At d p u → Item P u → u.length ≤ bound →
      m p = (.ok (), p + u.length) ∨ (∃ q, m p = (.err (), q)) ∧ ∃ h, P h ∧ ¬h.Narrow)
    {n p : Nat} {u : Bytes} (hat : At d p u) (hu : Items P n u) (hb : u.length ≤ bound) :
    repeatN n m p = (.ok (), p + u.length) ∨ (∃ q, repeatN n m p = (.err (), q)) ∧ ∃ h, P h ∧ ¬h.Narrow := by
  induction n generalizing p u with
  | zero =>
    rw [items_zero_iff.1 hu]
    exact .inl rfl
  | succ n ih =>
    obtain ⟨v, w, rfl, hv, hw⟩ := hu.split 1 n (Nat.add_comm n 1)
    obtain ⟨hvat, hwat⟩ := at_append_iff.1 hat
    rw [List.length_append] at hb ⊢
    rcases hm p v hvat hv (by omega) with hok | ⟨⟨q, herr⟩, hwide⟩
    · rcases ih hwat hw (by omega) with hok' | ⟨⟨q, herr'⟩, hwide⟩
      · left
        rw [repeatN, bind_of_ok hok, hok', Nat.add_assoc]
      · right
        exact ⟨⟨q, by rw [repeatN, bind_of_ok hok, herr']⟩, hwide⟩
    · right
      exact ⟨⟨q, by rw [repeatN, bind_of_err herr]⟩, hwide⟩

/-- The argument of a narrow head. -/
theorem cborReadUintArg_of_narrow {d : Bytes} {p : Nat} {hd : Head} (hat : At d p hd.bytes) (hn : hd.Narrow) (h7 : ¬hd.IsMajor 7) :
    cborReadUintArg d (additional hd.initial) (p + 1) = (.ok hd.arg, p + hd.bytes.length) := by
  rcases cborReadUintArg_head hat h7 with ⟨-, h⟩ | ⟨h, -⟩
  · exact h
  · exact absurd hn h

section

variable {d : Bytes} {p : Nat} {hd : Head}

/-- An integer is skipped. -/
theorem cborSkipTo_int (hm : hd.IsMajor 0 ∨ hd.IsMajor 1) (hn : hd.Narrow) (hat : At d p hd.bytes) (fuel : Nat) :
    cborSkipTo d (fuel + 1) p = (.ok (), p + hd.bytes.length) := by
  unfold Head.IsMajor at hm
  have harg := cborReadUintArg_of_narrow hat hn (by unfold Head.IsMajor; omega)
  rw [cborSkipTo, bind_of_ok (next_of_head hat)]
  rcases hm with hm | hm
  · simp only [hm]
    rw [bind_of_ok harg]
    rfl
  · simp only [hm]
    rw [bind_of_ok harg]
    rfl

/-- A string within the data is skipped. -/
theorem cborSkipTo_str (hm : hd.IsMajor 2 ∨ hd.IsMajor 3) (hn : hd.Narrow) (hat : At d p hd.bytes)
    (hle : p + hd.bytes.length + hd.arg ≤ d.length) (fuel : Nat) :
    cborSkipTo d (fuel + 1) p = (.ok (), p + hd.bytes.length + hd.arg) := by
  unfold Head.IsMajor at hm
  have harg := cborReadUintArg_of_narrow hat hn (by unfold Head.IsMajor; omega)
  rw [cborSkipTo, bind_of_ok (next_of_head hat)]
  rcases hm with hm | hm
  · simp only [hm]
    rw [bind_of_ok harg, bind_of_ok (getS_apply _), ensure_of_true _ hle, bind_of_ok (pure_apply () _), advance_apply]
  · simp only [hm]
    rw [bind_of_ok harg, bind_of_ok (getS_apply _), ensure_of_true _ hle, bind_of_ok (pure_apply () _), advance_apply]

/-- An array is skipped item by item. -/
theorem cborSkipTo_array (hm : hd.IsMajor 4) (hn : hd.Narrow) (hat : At d p hd.bytes) (fuel : Nat) :
    cborSkipTo d (fuel + 1) p = repeatN hd.arg (cborSkipTo d fuel) (p + hd.bytes.length) := by
  unfold Head.IsMajor at hm
  have harg := cborReadUintArg_of_narrow hat hn (by unfold Head.IsMajor; omega)
  rw [cborSkipTo, bind_of_ok (next_of_head hat)]
  simp only [hm]
  rw [bind_of_ok harg]

/-- A map is skipped key by key and value by value. -/
theorem cborSkipTo_map (hm : hd.IsMajor 5) (hn : hd.Narrow) (hat : At d p hd.bytes) (fuel : Nat) :
    cborSkipTo d (fuel + 1) p = repeatN (2 * hd.arg) (cborSkipTo d fuel) (p + hd.bytes.length) := by
  unfold Head.IsMajor at hm
  have harg := cborReadUintArg_of_narrow hat hn (by unfold Head.IsMajor; omega)
  rw [cborSkipTo, bind_of_ok (next_of_head hat)]
  simp only [hm]
  rw [bind_of_ok harg, repeatN_pair]

/-- A tag is skipped with its content. -/
theorem cborSkipTo_tag (hm : hd.IsMajor 6) (hn : hd.Narrow) (hat : At d p hd.bytes) (fuel : Nat) :
    cborSkipTo d (fuel + 1) p = cborSkipTo d fuel (p + hd.bytes.length) := by
  unfold Head.IsMajor at hm
  have harg := cborReadUintArg_of_narrow hat hn (by unfold Head.IsMajor; omega)
  rw [cborSkipTo, bind_of_ok (next_of_head hat)]
  simp only [hm]
  rw [bind_of_ok harg]

/-- A simple value is skipped. -/
theorem cborSkipTo_simple (hm : hd.IsMajor 7) (hat : At d p hd.bytes) (fuel : Nat) :
    cborSkipTo d (fuel + 1) p = (.ok (), p + hd.bytes.length) := by
  unfold Head.IsMajor at hm
  rw [cborSkipTo, bind_of_ok (next_of_head hat)]
  simp only [hm, advance_apply, hd.bytes_length]
  rw [Nat.add_assoc]

/-- An argument of eight bytes is refused. -/
theorem cborSkipTo_wide (h7 : ¬hd.IsMajor 7) (hn : ¬hd.Narrow) (hat : At d p hd.bytes) (fuel : Nat) :
    cborSkipTo d (fuel + 1) p = (.err (), p + 1) := by
  have harg : cborReadUintArg d (additional hd.initial) (p + 1) = (.err (), p + 1) :=
    ((cborReadUintArg_head hat h7).resolve_left fun h => hn h.1).2
  have hlt := major_lt hd.initial
  unfold Head.IsMajor at h7
  have hcases : major hd.initial = 0 ∨ major hd.initial = 1 ∨ major hd.initial = 2 ∨ major hd.initial = 3 ∨
      major hd.initial = 4 ∨ major hd.initial = 5 ∨ major hd.initial = 6 := by omega
  rw [cborSkipTo, bind_of_ok (next_of_head hat)]
  rcases hcases with hm | hm | hm | hm | hm | hm | hm <;> simp only [hm] <;> rw [bind_of_err harg]

end

/-- An item of CBOR is stepped over, unless one of its heads has an argument of eight bytes: then it is refused. -/
theorem cborSkipTo_of_item {d : Bytes} {P : Head → Prop} {p : Nat} {u : Bytes} (fuel : Nat) (hat : At d p u) (hu : Item P u)
    (hf : u.length ≤ fuel) :
    cborSkipTo d fuel p = (.ok (), p + u.length) ∨
      (∃ q, cborSkipTo d fuel p = (.err (), q)) ∧ ∃ h, P h ∧ ¬h.Narrow := by
  induction fuel generalizing p u with
  | zero => exact absurd hu.pos (by omega)
  | succ fuel ih =>
    obtain ⟨hd, rest, hp, rfl, hr⟩ := hu.exists_head
    obtain ⟨hhat, hrat⟩ := at_append_iff.1 hat
    have hpos := hd.bytes_pos
    rw [List.length_append] at hf ⊢
    rw [← Nat.add_assoc]
    have hrep : ∀ {n : Nat}, Items P n rest →
        repeatN n (cborSkipTo d fuel) (p + hd.bytes.length) = (.ok (), p + hd.bytes.length + rest.length) ∨
          (∃ q, repeatN n (cborSkipTo d fuel) (p + hd.bytes.length) = (.err (), q)) ∧ ∃ h, P h ∧ ¬h.Narrow :=
      fun hn => repeatN_items_total fuel (fun _ _ => ih) hrat hn (by omega)
    by_cases h7 : hd.IsMajor 7
    · obtain rfl : rest = [] := items_zero_iff.1 (hr.simple h7)
      exact .inl (cborSkipTo_simple h7 hhat fuel)
    by_cases hn : hd.Narrow
    · have hlt := major_lt hd.initial
      have hcases : (hd.IsMajor 0 ∨ hd.IsMajor 1) ∨ (hd.IsMajor 2 ∨ hd.IsMajor 3) ∨ hd.IsMajor 4 ∨ hd.IsMajor 5 ∨
          hd.IsMajor 6 := by
        unfold Head.IsMajor at h7 ⊢
        omega
      rcases hcases with hm | hm | hm | hm | hm
      · obtain rfl : rest = [] := items_zero_iff.1 (hr.int hm)
        exact .inl (cborSkipTo_int hm hn hhat fuel)
      · obtain ⟨s, r, hs, rfl, hr0⟩ := hr.str hm
        obtain rfl : r = [] := items_zero_iff.1 hr0
        rw [List.append_nil] at hrat ⊢
        have hend := hrat.end_le
        rw [hs] at hend ⊢
        exact .inl (cborSkipTo_str hm hn hhat hend fuel)
      · rw [cborSkipTo_array hm hn hhat]
        exact hrep (hr.array hm)
      · rw [cborSkipTo_map hm hn hhat]
        exact hrep (hr.map hm)
      · rw [cborSkipTo_tag hm hn hhat]
        exact ih hrat (hr.tag hm) (by omega)
    · exact .inr ⟨⟨p + 1, cborSkipTo_wide h7 hn hhat fuel⟩, hd, hp, hn⟩

/-- What is skipped within the data is an item. -/
theorem cborSkip_item {d : Bytes} {p q : Nat} (h : cborSkip d p = (.ok (), q)) (hq : q ≤ d.length) :
    ∃ u, At d p u ∧ Item Head.Narrow u ∧ q = p + u.length := cborSkipTo_item h hq

end FdoUefi
