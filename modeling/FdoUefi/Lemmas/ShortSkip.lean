import FdoUefi.Lib.Walk
import FdoUefi.ShortCbor
import FdoUefi.Lemmas.CoseReaders

/-!
# The skip routines for arguments of at most four bytes

What `skipShort` has stepped over is stepped over wherever it stands. Where the routine steps over no further bytes after the
head of a float, that is one item whose heads all have short arguments.
-/

namespace Cbor

/-- The argument takes at most four bytes, also that of a float. -/
def Head.Short (h : Head) : Prop := additional h.initial < 27

/-- A short head that is not that of a half or a single float. -/
def Head.NoShortFloat (h : Head) : Prop :=
  h.Short ∧ (h.IsMajor 7 → additional h.initial ≠ 25 ∧ additional h.initial ≠ 26)

/-- A short head is narrow. -/
theorem Head.Short.narrow {h : Head} (hs : h.Short) : h.Narrow := Or.inr hs

end Cbor

namespace FdoUefi

open Prog Prog.Run Cbor

variable {checked : Bool} {more : Nat → Nat} {d : Bytes}

/-- What `skipShort` does with the item at its cursor, one case for each kind of item. -/
theorem skipShort_succ_ok {fuel p q : Nat} (h : skipShort checked more d (fuel + 1) p = (.ok (), q)) :
    ∃ hd : Head, hd.Short ∧ At d p hd.bytes ∧
      ((hd.IsMajor 0 ∨ hd.IsMajor 1) ∧ q = p + hd.bytes.length ∨
        (hd.IsMajor 2 ∨ hd.IsMajor 3) ∧ q = p + hd.bytes.length + hd.arg ∧ (checked = false ∨ q ≤ d.length) ∨
        hd.IsMajor 4 ∧ repeatN hd.arg (skipShort checked more d fuel) (p + hd.bytes.length) = (.ok (), q) ∨
        hd.IsMajor 5 ∧ repeatN (2 * hd.arg) (skipShort checked more d fuel) (p + hd.bytes.length) = (.ok (), q) ∨
        hd.IsMajor 6 ∧ skipShort checked more d fuel (p + hd.bytes.length) = (.ok (), q) ∨
        hd.IsMajor 7 ∧ q = p + hd.bytes.length + more (additional hd.initial)) := by
  rw [skipShort] at h
  obtain ⟨b, t, hb, h⟩ := bind_ok_iff.1 h
  obtain ⟨v, r, ha, h⟩ := bind_ok_iff.1 h
  obtain ⟨hd, rfl, h27, hat, rfl, rfl⟩ := cborHead_ok hb ha
  refine ⟨hd, h27, hat, ?_⟩
  have hcontent : (getS >>= fun pos => ensure (checked = false ∨ pos + hd.arg ≤ d.length) () >>= fun _ => advance hd.arg)
      (p + hd.bytes.length) = (.ok (), q) →
      q = p + hd.bytes.length + hd.arg ∧ (checked = false ∨ q ≤ d.length) := by
    intro hs
    simp only [bind_ok_iff, getS_apply, ensure_ok_iff, advance_apply, Prod.mk.injEq, Outcome.ok.injEq] at hs
    obtain ⟨_, _, ⟨rfl, rfl⟩, _, _, ⟨hle, rfl⟩, -, rfl⟩ := hs
    exact ⟨rfl, hle⟩
  have hlt := major_lt hd.initial
  rcases (by omega : major hd.initial = 0 ∨ major hd.initial = 1 ∨ major hd.initial = 2 ∨ major hd.initial = 3 ∨
    major hd.initial = 4 ∨ major hd.initial = 5 ∨ major hd.initial = 6 ∨ major hd.initial = 7) with
    hm | hm | hm | hm | hm | hm | hm | hm <;> simp only [hm] at h
  · exact .inl ⟨.inl hm, (pure_ok_iff.1 h).2⟩
  · exact .inl ⟨.inr hm, (pure_ok_iff.1 h).2⟩
  · exact .inr (.inl ⟨.inl hm, hcontent h⟩)
  · exact .inr (.inl ⟨.inr hm, hcontent h⟩)
  · exact .inr (.inr (.inl ⟨hm, h⟩))
  · rw [Nat.mul_comm] at h
    exact .inr (.inr (.inr (.inl ⟨hm, h⟩)))
  · exact .inr (.inr (.inr (.inr (.inl ⟨hm, h⟩))))
  · rw [advance_apply, Prod.mk.injEq] at h
    exact .inr (.inr (.inr (.inr (.inr ⟨hm, h.2.symm⟩))))

/-- What `skipShort` does behind a head, one case for each kind of item. The content of a string may end beyond the data where that is
not checked. -/
structure ShortSteps (checked : Bool) (more : Nat → Nat) (d : Bytes) (fuel : Nat) (hd : Head) (p : Nat) : Prop where
  int : hd.IsMajor 0 ∨ hd.IsMajor 1 → skipShort checked more d (fuel + 1) p = (.ok (), p + hd.bytes.length)
  str : hd.IsMajor 2 ∨ hd.IsMajor 3 → checked = false ∨ p + hd.bytes.length + hd.arg ≤ d.length →
    skipShort checked more d (fuel + 1) p = (.ok (), p + hd.bytes.length + hd.arg)
  array : hd.IsMajor 4 →
    skipShort checked more d (fuel + 1) p = repeatN hd.arg (skipShort checked more d fuel) (p + hd.bytes.length)
  map : hd.IsMajor 5 →
    skipShort checked more d (fuel + 1) p = repeatN (2 * hd.arg) (skipShort checked more d fuel) (p + hd.bytes.length)
  tag : hd.IsMajor 6 → skipShort checked more d (fuel + 1) p = skipShort checked more d fuel (p + hd.bytes.length)
  simple : hd.IsMajor 7 →
    skipShort checked more d (fuel + 1) p = (.ok (), p + hd.bytes.length + more (additional hd.initial))

/-- A short head is skipped with what it announces. -/
theorem skipShort_of_head {hd : Head} {p : Nat} (hs : hd.Short) (hat : At d p hd.bytes) (fuel : Nat) :
    ShortSteps checked more d fuel hd p := by
  refine ⟨fun hm => ?_, fun hm hc => ?_, fun hm => ?_, fun hm => ?_, fun hm => ?_, fun hm => ?_⟩ <;> unfold Head.IsMajor at hm <;>
    rw [skipShort, bind_of_ok (next_of_head hat), bind_of_ok (cborReadUintArg_of_head hs hat)]
  · rcases hm with hm | hm <;> simp only [hm] <;> rfl
  · rcases hm with hm | hm <;> simp only [hm]
    · rw [bind_of_ok (getS_apply _), ensure_of_true _ hc, bind_of_ok (pure_apply () _), advance_apply]
    · rw [bind_of_ok (getS_apply _), ensure_of_true _ hc, bind_of_ok (pure_apply () _), advance_apply]
  · simp only [hm]
  · simp only [hm, Nat.mul_comm]
  · simp only [hm]
  · simp only [hm, advance_apply]

/-- The cursor moves on. -/
theorem skipShort_lt {fuel p q : Nat} (h : skipShort checked more d fuel p = (.ok (), q)) : p < q := by
  induction fuel generalizing p q with
  | zero => simp [skipShort] at h
  | succ fuel ih =>
    have hrep : ∀ {n s t : Nat}, repeatN n (skipShort checked more d fuel) s = (.ok (), t) → s ≤ t := by
      intro n s t hn
      exact repeatN_ok_rel (R := (· ≤ ·)) (fun _ => le_refl _) (fun _ _ _ => le_trans) (fun _ _ hs => (ih hs).le) hn
    obtain ⟨hd, -, -, hc⟩ := skipShort_succ_ok h
    have hpos := hd.bytes_pos
    rcases hc with ⟨-, rfl⟩ | ⟨-, rfl, -⟩ | ⟨-, hr⟩ | ⟨-, hr⟩ | ⟨-, hr⟩ | ⟨-, rfl⟩
    · omega
    · omega
    · have := hrep hr
      omega
    · have := hrep hr
      omega
    · have := ih hr
      omega
    · omega

/-- What has been stepped over is one item, if the cursor is still inside the data. -/
theorem skipShort_item {fuel p q : Nat} (h : skipShort checked (fun _ => 0) d fuel p = (.ok (), q)) (hq : q ≤ d.length) :
    ∃ u, At d p u ∧ Item Head.Short u ∧ q = p + u.length := by
  induction fuel generalizing p q with
  | zero => simp [skipShort] at h
  | succ fuel ih =>
    have hrep : ∀ {n s : Nat}, s ≤ d.length → repeatN n (skipShort checked (fun _ => 0) d fuel) s = (.ok (), q) →
        ∃ u, At d s u ∧ Items Head.Short n u ∧ q = s + u.length := by
      intro n s hs hn
      exact repeatN_items (fun _ _ => skipShort_lt) (fun _ _ => ih) hs hn hq
    obtain ⟨hd, hp, hat, hc⟩ := skipShort_succ_ok h
    rcases hc with ⟨hm, rfl⟩ | ⟨hm, rfl, -⟩ | ⟨hm, hr⟩ | ⟨hm, hr⟩ | ⟨hm, hr⟩ | ⟨hm, rfl⟩
    · exact ⟨hd.bytes, hat, Item.int hd hp hm, rfl⟩
    · obtain ⟨s, hs, hl⟩ := exists_at hq
      refine ⟨hd.bytes ++ s, at_append_iff.2 ⟨hat, hs⟩, Item.str hd s hp hm hl, ?_⟩
      rw [List.length_append, hl, Nat.add_assoc]
    · obtain ⟨u, hu, hi, rfl⟩ := hrep hat.end_le hr
      refine ⟨hd.bytes ++ u, at_append_iff.2 ⟨hat, hu⟩, .array hd hp hm hi, ?_⟩
      rw [List.length_append, Nat.add_assoc]
    · obtain ⟨u, hu, hi, rfl⟩ := hrep hat.end_le hr
      refine ⟨hd.bytes ++ u, at_append_iff.2 ⟨hat, hu⟩, .map hd hp hm hi, ?_⟩
      rw [List.length_append, Nat.add_assoc]
    · obtain ⟨u, hu, hi, rfl⟩ := ih hr hq
      refine ⟨hd.bytes ++ u, at_append_iff.2 ⟨hat, hu⟩, .tag hd hp hm hi, ?_⟩
      rw [List.length_append, Nat.add_assoc]
    · exact ⟨hd.bytes, hat, Item.simple hd hp hm, rfl⟩

/-- The content of an item after its head, as `skipShort` takes it. -/
def ShortAfter (checked : Bool) (more : Nat → Nat) (hd : Head) (rest : Bytes) : Prop :=
  match major hd.initial with
  | 0 | 1 => rest = []
  | 2 | 3 => rest.length = hd.arg
  | 4 => StepsOver (skipShort checked more) hd.arg rest
  | 5 => StepsOver (skipShort checked more) (hd.arg * 2) rest
  | 6 => StepsOver (skipShort checked more) 1 rest
  | 7 => rest.length = more (additional hd.initial)
  | _ => False

/-- A head and what must follow it are stepped over. -/
theorem stepsOver_of_shortAfter {hd : Head} (hshort : hd.Short) {rest : Bytes} (h : ShortAfter checked more hd rest) :
    StepsOver (skipShort checked more) 1 (hd.bytes ++ rest) := by
  rw [stepsOver_one_iff]
  intro d p k hk hat
  obtain ⟨hhd, hrest⟩ := at_append_iff.1 hat
  have hpos := hd.bytes_pos
  rw [List.length_append] at hk ⊢
  obtain ⟨k, rfl⟩ : ∃ j, k = j + 1 := ⟨k - 1, by omega⟩
  rw [← Nat.add_assoc]
  have hsteps : ShortSteps checked more d k hd p := skipShort_of_head hshort hhd k
  have hlt := major_lt hd.initial
  unfold ShortAfter at h
  rcases (by omega : major hd.initial = 0 ∨ major hd.initial = 1 ∨ major hd.initial = 2 ∨ major hd.initial = 3 ∨
    major hd.initial = 4 ∨ major hd.initial = 5 ∨ major hd.initial = 6 ∨ major hd.initial = 7) with
    hm | hm | hm | hm | hm | hm | hm | hm <;> simp only [hm] at h
  · rw [hsteps.int (.inl hm), h, List.length_nil, Nat.add_zero]
  · rw [hsteps.int (.inr hm), h, List.length_nil, Nat.add_zero]
  · have hend := hrest.end_le
    rw [hsteps.str (.inl hm) (.inr (by omega)), h]
  · have hend := hrest.end_le
    rw [hsteps.str (.inr hm) (.inr (by omega)), h]
  · rw [hsteps.array hm]
    exact h d _ k (by omega) hrest
  · rw [hsteps.map hm, Nat.mul_comm]
    exact h d _ k (by omega) hrest
  · rw [hsteps.tag hm]
    exact stepsOver_one_iff.1 h d _ k (by omega) hrest
  · rw [hsteps.simple hm, h]

/-- What has been stepped over inside the data is stepped over wherever it stands. -/
theorem skipShort_stepsOver {fuel p q : Nat} (h : skipShort checked more d fuel p = (.ok (), q)) (hq : q ≤ d.length) :
    ∃ u, At d p u ∧ q = p + u.length ∧ StepsOver (skipShort checked more) 1 u := by
  induction fuel generalizing p q with
  | zero => simp [skipShort] at h
  | succ fuel ih =>
    obtain ⟨hd, hp, hat, hc⟩ := skipShort_succ_ok h
    suffices hrest : ∃ rest, At d (p + hd.bytes.length) rest ∧ q = p + hd.bytes.length + rest.length ∧
        ShortAfter checked more hd rest by
      obtain ⟨rest, hr, rfl, hafter⟩ := hrest
      exact ⟨hd.bytes ++ rest, at_append_iff.2 ⟨hat, hr⟩, by rw [List.length_append, Nat.add_assoc],
        stepsOver_of_shortAfter hp hafter⟩
    have hle := hat.end_le
    have hrep : ∀ {n : Nat}, repeatN n (skipShort checked more d fuel) (p + hd.bytes.length) = (.ok (), q) →
        ∃ u, At d (p + hd.bytes.length) u ∧ q = p + hd.bytes.length + u.length ∧ StepsOver (skipShort checked more) n u := by
      intro n hn
      exact repeatN_stepsOver (fun _ _ hs => (skipShort_lt hs).le) (fun _ _ => ih) hle hn hq
    have hcut : ∀ {n : Nat}, q = p + hd.bytes.length + n →
        ∃ rest, At d (p + hd.bytes.length) rest ∧ q = p + hd.bytes.length + rest.length ∧ rest.length = n := by
      intro n hn
      obtain ⟨s, hs, hl⟩ := exists_at (hn ▸ hq)
      exact ⟨s, hs, by rw [hl, hn], hl⟩
    unfold ShortAfter
    rcases hc with ⟨hm | hm, hq'⟩ | ⟨hm | hm, hq', -⟩ | ⟨hm, hr⟩ | ⟨hm, hr⟩ | ⟨hm, hr⟩ | ⟨hm, hq'⟩ <;>
      have hm' : major hd.initial = _ := hm <;> simp only [hm']
    · exact ⟨[], at_nil hle, hq', rfl⟩
    · exact ⟨[], at_nil hle, hq', rfl⟩
    · exact hcut hq'
    · exact hcut hq'
    · exact hrep hr
    · rw [Nat.mul_comm]
      exact hrep hr
    · exact ih hr hq
    · exact hcut hq'

/-- Bytes that have been stepped over are stepped over wherever they stand. -/
theorem stepsOver_of_end {fuel p : Nat} {u : Bytes} (hat : At d p u)
    (h : skipShort checked more d fuel p = (.ok (), p + u.length)) : StepsOver (skipShort checked more) 1 u := by
  obtain ⟨v, hv, hlen, hsteps⟩ := skipShort_stepsOver h hat.end_le
  have huv : u = v := hat.unique hv (by omega)
  rw [huv]
  exact hsteps

/-- Items without a head after which the routine steps over further bytes are stepped over. -/
theorem stepsOver_of_items {P : Head → Prop} (hshort : ∀ h, P h → h.Short)
    (hmore : ∀ h, P h → h.IsMajor 7 → more (additional h.initial) = 0) {n : Nat} {u : Bytes} (hu : Items P n u) :
    StepsOver (skipShort checked more) n u := by
  -- Both the content of the first item and the items after it are shorter than the whole.
  induction hl : u.length using Nat.strong_induction_on generalizing n u with
  | _ l ih =>
    subst hl
    have hshorter : ∀ {m : Nat} {v : Bytes}, v.length < u.length → Items P m v → StepsOver (skipShort checked more) m v :=
      fun hlt hv => ih _ hlt hv rfl
    cases n with
    | zero =>
      rw [items_zero_iff.1 hu]
      exact stepsOver_zero
    | succ n =>
      obtain ⟨v, w, rfl, hv, hw⟩ := hu.split 1 n (Nat.add_comm n 1)
      obtain ⟨hd, rest, hp, rfl, hafter⟩ := Item.exists_head hv
      have hpos := hd.bytes_pos
      simp only [List.length_append] at hshorter
      rw [Nat.add_comm n 1]
      refine StepsOver.append (stepsOver_of_shortAfter (hshort hd hp) ?_) (hshorter (by omega) hw)
      have hrest : ∀ {m : Nat}, Items P m rest → StepsOver (skipShort checked more) m rest := fun hm => hshorter (by omega) hm
      have hstr : hd.IsMajor 2 ∨ hd.IsMajor 3 → rest.length = hd.arg := by
        intro hm
        obtain ⟨s, r, hs, rfl, hr⟩ := hafter.str hm
        rw [items_zero_iff.1 hr, List.append_nil, hs]
      have hlt := major_lt hd.initial
      unfold ShortAfter
      rcases (by omega : major hd.initial = 0 ∨ major hd.initial = 1 ∨ major hd.initial = 2 ∨ major hd.initial = 3 ∨
        major hd.initial = 4 ∨ major hd.initial = 5 ∨ major hd.initial = 6 ∨ major hd.initial = 7) with
        hm | hm | hm | hm | hm | hm | hm | hm <;> simp only [hm]
      · exact items_zero_iff.1 (hafter.int (.inl hm))
      · exact items_zero_iff.1 (hafter.int (.inr hm))
      · exact hstr (.inl hm)
      · exact hstr (.inr hm)
      · exact hrest (hafter.array hm)
      · rw [Nat.mul_comm]
        exact hrest (hafter.map hm)
      · exact hrest (hafter.tag hm)
      · rw [items_zero_iff.1 (hafter.simple hm), hmore hd hp hm]
        rfl

end FdoUefi
