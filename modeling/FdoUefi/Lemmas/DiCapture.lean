import FdoUefi.Lemmas.DiHeader
import FdoUefi.Lemmas.RvReturns

/-!
# Values that DI captures beyond the end

The skip routine of DI does not check strings against the end of the data, and the bytes it stepped over are sliced out
afterwards. It ends beyond the data exactly on an item whose last string is cut short there (`CutItems`): after a string that is
cut anywhere else something is still to be read, and that fails.
-/

namespace Cbor

open Prog

/-- The bytes are `n` items with heads in `P`, but the content of the string that they end with is cut short. -/
inductive CutItems (P : Head → Prop) : Nat → Bytes → Prop where
  | str (h : Head) (s : Bytes) (hp : P h) (hm : h.IsMajor 2 ∨ h.IsMajor 3) (hcut : s.length < h.arg) : CutItems P 1 (h.bytes ++ s)
  | array {u : Bytes} (h : Head) (hp : P h) (hm : h.IsMajor 4) (hu : CutItems P h.arg u) : CutItems P 1 (h.bytes ++ u)
  | map {u : Bytes} (h : Head) (hp : P h) (hm : h.IsMajor 5) (hu : CutItems P (2 * h.arg) u) : CutItems P 1 (h.bytes ++ u)
  | tag {u : Bytes} (h : Head) (hp : P h) (hm : h.IsMajor 6) (hu : CutItems P 1 u) : CutItems P 1 (h.bytes ++ u)
  | cons {n : Nat} {u v : Bytes} (hu : Item P u) (hv : CutItems P (n + 1) v) : CutItems P (n + 2) (u ++ v)

end Cbor

namespace FdoUefi

open Prog Prog.Run Cbor

variable {d : Bytes} {p q : Nat}

/-- What is left where something stands is that and what follows it. -/
theorem drop_of_at {u : Bytes} (hat : At d p u) : d.drop p = u ++ d.drop (p + u.length) := by
  obtain ⟨pre, post, rfl, rfl⟩ := at_iff_append.1 hat
  rw [List.append_assoc, List.drop_left, ← List.length_append, ← List.append_assoc, List.drop_left]

/-- What stands up to the end. -/
theorem at_drop (hp : p ≤ d.length) : At d p (d.drop p) ∧ p + (d.drop p).length = d.length := by
  refine ⟨⟨hp, List.prefix_refl _⟩, ?_⟩
  rw [List.length_drop]
  omega

/-- Slicing returns exactly where the range is one of the data. -/
theorem slice_returns_iff {σ ε : Type} {a b : Nat} {s : σ} : ((slice d a b : Run σ ε Bytes) s).1.Returns ↔ a ≤ b ∧ b ≤ d.length := by
  unfold slice range?
  by_cases h : a ≤ b ∧ b ≤ d.length
  · rw [if_pos h]
    exact iff_of_true trivial h
  · rw [if_neg h]
    exact iff_of_false id h

/-- The skip routine reads a byte at its cursor. -/
theorem skipShort_inside {checked : Bool} {more : Nat → Nat} {k : Nat} (h : skipShort checked more d k p = (.ok (), q)) :
    p < d.length := by
  cases k with
  | zero => simp [skipShort] at h
  | succ k =>
    obtain ⟨hd, -, hat, -⟩ := skipShort_succ_ok h
    have hend := hat.end_le
    have hpos := hd.bytes_pos
    omega

namespace Di

/-- Steps that each go over an item or end beyond the data: where they end beyond it, the last string is cut. -/
theorem cutItems_of_repeatN {k : Nat}
    (hone : ∀ p q, cborSkipValueTo d k p = (.ok (), q) → d.length < q → CutItems Head.Short 1 (d.drop p)) {n : Nat}
    (hp : p ≤ d.length) (h : repeatN n (cborSkipValueTo d k) p = (.ok (), q)) (hq : d.length < q) :
    CutItems Head.Short n (d.drop p) := by
  induction n generalizing p with
  | zero =>
    have hqp := repeatN_zero_ok_iff.1 h
    omega
  | succ n ih =>
    obtain ⟨r, h1, h2⟩ := repeatN_succ_ok_iff.1 h
    by_cases hr : r ≤ d.length
    · obtain ⟨u, hat, hitem, rfl⟩ := skipShort_item h1 hr
      have hrest := ih hr h2
      cases n with
      | zero =>
        have hqr := repeatN_zero_ok_iff.1 h2
        omega
      | succ n =>
        rw [drop_of_at hat]
        exact .cons hitem hrest
    · cases n with
      | zero => exact hone p r h1 (by omega)
      | succ n =>
        -- nothing is read beyond the end
        obtain ⟨s, h3, -⟩ := repeatN_succ_ok_iff.1 h2
        have hinside := skipShort_inside h3
        omega

/-- Where the skip routine ends beyond the data, the last string of the item is cut. -/
theorem cutItems_of_overrun {k : Nat} (h : cborSkipValueTo d k p = (.ok (), q)) (hq : d.length < q) :
    CutItems Head.Short 1 (d.drop p) := by
  induction k generalizing p q with
  | zero => simp [cborSkipValueTo, skipShort] at h
  | succ k ih =>
    obtain ⟨hd, hs, hat, hc⟩ := skipShort_succ_ok h
    have hend := hat.end_le
    have hrep : ∀ {n : Nat}, repeatN n (cborSkipValueTo d k) (p + hd.bytes.length) = (.ok (), q) →
        CutItems Head.Short n (d.drop (p + hd.bytes.length)) := fun hr =>
      cutItems_of_repeatN (fun _ _ => ih) hend hr hq
    rw [drop_of_at hat]
    rcases hc with ⟨-, rfl⟩ | ⟨hm, rfl, -⟩ | ⟨hm, hr⟩ | ⟨hm, hr⟩ | ⟨hm, hr⟩ | ⟨-, rfl⟩
    · omega
    · refine .str hd _ hs hm ?_
      rw [List.length_drop]
      omega
    · exact .array hd hs hm (hrep hr)
    · exact .map hd hs hm (hrep hr)
    · exact .tag hd hs hm (ih hr hq)
    · change d.length < p + hd.bytes.length + 0 at hq
      omega

/-- Where the last string of an item is cut, the skip routine ends beyond the data. -/
theorem overrun_of_cutItems {n : Nat} {u : Bytes} (hu : CutItems Head.Short n u) {k : Nat} (hk : u.length ≤ k) (hat : At d p u)
    (hend : p + u.length = d.length) : ∃ q, d.length < q ∧ repeatN n (cborSkipValueTo d k) p = (.ok (), q) := by
  induction hu generalizing p k with
  | str hd s hs hm hcut =>
    obtain ⟨hhead, -⟩ := at_append_iff.1 hat
    have hpos := hd.bytes_pos
    rw [List.length_append] at hk hend
    obtain ⟨k, rfl⟩ : ∃ j, k = j + 1 := ⟨k - 1, by omega⟩
    refine ⟨p + hd.bytes.length + hd.arg, by omega, ?_⟩
    rw [repeatN_one, cborSkipValueTo, (skipShort_of_head hs hhead _).str hm (.inl rfl)]
  | array hd hs hm _ ih =>
    obtain ⟨hhead, hrest⟩ := at_append_iff.1 hat
    have hpos := hd.bytes_pos
    rw [List.length_append] at hk hend
    obtain ⟨k, rfl⟩ : ∃ j, k = j + 1 := ⟨k - 1, by omega⟩
    obtain ⟨q, hq, hrun⟩ := ih (k := k) (by omega) hrest (by omega)
    refine ⟨q, hq, ?_⟩
    rw [repeatN_one, cborSkipValueTo, (skipShort_of_head hs hhead _).array hm]
    exact hrun
  | map hd hs hm _ ih =>
    obtain ⟨hhead, hrest⟩ := at_append_iff.1 hat
    have hpos := hd.bytes_pos
    rw [List.length_append] at hk hend
    obtain ⟨k, rfl⟩ : ∃ j, k = j + 1 := ⟨k - 1, by omega⟩
    obtain ⟨q, hq, hrun⟩ := ih (k := k) (by omega) hrest (by omega)
    refine ⟨q, hq, ?_⟩
    rw [repeatN_one, cborSkipValueTo, (skipShort_of_head hs hhead _).map hm]
    exact hrun
  | tag hd hs hm _ ih =>
    obtain ⟨hhead, hrest⟩ := at_append_iff.1 hat
    have hpos := hd.bytes_pos
    rw [List.length_append] at hk hend
    obtain ⟨k, rfl⟩ : ∃ j, k = j + 1 := ⟨k - 1, by omega⟩
    obtain ⟨q, hq, hrun⟩ := ih (k := k) (by omega) hrest (by omega)
    refine ⟨q, hq, ?_⟩
    rw [repeatN_one, cborSkipValueTo, (skipShort_of_head hs hhead _).tag hm]
    rw [repeatN_one] at hrun
    exact hrun
  | @cons n u v hitem _ ih =>
    obtain ⟨hu, hrest⟩ := at_append_iff.1 hat
    rw [List.length_append] at hk hend
    obtain ⟨q, hq, hrun⟩ := ih (k := k) (by omega) hrest (by omega)
    have hsteps : StepsOver (skipShort false fun _ => 0) 1 u := stepsOver_of_items (fun _ hP => hP) (fun _ _ _ => rfl) hitem
    have hfirst := stepsOver_one_iff.1 hsteps d p k (by omega) hu
    exact ⟨q, hq, repeatN_succ_ok_iff.2 ⟨_, hfirst, hrun⟩⟩

/-- A captured value is sliced out of range exactly where its last string is cut short by the end of the data. -/
theorem cborCaptureValue_returns_iff (hp : p ≤ d.length) :
    (cborCaptureValue d p).1.Returns ↔ ¬CutItems Head.Short 1 (d.drop p) := by
  obtain ⟨hat, hend⟩ := at_drop hp
  have hskip : ∀ s, (cborSkipValue d s).1.Returns := fun s => skipShort_returns (by omega) (by omega)
  have hcapture : (cborCaptureValue d p).1.Returns ↔ ∀ q, cborSkipValue d p = (.ok (), q) → q ≤ d.length := by
    unfold cborCaptureValue
    rw [bind_of_ok (getS_apply _), bind_returns_iff]
    constructor
    · rintro ⟨-, hall⟩ q hrun
      have hslice := hall () q hrun
      rw [bind_of_ok (getS_apply _), slice_returns_iff] at hslice
      exact hslice.2
    · intro hall
      refine ⟨hskip p, fun _ q hrun => ?_⟩
      rw [bind_of_ok (getS_apply _), slice_returns_iff]
      exact ⟨(skipShort_lt hrun).le, hall q hrun⟩
  rw [hcapture]
  constructor
  · intro hall hcut
    obtain ⟨q, hq, hrun⟩ := overrun_of_cutItems (k := d.length + 1) hcut (by omega) hat hend
    rw [repeatN_one] at hrun
    have hle := hall q hrun
    omega
  · intro hno q hrun
    by_contra hlt
    exact hno (cutItems_of_overrun hrun (by omega))

end Di

end FdoUefi
