import FdoUefi.Lemmas.Skips

/-!
# Stepping over one data item

The six skip routines step over exactly one well-formed item, and agree, wherever the data hold nothing that they misread. Each
kind of misread place is one where the routine succeeds and does not stop at the end of an item.
-/

namespace FdoUefi

open Prog Prog.Run Cbor

/-- At `p`, what a routine of `rs` steps over is one well-formed item, and any two of them stop at the same place. -/
def SkipsItems (d : Bytes) (rs : Set SkipRoutine) (p : Nat) : Prop :=
  (∀ r ∈ rs, ∀ q, r.Steps d p q → OneItem d p q) ∧
    ∀ r ∈ rs, ∀ r' ∈ rs, ∀ q q', r.Steps d p q → r'.Steps d p q' → q = q'

namespace Aux

variable {d : Bytes} {p q : Nat}

/-- One level of a routine, at a place that it does not misread. -/
theorem skip_level (hd : d.length ≤ sliceMax) (r : SkipRoutine) {k : Nat} (hno : ¬r.Misreads d p)
    (h : r.StepsIn d (k + 1) p q) :
    ∃ hd : Head, hd.Rfc ∧ At d p hd.bytes ∧ Level d (fun p q => r.StepsIn d k p q) hd p q := by
  cases r with
  | decoder => exact decoder_level hd hno h
  | cose => exact cose_level hno h
  | dctpm => exact dctpm_level hno h
  | di => exact skipShort_level (fun hl => hno (.inl hl)) (fun _ hs => hno (.inr hs)) (fun _ _ _ _ => rfl) h
  | tpm =>
    refine skipShort_level (fun hl => hno (.inl hl)) (by simp) (fun k₀ h7 h27 hat => ?_) h
    by_cases hshort : additional k₀.initial = 25 ∨ additional k₀.initial = 26
    · exact absurd (.inr ⟨k₀, h7, hshort, hat⟩) hno
    · rw [if_neg (by omega), if_neg (by omega), if_neg (by omega)]
  | rv => exact skipShort_level hno (by simp) (fun _ _ _ _ => rfl) h

/-- Where a routine misreads nothing inside, it steps over one item. -/
theorem oneItem_of_steps (hd : d.length ≤ sliceMax) (r : SkipRoutine) (hno : ∀ p', Inner d p p' → ¬r.Misreads d p')
    (h : r.Steps d p q) : OneItem d p q := by
  obtain ⟨fuel, h⟩ := h
  refine walk_item (W := fun k p q => r.StepsIn d k p q) ?_ (fun k p q => skip_level hd r) hno h
  intro p q h0
  cases r <;> simp [SkipRoutine.StepsIn, Dec.skipValue, cborSkipTo, Dctpm.skip, Di.cborSkipValueTo, Tpm.skipCborValueTo,
    Rv.skipCborValueTo, skipShort] at h0

/-- At a place that it misreads a routine succeeds, and has not stepped over one item. -/
theorem misread_steps (hd : d.length ≤ sliceMax) (r : SkipRoutine) (h : r.Misreads d p) :
    ∃ q, r.Steps d p q ∧ ¬OneItem d p q := by
  -- The last three routines read the argument of a low simple value and stop behind it.
  have hshort : ∀ {checked : Bool} {more : Nat → Nat}, LowSimple d p →
      ∃ q, skipShort checked more d 1 p = (.ok (), q) ∧ ¬OneItem d p q := by
    intro checked more hl
    obtain ⟨k₀, h7, h24, hat, -⟩ := hl.exists_head
    exact ⟨_, (skipShort_of_head (show additional _ < 27 by omega) hat 0).simple h7, hl.not_oneItem _⟩
  cases r with
  | decoder =>
    rcases h with hb | h | h | h
    · refine ⟨_, decoder_steps_simple hd hb (by decide), fun hone => ?_⟩
      have hend := hb.end_le
      simp only [List.length_singleton, sliceMax] at hd hend
      rw [if_pos (by decide), Nat.add_zero, Nat.mod_eq_of_lt (by unfold wordSize; omega)] at hone
      obtain ⟨hd, rest, -, hat, hlen, -⟩ := hone.exists_head
      have hhead : At d p ([hd.initial] ++ (hd.tail ++ rest)) := hat
      have hf8 : [(0xf8 : UInt8)] = [hd.initial] := hb.unique (at_append_iff.1 hhead).1 rfl
      have htwo : hd.bytes.length = 2 := by rw [hd.bytes_length, ← List.singleton_inj.1 hf8]; decide
      rw [List.length_append] at hlen
      omega
    · obtain ⟨b, hb, h7, -⟩ := id h
      exact ⟨_, decoder_steps_simple hd hb h7, h.not_oneItem _⟩
    · obtain ⟨b, hb, h7, -⟩ := id h
      exact ⟨_, decoder_steps_simple hd hb h7, h.not_oneItem _⟩
    · obtain ⟨k₀, -, hm, hat, -⟩ := id h
      exact ⟨_, decoder_steps_str hd hm hat, h.not_oneItem _⟩
  | cose =>
    rcases h with h | h | h
    · obtain ⟨b, hat, -⟩ := id h
      exact ⟨_, cose_steps_simple (at_append_iff.1 (show At d p ([0xf8] ++ [b]) from hat)).1 (by decide), h.not_oneItem _⟩
    · obtain ⟨b, hb, h7, -⟩ := id h
      exact ⟨_, cose_steps_simple hb h7, h.not_oneItem _⟩
    · obtain ⟨b, hb, h7, -⟩ := id h
      exact ⟨_, cose_steps_simple hb h7, h.not_oneItem _⟩
  | dctpm =>
    rcases h with h | h
    · obtain ⟨q, hq⟩ := dctpm_steps_low h
      exact ⟨q, hq, h.not_oneItem q⟩
    · obtain ⟨q, hq⟩ := dctpm_steps_wide hd h
      exact ⟨q, hq, h.not_oneItem hd q⟩
  | di =>
    rcases h with h | h
    · obtain ⟨q, hq, hno⟩ := hshort h
      exact ⟨q, ⟨1, hq⟩, hno⟩
    · obtain ⟨k₀, hn, hm, hat, -⟩ := id h
      have h27 : additional k₀.initial < 27 := hn.resolve_left (by unfold Head.IsMajor at hm ⊢; omega)
      exact ⟨_, ⟨1, (skipShort_of_head h27 hat 0).str hm (.inl rfl)⟩, h.not_oneItem _⟩
  | tpm =>
    rcases h with h | ⟨k₀, h7, hshort, hat⟩
    · obtain ⟨q, hq, hno⟩ := hshort h
      exact ⟨q, ⟨1, hq⟩, hno⟩
    · refine ⟨_, ⟨1, (skipShort_of_head (show additional _ < 27 by omega) hat 0).simple h7⟩, fun hone => ?_⟩
      have hq := hone.eq_of_simple h7 hat
      rcases hshort with hai | hai <;> simp [hai] at hq
  | rv =>
    obtain ⟨q, hq, hno⟩ := hshort h
    exact ⟨q, ⟨1, hq⟩, hno⟩

end Aux

/-- The skip routines of `rs` step over exactly one well-formed item, and agree, at every place of the data if and only if
none of them misreads one of these places; and at a place and all that are inside the item there, if and only if none of them
misreads one of those. -/
theorem skipsItems_iff (s : Slice) (rs : Set SkipRoutine) :
    ((∀ p, SkipsItems s.bytes rs p) ↔ ∀ r ∈ rs, ∀ p, ¬r.Misreads s.bytes p) ∧
      ∀ p, (∀ p', Inner s.bytes p p' → SkipsItems s.bytes rs p') ↔
        ∀ r ∈ rs, ∀ p', Inner s.bytes p p' → ¬r.Misreads s.bytes p' := by
  have hpart : ∀ p, (∀ p', Inner s.bytes p p' → SkipsItems s.bytes rs p') ↔
      ∀ r ∈ rs, ∀ p', Inner s.bytes p p' → ¬r.Misreads s.bytes p' := by
    intro p
    constructor
    · intro h r hr p' hp hmis
      obtain ⟨q, hq, hno⟩ := Aux.misread_steps s.fits r hmis
      exact hno ((h p' hp).1 r hr q hq)
    · intro h p' hp
      have hone : ∀ r ∈ rs, ∀ q, r.Steps s.bytes p' q → OneItem s.bytes p' q := fun r hr q hq =>
        Aux.oneItem_of_steps s.fits r (fun t ht => h r hr t (hp.trans ht)) hq
      exact ⟨hone, fun r hr r' hr' q q' hq hq' => (hone r hr q hq).unique (hone r' hr' q' hq')⟩
  refine ⟨⟨fun h r hr p => ?_, fun h p => ?_⟩, hpart⟩
  · exact (hpart p).1 (fun p' _ => h p') r hr p (.here p)
  · exact (hpart p).2 (fun r hr p' _ => h r hr p') p (.here p)

/-- The half float 1.0, and two integers after it. -/
def halfFloat : Slice := ⟨[0xf9, 0x3c, 0x00, 0x01, 0x02], by decide⟩

/-- `tpm.rs` steps over the two bytes of the float twice and takes the integers with it; `rv_parse.rs` stops at its end. -/
theorem halfFloat_not_skipsItems :
    SkipRoutine.tpm.Steps halfFloat.bytes 0 5 ∧ SkipRoutine.rv.Steps halfFloat.bytes 0 3 ∧
      ¬SkipsItems halfFloat.bytes Set.univ 0 := by
  have htpm : SkipRoutine.tpm.Steps halfFloat.bytes 0 5 := ⟨1, by unfold SkipRoutine.StepsIn; decide⟩
  have hrv : SkipRoutine.rv.Steps halfFloat.bytes 0 3 := ⟨1, by unfold SkipRoutine.StepsIn; decide⟩
  refine ⟨htpm, hrv, fun h => ?_⟩
  have heq : 5 = 3 := h.2 .tpm trivial .rv trivial 5 3 htpm hrv
  exact absurd heq (by decide)

end FdoUefi
