import FdoUefi.Lib.Walk
import FdoUefi.Lemmas.Dctpm
import FdoUefi.Lemmas.ShortSkip
import FdoUefi.Lemmas.RoundTrip
import FdoUefi.Lemmas.DecoderReaders

/-!
# The six skip routines

What each routine does with the head at its cursor: one level of a walk over an item (`Level`), unless the place is one that the
routine misreads (`SkipRoutine.Misreads`), where it comes to some place that is not the end of an item.
-/

namespace FdoUefi

open Prog Prog.Run Cbor

/-! ## Places that are misread -/

section Places

variable (d : Bytes) (p : Nat)

/-- A simple value below 32 in two bytes, which RFC 8949 does not allow. -/
def LowSimple : Prop := ∃ b : UInt8, At d p [0xf8, b] ∧ b.toNat < 32

/-- A reserved initial byte of major type 7 or a break. -/
def Reserved : Prop := ∃ b, At d p [b] ∧ major b = 7 ∧ 28 ≤ additional b

/-- A simple value or a float that the end of the data cuts off. -/
def CutSimple : Prop := ∃ b, At d p [b] ∧ major b = 7 ∧ d.length < p + 1 + extLen (additional b)

/-- A string, with a head in `P`, whose content the end of the data cuts off. -/
def CutString (P : Head → Prop) : Prop :=
  ∃ hd : Head, P hd ∧ (hd.IsMajor 2 ∨ hd.IsMajor 3) ∧ At d p hd.bytes ∧ d.length < p + hd.bytes.length + hd.arg

/-- A half or a single float. -/
def ShortFloat : Prop :=
  ∃ hd : Head, hd.IsMajor 7 ∧ (additional hd.initial = 25 ∨ additional hd.initial = 26) ∧ At d p hd.bytes

/-- A map of `2 ^ 63` entries or more, with as many items behind its head as twice that number is modulo `2 ^ 64`. -/
def WideMap : Prop :=
  ∃ (hd : Head) (u : Bytes), hd.IsMajor 5 ∧ 2 ^ 63 ≤ hd.arg ∧ At d p (hd.bytes ++ u) ∧
    Items Head.Rfc (hd.arg * 2 % 2 ^ 64) u

end Places

/-! ## The routines -/

/-- The skip routines: `CborDecoder::skip_value`, `cose::cbor_skip`, `skip` of `dctpm.rs`, `cbor_skip_value` of
`di/protocol.rs`, and `skip_cbor_value` of `tpm.rs` and of `rv_parse.rs`. -/
inductive SkipRoutine where
  | decoder | cose | dctpm | di | tpm | rv
  deriving DecidableEq, Repr

namespace SkipRoutine

/-- The routine succeeds within a recursion depth, from `p` to `q`. -/
def StepsIn (d : Bytes) (fuel p q : Nat) : SkipRoutine → Prop
  | decoder => ∃ log log', Dec.skipValue d fuel ⟨p, log⟩ = (.ok (), ⟨q, log'⟩)
  | cose => cborSkipTo d fuel p = (.ok (), q)
  | dctpm => Dctpm.skip d fuel p = (.ok (), q)
  | di => Di.cborSkipValueTo d fuel p = (.ok (), q)
  | tpm => Tpm.skipCborValueTo d fuel p = (.ok (), q)
  | rv => Rv.skipCborValueTo d fuel p = (.ok (), q)

/-- The routine succeeds from `p` to `q`. -/
def Steps (r : SkipRoutine) (d : Bytes) (p q : Nat) : Prop := ∃ fuel, r.StepsIn d fuel p q

/-- What stands at `p` is not what the routine takes it for. -/
def Misreads (d : Bytes) (p : Nat) : SkipRoutine → Prop
  | decoder => At d p [0xf8] ∨ Reserved d p ∨ CutSimple d p ∨ CutString d p fun _ => True
  | cose => LowSimple d p ∨ Reserved d p ∨ CutSimple d p
  | dctpm => LowSimple d p ∨ WideMap d p
  | di => LowSimple d p ∨ CutString d p Head.Narrow
  | tpm => LowSimple d p ∨ ShortFloat d p
  | rv => LowSimple d p

end SkipRoutine

variable {d : Bytes} {p q k : Nat}

/-! ## One level -/

/-- The head of a simple value in two bytes. -/
theorem initial_eq_f8 {hd : Head} (h7 : hd.IsMajor 7) (h24 : additional hd.initial = 24) :
    ∃ b : UInt8, hd.bytes = [0xf8, b] ∧ hd.arg = b.toNat := by
  have hi : hd.initial = 0xf8 := initial_ext (c := 0xf8) h7 h24
  have hlen : hd.tail.length = 1 := by rw [hd.tail_length, h24]; rfl
  obtain ⟨b, hb⟩ := List.length_eq_one_iff.1 hlen
  refine ⟨b, by rw [Head.bytes, hi, hb], ?_⟩
  rw [Head.arg, argVal, if_neg (by omega), hb]
  simp [beNat]

/-- Where no low simple value stands, RFC 8949 allows a head that is not reserved. -/
theorem rfc_of_not_low {hd : Head} (h28 : additional hd.initial < 28) (hlow : ¬LowSimple d p) (hat : At d p hd.bytes) :
    hd.Rfc := by
  refine ⟨h28, fun h7 h24 => ?_⟩
  obtain ⟨b, hb, harg⟩ := initial_eq_f8 h7 h24
  by_contra hlt
  rw [hb] at hat
  exact hlow ⟨b, hat, by omega⟩

/-- The kinds of heads, as a level tells them apart. -/
theorem head_kinds (hd : Head) : (hd.IsMajor 0 ∨ hd.IsMajor 1) ∨ (hd.IsMajor 2 ∨ hd.IsMajor 3) ∨ hd.IsMajor 4 ∨ hd.IsMajor 5 ∨
    hd.IsMajor 6 ∨ hd.IsMajor 7 := by
  have hlt := major_lt hd.initial
  unfold Head.IsMajor
  omega

/-- A head stands where `skip_value` has stepped over something, unless the place is misread. -/
theorem decoder_head (hd : d.length ≤ sliceMax) (hno : ¬SkipRoutine.decoder.Misreads d p) {c c' : Cur} (hc : c.pos = p)
    (h : Dec.skipValue d (k + 1) c = (.ok (), c')) : ∃ hd : Head, additional hd.initial < 28 ∧ At d p hd.bytes := by
  subst hc
  rw [Dec.skipValue] at h
  obtain ⟨b, c₁, hb, h⟩ := bind_ok_iff.1 h
  obtain ⟨hbat, -⟩ := readByte_ok hd hb
  by_cases h7 : major b = 7
  · have h28 : additional b < 28 := by
      by_contra h28
      exact hno (.inr (.inl ⟨b, hbat, h7, by omega⟩))
    have hle : c.pos + 1 + extLen (additional b) ≤ d.length := by
      by_contra hle
      exact hno (.inr (.inr (.inl ⟨b, hbat, h7, by omega⟩)))
    obtain ⟨hd, rfl, hat⟩ := exists_head_of_major_seven hbat h7 hle
    exact ⟨hd, h28, hat⟩
  · have harg : ∃ v c₂, Dec.decodeAdditional d (additional b) c₁ = (.ok v, c₂) := by
      have hlt := major_lt b
      rcases (by omega : major b = 0 ∨ major b = 1 ∨ major b = 2 ∨ major b = 3 ∨ major b = 4 ∨ major b = 5 ∨ major b = 6) with
        hm | hm | hm | hm | hm | hm | hm <;> simp only [hm] at h <;> obtain ⟨v, c₂, hv, -⟩ := bind_ok_iff.1 h <;>
        exact ⟨v, c₂, hv⟩
    obtain ⟨v, c₂, hv⟩ := harg
    obtain ⟨hd, rfl, hat, -⟩ := decHead_ok hd hb hv
    exact ⟨hd, hd.defined.resolve_right h7, hat⟩

/-- One level of `skip_value`. -/
theorem decoder_level (hd : d.length ≤ sliceMax) (hno : ¬SkipRoutine.decoder.Misreads d p)
    (h : SkipRoutine.decoder.StepsIn d (k + 1) p q) :
    ∃ hd : Head, hd.Rfc ∧ At d p hd.bytes ∧ Level d (fun p q => SkipRoutine.decoder.StepsIn d k p q) hd p q := by
  obtain ⟨log, log', h⟩ := h
  obtain ⟨k₀, h28, hat⟩ := decoder_head hd hno rfl h
  have hitem := skipValue_succ_ok hd (c := ⟨p, log⟩) hat h
  have hns : k₀.NoByteSimple := fun hf8 => by
    have hk : At d p ([k₀.initial] ++ k₀.tail) := hat
    rw [hf8] at hk
    exact hno (.inl (at_append_iff.1 hk).1)
  have hlow : ¬LowSimple d p := fun ⟨b, hb, _⟩ => hno (.inl (at_append_iff.1 (show At d p ([0xf8] ++ [b]) from hb)).1)
  have hnest : ∀ {n : Nat} {c₁ : Cur}, c₁.pos = p + k₀.bytes.length → repeatN n (Dec.skipValue d k) c₁ = (.ok (), ⟨q, log'⟩) →
      StepsN (fun p q => SkipRoutine.decoder.StepsIn d k p q) n (p + k₀.bytes.length) q := by
    intro n c₁ hc₁ hn
    rw [← hc₁]
    exact repeatN_stepsN Cur.pos (fun s t hst => ⟨s.log, t.log, hst⟩) hn
  refine ⟨k₀, rfc_of_not_low h28 hlow hat, hat, ?_⟩
  rcases head_kinds k₀ with hm | hm | hm | hm | hm | hm
  · rw [show q = p + k₀.bytes.length from hitem.int hm]
    exact .single (by tauto)
  · have hle : p + k₀.bytes.length + k₀.arg ≤ d.length := by
      by_contra hle
      exact hno (.inr (.inr (.inr ⟨k₀, trivial, hm, hat, by omega⟩)))
    have hq : q = (p + k₀.bytes.length + k₀.arg) % wordSize := hitem.str hm
    rw [hq, Nat.mod_eq_of_lt (by simp only [sliceMax] at hd; unfold wordSize; omega)]
    exact .str hm hle
  · obtain ⟨c₁, hc₁, hn⟩ := hitem.array hm
    exact .array hm (hnest hc₁ hn)
  · obtain ⟨c₁, hc₁, hn⟩ := hitem.map hm
    exact .map hm (hnest hc₁ hn)
  · obtain ⟨c₁, hc₁, hn⟩ := hitem.tag hm
    refine .tag hm ?_
    rw [← hc₁]
    exact ⟨c₁.log, log', hn⟩
  · rw [show q = p + k₀.bytes.length from hitem.simple hm hns]
    exact .single (.inr (.inr hm))

/-- One level of `cbor_skip`. -/
theorem cose_level (hno : ¬SkipRoutine.cose.Misreads d p) (h : SkipRoutine.cose.StepsIn d (k + 1) p q) :
    ∃ hd : Head, hd.Rfc ∧ At d p hd.bytes ∧ Level d (fun p q => SkipRoutine.cose.StepsIn d k p q) hd p q := by
  have hlow : ¬LowSimple d p := fun hl => hno (.inl hl)
  have hnest : ∀ {n s : Nat}, repeatN n (cborSkipTo d k) s = (.ok (), q) →
      StepsN (fun p q => SkipRoutine.cose.StepsIn d k p q) n s q := fun hn =>
    repeatN_stepsN id (fun _ _ hst => hst) hn
  rcases cborSkipTo_succ_ok h with ⟨b, hbat, h7, rfl⟩ | ⟨k₀, hnarrow, hat, hc⟩
  · have h28 : additional b < 28 := by
      by_contra h28
      exact hno (.inr (.inl ⟨b, hbat, h7, by omega⟩))
    have hle : p + 1 + extLen (additional b) ≤ d.length := by
      by_contra hle
      exact hno (.inr (.inr ⟨b, hbat, h7, by omega⟩))
    obtain ⟨k₀, rfl, hat⟩ := exists_head_of_major_seven hbat h7 hle
    refine ⟨k₀, rfc_of_not_low h28 hlow hat, hat, ?_⟩
    rw [Nat.add_assoc, ← k₀.bytes_length]
    exact .single (.inr (.inr h7))
  · have h28 : ¬k₀.IsMajor 7 → additional k₀.initial < 28 := k₀.defined.resolve_right
    refine ⟨k₀, rfc_of_not_low (h28 ?_) hlow hat, hat, ?_⟩
    · unfold Head.IsMajor at hc ⊢
      omega
    · rcases hc with ⟨hm, rfl⟩ | ⟨hm, rfl, hle⟩ | ⟨hm, hn⟩ | ⟨hm, hn⟩ | ⟨hm, hn⟩
      · exact .single (by tauto)
      · exact .str hm hle
      · exact .array hm (hnest hn)
      · exact .map hm (hnest hn)
      · exact .tag hm hn

/-- One level of `skip` of `dctpm.rs`. The number of items behind the head of a map is right, or too small. -/
theorem dctpm_level (hno : ¬SkipRoutine.dctpm.Misreads d p) (h : SkipRoutine.dctpm.StepsIn d (k + 1) p q) :
    ∃ hd : Head, hd.Rfc ∧ At d p hd.bytes ∧ Level d (fun p q => SkipRoutine.dctpm.StepsIn d k p q) hd p q := by
  have hnest : ∀ {n s : Nat}, repeatN n (Dctpm.skip d k) s = (.ok (), q) →
      StepsN (fun p q => SkipRoutine.dctpm.StepsIn d k p q) n s q := fun hn =>
    repeatN_stepsN id (fun _ _ hst => hst) hn
  unfold SkipRoutine.StepsIn at h
  rw [Dctpm.skip] at h
  obtain ⟨⟨m, arg⟩, r, hhead, h⟩ := bind_ok_iff.1 h
  obtain ⟨k₀, h28, hat, rfl, rfl, rfl⟩ := Dctpm.head_ok_iff.1 hhead
  refine ⟨k₀, rfc_of_not_low h28 (fun hl => hno (.inl hl)) hat, hat, ?_⟩
  have hstr : (getS >>= fun pos => ensure (pos + k₀.arg ≤ d.length) () >>= fun _ => advance k₀.arg) (p + k₀.bytes.length) =
      (.ok (), q) → p + k₀.bytes.length + k₀.arg ≤ d.length ∧ q = p + k₀.bytes.length + k₀.arg := by
    intro hs
    simp only [bind_ok_iff, getS_apply, ensure_ok_iff, advance_apply, Prod.mk.injEq, Outcome.ok.injEq] at hs
    obtain ⟨_, _, ⟨rfl, rfl⟩, _, _, ⟨hle, rfl⟩, -, rfl⟩ := hs
    exact ⟨hle, rfl⟩
  rcases head_kinds k₀ with (hm | hm) | (hm | hm) | hm | hm | hm | hm <;>
    have hm' : major k₀.initial = _ := hm <;> simp only [hm'] at h
  · rw [(pure_ok_iff.1 h).2]
    exact .single (.inl hm)
  · rw [(pure_ok_iff.1 h).2]
    exact .single (.inr (.inl hm))
  · obtain ⟨hle, rfl⟩ := hstr h
    exact .str (.inl hm) hle
  · obtain ⟨hle, rfl⟩ := hstr h
    exact .str (.inr hm) hle
  · exact .array hm (hnest h)
  · have hmod : k₀.arg * 2 % 2 ^ 64 ≤ k₀.contents := by
      rw [Head.contents_map hm, Nat.mul_comm 2]
      exact Nat.mod_le _ _
    refine .nested (.inr (.inl hm)) hmod (hnest h) fun u hu hbt => ?_
    rw [Head.contents_map hm, Nat.mul_comm 2]
    refine Nat.mod_eq_of_lt ?_
    by_contra hge
    exact hno (.inr ⟨k₀, u, hm, by omega, at_append_iff.2 ⟨hat, hbt⟩, hu⟩)
  · exact .tag hm h
  · rw [(pure_ok_iff.1 h).2]
    exact .single (.inr (.inr hm))

/-- One level of the routines for arguments of at most four bytes. -/
theorem skipShort_level {checked : Bool} {more : Nat → Nat} (hlow : ¬LowSimple d p)
    (hstr : checked = false → ¬CutString d p Head.Narrow)
    (hmore : ∀ hd : Head, hd.IsMajor 7 → additional hd.initial < 27 → At d p hd.bytes → more (additional hd.initial) = 0)
    (h : skipShort checked more d (k + 1) p = (.ok (), q)) :
    ∃ hd : Head, hd.Rfc ∧ At d p hd.bytes ∧ Level d (fun p q => skipShort checked more d k p = (.ok (), q)) hd p q := by
  have hnest : ∀ {n s : Nat}, repeatN n (skipShort checked more d k) s = (.ok (), q) →
      StepsN (fun p q => skipShort checked more d k p = (.ok (), q)) n s q := fun hn =>
    repeatN_stepsN id (fun _ _ hst => hst) hn
  obtain ⟨k₀, h27, hat, hc⟩ := skipShort_succ_ok h
  refine ⟨k₀, rfc_of_not_low (lt_trans h27 (by omega)) hlow hat, hat, ?_⟩
  rcases hc with ⟨hm, rfl⟩ | ⟨hm, rfl, hle⟩ | ⟨hm, hn⟩ | ⟨hm, hn⟩ | ⟨hm, hn⟩ | ⟨hm, rfl⟩
  · exact .single (by tauto)
  · refine .str hm (hle.elim (fun hc => ?_) id)
    by_contra hgt
    exact hstr hc ⟨k₀, .inr h27, hm, hat, by omega⟩
  · exact .array hm (hnest hn)
  · exact .map hm (hnest hn)
  · exact .tag hm hn
  · rw [hmore k₀ hm h27 hat]
    exact .single (.inr (.inr hm))

/-! ## What stands at a misread place -/

/-- A low simple value has a head of two bytes. -/
theorem LowSimple.exists_head (h : LowSimple d p) :
    ∃ hd : Head, hd.IsMajor 7 ∧ additional hd.initial = 24 ∧ At d p hd.bytes ∧ hd.arg < 32 := by
  obtain ⟨b, hat, hlt⟩ := h
  have h7 : major 0xf8 = 7 := by decide
  have h24 : additional 0xf8 = 24 := by decide
  refine ⟨⟨0xf8, [b], by rw [h24]; rfl, .inr h7⟩, h7, h24, hat, ?_⟩
  rw [Head.arg, argVal, if_neg (by dsimp only; omega)]
  simpa [beNat] using hlt

/-- No item starts with a low simple value. -/
theorem LowSimple.not_oneItem (h : LowSimple d p) (q : Nat) : ¬OneItem d p q := by
  intro hone
  obtain ⟨hd, h7, h24, hat, hlt⟩ := h.exists_head
  obtain ⟨_, hrfc, -⟩ := hone.afterHead hat
  exact absurd (hrfc.2 h7 h24) (by omega)

/-- No item starts with a reserved byte. -/
theorem Reserved.not_oneItem (h : Reserved d p) (q : Nat) : ¬OneItem d p q := by
  rintro hone
  obtain ⟨b, hb, -, h28⟩ := h
  obtain ⟨hd, rest, hrfc, hat, -⟩ := hone.exists_head
  have hhead : At d p ([hd.initial] ++ (hd.tail ++ rest)) := hat
  obtain rfl : b = hd.initial := List.singleton_inj.1 (hb.unique (at_append_iff.1 hhead).1 rfl)
  exact absurd hrfc.1 (by omega)

/-- An item does not end behind the end of the data. -/
theorem CutSimple.not_oneItem (h : CutSimple d p) (q : Nat) : ¬OneItem d p q := by
  rintro hone
  obtain ⟨b, hb, -, hlt⟩ := h
  obtain ⟨hd, rest, -, hat, -⟩ := hone.exists_head
  have hhead : At d p ([hd.initial] ++ (hd.tail ++ rest)) := hat
  obtain rfl : b = hd.initial := List.singleton_inj.1 (hb.unique (at_append_iff.1 hhead).1 rfl)
  have hend := (at_append_iff.1 hat).1.end_le
  rw [hd.bytes_length] at hend
  omega

/-- A string that is cut is no item. -/
theorem CutString.not_oneItem {P : Head → Prop} (h : CutString d p P) (q : Nat) : ¬OneItem d p q := by
  rintro hone
  obtain ⟨hd, -, hm, hat, hlt⟩ := h
  obtain ⟨rest, -, hrest, -, hafter⟩ := hone.afterHead hat
  obtain ⟨s, r, hs, rfl, -⟩ := hafter.str hm
  have hend := hrest.end_le
  rw [List.length_append] at hend
  omega

/-- The entries of a wide map do not fit in memory. -/
theorem WideMap.not_oneItem (hd : d.length ≤ sliceMax) (h : WideMap d p) (q : Nat) : ¬OneItem d p q := by
  rintro hone
  obtain ⟨k₀, u, hm, hwide, hat, -⟩ := h
  obtain ⟨rest, -, hrest, -, hafter⟩ := hone.afterHead (at_append_iff.1 hat).1
  have hlen := (hafter.map hm).le_length
  have hend := hrest.end_le
  simp only [sliceMax] at hd
  omega

/-! ## Where a misread place leads -/

/-- A run of `skip_value` from an empty record, in its two parts. -/
theorem decoder_steps_of {m : Nat} (hok : (Dec.skipValue d m ⟨p, []⟩).1 = .ok ()) (hpos : (Dec.skipValue d m ⟨p, []⟩).2.pos = q) :
    SkipRoutine.decoder.Steps d p q := by
  refine ⟨m, [], (Dec.skipValue d m ⟨p, []⟩).2.log, ?_⟩
  rw [← hpos]
  exact eq_of_fst hok

/-- `skip_value` takes a simple value in two bytes for one byte and any other byte of major type 7 for what it announces. -/
theorem decoder_steps_simple (hd : d.length ≤ sliceMax) {b : UInt8} (hb : At d p [b]) (h7 : major b = 7) :
    SkipRoutine.decoder.Steps d p ((p + 1 + if additional b = 24 then 0 else extLen (additional b)) % wordSize) := by
  have hend := hb.end_le
  simp only [List.length_singleton, sliceMax] at hd hend
  have hread : Cur.Reads (Dec.readByte d) p b (p + 1) := .byte hb (by unfold wordSize; omega)
  obtain ⟨log, hread⟩ := hread []
  have hrun : Dec.skipValue d 1 ⟨p, []⟩ =
      (Cur.bump (if additional b = 24 then 0 else extLen (additional b)) : Dec.R Unit) ⟨p + 1, log⟩ := by
    rw [Dec.skipValue, bind_of_ok hread]
    simp only [h7]
  apply decoder_steps_of
  · rw [hrun]
    rfl
  · rw [hrun]
    rfl

/-- `skip_value` steps over the announced content of a string, whether it is there or not. -/
theorem decoder_steps_str (hd : d.length ≤ sliceMax) {k₀ : Head} (hm : k₀.IsMajor 2 ∨ k₀.IsMajor 3) (hat : At d p k₀.bytes) :
    SkipRoutine.decoder.Steps d p ((p + k₀.bytes.length + k₀.arg) % wordSize) := by
  have hend := hat.end_le
  simp only [sliceMax] at hd
  have h28 : additional k₀.initial < 28 := k₀.defined.resolve_right (by unfold Head.IsMajor at hm; omega)
  have hfits : p + k₀.bytes.length < wordSize := by unfold wordSize; omega
  obtain ⟨log, hbyte⟩ := readByte_reads hat hfits []
  obtain ⟨log', harg⟩ := decodeAdditional_reads hat h28 hfits log
  have hrun : Dec.skipValue d 1 ⟨p, []⟩ =
      (Cur.bump k₀.arg : Dec.R Unit) ⟨p + k₀.bytes.length, .str (p + k₀.bytes.length) k₀.arg :: log'⟩ := by
    rw [Dec.skipValue, bind_of_ok hbyte]
    rcases hm with hm | hm <;> have hm' : major k₀.initial = _ := hm <;> simp only [hm'] <;> rw [bind_of_ok harg] <;> rfl
  apply decoder_steps_of
  · rw [hrun]
    rfl
  · rw [hrun]
    rfl

/-- A simple value is stepped over with its argument. -/
theorem cose_steps_simple {b : UInt8} (hb : At d p [b]) (h7 : major b = 7) :
    SkipRoutine.cose.Steps d p (p + 1 + extLen (additional b)) := by
  refine ⟨1, ?_⟩
  unfold SkipRoutine.StepsIn
  rw [cborSkipTo, bind_of_ok (next_ok_iff.2 ⟨hb, rfl⟩)]
  simp only [h7, advance_apply]

/-- Items with defined arguments are stepped over by `skip` of `dctpm.rs`. -/
theorem skipped_of_items {P : Head → Prop} (hdefined : ∀ h, P h → additional h.initial < 28) {n : Nat} {u : Bytes}
    (hu : Items P n u) (hfits : u.length ≤ sliceMax) : Dctpm.Skipped n u := by
  -- Both the content of the first item and the items after it are shorter than the whole.
  induction hl : u.length using Nat.strong_induction_on generalizing n u with
  | _ l ih =>
    subst hl
    have hshorter : ∀ {m : Nat} {v : Bytes}, v.length < u.length → Items P m v → Dctpm.Skipped m v := fun hlt hv =>
      ih _ hlt hv (by omega) rfl
    cases n with
    | zero =>
      rw [items_zero_iff.1 hu]
      exact Dctpm.skipped_zero
    | succ n =>
      obtain ⟨v, w, rfl, hv, hw⟩ := hu.split 1 n (Nat.add_comm n 1)
      obtain ⟨hd, rest, hp, rfl, hafter⟩ := Item.exists_head hv
      have hpos := hd.bytes_pos
      simp only [List.length_append] at hshorter hfits
      rw [Nat.add_comm n 1]
      refine Dctpm.Skipped.append (Dctpm.skipped_of_after (hdefined hd hp) ?_) (hshorter (by omega) hw)
      have hrest : ∀ {m : Nat}, Items P m rest → Dctpm.Skipped m rest := fun hm => hshorter (by omega) hm
      unfold Dctpm.After
      rcases head_kinds hd with (hm | hm) | (hm | hm) | hm | hm | hm | hm <;>
        have hm' : major hd.initial = _ := hm <;> simp only [hm']
      · exact items_zero_iff.1 (hafter.int (.inl hm))
      · exact items_zero_iff.1 (hafter.int (.inr hm))
      · obtain ⟨s, r, hs, rfl, hr⟩ := hafter.str (.inl hm)
        rw [items_zero_iff.1 hr, List.append_nil, hs]
      · obtain ⟨s, r, hs, rfl, hr⟩ := hafter.str (.inr hm)
        rw [items_zero_iff.1 hr, List.append_nil, hs]
      · exact hrest (hafter.array hm)
      · have hentries := hafter.map hm
        have hle := hentries.le_length
        simp only [sliceMax] at hfits
        rw [Nat.mod_eq_of_lt (by omega), Nat.mul_comm]
        exact hrest hentries
      · exact hrest (hafter.tag hm)
      · exact items_zero_iff.1 (hafter.simple hm)

/-- `skip` of `dctpm.rs` takes the items behind the head of a wide map for all of its entries. -/
theorem dctpm_steps_wide (hd : d.length ≤ sliceMax) (h : WideMap d p) : ∃ q, SkipRoutine.dctpm.Steps d p q := by
  obtain ⟨k₀, u, hm, -, hat, hu⟩ := h
  have hm' : major k₀.initial = 5 := hm
  have hend := (at_append_iff.1 hat).2.end_le
  have h28 : additional k₀.initial < 28 := k₀.defined.resolve_right (by omega)
  have hone : Dctpm.Skipped 1 (k₀.bytes ++ u) := Dctpm.skipped_of_after h28 (by
    unfold Dctpm.After
    simp only [hm']
    exact skipped_of_items (fun _ hrfc => hrfc.1) hu (by omega))
  exact ⟨_, _, Dctpm.skipped_one_iff.1 hone d p _ (Nat.le_refl _) hat⟩

/-- `skip` of `dctpm.rs` steps over a low simple value. -/
theorem dctpm_steps_low (h : LowSimple d p) : ∃ q, SkipRoutine.dctpm.Steps d p q := by
  obtain ⟨k₀, h7, h24, hat, -⟩ := h.exists_head
  have h7' : major k₀.initial = 7 := h7
  have hone : Dctpm.Skipped 1 (k₀.bytes ++ []) := Dctpm.skipped_of_after (by omega) (by
    unfold Dctpm.After
    simp only [h7'])
  rw [List.append_nil] at hone
  exact ⟨_, _, Dctpm.skipped_one_iff.1 hone d p _ (Nat.le_refl _) hat⟩

end FdoUefi
