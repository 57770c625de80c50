import FdoUefi.Lemmas.Skips
import FdoUefi.Lemmas.SetupDevice

/-!
# Where `skip_value` is exact

Inside an item that holds nothing that `CborDecoder::skip_value` misreads, it comes back, and it succeeds exactly when one
well-formed item stands there; its end is then where the cursor is.
-/

namespace FdoUefi

open Prog Prog.Run Cbor

/-- No place where an item starts inside the one at `p` is misread by `skip_value`. -/
def ReadsClean (d : Bytes) (p : Nat) : Prop := ∀ r, Inner d p r → ¬SkipRoutine.decoder.Misreads d r

variable {d : Bytes} {p q fuel : Nat}

/-- What stands inside the content of a head reads as clean as the head. -/
theorem ReadsClean.content {h : Head} {i : Nat} {w : Bytes} (hclean : ReadsClean d p) (hat : At d p h.bytes)
    (hw : Items Head.Rfc i w) (hwat : At d (p + h.bytes.length) w) (hi : i < h.contents) :
    ReadsClean d (p + h.bytes.length + w.length) := by
  intro r hr
  refine hclean r (.content h (at_append_iff.2 ⟨hat, hwat⟩) hw hi ?_)
  rwa [List.length_append, ← Nat.add_assoc]

/-- Where the data are clean there is no simple value in two bytes. -/
theorem ReadsClean.noByteSimple {h : Head} (hclean : ReadsClean d p) (hat : At d p h.bytes) : h.NoByteSimple := by
  intro hf8
  have hk : At d p ([h.initial] ++ h.tail) := hat
  rw [hf8] at hk
  exact hclean p (.here p) (.inl (at_append_iff.1 hk).1)

/-- What was stepped over is one item. -/
theorem skipValue_sound (hd : d.length ≤ sliceMax) {c c' : Cur} (hclean : ReadsClean d c.pos)
    (h : Dec.skipValue d fuel c = (.ok (), c')) : OneItem d c.pos c'.pos := by
  refine walk_item (W := fun k p q => SkipRoutine.decoder.StepsIn d k p q) ?_ (fun k p q => decoder_level hd) hclean
    (k := fuel) ⟨c.log, c'.log, h⟩
  intro p q h0
  simp [SkipRoutine.StepsIn, Dec.skipValue] at h0

/-! ## Items that read clean -/

/-- A head that RFC 8949 allows and that is not that of a simple value in two bytes. -/
def PlainHead (h : Head) : Prop := h.Rfc ∧ h.NoByteSimple

/-- A head of a major type below 7 is plain. -/
theorem plain_of_low {k : Head} {m : Nat} (hm : k.IsMajor m) (hlt : m < 7) : PlainHead k := by
  have h28 : additional k.initial < 28 := k.defined.resolve_right (by unfold Head.IsMajor at hm; omega)
  refine ⟨Head.rfc_of_major_lt hm hlt h28, fun hf8 => ?_⟩
  unfold Head.IsMajor at hm
  rw [hf8] at hm
  exact absurd hm (by rw [show major 0xf8 = 7 by decide]; omega)

/-- At a place inside an item another one starts, with heads of the same kind. -/
theorem item_of_inner {P : Head → Prop} {u : Bytes} {r : Nat} (h : Inner d p r) (hu : Item P u) (hat : At d p u) :
    ∃ v, Item P v ∧ At d r v := by
  induction h generalizing u with
  | here => exact ⟨u, hu, hat⟩
  | @content p r i w k hkw hw hi _ ih =>
    obtain ⟨k', rest, -, rfl, hafter⟩ := hu.exists_head
    obtain ⟨hk, hwat⟩ := at_append_iff.1 hkw
    obtain ⟨hk', hrest⟩ := at_append_iff.1 hat
    obtain rfl := Head.unique hk hk'
    have hitems : Items P k.contents rest := by
      rcases head_kinds k with hm | hm | hm | hm | hm | hm
      · have h0 : k.contents = 0 := by
          rcases hm with hm | hm <;> unfold Head.IsMajor at hm <;> simp only [Head.contents, hm]
        omega
      · have h0 : k.contents = 0 := by
          rcases hm with hm | hm <;> unfold Head.IsMajor at hm <;> simp only [Head.contents, hm]
        omega
      · rw [Head.contents_array hm]
        exact hafter.array hm
      · rw [Head.contents_map hm]
        exact hafter.map hm
      · rw [Head.contents_tag hm]
        exact hafter.tag hm
      · have h0 : k.contents = 0 := by
          unfold Head.IsMajor at hm
          simp only [Head.contents, hm]
        omega
    obtain ⟨as, cs, rfl, has, hcs⟩ := hitems.split i (k.contents - i) (by omega)
    obtain ⟨hasat, hcsat⟩ := at_append_iff.1 hrest
    obtain rfl : w = as := hw.unique has hwat hasat
    obtain ⟨v, tl, rfl, hv, -⟩ := hcs.split 1 (k.contents - i - 1) (by omega)
    refine ih hv ?_
    rw [List.length_append, ← Nat.add_assoc]
    exact (at_append_iff.1 hcsat).1

/-- An item with plain heads reads clean. -/
theorem readsClean_of_item {u : Bytes} (hu : Item PlainHead u) (hat : At d p u) : ReadsClean d p := by
  intro r hr hmis
  obtain ⟨v, hv, hvat⟩ := item_of_inner hr hu hat
  have hone : OneItem d r (r + v.length) := ⟨v, hv.mono fun _ hp => hp.1, hvat, rfl⟩
  rcases hmis with hf8 | h | h | h
  · obtain ⟨k, rest, hp, rfl, -⟩ := hv.exists_head
    have hk : At d r ([k.initial] ++ (k.tail ++ rest)) := by simpa [Head.bytes] using hvat
    exact hp.2 (List.singleton_inj.1 (hf8.unique (at_append_iff.1 hk).1 rfl)).symm
  · exact h.not_oneItem _ hone
  · exact h.not_oneItem _ hone
  · exact h.not_oneItem _ hone

/-! ## An item is stepped over -/

/-- Steps that are read are read in a row. -/
theorem reads_of_stepsN {m : Dec.R Unit} {n : Nat} (h : StepsN (fun p q => Cur.Reads m p () q) n p q) :
    Cur.Reads (repeatN n m) p () q := by
  induction n generalizing p with
  | zero =>
    obtain rfl : q = p := h
    exact .pure ()
  | succ n ih =>
    obtain ⟨r, h1, h2⟩ := h
    exact Cur.Reads.bind h1 (ih h2)

/-- An item that reads clean is stepped over, with a recursion depth of its length. -/
theorem skipValue_complete (hd : d.length ≤ sliceMax) (hclean : ReadsClean d p) (h : OneItem d p q) (hfuel : q ≤ p + fuel) :
    Cur.Reads (Dec.skipValue d fuel) p () q := by
  induction fuel generalizing p q with
  | zero =>
    obtain ⟨u, hu, -, rfl⟩ := h
    have hpos := hu.pos
    omega
  | succ fuel ih =>
    obtain ⟨k, rest, hrfc, hat, rfl, hafter⟩ := h.exists_head
    obtain ⟨hk, hrest⟩ := at_append_iff.1 hat
    have hpos := k.bytes_pos
    have hend := hat.end_le
    rw [List.length_append] at hend hfuel ⊢
    rw [← Nat.add_assoc]
    have hword : p + k.bytes.length + rest.length < wordSize := by
      simp only [sliceMax] at hd
      unfold wordSize
      omega
    have hbyte := readByte_reads hk (by omega)
    have harg := decodeAdditional_reads hk hrfc.1 (by omega)
    -- The content of a container or a tag, with the induction hypothesis for each item of it.
    have hnest : Items Head.Rfc k.contents rest →
        Cur.Reads (repeatN k.contents (Dec.skipValue d fuel)) (p + k.bytes.length) () (p + k.bytes.length + rest.length) := by
      intro hitems
      refine reads_of_stepsN (stepsN_of_items ?_ hitems hrest)
      intro i w hi hw hwat q hone hle
      exact ih (hclean.content hk hw hwat hi) hone (by omega)
    rw [Dec.skipValue]
    refine hbyte.bind ?_
    rcases head_kinds k with hm | hm | hm | hm | hm | hm
    · rw [items_zero_iff.1 (hafter.int hm)]
      rcases hm with hm | hm <;> have hm' : major k.initial = _ := hm <;> simp only [hm'] <;> exact harg.bind (.pure ())
    · obtain ⟨s, r, hs, rfl, hr⟩ := hafter.str hm
      rw [items_zero_iff.1 hr, List.append_nil] at hword ⊢
      rw [hs] at hword ⊢
      rcases hm with hm | hm <;> have hm' : major k.initial = _ := hm <;> simp only [hm'] <;>
        exact harg.bind (Cur.Reads.place.bind ((Cur.Reads.note _).bind (.bump hword)))
    · have hm' : major k.initial = 4 := hm
      have hitems := hafter.array hm
      rw [Nat.add_zero, ← Head.contents_array hm] at hitems
      simp only [hm']
      refine harg.bind ?_
      rw [← Head.contents_array hm]
      exact hnest hitems
    · have hm' : major k.initial = 5 := hm
      have hitems := hafter.map hm
      rw [Nat.add_zero, ← Head.contents_map hm] at hitems
      simp only [hm']
      refine harg.bind ?_
      intro log
      rw [repeatN_pair, ← Head.contents_map hm]
      exact hnest hitems log
    · have hm' : major k.initial = 6 := hm
      have hitems := hafter.tag hm
      rw [Nat.zero_add, ← Head.contents_tag hm] at hitems
      simp only [hm']
      refine harg.bind ?_
      intro log
      rw [← repeatN_one (Dec.skipValue d fuel), ← Head.contents_tag hm]
      exact hnest hitems log
    · have hm' : major k.initial = 7 := hm
      have h24 : additional k.initial ≠ 24 := fun h24 => hclean.noByteSimple hk (initial_ext (c := 0xf8) hm h24)
      have hlen := k.bytes_length
      rw [items_zero_iff.1 (hafter.simple hm)] at hword ⊢
      simp only [hm', if_neg h24]
      rw [List.length_nil, Nat.add_zero, hlen, ← Nat.add_assoc]
      exact .bump (by omega)

/-! ## It comes back -/

/-- The items of a container are stepped over, or one of them is refused. -/
theorem repeatN_returns (hd : d.length ≤ sliceMax) {k : Head} (hclean : ReadsClean d p) (hk : At d p k.bytes)
    (hone : ∀ i w log, i < k.contents → Items Head.Rfc i w → At d (p + k.bytes.length) w →
      (Dec.skipValue d fuel ⟨p + k.bytes.length + w.length, log⟩).1.Returns) {n i : Nat} {w : Bytes} (hn : i + n = k.contents)
    (hw : Items Head.Rfc i w) (hwat : At d (p + k.bytes.length) w) (log : List Event) :
    (repeatN n (Dec.skipValue d fuel) ⟨p + k.bytes.length + w.length, log⟩).1.Returns := by
  induction n generalizing i w log with
  | zero => trivial
  | succ n ih =>
    refine bind_returns (hone i w log (by omega) hw hwat) ?_
    intro _ c' hskip
    have hitem := skipValue_sound hd (hclean.content hk hw hwat (by omega)) hskip
    obtain ⟨x, hx, hxat, hpos⟩ := hitem
    have hlen : c' = ⟨p + k.bytes.length + (w ++ x).length, c'.log⟩ := by
      rw [List.length_append, ← Nat.add_assoc, ← hpos]
    rw [hlen]
    exact ih (by omega) (hw.append hx) (at_append_iff.2 ⟨hwat, hxat⟩) c'.log

/-- With a recursion depth of more than the bytes ahead, `skip_value` comes back. -/
theorem skipValue_returns (hd : d.length ≤ sliceMax) (hclean : ReadsClean d p) (hp : p ≤ d.length) (hfuel : d.length < p + fuel)
    (log : List Event) : (Dec.skipValue d fuel ⟨p, log⟩).1.Returns := by
  induction fuel generalizing p log with
  | zero => omega
  | succ fuel ih =>
    -- The items behind a head are ahead by fewer bytes than the head is.
    have hnest : ∀ {k : Head} {c₂ : Cur}, At d p k.bytes → c₂.pos = p + k.bytes.length →
        (repeatN k.contents (Dec.skipValue d fuel) c₂).1.Returns := by
      intro k c₂ hk hc₂
      have hpos := k.bytes_pos
      have hreturns := @repeatN_returns d p fuel hd k hclean hk ?_ k.contents 0 [] (Nat.zero_add _) .nil (at_nil hk.end_le) c₂.log
      · rw [List.length_nil, Nat.add_zero, ← hc₂] at hreturns
        exact hreturns
      · intro i w log' hi hw hwat
        exact ih (hclean.content hk hw hwat hi) hwat.end_le (by omega) log'
    rw [Dec.skipValue]
    refine bind_returns (readByte_returns d _) ?_
    intro b c₁ hb
    have hlt := major_lt b
    rcases (by omega : (major b = 0 ∨ major b = 1) ∨ (major b = 2 ∨ major b = 3) ∨ major b = 4 ∨ major b = 5 ∨ major b = 6 ∨
      major b = 7) with (hm | hm) | (hm | hm) | hm | hm | hm | hm <;> simp only [hm]
    · exact bind_returns (decodeAdditional_returns d _ c₁) fun _ _ _ => trivial
    · exact bind_returns (decodeAdditional_returns d _ c₁) fun _ _ _ => trivial
    · exact bind_returns (decodeAdditional_returns d _ c₁) fun _ _ _ => trivial
    · exact bind_returns (decodeAdditional_returns d _ c₁) fun _ _ _ => trivial
    · refine bind_returns (decodeAdditional_returns d _ c₁) ?_
      intro v c₂ ha
      obtain ⟨k, rfl, hk, rfl, hc₂⟩ := decHead_ok hd hb ha
      rw [← Head.contents_array hm]
      exact hnest hk hc₂
    · refine bind_returns (decodeAdditional_returns d _ c₁) ?_
      intro v c₂ ha
      obtain ⟨k, rfl, hk, rfl, hc₂⟩ := decHead_ok hd hb ha
      rw [repeatN_pair, ← Head.contents_map hm]
      exact hnest hk hc₂
    · refine bind_returns (decodeAdditional_returns d _ c₁) ?_
      intro v c₂ ha
      obtain ⟨k, rfl, hk, rfl, hc₂⟩ := decHead_ok hd hb ha
      rw [← repeatN_one (Dec.skipValue d fuel), ← Head.contents_tag hm]
      exact hnest hk hc₂
    · trivial

end FdoUefi
