import FdoUefi.Lemmas.DiCapture
import FdoUefi.Lemmas.Envelope
import FdoUefi.Lemmas.EnvelopeReturns
import FdoUefi.Lemmas.Scope

/-!
# The parser of DISetCredentials returns

It does, except on an OVHeader that ends within the content of a string with which one of the captured values ends.
-/

namespace FdoUefi

open Prog Prog.Run Cbor

/-- A string of major type `m` with a short head and the content `s`. -/
def ShortStr (m : Nat) (u s : Bytes) : Prop := ∃ h : Head, h.Short ∧ h.IsMajor m ∧ s.length = h.arg ∧ u = h.bytes ++ s

/-- The head of an OVHeader of `count` elements, with its version and its GUID. -/
def HeaderLead (count : Nat) (u : Bytes) : Prop :=
  ∃ (hd ver : Head) (item guid : Bytes), hd.Short ∧ hd.IsMajor 4 ∧ hd.arg = count ∧ 5 ≤ count ∧ ver.Short ∧ ver.IsMajor 0 ∧
    ShortStr 2 item guid ∧ guid.length = 16 ∧ u = hd.bytes ++ (ver.bytes ++ item)

/-- The device information of an OVHeader. -/
def ShortText (u : Bytes) : Prop := ∃ s, ShortStr 3 u s ∧ utf8Valid s = true

/-- An OVHeader that ends in OVRVInfo, OVPubKey or OVDevCertChainHash, within the content of a string with which the value ends. -/
inductive OvHeaderCut : Bytes → Prop where
  | rvInfo {count : Nat} {lead cut : Bytes} (hlead : HeaderLead count lead) (hcut : CutItems Head.Short 1 cut) :
      OvHeaderCut (lead ++ cut)
  | pubKey {count : Nat} {lead rv text cut : Bytes} (hlead : HeaderLead count lead) (hrv : Item Head.Short rv)
      (htext : ShortText text) (hcut : CutItems Head.Short 1 cut) : OvHeaderCut (lead ++ (rv ++ (text ++ cut)))
  | certChainHash {count : Nat} {lead rv text key cut : Bytes} (hlead : HeaderLead count lead) (hrv : Item Head.Short rv)
      (htext : ShortText text) (hkey : Item Head.Short key) (h6 : 6 ≤ count) (hcut : CutItems Head.Short 1 cut) :
      OvHeaderCut (lead ++ (rv ++ (text ++ (key ++ cut))))

/-- A DISetCredentials with such an OVHeader. -/
def DiSetCredentialsCut (d : Bytes) : Prop :=
  ∃ flagsItem flags vendor item header, ShortStr 2 flagsItem flags ∧ Item Head.Narrow vendor ∧ ShortStr 2 item header ∧
    At d 0 ([0x83] ++ (flagsItem ++ (vendor ++ item))) ∧ OvHeaderCut header

namespace Aux

variable {d : Bytes} {p q : Nat}

/-! ### What the readers read -/

/-- A byte string is read exactly where one with a short head stands. -/
theorem bstr_iff {s : Bytes} : cborReadBstr d p = (.ok s, q) ↔ ∃ u, ShortStr 2 u s ∧ At d p u ∧ q = p + u.length := by
  constructor
  · intro h
    obtain ⟨hd, hm, h27, hat, hlen, rfl⟩ := cborReadBstr_ok h
    exact ⟨_, ⟨hd, h27, hm, hlen, rfl⟩, hat, rfl⟩
  · rintro ⟨_, ⟨hd, hs, hm, hlen, rfl⟩, hat, rfl⟩
    obtain ⟨hhead, hcontent⟩ := at_append_iff.1 hat
    have hm' : major hd.initial = 2 := hm
    unfold cborReadBstr
    rw [bind_of_ok (next_of_head hhead), ensure_of_true _ hm', bind_of_ok (pure_apply () _),
      bind_of_ok (cborReadUintArg_of_head hs hhead), take_ok_iff.2 ⟨hcontent, hlen, rfl⟩, List.length_append, hlen, Nat.add_assoc]

/-- A text string is read exactly where one with a short head stands. -/
theorem tstr_iff {s : Bytes} :
    Di.cborReadTstr d p = (.ok s, q) ↔ ∃ u, ShortStr 3 u s ∧ utf8Valid s = true ∧ At d p u ∧ q = p + u.length := by
  constructor
  · intro h
    obtain ⟨hd, hm, hs, hlen, hutf, hat, rfl⟩ := Di.cborReadTstr_ok h
    exact ⟨_, ⟨hd, hs, hm, hlen, rfl⟩, hutf, hat, rfl⟩
  · rintro ⟨_, ⟨hd, hs, hm, hlen, rfl⟩, hutf, hat, rfl⟩
    obtain ⟨hhead, hcontent⟩ := at_append_iff.1 hat
    have hm' : major hd.initial = 3 := hm
    unfold Di.cborReadTstr Di.cborDecodeAdditional
    rw [bind_of_ok (next_of_head hhead), ensure_of_true _ hm', bind_of_ok (pure_apply () _),
      bind_of_ok (cborReadUintArg_of_head hs hhead), takeText_ok_iff.2 ⟨hcontent, hlen, rfl, hutf⟩, List.length_append, hlen,
      Nat.add_assoc]

/-- An integer is read exactly where one with a short head stands. -/
theorem uint_iff {v : Nat} :
    Di.cborReadUint d p = (.ok v, q) ↔ ∃ h : Head, h.Short ∧ h.IsMajor 0 ∧ At d p h.bytes ∧ v = h.arg ∧ q = p + h.bytes.length := by
  constructor
  · intro h
    unfold Di.cborReadUint cborReadUintValue at h
    simp only [bind_ok_iff, ensure_ok_iff] at h
    obtain ⟨b, t, hb, _, _, ⟨hm, rfl⟩, harg⟩ := h
    obtain ⟨hd, rfl, h27, hat, rfl, rfl⟩ := cborHead_ok hb harg
    exact ⟨hd, h27, hm, hat, rfl, rfl⟩
  · rintro ⟨hd, hs, hm, hat, rfl, rfl⟩
    exact Rv.readCborUintAt_of_head hat hm hs

/-- A value is captured exactly where an item with short heads stands. -/
theorem capture_iff {u : Bytes} : Di.cborCaptureValue d p = (.ok u, q) ↔ Item Head.Short u ∧ At d p u ∧ q = p + u.length := by
  constructor
  · intro h
    obtain ⟨hat, hitem, hq⟩ := Di.cborCaptureValue_ok h
    exact ⟨hitem, hat, hq⟩
  · rintro ⟨hitem, hat, rfl⟩
    have hend := hat.end_le
    have hsteps : StepsOver (skipShort false fun _ => 0) 1 u := stepsOver_of_items (fun _ hP => hP) (fun _ _ _ => rfl) hitem
    have hskip : Di.cborSkipValue d p = (.ok (), p + u.length) := stepsOver_one_iff.1 hsteps d p (d.length + 1) (by omega) hat
    unfold Di.cborCaptureValue
    rw [bind_of_ok (getS_apply _), bind_of_ok hskip, bind_of_ok (getS_apply _)]
    exact slice_ok_iff.2 ⟨hat, rfl, rfl⟩

/-- `parse_ov_header_cbor` up to the GUID. -/
def readLead (d : Bytes) : Di.R (Nat × Bytes) := do
  let b ← next d
  ensure (major b = 4) ()
  let count ← Di.cborDecodeAdditional d (additional b)
  ensure (5 ≤ count) ()
  let _ ← Di.cborReadUint d
  let guid ← Di.cborReadBstr d
  ensure (guid.length = 16) ()
  return (count, guid)

/-- The front of a header is read exactly where one stands. -/
theorem readLead_iff {count : Nat} :
    (∃ guid, readLead d 0 = (.ok (count, guid), q)) ↔ ∃ u, HeaderLead count u ∧ At d 0 u ∧ q = u.length := by
  unfold readLead Di.cborDecodeAdditional Di.cborReadBstr
  constructor
  · rintro ⟨guid, h⟩
    simp only [bind_ok_iff, ensure_ok_iff, pure_ok_iff, uint_iff, bstr_iff, Prod.mk.injEq] at h
    obtain ⟨b, _, hb, _, _, ⟨hm, rfl⟩, c, _, harg, _, _, ⟨h5, rfl⟩, _, _, ⟨ver, hvs, hvm, hvat, -, rfl⟩, _, _,
      ⟨item, hstr, hgat, rfl⟩, _, _, ⟨h16, rfl⟩, ⟨rfl, rfl⟩, rfl⟩ := h
    obtain ⟨hd, rfl, h27, hat, rfl, rfl⟩ := cborHead_ok hb harg
    refine ⟨_, ⟨hd, ver, item, guid, h27, hm, rfl, h5, hvs, hvm, hstr, h16, rfl⟩,
      at_append_iff.2 ⟨hat, at_append_iff.2 ⟨hvat, hgat⟩⟩, ?_⟩
    rw [List.length_append, List.length_append]
    omega
  · rintro ⟨_, ⟨hd, ver, item, guid, hs, hm, rfl, h5, hvs, hvm, hstr, h16, rfl⟩, hat, rfl⟩
    obtain ⟨hhead, hat⟩ := at_append_iff.1 hat
    obtain ⟨hvat, hgat⟩ := at_append_iff.1 hat
    have hm' : major hd.initial = 4 := hm
    have hver := uint_iff.2 ⟨ver, hvs, hvm, hvat, rfl, rfl⟩
    have hguid := bstr_iff.2 ⟨item, hstr, hgat, rfl⟩
    refine ⟨guid, ?_⟩
    rw [bind_of_ok (next_of_head hhead), ensure_of_true _ hm', bind_of_ok (pure_apply () _),
      bind_of_ok (cborReadUintArg_of_head hs hhead), ensure_of_true _ h5, bind_of_ok (pure_apply () _), bind_of_ok hver,
      bind_of_ok hguid, ensure_of_true _ h16, bind_of_ok (pure_apply () _), List.length_append, List.length_append, ← Nat.add_assoc,
      Nat.zero_add]
    rfl

/-- Reading the front of a header comes back. -/
theorem readLead_total : Total (readLead d) :=
  .bind (.next d) fun _ => .bind .ensure fun _ => .bind (cborReadUintArg_total _) fun _ => .bind .ensure fun _ =>
    .bind Rv.readCborUintAt_total fun _ => .bind cborReadBstr_total fun _ => .bind .ensure fun _ => .pure _

/-- Reading a text comes back. -/
theorem cborReadTstr_total : Total (Di.cborReadTstr d) :=
  .bind (.next d) fun _ => .bind .ensure fun _ => .bind (cborReadUintArg_total _) fun _ => .takeText d _

/-! ### The captured values -/

/-- A null is not a string that is cut. -/
theorem not_cut_null {u : Bytes} (h : CutItems Head.Short 1 u) : u.head? ≠ some 0xf6 := by
  intro hnull
  have hmajor : ∀ (hd : Head) (rest : Bytes), (hd.bytes ++ rest).head? = some 0xf6 → hd.IsMajor 7 := by
    intro hd rest hhead
    have hinit : hd.initial = 0xf6 := Option.some.inj hhead
    unfold Head.IsMajor
    rw [hinit]
    decide
  have hne : ∀ {hd : Head} {m : Nat}, hd.IsMajor m → m ≠ 7 → ¬hd.IsMajor 7 := fun hm hne h7 => hne (hm.symm.trans h7)
  cases h with
  | str hd s _ hm _ =>
    rcases hm with hm | hm
    · exact hne hm (by decide) (hmajor hd s hnull)
    · exact hne hm (by decide) (hmajor hd s hnull)
  | array hd _ hm _ => exact hne hm (by decide) (hmajor hd _ hnull)
  | map hd _ hm _ => exact hne hm (by decide) (hmajor hd _ hnull)
  | tag hd _ hm _ => exact hne hm (by decide) (hmajor hd _ hnull)

/-- Reading the hash of the chain comes back unless it is cut. -/
theorem readCertChainHash_returns_iff {count : Nat} (hp : p ≤ d.length) :
    (Di.readCertChainHash d count p).1.Returns ↔ ¬(6 ≤ count ∧ CutItems Head.Short 1 (d.drop p)) := by
  unfold Di.readCertChainHash
  by_cases h6 : 6 ≤ count
  · rw [if_pos h6, bind_of_ok (peek_apply d p)]
    by_cases hnull : d[p]? = some 0xf6
    · rw [hnull]
      refine iff_of_true trivial fun hcut => not_cut_null hcut.2 ?_
      rw [List.head?_drop, hnull]
    · split
      · rename_i heq
        exact absurd heq hnull
      · rw [Di.cborCaptureValue_returns_iff hp]
        exact ⟨fun h hcut => h hcut.2, fun h hcut => h ⟨h6, hcut⟩⟩
  · rw [if_neg h6]
    exact iff_of_true trivial fun h => h6 h.1

/-- `parse_ov_header_cbor` from OVRVInfo on. -/
def readRest (d : Bytes) (count : Nat) (guid : Bytes) : Di.R Di.OvHeader := do
  let rvInfo ← Di.cborCaptureValue d
  let deviceInfo ← Di.cborReadTstr d
  let pubKey ← Di.cborCaptureValue d
  let certChainHash ← Di.readCertChainHash d count
  return { guid, rvInfo, deviceInfo, pubKey, certChainHash, rawCbor := d }

/-- A header is read as its front and the rest. -/
theorem parseOvHeaderCbor_eq (d : Bytes) :
    Di.parseOvHeaderCbor d = (readLead d >>= fun lead => readRest d lead.1 lead.2 : Di.R Di.OvHeader).eval := by
  unfold Di.parseOvHeaderCbor readLead readRest
  simp only [bind_assoc, pure_bind]

/-- Capturing a value and going on comes back if the value is not cut and what follows it does. -/
theorem capture_bind_returns_iff {β : Type} {f : Bytes → Di.R β} (hp : p ≤ d.length) :
    ((Di.cborCaptureValue d >>= f) p).1.Returns ↔
      ¬CutItems Head.Short 1 (d.drop p) ∧ ∀ u, Item Head.Short u → At d p u → (f u (p + u.length)).1.Returns := by
  rw [bind_returns_iff, Di.cborCaptureValue_returns_iff hp]
  refine and_congr_right fun _ => ?_
  constructor
  · intro h u hu hat
    exact h u _ (capture_iff.2 ⟨hu, hat, rfl⟩)
  · intro h u t hu
    obtain ⟨hitem, hat, rfl⟩ := capture_iff.1 hu
    exact h u hitem hat

/-- Reading a text and going on comes back if what follows the text does. -/
theorem text_bind_returns_iff {β : Type} {f : Bytes → Di.R β} {P : Nat → Prop} (hf : ∀ s t, t ≤ d.length → ((f s t).1.Returns ↔ P t)) :
    ((Di.cborReadTstr d >>= f) p).1.Returns ↔ ∀ u, ShortText u → At d p u → P (p + u.length) := by
  rw [bind_returns_iff]
  constructor
  · rintro ⟨-, h⟩ u ⟨s, hstr, hutf⟩ hat
    exact (hf s _ hat.end_le).1 (h s _ (tstr_iff.2 ⟨u, hstr, hutf, hat, rfl⟩))
  · intro h
    refine ⟨cborReadTstr_total p, ?_⟩
    intro s t hs
    obtain ⟨u, hstr, hutf, hat, rfl⟩ := tstr_iff.1 hs
    exact (hf s _ hat.end_le).2 (h u ⟨s, hstr, hutf⟩ hat)

/-- The rest of a header comes back unless one of its three captured values is cut. -/
theorem readRest_returns_iff {count : Nat} {guid : Bytes} (hp : p ≤ d.length) :
    (readRest d count guid p).1.Returns ↔ ¬CutItems Head.Short 1 (d.drop p) ∧
      ∀ rv, Item Head.Short rv → At d p rv → ∀ text, ShortText text → At d (p + rv.length) text →
        ¬CutItems Head.Short 1 (d.drop (p + rv.length + text.length)) ∧
          ∀ key, Item Head.Short key → At d (p + rv.length + text.length) key →
            ¬(6 ≤ count ∧ CutItems Head.Short 1 (d.drop (p + rv.length + text.length + key.length))) := by
  unfold readRest
  rw [capture_bind_returns_iff hp]
  refine and_congr_right fun _ => forall_congr' fun rv => imp_congr_right fun _ => imp_congr_right fun _ => ?_
  refine text_bind_returns_iff (P := fun t => ¬CutItems Head.Short 1 (d.drop t) ∧ ∀ key, Item Head.Short key → At d t key →
    ¬(6 ≤ count ∧ CutItems Head.Short 1 (d.drop (t + key.length)))) fun s t ht => ?_
  rw [capture_bind_returns_iff ht]
  refine and_congr_right fun _ => forall_congr' fun key => imp_congr_right fun _ => imp_congr_right fun hkey => ?_
  rw [bind_returns_iff, readCertChainHash_returns_iff hkey.end_le]
  exact ⟨And.left, fun h => ⟨h, fun _ _ _ => trivial⟩⟩

/-- The bytes are what stands at the front of them, and the rest. -/
theorem append_drop_of_at {u : Bytes} (hat : At d 0 u) : u ++ d.drop u.length = d := by
  have h := drop_of_at hat
  rw [List.drop_zero, Nat.zero_add] at h
  exact h.symm

/-- What stands at the end is what is left there. -/
theorem drop_eq_of_at {u : Bytes} (hat : At d p u) (hend : p + u.length = d.length) : d.drop p = u := by
  rw [drop_of_at hat, hend, List.drop_length, List.append_nil]

/-- A rest that does not come back is that of a cut header. -/
theorem readRest_cut {lead guid : Bytes} {count : Nat} (hat : At d 0 lead) (hlead : HeaderLead count lead)
    (h : ¬(readRest d count guid lead.length).1.Returns) : OvHeaderCut d := by
  have hend := hat.end_le
  rw [readRest_returns_iff (by omega)] at h
  push Not at h
  by_cases hrvCut : CutItems Head.Short 1 (d.drop lead.length)
  · have hcut := OvHeaderCut.rvInfo hlead hrvCut
    rwa [append_drop_of_at hat] at hcut
  · obtain ⟨rv, hrv, hrvAt, text, htext, htextAt, h⟩ := h hrvCut
    by_cases hkeyCut : CutItems Head.Short 1 (d.drop (lead.length + rv.length + text.length))
    · have hcut := OvHeaderCut.pubKey hlead hrv htext hkeyCut
      rwa [← drop_of_at htextAt, ← drop_of_at hrvAt, append_drop_of_at hat] at hcut
    · obtain ⟨key, hkey, hkeyAt, h6, hhashCut⟩ := h hkeyCut
      have hcut := OvHeaderCut.certChainHash hlead hrv htext hkey h6 hhashCut
      rwa [← drop_of_at hkeyAt, ← drop_of_at htextAt, ← drop_of_at hrvAt, append_drop_of_at hat] at hcut

/-- The rest of a cut header does not come back. -/
theorem readRest_of_cut (h : OvHeaderCut d) :
    ∃ count lead, HeaderLead count lead ∧ At d 0 lead ∧ ∀ guid, ¬(readRest d count guid lead.length).1.Returns := by
  have hself : At d 0 d := at_zero_iff.2 ⟨[], (List.append_nil d).symm⟩
  cases h with
  | @rvInfo count lead cut hlead hcut =>
    obtain ⟨hleadAt, hcutAt⟩ := at_append_iff.1 hself
    rw [Nat.zero_add] at hcutAt
    refine ⟨count, lead, hlead, hleadAt, fun guid hret => ?_⟩
    rw [readRest_returns_iff (by rw [List.length_append]; omega), drop_eq_of_at hcutAt List.length_append.symm] at hret
    exact hret.1 hcut
  | @pubKey count lead rv text cut hlead hrv htext hcut =>
    obtain ⟨hleadAt, hrest⟩ := at_append_iff.1 hself
    rw [Nat.zero_add] at hrest
    obtain ⟨hrvAt, hrest⟩ := at_append_iff.1 hrest
    obtain ⟨htextAt, hcutAt⟩ := at_append_iff.1 hrest
    refine ⟨count, lead, hlead, hleadAt, fun guid hret => ?_⟩
    rw [readRest_returns_iff (by rw [List.length_append]; omega)] at hret
    have hkey := (hret.2 rv hrv hrvAt text htext htextAt).1
    rw [drop_eq_of_at hcutAt (by simp only [List.length_append]; omega)] at hkey
    exact hkey hcut
  | @certChainHash count lead rv text key cut hlead hrv htext hkey h6 hcut =>
    obtain ⟨hleadAt, hrest⟩ := at_append_iff.1 hself
    rw [Nat.zero_add] at hrest
    obtain ⟨hrvAt, hrest⟩ := at_append_iff.1 hrest
    obtain ⟨htextAt, hrest⟩ := at_append_iff.1 hrest
    obtain ⟨hkeyAt, hcutAt⟩ := at_append_iff.1 hrest
    refine ⟨count, lead, hlead, hleadAt, fun guid hret => ?_⟩
    rw [readRest_returns_iff (by rw [List.length_append]; omega)] at hret
    have hhash := (hret.2 rv hrv hrvAt text htext htextAt).2 key hkey hkeyAt
    rw [drop_eq_of_at hcutAt (by simp only [List.length_append]; omega)] at hhash
    exact hhash ⟨h6, hcut⟩

/-- Reading a header comes back unless it is cut. -/
theorem parseOvHeaderCbor_returns_iff : (Di.parseOvHeaderCbor d).Returns ↔ ¬OvHeaderCut d := by
  rw [parseOvHeaderCbor_eq]
  change ((readLead d >>= fun lead => readRest d lead.1 lead.2 : Di.R Di.OvHeader) 0).1.Returns ↔ _
  rw [bind_returns_iff]
  constructor
  · rintro ⟨-, h⟩ hcut
    obtain ⟨count, lead, hlead, hat, hnot⟩ := readRest_of_cut hcut
    obtain ⟨guid, hrun⟩ := readLead_iff.2 ⟨lead, hlead, hat, rfl⟩
    exact hnot guid (h (count, guid) _ hrun)
  · intro h
    refine ⟨readLead_total 0, ?_⟩
    rintro ⟨count, guid⟩ t hrun
    obtain ⟨lead, hlead, hat, rfl⟩ := readLead_iff.1 ⟨guid, hrun⟩
    by_contra hnot
    exact h (readRest_cut hat hlead hnot)

/-- `parse_di_set_credentials` up to the OVHeader. -/
def readHeader (d : Bytes) : Di.R Bytes := do
  let b ← next d
  ensure (b = 0x83) ()
  let _ ← Di.cborReadBstr d
  cborSkip d
  Di.cborReadBstr d

/-- Taking the header out of a message comes back. -/
theorem readHeader_returns (d : Bytes) : (readHeader d).eval.Returns := by
  change (readHeader d 0).1.Returns
  unfold readHeader
  refine bind_returns_iff.2 ⟨Total.next d 0, fun b p hb => ?_⟩
  refine bind_returns_iff.2 ⟨ensure_returns, fun _ p' hens => ?_⟩
  refine bind_returns_iff.2 ⟨cborReadBstr_total p', fun flags q hflags => ?_⟩
  obtain ⟨u, -, hat, rfl⟩ := bstr_iff.1 hflags
  have hreach : p' + u.length ≤ reach d := hat.end_le.trans (Nat.le_add_right _ _)
  refine bind_returns_iff.2 ⟨(cborSkip_lands le_rfl hreach).returns, fun _ r _ => ?_⟩
  exact cborReadBstr_total r

/-- The header is taken out exactly of a message of the form that is asked for. -/
theorem readHeader_iff {header : Bytes} :
    (∃ r, readHeader d 0 = (.ok header, r)) ↔ ∃ flagsItem flags vendor item, ShortStr 2 flagsItem flags ∧ Item Head.Narrow vendor ∧
      ShortStr 2 item header ∧ At d 0 ([0x83] ++ (flagsItem ++ (vendor ++ item))) := by
  unfold readHeader Di.cborReadBstr
  constructor
  · rintro ⟨r, h⟩
    simp only [bind_ok_iff, ensure_ok_iff, bstr_iff] at h
    obtain ⟨b, _, hb, _, _, ⟨rfl, rfl⟩, flags, _, ⟨flagsItem, hflags, hflagsAt, rfl⟩, _, q, hskip, item, hitem, hitemAt, rfl⟩ := h
    obtain ⟨hat, rfl⟩ := next_ok_iff.1 hb
    have hend := hitemAt.end_le
    obtain ⟨vendor, hvendorAt, hvendor, rfl⟩ := cborSkip_item hskip (by omega)
    exact ⟨flagsItem, flags, vendor, item, hflags, hvendor, hitem,
      at_append_iff.2 ⟨hat, at_append_iff.2 ⟨hflagsAt, at_append_iff.2 ⟨hvendorAt, hitemAt⟩⟩⟩⟩
  · rintro ⟨flagsItem, flags, vendor, item, hflags, hvendor, hitem, hat⟩
    obtain ⟨hfirst, hat⟩ := at_append_iff.1 hat
    obtain ⟨hflagsAt, hat⟩ := at_append_iff.1 hat
    obtain ⟨hvendorAt, hitemAt⟩ := at_append_iff.1 hat
    have hnext : (next d : Run Nat Unit UInt8) 0 = (.ok 0x83, 0 + [(0x83 : UInt8)].length) := next_ok_iff.2 ⟨hfirst, rfl⟩
    have hread := bstr_iff.2 ⟨flagsItem, hflags, hflagsAt, rfl⟩
    have hlast := bstr_iff.2 ⟨item, hitem, hitemAt, rfl⟩
    refine ⟨_, Eq.trans ?_ hlast⟩
    rw [bind_of_ok hnext, ensure_of_true _ rfl, bind_of_ok (pure_apply () _), bind_of_ok hread,
      bind_of_ok (cborSkip_of_narrow hvendorAt hvendor)]

end Aux

/-- **`parse_di_set_credentials` returns unless the OVHeader ends within a string of a value that it captures.** -/
theorem parseDiSetCredentials_returns_iff (d : Bytes) : (Di.parseDiSetCredentials d).Returns ↔ ¬DiSetCredentialsCut d := by
  have hparse : Di.parseDiSetCredentials d = (Aux.readHeader d).eval >>= Di.parseOvHeaderCbor := rfl
  rw [hparse, Outcome.bind_returns_iff]
  constructor
  · rintro ⟨-, h⟩ ⟨flagsItem, flags, vendor, item, header, hflags, hvendor, hitem, hat, hcut⟩
    obtain ⟨r, hrun⟩ := Aux.readHeader_iff.2 ⟨flagsItem, flags, vendor, item, hflags, hvendor, hitem, hat⟩
    exact Aux.parseOvHeaderCbor_returns_iff.1 (h header (congrArg Prod.fst hrun)) hcut
  · intro h
    refine ⟨Aux.readHeader_returns d, ?_⟩
    intro header hheader
    rw [Aux.parseOvHeaderCbor_returns_iff]
    intro hcut
    obtain ⟨flagsItem, flags, vendor, item, hflags, hvendor, hitem, hat⟩ := Aux.readHeader_iff.1 ⟨_, Prod.ext hheader rfl⟩
    exact h ⟨flagsItem, flags, vendor, item, header, hflags, hvendor, hitem, hat, hcut⟩

/-- An OVHeader whose OVRVInfo is a byte string that declares two bytes and has one. -/
def sampleCutOvHeader : Bytes := [0x86, 0x18, 0xc8] ++ ([0x50] ++ List.replicate 16 0) ++ [0x42, 0x00]

/-- On the cut OVHeader the parser slices beyond the end. -/
theorem sampleCutOvHeader_panics :
    ¬(Di.parseDiSetCredentials ([0x83, 0x41, 0x00, 0x80] ++ encodeBstr sampleCutOvHeader)).Returns := by decide

end FdoUefi
