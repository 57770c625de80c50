import FdoUefi.Di
import FdoUefi.Lemmas.Scope
import FdoUefi.Lemmas.ShortSkip

/-!
# Helpers about the OVHeader that DI accepts

The fields that the parser of DI captures are items whose heads have short arguments, and its text is one text item.
-/

namespace FdoUefi

open Prog Prog.Run Cbor

namespace Di

variable {d : Bytes} {p q : Nat}

/-- A captured value is one item. -/
theorem cborCaptureValue_ok {u : Bytes} (h : cborCaptureValue d p = (.ok u, q)) :
    At d p u ∧ Item Head.Short u ∧ q = p + u.length := by
  simp only [cborCaptureValue, bind_ok_iff, getS_apply, Prod.mk.injEq, Outcome.ok.injEq, slice_ok_iff] at h
  obtain ⟨_, _, ⟨rfl, rfl⟩, _, t, hskip, _, _, ⟨rfl, rfl⟩, hat, hlen, rfl⟩ := h
  have hend := hat.end_le
  obtain ⟨v, hvat, hitem, heq⟩ := skipShort_item hskip (by omega)
  have huv : u = v := by
    apply hat.unique hvat
    omega
  rw [huv]
  exact ⟨hvat, hitem, heq⟩

/-- A text is one text item. -/
theorem cborReadTstr_ok {s : Bytes} (h : cborReadTstr d p = (.ok s, q)) :
    ∃ hd : Head, hd.IsMajor 3 ∧ hd.Short ∧ s.length = hd.arg ∧ utf8Valid s = true ∧ At d p (hd.bytes ++ s) ∧
      q = p + (hd.bytes ++ s).length := by
  simp only [cborReadTstr, cborDecodeAdditional, bind_ok_iff, ensure_ok_iff, takeText_ok_iff] at h
  obtain ⟨b, t, hb, _, _, ⟨hm, rfl⟩, len, r, ha, hat, hlen, rfl, hutf⟩ := h
  obtain ⟨hd, rfl, h27, hhead, rfl, rfl⟩ := cborHead_ok hb ha
  refine ⟨hd, hm, h27, hlen, hutf, at_append_iff.2 ⟨hhead, hat⟩, ?_⟩
  rw [List.length_append, hlen, Nat.add_assoc]

end Di

/-- A text item is read as its text. -/
theorem decodeTstr_of_text {hd : Head} {s : Bytes} (hm : hd.IsMajor 3) (hshort : hd.Short) (hlen : s.length = hd.arg)
    (hutf : utf8Valid s = true) : decodeTstr (hd.bytes ++ s) = .ok s := by
  have hat : At (hd.bytes ++ s) 0 hd.bytes := at_zero_iff.2 ⟨s, rfl⟩
  have hs : At (hd.bytes ++ s) (0 + hd.bytes.length) s := (at_append_iff.1 (at_zero_iff.2 ⟨[], by simp⟩)).2
  have hm' : major hd.initial = 3 := hm
  have htext : takeText (hd.bytes ++ s) hd.arg (0 + hd.bytes.length) = (.ok s, 0 + hd.bytes.length + hd.arg) :=
    takeText_ok_iff.2 ⟨hs, hlen, rfl, hutf⟩
  unfold decodeTstr Run.eval
  rw [bind_of_ok (next_of_head hat), ensure_of_true _ hm', bind_of_ok (pure_apply () _),
    bind_of_ok (cborReadUintArg_of_head hshort hat), htext]

/-- The fields of an OVHeader that DI accepts, with the places that its parser comes to. -/
structure Di.HeaderFields (d : Bytes) (h : Di.OvHeader) where
  initial : UInt8
  count : Nat
  protVer : Nat
  versionAt : Nat
  guidAt : Nat
  rvInfoAt : Nat
  textHead : Head
  initial_read : next d 0 = (.ok initial, 1)
  array : major initial = 4
  count_read : cborReadUintArg d (additional initial) 1 = (.ok count, versionAt)
  five : 5 ≤ count
  version_read : cborReadUintValue d versionAt = (.ok protVer, guidAt)
  guid_read : FdoUefi.cborReadBstr d guidAt = (.ok h.guid, rvInfoAt)
  guid_length : h.guid.length = 16
  rvInfo : Item Head.Short h.rvInfo
  text : textHead.IsMajor 3
  text_short : textHead.Short
  text_length : h.deviceInfo.length = textHead.arg
  text_utf8 : utf8Valid h.deviceInfo = true
  pubKey : Item Head.Short h.pubKey
  rest : At d rvInfoAt (h.rvInfo ++ ((textHead.bytes ++ h.deviceInfo) ++ h.pubKey))
  raw : h.rawCbor = d

/-- The fields of a header stand one behind the other. -/
theorem Di.parseOvHeaderCbor_fields {d : Bytes} {h : Di.OvHeader} (hparse : Di.parseOvHeaderCbor d = .ok h) :
    Nonempty (Di.HeaderFields d h) := by
  simp only [Di.parseOvHeaderCbor, Run.eval, bind_fst_ok_iff, ensure_ok_iff, pure_apply, Outcome.ok.injEq] at hparse
  obtain ⟨b, _, hb, _, t, ⟨hm, rfl⟩, count, _, hcount, _, p₀, ⟨hfive, rfl⟩, protVer, p₁, hver, guid, _, hguid, _, p₂,
    ⟨hlen, rfl⟩, rvInfo, p₃, hrv, info, p₄, hinfo, pubKey, p₅, hkey, chain, p₆, -, rfl⟩ := hparse
  obtain ⟨-, rfl⟩ := next_ok_iff.1 hb
  obtain ⟨hrvAt, hrvItem, rfl⟩ := Di.cborCaptureValue_ok hrv
  obtain ⟨hd, htext, hshort, htlen, hutf, htAt, rfl⟩ := Di.cborReadTstr_ok hinfo
  obtain ⟨hkAt, hkItem, rfl⟩ := Di.cborCaptureValue_ok hkey
  exact ⟨⟨b, count, protVer, p₀, p₁, p₂, hd, hb, hm, hcount, hfive, hver, hguid, hlen, hrvItem, htext, hshort, htlen, hutf,
    hkItem, at_append_iff.2 ⟨hrvAt, at_append_iff.2 ⟨htAt, hkAt⟩⟩, rfl⟩⟩

/-- A text item with a short head is one item. -/
theorem Di.HeaderFields.textItem {d : Bytes} {h : Di.OvHeader} (f : Di.HeaderFields d h) :
    Item Head.Short (f.textHead.bytes ++ h.deviceInfo) :=
  Item.str f.textHead h.deviceInfo f.text_short (.inr f.text) f.text_length

end FdoUefi
