import FdoUefi.Lemmas.Envelope

/-!
# The payload that is used and the payload that is verified

TO2 reads ProveOVHdr20 twice: `extract_cose_payload` yields the payload the protocol goes on with, `parse_cose_sign1` the one
whose signature is checked. Both step over the unprotected header, which is not signed. They agree as long as it holds no
simple value in two bytes (`extractCosePayload_eq_payload`); with one in it they can differ
(`extractCosePayload_ne_payload`).
-/

namespace FdoUefi

open Prog Prog.Run Cbor

/-- The unprotected header of the envelope, where there is one, holds no simple value in two bytes. -/
def HeaderPlain (d : Bytes) : Prop :=
  ∀ pre prot u post, d = pre ++ (u ++ post) → IsSign1Prefix pre prot → Item (fun _ => True) u → Item Head.NoByteSimple u

/-- Without a byte `f8` there is nothing to look for. -/
theorem headerPlain_of_notMem {d : Bytes} (h : 0xf8 ∉ d) : HeaderPlain d := by
  intro pre prot u post hd _ hu
  refine hu.mono_mem fun k hk _ hf8 => h ?_
  rw [hd, ← hf8]
  simp [hk]

namespace Aux

variable {d : Bytes} {c c' : Cur}

/-- The head of the array is not a tag, so both readers see the same tag or none. -/
theorem skipCoseTag_pos (hd : d.length ≤ sliceMax) {t : Bytes} {ah : Head} (ht : IsSign1Tag t) (hm : ah.IsMajor 4)
    (hat : At d c.pos (t ++ ah.bytes)) (h : skipCoseTag d c = (.ok (), c')) : c'.pos = c.pos + t.length := by
  obtain ⟨htat, haat⟩ := at_append_iff.1 hat
  unfold skipCoseTag at h
  obtain ⟨o, c₁, ho, hr⟩ := bind_ok_iff.1 h
  simp only [Dec.peek, Cur.peek, Prod.mk.injEq, Outcome.ok.injEq] at ho
  obtain ⟨rfl, rfl⟩ := ho
  rcases ht with rfl | ⟨th, htm, -, rfl⟩
  · have hb : d[c.pos]? = some ah.initial := peek_of_head haat
    have h6 : ¬major ah.initial = 6 := by
      unfold Head.IsMajor at hm
      omega
    simp only [hb, if_neg h6] at hr
    rw [(pure_ok_iff.1 hr).2]
    rfl
  · have hb : d[c.pos]? = some th.initial := peek_of_head htat
    have h6 : major th.initial = 6 := htm
    simp only [hb, if_pos h6, bind_ok_iff, ensure_ok_iff] at hr
    obtain ⟨tag, c₂, htag, -, rfl⟩ := hr
    obtain ⟨k, -, hkat, -, hc₂⟩ := readHead_ok hd htag
    rw [hc₂, Head.unique hkat htat]

/-- The head of an array is passed. -/
theorem readArrayLen_pos (hd : d.length ≤ sliceMax) {ah : Head} {v : Nat} (hat : At d c.pos ah.bytes)
    (h : Dec.readArrayLen d c = (.ok v, c')) : c'.pos = c.pos + ah.bytes.length := by
  obtain ⟨k, -, hkat, -, hc'⟩ := readHead_ok hd h
  rw [hc', Head.unique hkat hat]

/-- A byte string that both decoders read is the same. -/
theorem readBytes_eq_payload (hd : d.length ≤ sliceMax) {pl payload p : Bytes} (hpl : IsSign1Payload pl payload)
    (hat : At d c.pos pl) (h : Dec.readBytes d c = (.ok p, c')) : p = payload := by
  obtain ⟨k, hkm, hkat, hkl, -⟩ := readBytes_ok hd h
  obtain ⟨hkat, hpat⟩ := at_append_iff.1 hkat
  rcases hpl with ⟨ph, hm, hl, rfl⟩ | ⟨rfl, -⟩
  · obtain ⟨hphat, hsat⟩ := at_append_iff.1 hat
    obtain rfl := Head.unique hkat hphat
    exact hpat.unique hsat (hkl.trans hl.symm)
  · have hb := peek_of_head hkat
    rw [getElem?_eq_some_iff_at.2 hat, Option.some.injEq] at hb
    rw [Head.IsMajor, ← hb] at hkm
    exact absurd hkm (by decide)

/-- A byte string item holds no simple value. -/
theorem bstr_noByteSimple {h : Head} {s : Bytes} (hm : h.IsMajor 2) (hl : s.length = h.arg) :
    Item Head.NoByteSimple (h.bytes ++ s) := by
  refine Item.str h s ?_ (.inl hm) hl
  intro hf8
  rw [Head.IsMajor, hf8] at hm
  exact absurd hm (by decide)

end Aux

/-- On an envelope whose unprotected header holds no simple value in two bytes, the payload that is used is the payload that
is verified. -/
theorem extractCosePayload_eq_payload (d : Slice) (hplain : HeaderPlain d.bytes) (fuel : Nat) (p : Bytes) (s : CoseSign1)
    (he : Dec.eval (extractCosePayload fuel d.bytes) = .ok p) (hs : parseCoseSign1 d.bytes = .ok s) : p = s.payload := by
  have hd := d.fits
  obtain ⟨pre, pl, sg, post, hdec, hpre, hitem, hpay, -, -⟩ := parseCoseSign1_ok hs
  have hu : Item Head.NoByteSimple s.unprotectedHeader :=
    hplain pre s.protectedHeader s.unprotectedHeader (pl ++ sg ++ post) (by simpa using hdec) hpre
      (hitem.mono fun _ _ => trivial)
  obtain ⟨t, ah, ph, ht, ham, -, hpm, hpl, rfl⟩ := hpre
  -- Where each part stands.
  have hall : At d.bytes 0 (t ++ (ah.bytes ++ (ph.bytes ++ s.protectedHeader)) ++ (s.unprotectedHeader ++ (pl ++ sg))) :=
    at_zero_iff.2 ⟨post, hdec⟩
  obtain ⟨h1, h2⟩ := at_append_iff.1 hall
  obtain ⟨htat, h3⟩ := at_append_iff.1 h1
  obtain ⟨haat, hpat⟩ := at_append_iff.1 h3
  obtain ⟨huat, h4⟩ := at_append_iff.1 h2
  have hplat := (at_append_iff.1 h4).1
  -- The other decoder comes to the same places.
  have hrun : extractCosePayload fuel d.bytes Cur.start = (.ok p, (extractCosePayload fuel d.bytes Cur.start).2) :=
    Prod.ext he rfl
  simp only [extractCosePayload, bind_ok_iff, ensure_ok_iff] at hrun
  obtain ⟨_, c₁, ht', n, c₂, ha', _, _, ⟨-, rfl⟩, _, c₃, hp', _, c₄, hu', hr'⟩ := hrun
  have hc₁ : c₁.pos = 0 + t.length := Aux.skipCoseTag_pos hd ht ham (at_append_iff.2 ⟨htat, haat⟩) ht'
  rw [← hc₁] at haat hpat
  have hc₂ := Aux.readArrayLen_pos hd haat ha'
  rw [← hc₂] at hpat
  have hc₃ := skipValue_item hd hpat (Aux.bstr_noByteSimple hpm hpl) hp'
  have hc₃' : c₃.pos = 0 + (t ++ (ah.bytes ++ (ph.bytes ++ s.protectedHeader))).length := by
    rw [hc₃, hc₂, hc₁]
    simp only [List.length_append]
    omega
  rw [← hc₃'] at huat hplat
  have hc₄ := skipValue_item hd huat hu hu'
  rw [← hc₄] at hplat
  exact Aux.readBytes_eq_payload hd hpay hplat hr'

/-- `[h'a10126', {4: h'01'}, h'aa', h'']`. -/
def plainEnvelope : Bytes := [0x84, 0x43, 0xa1, 0x01, 0x26, 0xa1, 0x04, 0x41, 0x01, 0x41, 0xaa, 0x40]

/-- The payload of the plain envelope is taken out of it. -/
theorem extractCosePayload_plainEnvelope :
    ∃ s, parseCoseSign1 plainEnvelope = .ok s ∧ [0xaa] = s.payload := by
  refine ⟨⟨-7, [0xa1, 0x01, 0x26], [0xa1, 0x04, 0x41, 0x01], [0xaa], []⟩, by decide, ?_⟩
  exact extractCosePayload_eq_payload ⟨plainEnvelope, by decide⟩ (headerPlain_of_notMem (by decide)) 4 _ _
    (by decide) (by decide)

/-- `[h'a10126', {4: simple(64)}, h'aa', h'']`. -/
def spoofedEnvelope : Bytes := [0x84, 0x43, 0xa1, 0x01, 0x26, 0xa1, 0x04, 0xf8, 0x40, 0x41, 0xaa, 0x40]

/-- With a simple value in two bytes in the unprotected header the payload that is used is another one than the payload that
is verified: the byte of the simple value is taken for an empty byte string. -/
theorem extractCosePayload_ne_payload :
    ∃ s, Dec.eval (extractCosePayload 4 spoofedEnvelope) = .ok [] ∧ parseCoseSign1 spoofedEnvelope = .ok s ∧
      s.payload = [0xaa] ∧ ([] : Bytes) ≠ s.payload := by
  refine ⟨⟨-7, [0xa1, 0x01, 0x26], [0xa1, 0x04, 0xf8, 0x40], [0xaa], []⟩, ?_, ?_, rfl, ?_⟩
  · decide
  · decide
  · decide

end FdoUefi
