import FdoUefi.Lemmas.FirmwareBounds
import FdoUefi.Lemmas.SigStructure

/-!
# What the readers of a firmware file have read

The bytes that a reader of `rv_firmware/cose_verify.rs` passed are a data item of the kind it asks for, with the value it returned.
The payload of a firmware file starts with an array of ten such items.
-/

namespace FdoUefi

open Prog Prog.Run Cbor

/-- An unsigned integer item with value `v`, with any number of tags before it. -/
inductive IsTaggedUint : Bytes → Nat → Prop where
  | uint (h : Head) (hm : h.IsMajor 0) : IsTaggedUint h.bytes h.arg
  | tag {u : Bytes} {v : Nat} (h : Head) (hm : h.IsMajor 6) (hu : IsTaggedUint u v) : IsTaggedUint (h.bytes ++ u) v

/-- The value of a tagged integer is determined by its bytes. -/
theorem IsTaggedUint.unique {u : Bytes} {v w : Nat} (hv : IsTaggedUint u v) (hw : IsTaggedUint u w) : v = w := by
  induction hv with
  | uint h hm =>
    generalize hu : h.bytes = u at hw
    cases hw with
    | uint k km =>
      obtain ⟨rfl, -⟩ := @Head.append_inj _ _ [] [] (congrArg (· ++ []) hu)
      rfl
    | @tag t _ k km _ =>
      obtain ⟨rfl, -⟩ := Head.append_inj (r := []) ((List.append_nil _).trans hu)
      exact absurd (hm.symm.trans km) (by decide)
  | @tag t v h hm _ ih =>
    generalize hu : h.bytes ++ t = u at hw
    cases hw with
    | uint k km =>
      obtain ⟨rfl, -⟩ := @Head.append_inj _ _ _ [] (hu.trans (List.append_nil _).symm)
      exact absurd (km.symm.trans hm) (by decide)
    | tag k km ht =>
      obtain ⟨rfl, rfl⟩ := Head.append_inj hu
      exact ih ht

/-- A text, or null. -/
def IsTextOrNull (u : Bytes) : Option Bytes → Prop
  | none => u = [0xf6]
  | some s => IsText u s

/-- An array of an integer and a byte string. -/
def IsHash (u : Bytes) (type : Int) (hash : Bytes) : Prop := ∃ t v, IsArray Head.Rfc u [t, v] ∧ IsInt t type ∧ IsBstr v hash

/-- The ten fields of a firmware payload, as they are encoded: no integer is cut to a machine word. -/
structure FirmwareFields where
  magic : Nat
  version : Nat
  platformType : Bytes
  architecture : Bytes
  imageType : Nat
  timestamp : Nat
  firmwareRev : Nat
  buildId : Option Bytes
  hashType : Int
  hash : Bytes
  image : Bytes

namespace FirmwareFields

/-- `xs` are the encoded fields, in order. -/
def Encodes (f : FirmwareFields) : List Bytes → Prop
  | [magic, version, platform, arch, type, time, rev, build, hash, image] =>
    IsTaggedUint magic f.magic ∧ IsTaggedUint version f.version ∧ IsText platform f.platformType ∧ IsText arch f.architecture ∧
      IsTaggedUint type f.imageType ∧ IsTaggedUint time f.timestamp ∧ IsTaggedUint rev f.firmwareRev ∧
      IsTextOrNull build f.buildId ∧ IsHash hash f.hashType f.hash ∧ IsBstr image f.image
  | _ => False

/-- What `parse_firmware_payload` makes of the fields, with the place of the image. -/
def toPayload (f : FirmwareFields) (offset : Nat) : Fw.FirmwarePayload where
  magic := f.magic % 2 ^ 32
  version := f.version % 2 ^ 32
  platformType := f.platformType
  architecture := f.architecture
  imageType := f.imageType % 2 ^ 32
  timestamp := f.timestamp
  firmwareRev := f.firmwareRev
  buildId := f.buildId
  imageHash := f.hash
  imageHashType := asI32 f.hashType
  imageOffset := offset
  imageSize := f.image.length

end FirmwareFields

/-- The bytes start with an array of the ten fields, and `rest` follows. -/
def FirmwareLayout (d : Bytes) (f : FirmwareFields) (rest : Bytes) : Prop :=
  ∃ u xs, d = u ++ rest ∧ IsArray Head.Rfc u xs ∧ f.Encodes xs

/-! ## What the bytes determine -/

/-- An item is at most one text, or null. -/
theorem IsTextOrNull.unique {u : Bytes} {o o' : Option Bytes} (h : IsTextOrNull u o) (h' : IsTextOrNull u o') : o = o' := by
  have hnull : ∀ {s}, ¬IsText [0xf6] s := by
    rintro s ⟨k, hm, -, heq⟩
    have hinit : k.initial = 0xf6 := (List.cons.inj heq).1.symm
    unfold Head.IsMajor at hm
    rw [hinit] at hm
    exact absurd hm (by decide)
  cases o with
  | none =>
    cases o' with
    | none => rfl
    | some t =>
      obtain rfl : u = [0xf6] := h
      exact absurd h' hnull
  | some s =>
    cases o' with
    | none =>
      obtain rfl : u = [0xf6] := h'
      exact absurd h hnull
    | some t => rw [(IsStr.unique h h').2]

/-- An item is at most one hash. -/
theorem IsHash.unique {u : Bytes} {i j : Int} {a b : Bytes} (h : IsHash u i a) (h' : IsHash u j b) : i = j ∧ a = b := by
  obtain ⟨t, v, harray, hi, ha⟩ := h
  obtain ⟨t', v', harray', hj, hb⟩ := h'
  have hlist := harray.unique harray'
  obtain ⟨rfl, htail⟩ := List.cons.inj hlist
  obtain ⟨rfl, -⟩ := List.cons.inj htail
  exact ⟨hi.unique hj, (ha.unique hb).2⟩

/-- A list of items encodes at most one payload. -/
theorem FirmwareFields.Encodes.unique {f g : FirmwareFields} {xs : List Bytes} (hf : f.Encodes xs) (hg : g.Encodes xs) : f = g := by
  unfold FirmwareFields.Encodes at hf hg
  split at hf
  · obtain ⟨f0, f1, f2, f3, f4, f5, f6, f7, f8, f9⟩ := hf
    obtain ⟨g0, g1, g2, g3, g4, g5, g6, g7, g8, g9⟩ := hg
    obtain ⟨htype, hhash⟩ := f8.unique g8
    cases f
    cases g
    simp only [FirmwareFields.mk.injEq]
    exact ⟨f0.unique g0, f1.unique g1, (f2.unique g2).2, (f3.unique g3).2, f4.unique g4, f5.unique g5, f6.unique g6, f7.unique g7,
      htype, hhash, (f9.unique g9).2⟩
  · exact hf.elim

/-- The fields of a payload and what follows them are determined. -/
theorem FirmwareLayout.unique {d rest rest' : Bytes} {f g : FirmwareFields} (hf : FirmwareLayout d f rest)
    (hg : FirmwareLayout d g rest') : f = g ∧ rest = rest' := by
  obtain ⟨u, xs, rfl, hu, hfx⟩ := hf
  obtain ⟨v, ys, heq, hv, hgy⟩ := hg
  obtain ⟨rfl, hrest⟩ := Items.append_inj hu.item hv.item heq
  obtain rfl := hu.unique hv
  exact ⟨hfx.unique hgy, hrest⟩

namespace Fw

variable {d : Bytes} {c c' c₁ : Cur}

/-! ## Heads -/

/-- The argument is what follows the initial byte, in at most eight bytes. -/
theorem cborReadUintArg_bytes (hd : d.length ≤ sliceMax) {ai v : Nat} (hp : c.pos ≤ d.length)
    (h : cborReadUintArg d ai c = (.ok v, c')) :
    ai < 28 ∧ ∃ tail, Cur.Passed d c c' tail ∧ tail.length = extLen ai ∧ v = argVal ai tail := by
  have hbytes : ∀ size, extLen ai = size → 24 ≤ ai → ai < 28 → argBytes d size c = (.ok v, c') →
      ai < 28 ∧ ∃ tail, Cur.Passed d c c' tail ∧ tail.length = extLen ai ∧ v = argVal ai tail := by
    intro size hsize h24 h28 hrun
    obtain ⟨bs, hat, hl, rfl, hpos⟩ := argBytes_ok hd hrun
    refine ⟨h28, bs, ⟨hat, by rw [hpos, hl]⟩, hl.trans hsize.symm, ?_⟩
    rw [argVal, if_neg (by omega)]
  unfold cborReadUintArg at h
  by_cases h24 : ai < 24
  · rw [if_pos h24] at h
    obtain ⟨rfl, rfl⟩ := pure_ok_iff.1 h
    exact ⟨by omega, [], ⟨at_nil hp, rfl⟩, (extLen_of_lt h24).symm, (if_pos h24).symm⟩
  · rw [if_neg h24] at h
    split at h
    · next hai => exact hbytes 1 (by rw [hai]; rfl) (by omega) (by omega) h
    · split at h
      · next hai => exact hbytes 2 (by rw [hai]; rfl) (by omega) (by omega) h
      · split at h
        · next hai => exact hbytes 4 (by rw [hai]; rfl) (by omega) (by omega) h
        · split at h
          · next hai => exact hbytes 8 (by rw [hai]; rfl) (by omega) (by omega) h
          · simp at h

/-- An initial byte and its argument, read one after the other, are a head. -/
theorem head_ok (hd : d.length ≤ sliceMax) {b : UInt8} {v : Nat} (hb : initial d c = (.ok b, c₁))
    (ha : cborReadUintArg d (additional b) c₁ = (.ok v, c')) :
    ∃ h : Head, h.initial = b ∧ additional h.initial < 28 ∧ v = h.arg ∧ Cur.Passed d c c' h.bytes := by
  obtain ⟨hat, hc₁⟩ := Cur.byte_ok hd hb
  obtain ⟨h28, tail, htail, hl, hv⟩ := cborReadUintArg_bytes hd (by rw [hc₁]; exact hat.end_le) ha
  refine ⟨⟨b, tail, hl, .inl h28⟩, rfl, h28, hv, ?_⟩
  exact Cur.Passed.append ⟨hat, hc₁⟩ htail

/-- The argument of a head that is there is read. -/
theorem cborReadUintArg_reads {p : Nat} {k : Head} (hat : At d p k.bytes) (h28 : additional k.initial < 28)
    (hp : p + k.bytes.length < wordSize) :
    Cur.Reads (cborReadUintArg d (additional k.initial)) (p + 1) k.arg (p + k.bytes.length) := by
  have htail : At d (p + 1) k.tail := (at_append_iff.1 (show At d p ([k.initial] ++ k.tail) from hat)).2
  have hlen := k.bytes_length
  have hsize := k.tail_length
  have hbytes : ∀ size, extLen (additional k.initial) = size → 24 ≤ additional k.initial →
      Cur.Reads (argBytes d size) (p + 1) k.arg (p + k.bytes.length) := by
    intro size hext h24
    have harg : k.arg = beNat k.tail := if_neg (by omega)
    have hrange : range? d (p + 1) (p + 1 + size) = some k.tail := range?_eq_some_iff_at.2 ⟨htail, by omega⟩
    have hend : p + k.bytes.length = p + 1 + size := by omega
    rw [harg, hend]
    refine Cur.Reads.place.bind (Cur.Reads.bind (v := k.tail) (q := p + 1) ?_ ((Cur.Reads.bump (by omega)).bind (.pure _)))
    intro log
    exact ⟨log, by rw [hrange]; rfl⟩
  unfold cborReadUintArg
  by_cases h24 : additional k.initial < 24
  · have harg : k.arg = additional k.initial := if_pos h24
    have hext := extLen_of_lt h24
    rw [if_pos h24, harg, hlen, hext]
    exact .pure _
  · rw [if_neg h24]
    split
    · next hai => exact hbytes 1 (by rw [hai]; rfl) (by omega)
    · split
      · next hai => exact hbytes 2 (by rw [hai]; rfl) (by omega)
      · split
        · next hai => exact hbytes 4 (by rw [hai]; rfl) (by omega)
        · split
          · next hai => exact hbytes 8 (by rw [hai]; rfl) (by omega)
          · omega

/-! ## Items -/

/-- The low 32 bits are those of the low 64 bits. -/
theorem asI32_asI64 (x : Int) : asI32 (asI64 x) = asI32 x := Int.bmod_bmod_of_dvd (by decide)

/-- Narrowing to 64 bits first makes no difference. -/
theorem asI32_sub_asI64 (x y : Int) : asI32 (x - asI64 y) = asI32 (x - y) := by
  unfold asI32
  rw [Int.sub_bmod, Int.sub_bmod x y]
  exact congrArg (fun z => Int.bmod (x.bmod (2 ^ 32) - z) (2 ^ 32)) (asI32_asI64 y)

/-- An unsigned integer that was read, with its tags, is an item. -/
theorem cborReadUintValue_ok (hd : d.length ≤ sliceMax) {fuel v : Nat} (h : cborReadUintValue d fuel c = (.ok v, c')) :
    ∃ u, Cur.Passed d c c' u ∧ Item Head.Rfc u ∧ IsTaggedUint u v := by
  induction fuel generalizing c with
  | zero => simp [cborReadUintValue] at h
  | succ fuel ih =>
    rw [cborReadUintValue] at h
    obtain ⟨b, c₁, hb, hr⟩ := bind_ok_iff.1 h
    by_cases h6 : major b = 6
    · rw [if_pos h6] at hr
      obtain ⟨t, c₂, ht, hrest⟩ := bind_ok_iff.1 hr
      obtain ⟨k, rfl, h28, -, hk⟩ := head_ok hd hb ht
      obtain ⟨u, hu, hitem, hvalue⟩ := ih hrest
      refine ⟨k.bytes ++ u, hk.append hu, ?_, .tag k h6 hvalue⟩
      exact Items.tag k (Head.rfc_of_major_lt h6 (by decide) h28) h6 hitem
    · rw [if_neg h6] at hr
      obtain ⟨_, c₂, hm, ha⟩ := bind_ok_iff.1 hr
      obtain ⟨h0, rfl⟩ := ensure_ok_iff.1 hm
      obtain ⟨k, rfl, h28, rfl, hk⟩ := head_ok hd hb ha
      exact ⟨k.bytes, hk, Item.int k (Head.rfc_of_major_lt h0 (by decide) h28) (.inl h0), .uint k h0⟩

/-- An integer that was read is an item. A value outside 64 bits has wrapped. -/
theorem cborReadIntValue_ok (hd : d.length ≤ sliceMax) {v : Int} (h : cborReadIntValue d c = (.ok v, c')) :
    ∃ u i, Cur.Passed d c c' u ∧ Item Head.Rfc u ∧ IsInt u i ∧ asI32 v = asI32 i := by
  obtain ⟨b, c₁, hb, h⟩ := bind_ok_iff.1 h
  obtain ⟨arg, c₂, ha, h⟩ := bind_ok_iff.1 h
  obtain ⟨k, rfl, h28, rfl, hk⟩ := head_ok hd hb ha
  by_cases h0 : major k.initial = 0
  · simp only [if_pos h0] at h
    obtain ⟨hv, hc⟩ := pure_ok_iff.1 h
    rw [hv, hc]
    refine ⟨k.bytes, k.arg, hk, Item.int k (Head.rfc_of_major_lt h0 (by decide) h28) (.inl h0), ⟨k, .inl ⟨h0, rfl⟩, rfl⟩, ?_⟩
    exact asI32_asI64 _
  · simp only [if_neg h0] at h
    by_cases h1 : major k.initial = 1
    · rw [if_pos h1] at h
      obtain ⟨hv, hc⟩ := pure_ok_iff.1 h
      rw [hv, hc]
      refine ⟨k.bytes, -1 - k.arg, hk, Item.int k (Head.rfc_of_major_lt h1 (by decide) h28) (.inr h1),
        ⟨k, .inr ⟨h1, rfl⟩, rfl⟩, ?_⟩
      exact asI32_sub_asI64 _ _
    · rw [if_neg h1] at h
      simp at h

/-- A string of major type `m` that was read, up to the cursor being moved behind it. -/
theorem str_ok (hd : d.length ≤ sliceMax) {m len : Nat} {b : UInt8} {s : Bytes} {c₂ c₃ c₄ : Cur} (hm : major b = m)
    (hm2 : m = 2 ∨ m = 3) (hb : initial d c = (.ok b, c₁)) (ha : cborReadUintArg d (additional b) c₁ = (.ok len, c₂))
    (hs : strContent d len c₂ = (.ok s, c₃)) (hbump : (Cur.bump len : R Unit) c₃ = (.ok (), c₄)) :
    ∃ u, Cur.Passed d c c₄ u ∧ Item Head.Rfc u ∧ IsStr m u s := by
  obtain ⟨k, rfl, h28, rfl, hk⟩ := head_ok hd hb ha
  have hend := hk.1.end_le
  obtain ⟨hat, hl, hc₃⟩ := Cur.content_ok hd k.arg_lt (by rw [hk.2]; exact hend) hs
  have hkm : k.IsMajor 2 ∨ k.IsMajor 3 := by
    unfold Head.IsMajor
    omega
  refine ⟨k.bytes ++ s, hk.append ⟨hat, ?_⟩, Item.str k s ?_ hkm hl, k, hm, hl, rfl⟩
  · have hle := hat.end_le
    simp only [Cur.bump, Prod.mk.injEq] at hbump
    rw [← hbump.2, hc₃, ← hl]
    refine Nat.mod_eq_of_lt ?_
    simp only [sliceMax, wordSize] at hd ⊢
    omega
  · exact Head.rfc_of_major_lt (m := m) hm (by omega) h28

/-- A byte string that was read stands there. -/
theorem cborReadBstr_ok (hd : d.length ≤ sliceMax) {s : Bytes} (h : cborReadBstr d c = (.ok s, c')) :
    ∃ u, Cur.Passed d c c' u ∧ Item Head.Rfc u ∧ IsBstr u s := by
  simp only [cborReadBstr, bind_ok_iff, ensure_ok_iff] at h
  obtain ⟨b, c₁, hb, _, c₂, ⟨hm, rfl⟩, len, c₃, ha, t, c₄, hs, _, c₅, hbump, hend⟩ := h
  obtain ⟨rfl, rfl⟩ := pure_ok_iff.1 hend
  exact str_ok hd hm (.inl rfl) hb ha hs hbump

/-- A text string that was read stands there. -/
theorem cborReadTstr_ok (hd : d.length ≤ sliceMax) {s : Bytes} (h : cborReadTstr d c = (.ok s, c')) :
    ∃ u, Cur.Passed d c c' u ∧ Item Head.Rfc u ∧ IsText u s := by
  simp only [cborReadTstr, bind_ok_iff, ensure_ok_iff] at h
  obtain ⟨b, c₁, hb, _, c₂, ⟨hm, rfl⟩, len, c₃, ha, t, c₄, hs, _, c₅, ⟨-, rfl⟩, _, c₆, hbump, hend⟩ := h
  obtain ⟨rfl, rfl⟩ := pure_ok_iff.1 hend
  exact str_ok hd hm (.inr rfl) hb ha hs hbump

/-! ## The payload -/

/-- A build ID that was read stands there, or null. -/
theorem readBuildId_ok (hd : d.length ≤ sliceMax) {o : Option Bytes} (h : readBuildId d c = (.ok o, c')) :
    ∃ u, Cur.Passed d c c' u ∧ Item Head.Rfc u ∧ IsTextOrNull u o := by
  obtain ⟨ob, c₁, hpeek, hr⟩ := bind_ok_iff.1 h
  obtain ⟨rfl, rfl⟩ : d[c.pos]? = ob ∧ c = c₁ := by simpa [peek, Cur.peek] using hpeek
  cases hb : d[c.pos]? with
  | none =>
    simp only [hb] at hr
    simp at hr
  | some b =>
    simp only [hb] at hr
    have hat := getElem?_eq_some_iff_at.1 hb
    by_cases hnull : b = 0xf6
    · simp only [if_pos hnull, bind_ok_iff] at hr
      obtain ⟨_, c₂, hbump, hend⟩ := hr
      obtain ⟨rfl, rfl⟩ := pure_ok_iff.1 hend
      rw [hnull] at hat
      have hle := hat.end_le
      refine ⟨[0xf6], ⟨hat, ?_⟩, null_item, rfl⟩
      simp only [Cur.bump, Prod.mk.injEq] at hbump
      rw [← hbump.2]
      refine Nat.mod_eq_of_lt ?_
      simp only [sliceMax, wordSize, List.length_singleton] at hd hle ⊢
      omega
    · simp only [if_neg hnull, bind_ok_iff] at hr
      obtain ⟨s, c₂, hs, hend⟩ := hr
      obtain ⟨rfl, rfl⟩ := pure_ok_iff.1 hend
      exact cborReadTstr_ok hd hs

/-- A hash that was read stands there, but its type has lost its high bits. -/
theorem readImageHash_ok (hd : d.length ≤ sliceMax) {p : Int × Bytes} (h : readImageHash d c = (.ok p, c')) :
    ∃ u i, Cur.Passed d c c' u ∧ Item Head.Rfc u ∧ IsHash u i p.2 ∧ p.1 = asI32 i := by
  simp only [readImageHash, bind_ok_iff, ensure_ok_iff] at h
  obtain ⟨b, c₁, hb, _, c₂, ⟨hm, rfl⟩, len, c₃, ha, _, c₄, ⟨hlen, rfl⟩, t, c₅, ht, v, c₆, hv, hend⟩ := h
  obtain ⟨rfl, rfl⟩ := pure_ok_iff.1 hend
  obtain ⟨k, rfl, h28, rfl, hk⟩ := head_ok hd hb ha
  obtain ⟨x, i, hx, hxitem, hint, hti⟩ := cborReadIntValue_ok hd ht
  obtain ⟨y, hy, hyitem, hstr⟩ := cborReadBstr_ok hd hv
  have hrfc : k.Rfc := Head.rfc_of_major_lt hm (by decide) h28
  have hpassed := hk.append (hx.append hy)
  have hitems : Items Head.Rfc (k.arg + 0) (x ++ y) := by
    rw [hlen]
    exact Items.append (m := 1) (n := 1) hxitem hyitem
  refine ⟨k.bytes ++ (x ++ y), i, hpassed, Items.array k hrfc hm hitems, ⟨x, y, ?_, hint, hstr⟩, hti⟩
  refine ⟨k, hrfc, hm, hlen, by simp, ?_⟩
  simp only [List.mem_cons, List.not_mem_nil, or_false]
  rintro z (rfl | rfl)
  · exact hxitem
  · exact hyitem

/-- The head of the image was read, and the image starts behind it. -/
theorem readImageSpan_ok (hd : d.length ≤ sliceMax) {p : Nat × Nat} (h : readImageSpan d c = (.ok p, c')) :
    ∃ k : Head, k.Rfc ∧ k.IsMajor 2 ∧ Cur.Passed d c c' k.bytes ∧ p = (c'.pos, k.arg) := by
  simp only [readImageSpan, Cur.place, bind_ok_iff, ensure_ok_iff, Prod.mk.injEq, Outcome.ok.injEq] at h
  obtain ⟨b, c₁, hb, _, c₂, ⟨hm, rfl⟩, len, c₃, ha, _, c₄, ⟨rfl, rfl⟩, hend⟩ := h
  obtain ⟨rfl, rfl⟩ := pure_ok_iff.1 hend
  obtain ⟨k, rfl, h28, rfl, hk⟩ := head_ok hd hb ha
  exact ⟨k, Head.rfc_of_major_lt hm (by decide) h28, hm, hk, rfl⟩

/-- A payload that was read starts with an array of its ten fields, when its image lies where it is announced. -/
theorem parseFirmwarePayload_ok (hd : d.length ≤ sliceMax) {fuel : Nat} {payload : FirmwarePayload} (hc : c.pos = 0)
    (h : parseFirmwarePayload fuel d c = (.ok payload, c')) {image : Bytes} (hat : At d payload.imageOffset image)
    (hl : image.length = payload.imageSize) :
    ∃ f rest, FirmwareLayout d f rest ∧ f.image = image ∧ f.magic % 2 ^ 32 = fwMagic ∧
      payload = f.toPayload payload.imageOffset := by
  unfold parseFirmwarePayload at h
  obtain ⟨b, c₁, hb, r₁⟩ := bind_ok_iff.1 h
  obtain ⟨_, c₂, hmajor, r₂⟩ := bind_ok_iff.1 r₁
  obtain ⟨hm, rfl⟩ := ensure_ok_iff.1 hmajor
  obtain ⟨len, c₃, ha, r₃⟩ := bind_ok_iff.1 r₂
  obtain ⟨_, c₄, hten, r₄⟩ := bind_ok_iff.1 r₃
  obtain ⟨hlen, rfl⟩ := ensure_ok_iff.1 hten
  obtain ⟨magic, c₅, h0, r₅⟩ := bind_ok_iff.1 r₄
  obtain ⟨_, c₆, hword, r₆⟩ := bind_ok_iff.1 r₅
  obtain ⟨hmagic, rfl⟩ := ensure_ok_iff.1 hword
  obtain ⟨version, c₇, h1, r₇⟩ := bind_ok_iff.1 r₆
  obtain ⟨platformType, c₈, h2, r₈⟩ := bind_ok_iff.1 r₇
  obtain ⟨architecture, c₉, h3, r₉⟩ := bind_ok_iff.1 r₈
  obtain ⟨imageType, c₁₀, h4, r₁₀⟩ := bind_ok_iff.1 r₉
  obtain ⟨timestamp, c₁₁, h5, r₁₁⟩ := bind_ok_iff.1 r₁₀
  obtain ⟨firmwareRev, c₁₂, h6, r₁₂⟩ := bind_ok_iff.1 r₁₁
  obtain ⟨buildId, c₁₃, h7, r₁₃⟩ := bind_ok_iff.1 r₁₂
  obtain ⟨⟨hashType, hash⟩, c₁₄, h8, r₁₄⟩ := bind_ok_iff.1 r₁₃
  obtain ⟨⟨offset, size⟩, c₁₅, h9, hend⟩ := bind_ok_iff.1 r₁₄
  obtain ⟨rfl, rfl⟩ := pure_ok_iff.1 hend
  obtain ⟨arr, rfl, h28, rfl, harr⟩ := head_ok hd hb ha
  obtain ⟨x0, p0, i0, e0⟩ := cborReadUintValue_ok hd h0
  obtain ⟨x1, p1, i1, e1⟩ := cborReadUintValue_ok hd h1
  obtain ⟨x2, p2, i2, e2⟩ := cborReadTstr_ok hd h2
  obtain ⟨x3, p3, i3, e3⟩ := cborReadTstr_ok hd h3
  obtain ⟨x4, p4, i4, e4⟩ := cborReadUintValue_ok hd h4
  obtain ⟨x5, p5, i5, e5⟩ := cborReadUintValue_ok hd h5
  obtain ⟨x6, p6, i6, e6⟩ := cborReadUintValue_ok hd h6
  obtain ⟨x7, p7, i7, e7⟩ := readBuildId_ok hd h7
  obtain ⟨x8, type, p8, i8, e8, htype⟩ := readImageHash_ok hd h8
  obtain ⟨k, hrfc, hmaj, p9, hspan⟩ := readImageSpan_ok hd h9
  obtain ⟨rfl, rfl⟩ := Prod.mk.inj hspan
  have himage : Cur.Passed d c' ⟨c'.pos + image.length, []⟩ image := ⟨hat, rfl⟩
  have hpassed := harr.append (p0.append (p1.append (p2.append (p3.append (p4.append (p5.append (p6.append (p7.append
    (p8.append (p9.append himage))))))))))
  have hzero := hpassed.1
  rw [hc] at hzero
  obtain ⟨rest, hrest⟩ := at_zero_iff.1 hzero
  have hsize : image.length = k.arg := hl
  have i9 : Item Head.Rfc (k.bytes ++ image) := Item.str k image hrfc (.inl hmaj) hsize
  have harray : IsArray Head.Rfc (arr.bytes ++ [x0, x1, x2, x3, x4, x5, x6, x7, x8, k.bytes ++ image].flatten)
      [x0, x1, x2, x3, x4, x5, x6, x7, x8, k.bytes ++ image] := by
    refine ⟨arr, Head.rfc_of_major_lt hm (by decide) h28, hm, hlen, rfl, ?_⟩
    simp only [List.mem_cons, List.not_mem_nil, or_false]
    rintro x (rfl | rfl | rfl | rfl | rfl | rfl | rfl | rfl | rfl | rfl) <;> assumption
  refine ⟨⟨magic, version, platformType, architecture, imageType, timestamp, firmwareRev, buildId, type, hash, image⟩, rest,
    ⟨_, _, ?_, harray, e0, e1, e2, e3, e4, e5, e6, e7, e8, k, hmaj, hsize, rfl⟩, rfl, hmagic, ?_⟩
  · rw [hrest]
    simp
  · simp only [FirmwareFields.toPayload, hsize]
    simp only at htype
    rw [htype]

/-! ## What is signed -/

/-- The firmware code builds the Sig_structure that `cose.rs` builds, without associated data. -/
theorem sigStructure_eq (sign1 : CoseSign1) : sigStructure sign1 = buildSigStructure sign1.protectedHeader [] sign1.payload := by
  have hempty : encodeBstr [] = [0x40] := by decide
  rw [buildSigStructure, hempty]
  simp only [sigStructure, cborEncodeBstrHeader, encodeBstr, List.append_assoc]

end Fw

end FdoUefi
