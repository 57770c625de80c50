import FdoUefi.Bmo
import FdoUefi.Lemmas.ItemReaders
import FdoUefi.Lib.Yields

/-!
# Keys that mean nothing

A begin message and a meta-payload are maps with integer keys, which `read_int` cuts to 32 bits. A key that is none of the
defined ones leaves a begin message as it is, and is recorded in a meta-payload, exactly when the key it is cut to is none of
them either. The maps are those whose heads `skip_value` reads as CBOR does.
-/

namespace FdoUefi

open Prog Prog.Run Cbor

/-- The keys of a begin message, with the legacy keys of its delivery fields. -/
def beginKeys : List Int := [0, 1, 3, 4, -1, -2, -3, -4, -5, 5, 6, 7, 8, 9, -6, -7, -8, -9, -10]

/-- The keys of a meta-payload. -/
def metaKeys : List Int := [0, 1, 2, 3, 4, 5, 6, 7, 8]

/-- The bytes start with a map of these entries. -/
def StartsWithMap (d : Bytes) (es : List (Bytes × Bytes)) : Prop := ∃ bs, IsMap PlainHead bs es ∧ At d 0 bs

/-- Wherever an entry with this key is added to a begin message, and whatever its value, the message says the same. -/
def Inert (k : Head) : Prop :=
  ∀ (d d' : Slice) es₁ v es₂ fuel begin begin', StartsWithMap d.bytes (es₁ ++ es₂) →
    StartsWithMap d'.bytes (es₁ ++ (k.bytes, v) :: es₂) → parseBmoImageBegin fuel d.bytes = .ok begin →
    parseBmoImageBegin fuel d'.bytes = .ok begin' → begin' = begin

/-- A meta-payload with an entry of this key says so, and is refused when it is not authenticated. -/
def Recorded (k : Head) : Prop :=
  ∀ (d : Slice) es₁ v es₂ fuel m, StartsWithMap d.bytes (es₁ ++ (k.bytes, v) :: es₂) →
    parseMetaPayload fuel d.bytes = .ok m →
    narrowInt k ∈ m.extraKeys ∧ ∀ beginHash, checkUnauthenticatedMeta m false beginHash ≠ .ok ()

namespace Aux

variable {d d' : Bytes} {c c' : Cur} {fuel : Nat}

/-! ### Entry by entry -/

/-- One entry of a begin message. -/
def beginEntry (fuel : Nat) (d : Bytes) (f : BeginFields) : Run Cur Unit BeginFields :=
  Dec.ok (Dec.readInt d) >>= readBeginField fuel d f

/-- One entry of a meta-payload. -/
def metaEntry (fuel : Nat) (d : Bytes) (m : MetaFields) : Run Cur Unit MetaFields :=
  Dec.ok (Dec.readInt d) >>= readMetaField fuel d m

/-- The entries of a begin message are read one by one. -/
theorem imageBeginLoop_eq_foldN (n : Nat) (f : BeginFields) : imageBeginLoop fuel d n f = foldN n (beginEntry fuel d) f := by
  induction n generalizing f with
  | zero => rfl
  | succ n ih =>
    simp only [imageBeginLoop, foldN, beginEntry, bind_assoc, ih]

/-- The entries of a meta-payload are read one by one. -/
theorem metaPayloadLoop_eq_foldN (n : Nat) (m : MetaFields) : metaPayloadLoop fuel d n m = foldN n (metaEntry fuel d) m := by
  induction n generalizing m with
  | zero => rfl
  | succ n ih =>
    simp only [metaPayloadLoop, foldN, metaEntry, bind_assoc, ih]

/-- A field of the delivery is one item. -/
theorem readDeliveryField_itemWise (k : DeliveryKeys) (field : Int) :
    ItemWise PlainHead 1 fun d => readDeliveryField d k field := by
  unfold readDeliveryField
  refine .ite ((ok_itemWise readUint_itemWise).map _) ?_
  refine .ite ((ok_itemWise readText_itemWise).map _) ?_
  refine .ite ((ok_itemWise readBytes_itemWise).map _) ?_
  exact .ite ((ok_itemWise readBytes_itemWise).map _) ((ok_itemWise readBytes_itemWise).map _)

/-- A field of a begin message is one item. -/
theorem readBeginField_itemWise (f : BeginFields) (key : Int) : ItemWise PlainHead 1 fun d => readBeginField fuel d f key := by
  unfold readBeginField
  refine .ite ((ok_itemWise readUint_itemWise).map _) ?_
  refine .ite ((ok_itemWise readText_itemWise).map _) ?_
  refine .ite ((ok_itemWise readBool_itemWise).map _) ?_
  refine .ite ((ok_itemWise readUint_itemWise).map _) ?_
  refine .ite ((ok_itemWise readText_itemWise).map _) ?_
  refine .ite ((ok_itemWise readText_itemWise).map _) ?_
  refine .ite ((ok_itemWise readText_itemWise).map _) ?_
  refine .ite ((ok_itemWise readText_itemWise).map _) ?_
  refine .ite ((ok_itemWise readText_itemWise).map _) ?_
  refine .ite ((readDeliveryField_itemWise _ _).map _) ?_
  exact .ite ((readDeliveryField_itemWise _ _).map _) ((ok_itemWise (skipValue_itemWise fuel)).map _)

/-- An entry of a begin message is two. -/
theorem beginEntry_itemWise (f : BeginFields) : ItemWise PlainHead 2 fun d => beginEntry fuel d f :=
  (ok_itemWise readInt_itemWise).bind fun key => readBeginField_itemWise f key

/-- A field of a meta-payload is one item. -/
theorem readMetaField_itemWise (m : MetaFields) (key : Int) : ItemWise PlainHead 1 fun d => readMetaField fuel d m key := by
  unfold readMetaField
  refine .ite ((ok_itemWise readText_itemWise).map _) ?_
  refine .ite ((ok_itemWise readText_itemWise).map _) ?_
  refine .ite ((ok_itemWise readBytes_itemWise).map _) ?_
  refine .ite ((ok_itemWise readText_itemWise).map _) ?_
  refine .ite ((ok_itemWise readBytes_itemWise).map _) ?_
  refine .ite ((ok_itemWise readText_itemWise).map _) ?_
  refine .ite ((ok_itemWise readText_itemWise).map _) ?_
  refine .ite ((ok_itemWise readText_itemWise).map _) ?_
  exact .ite ((ok_itemWise readText_itemWise).map _) ((ok_itemWise (skipValue_itemWise fuel)).map _)

/-- An entry of a meta-payload is two. -/
theorem metaEntry_itemWise (m : MetaFields) : ItemWise PlainHead 2 fun d => metaEntry fuel d m :=
  (ok_itemWise readInt_itemWise).bind fun key => readMetaField_itemWise m key

/-! ### The head of the map -/

/-- The length of a map is the argument of its head. -/
theorem readMapLen_ok (hd : d.length ≤ sliceMax) {n : Nat} (h : Dec.readMapLen d c = (.ok n, c')) :
    ∃ k : Head, n = k.arg ∧ At d c.pos k.bytes ∧ c'.pos = c.pos + k.bytes.length := by
  unfold Dec.readMapLen at h
  simp only [bind_ok_iff, ensure_ok_iff] at h
  obtain ⟨b, _, hb, _, c₁, ⟨-, rfl⟩, h⟩ := h
  have harg : Dec.decodeAdditional d (additional b) c₁ = (.ok n, c') := by
    unfold Dec.decodeAdditional
    split_ifs at h with h23 h24 h25
    · rw [if_pos (by omega)]
      exact h
    · rw [if_neg (by omega), if_pos h24]
      exact h
    · rw [if_neg (by omega), if_neg h24, if_pos h25]
      exact h
    · simp at h
  obtain ⟨k, -, hat, hv, hpos⟩ := decHead_ok hd hb harg
  exact ⟨k, hv, hat, hpos⟩

/-- A map, entry by entry. -/
def readEntries {F β : Type} (entry : Bytes → F → Run Cur Unit F) (init : F) (finish : F → Outcome Unit β) (d : Bytes) :
    Run Cur Unit β := do
  let n ← Dec.ok (Dec.readMapLen d)
  let f ← foldN n (entry d) init
  ofOutcome (finish f)

/-- A begin message is read as a map, entry by entry. -/
theorem parseBmoImageBegin_eq (fuel : Nat) (d : Bytes) :
    parseBmoImageBegin fuel d = (readEntries (beginEntry fuel) {} BeginFields.finish d Cur.start).1 := by
  simp only [parseBmoImageBegin, readEntries, imageBeginLoop_eq_foldN]

/-- A meta-payload is read as a map, entry by entry. -/
theorem parseMetaPayload_eq (fuel : Nat) (d : Bytes) :
    parseMetaPayload fuel d = (readEntries (metaEntry fuel) {} MetaFields.finish d Cur.start).1 := by
  simp only [parseMetaPayload, readEntries, metaPayloadLoop_eq_foldN]

section Entries

variable {F β : Type} {entry : Bytes → F → Run Cur Unit F} {init : F} {finish : F → Outcome Unit β}
  {es es₁ es₂ : List (Bytes × Bytes)} {k v : Bytes}

/-- A map that was read was read from its first entry to its last. -/
theorem readEntries_ok (hd : d.length ≤ sliceMax) (hmap : StartsWithMap d es) {b : β}
    (h : (readEntries entry init finish d Cur.start).1 = .ok b) :
    ∃ f c c', At d c.pos (entryBytes es) ∧ foldN es.length (entry d) init c = (.ok f, c') ∧ finish f = .ok b := by
  obtain ⟨bs, ⟨k, -, -, hlen, rfl, -⟩, hat⟩ := hmap
  have hrun := eq_of_fst h
  simp only [readEntries, bind_ok_iff, ofOutcome_ok_iff] at hrun
  obtain ⟨n, c, hn, f, c', hf, hfinish, -⟩ := hrun
  obtain ⟨k', rfl, hk', hpos⟩ := readMapLen_ok hd (mapErr_ok_iff.1 hn)
  obtain ⟨hk, hentries⟩ := at_append_iff.1 hat
  obtain rfl := Head.unique hk hk'
  rw [hlen] at hf
  refine ⟨f, c, c', ?_, hf, hfinish⟩
  rw [hpos]
  exact hentries

/-- The entries of a map are items in a row. -/
theorem items_of_entries {P : Head → Prop} (hes : ∀ e ∈ es, Item P e.1 ∧ Item P e.2) : Items P (es.length * 2) (entryBytes es) := by
  induction es with
  | nil => exact .nil
  | cons e es ih =>
    obtain ⟨hk, hv⟩ := hes e (by simp)
    have hrest := ih fun e' he' => hes e' (by simp [he'])
    rw [entryBytes_cons, List.length_cons, Nat.succ_mul, Nat.add_comm, ← List.append_assoc]
    exact (hk.append hv).append hrest

/-- The entries that a reader comes to are plain items. -/
theorem entries_plain (h : StartsWithMap d es) : ∀ e ∈ es, Item PlainHead e.1 ∧ Item PlainHead e.2 := by
  obtain ⟨bs, ⟨_, -, -, -, -, hes⟩, -⟩ := h
  exact hes

/-- The bytes of two lists of entries are those of one after those of the other. -/
theorem entryBytes_append : entryBytes (es₁ ++ es₂) = entryBytes es₁ ++ entryBytes es₂ := by
  simp [entryBytes]

/-- A map with one entry more, entry by entry: what comes before the entry, the entry and what comes after it. -/
theorem foldN_insert {f₀ f : F} {c c' : Cur} (hentry : ∀ g, ItemWise PlainHead 2 fun d => entry d g) (hd : d.length ≤ sliceMax)
    (hplain : ∀ e ∈ es₁ ++ (k, v) :: es₂, Item PlainHead e.1 ∧ Item PlainHead e.2)
    (hat : At d c.pos (entryBytes (es₁ ++ (k, v) :: es₂)))
    (h : foldN (es₁ ++ (k, v) :: es₂).length (entry d) f₀ c = (.ok f, c')) :
    ∃ g g' c₁ c₂, foldN es₁.length (entry d) f₀ c = (.ok g, c₁) ∧ At d c₁.pos (k ++ v) ∧ entry d g c₁ = (.ok g', c₂) ∧
      At d c₂.pos (entryBytes es₂) ∧ foldN es₂.length (entry d) g' c₂ = (.ok f, c') := by
  rw [List.length_append, List.length_cons, Nat.add_comm es₂.length] at h
  obtain ⟨g, c₁, h1, h⟩ := foldN_add_ok h
  obtain ⟨g', c₂, h2, h3⟩ := foldN_add_ok h
  have hone : entry d g c₁ = (.ok g', c₂) := by
    obtain ⟨g'', c₃, hs, hp⟩ := bind_ok_iff.1 h2
    obtain ⟨rfl, rfl⟩ := pure_ok_iff.1 hp
    exact hs
  rw [entryBytes_append, entryBytes_cons, ← List.append_assoc k v] at hat
  obtain ⟨hat₁, hat⟩ := at_append_iff.1 hat
  obtain ⟨hkv, hat₂⟩ := at_append_iff.1 hat
  have hitems₁ : Items PlainHead (es₁.length * 2) (entryBytes es₁) := items_of_entries fun e he => hplain e (by simp [he])
  have hitem := hplain (k, v) (by simp)
  obtain ⟨-, hpos₁, -⟩ := ItemWise.foldN hentry es₁.length f₀ d d _ c c c₁ c₁ g g hd hd hitems₁ hat₁ hat₁ h1 h1
  rw [← hpos₁] at hkv hat₂
  obtain ⟨-, hpos₂, -⟩ := hentry g d d (k ++ v) c₁ c₁ c₂ c₂ g' g' hd hd (hitem.1.append hitem.2) hkv hkv hone hone
  rw [← hpos₂] at hat₂
  exact ⟨g, g', c₁, c₂, h1, hkv, hone, hat₂, h3⟩

end Entries

/-! ### One entry -/

/-- The key of an entry is read before its value. -/
theorem entry_key {F : Type} {field : F → Int → Run Cur Unit F} {k : Head} {v : Bytes} {f g : F} (hd : d.length ≤ sliceMax)
    (hat : At d c.pos (k.bytes ++ v)) (h : (Dec.ok (Dec.readInt d) >>= field f) c = (.ok g, c')) :
    ∃ c₁, field f (narrowInt k) c₁ = (.ok g, c') := by
  obtain ⟨key, c₁, hkey, hfield⟩ := bind_ok_iff.1 h
  obtain ⟨k', -, hval, hk', -⟩ := readInt_ok hd (mapErr_ok_iff.1 hkey)
  rw [Head.unique hk' (at_append_iff.1 hat).1] at hval
  rw [hval] at hfield
  exact ⟨c₁, hfield⟩

/-- An entry of a begin message whose key is none is skipped. -/
theorem beginEntry_undefined {k : Head} {v : Bytes} {f g : BeginFields} (hd : d.length ≤ sliceMax)
    (hkey : narrowInt k ∉ beginKeys) (hat : At d c.pos (k.bytes ++ v)) (h : beginEntry fuel d f c = (.ok g, c')) : g = f := by
  obtain ⟨c₁, hfield⟩ := entry_key hd hat h
  simp only [beginKeys, List.mem_cons, List.not_mem_nil, or_false, not_or] at hkey
  unfold readBeginField at hfield
  iterate 11 rw [if_neg (by omega)] at hfield
  obtain ⟨_, _, -, hp⟩ := bind_ok_iff.1 hfield
  exact (pure_ok_iff.1 hp).1

/-- An entry of a meta-payload whose key is none is skipped and noted. -/
theorem metaEntry_undefined {k : Head} {v : Bytes} {f g : MetaFields} (hd : d.length ≤ sliceMax)
    (hkey : narrowInt k ∉ metaKeys) (hat : At d c.pos (k.bytes ++ v)) (h : metaEntry fuel d f c = (.ok g, c')) :
    narrowInt k ∈ g.extraKeys := by
  obtain ⟨c₁, hfield⟩ := entry_key hd hat h
  simp only [metaKeys, List.mem_cons, List.not_mem_nil, or_false, not_or] at hkey
  unfold readMetaField at hfield
  iterate 9 rw [if_neg (by omega)] at hfield
  obtain ⟨_, _, -, hp⟩ := bind_ok_iff.1 hfield
  rw [(pure_ok_iff.1 hp).1]
  simp

/-- No entry of a meta-payload removes a key that was noted. -/
theorem metaEntry_extraKeys {f g : MetaFields} {x : Int} (hx : x ∈ f.extraKeys) (h : metaEntry fuel d f c = (.ok g, c')) :
    x ∈ g.extraKeys := by
  have hyields : Yields (metaEntry fuel d f) fun g => x ∈ g.extraKeys := by
    refine .next fun key => ?_
    unfold readMetaField
    iterate 9 refine .ite (fun _ => .next fun _ => .pure hx) fun _ => ?_
    exact .next fun _ => .pure (List.mem_append_left _ hx)
  exact hyields c g c' h

/-! ### Undefined keys -/

/-- An undefined key of a begin message is inert. -/
theorem inert_of_undefined {k : Head} (hkey : narrowInt k ∉ beginKeys) : Inert k := by
  intro d d' es₁ v es₂ fuel begin begin' hmap hmap' hparse hparse'
  rw [parseBmoImageBegin_eq] at hparse hparse'
  obtain ⟨f, c, e, hat, hrun, hfinish⟩ := readEntries_ok d.fits hmap hparse
  obtain ⟨f', c', e', hat', hrun', hfinish'⟩ := readEntries_ok d'.fits hmap' hparse'
  obtain ⟨g, g', c₁, c₂, h1, hkv, hone, hat₂, h2⟩ :=
    foldN_insert (fun g => beginEntry_itemWise g) d'.fits (entries_plain hmap') hat' hrun'
  rw [beginEntry_undefined d'.fits hkey hkv hone] at h2
  have hplain := entries_plain hmap
  have hitems₁ : Items PlainHead (es₁.length * 2) (entryBytes es₁) := items_of_entries fun x hx => hplain x (by simp [hx])
  have hitems₂ : Items PlainHead (es₂.length * 2) (entryBytes es₂) := items_of_entries fun x hx => hplain x (by simp [hx])
  rw [List.length_append] at hrun
  obtain ⟨g₀, c₃, h3, h4⟩ := foldN_add_ok hrun
  rw [entryBytes_append] at hat hat'
  obtain ⟨hat₁, hrest⟩ := at_append_iff.1 hat
  obtain ⟨rfl, hpos, -⟩ := ItemWise.foldN (fun g => beginEntry_itemWise g) es₁.length {} d.bytes d'.bytes _ c c' c₃ c₁ g₀ g
    d.fits d'.fits hitems₁ hat₁ (at_append_iff.1 hat').1 h3 h1
  rw [← hpos] at hrest
  obtain ⟨rfl, -⟩ := ItemWise.foldN (fun g => beginEntry_itemWise g) es₂.length g₀ d.bytes d'.bytes _ c₃ c₂ e e' f f'
    d.fits d'.fits hitems₂ hrest hat₂ h4 h2
  rw [hfinish, Outcome.ok.injEq] at hfinish'
  exact hfinish'.symm

/-- An undefined key of a meta-payload is recorded. -/
theorem recorded_of_undefined {k : Head} (hkey : narrowInt k ∉ metaKeys) : Recorded k := by
  intro d es₁ v es₂ fuel m hmap hparse
  rw [parseMetaPayload_eq] at hparse
  obtain ⟨f, c, e, hat, hrun, hfinish⟩ := readEntries_ok d.fits hmap hparse
  obtain ⟨g, g', c₁, c₂, -, hkv, hone, -, h2⟩ :=
    foldN_insert (fun g => metaEntry_itemWise g) d.fits (entries_plain hmap) hat hrun
  have hnoted := metaEntry_undefined d.fits hkey hkv hone
  have hkept : narrowInt k ∈ f.extraKeys :=
    foldN_ok_inv (P := fun f => narrowInt k ∈ f.extraKeys) (fun b s b' t hb hs => metaEntry_extraKeys hb hs) hnoted h2
  have hm : narrowInt k ∈ m.extraKeys := by
    unfold MetaFields.finish at hfinish
    split at hfinish
    · rw [Outcome.ok.injEq] at hfinish
      rw [← hfinish]
      exact hkept
    · cases hfinish
  refine ⟨hm, fun beginHash hcheck => ?_⟩
  have hne : m.instructionFields ≠ [] := by
    unfold MetaPayload.instructionFields
    intro hnil
    have hmap : m.extraKeys.map (fun k => utf8 s!"key {k}") = [] := (List.append_eq_nil_iff.1 hnil).2
    rw [List.map_eq_nil_iff.1 hmap] at hm
    cases hm
  simp only [checkUnauthenticatedMeta, Bool.false_eq_true, if_false, if_pos hne] at hcheck
  split at hcheck
  · cases hcheck
  · cases hcheck

/-! ### Defined keys -/

/-- A value for the key in a begin message that is not the one without it. -/
def beginSample (key : Int) : UInt8 :=
  if key = 0 ∨ key = 4 ∨ key = 5 ∨ key = -6 then 0x01
  else if key = 3 then 0xf5
  else if 7 ≤ key ∨ key ≤ -8 then 0x40
  else 0x60

/-- A value for the key in a meta-payload. -/
def metaSample (key : Int) : UInt8 := if key = 2 ∨ key = 4 then 0x40 else 0x60

variable {p : Nat}

/-- The heads of the number one and of the empty strings. -/
def oneHead : Head := ⟨0x01, [], by decide, .inl (by decide)⟩

def emptyBytesHead : Head := ⟨0x40, [], by decide, .inl (by decide)⟩

def emptyTextHead : Head := ⟨0x60, [], by decide, .inl (by decide)⟩

/-- The byte `01` is read as 1. -/
theorem uint_one (hat : At d p oneHead.bytes) (hp : p + 1 < wordSize) : Cur.Reads (Dec.ok (Dec.readUint d)) p 1 (p + 1) :=
  ok_reads (readHead_reads hat rfl (by decide) hp)

/-- The byte `f5` is read as true. -/
theorem bool_one (hat : At d p [0xf5]) (hp : p + 1 < wordSize) : Cur.Reads (Dec.ok (Dec.readBool d)) p true (p + 1) :=
  ok_reads ((Cur.Reads.byte hat hp).bind (.pure true))

/-- The byte `40` is read as an empty byte string. -/
theorem bytes_one (hat : At d p (emptyBytesHead.bytes ++ [])) (hp : p + 1 < wordSize) :
    Cur.Reads (Dec.ok (Dec.readBytes d)) p [] (p + 1) := ok_reads (readBytes_reads hat rfl (by decide) rfl hp)

/-- The byte `60` is read as an empty text. -/
theorem text_one (hat : At d p (emptyTextHead.bytes ++ [])) (hp : p + 1 < wordSize) :
    Cur.Reads (Dec.ok (Dec.readText d)) p [] (p + 1) := ok_reads (readText_reads hat rfl (by decide) rfl rfl hp)

/-- A generic key sets its field. -/
theorem generic_field {k : DeliveryKeys} {key : Int} (hkey : 5 ≤ key ∧ key ≤ 9)
    (h : Cur.Reads (readDeliveryField d {} key) p k (p + 1)) :
    Cur.Reads (readBeginField fuel d {} key) p { generic := k } (p + 1) := by
  unfold readBeginField
  iterate 9 rw [if_neg (by omega)]
  rw [if_pos (by omega)]
  exact h.bind (.pure _)

/-- A legacy key sets the field of its generic one. -/
theorem legacy_field {k : DeliveryKeys} {key : Int} (hkey : -10 ≤ key ∧ key ≤ -6)
    (h : Cur.Reads (readDeliveryField d {} (-1 - key)) p k (p + 1)) :
    Cur.Reads (readBeginField fuel d {} key) p { legacy := k } (p + 1) := by
  unfold readBeginField
  iterate 10 rw [if_neg (by omega)]
  rw [if_pos hkey]
  exact h.bind (.pure _)

/-- Each key of a begin message sets something. -/
theorem readBeginField_sample (fuel : Nat) {key : Int} (hkey : key ∈ beginKeys) (hat : At d p [beginSample key]) (hp : p + 1 < wordSize) :
    ∃ f b, Cur.Reads (readBeginField fuel d {} key) p f (p + 1) ∧ f.finish = .ok b ∧ b ≠ {} := by
  simp only [beginKeys, List.mem_cons, List.not_mem_nil, or_false] at hkey
  rcases hkey with rfl | rfl | rfl | rfl | rfl | rfl | rfl | rfl | rfl | rfl | rfl | rfl | rfl | rfl | rfl | rfl | rfl | rfl | rfl
  · exact ⟨_, _, (uint_one hat hp).bind (.pure _), rfl, by decide⟩
  · exact ⟨_, _, (text_one hat hp).bind (.pure _), rfl, by decide⟩
  · exact ⟨_, _, (bool_one hat hp).bind (.pure _), rfl, by decide⟩
  · exact ⟨_, _, (uint_one hat hp).bind (.pure _), rfl, by decide⟩
  iterate 5 exact ⟨_, _, (text_one hat hp).bind (.pure _), rfl, by decide⟩
  · exact ⟨_, _, generic_field (k := { mode := some 1 }) (by decide) ((uint_one hat hp).bind (.pure _)), rfl, by decide⟩
  · exact ⟨_, _, generic_field (k := { url := some [] }) (by decide) ((text_one hat hp).bind (.pure _)), rfl, by decide⟩
  · exact ⟨_, _, generic_field (k := { tlsCa := some [] }) (by decide) ((bytes_one hat hp).bind (.pure _)), rfl, by decide⟩
  · exact ⟨_, _, generic_field (k := { hash := some [] }) (by decide) ((bytes_one hat hp).bind (.pure _)), rfl, by decide⟩
  · exact ⟨_, _, generic_field (k := { signer := some [] }) (by decide) ((bytes_one hat hp).bind (.pure _)), rfl, by decide⟩
  · exact ⟨_, _, legacy_field (k := { mode := some 1 }) (by decide) ((uint_one hat hp).bind (.pure _)), rfl, by decide⟩
  · exact ⟨_, _, legacy_field (k := { url := some [] }) (by decide) ((text_one hat hp).bind (.pure _)), rfl, by decide⟩
  · exact ⟨_, _, legacy_field (k := { tlsCa := some [] }) (by decide) ((bytes_one hat hp).bind (.pure _)), rfl, by decide⟩
  · exact ⟨_, _, legacy_field (k := { hash := some [] }) (by decide) ((bytes_one hat hp).bind (.pure _)), rfl, by decide⟩
  · exact ⟨_, _, legacy_field (k := { signer := some [] }) (by decide) ((bytes_one hat hp).bind (.pure _)), rfl, by decide⟩

/-- Each key of a meta-payload is taken without a note. -/
theorem readMetaField_sample (fuel : Nat) {key : Int} (hkey : key ∈ metaKeys) (f : MetaFields) (hat : At d p [metaSample key])
    (hp : p + 1 < wordSize) : ∃ g, Cur.Reads (readMetaField fuel d f key) p g (p + 1) ∧ g.extraKeys = f.extraKeys ∧
      (key = 0 ∨ f.mimeType.isSome → g.mimeType.isSome) ∧ (key = 1 ∨ f.url.isSome → g.url.isSome) := by
  simp only [metaKeys, List.mem_cons, List.not_mem_nil, or_false] at hkey
  rcases hkey with rfl | rfl | rfl | rfl | rfl | rfl | rfl | rfl | rfl
  · exact ⟨_, (text_one hat hp).bind (.pure _), rfl, fun _ => rfl, (Or.resolve_left · (by decide))⟩
  · exact ⟨_, (text_one hat hp).bind (.pure _), rfl, (Or.resolve_left · (by decide)), fun _ => rfl⟩
  · exact ⟨_, (bytes_one hat hp).bind (.pure _), rfl, (Or.resolve_left · (by decide)), (Or.resolve_left · (by decide))⟩
  · exact ⟨_, (text_one hat hp).bind (.pure _), rfl, (Or.resolve_left · (by decide)), (Or.resolve_left · (by decide))⟩
  · exact ⟨_, (bytes_one hat hp).bind (.pure _), rfl, (Or.resolve_left · (by decide)), (Or.resolve_left · (by decide))⟩
  iterate 4 exact ⟨_, (text_one hat hp).bind (.pure _), rfl, (Or.resolve_left · (by decide)), (Or.resolve_left · (by decide))⟩

/-- An entry with the key and that value. -/
theorem metaEntry_sample (fuel : Nat) {k : Head} (hk : k.IsMajor 0 ∨ k.IsMajor 1) (hkey : narrowInt k ∈ metaKeys) (f : MetaFields)
    (hat : At d p (k.bytes ++ [metaSample (narrowInt k)])) (hp : p + k.bytes.length + 1 < wordSize) :
    ∃ g, Cur.Reads (metaEntry fuel d f) p g (p + k.bytes.length + 1) ∧ g.extraKeys = f.extraKeys ∧
      (narrowInt k = 0 ∨ f.mimeType.isSome → g.mimeType.isSome) ∧ (narrowInt k = 1 ∨ f.url.isSome → g.url.isSome) := by
  obtain ⟨hk₁, hv⟩ := at_append_iff.1 hat
  obtain ⟨g, hread, hrest⟩ := readMetaField_sample fuel hkey f hv hp
  exact ⟨g, (ok_reads (readInt_narrow_reads hk hk₁ (by omega))).bind hread, hrest⟩

/-! ### A map with the key -/

/-- A key is an item. -/
theorem key_item {k : Head} (hk : k.IsMajor 0 ∨ k.IsMajor 1) : Item PlainHead k.bytes :=
  Item.int k (hk.elim (plain_of_low · (by decide)) (plain_of_low · (by decide))) hk

/-- An empty text is an item. -/
theorem emptyText_item : Item PlainHead [0x60] :=
  Item.str emptyTextHead [] (plain_of_low (m := 3) rfl (by decide)) (.inr rfl) rfl

/-- An empty byte string is an item. -/
theorem emptyBytes_item : Item PlainHead [0x40] :=
  Item.str emptyBytesHead [] (plain_of_low (m := 2) rfl (by decide)) (.inl rfl) rfl

/-- The head of the simple value true. -/
def trueHead : Head := ⟨0xf5, [], by decide, .inl (by decide)⟩

/-- The value true is an item. -/
theorem true_item : Item PlainHead [0xf5] := by
  refine Item.simple trueHead ⟨⟨by decide, fun _ h => absurd h (by decide)⟩, ?_⟩ rfl
  unfold Head.NoByteSimple
  decide

/-- The sample value of a key of a begin message is an item. -/
theorem beginSample_item (key : Int) : Item PlainHead [beginSample key] := by
  unfold beginSample
  split_ifs
  · exact Item.int oneHead (plain_of_low (m := 0) rfl (by decide)) (.inl rfl)
  · exact true_item
  · exact emptyBytes_item
  · exact emptyText_item

/-- The sample value of a key of a meta-payload is an item. -/
theorem metaSample_item (key : Int) : Item PlainHead [metaSample key] := by
  unfold metaSample
  split_ifs
  · exact emptyBytes_item
  · exact emptyText_item

/-- A key has nine bytes at most. -/
theorem key_length_le (k : Head) : k.bytes.length ≤ 9 := by
  rw [k.bytes_length]
  unfold extLen
  split <;> omega

/-- The head of a map of fewer than 24 entries. -/
theorem map_head {n : Nat} (hn : n < 24) : ∃ h : Head, h.bytes = [UInt8.ofNat (5 * 32 + n)] ∧ h.IsMajor 5 ∧
    additional h.initial = n ∧ h.arg = n := by
  have ht : ([] : Bytes).length = extLen n := by
    unfold extLen
    split <;> simp_all
  obtain ⟨h, hb, hm, hadd, harg, -⟩ := Head.exists_of (m := 5) (by omega) (by omega) ht
  exact ⟨h, hb, hm, hadd, by rw [harg, argVal, if_pos hn]⟩

/-- The bytes of a map of fewer than 24 entries start with it. -/
theorem startsWithMap_of {es : List (Bytes × Bytes)} (hn : es.length < 24) (hes : ∀ e ∈ es, Item PlainHead e.1 ∧ Item PlainHead e.2) :
    StartsWithMap (UInt8.ofNat (5 * 32 + es.length) :: entryBytes es) es := by
  obtain ⟨h, hb, hm, -, harg⟩ := map_head hn
  refine ⟨h.bytes ++ entryBytes es, ⟨h, plain_of_low hm (by decide), hm, harg, rfl, hes⟩, at_zero_iff.2 ⟨[], ?_⟩⟩
  rw [hb]
  simp

/-- A map whose entries are read is read. -/
theorem readEntries_reads {F β : Type} {entry : Bytes → F → Run Cur Unit F} {init f : F} {finish : F → Outcome Unit β} {b : β}
    {n q : Nat} (hn : n < 24) (hat : At d 0 [UInt8.ofNat (5 * 32 + n)]) (hf : Cur.Reads (foldN n (entry d) init) 1 f q)
    (hfinish : finish f = .ok b) : (readEntries entry init finish d Cur.start).1 = .ok b := by
  obtain ⟨h, hb, hm, hadd, harg⟩ := map_head hn
  rw [← hb] at hat
  have hlen : h.bytes.length = 1 := by rw [hb, List.length_singleton]
  have hhead := ok_reads (readMapLen_reads hat hm (by omega) (by rw [hlen]; decide))
  rw [hlen, harg, Nat.zero_add] at hhead
  have hend : Cur.Reads (ofOutcome (finish f) : Run Cur Unit β) q b q := fun log => ⟨log, by rw [ofOutcome_apply, hfinish]⟩
  have hall : Cur.Reads (readEntries entry init finish d) 0 b q := hhead.bind (hf.bind hend)
  obtain ⟨log, hrun⟩ := hall []
  exact congrArg Prod.fst hrun

/-- A defined key of a begin message is not inert: its sample is read. -/
theorem not_inert_of_defined {k : Head} (hk : k.IsMajor 0 ∨ k.IsMajor 1) (hkey : narrowInt k ∈ beginKeys) : ¬Inert k := by
  intro hinert
  have hlen := key_length_le k
  let es : List (Bytes × Bytes) := [(k.bytes, [beginSample (narrowInt k)])]
  have hes : ∀ e ∈ es, Item PlainHead e.1 ∧ Item PlainHead e.2 := by
    intro e he
    rw [List.mem_singleton.1 he]
    exact ⟨key_item hk, beginSample_item _⟩
  let bytes : Bytes := UInt8.ofNat (5 * 32 + es.length) :: entryBytes es
  have hbytes : bytes = [0xa1] ++ (k.bytes ++ [beginSample (narrowInt k)]) := by
    simp only [bytes, es, entryBytes_cons]
    rfl
  have hfits : bytes.length ≤ sliceMax := by
    rw [hbytes]
    simp only [List.length_append, List.length_singleton, sliceMax]
    omega
  have hat : At bytes 0 ([0xa1] ++ (k.bytes ++ [beginSample (narrowInt k)])) := at_zero_iff.2 ⟨[], by rw [hbytes]; simp⟩
  obtain ⟨hmap, hentry⟩ := at_append_iff.1 hat
  obtain ⟨hkat, hvat⟩ := at_append_iff.1 hentry
  simp only [List.length_singleton, Nat.zero_add] at hkat hvat
  have hword : 1 + k.bytes.length + 1 < wordSize := by
    unfold wordSize
    omega
  obtain ⟨f, b, hfield, hfinish, hne⟩ := readBeginField_sample 1 hkey hvat hword
  have hone : Cur.Reads (beginEntry 1 bytes {}) 1 f (1 + k.bytes.length + 1) :=
    (ok_reads (readInt_narrow_reads hk hkat (by omega))).bind hfield
  have hparse : parseBmoImageBegin 1 bytes = .ok b := by
    rw [parseBmoImageBegin_eq]
    exact readEntries_reads (n := 1) (by decide) hmap (hone.bind (.pure f)) hfinish
  exact hne (hinert ⟨[0xa0], by decide⟩ ⟨bytes, hfits⟩ [] _ [] 1 {} b (startsWithMap_of (Nat.zero_lt_succ 23) (by simp))
    (startsWithMap_of (show es.length < 24 from by simp [es]) hes) (by decide) hparse)

def zeroHead : Head := ⟨0x00, [], by decide, .inl (by decide)⟩

/-- A defined key of a meta-payload is not recorded: its sample is read. -/
theorem not_recorded_of_defined {k : Head} (hk : k.IsMajor 0 ∨ k.IsMajor 1) (hkey : narrowInt k ∈ metaKeys) : ¬Recorded k := by
  intro hrecorded
  have hlen := key_length_le k
  let es : List (Bytes × Bytes) :=
    [(zeroHead.bytes, [metaSample (narrowInt zeroHead)]), (oneHead.bytes, [metaSample (narrowInt oneHead)]), (k.bytes, [metaSample (narrowInt k)])]
  have hes : ∀ e ∈ es, Item PlainHead e.1 ∧ Item PlainHead e.2 := by
    intro e he
    simp only [es, List.mem_cons, List.not_mem_nil, or_false] at he
    rcases he with rfl | rfl | rfl
    · exact ⟨key_item (.inl rfl), metaSample_item _⟩
    · exact ⟨key_item (.inl rfl), metaSample_item _⟩
    · exact ⟨key_item hk, metaSample_item _⟩
  let bytes : Bytes := UInt8.ofNat (5 * 32 + es.length) :: entryBytes es
  have hbytes : bytes = [0xa3] ++ ((zeroHead.bytes ++ [metaSample (narrowInt zeroHead)]) ++ ((oneHead.bytes ++ [metaSample (narrowInt oneHead)]) ++
      (k.bytes ++ [metaSample (narrowInt k)]))) := by
    simp only [bytes, es, entryBytes_cons]
    simp only [entryBytes, List.map_nil, List.flatten_nil, List.append_nil, List.append_assoc]
    rfl
  have hfits : bytes.length ≤ sliceMax := by
    rw [hbytes]
    simp only [List.length_append, zeroHead, oneHead, Head.bytes, List.length_nil, List.length_cons,
      sliceMax] at hlen ⊢
    omega
  have hat : At bytes 0 bytes := at_zero_iff.2 ⟨[], by simp⟩
  nth_rewrite 2 [hbytes] at hat
  obtain ⟨hmap, hat⟩ := at_append_iff.1 hat
  obtain ⟨hat₁, hat⟩ := at_append_iff.1 hat
  obtain ⟨hat₂, hat₃⟩ := at_append_iff.1 hat
  have hword : 5 + k.bytes.length + 1 < wordSize := by
    unfold wordSize
    omega
  obtain ⟨f₁, hread₁, hextra₁, hmime₁, -⟩ := metaEntry_sample 1 (k := zeroHead) (.inl rfl) (by decide) {} hat₁
    (by decide)
  obtain ⟨f₂, hread₂, hextra₂, hmime₂, hurl₂⟩ := metaEntry_sample 1 (k := oneHead) (.inl rfl) (by decide) f₁ hat₂
    (by decide)
  obtain ⟨f₃, hread₃, hextra₃, hmime₃, hurl₃⟩ := metaEntry_sample 1 hk hkey f₂ hat₃ hword
  have hmime : f₃.mimeType.isSome := hmime₃ (.inr (hmime₂ (.inr (hmime₁ (.inl (by decide))))))
  have hurl : f₃.url.isSome := hurl₃ (.inr (hurl₂ (.inl (by decide))))
  have hextra : f₃.extraKeys = [] := by rw [hextra₃, hextra₂, hextra₁]
  obtain ⟨m, hfinish, hm⟩ : ∃ m, f₃.finish = .ok m ∧ m.extraKeys = [] := by
    obtain ⟨mime, hmime⟩ := Option.isSome_iff_exists.1 hmime
    obtain ⟨url, hurl⟩ := Option.isSome_iff_exists.1 hurl
    simp only [MetaFields.finish, hmime, hurl]
    exact ⟨_, rfl, hextra⟩
  have hparse : parseMetaPayload 1 bytes = .ok m := by
    rw [parseMetaPayload_eq]
    exact readEntries_reads (n := 3) (by decide) hmap (hread₁.bind (hread₂.bind (hread₃.bind (.pure f₃)))) hfinish
  have hnoted := (hrecorded ⟨bytes, hfits⟩ [(zeroHead.bytes, [metaSample (narrowInt zeroHead)]), (oneHead.bytes, [metaSample (narrowInt oneHead)])] _ [] 1 m
    (startsWithMap_of (show es.length < 24 from by simp [es]) hes) hparse).1
  rw [hm] at hnoted
  cases hnoted

end Aux

/-- A key changes no begin message and is recorded in every meta-payload exactly when the key it is cut to is not a defined
one. -/
theorem undefinedKeys_iff (k : Head) (hk : k.IsMajor 0 ∨ k.IsMajor 1) :
    (Inert k ↔ narrowInt k ∉ beginKeys) ∧ (Recorded k ↔ narrowInt k ∉ metaKeys) := by
  refine ⟨⟨fun h hkey => Aux.not_inert_of_defined hk hkey h, Aux.inert_of_undefined⟩, ?_⟩
  exact ⟨fun h hkey => Aux.not_recorded_of_defined hk hkey h, Aux.recorded_of_undefined⟩

/-- The key 20. -/
def key20 : Head := ⟨0x14, [], by decide, .inl (by decide)⟩

/-- The key 20 is inert in a begin message and recorded in a meta-payload. -/
theorem key20_inert : Inert key20 ∧ Recorded key20 :=
  ⟨(undefinedKeys_iff key20 (.inl rfl)).1.2 (by decide), (undefinedKeys_iff key20 (.inl rfl)).2.2 (by decide)⟩

/-- The key 2^32, which `read_int` cuts to 0. -/
def keyTwo32 : Head := ⟨0x1b, [0, 0, 0, 1, 0, 0, 0, 0], by decide, .inl (by decide)⟩

/-- The key 2^32 + 5, which `read_int` cuts to 5. -/
def keyTwo32Five : Head := ⟨0x1b, [0, 0, 0, 1, 0, 0, 0, 5], by decide, .inl (by decide)⟩

/-- `{2^32: 5}` sets the size of the image, and `{0: "", 1: "", 2^32 + 5: ""}` the boot arguments of a meta-payload that counts
as one without instructions but for these. -/
theorem cutKeys_act : (keyTwo32.arg : Int) ∉ beginKeys ∧ (keyTwo32Five.arg : Int) ∉ metaKeys ∧
    parseBmoImageBegin 1 [0xa0] = .ok {} ∧
    parseBmoImageBegin 1 ([0xa1] ++ keyTwo32.bytes ++ [0x05]) = .ok { totalSize := 5 } ∧
    parseMetaPayload 1 ([0xa3, 0x00, 0x60, 0x01, 0x60] ++ keyTwo32Five.bytes ++ [0x60]) =
      .ok ⟨[], [], none, none, none, some [], none, none, none, []⟩ ∧
    ¬Inert keyTwo32 ∧ ¬Recorded keyTwo32Five :=
  ⟨by decide, by decide, by decide, by decide, by decide,
    Aux.not_inert_of_defined (.inl rfl) (by decide), Aux.not_recorded_of_defined (.inl rfl) (by decide)⟩

end FdoUefi
