import FdoUefi.Chunking
import FdoUefi.Lemmas.ExactSkip
import FdoUefi.Lib.ItemWise

/-!
# The readers of `CborDecoder` are item-wise

Over items with plain heads each reader of the decoder, `skip_value` among them, returns what the item under its cursor
determines and steps behind it.
-/

namespace FdoUefi

open Prog Prog.Run Cbor

variable {d : Bytes} {c c' : Cur}

/-! ## What was read -/

/-- A text that was read is a text string item. -/
theorem readText_ok (hd : d.length ≤ sliceMax) {s : Bytes} (h : Dec.readText d c = (.ok s, c')) :
    ∃ u, IsText u s ∧ At d c.pos u ∧ c'.pos = c.pos + u.length := by
  unfold Dec.readText at h
  obtain ⟨len, c₁, h1, h⟩ := bind_ok_iff.1 h
  obtain ⟨k, hm, hat, rfl, hc₁⟩ := readHead_ok hd h1
  simp only [bind_ok_iff, ensure_ok_iff, pure_ok_iff] at h
  obtain ⟨u, c₂, h2, _, c₃, ⟨-, rfl⟩, _, c₄, h3, rfl, rfl⟩ := h
  obtain ⟨hs, hl, hc₂⟩ := readStr_ok hd k.arg_lt (by rw [hc₁]; exact hat.end_le) h2
  rw [hc₁] at hs
  simp only [Cur.bump, Prod.mk.injEq] at h3
  have hall := at_append_iff.2 ⟨hat, hs⟩
  have hend := hall.end_le
  refine ⟨k.bytes ++ s, ⟨k, hm, hl, rfl⟩, hall, ?_⟩
  rw [List.length_append] at hend ⊢
  rw [← h3.2, hc₂, hc₁, ← hl, Nat.add_assoc]
  simp only [sliceMax] at hd
  exact Nat.mod_eq_of_lt (by unfold wordSize; omega)

/-- The number an integer item has for `read_int`: its argument cut to 32 bits, or one less than the negative of that. -/
def narrowInt (k : Head) : Int := if major k.initial = 0 then asI32 k.arg else -1 - asI32 k.arg

/-- An integer that was read stands at the cursor. -/
theorem readInt_ok (hd : d.length ≤ sliceMax) {v : Int} (h : Dec.readInt d c = (.ok v, c')) :
    ∃ k : Head, (k.IsMajor 0 ∨ k.IsMajor 1) ∧ v = narrowInt k ∧ At d c.pos k.bytes ∧ c'.pos = c.pos + k.bytes.length := by
  obtain ⟨b, c₁, x, hb, hx, hv⟩ := readInt_cases h
  obtain ⟨k, rfl, hat, rfl, hpos⟩ := decHead_ok hd hb hx
  rcases hv with ⟨hm, hval⟩ | ⟨hm, hval⟩
  · exact ⟨k, .inl hm, by rw [hval, narrowInt, if_pos hm], hat, hpos⟩
  · exact ⟨k, .inr hm, by rw [hval, narrowInt, if_neg (by omega)], hat, hpos⟩

/-- An integer item is read, whatever its argument. -/
theorem readInt_narrow_reads {k : Head} {p : Nat} (hk : k.IsMajor 0 ∨ k.IsMajor 1) (hat : At d p k.bytes)
    (hp : p + k.bytes.length < wordSize) : Cur.Reads (Dec.readInt d) p (narrowInt k) (p + k.bytes.length) := by
  have h28 : additional k.initial < 28 := k.defined.resolve_right (by unfold Head.IsMajor at hk; omega)
  refine readInt_reads hat h28 hp ?_
  rcases hk with hm | hm
  · exact .inl ⟨hm, if_pos hm⟩
  · have hm' : major k.initial = 1 := hm
    exact .inr ⟨hm, if_neg (by omega)⟩

/-- `.ok()?` of a reader that reads something. -/
theorem ok_reads {α : Type} {m : Dec.R α} {p q : Nat} {v : α} (h : Cur.Reads m p v q) : Cur.Reads (Dec.ok m) p v q := by
  intro log
  obtain ⟨log', hrun⟩ := h log
  exact ⟨log', mapErr_ok_iff.2 hrun⟩

/-- A boolean is one byte. -/
theorem readBool_ok (hd : d.length ≤ sliceMax) {v : Bool} (h : Dec.readBool d c = (.ok v, c')) :
    ∃ b : UInt8, (b = 0xf4 ∧ v = false ∨ b = 0xf5 ∧ v = true) ∧ At d c.pos [b] ∧ c'.pos = c.pos + 1 := by
  unfold Dec.readBool at h
  obtain ⟨b, c₁, hb, h⟩ := bind_ok_iff.1 h
  obtain ⟨hat, hpos⟩ := readByte_ok hd hb
  split_ifs at h with hf ht
  · obtain ⟨rfl, rfl⟩ := pure_ok_iff.1 h
    exact ⟨b, .inl ⟨hf, rfl⟩, hat, hpos⟩
  · obtain ⟨rfl, rfl⟩ := pure_ok_iff.1 h
    exact ⟨b, .inr ⟨ht, rfl⟩, hat, hpos⟩
  · simp at h

/-! ## One item -/

/-- The head of an integer is one item. -/
theorem readHead_itemWise (m : Nat) (hm : m = 0 ∨ m = 1) (e : Nat → FdoError) :
    ItemWise PlainHead 1 fun d => Dec.readHead d m e := by
  refine .of_shape (fun w x => ∃ k : Head, k.IsMajor m ∧ x = k.arg ∧ w = k.bytes) ?_ ?_ ?_
  · rintro w x ⟨k, hk, -, rfl⟩
    exact Item.int k trivial (by rcases hm with rfl | rfl; exacts [.inl hk, .inr hk])
  · rintro w x y ⟨k, -, rfl, rfl⟩ ⟨k', -, rfl, heq⟩
    rw [(Head.append_inj (congrArg (· ++ ([] : Bytes)) heq)).1]
  · intro d u c e' x hd _ _ h
    obtain ⟨k, hk, hat, rfl, hpos⟩ := readHead_ok hd h
    exact ⟨k.bytes, ⟨k, hk, rfl, rfl⟩, hat, hpos⟩

/-- An unsigned integer is one item. -/
theorem readUint_itemWise : ItemWise PlainHead 1 fun d => Dec.readUint d := readHead_itemWise 0 (.inl rfl) _

/-- An integer is one item. -/
theorem readInt_itemWise : ItemWise PlainHead 1 fun d => Dec.readInt d := by
  refine .of_shape (fun w x => ∃ k : Head, (k.IsMajor 0 ∨ k.IsMajor 1) ∧ x = narrowInt k ∧ w = k.bytes) ?_ ?_ ?_
  · rintro w x ⟨k, hk, -, rfl⟩
    exact Item.int k trivial hk
  · rintro w x y ⟨k, -, rfl, rfl⟩ ⟨k', -, rfl, heq⟩
    rw [(Head.append_inj (congrArg (· ++ ([] : Bytes)) heq)).1]
  · intro d u c e' x hd _ _ h
    obtain ⟨k, hk, rfl, hat, hpos⟩ := readInt_ok hd h
    exact ⟨k.bytes, ⟨k, hk, rfl, rfl⟩, hat, hpos⟩

/-- A byte string is one item. -/
theorem readBytes_itemWise : ItemWise PlainHead 1 fun d => Dec.readBytes d := by
  refine .of_shape IsBstr (fun w x h => h.item.mono fun _ _ => trivial) (fun w x y hx hy => (hx.unique hy).2) ?_
  intro d u c e x hd _ _ h
  obtain ⟨k, hm, hat, hs, hpos⟩ := readBytes_ok hd h
  exact ⟨k.bytes ++ x, ⟨k, hm, hs, rfl⟩, hat, by rw [hpos, List.length_append, Nat.add_assoc]⟩

/-- A text string is one item. -/
theorem readText_itemWise : ItemWise PlainHead 1 fun d => Dec.readText d := by
  refine .of_shape IsText ?_ (fun w x y hx hy => (hx.unique hy).2) ?_
  · rintro w x ⟨k, hm, hs, rfl⟩
    exact Item.str k x trivial (.inr hm) hs
  · intro d u c e x hd _ _ h
    exact readText_ok hd h

/-- A Boolean is one item. -/
theorem readBool_itemWise : ItemWise PlainHead 1 fun d => Dec.readBool d := by
  refine .of_shape (fun w v => w = [0xf4] ∧ v = false ∨ w = [0xf5] ∧ v = true) ?_ ?_ ?_
  · rintro w v (⟨rfl, -⟩ | ⟨rfl, -⟩)
    · exact Item.simple ⟨0xf4, [], by decide, .inl (by decide)⟩ trivial (by unfold Head.IsMajor; decide)
    · exact Item.simple ⟨0xf5, [], by decide, .inl (by decide)⟩ trivial (by unfold Head.IsMajor; decide)
  · rintro w x y (⟨rfl, rfl⟩ | ⟨rfl, rfl⟩) (⟨h, rfl⟩ | ⟨h, rfl⟩)
    · rfl
    · exact absurd h (by decide)
    · exact absurd h (by decide)
    · rfl
  · intro d u c e v hd _ _ h
    obtain ⟨b, hb, hat, hpos⟩ := readBool_ok hd h
    exact ⟨[b], by simpa using hb, hat, hpos⟩

/-- An item with plain heads is stepped over exactly. -/
theorem skipValue_itemWise (fuel : Nat) : ItemWise PlainHead 1 fun d => Dec.skipValue d fuel := by
  refine .of_shape (fun w _ => Item PlainHead w) (fun w _ h => h.mono fun _ _ => trivial) (fun _ _ _ _ _ => rfl) ?_
  intro d u c e x hd hu hat h
  exact ⟨u, hu, hat, skipValue_item hd hat (hu.mono fun _ hp => hp.2) h⟩

/-- `.ok()?` of an item-wise reader. -/
theorem ok_itemWise {α : Type} {n : Nat} {r : Bytes → Dec.R α} (h : ItemWise PlainHead n r) :
    ItemWise PlainHead n fun d => Dec.ok (r d) := h.mapErr _

end FdoUefi
