import FdoUefi.Lib.Cursor

/-!
# Definite-length CBOR

A data item of CBOR (RFC 8949) starts with a head: an initial byte, which holds the major type and the additional
information, and the bytes of the argument that the additional information announces. CBOR is a prefix code, so a sequence
of `n` items can be described without a tree: `Items P n bs` says that `bs` is `n` items one after the other, all of whose
heads satisfy `P`. After the head of an array of `k` elements there are `k` more items to come, after that of a map of `k`
entries `2 * k`, after a tag one.

The heads of major type 7 with additional information 28 to 31 are not well-formed on their own; they are heads here, and the
predicate `Head.Rfc` leaves them out.
-/

namespace Cbor

open Prog

/-- The major type of an initial byte. -/
def major (b : UInt8) : Nat := b.toNat >>> 5

/-- The additional information of an initial byte. -/
def additional (b : UInt8) : Nat := b.toNat &&& 0x1f

/-- The number of argument bytes that follow an initial byte with this additional information. -/
def extLen : Nat → Nat
  | 24 => 1
  | 25 => 2
  | 26 => 4
  | 27 => 8
  | _ => 0

/-- The value of an argument: the additional information itself, or the bytes after the initial byte. -/
def argVal (ai : Nat) (tail : Bytes) : Nat := if ai < 24 then ai else beNat tail

/-- The head of a data item. -/
structure Head where
  initial : UInt8
  tail : Bytes
  tail_length : tail.length = extLen (additional initial)
  defined : additional initial < 28 ∨ major initial = 7

namespace Head

/-- The bytes of a head. -/
def bytes (h : Head) : Bytes := h.initial :: h.tail

/-- The argument of a head. -/
def arg (h : Head) : Nat := argVal (additional h.initial) h.tail

/-- The head has major type `m`. -/
def IsMajor (h : Head) (m : Nat) : Prop := major h.initial = m

/-- A head that RFC 8949 allows in a definite-length item: no reserved additional information, no break, and no simple value
below 32 in two bytes. -/
def Rfc (h : Head) : Prop :=
  additional h.initial < 28 ∧ (h.IsMajor 7 → additional h.initial = 24 → 32 ≤ h.arg)

/-- The argument takes at most four bytes. -/
def Narrow (h : Head) : Prop := h.IsMajor 7 ∨ additional h.initial < 27

/-- The head is not that of a simple value in two bytes. -/
def NoByteSimple (h : Head) : Prop := h.initial ≠ 0xf8

end Head

/-- `bs` is `n` data items, one after the other, with heads in `P`. -/
inductive Items (P : Head → Prop) : Nat → Bytes → Prop where
  | nil : Items P 0 []
  | int {n : Nat} {rest : Bytes} (h : Head) (hp : P h) (hm : h.IsMajor 0 ∨ h.IsMajor 1) (hr : Items P n rest) :
      Items P (n + 1) (h.bytes ++ rest)
  | str {n : Nat} {rest : Bytes} (h : Head) (s : Bytes) (hp : P h) (hm : h.IsMajor 2 ∨ h.IsMajor 3)
      (hs : s.length = h.arg) (hr : Items P n rest) : Items P (n + 1) (h.bytes ++ (s ++ rest))
  | array {n : Nat} {rest : Bytes} (h : Head) (hp : P h) (hm : h.IsMajor 4) (hr : Items P (h.arg + n) rest) :
      Items P (n + 1) (h.bytes ++ rest)
  | map {n : Nat} {rest : Bytes} (h : Head) (hp : P h) (hm : h.IsMajor 5) (hr : Items P (2 * h.arg + n) rest) :
      Items P (n + 1) (h.bytes ++ rest)
  | tag {n : Nat} {rest : Bytes} (h : Head) (hp : P h) (hm : h.IsMajor 6) (hr : Items P (n + 1) rest) :
      Items P (n + 1) (h.bytes ++ rest)
  | simple {n : Nat} {rest : Bytes} (h : Head) (hp : P h) (hm : h.IsMajor 7) (hr : Items P n rest) :
      Items P (n + 1) (h.bytes ++ rest)

/-- `bs` is one data item with heads in `P`. -/
def Item (P : Head → Prop) (bs : Bytes) : Prop := Items P 1 bs

/-- A string item: the head announces its content and nothing follows. -/
def IsStr (m : Nat) (bs s : Bytes) : Prop := ∃ h : Head, h.IsMajor m ∧ s.length = h.arg ∧ bs = h.bytes ++ s

/-- A byte string item with content `s`. -/
abbrev IsBstr (bs s : Bytes) : Prop := IsStr 2 bs s

/-- A text string item with content `s`. -/
abbrev IsText (bs s : Bytes) : Prop := IsStr 3 bs s

/-- An integer item with value `i`. -/
def IsInt (bs : Bytes) (i : Int) : Prop :=
  ∃ h : Head, (h.IsMajor 0 ∧ i = h.arg ∨ h.IsMajor 1 ∧ i = -1 - h.arg) ∧ bs = h.bytes

/-- An array item with elements `xs`. -/
def IsArray (P : Head → Prop) (bs : Bytes) (xs : List Bytes) : Prop :=
  ∃ h : Head, P h ∧ h.IsMajor 4 ∧ h.arg = xs.length ∧ bs = h.bytes ++ xs.flatten ∧ ∀ x ∈ xs, Item P x

/-- The bytes of the entries of a map. -/
def entryBytes (es : List (Bytes × Bytes)) : Bytes := (es.map fun e => e.1 ++ e.2).flatten

/-- A map item with entries `es`. -/
def IsMap (P : Head → Prop) (bs : Bytes) (es : List (Bytes × Bytes)) : Prop :=
  ∃ h : Head, P h ∧ h.IsMajor 5 ∧ h.arg = es.length ∧ bs = h.bytes ++ entryBytes es ∧ ∀ e ∈ es, Item P e.1 ∧ Item P e.2

/-! ## Initial bytes -/

/-- The major type is the upper three bits. -/
theorem major_eq (b : UInt8) : major b = b.toNat / 32 := Nat.shiftRight_eq_div_pow _ 5

/-- The additional information is the lower five. -/
theorem additional_eq (b : UInt8) : additional b = b.toNat % 32 := Nat.and_two_pow_sub_one_eq_mod b.toNat 5

/-- There are eight major types. -/
theorem major_lt (b : UInt8) : major b < 8 := by
  have := b.toNat_lt
  rw [major_eq]
  omega

/-- Major type and additional information determine the initial byte. -/
theorem initial_ext {b c : UInt8} (hm : major b = major c) (ha : additional b = additional c) : b = c := by
  rw [major_eq, major_eq] at hm
  rw [additional_eq, additional_eq] at ha
  exact UInt8.toNat_inj.1 (by omega)

/-- A head is its initial byte and its argument bytes. -/
theorem Head.bytes_length (h : Head) : h.bytes.length = 1 + extLen (additional h.initial) := by
  simp [Head.bytes, h.tail_length]
  omega

/-- A head has at least a byte. -/
theorem Head.bytes_pos (h : Head) : 0 < h.bytes.length := by
  rw [h.bytes_length]
  omega

/-- An argument is a 64-bit number. -/
theorem Head.arg_lt (h : Head) : h.arg < 2 ^ 64 := by
  have hb := beNat_lt h.tail
  have ht := h.tail_length
  have hle : extLen (additional h.initial) ≤ 8 := by unfold extLen; split <;> omega
  have hpow : 256 ^ h.tail.length ≤ 256 ^ 8 := Nat.pow_le_pow_right (by omega) (by omega)
  unfold Head.arg argVal
  split <;> omega

/-- Below major type 7 a head without reserved additional information is one that RFC 8949 allows. -/
theorem Head.rfc_of_major_lt {h : Head} {m : Nat} (hm : h.IsMajor m) (hlt : m < 7) (h28 : additional h.initial < 28) :
    h.Rfc := by
  refine ⟨h28, fun h7 => ?_⟩
  unfold Head.IsMajor at hm h7
  omega

/-- Below 24 the additional information is the argument itself. -/
theorem extLen_of_lt {ai : Nat} (h : ai < 24) : extLen ai = 0 := by
  unfold extLen
  split <;> omega

/-- From 24 on the argument takes at least a byte. -/
theorem extLen_pos {ai : Nat} (h : 24 ≤ ai) (h28 : ai < 28) : 0 < extLen ai := by
  obtain rfl | rfl | rfl | rfl : ai = 24 ∨ ai = 25 ∨ ai = 26 ∨ ai = 27 := by omega
  all_goals decide

/-! ## Writing a head -/

/-- A major type and additional information make an initial byte. -/
private theorem initial_toNat {m k : Nat} (hm : m < 8) (hk : k < 32) : (UInt8.ofNat (m * 32 + k)).toNat = m * 32 + k := by
  rw [UInt8.toNat_ofNat']
  exact Nat.mod_eq_of_lt (by omega)

/-- The major type of an initial byte is the one it was made of. -/
theorem major_ofNat {m k : Nat} (hm : m < 8) (hk : k < 32) : major (UInt8.ofNat (m * 32 + k)) = m := by
  rw [major_eq, initial_toNat hm hk]
  omega

/-- The additional information of an initial byte is the one it was made of. -/
theorem additional_ofNat {m k : Nat} (hm : m < 8) (hk : k < 32) : additional (UInt8.ofNat (m * 32 + k)) = k := by
  rw [additional_eq, initial_toNat hm hk]
  omega

/-- The head of a major type below 7 with additional information `k` and the argument bytes `tail`. -/
theorem Head.exists_of {m k : Nat} {tail : Bytes} (hm : m < 7) (hk : k < 28) (ht : tail.length = extLen k) :
    ∃ h : Head, h.bytes = UInt8.ofNat (m * 32 + k) :: tail ∧ h.IsMajor m ∧ additional h.initial = k ∧ h.arg = argVal k tail ∧
      h.Rfc := by
  have hmaj : major (UInt8.ofNat (m * 32 + k)) = m := major_ofNat (by omega) (by omega)
  have hadd : additional (UInt8.ofNat (m * 32 + k)) = k := additional_ofNat (by omega) (by omega)
  refine ⟨⟨UInt8.ofNat (m * 32 + k), tail, by rw [hadd, ht], .inl (by rw [hadd]; exact hk)⟩, rfl, hmaj, hadd, ?_, ?_⟩
  · simp only [Head.arg, hadd]
  · exact Head.rfc_of_major_lt (m := m) hmaj hm (by rw [hadd]; exact hk)

/-- The shortest head of major type `m` for the argument `n`. -/
def shortHead (m n : Nat) : Bytes :=
  if n < 24 then [UInt8.ofNat (m * 32 + n)]
  else if n < 2 ^ 8 then UInt8.ofNat (m * 32 + 24) :: beBytes 1 n
  else if n < 2 ^ 16 then UInt8.ofNat (m * 32 + 25) :: beBytes 2 n
  else if n < 2 ^ 32 then UInt8.ofNat (m * 32 + 26) :: beBytes 4 n
  else UInt8.ofNat (m * 32 + 27) :: beBytes 8 n

/-- The shortest head is a head, for every argument a head can have. -/
theorem shortHead_head {m n : Nat} (hm : m < 7) (hn : n < 2 ^ 64) :
    ∃ h : Head, shortHead m n = h.bytes ∧ h.IsMajor m ∧ h.arg = n ∧ h.Rfc ∧ (n < 2 ^ 32 → additional h.initial < 27) := by
  unfold shortHead
  split_ifs with h0 h1 h2 h3
  · have ht : ([] : Bytes).length = extLen n := by
      unfold extLen
      split <;> simp_all
    obtain ⟨h, hb, hmaj, hadd, harg, hrfc⟩ := Head.exists_of hm (by omega) ht
    exact ⟨h, hb.symm, hmaj, by rw [harg, argVal, if_pos h0], hrfc, fun _ => by omega⟩
  · obtain ⟨h, hb, hmaj, hadd, harg, hrfc⟩ := Head.exists_of (k := 24) hm (by omega) (beBytes_length 1 n)
    exact ⟨h, hb.symm, hmaj, by rw [harg, argVal, if_neg (by omega), beNat_beBytes (by omega)], hrfc, fun _ => by omega⟩
  · obtain ⟨h, hb, hmaj, hadd, harg, hrfc⟩ := Head.exists_of (k := 25) hm (by omega) (beBytes_length 2 n)
    exact ⟨h, hb.symm, hmaj, by rw [harg, argVal, if_neg (by omega), beNat_beBytes (by omega)], hrfc, fun _ => by omega⟩
  · obtain ⟨h, hb, hmaj, hadd, harg, hrfc⟩ := Head.exists_of (k := 26) hm (by omega) (beBytes_length 4 n)
    exact ⟨h, hb.symm, hmaj, by rw [harg, argVal, if_neg (by omega), beNat_beBytes (by omega)], hrfc, fun _ => by omega⟩
  · obtain ⟨h, hb, hmaj, hadd, harg, hrfc⟩ := Head.exists_of (k := 27) hm (by omega) (beBytes_length 8 n)
    exact ⟨h, hb.symm, hmaj, by rw [harg, argVal, if_neg (by omega), beNat_beBytes (by omega)], hrfc, fun _ => by omega⟩

/-- The head that stands at a place is determined. -/
theorem Head.unique {d : Bytes} {p : Nat} {h k : Head} (hh : At d p h.bytes) (hk : At d p k.bytes) : h = k := by
  have h1 : At d p ([h.initial] ++ h.tail) := hh
  have k1 : At d p ([k.initial] ++ k.tail) := hk
  have hi : [h.initial] = [k.initial] := (at_append_iff.1 h1).1.unique (at_append_iff.1 k1).1 rfl
  obtain ⟨a, s, hs, hdef⟩ := h
  obtain ⟨b, t, ht, kdef⟩ := k
  obtain rfl : a = b := List.singleton_inj.1 hi
  obtain rfl : s = t := (at_append_iff.1 h1).2.unique (at_append_iff.1 k1).2 (hs.trans ht.symm)
  rfl

/-- A head at the start of some bytes is the only one there. -/
theorem Head.append_inj {h k : Head} {r r' : Bytes} (heq : h.bytes ++ r = k.bytes ++ r') : h = k ∧ r = r' := by
  have h1 : At (h.bytes ++ r) 0 h.bytes := at_zero_iff.2 ⟨r, rfl⟩
  have k1 : At (h.bytes ++ r) 0 k.bytes := at_zero_iff.2 ⟨r', heq⟩
  obtain rfl := Head.unique h1 k1
  exact ⟨rfl, List.append_cancel_left heq⟩

/-- An initial byte of major type 7 that stands in the data is a head when the bytes it announces are there too. -/
theorem exists_head_of_major_seven {d : Bytes} {p : Nat} {b : UInt8} (hb : At d p [b]) (hm : major b = 7)
    (hle : p + 1 + extLen (additional b) ≤ d.length) : ∃ h : Head, h.initial = b ∧ At d p h.bytes := by
  obtain ⟨tail, htail, hl⟩ := exists_at hle
  exact ⟨⟨b, tail, hl, .inr hm⟩, rfl, at_append_iff.2 ⟨hb, htail⟩⟩

/-! ## Sequences of items -/

variable {P Q : Head → Prop}

/-- The heads of a sequence of items stand in its bytes: what holds of all of those is a condition on the heads. -/
theorem Items.mono_mem {n : Nat} {bs : Bytes} (h : Items P n bs) (hPQ : ∀ h : Head, h.initial ∈ bs → P h → Q h) :
    Items Q n bs := by
  induction h with
  | nil => exact .nil
  | int h hp hm _ ih =>
    exact .int h (hPQ h (by simp [Head.bytes]) hp) hm (ih fun k hk => hPQ k (by simp [hk]))
  | str h s hp hm hs _ ih =>
    exact .str h s (hPQ h (by simp [Head.bytes]) hp) hm hs (ih fun k hk => hPQ k (by simp [hk]))
  | array h hp hm _ ih =>
    exact .array h (hPQ h (by simp [Head.bytes]) hp) hm (ih fun k hk => hPQ k (by simp [hk]))
  | map h hp hm _ ih =>
    exact .map h (hPQ h (by simp [Head.bytes]) hp) hm (ih fun k hk => hPQ k (by simp [hk]))
  | tag h hp hm _ ih =>
    exact .tag h (hPQ h (by simp [Head.bytes]) hp) hm (ih fun k hk => hPQ k (by simp [hk]))
  | simple h hp hm _ ih =>
    exact .simple h (hPQ h (by simp [Head.bytes]) hp) hm (ih fun k hk => hPQ k (by simp [hk]))

/-- Items with heads of a kind have heads of a wider kind. -/
theorem Items.mono (hPQ : ∀ h, P h → Q h) {n : Nat} {bs : Bytes} (h : Items P n bs) : Items Q n bs :=
  h.mono_mem fun k _ => hPQ k

/-- A head of an integer is an item. -/
theorem Item.int (h : Head) (hp : P h) (hm : h.IsMajor 0 ∨ h.IsMajor 1) : Item P h.bytes := by
  have hi := Items.int h hp hm .nil
  rwa [List.append_nil] at hi

/-- A head of a string and its content are an item. -/
theorem Item.str (h : Head) (s : Bytes) (hp : P h) (hm : h.IsMajor 2 ∨ h.IsMajor 3) (hs : s.length = h.arg) :
    Item P (h.bytes ++ s) := by
  have hi := Items.str h s hp hm hs .nil
  rwa [List.append_nil] at hi

/-- A head of a simple value is an item. -/
theorem Item.simple (h : Head) (hp : P h) (hm : h.IsMajor 7) : Item P h.bytes := by
  have hi := Items.simple h hp hm .nil
  rwa [List.append_nil] at hi

/-- The null of CBOR. -/
theorem null_item : Item Head.Rfc [0xf6] := by
  obtain ⟨h, hb, hm, hr⟩ : ∃ h : Head, h.bytes = [0xf6] ∧ major h.initial = 7 ∧ additional h.initial = 22 :=
    ⟨⟨0xf6, [], by decide, .inl (by decide)⟩, rfl, by decide, by decide⟩
  rw [← hb]
  refine Item.simple h ⟨by omega, ?_⟩ hm
  intro _ h24
  omega

/-- Two sequences of items, one after the other. -/
theorem Items.append {m n : Nat} {as bs : Bytes} (ha : Items P m as) (hb : Items P n bs) : Items P (m + n) (as ++ bs) := by
  induction ha with
  | nil => simpa using hb
  | int h hp hm _ ih =>
    rw [List.append_assoc, Nat.add_right_comm]
    exact .int h hp hm ih
  | str h s hp hm hs _ ih =>
    rw [List.append_assoc, List.append_assoc, Nat.add_right_comm]
    exact .str h s hp hm hs ih
  | array h hp hm _ ih =>
    rw [List.append_assoc, Nat.add_right_comm]
    exact .array h hp hm (by rwa [Nat.add_assoc] at ih)
  | map h hp hm _ ih =>
    rw [List.append_assoc, Nat.add_right_comm]
    exact .map h hp hm (by rwa [Nat.add_assoc] at ih)
  | tag h hp hm _ ih =>
    rw [List.append_assoc, Nat.add_right_comm]
    exact .tag h hp hm (by rwa [Nat.add_right_comm] at ih)
  | simple h hp hm _ ih =>
    rw [List.append_assoc, Nat.add_right_comm]
    exact .simple h hp hm ih

/-- A sequence of items splits before its first one. -/
theorem Items.split_zero {k n : Nat} {bs : Bytes} (h : Items P k bs) (hk : k = 0 + n) :
    ∃ as cs, bs = as ++ cs ∧ Items P 0 as ∧ Items P n cs := by
  rw [Nat.zero_add] at hk
  exact ⟨[], bs, rfl, .nil, hk ▸ h⟩

/-- A sequence of items splits after any number of them. -/
theorem Items.split {k : Nat} {bs : Bytes} (h : Items P k bs) :
    ∀ m n, k = m + n → ∃ as cs, bs = as ++ cs ∧ Items P m as ∧ Items P n cs := by
  induction h with
  | nil =>
    intro m n hk
    obtain ⟨rfl, rfl⟩ : m = 0 ∧ n = 0 := by omega
    exact ⟨[], [], rfl, .nil, .nil⟩
  | int h hp hm hr ih =>
    intro m n hk
    cases m with
    | zero => exact Items.split_zero (.int h hp hm hr) hk
    | succ m =>
      obtain ⟨as, cs, rfl, h1, h2⟩ := ih m n (by omega)
      exact ⟨h.bytes ++ as, cs, by simp, .int h hp hm h1, h2⟩
  | str h s hp hm hs hr ih =>
    intro m n hk
    cases m with
    | zero => exact Items.split_zero (.str h s hp hm hs hr) hk
    | succ m =>
      obtain ⟨as, cs, rfl, h1, h2⟩ := ih m n (by omega)
      exact ⟨h.bytes ++ (s ++ as), cs, by simp, .str h s hp hm hs h1, h2⟩
  | array h hp hm hr ih =>
    intro m n hk
    cases m with
    | zero => exact Items.split_zero (.array h hp hm hr) hk
    | succ m =>
      obtain ⟨as, cs, rfl, h1, h2⟩ := ih (h.arg + m) n (by omega)
      exact ⟨h.bytes ++ as, cs, by simp, .array h hp hm h1, h2⟩
  | map h hp hm hr ih =>
    intro m n hk
    cases m with
    | zero => exact Items.split_zero (.map h hp hm hr) hk
    | succ m =>
      obtain ⟨as, cs, rfl, h1, h2⟩ := ih (2 * h.arg + m) n (by omega)
      exact ⟨h.bytes ++ as, cs, by simp, .map h hp hm h1, h2⟩
  | tag h hp hm hr ih =>
    intro m n hk
    cases m with
    | zero => exact Items.split_zero (.tag h hp hm hr) hk
    | succ m =>
      obtain ⟨as, cs, rfl, h1, h2⟩ := ih (m + 1) n (by omega)
      exact ⟨h.bytes ++ as, cs, by simp, .tag h hp hm h1, h2⟩
  | simple h hp hm hr ih =>
    intro m n hk
    cases m with
    | zero => exact Items.split_zero (.simple h hp hm hr) hk
    | succ m =>
      obtain ⟨as, cs, rfl, h1, h2⟩ := ih m n (by omega)
      exact ⟨h.bytes ++ as, cs, by simp, .simple h hp hm h1, h2⟩

/-- Nothing is zero items. -/
theorem items_zero_iff {bs : Bytes} : Items P 0 bs ↔ bs = [] := by
  constructor
  · intro h
    cases h
    rfl
  · rintro rfl
    exact .nil

/-- No item has no bytes. -/
theorem Items.eq_nil {n : Nat} (h : Items P n []) : n = 0 := by
  cases h with
  | nil => rfl

/-- What follows the head of the first of `n + 1` items, one case for each kind of item. -/
structure AfterHead (P : Head → Prop) (n : Nat) (hd : Head) (rest : Bytes) : Prop where
  int : hd.IsMajor 0 ∨ hd.IsMajor 1 → Items P n rest
  str : hd.IsMajor 2 ∨ hd.IsMajor 3 → ∃ s r, s.length = hd.arg ∧ rest = s ++ r ∧ Items P n r
  array : hd.IsMajor 4 → Items P (hd.arg + n) rest
  map : hd.IsMajor 5 → Items P (2 * hd.arg + n) rest
  tag : hd.IsMajor 6 → Items P (n + 1) rest
  simple : hd.IsMajor 7 → Items P n rest

/-- A sequence that is not empty starts with a head. -/
theorem Items.afterHead {n : Nat} {bs : Bytes} (h : Items P (n + 1) bs) :
    ∃ hd rest, P hd ∧ bs = hd.bytes ++ rest ∧ AfterHead P n hd rest := by
  cases h with
  | int hd hp hm hr =>
    refine ⟨hd, _, hp, rfl, ?_⟩
    constructor <;> intro h <;> first | exact hr | (unfold Head.IsMajor at h hm; omega)
  | @str _ rest hd s hp hm hs hr =>
    refine ⟨hd, _, hp, rfl, ?_⟩
    constructor <;> intro h <;> first | exact ⟨s, rest, hs, rfl, hr⟩ | (unfold Head.IsMajor at h hm; omega)
  | array hd hp hm hr =>
    refine ⟨hd, _, hp, rfl, ?_⟩
    constructor <;> intro h <;> first | exact hr | (unfold Head.IsMajor at h hm; omega)
  | map hd hp hm hr =>
    refine ⟨hd, _, hp, rfl, ?_⟩
    constructor <;> intro h <;> first | exact hr | (unfold Head.IsMajor at h hm; omega)
  | tag hd hp hm hr =>
    refine ⟨hd, _, hp, rfl, ?_⟩
    constructor <;> intro h <;> first | exact hr | (unfold Head.IsMajor at h hm; omega)
  | simple hd hp hm hr =>
    refine ⟨hd, _, hp, rfl, ?_⟩
    constructor <;> intro h <;> first | exact hr | (unfold Head.IsMajor at h hm; omega)

/-- Where a sequence of items and some head stand at one place, the sequence starts with that head. -/
theorem Items.afterHead_at {d : Bytes} {n p : Nat} {h : Head} {r v : Bytes} (hv : Items P (n + 1) v)
    (hat : At d p (h.bytes ++ r)) (hbt : At d p v) :
    ∃ rest, v = h.bytes ++ rest ∧ AfterHead P n h rest ∧ At d (p + h.bytes.length) r ∧ At d (p + h.bytes.length) rest := by
  obtain ⟨k, rest, -, rfl, hk⟩ := hv.afterHead
  obtain ⟨h1, h2⟩ := at_append_iff.1 hat
  obtain ⟨k1, k2⟩ := at_append_iff.1 hbt
  obtain rfl := Head.unique h1 k1
  exact ⟨rest, rfl, hk, h2, k2⟩

/-- CBOR is a prefix code: the items that stand at a place are determined by their number. -/
theorem Items.unique {d : Bytes} {n : Nat} {u v : Bytes} {p : Nat} (hu : Items P n u) (hv : Items Q n v) (hat : At d p u)
    (hbt : At d p v) : u = v := by
  induction hu generalizing v p with
  | nil => rw [items_zero_iff.1 hv]
  | int h hp hm _ ih =>
    obtain ⟨rest, rfl, hk, h2, k2⟩ := hv.afterHead_at hat hbt
    rw [ih (hk.int hm) h2 k2]
  | str h s hp hm hs _ ih =>
    obtain ⟨rest, rfl, hk, h2, k2⟩ := hv.afterHead_at hat hbt
    obtain ⟨t, r, ht, rfl, hr⟩ := hk.str hm
    obtain ⟨h3, h4⟩ := at_append_iff.1 h2
    obtain ⟨k3, k4⟩ := at_append_iff.1 k2
    obtain rfl : s = t := h3.unique k3 (hs.trans ht.symm)
    rw [ih hr h4 k4]
  | array h hp hm _ ih =>
    obtain ⟨rest, rfl, hk, h2, k2⟩ := hv.afterHead_at hat hbt
    rw [ih (hk.array hm) h2 k2]
  | map h hp hm _ ih =>
    obtain ⟨rest, rfl, hk, h2, k2⟩ := hv.afterHead_at hat hbt
    rw [ih (hk.map hm) h2 k2]
  | tag h hp hm _ ih =>
    obtain ⟨rest, rfl, hk, h2, k2⟩ := hv.afterHead_at hat hbt
    rw [ih (hk.tag hm) h2 k2]
  | simple h hp hm _ ih =>
    obtain ⟨rest, rfl, hk, h2, k2⟩ := hv.afterHead_at hat hbt
    rw [ih (hk.simple hm) h2 k2]

/-- Items at the start of some bytes are determined by their number. -/
theorem Items.append_inj {n : Nat} {u v r r' : Bytes} (hu : Items P n u) (hv : Items Q n v) (heq : u ++ r = v ++ r') :
    u = v ∧ r = r' := by
  have h1 : At (u ++ r) 0 u := at_zero_iff.2 ⟨r, rfl⟩
  have h2 : At (u ++ r) 0 v := at_zero_iff.2 ⟨r', heq⟩
  obtain rfl := hu.unique hv h1 h2
  exact ⟨rfl, List.append_cancel_left heq⟩

/-- A piece of a sequence that is itself a sequence of items is the first part of it. -/
theorem Items.split_eq {m n : Nat} {u v : Bytes} (h : Items P (m + n) (u ++ v)) (hu : Items Q m u) :
    Items P m u ∧ Items P n v := by
  obtain ⟨as, cs, heq, ha, hc⟩ := h.split m n rfl
  obtain ⟨rfl, rfl⟩ := hu.append_inj ha heq
  exact ⟨ha, hc⟩

/-! ## Strings, arrays and maps -/

/-- The bytes of an entry stand before those of the others. -/
theorem entryBytes_cons (e : Bytes × Bytes) (es : List (Bytes × Bytes)) :
    entryBytes (e :: es) = e.1 ++ (e.2 ++ entryBytes es) := by
  simp [entryBytes]

/-- A sequence of items, one by one. -/
theorem Items.exists_list {n : Nat} {u : Bytes} (h : Items P n u) :
    ∃ xs : List Bytes, xs.length = n ∧ u = xs.flatten ∧ ∀ x ∈ xs, Item P x := by
  induction n generalizing u with
  | zero => exact ⟨[], rfl, items_zero_iff.1 h, by simp⟩
  | succ n ih =>
    obtain ⟨x, w, rfl, hx, hw⟩ := h.split 1 n (Nat.add_comm n 1)
    obtain ⟨xs, hl, rfl, hxs⟩ := ih hw
    refine ⟨x :: xs, by rw [List.length_cons, hl], rfl, ?_⟩
    intro y hy
    rcases List.mem_cons.1 hy with rfl | hy
    · exact hx
    · exact hxs y hy

/-- The items of a list, as a sequence: what one sequence says of their heads holds in each. -/
theorem Items.of_flatten {xs : List Bytes} (h : Items P xs.length xs.flatten) (hxs : ∀ x ∈ xs, Item Q x) :
    ∀ x ∈ xs, Item P x := by
  induction xs with
  | nil => simp
  | cons x xs ih =>
    rw [List.length_cons, Nat.add_comm, List.flatten_cons] at h
    obtain ⟨h1, h2⟩ := h.split_eq (hxs x (by simp))
    intro y hy
    rcases List.mem_cons.1 hy with rfl | hy
    · exact h1
    · exact ih h2 (fun z hz => hxs z (by simp [hz])) y hy

/-- The entries of a map have heads of the kind that the map has. -/
theorem Items.of_entryBytes {es : List (Bytes × Bytes)} (h : Items P (2 * es.length) (entryBytes es))
    (hes : ∀ e ∈ es, Item Q e.1 ∧ Item Q e.2) : ∀ e ∈ es, Item P e.1 ∧ Item P e.2 := by
  induction es with
  | nil => simp
  | cons e es ih =>
    rw [entryBytes_cons, List.length_cons, show 2 * (es.length + 1) = 1 + (1 + 2 * es.length) by omega] at h
    obtain ⟨hk, h⟩ := h.split_eq (hes e (by simp)).1
    obtain ⟨hv, h⟩ := h.split_eq (hes e (by simp)).2
    intro y hy
    rcases List.mem_cons.1 hy with rfl | hy
    · exact ⟨hk, hv⟩
    · exact ih h (fun z hz => hes z (by simp [hz])) y hy

/-- Items one after the other are a sequence of items. -/
theorem Items.flatten {xs : List Bytes} (hxs : ∀ x ∈ xs, Item P x) : Items P xs.length xs.flatten := by
  induction xs with
  | nil => exact .nil
  | cons x xs ih =>
    have hx : Items P 1 x := hxs x (by simp)
    have hrest := ih fun y hy => hxs y (by simp [hy])
    rw [List.length_cons, List.flatten_cons, Nat.add_comm]
    exact hx.append hrest

/-- The head an item starts with. -/
theorem Item.exists_head {u : Bytes} (h : Item P u) :
    ∃ hd rest, P hd ∧ u = hd.bytes ++ rest ∧ AfterHead P 0 hd rest := Items.afterHead h

/-- An item is not empty. -/
theorem Item.ne_nil {u : Bytes} (h : Item P u) : u ≠ [] := by
  rintro rfl
  cases Items.eq_nil h

/-- An item has at least a byte. -/
theorem Item.pos {u : Bytes} (h : Item P u) : 0 < u.length := List.length_pos_iff.2 h.ne_nil

/-- Head and content of a string item are determined by its bytes. -/
theorem IsStr.unique {m n : Nat} {u s t : Bytes} (hs : IsStr m u s) (ht : IsStr n u t) : m = n ∧ s = t := by
  obtain ⟨h, hm, hl, rfl⟩ := hs
  obtain ⟨k, hn, kl, heq⟩ := ht
  obtain ⟨rfl, hst⟩ := Head.append_inj heq
  exact ⟨hm.symm.trans hn, hst⟩

/-- A byte string is an item. -/
theorem IsBstr.item {u s : Bytes} (h : IsBstr u s) : Item Head.Rfc u := by
  obtain ⟨k, hm, hs, rfl⟩ := h
  have h28 : additional k.initial < 28 := k.defined.resolve_right (by unfold Head.IsMajor at hm; omega)
  exact Item.str k s (Head.rfc_of_major_lt hm (by decide) h28) (.inl hm) hs

/-- The value of an integer item is determined by its bytes. -/
theorem IsInt.unique {u : Bytes} {i j : Int} (hi : IsInt u i) (hj : IsInt u j) : i = j := by
  obtain ⟨h, hv, rfl⟩ := hi
  obtain ⟨k, kv, heq⟩ := hj
  obtain ⟨rfl, -⟩ := Head.append_inj (congrArg (· ++ ([] : Bytes)) heq)
  unfold Head.IsMajor at hv kv
  omega

/-- An array is an item. -/
theorem IsArray.item {u : Bytes} {xs : List Bytes} (h : IsArray P u xs) : Item P u := by
  obtain ⟨hd, hp, hm, ha, rfl, hxs⟩ := h
  refine Items.array hd hp hm ?_
  rw [ha]
  exact Items.flatten hxs

/-- A map whose bytes are an item with heads in `P` has its entries in `P`. -/
theorem IsMap.mono {u : Bytes} {es : List (Bytes × Bytes)} (h : IsMap Q u es) (hu : Item P u) : IsMap P u es := by
  obtain ⟨hd, hq, hm, ha, rfl, hes⟩ := h
  obtain ⟨k, rest, hp, heq, hk⟩ := hu.exists_head
  obtain ⟨rfl, rfl⟩ := Head.append_inj heq
  refine ⟨hd, hp, hm, ha, rfl, ?_⟩
  have hit := hk.map hm
  rw [ha] at hit
  exact hit.of_entryBytes hes

/-- The elements of an array have heads of the kind that the array has. -/
theorem IsArray.mono {u : Bytes} {xs : List Bytes} (h : IsArray Q u xs) (hu : Item P u) : IsArray P u xs := by
  obtain ⟨hd, hq, hm, ha, rfl, hxs⟩ := h
  obtain ⟨k, rest, hp, heq, hk⟩ := hu.exists_head
  obtain ⟨rfl, rfl⟩ := Head.append_inj heq
  refine ⟨hd, hp, hm, ha, rfl, ?_⟩
  have hit := hk.array hm
  rw [ha] at hit
  exact hit.of_flatten hxs

/-- The elements of an array are determined by its bytes. -/
theorem IsArray.unique {u : Bytes} {xs ys : List Bytes} (hx : IsArray P u xs) (hy : IsArray Q u ys) : xs = ys := by
  obtain ⟨h, -, hm, ha, rfl, hxs⟩ := hx
  obtain ⟨k, -, km, ka, heq, hys⟩ := hy
  obtain ⟨rfl, hfl⟩ := Head.append_inj heq
  have hlen : xs.length = ys.length := ha.symm.trans ka
  clear ha ka heq
  induction xs generalizing ys with
  | nil => exact (List.length_eq_zero_iff.1 hlen.symm).symm
  | cons x xs ih =>
    cases ys with
    | nil => cases hlen
    | cons y ys =>
      rw [List.flatten_cons, List.flatten_cons] at hfl
      obtain ⟨rfl, hrest⟩ := Items.append_inj (hxs x (by simp)) (hys y (by simp)) hfl
      rw [ih (fun z hz => hxs z (by simp [hz])) (fun z hz => hys z (by simp [hz])) hrest (Nat.succ.inj hlen)]

/-- The entries of a map are determined by its bytes. -/
theorem IsMap.unique {u : Bytes} {es fs : List (Bytes × Bytes)} (he : IsMap P u es) (hf : IsMap Q u fs) : es = fs := by
  obtain ⟨h, -, hm, ha, rfl, hes⟩ := he
  obtain ⟨k, -, km, ka, heq, hfs⟩ := hf
  obtain ⟨rfl, hfl⟩ := Head.append_inj heq
  have hlen : es.length = fs.length := ha.symm.trans ka
  clear ha ka heq
  induction es generalizing fs with
  | nil => exact (List.length_eq_zero_iff.1 hlen.symm).symm
  | cons e es ih =>
    cases fs with
    | nil => cases hlen
    | cons f fs =>
      rw [entryBytes_cons, entryBytes_cons] at hfl
      obtain ⟨hkey, hfl⟩ := Items.append_inj (hes e (by simp)).1 (hfs f (by simp)).1 hfl
      obtain ⟨hvalue, hrest⟩ := Items.append_inj (hes e (by simp)).2 (hfs f (by simp)).2 hfl
      rw [Prod.ext hkey hvalue, ih (fun z hz => hes z (by simp [hz])) (fun z hz => hfs z (by simp [hz])) hrest
        (Nat.succ.inj hlen)]

/-- An item with the head of an array is one. -/
theorem Item.exists_isArray {u : Bytes} {hd : Head} (h : Item P u) (hat : At u 0 hd.bytes) (hm : hd.IsMajor 4) :
    ∃ xs, IsArray P u xs := by
  obtain ⟨k, rest, hp, rfl, hk⟩ := h.exists_head
  obtain rfl := Head.unique hat (at_zero_iff.2 ⟨rest, rfl⟩)
  obtain ⟨xs, hl, rfl, hxs⟩ := (hk.array hm).exists_list
  exact ⟨xs, hd, hp, hm, hl.symm, rfl, hxs⟩

end Cbor
