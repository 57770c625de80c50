import FdoUefi.Lib.Bytes

/-!
# Layouts of values as bytes

A `Marshal α` says how a value is written and how one is read off the front of a byte string. Its two laws are fields: a value that
fits is read back from its bytes, whatever follows them, and nothing is read but the bytes of a value that fits. Every layout put
together from these has both laws, so a format that is described with them needs no proof of its own (`whole_eq_some_iff`).
-/

namespace Prog

/-- A layout. A value that does not fit is written all the same, and is not read back. -/
structure Marshal (α : Type) where
  fits : α → Prop
  write : α → Bytes
  read : Bytes → Option (α × Bytes)
  read_write : ∀ a rest, fits a → read (write a ++ rest) = some (a, rest)
  write_read : ∀ d a rest, read d = some (a, rest) → fits a ∧ d = write a ++ rest

namespace Marshal

variable {α β : Type}

/-- The value that all of a byte string stands for. -/
def whole (A : Marshal α) (d : Bytes) : Option α := ((A.read d).filter fun p => decide (p.2 = [])).map Prod.fst

/-- A byte string stands for a value when it is what the value is written as. -/
theorem whole_eq_some_iff {A : Marshal α} {d : Bytes} {a : α} : A.whole d = some a ↔ A.fits a ∧ d = A.write a := by
  constructor
  · intro h
    obtain ⟨⟨b, left⟩, hread, hb⟩ := Option.map_eq_some_iff.1 h
    obtain ⟨hb', hleft⟩ := Option.filter_eq_some_iff.1 hread
    obtain ⟨hfits, hd⟩ := A.write_read d b left hb'
    cases hb
    rw [show left = [] from of_decide_eq_true hleft, List.append_nil] at hd
    exact ⟨hfits, hd⟩
  · rintro ⟨hfits, rfl⟩
    have hread : A.read (A.write a) = some (a, []) := by simpa only [List.append_nil] using A.read_write a [] hfits
    rw [whole, hread, Option.filter_some, if_pos (decide_eq_true rfl), Option.map_some]

/-! ## Fields -/

/-- Nothing is laid out so. -/
def never : Marshal α where
  fits _ := False
  write _ := []
  read _ := none
  read_write _ _ h := h.elim
  write_read _ _ _ h := by cases h

/-- Nothing, in no bytes. -/
def nothing : Marshal Unit where
  fits _ := True
  write _ := []
  read d := some ((), d)
  read_write _ _ _ := rfl
  write_read d _ rest h := by
    cases h
    exact ⟨trivial, rfl⟩

/-- A number of bytes. -/
def fixed (k : Nat) : Marshal Bytes where
  fits u := u.length = k
  write u := u
  read d := if k ≤ d.length then some (d.take k, d.drop k) else none
  read_write u rest h := by
    rw [if_pos (by rw [List.length_append]; omega), List.take_left' h, List.drop_left' h]
  write_read d u rest h := by
    split at h
    · cases h
      exact ⟨by rw [List.length_take]; omega, (List.take_append_drop k d).symm⟩
    · cases h

/-- A big-endian number in `k` bytes. -/
def word (k : Nat) : Marshal Nat where
  fits n := n < 256 ^ k
  write n := beBytes k n
  read d := if k ≤ d.length then some (beNat (d.take k), d.drop k) else none
  read_write n rest h := by
    have hk : (beBytes k n).length = k := beBytes_length k n
    rw [if_pos (by rw [List.length_append]; omega), List.take_left' hk, List.drop_left' hk, beNat_beBytes h]
  write_read d n rest h := by
    split at h
    next hd =>
      cases h
      have hk : (d.take k).length = k := List.length_take_of_le hd
      have hlt : beNat (d.take k) < 256 ^ k := (beNat_lt (d.take k)).trans_eq (congrArg (256 ^ ·) hk)
      exact ⟨hlt, by rw [beBytes_beNat hk, List.take_append_drop]⟩
    next => cases h

/-- The same value under another name, for the values that `unname` gives back. -/
def named [DecidableEq α] (A : Marshal α) (name : α → β) (unname : β → α) : Marshal β where
  fits b := name (unname b) = b ∧ A.fits (unname b)
  write b := A.write (unname b)
  read d := (A.read d).bind fun p => if unname (name p.1) = p.1 then some (name p.1, p.2) else none
  read_write b rest hb := by
    rw [A.read_write _ rest hb.2, Option.bind_some, if_pos (congrArg unname hb.1), hb.1]
  write_read d b rest hread := by
    obtain ⟨⟨a, rest'⟩, ha, hb⟩ := Option.bind_eq_some_iff.1 hread
    split at hb
    next hname =>
      cases hb
      obtain ⟨hfits, hd⟩ := A.write_read d a rest' ha
      dsimp only at hname ⊢
      rw [hname]
      exact ⟨⟨rfl, hfits⟩, hd⟩
    next => cases hb

/-- A number of 16 bits. -/
def u16 : Marshal UInt16 := (word 2).named UInt16.ofNat UInt16.toNat

/-- A number of 32 bits. -/
def u32 : Marshal UInt32 := (word 4).named UInt32.ofNat UInt32.toNat

/-- Every number of sixteen bits can be written. -/
@[simp] theorem u16_fits (n : UInt16) : u16.fits n := ⟨UInt16.ofNat_toNat, n.toNat_lt⟩

/-- Every number of thirty-two bits can be written. -/
@[simp] theorem u32_fits (n : UInt32) : u32.fits n := ⟨UInt32.ofNat_toNat, n.toNat_lt⟩

/-! ## Sequences -/

/-- One value after the other. -/
def seq (A : Marshal α) (B : Marshal β) : Marshal (α × β) where
  fits p := A.fits p.1 ∧ B.fits p.2
  write p := A.write p.1 ++ B.write p.2
  read d := (A.read d).bind fun p => (B.read p.2).map fun q => ((p.1, q.1), q.2)
  read_write p rest h := by
    rw [List.append_assoc, A.read_write p.1 _ h.1, Option.bind_some, B.read_write p.2 rest h.2, Option.map_some]
  write_read d p rest hread := by
    obtain ⟨⟨a, d'⟩, ha, hrest⟩ := Option.bind_eq_some_iff.1 hread
    obtain ⟨⟨b, rest'⟩, hb, hp⟩ := Option.map_eq_some_iff.1 hrest
    cases hp
    obtain ⟨hfa, rfl⟩ := A.write_read d a d' ha
    obtain ⟨hfb, rfl⟩ := B.write_read d' b rest' hb
    exact ⟨⟨hfa, hfb⟩, (List.append_assoc _ _ _).symm⟩

/-- Fixed bytes before a value. -/
def after (u : Bytes) (A : Marshal α) : Marshal α where
  fits := A.fits
  write a := u ++ A.write a
  read d := if d.take u.length = u then A.read (d.drop u.length) else none
  read_write a rest h := by
    rw [List.append_assoc, List.take_left' rfl, if_pos rfl, List.drop_left' rfl, A.read_write a rest h]
  write_read d a rest hread := by
    split at hread
    next hu =>
      obtain ⟨hfits, hd⟩ := A.write_read _ a rest hread
      refine ⟨hfits, ?_⟩
      rw [List.append_assoc, ← hd]
      exact (List.take_append_drop u.length d).symm.trans (congrArg (· ++ d.drop u.length) hu)
    next => cases hread

/-! ## Lengths and tags -/

/-- A value behind the number of its bytes in `k` bytes, which counts `extra` bytes more. -/
def within (k extra : Nat) (A : Marshal α) : Marshal α where
  fits a := A.fits a ∧ extra + (A.write a).length < 256 ^ k
  write a := beBytes k (extra + (A.write a).length) ++ A.write a
  read d := ((word k).read d).bind fun p =>
    if extra ≤ p.1 ∧ p.1 - extra ≤ p.2.length then
      (A.read (p.2.take (p.1 - extra))).bind fun q => if q.2 = [] then some (q.1, p.2.drop (p.1 - extra)) else none
    else none
  read_write a rest h := by
    have hword := (word k).read_write (extra + (A.write a).length) (A.write a ++ rest) h.2
    have hread : A.read (A.write a) = some (a, []) := by simpa only [List.append_nil] using A.read_write a [] h.1
    rw [List.append_assoc]
    change ((word k).read ((word k).write (extra + (A.write a).length) ++ (A.write a ++ rest))).bind _ = _
    rw [hword, Option.bind_some, if_pos ⟨Nat.le_add_right _ _, by rw [List.length_append]; omega⟩, Nat.add_sub_cancel_left,
      List.take_left' rfl, hread, Option.bind_some, if_pos rfl, List.drop_left' rfl]
  write_read d a rest hread := by
    obtain ⟨⟨n, d'⟩, hn, hinner⟩ := Option.bind_eq_some_iff.1 hread
    obtain ⟨hsmall, rfl⟩ := (word k).write_read d n d' hn
    split at hinner
    next hle =>
      obtain ⟨⟨b, left⟩, hb, hleft⟩ := Option.bind_eq_some_iff.1 hinner
      split at hleft
      next hnil =>
        cases hleft
        dsimp only at hb hle hnil ⊢
        subst hnil
        obtain ⟨hfits, hw⟩ := A.write_read _ b [] hb
        rw [List.append_nil] at hw
        have hlen : extra + (A.write b).length = n := by
          rw [← hw, List.length_take_of_le hle.2]
          omega
        refine ⟨⟨hfits, hlen ▸ hsmall⟩, ?_⟩
        rw [hlen, ← hw, List.append_assoc, List.take_append_drop]
        rfl
      next => cases hleft
    next => cases hinner

/-- A byte string behind its length in `k` bytes. -/
def sized (k : Nat) : Marshal Bytes where
  fits u := u.length < 256 ^ k
  write u := beBytes k u.length ++ u
  read d := ((word k).read d).bind fun p => (fixed p.1).read p.2
  read_write u rest h := by
    have hword := (word k).read_write u.length (u ++ rest) h
    rw [List.append_assoc]
    change ((word k).read ((word k).write u.length ++ (u ++ rest))).bind _ = _
    rw [hword, Option.bind_some]
    exact (fixed u.length).read_write u rest rfl
  write_read d u rest hread := by
    obtain ⟨⟨n, d'⟩, hn, hinner⟩ := Option.bind_eq_some_iff.1 hread
    obtain ⟨hsmall, rfl⟩ := (word k).write_read d n d' hn
    obtain ⟨hlen, rfl⟩ := (fixed n).write_read d' u rest hinner
    subst hlen
    exact ⟨hsmall, (List.append_assoc _ _ _).symm⟩

/-- A number that says how the value is laid out. -/
def tagged (k : Nat) (tag : α → Nat) (branch : Nat → Marshal α) : Marshal α where
  fits a := tag a < 256 ^ k ∧ (branch (tag a)).fits a
  write a := beBytes k (tag a) ++ (branch (tag a)).write a
  read d := ((word k).read d).bind fun p => ((branch p.1).read p.2).filter fun q => decide (tag q.1 = p.1)
  read_write a rest h := by
    have hword := (word k).read_write (tag a) ((branch (tag a)).write a ++ rest) h.1
    rw [List.append_assoc]
    change ((word k).read ((word k).write (tag a) ++ ((branch (tag a)).write a ++ rest))).bind _ = _
    rw [hword, Option.bind_some, (branch (tag a)).read_write a rest h.2, Option.filter_some, if_pos (decide_eq_true rfl)]
  write_read d a rest hread := by
    obtain ⟨⟨n, d'⟩, hn, hinner⟩ := Option.bind_eq_some_iff.1 hread
    obtain ⟨hsmall, rfl⟩ := (word k).write_read d n d' hn
    obtain ⟨ha, htag⟩ := Option.filter_eq_some_iff.1 hinner
    have htag' : tag a = n := of_decide_eq_true htag
    obtain ⟨hfits, rfl⟩ := (branch n).write_read d' a rest ha
    subst htag'
    exact ⟨⟨hsmall, hfits⟩, (List.append_assoc _ _ _).symm⟩

/-! ## What a layout asks for and writes -/

section

variable (A : Marshal α) (B : Marshal β)

/-- Nothing can always be written. -/
@[simp] theorem nothing_fits (a : Unit) : nothing.fits a := trivial

/-- A renamed value can be written if it comes back under its name and the value behind it can be. -/
@[simp] theorem named_fits [DecidableEq α] {name : α → β} {unname : β → α} {b : β} :
    (A.named name unname).fits b ↔ name (unname b) = b ∧ A.fits (unname b) := Iff.rfl

/-- A pair can be written if both parts can be. -/
@[simp] theorem seq_fits {p : α × β} : (seq A B).fits p ↔ A.fits p.1 ∧ B.fits p.2 := Iff.rfl

/-- A constant in front makes no difference. -/
@[simp] theorem after_fits {u : Bytes} {a : α} : (after u A).fits a ↔ A.fits a := Iff.rfl

/-- A sized string can be written if its length fits into the size. -/
@[simp] theorem sized_fits {k : Nat} {u : Bytes} : (sized k).fits u ↔ u.length < 256 ^ k := Iff.rfl

/-- A part with its size in front can be written if its length fits, too. -/
@[simp] theorem within_fits {k extra : Nat} {a : α} : (within k extra A).fits a ↔ A.fits a ∧ extra + (A.write a).length < 256 ^ k :=
  Iff.rfl

/-- A tagged value can be written if its tag fits and its branch can write it. -/
@[simp] theorem tagged_fits {k : Nat} {tag : α → Nat} {branch : Nat → Marshal α} {a : α} :
    (tagged k tag branch).fits a ↔ tag a < 256 ^ k ∧ (branch (tag a)).fits a := Iff.rfl

/-- Nothing has no bytes. -/
@[simp] theorem nothing_write (a : Unit) : nothing.write a = [] := rfl

/-- A renamed value has the bytes of the value behind it. -/
@[simp] theorem named_write [DecidableEq α] {name : α → β} {unname : β → α} {b : β} :
    (A.named name unname).write b = A.write (unname b) := rfl

/-- A pair is written part by part. -/
@[simp] theorem seq_write {p : α × β} : (seq A B).write p = A.write p.1 ++ B.write p.2 := rfl

/-- The constant comes first. -/
@[simp] theorem after_write {u : Bytes} {a : α} : (after u A).write a = u ++ A.write a := rfl

/-- A sized string is its length and its bytes. -/
@[simp] theorem sized_write {k : Nat} {u : Bytes} : (sized k).write u = beBytes k u.length ++ u := rfl

/-- A part with its size in front is the size and the part. -/
@[simp] theorem within_write {k extra : Nat} {a : α} :
    (within k extra A).write a = beBytes k (extra + (A.write a).length) ++ A.write a := rfl

/-- A tagged value is its tag and what its branch writes. -/
@[simp] theorem tagged_write {k : Nat} {tag : α → Nat} {branch : Nat → Marshal α} {a : α} :
    (tagged k tag branch).write a = beBytes k (tag a) ++ (branch (tag a)).write a := rfl

/-- A number of sixteen bits is two bytes, the high one first. -/
@[simp] theorem u16_write (n : UInt16) : u16.write n = beBytes 2 n.toNat := rfl

/-- A number of thirty-two bits is four bytes, the highest first. -/
@[simp] theorem u32_write (n : UInt32) : u32.write n = beBytes 4 n.toNat := rfl

end

end Marshal

end Prog
