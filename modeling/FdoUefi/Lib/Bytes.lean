import Mathlib.Data.List.Basic
import Mathlib.Data.List.Induction
import Mathlib.Tactic.Common
import Mathlib.Tactic.Ring

/-!
# Byte strings read from a position

A byte string is a list of bytes and a place in it is a number. `At d p u` says that the bytes `u` stand in `d` from `p` on;
reading one byte, taking a range and splitting what was read are all facts about it. Text is kept as the bytes of its UTF-8
form, so a text value is a byte string that `utf8Valid` accepts.
-/

namespace Prog

/-- A byte string. -/
abbrev Bytes : Type := List UInt8

/-- The bytes of `d` from `a` up to `b`, or nothing when the range is not one of `d`. -/
def range? (d : Bytes) (a b : Nat) : Option Bytes := if a ≤ b ∧ b ≤ d.length then some ((d.drop a).take (b - a)) else none

/-- The bytes `u` stand in `d` from place `p` on. -/
def At (d : Bytes) (p : Nat) (u : Bytes) : Prop := p ≤ d.length ∧ u <+: d.drop p

/-- The value of a byte string read as a big-endian number. -/
def beNat (bs : Bytes) : Nat := bs.foldl (fun acc b => acc * 256 + b.toNat) 0

/-- The big-endian form of a number in a given number of bytes. -/
def beBytes : Nat → Nat → Bytes
  | 0, _ => []
  | k + 1, n => UInt8.ofNat (n >>> (8 * k)) :: beBytes k n

/-- The UTF-8 bytes of a text. -/
def utf8 (s : String) : Bytes := s.toList.flatMap String.utf8EncodeChar

/-- A UTF-8 continuation byte. -/
def utf8Cont (b : UInt8) : Bool := 0x80 ≤ b && b ≤ 0xBF

/-- The byte string is well-formed UTF-8: no overlong form, no surrogate, nothing above U+10FFFF. -/
def utf8Valid : Bytes → Bool
  | [] => true
  | a :: r₀ =>
    if a < 0x80 then utf8Valid r₀
    else match r₀ with
      | [] => false
      | b :: r₁ =>
        if 0xC2 ≤ a && a ≤ 0xDF then utf8Cont b && utf8Valid r₁
        else match r₁ with
          | [] => false
          | c :: r₂ =>
            if 0xE0 ≤ a && a ≤ 0xEF then
              utf8Cont b && utf8Cont c && (a != 0xE0 || 0xA0 ≤ b) && (a != 0xED || b ≤ 0x9F) && utf8Valid r₂
            else match r₂ with
              | [] => false
              | e :: r₃ =>
                0xF0 ≤ a && a ≤ 0xF4 && utf8Cont b && utf8Cont c && utf8Cont e && (a != 0xF0 || 0x90 ≤ b) &&
                  (a != 0xF4 || b ≤ 0x8F) && utf8Valid r₃

/-! ## What stands at a place -/

/-- What stands somewhere stands within the data. -/
theorem At.pos_le {d : Bytes} {p : Nat} {u : Bytes} (h : At d p u) : p ≤ d.length := h.1

/-- What stands at a place ends inside the byte string. -/
theorem At.end_le {d : Bytes} {p : Nat} {u : Bytes} (h : At d p u) : p + u.length ≤ d.length := by
  have h1 := h.2.length_le
  have h2 := h.1
  rw [List.length_drop] at h1
  omega

/-- Nothing stands everywhere within the data. -/
theorem at_nil {d : Bytes} {p : Nat} (h : p ≤ d.length) : At d p [] := ⟨h, List.nil_prefix⟩

/-- Up to the end of the string something of every length stands at a place. -/
theorem exists_at {d : Bytes} {p n : Nat} (h : p + n ≤ d.length) : ∃ u, At d p u ∧ u.length = n :=
  ⟨(d.drop p).take n, ⟨by omega, List.take_prefix n _⟩, by simp; omega⟩

/-- Bytes stand somewhere exactly when the string splits around them. -/
theorem at_iff_append {d : Bytes} {p : Nat} {u : Bytes} :
    At d p u ↔ ∃ pre post, d = pre ++ u ++ post ∧ pre.length = p := by
  constructor
  · rintro ⟨hp, post, h⟩
    refine ⟨d.take p, post, ?_, by simp [hp]⟩
    rw [List.append_assoc, h, List.take_append_drop]
  · rintro ⟨pre, post, rfl, rfl⟩
    exact ⟨by simp, post, by simp⟩

/-- Two pieces stand at a place one after the other. -/
theorem at_append_iff {d : Bytes} {p : Nat} {u v : Bytes} :
    At d p (u ++ v) ↔ At d p u ∧ At d (p + u.length) v := by
  constructor
  · intro h
    obtain ⟨pre, post, rfl, rfl⟩ := at_iff_append.1 h
    refine ⟨at_iff_append.2 ⟨pre, v ++ post, by simp, rfl⟩, at_iff_append.2 ⟨pre ++ u, post, by simp, by simp⟩⟩
  · rintro ⟨hu, hv⟩
    refine ⟨hu.1, ?_⟩
    obtain ⟨x, hx⟩ := hu.2
    obtain ⟨y, hy⟩ := hv.2
    have hx' : x = d.drop (p + u.length) := by
      rw [← List.drop_drop, ← hx, List.drop_left]
    exact ⟨y, by rw [List.append_assoc, hy, ← hx', hx]⟩

/-- What stands at the start of a string is a prefix of it. -/
theorem at_zero_iff {d u : Bytes} : At d 0 u ↔ ∃ post, d = u ++ post := by
  constructor
  · rintro ⟨-, post, h⟩
    exact ⟨post, h.symm⟩
  · rintro ⟨post, rfl⟩
    exact ⟨Nat.zero_le _, post, rfl⟩

/-- The bytes of a given number at a given place are determined. -/
theorem At.unique {d : Bytes} {p : Nat} {u v : Bytes} (hu : At d p u) (hv : At d p v) (h : u.length = v.length) : u = v := by
  obtain ⟨x, hx⟩ := hu.2
  obtain ⟨y, hy⟩ := hv.2
  exact (List.append_inj (hx.trans hy.symm) h).1

/-- Reading one byte. -/
theorem getElem?_eq_some_iff_at {d : Bytes} {p : Nat} {b : UInt8} : d[p]? = some b ↔ At d p [b] := by
  constructor
  · intro h
    obtain ⟨hp, rfl⟩ := List.getElem?_eq_some_iff.1 h
    exact ⟨by omega, d.drop (p + 1), (List.drop_eq_getElem_cons hp).symm⟩
  · intro h
    obtain ⟨pre, post, rfl, rfl⟩ := at_iff_append.1 h
    simp

/-- A range that exists is what stands at its start, up to its end. -/
theorem range?_eq_some_iff_at {d : Bytes} {a b : Nat} {u : Bytes} :
    range? d a b = some u ↔ At d a u ∧ b = a + u.length := by
  unfold range?
  constructor
  · intro h
    split at h
    · rename_i hab
      injection h with h
      have hl : u.length = b - a := by
        rw [← h, List.length_take, List.length_drop]
        omega
      refine ⟨⟨by omega, ?_⟩, by omega⟩
      rw [← h]
      exact List.take_prefix _ _
    · cases h
  · rintro ⟨hu, rfl⟩
    rw [if_pos ⟨by omega, hu.end_le⟩]
    obtain ⟨x, hx⟩ := hu.2
    rw [← hx]
    simp

/-- What stands at a place of a string stands there in every longer string. -/
theorem At.append_right {d : Bytes} {p : Nat} {u : Bytes} (h : At d p u) (x : Bytes) : At (d ++ x) p u := by
  obtain ⟨pre, post, rfl, rfl⟩ := at_iff_append.1 h
  exact at_iff_append.2 ⟨pre, post ++ x, by simp, rfl⟩

/-- What stands inside a piece that stands in a string stands in the string. -/
theorem At.inner {d : Bytes} {p q : Nat} {u v : Bytes} (h : At d p u) (hv : At u q v) : At d (p + q) v := by
  obtain ⟨pre, post, rfl, rfl⟩ := at_iff_append.1 h
  obtain ⟨pre', post', rfl, rfl⟩ := at_iff_append.1 hv
  exact at_iff_append.2 ⟨pre ++ pre', post' ++ post, by simp, by simp⟩

/-! ## Big-endian numbers -/

/-- No bytes make zero. -/
@[simp] theorem beNat_nil : beNat [] = 0 := rfl

/-- One more byte at the end. -/
theorem beNat_append_one (bs : Bytes) (b : UInt8) : beNat (bs ++ [b]) = beNat bs * 256 + b.toNat := by
  simp [beNat]

/-- A number of `n` bytes is below `256 ^ n`. -/
theorem beNat_lt (bs : Bytes) : beNat bs < 256 ^ bs.length := by
  induction bs using List.reverseRecOn with
  | nil => simp
  | append_singleton bs b ih =>
    rw [beNat_append_one, List.length_append, List.length_singleton, pow_succ]
    have := b.toNat_lt
    omega

/-- One more byte at the front. -/
theorem beNat_cons (b : UInt8) (bs : Bytes) : beNat (b :: bs) = b.toNat * 256 ^ bs.length + beNat bs := by
  induction bs using List.reverseRecOn with
  | nil => simp [beNat]
  | append_singleton bs c ih =>
    rw [← List.cons_append, beNat_append_one, beNat_append_one, ih, List.length_append, List.length_singleton, pow_succ]
    ring

/-- A number is written in the bytes it is given. -/
@[simp] theorem beBytes_length (k n : Nat) : (beBytes k n).length = k := by
  induction k with
  | zero => rfl
  | succ k ih => rw [beBytes, List.length_cons, ih]

/-- The big-endian form in `k` bytes keeps the low `k` bytes. -/
theorem beNat_beBytes_mod (k n : Nat) : beNat (beBytes k n) = n % 256 ^ k := by
  induction k with
  | zero => simp [beBytes, Nat.mod_one]
  | succ k ih =>
    rw [beBytes, beNat_cons, ih, beBytes_length, UInt8.toNat_ofNat', Nat.shiftRight_eq_div_pow, pow_mul,
      show (2 : Nat) ^ 8 = 256 from rfl, pow_succ, Nat.mod_mul, Nat.add_comm, Nat.mul_comm]

/-- A number that fits comes back. -/
theorem beNat_beBytes {k n : Nat} (h : n < 256 ^ k) : beNat (beBytes k n) = n := by
  rw [beNat_beBytes_mod, Nat.mod_eq_of_lt h]

/-- Two strings of one length with the same value are the same. -/
theorem beNat_injective {u v : Bytes} (hlen : u.length = v.length) (h : beNat u = beNat v) : u = v := by
  induction u generalizing v with
  | nil => exact (List.length_eq_zero_iff.1 hlen.symm).symm
  | cons b bs ih =>
    cases v with
    | nil => cases hlen
    | cons c cs =>
      have hlen' : bs.length = cs.length := Nat.succ.inj hlen
      rw [beNat_cons, beNat_cons, hlen', mul_comm b.toNat, mul_comm c.toNat] at h
      have hb : beNat bs < 256 ^ cs.length := hlen' ▸ beNat_lt bs
      have hc : beNat cs < 256 ^ cs.length := beNat_lt cs
      have hhead : b.toNat = c.toNat := by
        have hdiv := congrArg (· / 256 ^ cs.length) h
        have hpos : 0 < 256 ^ cs.length := Nat.pow_pos (by decide)
        simpa only [Nat.mul_add_div hpos, Nat.div_eq_of_lt hb, Nat.div_eq_of_lt hc, Nat.add_zero] using hdiv
      rw [hhead] at h
      rw [UInt8.toNat_inj.1 hhead, ih hlen' (Nat.add_left_cancel h)]

/-- A string is the form of its value. -/
theorem beBytes_beNat {k : Nat} {u : Bytes} (h : u.length = k) : beBytes k (beNat u) = u := by
  refine beNat_injective ((beBytes_length k _).trans h.symm) (beNat_beBytes ?_)
  rw [← h]
  exact beNat_lt u

end Prog
