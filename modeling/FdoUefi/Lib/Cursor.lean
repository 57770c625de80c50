import FdoUefi.Lib.Run
import FdoUefi.Lib.Bytes

/-!
# Reading at a cursor

The state of a reader over a byte string is the place of its cursor. Each reader here moves the cursor past what it has read
and leaves it where it was when it fails; what it returned is then what stands at the old place (`next_ok_iff`,
`take_ok_iff`).
-/

namespace Prog

/-- The byte at the cursor, if there is one. -/
def peek {ε : Type} (d : Bytes) : Run Nat ε (Option UInt8) := ⟨fun p => (.ok d[p]?, p)⟩

/-- Read one byte. -/
def next (d : Bytes) : Run Nat Unit UInt8 where
  run p := match d[p]? with
    | some b => (.ok b, p + 1)
    | none => (.err (), p)

/-- Read `n` bytes. -/
def take (d : Bytes) (n : Nat) : Run Nat Unit Bytes where
  run p := match range? d p (p + n) with
    | some s => (.ok s, p + n)
    | none => (.err (), p)

/-- Read `n` bytes of text. -/
def takeText (d : Bytes) (n : Nat) : Run Nat Unit Bytes := do
  let s ← take d n
  Run.ensure (utf8Valid s) ()
  return s

/-- The bytes from `a` up to `b`, indexed without a check: a range that is not one of `d` is a panic. -/
def slice {σ ε : Type} (d : Bytes) (a b : Nat) : Run σ ε Bytes :=
  match range? d a b with
  | some s => pure s
  | none => Run.panics

/-- Move the cursor on by `n`, whatever stands there. -/
def advance {ε : Type} (n : Nat) : Run Nat ε Unit := Run.modifyS (· + n)

/-- Run a reader from the start of a byte string. -/
def Run.eval {ε α : Type} (m : Run Nat ε α) : Outcome ε α := (m 0).1

@[simp] theorem peek_apply {ε : Type} (d : Bytes) (p : Nat) : (peek d : Run Nat ε _) p = (.ok d[p]?, p) := rfl

@[simp] theorem advance_apply {ε : Type} (n p : Nat) : (advance n : Run Nat ε Unit) p = (.ok (), p + n) := rfl

/-- A byte is read exactly where it stands. -/
theorem next_ok_iff {d : Bytes} {p q : Nat} {b : UInt8} : next d p = (.ok b, q) ↔ At d p [b] ∧ q = p + 1 := by
  rw [← getElem?_eq_some_iff_at]
  cases h : d[p]? with
  | none => simp [next, h]
  | some c => simp [next, h, eq_comm]

/-- Some bytes are read exactly where they stand. -/
theorem take_ok_iff {d : Bytes} {n p q : Nat} {s : Bytes} :
    take d n p = (.ok s, q) ↔ At d p s ∧ s.length = n ∧ q = p + n := by
  constructor
  · intro h
    cases hr : range? d p (p + n) with
    | none => simp [take, hr] at h
    | some u =>
      obtain ⟨hu, hn⟩ := range?_eq_some_iff_at.1 hr
      simp only [take, hr, Prod.mk.injEq, Outcome.ok.injEq] at h
      obtain ⟨rfl, rfl⟩ := h
      exact ⟨hu, by omega, rfl⟩
  · rintro ⟨hs, rfl, rfl⟩
    simp only [take, range?_eq_some_iff_at.2 ⟨hs, rfl⟩]

/-- A range that was cut out stands where it starts. -/
theorem slice_ok_iff {σ ε : Type} {d u : Bytes} {a b : Nat} {s t : σ} :
    (slice d a b : Run σ ε Bytes) s = (.ok u, t) ↔ At d a u ∧ b = a + u.length ∧ t = s := by
  unfold slice
  cases hr : range? d a b with
  | none =>
    have hno : ¬(At d a u ∧ b = a + u.length) := fun h => by
      rw [range?_eq_some_iff_at.2 h] at hr
      cases hr
    simp only [Run.panics_apply, Prod.mk.injEq, reduceCtorEq, false_and, false_iff]
    exact fun h => hno ⟨h.1, h.2.1⟩
  | some v =>
    obtain ⟨hv, hb⟩ := range?_eq_some_iff_at.1 hr
    rw [Run.pure_ok_iff]
    constructor
    · rintro ⟨rfl, rfl⟩
      exact ⟨hv, hb, rfl⟩
    · rintro ⟨hu, hb', rfl⟩
      exact ⟨hu.unique hv (by omega), rfl⟩

/-- Text is the bytes of its UTF-8 form. -/
theorem takeText_ok_iff {d : Bytes} {n p q : Nat} {s : Bytes} :
    takeText d n p = (.ok s, q) ↔ At d p s ∧ s.length = n ∧ q = p + n ∧ utf8Valid s = true := by
  unfold takeText
  simp only [Run.bind_ok_iff, Run.ensure_ok_iff, Run.pure_ok_iff, take_ok_iff]
  constructor
  · rintro ⟨u, t, ⟨hu, hl, rfl⟩, _, t', ⟨hv, rfl⟩, rfl, rfl⟩
    exact ⟨hu, hl, rfl, hv⟩
  · rintro ⟨hu, hl, rfl, hv⟩
    exact ⟨s, p + n, ⟨hu, hl, rfl⟩, (), p + n, ⟨hv, rfl⟩, rfl, rfl⟩

end Prog
