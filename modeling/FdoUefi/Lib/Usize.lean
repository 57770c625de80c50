import FdoUefi.Lib.Cursor

/-!
# A cursor of machine words

A cursor that is a 64-bit word and is moved by lengths taken from the data can wrap around. `Cur` is such a cursor. Beside the
place it keeps a record of what has happened, latest first, which the code never reads: that a byte was asked for, that a
string head announced so many bytes, that an addition on the cursor wrapped, that room for so many elements was allocated,
that a range was cut out of the data. The record is what a statement about the way a run went can refer to.
-/

namespace Prog

/-- The number of values of a machine word. -/
def wordSize : Nat := 2 ^ 64

/-- The longest slice a program can hold: `isize::MAX` bytes. -/
def sliceMax : Nat := 2 ^ 63 - 1

/-- What a run over a byte string did. -/
inductive Event where
  /-- A byte was asked for. -/
  | read
  /-- A string head announced `len` bytes from `pos` on. -/
  | str (pos len : Nat)
  /-- An addition on the cursor wrapped around. -/
  | wrap
  /-- Room for `n` elements of `size` bytes was allocated. -/
  | capacity (n size : Nat)
  /-- The range from `start` to `stop` was cut out of the data. -/
  | cut (start stop : Nat)
  deriving DecidableEq, Repr

/-- A cursor and the record of its run, latest first. -/
structure Cur where
  pos : Nat
  log : List Event
  deriving DecidableEq, Repr

/-- A byte string that fits in memory. -/
structure Slice where
  bytes : Bytes
  fits : bytes.length ≤ sliceMax

namespace Cur

variable {ε : Type}

/-- The cursor of a new decoder. -/
def start : Cur := ⟨0, []⟩

/-- Record an event. -/
def note (e : Event) : Run Cur ε Unit := Run.modifyS fun c => { c with log := e :: c.log }

/-- The place of the cursor. -/
def place : Run Cur ε Nat := ⟨fun c => (.ok c.pos, c)⟩

/-- `pos += n`, on machine words. -/
def bump (n : Nat) : Run Cur ε Unit where
  run c := (.ok (), ⟨(c.pos + n) % wordSize, if wordSize ≤ c.pos + n then .wrap :: c.log else c.log⟩)

/-- The byte at the cursor, if there is one. -/
def peek (d : Bytes) : Run Cur ε (Option UInt8) := ⟨fun c => (.ok d[c.pos]?, c)⟩

/-- Ask for the byte at the cursor and step behind it. -/
def byte (d : Bytes) (e : ε) : Run Cur ε UInt8 := do
  note .read
  match ← peek d with
  | none => Run.fail e
  | some b =>
    bump 1
    return b

/-- The content of a string: `pos + len > data.len()` is checked and `data[pos..pos + len]` is taken, and the sum wraps in
both. The cursor stays. -/
def content (d : Bytes) (len : Nat) (e : Nat → ε) : Run Cur ε Bytes := do
  let pos ← place
  note (.str pos len)
  Run.ensure ((pos + len) % wordSize ≤ d.length) (e pos)
  slice d pos ((pos + len) % wordSize)

/-- `Vec::with_capacity(n)` for elements of `size` bytes: more than `isize::MAX` bytes is a panic. -/
def withCapacity (n size : Nat) : Run Cur ε Unit := do
  note (.capacity n size)
  if n * size ≤ sliceMax then pure () else Run.panics

/-- `data[start..stop]`: a range that is not one of the data is a panic. -/
def cut (d : Bytes) (start stop : Nat) : Run Cur ε Bytes := do
  note (.cut start stop)
  slice d start stop

/-- Run a decoder of its own over other data: the cursor of the caller stays where it is. -/
def inside {α : Type} (m : Run Cur ε α) : Run Cur ε α where
  run c := match m ⟨0, c.log⟩ with
    | (o, c') => (o, ⟨c.pos, c'.log⟩)

/-! ## What was read -/

variable {d : Bytes} {c c' : Cur}

/-- A byte that was read stood at the cursor, and the cursor is behind it. -/
theorem byte_ok (hd : d.length ≤ sliceMax) {e : ε} {b : UInt8} (h : byte d e c = (.ok b, c')) :
    At d c.pos [b] ∧ c'.pos = c.pos + 1 := by
  simp only [byte, peek, note, Run.bind_ok_iff, Run.modifyS_apply, Prod.mk.injEq, Outcome.ok.injEq] at h
  obtain ⟨_, c₁, ⟨-, rfl⟩, o, c₂, ⟨rfl, rfl⟩, hr⟩ := h
  cases hb : d[c.pos]? with
  | none =>
    simp only [hb] at hr
    simp at hr
  | some a =>
    simp only [hb, Run.bind_ok_iff, bump, Prod.mk.injEq] at hr
    obtain ⟨_, c₃, ⟨-, rfl⟩, h3⟩ := hr
    obtain ⟨rfl, rfl⟩ := Run.pure_ok_iff.1 h3
    have hat := getElem?_eq_some_iff_at.1 hb
    have hend := hat.end_le
    refine ⟨hat, Nat.mod_eq_of_lt ?_⟩
    simp only [sliceMax, List.length_singleton] at hd hend
    unfold wordSize
    omega

/-- The content that was read has the announced length: a sum that wraps does not give a range. -/
theorem content_ok (hd : d.length ≤ sliceMax) {len : Nat} {e : Nat → ε} {s : Bytes} (hlen : len < wordSize)
    (hp : c.pos ≤ d.length) (h : content d len e c = (.ok s, c')) :
    At d c.pos s ∧ s.length = len ∧ c'.pos = c.pos := by
  simp only [content, place, note, Run.bind_ok_iff, Run.modifyS_apply, Run.ensure_ok_iff, Prod.mk.injEq,
    Outcome.ok.injEq] at h
  obtain ⟨_, c₁, ⟨rfl, rfl⟩, _, c₂, ⟨-, rfl⟩, _, c₃, ⟨hle, rfl⟩, hs⟩ := h
  unfold slice at hs
  cases hr : range? d c.pos ((c.pos + len) % wordSize) with
  | none =>
    rw [hr] at hs
    simp at hs
  | some u =>
    rw [hr] at hs
    obtain ⟨rfl, rfl⟩ := Run.pure_ok_iff.1 hs
    obtain ⟨hu, hl⟩ := range?_eq_some_iff_at.1 hr
    refine ⟨hu, ?_, rfl⟩
    have hend := hu.end_le
    simp only [wordSize, sliceMax] at hl hd hlen
    omega

/-- The content of a string whose end lies past 2^64 is cut out from behind its start. -/
theorem content_of_wraps (hd : d.length ≤ sliceMax) {len : Nat} {e : Nat → ε} {s : Cur} (hlen : len < wordSize)
    (hp : s.pos ≤ d.length) (hwrap : wordSize ≤ s.pos + len) : (content d len e s).1 = .panic := by
  have hmod : (s.pos + len) % wordSize = s.pos + len - wordSize := by
    rw [Nat.mod_eq_sub_mod hwrap, Nat.mod_eq_of_lt (by simp only [sliceMax, wordSize] at hd hlen ⊢; omega)]
  have hnone : range? d s.pos ((s.pos + len) % wordSize) = none := if_neg (by omega)
  have hrun : content d len e s = (Run.ensure ((s.pos + len) % wordSize ≤ d.length) (e s.pos) >>= fun _ =>
      slice d s.pos ((s.pos + len) % wordSize)) ⟨s.pos, .str s.pos len :: s.log⟩ := rfl
  rw [hrun, Run.ensure_of_true _ (by omega), Run.bind_of_ok (Run.pure_apply _ _), slice, hnone, Run.panics_apply]

/-- A string that ends behind the data is refused. -/
theorem content_of_too_long {len : Nat} {e : Nat → ε} {s : Cur} (hlen : d.length < s.pos + len)
    (hno : s.pos + len < wordSize) : (content d len e s).1 = .err (e s.pos) := by
  have hrun : content d len e s = (Run.ensure ((s.pos + len) % wordSize ≤ d.length) (e s.pos) >>= fun _ =>
      slice d s.pos ((s.pos + len) % wordSize)) ⟨s.pos, .str s.pos len :: s.log⟩ := rfl
  rw [hrun, Nat.mod_eq_of_lt hno, Run.ensure_of_false _ (by omega), Run.bind_of_err (Run.fail_apply _ _)]

/-- Where the cursor does not wrap, it moves on by one. -/
theorem byte_pos {e : ε} {b : UInt8} (hp : c.pos + 1 < wordSize) (h : byte d e c = (.ok b, c')) : c'.pos = c.pos + 1 := by
  simp only [byte, peek, note, Run.bind_ok_iff, Run.modifyS_apply, Prod.mk.injEq, Outcome.ok.injEq] at h
  obtain ⟨_, c₁, ⟨-, rfl⟩, o, c₂, ⟨rfl, rfl⟩, hr⟩ := h
  cases hb : d[c.pos]? with
  | none =>
    simp only [hb] at hr
    simp at hr
  | some a =>
    simp only [hb, Run.bind_ok_iff, bump, Prod.mk.injEq] at hr
    obtain ⟨_, c₃, ⟨-, rfl⟩, h3⟩ := hr
    obtain ⟨-, rfl⟩ := Run.pure_ok_iff.1 h3
    exact Nat.mod_eq_of_lt hp

/-- Where the sum does not wrap, the content has the announced length. -/
theorem content_length {len : Nat} {e : Nat → ε} {s : Bytes} (hlen : c.pos + len < wordSize)
    (h : content d len e c = (.ok s, c')) : s.length = len := by
  simp only [content, place, note, Run.bind_ok_iff, Run.modifyS_apply, Run.ensure_ok_iff, Prod.mk.injEq,
    Outcome.ok.injEq] at h
  obtain ⟨_, c₁, ⟨rfl, rfl⟩, _, c₂, ⟨-, rfl⟩, _, c₃, ⟨-, rfl⟩, hs⟩ := h
  unfold slice at hs
  rw [Nat.mod_eq_of_lt hlen] at hs
  cases hr : range? d c.pos (c.pos + len) with
  | none =>
    rw [hr] at hs
    simp at hs
  | some u =>
    rw [hr] at hs
    obtain ⟨rfl, -⟩ := Run.pure_ok_iff.1 hs
    have hu := (range?_eq_some_iff_at.1 hr).2
    omega

/-! ## What lies between two cursors -/

/-- The bytes `u` stand between two cursors. -/
def Passed (d : Bytes) (c c' : Cur) (u : Bytes) : Prop := At d c.pos u ∧ c'.pos = c.pos + u.length

/-- Two pieces that were passed are one. -/
theorem Passed.append {c₁ : Cur} {u v : Bytes} (hu : Passed d c c₁ u) (hv : Passed d c₁ c' v) : Passed d c c' (u ++ v) := by
  obtain ⟨hat, hpos⟩ := hu
  obtain ⟨hat', hpos'⟩ := hv
  rw [hpos] at hat'
  refine ⟨at_append_iff.2 ⟨hat, hat'⟩, ?_⟩
  rw [hpos', hpos, List.length_append, Nat.add_assoc]

/-! ## What is there is read

`Reads m p v q`: from place `p`, `m` returns `v` and leaves the cursor at `q`. -/

/-- From place `p`, `m` returns `v` and leaves the cursor at `q`. -/
def Reads {α : Type} (m : Run Cur ε α) (p : Nat) (v : α) (q : Nat) : Prop :=
  ∀ log, ∃ log', m ⟨p, log⟩ = (.ok v, ⟨q, log'⟩)

namespace Reads

variable {α β : Type} {p q r : Nat}

theorem pure (v : α) : Reads (Pure.pure v : Run Cur ε α) p v p := fun log => ⟨log, rfl⟩

theorem bind {m : Run Cur ε α} {f : α → Run Cur ε β} {v : α} {w : β} (hm : Reads m p v q) (hf : Reads (f v) q w r) :
    Reads (m >>= f) p w r := by
  intro log
  obtain ⟨log₁, h₁⟩ := hm log
  obtain ⟨log₂, h₂⟩ := hf log₁
  exact ⟨log₂, by rw [Run.bind_of_ok h₁, h₂]⟩

theorem ensure {c : Prop} [Decidable c] {e : ε} {f : Unit → Run Cur ε β} {w : β} (hc : c) (hf : Reads (f ()) p w q) :
    Reads (Run.ensure c e >>= f) p w q := by
  rw [Run.ensure_of_true e hc]
  exact bind (pure ()) hf

theorem peek {b : UInt8} (hat : At d p [b]) : Reads (Cur.peek d : Run Cur ε _) p (some b) p := by
  intro log
  exact ⟨log, by simp only [Cur.peek, getElem?_eq_some_iff_at.2 hat]⟩

/-- A step forward stays within the machine words. -/
theorem bump {n : Nat} (h : p + n < wordSize) : Reads (Cur.bump n : Run Cur ε Unit) p () (p + n) := by
  intro log
  refine ⟨log, ?_⟩
  simp only [Cur.bump, Nat.mod_eq_of_lt h, if_neg (Nat.not_le.2 h)]

theorem note (e : Event) : Reads (Cur.note e : Run Cur ε Unit) p () p := fun log => ⟨e :: log, rfl⟩

theorem place : Reads (Cur.place : Run Cur ε Nat) p p p := fun log => ⟨log, rfl⟩

theorem byte {e : ε} {b : UInt8} (hat : At d p [b]) (hp : p + 1 < wordSize) : Reads (Cur.byte d e) p b (p + 1) :=
  (note .read).bind ((peek hat).bind ((bump hp).bind (pure b)))

theorem content {e : Nat → ε} {s : Bytes} (hat : At d p s) (hp : p + s.length < wordSize) :
    Reads (Cur.content d s.length e) p s p := by
  refine place.bind ((note _).bind (ensure ?_ ?_))
  · rw [Nat.mod_eq_of_lt hp]
    exact hat.end_le
  · have hrange : range? d p ((p + s.length) % wordSize) = some s := by
      rw [Nat.mod_eq_of_lt hp]
      exact range?_eq_some_iff_at.2 ⟨hat, rfl⟩
    intro log
    exact ⟨log, by simp only [slice, hrange]; rfl⟩

/-- What a run that reads something returns is that. -/
theorem eq {m : Run Cur ε α} {v w : α} {c c' : Cur} (h : Reads m c.pos v q) (hm : m c = (.ok w, c')) : w = v ∧ c'.pos = q := by
  obtain ⟨log', heq⟩ := h c.log
  have hc : m c = (.ok v, ⟨q, log'⟩) := heq
  rw [hc, Prod.mk.injEq, Outcome.ok.injEq] at hm
  exact ⟨hm.1.symm, by rw [← hm.2]⟩

end Reads

/-- From place `p`, `m` returns an error. -/
def Fails {α : Type} (m : Run Cur ε α) (p : Nat) : Prop := ∀ log, ∃ e c, m ⟨p, log⟩ = (.err e, c)

namespace Fails

variable {α β : Type} {p q : Nat}

theorem bind {m : Run Cur ε α} (f : α → Run Cur ε β) (hm : Fails m p) : Fails (m >>= f) p := by
  intro log
  obtain ⟨e, c, h⟩ := hm log
  exact ⟨e, c, Run.bind_of_err h⟩

/-- The second of two steps fails. -/
theorem after {m : Run Cur ε α} {f : α → Run Cur ε β} {v : α} (hm : Reads m p v q) (hf : Fails (f v) q) : Fails (m >>= f) p := by
  intro log
  obtain ⟨log', h⟩ := hm log
  obtain ⟨e, c, h'⟩ := hf log'
  exact ⟨e, c, by rw [Run.bind_of_ok h, h']⟩

theorem ensure {c : Prop} [Decidable c] {e : ε} (hc : ¬c) : Fails (Run.ensure c e : Run Cur ε Unit) p := by
  intro log
  exact ⟨e, _, by rw [Run.ensure_of_false e hc, Run.fail_apply]⟩

/-- There is no byte at the end of the data. -/
theorem byte {e : ε} (hp : d.length ≤ p) : Fails (Cur.byte d e) p := by
  have hpeek : Reads (Cur.peek d : Run Cur ε _) p none p := by
    intro log
    exact ⟨log, by simp only [Cur.peek, List.getElem?_eq_none hp]⟩
  exact after (.note .read) (after hpeek fun log => ⟨e, _, rfl⟩)

end Fails

end Cur

end Prog
