import FdoUefi.Lemmas.FrontEnds

/-!
# The two front ends for signed envelopes

Where both parsers accept, they return the same strings and check a signature over the same message. They may see two algorithms in
one protected header. The firmware code reads every label and every value as an integer, so that it goes on inside a value that has
content behind its head; and it goes on where the scan of `cose.rs` has given up, so that it may find an algorithm there. Where neither
scan leaves the items of the header, the second is all that can part them (`frontEnds_agree_iff`).
-/

namespace FdoUefi

open Prog Prog.Run Cbor

/-- The two parsers, where both accept, return the same, and the firmware code checks the Sig_structure of `cose.rs`. -/
def FrontEndsAgree (fuel : Nat) (d : Bytes) : Prop :=
  ∀ s s', parseCoseSign1 d = .ok s → (Fw.parseCoseSign1 fuel d Cur.start).1 = .ok s' →
    s'.protectedHeader = s.protectedHeader ∧ s'.payload = s.payload ∧ s'.signature = s.signature ∧ s'.algorithm = s.algorithm ∧
      Fw.sigStructure s' = buildSigStructure s.protectedHeader [] s.payload

/-- The integer that a head stands for, as 64 bits hold it. -/
def headInt (h : Head) : Option Int :=
  if major h.initial = 0 then some (asI64 h.arg) else if major h.initial = 1 then some (-1 - asI64 h.arg) else none

/-- What a reader of integers finds at `p`, and where it then stands: a head with additional information below `w`, a byte that does not
start a complete head, or the end. The reader of `cose.rs` knows arguments of at most four bytes (`w = 27`), that of the firmware code
also those of eight (`w = 28`). -/
inductive IntAt (d : Bytes) (w : Nat) : Nat → Option Int → Nat → Prop where
  | head {p : Nat} (k : Head) (hk : additional k.initial < w) (hat : At d p k.bytes) : IntAt d w p (headInt k) (p + k.bytes.length)
  | noHead {p : Nat} (b : UInt8) (hat : At d p [b])
      (hno : ∀ k : Head, k.initial = b → additional k.initial < 28 → ¬At d p k.bytes) : IntAt d w p none (p + 1)
  | missing {p : Nat} (hp : d.length ≤ p) : IntAt d w p none p

/-- If a complete head stands at `q`, it is a whole item. -/
def HeadOnly (d : Bytes) (q : Nat) : Prop :=
  ∀ k : Head, additional k.initial < 28 → At d q k.bytes → Item (fun _ => True) k.bytes

/-- The entries that the firmware code comes to from `p` on, `n` of them announced: no value but the last has content behind its
head, and an algorithm that is found satisfies `P`. -/
inductive LateEntries (d : Bytes) (P : Int → Prop) : Nat → Nat → Prop where
  | done (p : Nat) : LateEntries d P 0 p
  | alg {n p q r : Nat} {a : Int} (hl : IntAt d 28 p (some 1) q) (hv : IntAt d 28 q (some a) r) (ha : P a) : LateEntries d P (n + 1) p
  | entry {n p q r : Nat} {label val : Option Int} (hl : IntAt d 28 p label q) (hv : IntAt d 28 q val r)
      (hno : label ≠ some 1 ∨ val = none) (hhead : n = 0 ∨ HeadOnly d q) (hr : LateEntries d P n r) : LateEntries d P (n + 1) p

/-- The scan of `cose.rs` gives up at the entry at `p`, which `n` others are announced to follow: label 1 has no integer that it
reads, another label is not followed by an item that it steps over, or the entry is the last and has not label 1. -/
inductive GivesUp (d : Bytes) (p : Nat) : Nat → Prop where
  | noInteger {n q : Nat} (hl : IntAt d 27 p (some 1) q) (hno : ∀ a r, ¬IntAt d 27 q (some a) r) : GivesUp d p n
  | noItem {n q : Nat} {label : Option Int} (hl : IntAt d 27 p label q) (hone : label ≠ some 1)
      (hno : ∀ u, Item Head.Narrow u → ¬At d q u) : GivesUp d p n
  | last (hone : ∀ q, ¬IntAt d 27 p (some 1) q) : GivesUp d p 0

/-- The entries of a protected header from `p` on, `n` of them announced: as long as both scans go on, the head of every value is a
whole item; both find the algorithm, or that of `cose.rs` gives up and the firmware code goes on alone. -/
inductive HeaderEntries (d : Bytes) (P : Int → Prop) : Nat → Nat → Prop where
  | done (p : Nat) : HeaderEntries d P 0 p
  | alg {n p q r : Nat} {a : Int} (hl : IntAt d 27 p (some 1) q) (hv : IntAt d 27 q (some a) r) : HeaderEntries d P (n + 1) p
  | givesUp {n p : Nat} (h : GivesUp d p n) (hrest : LateEntries d P (n + 1) p) : HeaderEntries d P (n + 1) p
  | entry {n p q : Nat} {label : Option Int} (v : Head) (hl : IntAt d 27 p label q) (hone : label ≠ some 1)
      (hv : Item Head.Narrow v.bytes) (hat : At d q v.bytes) (hr : HeaderEntries d P n (q + v.bytes.length)) :
      HeaderEntries d P (n + 1) p

/-- Neither scan leaves the items of the protected header, if that is a map, and an algorithm that only the firmware code finds
satisfies `P`. A number of entries that takes eight bytes is too long for `cose.rs`. -/
def ReadsItems (P : Int → Prop) (header : Bytes) : Prop :=
  ∀ k : Head, k.IsMajor 5 → additional k.initial < 28 → At header 0 k.bytes →
    if additional k.initial < 27 then HeaderEntries header P k.arg k.bytes.length else LateEntries header P k.arg k.bytes.length

/-- Neither scan leaves the items of the protected header. -/
def StaysInItems (header : Bytes) : Prop := ReadsItems (fun _ => True) header

/-- Neither scan leaves the items, and where `cose.rs` has given up, the firmware code finds no algorithm but 0. -/
def NoLateAlgorithm (header : Bytes) : Prop := ReadsItems (fun a => asI32 a = 0) header

namespace Aux

variable {d : Bytes} {p : Nat}

/-! ### The readers of `cose.rs` -/

/-- An argument that cannot be read leaves the cursor where it is. -/
theorem cose_arg_of_not_ok {ai : Nat} (h : ∀ v q, cborReadUintArg d ai p ≠ (.ok v, q)) : cborReadUintArg d ai p = (.err (), p) := by
  have htake : ∀ n (f : Bytes → Nat), (∀ v q, (take d n >>= fun b => pure (f b)) p ≠ (.ok v, q)) →
      (take d n >>= fun b => pure (f b)) p = (.err (), p) := by
    intro n f hno
    cases hr : range? d p (p + n) with
    | none => exact bind_of_err (by simp only [take, hr])
    | some u => exact absurd (bind_of_ok (by simp only [take, hr])) (hno (f u) (p + n))
  unfold cborReadUintArg at h ⊢
  by_cases h23 : ai ≤ 23
  · rw [if_pos h23] at h
    exact absurd rfl (h ai p)
  · rw [if_neg h23] at h ⊢
    by_cases h24 : ai = 24
    · rw [if_pos h24] at h ⊢
      cases hb : d[p]? with
      | none => exact bind_of_err (by simp only [next, hb])
      | some b => exact absurd (bind_of_ok (by simp only [next, hb])) (h b.toNat (p + 1))
    · rw [if_neg h24] at h ⊢
      by_cases h25 : ai = 25
      · rw [if_pos h25] at h ⊢
        exact htake 2 beNat h
      · rw [if_neg h25] at h ⊢
        by_cases h26 : ai = 26
        · rw [if_pos h26] at h ⊢
          exact htake 4 beNat h
        · rw [if_neg h26]
          rfl

/-- At the end of the header there is no byte. -/
theorem cose_next_at_end (hp : d.length ≤ p) : next d p = (.err (), p) := by
  simp only [next, List.getElem?_eq_none hp]

/-- An integer with an argument of four bytes fits in 64 bits. -/
theorem asI64_of_narrow {k : Head} (hk : additional k.initial < 27) : asI64 (k.arg : Int) = k.arg := by
  have hlt := narrow_arg_lt hk
  simp only [asI64, Int.bmod_def]
  split <;> omega

/-- What `cbor_read_int_value` finds. -/
theorem cose_int {o : Option Int} {q : Nat} (h : IntAt d 27 p o q) :
    cborReadIntValue d p = (o.elim (.err ()) .ok, q) := by
  cases h with
  | head k hk hat =>
    rw [cborReadIntValue, bind_of_ok (next_of_head hat), bind_of_ok (cborReadUintArg_of_head hk hat), headInt, asI64_of_narrow hk]
    by_cases h0 : major k.initial = 0
    · rw [if_pos h0, if_pos h0]
      rfl
    · rw [if_neg h0, if_neg h0]
      by_cases h1 : major k.initial = 1
      · rw [if_pos h1, if_pos h1]
        rfl
      · rw [if_neg h1, if_neg h1]
        rfl
  | noHead b hat hno =>
    have hnext : next d p = (.ok b, p + 1) := next_ok_iff.2 ⟨hat, rfl⟩
    have harg : cborReadUintArg d (additional b) (p + 1) = (.err (), p + 1) := by
      refine cose_arg_of_not_ok ?_
      intro v q hok
      obtain ⟨k, rfl, h27, hkat, -⟩ := cborHead_ok hnext hok
      exact hno k rfl (by omega) hkat
    rw [cborReadIntValue, bind_of_ok hnext, bind_of_err harg]
    rfl
  | missing hp =>
    rw [cborReadIntValue, bind_of_err (cose_next_at_end hp)]
    rfl

/-- An integer that `cbor_read_int_value` returns stands there. -/
theorem cose_int_ok {a : Int} {q : Nat} (h : cborReadIntValue d p = (.ok a, q)) : IntAt d 27 p (some a) q := by
  simp only [cborReadIntValue, bind_ok_iff] at h
  obtain ⟨b, t, hb, n, r, harg, h⟩ := h
  obtain ⟨k, rfl, h27, hat, rfl, rfl⟩ := cborHead_ok hb harg
  have hint : headInt k = some a ∧ q = p + k.bytes.length := by
    rw [headInt, asI64_of_narrow h27]
    split_ifs at h ⊢
    · obtain ⟨rfl, rfl⟩ := pure_ok_iff.1 h
      exact ⟨rfl, rfl⟩
    · obtain ⟨rfl, rfl⟩ := pure_ok_iff.1 h
      exact ⟨rfl, rfl⟩
    · cases h
  obtain ⟨hint, rfl⟩ := hint
  rw [← hint]
  exact .head k h27 hat

/-- A label is read as what stands there. -/
theorem cose_label {o : Option Int} {q : Nat} (h : IntAt d 27 p o q) :
    (attempt (cborReadIntValue d) : Run Nat Unit _) p = (.ok o, q) := by
  have hrun := cose_int h
  cases o with
  | none => simp only [attempt, hrun, Option.elim_none]
  | some i => simp only [attempt, hrun, Option.elim_some]

/-- The value of the algorithm is read as what stands there, or 0 when it is no integer. -/
theorem cose_alg_value {o : Option Int} {q : Nat} (h : IntAt d 27 p o q) :
    otherwise 0 (cborReadIntValue d) p = (.ok (o.getD 0), q) := by
  have hrun := cose_int h
  cases o with
  | none => simp only [otherwise, hrun, Option.elim_none, Option.getD_none]
  | some i => simp only [otherwise, hrun, Option.elim_some, Option.getD_some]

/-- A bare value is skipped. -/
theorem cose_skip_of_bare {v : Head} (hv : Item Head.Narrow v.bytes) (hat : At d p v.bytes) :
    (attempt (cborSkip d) : Run Nat Unit _) p = (.ok (some ()), p + v.bytes.length) := by
  simp only [attempt, cborSkip_of_narrow hat hv]

/-- At the end of the header nothing is. -/
theorem cose_skip_at_end (hp : d.length ≤ p) : (attempt (cborSkip d) : Run Nat Unit _) p = (.ok none, p) := by
  have hskip : cborSkip d p = (.err (), p) := by rw [cborSkip, cborSkipTo, bind_of_err (cose_next_at_end hp)]
  simp only [attempt, hskip]

/-- The scan of `parse_protected_alg` does not fail: what it cannot read ends it. -/
theorem cose_loop_ne_err {n q : Nat} : parseProtectedAlgLoop d n p ≠ (.err (), q) := by
  induction n generalizing p with
  | zero => exact fun h => by cases h
  | succ n ih =>
    intro h
    rw [parseProtectedAlgLoop] at h
    rcases bind_err_iff.1 h with hkey | ⟨key, p₁, -, h⟩
    · exact attempt_ne_err hkey
    · by_cases hone : key = some 1
      · rw [if_pos hone] at h
        rcases bind_err_iff.1 h with hval | ⟨v, p₂, -, h⟩
        · exact otherwise_ne_err hval
        · cases h
      · rw [if_neg hone] at h
        rcases bind_err_iff.1 h with hskip | ⟨o, p₂, -, h⟩
        · exact attempt_ne_err hskip
        · cases o with
          | none => cases h
          | some u => exact ih h

/-! ### The readers of the firmware code -/

/-- An argument that cannot be read leaves the cursor where it is. -/
theorem fw_arg_of_not_ok {ai : Nat} {c : Cur} (h : ∀ v c', Fw.cborReadUintArg d ai c ≠ (.ok v, c')) :
    Fw.cborReadUintArg d ai c = (.err (), c) := by
  have hbytes : ∀ k, (∀ v c', Fw.argBytes d k c ≠ (.ok v, c')) → Fw.argBytes d k c = (.err (), c) := by
    intro k hno
    have hplace : (Cur.place : Fw.R Nat) c = (.ok c.pos, c) := rfl
    rw [Fw.argBytes, bind_of_ok hplace] at hno ⊢
    cases hr : range? d c.pos (c.pos + k) with
    | none => rfl
    | some u =>
      rw [hr] at hno
      exact absurd rfl (hno (beNat u) _)
  unfold Fw.cborReadUintArg at h ⊢
  split
  · next h24 =>
    rw [if_pos h24] at h
    exact absurd rfl (h ai c)
  · next h24 =>
    rw [if_neg h24] at h
    split
    · next hai =>
      rw [if_pos hai] at h
      exact hbytes 1 h
    · next hai =>
      rw [if_neg hai] at h
      split
      · next hai =>
        rw [if_pos hai] at h
        exact hbytes 2 h
      · next hai =>
        rw [if_neg hai] at h
        split
        · next hai =>
          rw [if_pos hai] at h
          exact hbytes 4 h
        · next hai =>
          rw [if_neg hai] at h
          split
          · next hai =>
            rw [if_pos hai] at h
            exact hbytes 8 h
          · rfl

/-- At the end of the header there is no initial byte. -/
theorem fw_initial_at_end {c : Cur} (hc : d.length ≤ c.pos) : Fw.initial d c = (.err (), ⟨c.pos, .read :: c.log⟩) := by
  have hpeek : (Cur.peek d : Fw.R _) ⟨c.pos, .read :: c.log⟩ = (.ok none, ⟨c.pos, .read :: c.log⟩) := by
    simp only [Cur.peek, List.getElem?_eq_none hc]
  rw [Fw.initial, Cur.byte, Cur.note, bind_of_ok (modifyS_apply _ _), bind_of_ok hpeek]
  rfl

/-- A byte that stands there is read. -/
theorem fw_initial_at (hd : d.length ≤ sliceMax) {b : UInt8} {c : Cur} (hat : At d c.pos [b]) :
    ∃ log, Fw.initial d c = (.ok b, ⟨c.pos + 1, log⟩) := by
  have hend := hat.end_le
  simp only [sliceMax, List.length_singleton] at hd hend
  exact Cur.Reads.byte (e := ()) hat (by unfold wordSize; omega) c.log

/-- What `cbor_read_int_value` finds. -/
theorem fw_int (hd : d.length ≤ sliceMax) {w : Nat} (hw : w ≤ 28) {o : Option Int} {q : Nat} {c : Cur} (h : IntAt d w p o q)
    (hc : c.pos = p) : ∃ c', c'.pos = q ∧ Fw.cborReadIntValue d c = (o.elim (.err ()) .ok, c') := by
  cases h with
  | head k hk hat =>
    have hend := hat.end_le
    have hk' : At d c.pos ([k.initial] ++ k.tail) := by rw [hc]; exact hat
    obtain ⟨log₁, hinit⟩ := fw_initial_at hd (at_append_iff.1 hk').1
    obtain ⟨log₂, harg⟩ := Fw.cborReadUintArg_reads hat (by omega) (by simp only [sliceMax, wordSize] at hd ⊢; omega) log₁
    refine ⟨⟨p + k.bytes.length, log₂⟩, rfl, ?_⟩
    rw [hc] at hinit
    rw [Fw.cborReadIntValue, bind_of_ok hinit, bind_of_ok harg, headInt]
    by_cases h0 : major k.initial = 0
    · rw [if_pos h0]
      simp only [if_pos h0]
      rfl
    · rw [if_neg h0]
      by_cases h1 : major k.initial = 1
      · simp only [if_neg h0, if_pos h1]
        rfl
      · simp only [if_neg h0, if_neg h1]
        rfl
  | noHead b hat hno =>
    rw [← hc] at hat hno
    obtain ⟨log, hinit⟩ := fw_initial_at hd hat
    have harg : Fw.cborReadUintArg d (additional b) ⟨c.pos + 1, log⟩ = (.err (), ⟨c.pos + 1, log⟩) := by
      refine fw_arg_of_not_ok ?_
      intro v c' hok
      obtain ⟨k, rfl, h28, -, hkat, -⟩ := Fw.head_ok hd hinit hok
      exact hno k rfl h28 hkat
    refine ⟨⟨c.pos + 1, log⟩, by rw [hc], ?_⟩
    rw [Fw.cborReadIntValue, bind_of_ok hinit, bind_of_err harg]
    rfl
  | missing hp =>
    rw [← hc] at hp
    refine ⟨⟨c.pos, .read :: c.log⟩, hc, ?_⟩
    rw [Fw.cborReadIntValue, bind_of_err (fw_initial_at_end hp)]
    rfl

/-- An integer, or something else, is read as what stands there. -/
theorem fw_attempt (hd : d.length ≤ sliceMax) {w : Nat} (hw : w ≤ 28) {o : Option Int} {q : Nat} {c : Cur} (h : IntAt d w p o q)
    (hc : c.pos = p) : ∃ c', c'.pos = q ∧ (attempt (Fw.cborReadIntValue d) : Fw.R _) c = (.ok o, c') := by
  obtain ⟨c', hc', hrun⟩ := fw_int hd hw h hc
  refine ⟨c', hc', ?_⟩
  cases o with
  | none => simp only [attempt, hrun, Option.elim_none]
  | some i => simp only [attempt, hrun, Option.elim_some]

/-- A value whose head is the whole item is stepped over. -/
theorem fw_bare_value (hd : d.length ≤ sliceMax) {v : Head} {q : Nat} {c : Cur} (hv : Item Head.Narrow v.bytes) (hat : At d q v.bytes)
    (hc : c.pos = q) : ∃ val c', c'.pos = q + v.bytes.length ∧ (attempt (Fw.cborReadIntValue d) : Fw.R _) c = (.ok val, c') := by
  obtain ⟨v', rest, hnarrow, hbytes, -⟩ := hv.exists_head
  obtain ⟨rfl, -⟩ := Head.append_inj (r := []) ((List.append_nil _).trans hbytes)
  by_cases h27 : additional v.initial < 27
  · obtain ⟨c', hc', hrun⟩ := fw_attempt hd (w := 27) (by decide) (.head v h27 hat) hc
    exact ⟨_, c', hc', hrun⟩
  · have h7 : major v.initial = 7 := hnarrow.resolve_right h27
    have hv' : At d c.pos ([v.initial] ++ v.tail) := by rw [hc]; exact hat
    have hlen := v.bytes_length
    by_cases h28 : additional v.initial < 28
    · have hend := hat.end_le
      obtain ⟨log₁, hinit⟩ := fw_initial_at hd (at_append_iff.1 hv').1
      obtain ⟨log₂, harg⟩ := Fw.cborReadUintArg_reads hat h28 (by simp only [sliceMax, wordSize] at hd ⊢; omega) log₁
      rw [← hc] at harg
      have hrun : Fw.cborReadIntValue d c = (.err (), ⟨c.pos + v.bytes.length, log₂⟩) := by
        rw [Fw.cborReadIntValue, bind_of_ok hinit, bind_of_ok harg]
        simp only [h7]
        rfl
      exact ⟨none, ⟨c.pos + v.bytes.length, log₂⟩, by rw [hc], by simp only [attempt, hrun]⟩
    · have hext : extLen (additional v.initial) = 0 := by
        unfold extLen
        split <;> omega
      have hnone : IntAt d 28 c.pos none (c.pos + 1) :=
        .noHead v.initial (at_append_iff.1 hv').1 fun k hk hk28 => absurd (hk ▸ hk28) h28
      obtain ⟨c', hc', hrun⟩ := fw_attempt hd le_rfl hnone rfl
      exact ⟨none, c', by omega, hrun⟩

/-- The scan of `parse_protected_header_alg` does not fail. -/
theorem fw_loop_ne_err {n : Nat} {c c' : Cur} : Fw.protectedHeaderAlgLoop d n c ≠ (.err (), c') := by
  induction n generalizing c with
  | zero => exact fun h => by cases h
  | succ n ih =>
    intro h
    rw [Fw.protectedHeaderAlgLoop] at h
    rcases bind_err_iff.1 h with hkey | ⟨key, c₁, -, h⟩
    · exact attempt_ne_err hkey
    · rcases bind_err_iff.1 h with hval | ⟨val, c₂, -, h⟩
      · exact attempt_ne_err hval
      · cases key with
        | none => exact ih h
        | some k =>
          cases val with
          | none => exact ih h
          | some v =>
            by_cases hone : k = 1
            · simp only [if_pos hone] at h
              cases h
            · simp only [if_neg hone] at h
              exact ih h

/-! ### One entry -/

/-- What the scan of `parse_protected_alg` does with an entry that is not the algorithm. -/
theorem cose_loop_entry {n q : Nat} {label : Option Int} (hl : IntAt d 27 p label q) (hone : label ≠ some 1) :
    parseProtectedAlgLoop d (n + 1) p = (do
      match ← attempt (cborSkip d) with
      | none => return 0
      | some () => parseProtectedAlgLoop d n : Run Nat Unit Int) q := by
  refine (bind_of_ok (cose_label hl)).trans ?_
  exact congrArg (fun m : Run Nat Unit Int => m q) (if_neg hone)

/-- What the scan of `parse_protected_alg` does with the algorithm. -/
theorem cose_loop_alg {n q r : Nat} {o : Option Int} (hl : IntAt d 27 p (some 1) q) (hv : IntAt d 27 q o r) :
    parseProtectedAlgLoop d (n + 1) p = (.ok (asI32 (o.getD 0)), r) := by
  rw [parseProtectedAlgLoop, bind_of_ok (cose_label hl), if_pos rfl, bind_of_ok (cose_alg_value hv)]
  rfl

/-- What the scan of `parse_protected_header_alg` does with an entry whose label and value are `label` and `val` for it. -/
theorem fw_loop_entry {n : Nat} {label val : Option Int} {c c₁ c₂ : Cur}
    (hkey : (attempt (Fw.cborReadIntValue d) : Fw.R _) c = (.ok label, c₁))
    (hval : (attempt (Fw.cborReadIntValue d) : Fw.R _) c₁ = (.ok val, c₂)) (hno : label ≠ some 1 ∨ val = none) :
    Fw.protectedHeaderAlgLoop d (n + 1) c = Fw.protectedHeaderAlgLoop d n c₂ := by
  rw [Fw.protectedHeaderAlgLoop, bind_of_ok hkey, bind_of_ok hval]
  cases label with
  | none => rfl
  | some k =>
    cases val with
    | none => rfl
    | some v =>
      have hk : k ≠ 1 := by
        rintro rfl
        simp at hno
      simp only [if_neg hk]

/-- Behind the end of the header the scan of `parse_protected_alg` finds nothing. -/
theorem cose_loop_at_end {n : Nat} (hp : d.length ≤ p) : parseProtectedAlgLoop d n p = (.ok 0, p) := by
  cases n with
  | zero => rfl
  | succ n =>
    rw [cose_loop_entry (.missing hp) (by simp), bind_of_ok (cose_skip_at_end hp)]
    rfl

/-- Where the scan of `parse_protected_alg` gives up, it returns 0. -/
theorem cose_loop_givesUp {n q : Nat} {a : Int} (h : GivesUp d p n) (hrun : parseProtectedAlgLoop d (n + 1) p = (.ok a, q)) :
    a = 0 := by
  cases h with
  | @noInteger n t hl hno =>
    rw [parseProtectedAlgLoop, bind_of_ok (cose_label hl), if_pos rfl] at hrun
    obtain ⟨v, r, hval, hrun⟩ := bind_ok_iff.1 hrun
    rcases otherwise_ok_iff.1 hval with hint | ⟨rfl, -⟩
    · exact absurd (cose_int_ok hint) (hno v r)
    · exact (pure_ok_iff.1 hrun).1
  | @noItem n t label hl hone hno =>
    rw [cose_loop_entry hl hone] at hrun
    obtain ⟨o, r, hskip, hrun⟩ := bind_ok_iff.1 hrun
    rcases attempt_ok_iff.1 hskip with ⟨u, rfl, hitem⟩ | ⟨rfl, -⟩
    · by_cases hr : r ≤ d.length
      · obtain ⟨v, hat, hv, -⟩ := cborSkip_item hitem hr
        exact absurd hat (hno v hv)
      · rw [cose_loop_at_end (by omega)] at hrun
        exact ((Prod.mk.inj hrun).1 |> Outcome.ok.inj).symm
    · exact (pure_ok_iff.1 hrun).1
  | last hone =>
    rw [parseProtectedAlgLoop] at hrun
    obtain ⟨key, t, hkey, hrun⟩ := bind_ok_iff.1 hrun
    by_cases hlabel : key = some 1
    · subst hlabel
      rcases attempt_ok_iff.1 hkey with ⟨i, hi, hint⟩ | ⟨hnone, -⟩
      · obtain rfl := Option.some.inj hi
        exact absurd (cose_int_ok hint) (hone t)
      · cases hnone
    · rw [if_neg hlabel] at hrun
      obtain ⟨o, r, -, hrun⟩ := bind_ok_iff.1 hrun
      cases o with
      | none => exact (pure_ok_iff.1 hrun).1
      | some u => exact (pure_ok_iff.1 hrun).1

/-! ### The two scans -/

variable {P : Int → Prop}

/-- Alone, the firmware code finds the algorithm 0 when it may find no other. -/
theorem late_zero (hd : d.length ≤ sliceMax) {n : Nat} {a : Int} {c c' : Cur} (h : LateEntries d (fun a => asI32 a = 0) n p)
    (hc : c.pos = p) (hfw : Fw.protectedHeaderAlgLoop d n c = (.ok a, c')) : a = 0 := by
  induction h generalizing c with
  | done p => exact (pure_ok_iff.1 hfw).1
  | alg hl hv ha =>
    obtain ⟨c₁, hc₁, hkey⟩ := fw_attempt hd le_rfl hl hc
    obtain ⟨c₂, -, hval⟩ := fw_attempt hd le_rfl hv hc₁
    rw [Fw.protectedHeaderAlgLoop, bind_of_ok hkey, bind_of_ok hval] at hfw
    exact (pure_ok_iff.1 hfw).1.trans ha
  | entry hl hv hno _ _ ih =>
    obtain ⟨c₁, hc₁, hkey⟩ := fw_attempt hd le_rfl hl hc
    obtain ⟨c₂, hc₂, hval⟩ := fw_attempt hd le_rfl hv hc₁
    rw [fw_loop_entry hkey hval hno] at hfw
    exact ih hc₂ hfw

/-- When the firmware code alone finds 0, it may find no other. -/
theorem late_of_zero (hd : d.length ≤ sliceMax) {n : Nat} {c c' : Cur} (h : LateEntries d P n p) (hc : c.pos = p)
    (hfw : Fw.protectedHeaderAlgLoop d n c = (.ok 0, c')) : LateEntries d (fun a => asI32 a = 0) n p := by
  induction h generalizing c with
  | done p => exact .done p
  | alg hl hv _ =>
    obtain ⟨c₁, hc₁, hkey⟩ := fw_attempt hd le_rfl hl hc
    obtain ⟨c₂, -, hval⟩ := fw_attempt hd le_rfl hv hc₁
    rw [Fw.protectedHeaderAlgLoop, bind_of_ok hkey, bind_of_ok hval] at hfw
    exact .alg hl hv (pure_ok_iff.1 hfw).1.symm
  | entry hl hv hno hhead _ ih =>
    obtain ⟨c₁, hc₁, hkey⟩ := fw_attempt hd le_rfl hl hc
    obtain ⟨c₂, hc₂, hval⟩ := fw_attempt hd le_rfl hv hc₁
    rw [fw_loop_entry hkey hval hno] at hfw
    exact .entry hl hv hno hhead (ih hc₂ hfw)

/-- Both scans come to the same algorithm, if only 0 is found by the firmware code alone. -/
theorem loops_agree (hd : d.length ≤ sliceMax) {n q : Nat} {a a' : Int} {c c' : Cur}
    (h : HeaderEntries d (fun a => asI32 a = 0) n p) (hc : c.pos = p) (hcose : parseProtectedAlgLoop d n p = (.ok a, q))
    (hfw : Fw.protectedHeaderAlgLoop d n c = (.ok a', c')) : a' = a := by
  induction h generalizing c with
  | done p => exact (pure_ok_iff.1 hfw).1.trans (pure_ok_iff.1 hcose).1.symm
  | alg hl hv =>
    rw [cose_loop_alg hl hv] at hcose
    obtain ⟨c₁, hc₁, hkey⟩ := fw_attempt hd (by decide) hl hc
    obtain ⟨c₂, -, hval⟩ := fw_attempt hd (by decide) hv hc₁
    rw [Fw.protectedHeaderAlgLoop, bind_of_ok hkey, bind_of_ok hval] at hfw
    obtain ⟨rfl, -⟩ := pure_ok_iff.1 hfw
    exact (Prod.mk.inj hcose).1 |> Outcome.ok.inj
  | givesUp hgives hrest => rw [late_zero hd hrest hc hfw, cose_loop_givesUp hgives hcose]
  | entry v hl hone hv hat _ ih =>
    rw [cose_loop_entry hl hone, bind_of_ok (cose_skip_of_bare hv hat)] at hcose
    obtain ⟨c₁, hc₁, hkey⟩ := fw_attempt hd (by decide) hl hc
    obtain ⟨val, c₂, hc₂, hval⟩ := fw_bare_value hd hv hat hc₁
    rw [fw_loop_entry hkey hval (.inl hone)] at hfw
    exact ih hc₂ hcose hfw

/-- When both scans come to the same algorithm, the firmware code alone finds 0 only. -/
theorem entries_of_agree (hd : d.length ≤ sliceMax) {n q : Nat} {a : Int} {c c' : Cur} (h : HeaderEntries d P n p) (hc : c.pos = p)
    (hcose : parseProtectedAlgLoop d n p = (.ok a, q)) (hfw : Fw.protectedHeaderAlgLoop d n c = (.ok a, c')) :
    HeaderEntries d (fun a => asI32 a = 0) n p := by
  induction h generalizing c with
  | done p => exact .done p
  | alg hl hv => exact .alg hl hv
  | givesUp hgives hrest =>
    obtain rfl := cose_loop_givesUp hgives hcose
    exact .givesUp hgives (late_of_zero hd hrest hc hfw)
  | entry v hl hone hv hat _ ih =>
    rw [cose_loop_entry hl hone, bind_of_ok (cose_skip_of_bare hv hat)] at hcose
    obtain ⟨c₁, hc₁, hkey⟩ := fw_attempt hd (by decide) hl hc
    obtain ⟨val, c₂, hc₂, hval⟩ := fw_bare_value hd hv hat hc₁
    rw [fw_loop_entry hkey hval (.inl hone)] at hfw
    exact .entry v hl hone hv hat (ih hc₂ hcose hfw)

/-! ### The heads of the map -/

/-- `parse_protected_alg` scans the entries behind the head of a map, if it can read that. -/
theorem cose_header {header : Bytes} {k : Head} (hm : k.IsMajor 5) (h28 : additional k.initial < 28) (hat : At header 0 k.bytes)
    {a : Int} (h : parseProtectedAlg header = .ok a) :
    (additional k.initial < 27 ∧ ∃ q, parseProtectedAlgLoop header k.arg k.bytes.length = (.ok a, q)) ∨
      ¬additional k.initial < 27 ∧ a = 0 := by
  have hm5 : major k.initial = 5 := hm
  by_cases h27 : additional k.initial < 27
  · left
    refine ⟨h27, ?_⟩
    rcases otherwise_ok_iff.1 (eq_of_fst h) with hrun | ⟨-, e, hrun⟩
    · rw [bind_of_ok (next_of_head hat), ensure_of_true () hm5, pure_bind, bind_of_ok (cborReadUintArg_of_head h27 hat),
        Nat.zero_add] at hrun
      exact ⟨_, hrun⟩
    · rw [bind_of_ok (next_of_head hat), ensure_of_true () hm5, pure_bind, bind_of_ok (cborReadUintArg_of_head h27 hat)] at hrun
      exact absurd hrun cose_loop_ne_err
  · right
    refine ⟨h27, ?_⟩
    rcases otherwise_ok_iff.1 (eq_of_fst h) with hrun | ⟨rfl, -⟩
    · simp only [bind_ok_iff, ensure_ok_iff] at hrun
      obtain ⟨b, t, hb, _, _, ⟨-, rfl⟩, n, q, harg, -⟩ := hrun
      obtain ⟨k', rfl, h27', hat', -⟩ := cborHead_ok hb harg
      obtain rfl := Head.unique hat' hat
      exact absurd h27' h27
    · rfl

/-- `parse_protected_header_alg` scans them behind every head. -/
theorem fw_header {header : Bytes} (hd : header.length ≤ sliceMax) {k : Head} (hm : k.IsMajor 5) (h28 : additional k.initial < 28)
    (hat : At header 0 k.bytes) {a : Int} {c c' : Cur} (hc : c.pos = 0) (h : Fw.parseProtectedHeaderAlg header c = (.ok a, c')) :
    ∃ c₁, c₁.pos = k.bytes.length ∧ Fw.protectedHeaderAlgLoop header k.arg c₁ = (.ok a, c') := by
  have hm5 : major k.initial = 5 := hm
  have hend := hat.end_le
  have hlen := k.bytes_length
  have hnil : header ≠ [] := by
    rintro rfl
    rw [List.length_nil] at hend
    omega
  have hkat : At header c.pos ([k.initial] ++ k.tail) := by rw [hc]; exact hat
  obtain ⟨log₁, hinit⟩ := fw_initial_at hd (at_append_iff.1 hkat).1
  obtain ⟨log₂, harg⟩ := Fw.cborReadUintArg_reads hat h28 (by simp only [sliceMax, wordSize] at hd ⊢; omega) log₁
  rw [hc] at hinit
  rw [Fw.parseProtectedHeaderAlg, if_neg hnil] at h
  rcases otherwise_ok_iff.1 h with hrun | ⟨-, e, hrun⟩
  · rw [bind_of_ok hinit, ensure_of_true () hm5, pure_bind, bind_of_ok harg] at hrun
    exact ⟨_, Nat.zero_add _, hrun⟩
  · rw [bind_of_ok hinit, ensure_of_true () hm5, pure_bind, bind_of_ok harg] at hrun
    exact absurd hrun fw_loop_ne_err

/-- Where no map starts, both return 0. -/
theorem algs_zero {header : Bytes} (hd : header.length ≤ sliceMax)
    (hno : ∀ k : Head, k.IsMajor 5 → additional k.initial < 28 → ¬At header 0 k.bytes) {a a' : Int} {c c' : Cur} (hc : c.pos = 0)
    (hcose : parseProtectedAlg header = .ok a) (hfw : Fw.parseProtectedHeaderAlg header c = (.ok a', c')) :
    a = 0 ∧ a' = 0 := by
  constructor
  · rcases otherwise_ok_iff.1 (eq_of_fst hcose) with hrun | ⟨rfl, -⟩
    · simp only [bind_ok_iff, ensure_ok_iff] at hrun
      obtain ⟨b, t, hb, _, _, ⟨hm, rfl⟩, n, q, harg, -⟩ := hrun
      obtain ⟨k, rfl, h27, hat, -⟩ := cborHead_ok hb harg
      exact absurd hat (hno k hm (by omega))
    · rfl
  · rw [Fw.parseProtectedHeaderAlg] at hfw
    by_cases hnil : header = []
    · rw [if_pos hnil] at hfw
      exact (pure_ok_iff.1 hfw).1
    · rw [if_neg hnil] at hfw
      rcases otherwise_ok_iff.1 hfw with hrun | ⟨rfl, -⟩
      · simp only [bind_ok_iff, ensure_ok_iff] at hrun
        obtain ⟨b, c₁, hb, _, _, ⟨hm, rfl⟩, n, c₂, harg, -⟩ := hrun
        obtain ⟨k, rfl, h28, -, hat, -⟩ := Fw.head_ok hd hb harg
        rw [hc] at hat
        exact absurd hat (hno k hm h28)
      · rfl

/-- The two scans of one protected header in whose items both stay. -/
theorem algs_agree_iff {header : Bytes} (hd : header.length ≤ sliceMax) (hstays : StaysInItems header) {a a' : Int} {c c' : Cur}
    (hc : c.pos = 0) (hcose : parseProtectedAlg header = .ok a) (hfw : Fw.parseProtectedHeaderAlg header c = (.ok a', c')) :
    a' = a ↔ NoLateAlgorithm header := by
  constructor
  · rintro rfl k hm h28 hat
    have hk := hstays k hm h28 hat
    obtain ⟨c₁, hc₁, hloop⟩ := fw_header hd hm h28 hat hc hfw
    rcases cose_header hm h28 hat hcose with ⟨h27, q, hrun⟩ | ⟨h27, rfl⟩
    · rw [if_pos h27] at hk ⊢
      exact entries_of_agree hd hk hc₁ hrun hloop
    · rw [if_neg h27] at hk ⊢
      exact late_of_zero hd hk hc₁ hloop
  · intro hlate
    by_cases hmap : ∃ k : Head, k.IsMajor 5 ∧ additional k.initial < 28 ∧ At header 0 k.bytes
    · obtain ⟨k, hm, h28, hat⟩ := hmap
      have hk := hlate k hm h28 hat
      obtain ⟨c₁, hc₁, hloop⟩ := fw_header hd hm h28 hat hc hfw
      rcases cose_header hm h28 hat hcose with ⟨h27, q, hrun⟩ | ⟨h27, rfl⟩
      · rw [if_pos h27] at hk
        exact loops_agree hd hk hc₁ hrun hloop
      · rw [if_neg h27] at hk
        exact late_zero hd hk hc₁ hloop
    · have hno : ∀ k : Head, k.IsMajor 5 → additional k.initial < 28 → ¬At header 0 k.bytes := fun k hm h28 hat =>
        hmap ⟨k, hm, h28, hat⟩
      obtain ⟨rfl, rfl⟩ := algs_zero hd hno hc hcose hfw
      rfl

end Aux

/-- Where both parsers accept and neither scan leaves the items of the protected header, they agree on everything, and the firmware
code checks the message that `cose.rs` builds, exactly when the firmware code finds no algorithm where `cose.rs` has given up. -/
theorem frontEnds_agree_iff (d : Slice) (fuel : Nat) {s : CoseSign1} {s' : Fw.CoseSign1} (hcose : parseCoseSign1 d.bytes = .ok s)
    (hfw : (Fw.parseCoseSign1 fuel d.bytes Cur.start).1 = .ok s') (hstays : StaysInItems s.protectedHeader) :
    FrontEndsAgree fuel d.bytes ↔ NoLateAlgorithm s.protectedHeader := by
  obtain ⟨hprot, hpay, hsig, halg, log, c', halg'⟩ := sign1_agree d.fits hcose (eq_of_fst hfw)
  have hlen : s.protectedHeader.length ≤ sliceMax := by
    have hlt := (parseCoseSign1_length_lt hcose).1
    unfold sliceMax
    omega
  have hiff := Aux.algs_agree_iff hlen hstays rfl halg halg'
  constructor
  · intro hagree
    exact hiff.1 (hagree s s' hcose hfw).2.2.2.1
  · intro hlate t t' ht ht'
    obtain rfl := Outcome.ok.inj (hcose.symm.trans ht)
    obtain rfl := Outcome.ok.inj (hfw.symm.trans ht')
    refine ⟨hprot, hpay, hsig, hiff.2 hlate, ?_⟩
    rw [Fw.sigStructure_eq, hprot, hpay]

/-! ## Three headers -/

/-- An envelope with the protected header `prot` and nothing else in it. -/
def headerOnly (prot : Bytes) : Bytes := 0x84 :: (encodeBstr prot ++ [0xa0, 0x40, 0x40])

/-- Label 1 with an empty string, then a key identifier that is an integer. -/
def noAlgHeader : Bytes := [0xa2, 0x01, 0x60, 0x04, 0x05]

def noAlgEnvelope : Slice where
  bytes := headerOnly noAlgHeader
  fits := by decide

/-- The scan of `cose.rs` gives up at label 1, and the firmware code finds nothing behind it. -/
theorem noAlgEnvelope_agreed :
    (parseCoseSign1 noAlgEnvelope.bytes = .ok ⟨0, noAlgHeader, [0xa0], [], []⟩ ∧
      (Fw.parseCoseSign1 2 noAlgEnvelope.bytes Cur.start).1 = .ok ⟨0, noAlgHeader, [], []⟩) ∧
      StaysInItems noAlgHeader ∧ NoLateAlgorithm noAlgHeader ∧ FrontEndsAgree 2 noAlgEnvelope.bytes := by
  have hcose : parseCoseSign1 noAlgEnvelope.bytes = .ok ⟨0, noAlgHeader, [0xa0], [], []⟩ := by decide
  have hfw : (Fw.parseCoseSign1 2 noAlgEnvelope.bytes Cur.start).1 = .ok ⟨0, noAlgHeader, [], []⟩ := by decide
  have hbyte : ∀ {p : Nat} {b : UInt8}, noAlgHeader[p]? = some b → At noAlgHeader p [b] := getElem?_eq_some_iff_at.1
  have hread : ∀ P : Int → Prop, ReadsItems P noAlgHeader := by
    intro P k _ _ hat
    obtain rfl := Head.unique (k := ⟨0xa2, [], rfl, .inl (by decide)⟩) hat (hbyte rfl)
    have hint : ∀ {w p : Nat} {b : UInt8} {o : Option Int} (hl : 0 = extLen (additional b)) (h : additional b < 28),
        additional b < w → noAlgHeader[p]? = some b → headInt ⟨b, [], hl, .inl h⟩ = o → IntAt noAlgHeader w p o (p + 1) := by
      rintro w p b _ hl h hw hb rfl
      exact .head ⟨b, [], hl, .inl h⟩ hw (hbyte hb)
    have hone : IntAt noAlgHeader 27 1 (some 1) 2 := hint (b := 0x01) rfl (by decide) (by decide) rfl (by decide)
    have hone' : IntAt noAlgHeader 28 1 (some 1) 2 := hint (b := 0x01) rfl (by decide) (by decide) rfl (by decide)
    have hstr : IntAt noAlgHeader 28 2 none 3 := hint (b := 0x60) rfl (by decide) (by decide) rfl (by decide)
    have hkid : IntAt noAlgHeader 28 3 (some 4) 4 := hint (b := 0x04) rfl (by decide) (by decide) rfl (by decide)
    have hfive : IntAt noAlgHeader 28 4 (some 5) 5 := hint (b := 0x05) rfl (by decide) (by decide) rfl (by decide)
    have hhead : HeadOnly noAlgHeader 2 := by
      intro k _ hk
      have hempty : At noAlgHeader 2 (Head.bytes ⟨0x60, [], rfl, .inl (by decide)⟩) := hbyte rfl
      have hm : major 0x60 = 3 := by decide
      rw [Head.unique hk hempty]
      exact Items.str ⟨0x60, [], rfl, .inl (by decide)⟩ [] trivial (.inr hm) rfl .nil
    have hgives : GivesUp noAlgHeader 1 1 := by
      refine .noInteger hone ?_
      intro a r hint
      have hrun := Aux.cose_int hint
      have hno : cborReadIntValue noAlgHeader 2 = (.err (), 3) := by decide
      rw [hno] at hrun
      cases hrun
    rw [if_pos (by decide)]
    exact .givesUp hgives (.entry hone' hstr (.inr rfl) (.inr hhead)
      (.entry hkid hfive (.inl (by decide)) (.inl rfl) (.done 5)))
  have hiff := frontEnds_agree_iff noAlgEnvelope 2 hcose hfw (hread _)
  exact ⟨⟨hcose, hfw⟩, hread _, hread _, hiff.2 (hread _)⟩

/-- A key identifier of one byte, then the algorithm. -/
def kidHeader : Bytes := [0xa2, 0x04, 0x41, 0x05, 0x01, 0x26]

/-- The firmware code goes on at the content of the key identifier and reads 5 as a label and 1 as its value. -/
theorem kidEnvelope_disagrees : ¬FrontEndsAgree 2 (headerOnly kidHeader) := by
  have hcose : parseCoseSign1 (headerOnly kidHeader) = .ok ⟨-7, kidHeader, [0xa0], [], []⟩ := by decide
  have hfw : (Fw.parseCoseSign1 2 (headerOnly kidHeader) Cur.start).1 = .ok ⟨0, kidHeader, [], []⟩ := by decide
  intro h
  have halg : (0 : Int) = -7 := (h _ _ hcose hfw).2.2.2.1
  exact absurd halg (by decide)

/-- Behind a label 1 without an integer the firmware code finds the algorithm that `cose.rs` does not look for. -/
example : ((parseCoseSign1 (headerOnly [0xa2, 0x01, 0x60, 0x01, 0x26])).toOption.map CoseSign1.algorithm,
    (Fw.parseCoseSign1 2 (headerOnly [0xa2, 0x01, 0x60, 0x01, 0x26]) Cur.start).1.toOption.map Fw.CoseSign1.algorithm) =
      (some 0, some (-7)) := by decide

end FdoUefi
