import FdoUefi.Lib.Cursor

/-!
# Readers that come back

`Lands lim p Q r` says of a run `r` that was started with the cursor at `p`: it has returned to its caller, with a value or
with an error; the cursor is not before `p` and not beyond `lim`; and a value it returned satisfies `Q`. The rules follow a
reader's text. A loop is described by one turn of it (`LoopOf`): a turn goes on with a new accumulator or leaves with the
result. When each turn moves the cursor forward or leaves (`Progresses`), the loop ends after at most as many turns as there
are places.
-/

namespace Prog

open Run

variable {ε ε' α β : Type}

/-- The run that was started at `p` and ended as `r` returned, its cursor is between `p` and `lim`, and `Q` holds of the value
it returned. -/
def Lands (lim p : Nat) (Q : α → Nat → Prop) : Outcome ε α × Nat → Prop
  | (.ok a, q) => p ≤ q ∧ q ≤ lim ∧ Q a q
  | (.err _, q) => p ≤ q ∧ q ≤ lim
  | (.panic, _) => False
  | (.hang, _) => False

namespace Lands

variable {lim p q : Nat} {Q : α → Nat → Prop} {R : β → Nat → Prop}

/-- What lands comes back. -/
theorem returns {r : Outcome ε α × Nat} (h : Lands lim p Q r) : r.1.Returns := by
  obtain ⟨o, q⟩ := r
  cases o with
  | ok a => trivial
  | err e => trivial
  | panic => exact h
  | hang => exact h

/-- What is known of a value that was returned. -/
theorem of_ok {r : Outcome ε α × Nat} {a : α} (h : Lands lim p Q r) (hr : r = (.ok a, q)) : p ≤ q ∧ q ≤ lim ∧ Q a q := by
  subst hr
  exact h

/-- A run that was started further on and asks less of its value. -/
theorem mono {p' : Nat} {Q' : α → Nat → Prop} {r : Outcome ε α × Nat} (h : Lands lim p Q r) (hp : p' ≤ p)
    (hQ : ∀ a q, p ≤ q → q ≤ lim → Q a q → Q' a q) : Lands lim p' Q' r := by
  obtain ⟨o, q⟩ := r
  cases o with
  | ok a => exact ⟨hp.trans h.1, h.2.1, hQ a q h.1 h.2.1 h.2.2⟩
  | err e => exact ⟨hp.trans h.1, h.2⟩
  | panic => exact h
  | hang => exact h

/-- Where it lands may be forgotten. -/
theorem trivially {r : Outcome ε α × Nat} (h : Lands lim p Q r) : Lands lim p (fun _ _ => True) r :=
  h.mono le_rfl fun _ _ _ _ _ => trivial

/-! ## Single calls -/

theorem pure {a : α} (hpq : p ≤ q) (hq : q ≤ lim) (hQ : Q a q) : Lands lim p Q ((Pure.pure a : Run Nat ε α) q) :=
  ⟨hpq, hq, hQ⟩

theorem fail {e : ε} (hpq : p ≤ q) (hq : q ≤ lim) : Lands lim p Q ((Run.fail e : Run Nat ε α) q) := ⟨hpq, hq⟩

theorem ensure {c : Prop} [Decidable c] {e : ε} (hpq : p ≤ q) (hq : q ≤ lim) :
    Lands lim p (fun _ r => c ∧ r = q) ((Run.ensure c e : Run Nat ε Unit) q) := by
  by_cases h : c
  · rw [ensure_of_true e h]
    exact ⟨hpq, hq, h, rfl⟩
  · rw [ensure_of_false e h]
    exact ⟨hpq, hq⟩

theorem orFail {o : Option α} {e : ε} (hpq : p ≤ q) (hq : q ≤ lim) :
    Lands lim p (fun a r => o = some a ∧ r = q) ((Run.orFail o e : Run Nat ε α) q) := by
  cases o with
  | none => exact ⟨hpq, hq⟩
  | some a => exact ⟨hpq, hq, rfl, rfl⟩

/-- A call that keeps its state to itself and comes back. -/
theorem ofOutcome {o : Outcome ε α} (ho : o.Returns) (hpq : p ≤ q) (hq : q ≤ lim) :
    Lands lim p (fun a r => o = .ok a ∧ r = q) ((Run.ofOutcome o : Run Nat ε α) q) := by
  cases o with
  | ok a => exact ⟨hpq, hq, rfl, rfl⟩
  | err e => exact ⟨hpq, hq⟩
  | panic => exact ho.elim
  | hang => exact ho.elim

theorem getS (hpq : p ≤ q) (hq : q ≤ lim) :
    Lands lim p (fun a r => a = q ∧ r = q) ((Run.getS : Run Nat ε Nat) q) := ⟨hpq, hq, rfl, rfl⟩

/-- The cursor is put to a place the data has. -/
theorem setS {t : Nat} (hpt : p ≤ t) (ht : t ≤ lim) : Lands lim p (fun _ r => r = t) ((Run.setS t : Run Nat ε Unit) q) :=
  ⟨hpt, ht, rfl⟩

theorem advance {n : Nat} (hpq : p ≤ q) (hq : q + n ≤ lim) :
    Lands lim p (fun _ r => r = q + n) ((Prog.advance n : Run Nat ε Unit) q) :=
  ⟨Nat.le_add_right_of_le hpq, hq, rfl⟩

theorem peek {d : Bytes} (hpq : p ≤ q) (hq : q ≤ lim) :
    Lands lim p (fun o r => o = d[q]? ∧ r = q) ((Prog.peek d : Run Nat ε (Option UInt8)) q) := ⟨hpq, hq, rfl, rfl⟩

theorem next {d : Bytes} (hpq : p ≤ q) (hq : q ≤ lim) (hlim : d.length ≤ lim) :
    Lands lim p (fun _ r => q < d.length ∧ r = q + 1) (Prog.next d q) := by
  cases hb : d[q]? with
  | none =>
    have hrun : Prog.next d q = (.err (), q) := by simp [Prog.next, hb]
    rw [hrun]
    exact ⟨hpq, hq⟩
  | some b =>
    have hrun : Prog.next d q = (.ok b, q + 1) := by simp [Prog.next, hb]
    have hlt : q < d.length := (List.getElem?_eq_some_iff.1 hb).1
    rw [hrun]
    exact ⟨by omega, by omega, hlt, rfl⟩

theorem take {d : Bytes} {n : Nat} (hpq : p ≤ q) (hq : q ≤ lim) (hlim : d.length ≤ lim) :
    Lands lim p (fun _ r => r = q + n ∧ r ≤ d.length) (Prog.take d n q) := by
  cases hr : range? d q (q + n) with
  | none =>
    have hrun : Prog.take d n q = (.err (), q) := by simp [Prog.take, hr]
    rw [hrun]
    exact ⟨hpq, hq⟩
  | some s =>
    have hrun : Prog.take d n q = (.ok s, q + n) := by simp [Prog.take, hr]
    obtain ⟨hs, hn⟩ := range?_eq_some_iff_at.1 hr
    have hend := hs.end_le
    rw [hrun]
    exact ⟨by omega, by omega, rfl, by omega⟩

/-- A range that is one of the data. -/
theorem slice {d : Bytes} {a b : Nat} (hab : a ≤ b) (hb : b ≤ d.length) (hpq : p ≤ q) (hq : q ≤ lim) :
    Lands lim p (fun _ r => r = q) ((Prog.slice d a b : Run Nat ε Bytes) q) := by
  have hr : range? d a b = some ((d.drop a).take (b - a)) := if_pos ⟨hab, hb⟩
  unfold Prog.slice
  rw [hr]
  exact ⟨hpq, hq, rfl⟩

/-! ## Composition -/

/-- What comes after a call that landed. -/
theorem bind {m : Run Nat ε α} {f : α → Run Nat ε β} {s : Nat} (hm : Lands lim p Q (m s))
    (hf : ∀ a q, p ≤ q → q ≤ lim → Q a q → Lands lim p R (f a q)) : Lands lim p R ((m >>= f) s) := by
  rcases hr : m s with ⟨a | e | _ | _, q⟩
  · rw [bind_of_ok hr]
    rw [hr] at hm
    exact hf a q hm.1 hm.2.1 hm.2.2
  · rw [bind_of_err hr]
    rw [hr] at hm
    exact hm
  · rw [hr] at hm
    exact hm.elim
  · rw [hr] at hm
    exact hm.elim

theorem ite {c : Prop} [Decidable c] {m m' : Run Nat ε α} {s : Nat} (ht : c → Lands lim p Q (m s))
    (hf : ¬c → Lands lim p Q (m' s)) : Lands lim p Q ((if c then m else m') s) := by
  by_cases h : c
  · rw [if_pos h]
    exact ht h
  · rw [if_neg h]
    exact hf h

theorem onlyIf {c : Prop} [Decidable c] {m : Run Nat ε Unit} {s : Nat} (hps : p ≤ s) (hs : s ≤ lim)
    (hm : c → Lands lim p (fun _ _ => True) (m s)) : Lands lim p (fun _ _ => True) (Run.onlyIf c m s) :=
  ite hm fun _ => ⟨hps, hs, trivial⟩

theorem mapErr {m : Run Nat ε α} {g : ε → ε'} {s : Nat} (hm : Lands lim p Q (m s)) :
    Lands lim p Q (Run.mapErr g m s) := by
  rcases hr : m s with ⟨a | e | _ | _, q⟩ <;> simp only [Run.mapErr, hr] <;> rw [hr] at hm <;> exact hm

/-- A call whose failure is handled: after a failure the cursor stands where the call left it. -/
theorem attempt {m : Run Nat ε α} {s : Nat} (hm : Lands lim p Q (m s)) :
    Lands lim p (fun o q => ∀ a, o = some a → Q a q) ((Run.attempt m : Run Nat ε' (Option α)) s) := by
  rcases hr : m s with ⟨a | e | _ | _, q⟩ <;> simp only [Run.attempt, hr] <;> rw [hr] at hm
  · exact ⟨hm.1, hm.2.1, fun b hb => Option.some.inj hb ▸ hm.2.2⟩
  · exact ⟨hm.1, hm.2, fun b hb => by simp at hb⟩
  · exact hm
  · exact hm

theorem otherwise {m : Run Nat ε α} {b : α} {s : Nat} (hm : Lands lim p (fun _ _ => True) (m s)) :
    Lands lim p (fun _ _ => True) (Run.otherwise b m s) := by
  rcases hr : m s with ⟨a | e | _ | _, q⟩ <;> simp only [Run.otherwise, hr] <;> rw [hr] at hm
  · exact ⟨hm.1, hm.2.1, trivial⟩
  · exact ⟨hm.1, hm.2, trivial⟩
  · exact hm
  · exact hm

/-- `n` calls that each land, wherever the one before has left the cursor. -/
theorem repeatN {m : Run Nat ε Unit} {n s : Nat} (hps : p ≤ s) (hs : s ≤ lim)
    (hm : ∀ q, p ≤ q → q ≤ lim → Lands lim q (fun _ _ => True) (m q)) :
    Lands lim p (fun _ _ => True) (Run.repeatN n m s) := by
  induction n generalizing s with
  | zero => exact ⟨hps, hs, trivial⟩
  | succ n ih =>
    rw [Run.repeatN]
    exact bind ((hm s hps hs).mono hps fun _ _ _ _ h => h) fun _ q hpq hq _ => ih hpq hq

theorem collectN {m : Run Nat ε α} {n s : Nat} (hps : p ≤ s) (hs : s ≤ lim)
    (hm : ∀ q, p ≤ q → q ≤ lim → Lands lim q (fun _ _ => True) (m q)) :
    Lands lim p (fun _ _ => True) (Run.collectN n m s) := by
  induction n generalizing s with
  | zero => exact ⟨hps, hs, trivial⟩
  | succ n ih =>
    rw [Run.collectN]
    refine bind ((hm s hps hs).mono hps fun _ _ _ _ h => h) fun a q hpq hq _ => ?_
    exact bind (ih hpq hq) fun as r hpr hr _ => pure hpr hr trivial

/-- The same, with a value that each call hands to the next. -/
theorem foldN {f : β → Run Nat ε β} {n s : Nat} (hps : p ≤ s) (hs : s ≤ lim)
    (hf : ∀ b q, p ≤ q → q ≤ lim → Lands lim q (fun _ _ => True) (f b q)) (b : β) :
    Lands lim p (fun _ _ => True) (Run.foldN n f b s) := by
  induction n generalizing s b with
  | zero => exact ⟨hps, hs, trivial⟩
  | succ n ih =>
    rw [Run.foldN]
    exact bind ((hf b s hps hs).mono hps fun _ _ _ _ h => h) fun b' q hpq hq _ => ih hpq hq b'

/-- A reader that lands from the start of its data comes back. -/
theorem eval_returns (lim : Nat) {m : Run Nat ε α} (h : Lands lim 0 (fun _ _ => True) (m 0)) : m.eval.Returns := h.returns

end Lands

/-! ## Loops -/

/-- From every place up to `lim` the reader lands there, and a success moves the cursor forward. -/
def Moves (lim : Nat) (m : Run Nat ε α) : Prop := ∀ p, p ≤ lim → Lands lim p (fun _ q => p < q) (m p)

/-- `turn` is one turn of `loop`, whose first argument is the number of turns still granted: it goes on with a new accumulator
or leaves with the result. -/
def LoopOf (turn : α → Run Nat ε (α ⊕ β)) (loop : Nat → α → Run Nat ε β) : Prop :=
  ∀ n a, loop (n + 1) a = turn a >>= fun t => match t with
    | .inl a' => loop n a'
    | .inr b => pure b

/-- `turn` is one turn of `loop`; from every place up to `lim` it lands there, and it moves the cursor forward or leaves. -/
structure Progresses (lim : Nat) (turn : α → Run Nat ε (α ⊕ β)) (loop : Nat → α → Run Nat ε β) : Prop where
  loopOf : LoopOf turn loop
  forward : ∀ a p, p ≤ lim → Lands lim p (fun t q => ∀ a', t = .inl a' → p < q) (turn a p)

/-- A loop with a given number of turns lands. -/
theorem Progresses.lands {lim : Nat} {turn : α → Run Nat ε (α ⊕ β)} {loop : Nat → α → Run Nat ε β}
    (h : Progresses lim turn loop) (hzero : ∀ a p, p ≤ lim → Lands lim p (fun _ _ => True) (loop 0 a p)) {n p : Nat} {a : α}
    (hp : p ≤ lim) : Lands lim p (fun _ _ => True) (loop n a p) := by
  induction n generalizing a p with
  | zero => exact hzero a p hp
  | succ n ih =>
    rw [h.loopOf]
    refine Lands.bind (h.forward a p hp) fun t q hpq hq _ => ?_
    cases t with
    | inl a' => exact (ih hq).mono hpq fun _ _ _ _ hQ => hQ
    | inr b => exact Lands.pure hpq hq trivial

/-- A loop without a given number of turns lands when it is granted one turn for each byte that is left and one more: a turn
that goes on ends within the `w` bytes of the data. -/
theorem Progresses.lands_of_lt {lim w : Nat} {turn : α → Run Nat ε (α ⊕ β)} {loop : Nat → α → Run Nat ε β}
    (h : Progresses lim turn loop)
    (hw : ∀ a p, p ≤ lim → Lands lim p (fun t q => ∀ a', t = .inl a' → q ≤ w) (turn a p)) {n p : Nat} {a : α} (hp : p ≤ lim)
    (hn : 0 < n) (hlt : w < p + n) : Lands lim p (fun _ _ => True) (loop n a p) := by
  induction n generalizing a p with
  | zero => omega
  | succ n ih =>
    rw [h.loopOf]
    have hland := h.forward a p hp
    rcases hr : turn a p with ⟨t | e | _ | _, q⟩
    · obtain ⟨hpq, hq, hfwd⟩ := hland.of_ok hr
      rw [bind_of_ok hr]
      cases t with
      | inl a' =>
        have hmoved : p < q := hfwd a' rfl
        have hwithin : q ≤ w := ((hw a p hp).of_ok hr).2.2 a' rfl
        exact (ih hq (by omega) (by omega)).mono hpq fun _ _ _ _ hQ => hQ
      | inr b => exact Lands.pure hpq hq trivial
    · rw [hr] at hland
      rw [bind_of_err hr]
      exact hland
    · rw [hr] at hland
      exact hland.elim
    · rw [hr] at hland
      exact hland.elim

end Prog
