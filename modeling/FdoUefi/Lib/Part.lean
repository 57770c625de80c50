import FdoUefi.Lib.Cursor

/-!
# A reader over a part of the data

A byte string `t` stands in a larger one `d` from `k` on, and one reader runs over each. `Carries k R m m'` says that what `m` returns
from a place of `t` is returned, up to `R`, by `m'` from the same place of `d`. It says nothing of a run of `m` that fails: over `d`
there may be more to read.
-/

namespace Prog

open Run

variable {ε α α' β β' : Type} {k : Nat}

/-- What `m` returns from `p`, `m'` returns from `k + p`, up to `R`, and the cursors stay `k` apart. -/
def Carries (k : Nat) (R : α → α' → Prop) (m : Run Nat ε α) (m' : Run Nat ε α') : Prop :=
  ∀ p a q, m p = (.ok a, q) → ∃ a', R a a' ∧ m' (k + p) = (.ok a', k + q)

namespace Carries

/-- A value that stays the same is returned in both runs. -/
theorem ok {m m' : Run Nat ε α} {p q : Nat} {a : α} (h : Carries k Eq m m') (hm : m p = (.ok a, q)) : m' (k + p) = (.ok a, k + q) := by
  obtain ⟨a', rfl, hm'⟩ := h p a q hm
  exact hm'

theorem pure {R : α → α' → Prop} {a : α} {a' : α'} (h : R a a') :
    Carries k R (Pure.pure a : Run Nat ε α) (Pure.pure a' : Run Nat ε α') := by
  intro p b q hb
  obtain ⟨rfl, rfl⟩ := pure_ok_iff.1 hb
  exact ⟨a', h, rfl⟩

theorem bind {R : α → α' → Prop} {S : β → β' → Prop} {m : Run Nat ε α} {m' : Run Nat ε α'} {f : α → Run Nat ε β}
    {f' : α' → Run Nat ε β'} (hm : Carries k R m m') (hf : ∀ a a', R a a' → Carries k S (f a) (f' a')) :
    Carries k S (m >>= f) (m' >>= f') := by
  intro p b q hb
  obtain ⟨a, r, ha, hb⟩ := bind_ok_iff.1 hb
  obtain ⟨a', hR, ha'⟩ := hm p a r ha
  obtain ⟨b', hS, hb'⟩ := hf a a' hR r b q hb
  exact ⟨b', hS, by rw [bind_of_ok ha', hb']⟩

/-- A sequence in which the first part returns the same value. -/
theorem next {S : β → β' → Prop} {m m' : Run Nat ε α} {f : α → Run Nat ε β} {f' : α → Run Nat ε β'} (hm : Carries k Eq m m')
    (hf : ∀ a, Carries k S (f a) (f' a)) : Carries k S (m >>= f) (m' >>= f') := by
  refine hm.bind ?_
  rintro a _ rfl
  exact hf a

/-- A run that fails carries nothing. -/
theorem of_fails {R : α → α' → Prop} {m : Run Nat ε α} {m' : Run Nat ε α'} (h : ∀ p a q, m p ≠ (.ok a, q)) : Carries k R m m' :=
  fun p a q hm => absurd hm (h p a q)

theorem getS : Carries k (fun p p' => p' = k + p) (Run.getS : Run Nat ε Nat) Run.getS := by
  intro p a q ha
  rw [getS_apply, Prod.mk.injEq, Outcome.ok.injEq] at ha
  obtain ⟨rfl, rfl⟩ := ha
  exact ⟨k + p, rfl, rfl⟩

theorem setS {p : Nat} : Carries k Eq (Run.setS p : Run Nat ε Unit) (Run.setS (k + p)) := by
  intro _ a q ha
  obtain rfl : p = q := congrArg Prod.snd ha
  exact ⟨a, rfl, rfl⟩

theorem advance {n : Nat} : Carries k Eq (Prog.advance n : Run Nat ε Unit) (Prog.advance n) := by
  intro p a q ha
  obtain rfl : p + n = q := congrArg Prod.snd ha
  exact ⟨a, rfl, by rw [advance_apply, Nat.add_assoc]⟩

theorem ensure {c c' : Prop} [Decidable c] [Decidable c'] {e : ε} (h : c → c') :
    Carries k Eq (Run.ensure c e : Run Nat ε Unit) (Run.ensure c' e) := by
  intro p a q ha
  obtain ⟨hc, rfl⟩ := ensure_ok_iff.1 ha
  exact ⟨a, rfl, ensure_ok_iff.2 ⟨h hc, rfl⟩⟩

theorem ofOutcome (o : Outcome ε α) : Carries k Eq (Run.ofOutcome o : Run Nat ε α) (Run.ofOutcome o) := by
  intro p a q ha
  obtain ⟨ho, rfl⟩ := ofOutcome_ok_iff.1 ha
  exact ⟨a, rfl, ofOutcome_ok_iff.2 ⟨ho, rfl⟩⟩

theorem orFail {o o' : Option α} {e : ε} (h : ∀ a, o = some a → o' = some a) :
    Carries k Eq (Run.orFail o e : Run Nat ε α) (Run.orFail o' e) := by
  intro p a q ha
  obtain ⟨ho, rfl⟩ := orFail_ok_iff.1 ha
  exact ⟨a, rfl, orFail_ok_iff.2 ⟨h a ho, rfl⟩⟩

theorem onlyIf {c : Prop} [Decidable c] {m m' : Run Nat ε Unit} (hm : Carries k Eq m m') :
    Carries k Eq (Run.onlyIf c m) (Run.onlyIf c m') := by
  unfold Run.onlyIf
  by_cases hc : c
  · rw [if_pos hc, if_pos hc]
    exact hm
  · rw [if_neg hc, if_neg hc]
    exact pure rfl

/-! ### Reading -/

variable {t d : Bytes}

/-- A byte of the part is read in the whole. -/
theorem nextByte (hd : At d k t) : Carries k Eq (Prog.next t) (Prog.next d) := by
  intro p b q hb
  obtain ⟨hat, rfl⟩ := next_ok_iff.1 hb
  exact ⟨b, rfl, next_ok_iff.2 ⟨hd.inner hat, rfl⟩⟩

theorem take (hd : At d k t) (n : Nat) : Carries k Eq (Prog.take t n) (Prog.take d n) := by
  intro p s q hs
  obtain ⟨hat, hn, rfl⟩ := take_ok_iff.1 hs
  exact ⟨s, rfl, take_ok_iff.2 ⟨hd.inner hat, hn, by rw [Nat.add_assoc]⟩⟩

/-- The byte at the cursor, where the rest of the run needs one. -/
theorem peek {R : α → α' → Prop} {f : Option UInt8 → Run Nat ε α} {f' : Option UInt8 → Run Nat ε α'} (hd : At d k t)
    (hsome : ∀ b, Carries k R (f (some b)) (f' (some b))) (hnone : ∀ p a q, t.length ≤ p → f none p ≠ (.ok a, q)) :
    Carries k R (Prog.peek t >>= f) (Prog.peek d >>= f') := by
  intro p a q ha
  rw [bind_of_ok (peek_apply t p)] at ha
  cases hb : t[p]? with
  | none =>
    rw [hb] at ha
    exact absurd ha (hnone p a q (List.getElem?_eq_none_iff.1 hb))
  | some b =>
    rw [hb] at ha
    obtain ⟨a', hR, ha'⟩ := hsome b p a q ha
    have hbyte : d[k + p]? = some b := getElem?_eq_some_iff_at.2 (hd.inner (getElem?_eq_some_iff_at.1 hb))
    exact ⟨a', hR, by rw [bind_of_ok (peek_apply d (k + p)), hbyte, ha']⟩

end Carries

end Prog
