import FdoUefi.Lib.Run

/-!
# What a run returns

`Yields m P` says that every value that `m` returns has the property `P`, whatever state `m` is started in. The parts of a run
whose values make no difference are passed by (`Yields.next`), so a fact about one part does not depend on what the others are.
`Unfailing m` says that `m` returns no error.
-/

namespace Prog

namespace Run

variable {σ ε ε' α β : Type}

/-- Every value the run returns has the property. -/
def Yields (m : Run σ ε α) (P : α → Prop) : Prop := ∀ s a t, m s = (.ok a, t) → P a

namespace Yields

variable {m : Run σ ε α} {f : α → Run σ ε β} {P : α → Prop} {Q : β → Prop}

theorem pure {a : α} (h : P a) : Yields (Pure.pure a : Run σ ε α) P := by
  intro s b t hb
  obtain ⟨rfl, -⟩ := pure_ok_iff.1 hb
  exact h

/-- A run that fails returns nothing. -/
theorem fail {e : ε} : Yields (Run.fail e : Run σ ε α) P := by
  intro s b t hb
  rw [fail_apply] at hb
  cases hb

theorem bind (hm : Yields m P) (hf : ∀ a, P a → Yields (f a) Q) : Yields (m >>= f) Q := by
  intro s b u hb
  obtain ⟨a, t, ha, hrest⟩ := bind_ok_iff.1 hb
  exact hf a (hm s a t ha) t b u hrest

/-- The value of the first part makes no difference. -/
theorem next (hf : ∀ a, Yields (f a) Q) : Yields (m >>= f) Q := by
  intro s b u hb
  obtain ⟨a, t, -, hrest⟩ := bind_ok_iff.1 hb
  exact hf a t b u hrest

theorem ite {c : Prop} [Decidable c] {m' : Run σ ε α} (h : c → Yields m P) (h' : ¬c → Yields m' P) :
    Yields (if c then m else m') P := by
  by_cases hc : c
  · rw [if_pos hc]
    exact h hc
  · rw [if_neg hc]
    exact h' hc

/-- The outcome alone. -/
theorem fst {s : σ} {a : α} (hm : Yields m P) (h : (m s).1 = .ok a) : P a := hm s a _ (eq_of_fst h)

end Yields

/-! ## Runs without errors -/

/-- The run returns no error. -/
def Unfailing (m : Run σ ε α) : Prop := ∀ s e t, m s ≠ (.err e, t)

namespace Unfailing

variable {m m' : Run σ ε α} {f : α → Run σ ε β}

theorem pure (a : α) : Unfailing (Pure.pure a : Run σ ε α) := by
  intro s e t h
  cases h

theorem panics : Unfailing (Run.panics : Run σ ε α) := by
  intro s e t h
  cases h

theorem getS : Unfailing (Run.getS : Run σ ε σ) := by
  intro s e t h
  cases h

theorem modifyS {g : σ → σ} : Unfailing (Run.modifyS g : Run σ ε Unit) := by
  intro s e t h
  cases h

theorem ofOutcome {o : Outcome ε α} (h : ∀ e, o ≠ .err e) : Unfailing (Run.ofOutcome o : Run σ ε α) := by
  intro s e t hs
  exact h e (congrArg Prod.fst hs)

theorem bind (hm : Unfailing m) (hf : ∀ a, Unfailing (f a)) : Unfailing (m >>= f) := by
  intro s e u h
  rcases hs : m s with ⟨a | e' | _ | _, t⟩
  · rw [bind_of_ok hs] at h
    exact hf a t e u h
  · exact hm s e' t hs
  · rw [bind_of_panic hs] at h
    cases h
  · rw [bind_of_hang hs] at h
    cases h

theorem ite {c : Prop} [Decidable c] (h : Unfailing m) (h' : Unfailing m') : Unfailing (if c then m else m') := by
  split
  · exact h
  · exact h'

theorem attempt {m : Run σ ε' α} : Unfailing (Run.attempt m : Run σ ε (Option α)) := fun _ _ _ => attempt_ne_err

theorem caught {m : Run σ ε' α} : Unfailing (Run.caught m : Run σ ε (Except ε' α)) := by
  intro s e t
  rcases hs : m s with ⟨b | e' | _ | _, u⟩ <;> simp [Run.caught, hs]

/-- A call on a part of the state does not fail if it does not there. -/
theorem onPart {ρ : Type} {part : σ → ρ} {put : ρ → σ → σ} {m : Run ρ ε α} (h : Unfailing m) :
    Unfailing (Run.onPart part put m) := by
  intro s e t hs
  exact h (part s) e _ (eq_of_fst (congrArg Prod.fst hs))

theorem otherwise {a : α} : Unfailing (Run.otherwise a m) := fun _ _ _ => otherwise_ne_err

end Unfailing

end Run

end Prog
