import FdoUefi.Lib.Run
import Mathlib.Order.Defs.Unbundled

/-!
# What a call does to its state

`Effect R m` says that, however `m` ends, the state it leaves is related by `R` to the one it started in. A preorder goes
through every way of putting calls together. `Numbered` is a relation that counts: numbers are taken from a counter one after
the other, and each of them leaves its mark.
-/

namespace Prog

open Run

section

variable {σ ε ε' α β : Type} {P Q R : σ → σ → Prop}

/-- However the call ends, it leaves a state that `R` relates to the one it started in. -/
def Effect (R : σ → σ → Prop) (m : Run σ ε α) : Prop := ∀ s, R s (m s).2

namespace Effect

/-- A sequence: the first part alone, when it does not return a value, or the one after the other. -/
theorem seq {m : Run σ ε α} {f : α → Run σ ε β} (hm : Effect P m) (hf : ∀ a, Effect Q (f a))
    (hfail : ∀ s t, P s t → R s t) (hcomp : ∀ s t u, P s t → Q t u → R s u) : Effect R (m >>= f) := by
  intro s
  have hfirst := hm s
  rcases bind_cases m f s with ⟨a, t, hok, heq⟩ | ⟨hsnd, -⟩
  · rw [hok] at hfirst
    rw [heq]
    exact hcomp s t _ hfirst (hf a t)
  · rw [hsnd]
    exact hfail s _ hfirst

theorem ite {c : Prop} [Decidable c] {m m' : Run σ ε α} (hm : Effect R m) (hm' : Effect R m') :
    Effect R (if c then m else m') := by
  split
  · exact hm
  · exact hm'

theorem attempt {m : Run σ ε α} (hm : Effect R m) : Effect R (Run.attempt m : Run σ ε' (Option α)) := by
  intro s
  rw [attempt_snd]
  exact hm s

/-! A preorder -/

variable [IsPreorder σ R]

/-- A call that leaves the state as it is. -/
theorem still {m : Run σ ε α} (h : ∀ s, (m s).2 = s) : Effect R m := by
  intro s
  rw [h s]
  exact refl s

theorem pure (a : α) : Effect R (Pure.pure a : Run σ ε α) := still fun _ => rfl

theorem panics : Effect R (Run.panics : Run σ ε α) := still fun _ => rfl

theorem getS : Effect R (Run.getS : Run σ ε σ) := still fun _ => rfl

theorem ofOutcome (o : Outcome ε α) : Effect R (Run.ofOutcome o : Run σ ε α) := still fun _ => rfl

theorem orFail (o : Option α) (e : ε) : Effect R (Run.orFail o e : Run σ ε α) := by
  cases o with
  | none => exact still fun _ => rfl
  | some a => exact pure a

theorem bind {m : Run σ ε α} {f : α → Run σ ε β} (hm : Effect R m) (hf : ∀ a, Effect R (f a)) : Effect R (m >>= f) :=
  seq hm hf (fun _ _ h => h) fun _ _ _ => trans_of R

theorem onlyIf {c : Prop} [Decidable c] {m : Run σ ε Unit} (hm : Effect R m) : Effect R (Run.onlyIf c m) :=
  ite hm (pure ())

end Effect

end

/-! ## Numbers from a counter -/

section

variable {σ ε α β ν : Type} {counter : σ → Nat} {marks : σ → List ν} {mark : Nat → ν} {limit j k : Nat} {s t u : σ}

/-- From `s` to `t` at most `k` numbers are taken from the counter, one after the other, and each leaves its mark; so long as
`k` numbers are left below the limit. -/
def Numbered (counter : σ → Nat) (marks : σ → List ν) (mark : Nat → ν) (limit k : Nat) (s t : σ) : Prop :=
  counter s + k < limit →
    ∃ n ≤ k, counter t = counter s + n ∧ marks t = marks s ++ (List.range' (counter s) n).map mark

namespace Numbered

/-- No number is taken. -/
theorem none (hc : counter t = counter s) (hm : marks t = marks s) : Numbered counter marks mark limit k s t := by
  intro _
  exact ⟨0, Nat.zero_le k, hc, by simp [hm]⟩

/-- One number is taken. -/
theorem one (hc : counter s + 1 < limit → counter t = counter s + 1) (hm : marks t = marks s ++ [mark (counter s)]) :
    Numbered counter marks mark limit 1 s t := by
  intro hlimit
  exact ⟨1, Nat.le_refl 1, hc hlimit, by simp [hm]⟩

theorem mono (h : Numbered counter marks mark limit j s t) (hjk : j ≤ k) : Numbered counter marks mark limit k s t := by
  intro hlimit
  obtain ⟨n, hn, hc, hm⟩ := h (by omega)
  exact ⟨n, by omega, hc, hm⟩

/-- Numbers drawn one part after the other are drawn in order. -/
theorem trans (h : Numbered counter marks mark limit j s t) (h' : Numbered counter marks mark limit k t u) :
    Numbered counter marks mark limit (j + k) s u := by
  intro hlimit
  obtain ⟨n, hn, hc, hm⟩ := h (by omega)
  obtain ⟨n', hn', hc', hm'⟩ := h' (by omega)
  refine ⟨n + n', by omega, by omega, ?_⟩
  rw [hm', hm, hc, List.append_assoc, ← List.map_append, List.range'_append_1]

instance : IsPreorder σ (Numbered counter marks mark limit 0) where
  refl _ := none rfl rfl
  trans _ _ _ := trans

/-- The marks left from a state without marks on, when the counter starts at zero. -/
theorem marks_eq (h : Numbered counter marks mark limit k s t) (hk : k < limit) (hc : counter s = 0) (hm : marks s = []) :
    counter t ≤ k ∧ marks t = (List.range (counter t)).map mark := by
  obtain ⟨n, hn, hct, hmt⟩ := h (by omega)
  have hcount : counter t = n := by omega
  refine ⟨by omega, ?_⟩
  rw [hmt, hm, hc, hcount, List.nil_append, List.range_eq_range']

end Numbered

/-- A sequence of two calls takes the numbers of both. -/
theorem Effect.numbered_seq {m : Run σ ε α} {f : α → Run σ ε β} (hm : Effect (Numbered counter marks mark limit j) m)
    (hf : ∀ a, Effect (Numbered counter marks mark limit k) (f a)) :
    Effect (Numbered counter marks mark limit (j + k)) (m >>= f) :=
  hm.seq hf (fun _ _ h => h.mono (Nat.le_add_right j k)) fun _ _ _ => Numbered.trans

/-- What takes no number before a call. -/
theorem Effect.numbered_after {m : Run σ ε α} {f : α → Run σ ε β} (hm : Effect (Numbered counter marks mark limit 0) m)
    (hf : ∀ a, Effect (Numbered counter marks mark limit k) (f a)) : Effect (Numbered counter marks mark limit k) (m >>= f) := by
  have h := hm.numbered_seq hf
  rwa [Nat.zero_add] at h

/-- What takes no number after a call. -/
theorem Effect.numbered_before {m : Run σ ε α} {f : α → Run σ ε β} (hm : Effect (Numbered counter marks mark limit k) m)
    (hf : ∀ a, Effect (Numbered counter marks mark limit 0) (f a)) : Effect (Numbered counter marks mark limit k) (m >>= f) :=
  hm.numbered_seq hf

end

end Prog
