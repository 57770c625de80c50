import FdoUefi.Lib.Effect

/-!
# What a call keeps unless something goes wrong

A preorder `R` goes along with every step of a run, and it holds backwards too exactly as long as nothing has gone wrong.
`Keeps R I P m Q` says that `m` goes along with `R`, and that from a state with `P`, if nothing goes wrong, it leaves a state with `I`
however it ends and one with `Q` when it returns a value.
-/

namespace Prog

open Run

section

variable {σ ε α β : Type} {R : σ → σ → Prop} {I P P' : σ → Prop} {Q Q' : α → σ → Prop} {S : β → σ → Prop}

def Keeps (R : σ → σ → Prop) (I P : σ → Prop) (m : Run σ ε α) (Q : α → σ → Prop) : Prop :=
  ∀ s, R s (m s).2 ∧ (P s → R (m s).2 s → I (m s).2 ∧ ∀ a, (m s).1 = .ok a → Q a (m s).2)

namespace Keeps

/-- What keeps something has the effect. -/
theorem effect {m : Run σ ε α} (h : Keeps R I P m Q) : Effect R m := fun s => (h s).1

/-- A call that is not reached. -/
theorem unreached {m : Run σ ε α} (h : Effect R m) (hP : ∀ s, ¬P s) : Keeps R I P m Q :=
  fun s => ⟨h s, fun hs => absurd hs (hP s)⟩

/-- A contract holds from less and for less. -/
theorem weaken {m : Run σ ε α} (h : Keeps R I P m Q) (hP : ∀ s, P' s → P s) (hQ : ∀ a s, Q a s → Q' a s) : Keeps R I P' m Q' := by
  intro s
  obtain ⟨hR, hkeeps⟩ := h s
  refine ⟨hR, fun hs hback => ?_⟩
  obtain ⟨hI, hok⟩ := hkeeps (hP s hs) hback
  exact ⟨hI, fun a ha => hQ a _ (hok a ha)⟩

theorem ite {c : Prop} [Decidable c] {m m' : Run σ ε α} (hm : c → Keeps R I P m Q) (hm' : ¬c → Keeps R I P m' Q) :
    Keeps R I P (if c then m else m') Q := by
  split
  next hc => exact hm hc
  next hc => exact hm' hc

/-- A call that changes the state in one way only. -/
theorem changes {m : Run σ ε α} {g : σ → σ} (hm : ∀ s, (m s).2 = g s) (hR : ∀ s, R s (g s)) (hI : ∀ s, P s → I (g s))
    (hQ : ∀ s a, P s → (m s).1 = .ok a → Q a (g s)) : Keeps R I P m Q := by
  intro s
  rw [hm s]
  exact ⟨hR s, fun hs _ => ⟨hI s hs, fun a ha => hQ s a hs ha⟩⟩

variable [IsPreorder σ R]

theorem pure {a : α} (hI : ∀ s, P s → I s) (hQ : ∀ s, P s → Q a s) : Keeps R I P (Pure.pure a : Run σ ε α) Q := by
  intro s
  refine ⟨refl s, fun hs _ => ⟨hI s hs, fun b hb => ?_⟩⟩
  obtain rfl : a = b := Outcome.ok.inj hb
  exact hQ s hs

/-- Where nothing goes wrong in the whole sequence, nothing goes wrong in its parts. -/
theorem bind {m : Run σ ε α} {f : α → Run σ ε β} (hm : Keeps R I P m Q) (hf : ∀ a, Keeps R I (Q a) (f a) S) :
    Keeps R I P (m >>= f) S := by
  intro s
  obtain ⟨hfirst, hkeeps⟩ := hm s
  rcases bind_cases m f s with ⟨a, t, hret, heq⟩ | ⟨hsnd, hfail⟩
  · rw [hret] at hfirst hkeeps
    rw [heq]
    obtain ⟨hrest, hkeeps'⟩ := hf a t
    refine ⟨trans_of R hfirst hrest, fun hs hback => ?_⟩
    obtain ⟨-, hok⟩ := hkeeps hs (trans_of R hrest hback)
    exact hkeeps' (hok a rfl) (trans_of R hback hfirst)
  · rw [hsnd]
    refine ⟨hfirst, fun hs hback => ?_⟩
    exact ⟨(hkeeps hs hback).1, fun b hb => absurd hb (hfail b)⟩

theorem onlyIf {c : Prop} [Decidable c] {m : Run σ ε Unit} (hm : c → Keeps R I I m fun _ => I) :
    Keeps R I I (Run.onlyIf c m) fun _ => I :=
  ite hm fun _ => pure (fun _ hs => hs) fun _ hs => hs

end Keeps

end

end Prog
