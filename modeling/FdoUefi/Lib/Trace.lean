import FdoUefi.Lib.Effect

/-!
# Calls that keep a trace

The state of a run holds, among other things, the events that have happened so far. `Emits E m` says that, however `m` ends, it
has added events that satisfy `E` at the end of the trace and changed nothing before them. This is an effect on the state
(`Appends`) that a run keeps however it is put together.
-/

namespace Prog

open Run

section

variable {σ τ ε ε' α β : Type} {trace : σ → List τ} {E F : τ → Prop}

/-- However the call ends, it has only added events that satisfy `E`. -/
def Emits (trace : σ → List τ) (E : τ → Prop) (m : Run σ ε α) : Prop :=
  ∀ s, ∃ new, trace (m s).2 = trace s ++ new ∧ ∀ e ∈ new, E e

/-- From `s` to `t` events that satisfy `E` are added at the end of the trace. -/
def Appends (trace : σ → List τ) (E : τ → Prop) (s t : σ) : Prop := ∃ new, trace t = trace s ++ new ∧ ∀ e ∈ new, E e

instance : IsPreorder σ (Appends trace E) where
  refl _ := ⟨[], by simp, by simp⟩
  trans := by
    rintro s t u ⟨new, hnew, hE⟩ ⟨new', hnew', hE'⟩
    refine ⟨new ++ new', by rw [hnew', hnew, List.append_assoc], fun e he => ?_⟩
    rcases List.mem_append.1 he with he | he
    · exact hE e he
    · exact hE' e he

namespace Emits

theorem mono {m : Run σ ε α} (h : Emits trace E m) (hEF : ∀ e, E e → F e) : Emits trace F m := by
  intro s
  obtain ⟨new, hnew, hE⟩ := h s
  exact ⟨new, hnew, fun e he => hEF e (hE e he)⟩

/-- A call that leaves the trace alone. -/
theorem still {m : Run σ ε α} (h : ∀ s, trace (m s).2 = trace s) : Emits trace E m := by
  intro s
  exact ⟨[], by rw [h s, List.append_nil], by simp⟩

/-- A call that adds one event. -/
theorem one {m : Run σ ε α} (h : ∀ s, ∃ e, trace (m s).2 = trace s ++ [e] ∧ E e) : Emits trace E m := by
  intro s
  obtain ⟨e, hs, he⟩ := h s
  exact ⟨[e], hs, by simpa using he⟩

theorem pure (a : α) : Emits trace E (Pure.pure a : Run σ ε α) := still fun _ => rfl

theorem getS : Emits trace E (Run.getS : Run σ ε σ) := still fun _ => rfl

theorem ofOutcome (o : Outcome ε α) : Emits trace E (Run.ofOutcome o : Run σ ε α) := still fun _ => rfl

/-- A change of the state that is not one of the trace. -/
theorem modifyS {f : σ → σ} (h : ∀ s, trace (f s) = trace s) : Emits trace E (Run.modifyS f : Run σ ε Unit) := still h

theorem bind {m : Run σ ε α} {f : α → Run σ ε β} (hm : Emits trace E m) (hf : ∀ a, Emits trace E (f a)) :
    Emits trace E (m >>= f) := Effect.bind (R := Appends trace E) hm hf

theorem ite {c : Prop} [Decidable c] {m m' : Run σ ε α} (hm : Emits trace E m) (hm' : Emits trace E m') :
    Emits trace E (if c then m else m') := Effect.ite (R := Appends trace E) hm hm'

theorem onlyIf {c : Prop} [Decidable c] {m : Run σ ε Unit} (hm : Emits trace E m) : Emits trace E (Run.onlyIf c m) :=
  Effect.onlyIf (R := Appends trace E) hm

theorem attempt {m : Run σ ε α} (hm : Emits trace E m) : Emits trace E (Run.attempt m : Run σ ε' (Option α)) :=
  Effect.attempt (R := Appends trace E) hm

/-- A call that adds no event. -/
theorem trace_eq {m : Run σ ε α} (h : Emits trace (fun _ => False) m) (s : σ) : trace (m s).2 = trace s := by
  obtain ⟨new, hnew, hE⟩ := h s
  rw [hnew, List.eq_nil_iff_forall_not_mem.2 hE, List.append_nil]

/-- What adds no event after a call leaves the trace of that call, however both end. -/
theorem bind_quiet {m : Run σ ε α} {f : α → Run σ ε β} (hf : ∀ a, Emits trace (fun _ => False) (f a)) (s : σ) :
    trace ((m >>= f) s).2 = trace (m s).2 := by
  rcases bind_cases m f s with ⟨a, t, hok, heq⟩ | ⟨hsnd, -⟩
  · rw [heq, (hf a).trace_eq, hok]
  · rw [hsnd]

/-- A call on another part of the state. -/
theorem onPart {ρ : Type} {part : σ → ρ} {put : ρ → σ → σ} (m : Run ρ ε α) (h : ∀ r s, trace (put r s) = trace s) :
    Emits trace E (Run.onPart part put m) := still fun _ => h _ _

end Emits

end

end Prog
