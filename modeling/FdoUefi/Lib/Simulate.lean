import FdoUefi.Lib.Run

/-!
# One program in place of another

Two programs over two kinds of state, and relations between the states, the errors and the values. `Simulates` says that from related
states both end in the same way, with related results, and that the states are related again. It holds of two sequences when it
holds of their parts, so two programs of the same shape are compared call by call.
-/

namespace Prog

variable {σ τ ε δ ε' δ' α β α' β' : Type}

/-- Two outcomes of the same kind with related results. -/
inductive Outcome.Agree (E : ε → δ → Prop) (R : α → β → Prop) : Outcome ε α → Outcome δ β → Prop where
  | ok {a : α} {b : β} (h : R a b) : Agree E R (.ok a) (.ok b)
  | err {e : ε} {d : δ} (h : E e d) : Agree E R (.err e) (.err d)
  | panic : Agree E R .panic .panic
  | hang : Agree E R .hang .hang

/-- Outcomes with the same results are the same. -/
theorem Outcome.Agree.eq {o o' : Outcome ε α} (h : Agree Eq Eq o o') : o = o' := by
  cases h with
  | ok h => rw [h]
  | err h => rw [h]
  | panic => rfl
  | hang => rfl

open Run

/-- From related states both programs end in the same way. -/
def Simulates (J : σ → τ → Prop) (E : ε → δ → Prop) (R : α → β → Prop) (m : Run σ ε α) (m' : Run τ δ β) : Prop :=
  ∀ s t, J s t → Outcome.Agree E R (m s).1 (m' t).1 ∧ J (m s).2 (m' t).2

namespace Simulates

variable {J : σ → τ → Prop} {E : ε → δ → Prop} {R : α → β → Prop} {S : α' → β' → Prop}

/-- How two runs end. -/
theorem ends {m : Run σ ε α} {m' : Run τ δ β} {s : σ} {t : τ} (hm : Simulates J E R m m') (hJ : J s t) :
    ∃ o o' s' t', m s = (o, s') ∧ m' t = (o', t') ∧ Outcome.Agree E R o o' ∧ J s' t' :=
  ⟨(m s).1, (m' t).1, (m s).2, (m' t).2, rfl, rfl, hm s t hJ⟩

theorem pure {a : α} {b : β} (h : R a b) : Simulates J E R (Pure.pure a : Run σ ε α) (Pure.pure b) :=
  fun _ _ hJ => ⟨.ok h, hJ⟩

theorem fail {e : ε} {d : δ} (h : E e d) : Simulates J E R (Run.fail e : Run σ ε α) (Run.fail d) :=
  fun _ _ hJ => ⟨.err h, hJ⟩

theorem bind {m : Run σ ε α} {m' : Run τ δ β} {f : α → Run σ ε α'} {f' : β → Run τ δ β'} (hm : Simulates J E R m m')
    (hf : ∀ a b, R a b → Simulates J E S (f a) (f' b)) : Simulates J E S (m >>= f) (m' >>= f') := by
  intro s t hJ
  obtain ⟨o, o', s', t', hs, ht, hagree, hJ'⟩ := hm.ends hJ
  cases hagree with
  | ok h =>
    rw [bind_of_ok hs, bind_of_ok ht]
    exact hf _ _ h s' t' hJ'
  | err h =>
    rw [bind_of_err hs, bind_of_err ht]
    exact ⟨.err h, hJ'⟩
  | panic =>
    rw [bind_of_panic hs, bind_of_panic ht]
    exact ⟨.panic, hJ'⟩
  | hang =>
    rw [bind_of_hang hs, bind_of_hang ht]
    exact ⟨.hang, hJ'⟩

/-- The same test in both programs. -/
theorem ite {c c' : Prop} [Decidable c] [Decidable c'] {m n : Run σ ε α} {m' n' : Run τ δ β} (hc : c ↔ c')
    (hm : c → Simulates J E R m m') (hn : ¬c → Simulates J E R n n') :
    Simulates J E R (if c then m else n) (if c' then m' else n') := by
  by_cases h : c
  · rw [if_pos h, if_pos (hc.1 h)]
    exact hm h
  · rw [if_neg h, if_neg (mt hc.2 h)]
    exact hn h

theorem ensure {c c' : Prop} [Decidable c] [Decidable c'] {e : ε} {d : δ} (hc : c ↔ c') (he : E e d) :
    Simulates J E Eq (Run.ensure c e : Run σ ε Unit) (Run.ensure c' d) :=
  ite hc (fun _ => pure rfl) fun _ => fail he

theorem mapErr {E' : ε' → δ' → Prop} {m : Run σ ε α} {m' : Run τ δ β} {g : ε → ε'} {g' : δ → δ'} (hm : Simulates J E R m m')
    (hg : ∀ e d, E e d → E' (g e) (g' d)) : Simulates J E' R (Run.mapErr g m) (Run.mapErr g' m') := by
  intro s t hJ
  obtain ⟨o, o', s', t', hs, ht, hagree, hJ'⟩ := hm.ends hJ
  simp only [Run.mapErr, hs, ht]
  cases hagree with
  | ok h => exact ⟨.ok h, hJ'⟩
  | err h => exact ⟨.err (hg _ _ h), hJ'⟩
  | panic => exact ⟨.panic, hJ'⟩
  | hang => exact ⟨.hang, hJ'⟩

theorem attempt {E' : ε' → δ' → Prop} {m : Run σ ε α} {m' : Run τ δ β} (hm : Simulates J E R m m') :
    Simulates J E' (Option.Rel R) (Run.attempt m : Run σ ε' (Option α)) (Run.attempt m' : Run τ δ' (Option β)) := by
  intro s t hJ
  obtain ⟨o, o', s', t', hs, ht, hagree, hJ'⟩ := hm.ends hJ
  simp only [Run.attempt, hs, ht]
  cases hagree with
  | ok h => exact ⟨.ok (.some h), hJ'⟩
  | err h => exact ⟨.ok .none, hJ'⟩
  | panic => exact ⟨.panic, hJ'⟩
  | hang => exact ⟨.hang, hJ'⟩

theorem ignored {E' : ε' → δ' → Prop} {m : Run σ ε Unit} {m' : Run τ δ Unit} {P : Unit → Unit → Prop}
    (hm : Simulates J E P m m') : Simulates J E' Eq (Run.ignored m : Run σ ε' Unit) (Run.ignored m' : Run τ δ' Unit) := by
  intro s t hJ
  obtain ⟨o, o', s', t', hs, ht, hagree, hJ'⟩ := hm.ends hJ
  simp only [Run.ignored, hs, ht]
  cases hagree with
  | ok h => exact ⟨.ok rfl, hJ'⟩
  | err h => exact ⟨.ok rfl, hJ'⟩
  | panic => exact ⟨.panic, hJ'⟩
  | hang => exact ⟨.hang, hJ'⟩

/-- A failure that is looked at. -/
inductive Tried (E : ε → δ → Prop) (R : α → β → Prop) : Except ε α → Except δ β → Prop where
  | ok {a : α} {b : β} (h : R a b) : Tried E R (.ok a) (.ok b)
  | error {e : ε} {d : δ} (h : E e d) : Tried E R (.error e) (.error d)

theorem caught {E' : ε' → δ' → Prop} {m : Run σ ε α} {m' : Run τ δ β} (hm : Simulates J E R m m') :
    Simulates J E' (Tried E R) (Run.caught m : Run σ ε' (Except ε α)) (Run.caught m' : Run τ δ' (Except δ β)) := by
  intro s t hJ
  obtain ⟨o, o', s', t', hs, ht, hagree, hJ'⟩ := hm.ends hJ
  simp only [Run.caught, hs, ht]
  cases hagree with
  | ok h => exact ⟨.ok (.ok h), hJ'⟩
  | err h => exact ⟨.ok (.error h), hJ'⟩
  | panic => exact ⟨.panic, hJ'⟩
  | hang => exact ⟨.hang, hJ'⟩

/-- The same run, over one kind of state that both programs keep. -/
theorem run_eq {I : σ → Prop} {m m' : Run σ ε α} (h : Simulates (fun s t => s = t ∧ I s) Eq Eq m m') {s : σ} (hs : I s) :
    m s = m' s :=
  Prod.ext (h s s ⟨rfl, hs⟩).1.eq (h s s ⟨rfl, hs⟩).2.1

end Simulates

end Prog
