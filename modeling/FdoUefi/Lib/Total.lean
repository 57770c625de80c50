import FdoUefi.Lib.Cursor

/-!
# Runs that come back from every state

`Total m` says that `m` returns to its caller, with a value or with an error, whatever state it is started in. It is closed under
every way of composing runs, so that only the steps that can panic or hang need an argument of their own; such a step in the
middle of a run is isolated with `bind_returns_iff`.
-/

namespace Prog

open Run

variable {σ ε ε' α β : Type}

/-- The run returns from every state. -/
def Total (m : Run σ ε α) : Prop := ∀ s, (m s).1.Returns

/-- A run of two steps returns exactly when the first does, and the second from wherever the first ends. -/
theorem bind_returns_iff {m : Run σ ε α} {f : α → Run σ ε β} {s : σ} :
    ((m >>= f) s).1.Returns ↔ (m s).1.Returns ∧ ∀ a t, m s = (.ok a, t) → (f a t).1.Returns := by
  rcases h : m s with ⟨a | e | _ | _, t⟩
  · rw [bind_of_ok h]
    constructor
    · intro hf
      refine ⟨trivial, fun a' t' heq => ?_⟩
      obtain ⟨ha, rfl⟩ := Prod.mk.inj heq
      obtain rfl := Outcome.ok.inj ha
      exact hf
    · rintro ⟨-, hf⟩
      exact hf a t rfl
  · rw [bind_of_err h]
    exact ⟨fun _ => ⟨trivial, fun _ _ heq => nomatch heq⟩, fun _ => trivial⟩
  · rw [bind_of_panic h]
    exact ⟨fun hp => hp.elim, fun hp => hp.1.elim⟩
  · rw [bind_of_hang h]
    exact ⟨fun hh => hh.elim, fun hh => hh.1.elim⟩

/-- Two steps come back if the first does and the second does behind its value. -/
theorem Outcome.bind_returns_iff {o : Outcome ε α} {f : α → Outcome ε β} :
    (o >>= f).Returns ↔ o.Returns ∧ ∀ a, o = .ok a → (f a).Returns := by
  cases o with
  | ok a =>
    constructor
    · intro hf
      refine ⟨trivial, fun a' heq => ?_⟩
      obtain rfl := Outcome.ok.inj heq
      exact hf
    · rintro ⟨-, hf⟩
      exact hf a rfl
  | err e => exact ⟨fun _ => ⟨trivial, fun _ heq => nomatch heq⟩, fun _ => trivial⟩
  | panic => exact ⟨fun hp => hp.elim, fun hp => hp.1.elim⟩
  | hang => exact ⟨fun hh => hh.elim, fun hh => hh.1.elim⟩

/-- What comes back does not hang. -/
theorem Outcome.Returns.ne_hang {o : Outcome ε α} (h : o.Returns) : o ≠ .hang := by
  rintro rfl
  exact h

/-- A run of two steps does not hang when neither does. -/
theorem bind_ne_hang {m : Run σ ε α} {f : α → Run σ ε β} {s : σ} (hm : (m s).1 ≠ .hang) (hf : ∀ a t, (f a t).1 ≠ .hang) :
    ((m >>= f) s).1 ≠ .hang := by
  rcases h : m s with ⟨a | e | _ | _, t⟩
  · rw [bind_of_ok h]
    exact hf a t
  · rw [bind_of_err h]
    nofun
  · rw [bind_of_panic h]
    nofun
  · exact absurd (congrArg Prod.fst h) hm

namespace Total

theorem pure (a : α) : Total (Pure.pure a : Run σ ε α) := fun _ => trivial

theorem fail (e : ε) : Total (Run.fail e : Run σ ε α) := fun _ => trivial

theorem bind {m : Run σ ε α} {f : α → Run σ ε β} (hm : Total m) (hf : ∀ a, Total (f a)) : Total (m >>= f) :=
  fun s => bind_returns_iff.2 ⟨hm s, fun a t _ => hf a t⟩

theorem ite {c : Prop} [Decidable c] {m m' : Run σ ε α} (hm : c → Total m) (hm' : ¬c → Total m') : Total (if c then m else m') := by
  split
  · exact hm ‹c›
  · exact hm' ‹¬c›

theorem ensure {c : Prop} [Decidable c] {e : ε} : Total (Run.ensure c e : Run σ ε Unit) := fun _ => ensure_returns

theorem getS : Total (Run.getS : Run σ ε σ) := fun _ => trivial

theorem modifyS (f : σ → σ) : Total (Run.modifyS f : Run σ ε Unit) := fun _ => trivial

theorem orFail {o : Option α} {e : ε} : Total (Run.orFail o e : Run σ ε α) := by
  cases o with
  | none => exact fail e
  | some a => exact pure a

/-- A run that comes back wherever another one does. -/
theorem handled {m : Run σ ε α} {m' : Run σ ε' β} (hm : Total m) (h : ∀ s, (m s).1.Returns → (m' s).1.Returns) : Total m' :=
  fun s => h s (hm s)

theorem attempt {m : Run σ ε α} (hm : Total m) : Total (Run.attempt m : Run σ ε' (Option α)) := by
  refine hm.handled fun s => ?_
  rcases h : m s with ⟨a | e | _ | _, t⟩ <;> simp [Run.attempt, h, Outcome.Returns]

theorem otherwise {m : Run σ ε α} (hm : Total m) (b : α) : Total (Run.otherwise b m) := by
  refine hm.handled fun s => ?_
  rcases h : m s with ⟨a | e | _ | _, t⟩ <;> simp [Run.otherwise, h, Outcome.Returns]

theorem caught {m : Run σ ε α} (hm : Total m) : Total (Run.caught m : Run σ ε' (Except ε α)) := by
  refine hm.handled fun s => ?_
  rcases h : m s with ⟨a | e | _ | _, t⟩ <;> simp [Run.caught, h, Outcome.Returns]

theorem mapErr {m : Run σ ε α} (hm : Total m) (g : ε → ε') : Total (Run.mapErr g m) := by
  refine hm.handled fun s => ?_
  rcases h : m s with ⟨a | e | _ | _, t⟩ <;> simp [Run.mapErr, h, Outcome.Returns]

theorem ignored {m : Run σ ε Unit} (hm : Total m) : Total (Run.ignored m : Run σ ε' Unit) := by
  refine hm.handled fun s => ?_
  rcases h : m s with ⟨a | e | _ | _, t⟩ <;> simp [Run.ignored, h, Outcome.Returns]

theorem repeatN {m : Run σ ε Unit} (hm : Total m) (n : Nat) : Total (Run.repeatN n m) := by
  induction n with
  | zero => exact pure ()
  | succ n ih => exact bind hm fun _ => ih

theorem collectN {m : Run σ ε α} (hm : Total m) (n : Nat) : Total (Run.collectN n m) := by
  induction n with
  | zero => exact pure []
  | succ n ih => exact bind hm fun a => bind ih fun as => pure (a :: as)

theorem foldN {f : β → Run σ ε β} (hf : ∀ b, Total (f b)) (n : Nat) (b : β) : Total (Run.foldN n f b) := by
  induction n generalizing b with
  | zero => exact pure b
  | succ n ih => exact bind (hf b) ih

/-! ## Readers -/

theorem peek (d : Bytes) : Total (Prog.peek d : Run Nat ε _) := fun _ => trivial

theorem next (d : Bytes) : Total (Prog.next d) := by
  intro p
  unfold Prog.next
  dsimp only
  split <;> trivial

theorem take (d : Bytes) (n : Nat) : Total (Prog.take d n) := by
  intro p
  unfold Prog.take
  dsimp only
  split <;> trivial

theorem takeText (d : Bytes) (n : Nat) : Total (Prog.takeText d n) :=
  bind (take d n) fun _ => bind ensure fun _ => pure _

theorem advance (n : Nat) : Total (Prog.advance n : Run Nat ε Unit) := modifyS _

end Total

end Prog
