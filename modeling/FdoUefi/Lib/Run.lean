import Mathlib.Data.List.Basic
import Mathlib.Data.List.Forall2
import Mathlib.Tactic.Common

/-!
# Calls over a mutable state

A call of imperative code reads and changes a state and then returns a value, fails with an error, panics, or does not come
back. `Outcome` is what the caller sees and `Run σ ε α` is the call itself: the state it leaves is kept in every case, also
after a failure, because a caller may go on from it. `hang` stands for a call that has not come back within the recursion
depth it was given; a function that is total never ends in it.

The module holds the monad, the inversion rules its users argue with (`bind_ok_iff`), and loops that run a given number of
times.
-/

namespace Prog

/-- How a call ends. -/
inductive Outcome (ε α : Type) where
  | ok (a : α)
  | err (e : ε)
  | panic
  | hang
  deriving DecidableEq, Repr

/-- The call came back to its caller, with a value or with an error. -/
def Outcome.Returns {ε α : Type} : Outcome ε α → Prop
  | .ok _ => True
  | .err _ => True
  | .panic => False
  | .hang => False

instance {ε α : Type} (o : Outcome ε α) : Decidable o.Returns :=
  match o with
  | .ok _ => .isTrue trivial
  | .err _ => .isTrue trivial
  | .panic => .isFalse id
  | .hang => .isFalse id

namespace Outcome

variable {ε ε' α β : Type}

/-- What comes after a call that returned a value. -/
def andThen (o : Outcome ε α) (f : α → Outcome ε β) : Outcome ε β :=
  match o with
  | .ok a => f a
  | .err e => .err e
  | .panic => .panic
  | .hang => .hang

instance : Monad (Outcome ε) where
  pure := .ok
  bind := andThen

/-- Go on when `c` holds and fail with `e` otherwise. -/
def ensure (c : Prop) [Decidable c] (e : ε) : Outcome ε Unit := if c then .ok () else .err e

/-- The call returned a value that satisfies `P`. -/
def okWith (P : α → Bool) : Outcome ε α → Bool
  | .ok a => P a
  | _ => false

/-- The value a call returned, if it returned one. -/
def toOption : Outcome ε α → Option α
  | .ok a => some a
  | _ => none

/-- The element at an index, or a panic. -/
def index (as : List α) (i : Nat) : Outcome ε α :=
  match as[i]? with
  | some a => .ok a
  | none => .panic

/-- An `Option` of the callee as a `Result` of the caller. -/
def noneAs (o : Outcome Unit α) (e : ε) : Outcome ε α :=
  match o with
  | .ok a => .ok a
  | .err _ => .err e
  | .panic => .panic
  | .hang => .hang

/-- The error of the callee as an error of the caller. -/
def mapErr (f : ε → ε') (o : Outcome ε α) : Outcome ε' α :=
  match o with
  | .ok a => .ok a
  | .err e => .err (f e)
  | .panic => .panic
  | .hang => .hang

/-- The same call on every element of a list, up to the first that fails. -/
def collect (f : α → Outcome ε β) : List α → Outcome ε (List β)
  | [] => .ok []
  | a :: as => do
    let b ← f a
    let bs ← collect f as
    return b :: bs

/-- Two steps have a value when both have. -/
theorem bind_ok_iff {o : Outcome ε α} {f : α → Outcome ε β} {b : β} :
    (o >>= f) = .ok b ↔ ∃ a, o = .ok a ∧ f a = .ok b := by
  cases o with
  | ok a => simp [bind, andThen]
  | err e => simp [bind, andThen]
  | panic => simp [bind, andThen]
  | hang => simp [bind, andThen]

/-- A value is the only value of itself. -/
theorem pure_ok_iff {a b : α} : (pure a : Outcome ε α) = .ok b ↔ b = a := by
  simp [pure, eq_comm]

/-- What is tested is a value and a property of it. -/
theorem okWith_iff {P : α → Bool} {o : Outcome ε α} : okWith P o = true ↔ ∃ a, o = .ok a ∧ P a = true := by
  cases o <;> simp [okWith]

/-- An option has the values of the outcome. -/
theorem toOption_eq_some_iff {o : Outcome ε α} {a : α} : o.toOption = some a ↔ o = .ok a := by
  cases o <;> simp [toOption]

/-- A check passes if its condition holds. -/
theorem ensure_ok_iff {c : Prop} [Decidable c] {e : ε} {u : Unit} : ensure c e = .ok u ↔ c := by
  unfold ensure
  split <;> simp_all

/-- Naming the error of a missing value changes no value. -/
theorem noneAs_ok_iff {o : Outcome Unit α} {e : ε} {a : α} : noneAs o e = .ok a ↔ o = .ok a := by
  cases o <;> simp [noneAs]

/-- Renaming errors changes no value. -/
theorem mapErr_ok_iff {f : ε → ε'} {o : Outcome ε α} {a : α} : mapErr f o = .ok a ↔ o = .ok a := by
  cases o <;> simp [mapErr]

/-- Indexing gives the element that is there. -/
theorem index_ok_iff {as : List α} {i : Nat} {a : α} : (index as i : Outcome ε α) = .ok a ↔ as[i]? = some a := by
  unfold index
  cases as[i]? <;> simp

/-- A sequence comes back when its first part does and the rest does after every value. -/
theorem bind_returns {o : Outcome ε α} {f : α → Outcome ε β} (ho : o.Returns) (hf : ∀ a, o = .ok a → (f a).Returns) :
    (o >>= f).Returns := by
  cases o with
  | ok a => exact hf a rfl
  | err e => trivial
  | panic => exact ho
  | hang => exact ho

/-- A check comes back. -/
theorem ensure_returns {c : Prop} [Decidable c] {e : ε} : (ensure c e).Returns := by
  unfold ensure
  split <;> trivial

/-- Naming the error of a missing value does not keep it from coming back. -/
theorem noneAs_returns {o : Outcome Unit α} {e : ε} (ho : o.Returns) : (noneAs o e).Returns := by
  cases o <;> trivial

/-- Indexing within the list comes back. -/
theorem index_returns {as : List α} {i : Nat} (h : i < as.length) : (index as i : Outcome ε α).Returns := by
  unfold index
  rw [List.getElem?_eq_getElem h]
  trivial

/-- Going through a list comes back if every step does. -/
theorem collect_returns {f : α → Outcome ε β} {as : List α} (hf : ∀ a, (f a).Returns) : (collect f as).Returns := by
  induction as with
  | nil => trivial
  | cons a as ih => exact bind_returns (hf a) fun b _ => bind_returns ih fun bs _ => trivial

/-- A list is worked through exactly when every element is, each with its own result. -/
theorem collect_ok_iff {f : α → Outcome ε β} {as : List α} {bs : List β} :
    collect f as = .ok bs ↔ List.Forall₂ (fun a b => f a = .ok b) as bs := by
  induction as generalizing bs with
  | nil => simp [collect, eq_comm]
  | cons a as ih =>
    simp only [collect, bind_ok_iff, pure_ok_iff]
    constructor
    · rintro ⟨b, hb, cs, hcs, rfl⟩
      exact .cons hb (ih.1 hcs)
    · rintro (_ | ⟨hb, hcs⟩)
      exact ⟨_, hb, _, ih.2 hcs, rfl⟩

/-- What was made of the element at an index stands at that index. -/
theorem collect_getElem? {f : α → Outcome ε β} {as : List α} {bs : List β} (h : collect f as = .ok bs) {i : Nat} {b : β} :
    bs[i]? = some b ↔ ∃ a, as[i]? = some a ∧ f a = .ok b := by
  have hall := collect_ok_iff.1 h
  induction hall generalizing i with
  | nil => simp
  | @cons a c as bs hac _ ih =>
    cases i with
    | zero =>
      simp only [List.getElem?_cons_zero, Option.some.injEq, exists_eq_left', hac, Outcome.ok.injEq]
    | succ i =>
      simp only [List.getElem?_cons_succ]
      exact ih (collect_ok_iff.2 ‹_›)

/-- There is a result for each element. -/
theorem collect_length {f : α → Outcome ε β} {as : List α} {bs : List β} (h : collect f as = .ok bs) :
    bs.length = as.length := (collect_ok_iff.1 h).length_eq.symm

end Outcome

/-- A call over a state `σ` that fails with an `ε` or returns an `α`. -/
structure Run (σ ε α : Type) where
  run : σ → Outcome ε α × σ

namespace Run

variable {σ ε ε' α β : Type}

instance : CoeFun (Run σ ε α) fun _ => σ → Outcome ε α × σ := ⟨Run.run⟩

/-- What comes after a call, when the call has returned a value. -/
def andThen (m : Run σ ε α) (f : α → Run σ ε β) : Run σ ε β where
  run s := match m s with
    | (.ok a, t) => f a t
    | (.err e, t) => (.err e, t)
    | (.panic, t) => (.panic, t)
    | (.hang, t) => (.hang, t)

instance : Monad (Run σ ε) where
  pure a := ⟨fun s => (.ok a, s)⟩
  bind := andThen

/-- Fail with an error. -/
def fail (e : ε) : Run σ ε α := ⟨fun s => (.err e, s)⟩

/-- Panic: an index out of range, a capacity overflow. -/
def panics : Run σ ε α := ⟨fun s => (.panic, s)⟩

/-- Do not come back. -/
def hangs : Run σ ε α := ⟨fun s => (.hang, s)⟩

/-- Go on when `c` holds and fail with `e` otherwise. -/
def ensure (c : Prop) [Decidable c] (e : ε) : Run σ ε Unit := if c then pure () else fail e

/-- Run a call only when `c` holds. -/
def onlyIf (c : Prop) [Decidable c] (m : Run σ ε Unit) : Run σ ε Unit := if c then m else pure ()

/-- The state. -/
def getS : Run σ ε σ := ⟨fun s => (.ok s, s)⟩

/-- Replace the state. -/
def setS (t : σ) : Run σ ε Unit := ⟨fun _ => (.ok (), t)⟩

/-- Change the state. -/
def modifyS (f : σ → σ) : Run σ ε Unit := ⟨fun s => (.ok (), f s)⟩

/-- The value of an option, or an error in its absence. -/
def orFail (o : Option α) (e : ε) : Run σ ε α :=
  match o with
  | some a => pure a
  | none => fail e

/-- Run a call under another error type: the error is mapped. -/
def mapErr (f : ε → ε') (m : Run σ ε α) : Run σ ε' α where
  run s := match m s with
    | (.ok a, t) => (.ok a, t)
    | (.err e, t) => (.err (f e), t)
    | (.panic, t) => (.panic, t)
    | (.hang, t) => (.hang, t)

/-- Run a call whose failure the caller handles: an error becomes `none`, and the state the failed call left is kept. -/
def attempt (m : Run σ ε α) : Run σ ε' (Option α) where
  run s := match m s with
    | (.ok a, t) => (.ok (some a), t)
    | (.err _, t) => (.ok none, t)
    | (.panic, t) => (.panic, t)
    | (.hang, t) => (.hang, t)

/-- Run a call and go on whether it failed or not. -/
def ignored (m : Run σ ε Unit) : Run σ ε' Unit where
  run s := match m s with
    | (.ok _, t) => (.ok (), t)
    | (.err _, t) => (.ok (), t)
    | (.panic, t) => (.panic, t)
    | (.hang, t) => (.hang, t)

/-- Run a call whose failure the caller handles, with its error. -/
def caught (m : Run σ ε α) : Run σ ε' (Except ε α) where
  run s := match m s with
    | (.ok a, t) => (.ok (.ok a), t)
    | (.err e, t) => (.ok (.error e), t)
    | (.panic, t) => (.panic, t)
    | (.hang, t) => (.hang, t)

/-- The value of an `Except`, or its error. -/
def ofExcept (r : Except ε α) : Run σ ε α :=
  match r with
  | .ok a => pure a
  | .error e => fail e

/-- Run a call whose failure stands for the value `b`. -/
def otherwise (b : α) (m : Run σ ε α) : Run σ ε α where
  run s := match m s with
    | (.ok a, t) => (.ok a, t)
    | (.err _, t) => (.ok b, t)
    | (.panic, t) => (.panic, t)
    | (.hang, t) => (.hang, t)

/-- Run a call on a part of the state. -/
def onPart {ρ : Type} (part : σ → ρ) (put : ρ → σ → σ) (m : Run ρ ε α) : Run σ ε α where
  run s := ((m (part s)).1, put (m (part s)).2 s)

/-- A call that has been run already, or that keeps its state to itself. -/
def ofOutcome (o : Outcome ε α) : Run σ ε α := ⟨fun s => (o, s)⟩

/-- `n` times the same call. -/
def repeatN : Nat → Run σ ε Unit → Run σ ε Unit
  | 0, _ => pure ()
  | n + 1, m => do
    m
    repeatN n m

/-- `n` times the same call, with the values it returned in order. -/
def collectN : Nat → Run σ ε α → Run σ ε (List α)
  | 0, _ => pure []
  | n + 1, m => do
    let a ← m
    let as ← collectN n m
    return a :: as

/-- `n` times a call that takes the value of the one before. -/
def foldN {β : Type} : Nat → (β → Run σ ε β) → β → Run σ ε β
  | 0, _, b => pure b
  | n + 1, f, b => do
    let b' ← f b
    foldN n f b'

/-! ## One step at a time -/

theorem bind_def (m : Run σ ε α) (f : α → Run σ ε β) : (m >>= f) = andThen m f := rfl

@[simp] theorem pure_apply (a : α) (s : σ) : (pure a : Run σ ε α) s = (.ok a, s) := rfl

@[simp] theorem fail_apply (e : ε) (s : σ) : (fail e : Run σ ε α) s = (.err e, s) := rfl

@[simp] theorem panics_apply (s : σ) : (panics : Run σ ε α) s = (.panic, s) := rfl

@[simp] theorem hangs_apply (s : σ) : (hangs : Run σ ε α) s = (.hang, s) := rfl

@[simp] theorem getS_apply (s : σ) : (getS : Run σ ε σ) s = (.ok s, s) := rfl

@[simp] theorem setS_apply (s t : σ) : (setS t : Run σ ε Unit) s = (.ok (), t) := rfl

@[simp] theorem modifyS_apply (f : σ → σ) (s : σ) : (modifyS f : Run σ ε Unit) s = (.ok (), f s) := rfl

@[simp] theorem ofOutcome_apply (o : Outcome ε α) (s : σ) : (ofOutcome o : Run σ ε α) s = (o, s) := rfl

/-- A call that returned a value hands it, and the state it left, to what comes after. -/
theorem bind_of_ok {m : Run σ ε α} {f : α → Run σ ε β} {s t : σ} {a : α} (h : m s = (.ok a, t)) :
    (m >>= f) s = f a t := by
  simp only [bind_def, andThen, h]

/-- What comes after a failed call is not run. -/
theorem bind_of_err {m : Run σ ε α} {f : α → Run σ ε β} {s t : σ} {e : ε} (h : m s = (.err e, t)) :
    (m >>= f) s = (.err e, t) := by
  simp only [bind_def, andThen, h]

/-- After a panic nothing runs. -/
theorem bind_of_panic {m : Run σ ε α} {f : α → Run σ ε β} {s t : σ} (h : m s = (.panic, t)) :
    (m >>= f) s = (.panic, t) := by
  simp only [bind_def, andThen, h]

/-- After a call that does not come back nothing runs. -/
theorem bind_of_hang {m : Run σ ε α} {f : α → Run σ ε β} {s t : σ} (h : m s = (.hang, t)) :
    (m >>= f) s = (.hang, t) := by
  simp only [bind_def, andThen, h]

/-- Two calls are the same when they end the same way from every state. -/
theorem ext_run {m m' : Run σ ε α} (h : ∀ s, m s = m' s) : m = m' := by
  cases m
  cases m'
  exact congrArg Run.mk (funext h)

/-- Three steps can be bracketed either way. -/
theorem andThen_assoc {γ : Type} (m : Run σ ε α) (f : α → Run σ ε β) (g : β → Run σ ε γ) :
    (m >>= f) >>= g = m >>= fun a => f a >>= g := by
  refine ext_run fun s => ?_
  rcases hm : m s with ⟨a | e | _ | _, t⟩
  · rw [bind_of_ok hm]
    simp only [bind_def, andThen, hm]
  · rw [bind_of_err hm, bind_of_err (bind_of_err hm)]
  · rw [bind_of_panic hm, bind_of_panic (bind_of_panic hm)]
  · rw [bind_of_hang hm, bind_of_hang (bind_of_hang hm)]

/-- Mapping by the identity changes nothing. -/
theorem map_id_run (m : Run σ ε α) : id <$> m = m := by
  refine ext_run fun s => ?_
  change (m >>= fun a => pure (id a)) s = m s
  rcases hm : m s with ⟨a | e | _ | _, t⟩
  · rw [bind_of_ok hm, pure_apply, id]
  · exact bind_of_err hm
  · exact bind_of_panic hm
  · exact bind_of_hang hm

instance : LawfulMonad (Run σ ε) := LawfulMonad.mk' _ map_id_run (fun _ _ => rfl) andThen_assoc

/-- A sequence returns a value exactly when its first part does and the rest, from there, does. -/
theorem bind_ok_iff {m : Run σ ε α} {f : α → Run σ ε β} {s u : σ} {b : β} :
    (m >>= f) s = (.ok b, u) ↔ ∃ a t, m s = (.ok a, t) ∧ f a t = (.ok b, u) := by
  constructor
  · intro h
    rcases hm : m s with ⟨a | e | _ | _, t⟩
    · exact ⟨a, t, rfl, by rwa [bind_of_ok hm] at h⟩
    · rw [bind_of_err hm] at h; cases h
    · rw [bind_of_panic hm] at h; cases h
    · rw [bind_of_hang hm] at h; cases h
  · rintro ⟨a, t, hm, hf⟩
    rw [bind_of_ok hm, hf]

/-- The outcome of a sequence alone: the state after the first part is the one the rest runs from. -/
theorem bind_fst_ok_iff {m : Run σ ε α} {f : α → Run σ ε β} {s : σ} {b : β} :
    ((m >>= f) s).1 = .ok b ↔ ∃ a t, m s = (.ok a, t) ∧ (f a t).1 = .ok b := by
  constructor
  · intro h
    obtain ⟨a, t, hm, hf⟩ := bind_ok_iff.1 (Prod.ext h rfl : (m >>= f) s = (.ok b, ((m >>= f) s).2))
    exact ⟨a, t, hm, by rw [hf]⟩
  · rintro ⟨a, t, hm, hf⟩
    rw [bind_of_ok hm, hf]

/-- The outcome of a run and the state it leaves. -/
theorem eq_of_fst {m : Run σ ε α} {s : σ} {o : Outcome ε α} (h : (m s).1 = o) : m s = (o, (m s).2) := by rw [← h]

/-- A sequence fails in its first part or in the rest. -/
theorem bind_err_iff {m : Run σ ε α} {f : α → Run σ ε β} {s u : σ} {e : ε} :
    (m >>= f) s = (.err e, u) ↔ m s = (.err e, u) ∨ ∃ a t, m s = (.ok a, t) ∧ f a t = (.err e, u) := by
  rcases hm : m s with ⟨a | e' | _ | _, t⟩
  · simp [bind_of_ok hm]
  · simp [bind_of_err hm]
  · simp [bind_of_panic hm]
  · simp [bind_of_hang hm]

/-- A sequence either gets past its first part, or ends where that part ended and returns no value. -/
theorem bind_cases (m : Run σ ε α) (f : α → Run σ ε β) (s : σ) :
    (∃ a t, m s = (.ok a, t) ∧ (m >>= f) s = f a t) ∨
      ((m >>= f) s).2 = (m s).2 ∧ ∀ b, ((m >>= f) s).1 ≠ .ok b := by
  rcases hm : m s with ⟨a | e | _ | _, t⟩
  · exact .inl ⟨a, t, rfl, bind_of_ok hm⟩
  · exact .inr (by simp [bind_of_err hm])
  · exact .inr (by simp [bind_of_panic hm])
  · exact .inr (by simp [bind_of_hang hm])

/-- A sequence comes back when its first part does and the rest does after every value. -/
theorem bind_returns {m : Run σ ε α} {f : α → Run σ ε β} {s : σ} (hm : (m s).1.Returns)
    (hf : ∀ a t, m s = (.ok a, t) → (f a t).1.Returns) : ((m >>= f) s).1.Returns := by
  rcases h : m s with ⟨a | e | _ | _, t⟩
  · rw [bind_of_ok h]
    exact hf a t h
  · rw [bind_of_err h]
    trivial
  · rw [h] at hm
    exact hm.elim
  · rw [h] at hm
    exact hm.elim

/-- A call that came back has returned a value or failed. -/
theorem cases_of_returns {m : Run σ ε α} {s : σ} (h : (m s).1.Returns) :
    (∃ a t, m s = (.ok a, t)) ∨ ∃ e t, m s = (.err e, t) := by
  rcases hm : m s with ⟨a | e | _ | _, t⟩
  · exact .inl ⟨a, t, rfl⟩
  · exact .inr ⟨e, t, rfl⟩
  · rw [hm] at h
    exact h.elim
  · rw [hm] at h
    exact h.elim

/-- A value runs to itself. -/
theorem pure_ok_iff {s t : σ} {a b : α} : (pure a : Run σ ε α) s = (.ok b, t) ↔ b = a ∧ t = s := by
  simp [eq_comm]

/-- A check that passes is nothing. -/
theorem ensure_of_true {c : Prop} [Decidable c] (e : ε) (h : c) : (ensure c e : Run σ ε Unit) = pure () := if_pos h

/-- A check that does not pass is its error. -/
theorem ensure_of_false {c : Prop} [Decidable c] (e : ε) (h : ¬c) : (ensure c e : Run σ ε Unit) = fail e := if_neg h

/-- A check is passed exactly when its condition holds, and it changes nothing. -/
theorem ensure_ok_iff {c : Prop} [Decidable c] {e : ε} {s t : σ} {u : Unit} :
    (ensure c e : Run σ ε Unit) s = (.ok u, t) ↔ c ∧ t = s := by
  by_cases h : c
  · simp [ensure, h, eq_comm]
  · simp [ensure, h]

/-- A check comes back. -/
theorem ensure_returns {c : Prop} [Decidable c] {e : ε} {s : σ} : ((ensure c e : Run σ ε Unit) s).1.Returns := by
  unfold ensure
  split <;> trivial

/-- An option yields its value and changes nothing. -/
theorem orFail_ok_iff {o : Option α} {e : ε} {s t : σ} {a : α} :
    (orFail o e : Run σ ε α) s = (.ok a, t) ↔ o = some a ∧ t = s := by
  cases o with
  | none => simp [orFail]
  | some b => simp [orFail, eq_comm]

/-- Repeating something no times leaves the state as it is. -/
theorem repeatN_zero_ok_iff {m : Run σ ε Unit} {s t : σ} {u : Unit} : repeatN 0 m s = (.ok u, t) ↔ t = s := by
  simp [repeatN, eq_comm]

/-- Repeating something once more is doing it and then repeating it. -/
theorem repeatN_succ_ok_iff {n : Nat} {m : Run σ ε Unit} {s u : σ} :
    repeatN (n + 1) m s = (.ok (), u) ↔ ∃ t, m s = (.ok (), t) ∧ repeatN n m t = (.ok (), u) := by
  rw [repeatN, bind_ok_iff]
  constructor
  · rintro ⟨_, t, hm, hn⟩
    exact ⟨t, hm, hn⟩
  · rintro ⟨t, hm, hn⟩
    exact ⟨(), t, hm, hn⟩

/-- Calls after calls that have succeeded. -/
theorem repeatN_add_of_ok {m : Run σ ε Unit} {k n : Nat} {s t : σ} (h : repeatN k m s = (.ok (), t)) :
    repeatN (k + n) m s = repeatN n m t := by
  induction k generalizing s with
  | zero => rw [repeatN_zero_ok_iff.1 h, Nat.zero_add]
  | succ k ih =>
    obtain ⟨u, h1, h2⟩ := repeatN_succ_ok_iff.1 h
    rw [Nat.succ_add, repeatN, bind_of_ok h1, ih h2]

/-- Repeating something once is doing it. -/
theorem repeatN_one (m : Run σ ε Unit) (s : σ) : repeatN 1 m s = m s := by
  rw [repeatN, repeatN]
  rcases h : m s with ⟨_ | _ | _ | _, t⟩
  · rw [bind_of_ok h]
    rfl
  · rw [bind_of_err h]
  · rw [bind_of_panic h]
  · rw [bind_of_hang h]

/-- What every single call keeps, `n` calls keep. -/
theorem repeatN_ok_rel {m : Run σ ε Unit} {R : σ → σ → Prop} (hr : ∀ s, R s s) (ht : ∀ s t u, R s t → R t u → R s u)
    (hm : ∀ s t, m s = (.ok (), t) → R s t) {n : Nat} {s t : σ} (h : repeatN n m s = (.ok (), t)) : R s t := by
  induction n generalizing s with
  | zero =>
    rw [repeatN_zero_ok_iff.1 h]
    exact hr s
  | succ n ih =>
    obtain ⟨u, h1, h2⟩ := repeatN_succ_ok_iff.1 h
    exact ht s u t (hm s u h1) (ih h2)

/-- What every single call keeps of the value, `n` calls keep. -/
theorem foldN_ok_inv {f : β → Run σ ε β} {P : β → Prop} (hf : ∀ b s b' t, P b → f b s = (.ok b', t) → P b') {n : Nat} {b b' : β}
    {s t : σ} (hb : P b) (h : foldN n f b s = (.ok b', t)) : P b' := by
  induction n generalizing b s with
  | zero =>
    obtain ⟨rfl, -⟩ := pure_ok_iff.1 h
    exact hb
  | succ n ih =>
    obtain ⟨c, u, h1, h2⟩ := bind_ok_iff.1 h
    exact ih (hf b s c u hb h1) h2

/-- A fold in two parts. -/
theorem foldN_add_ok {f : β → Run σ ε β} {m n : Nat} {b b' : β} {s t : σ} (h : foldN (m + n) f b s = (.ok b', t)) :
    ∃ c u, foldN m f b s = (.ok c, u) ∧ foldN n f c u = (.ok b', t) := by
  induction m generalizing b s with
  | zero =>
    rw [Nat.zero_add] at h
    exact ⟨b, s, rfl, h⟩
  | succ m ih =>
    rw [Nat.succ_add, foldN] at h
    obtain ⟨c, u, h1, h2⟩ := bind_ok_iff.1 h
    obtain ⟨c', u', h3, h4⟩ := ih h2
    exact ⟨c', u', by rw [foldN, bind_of_ok h1, h3], h4⟩

/-- Pairs of calls are twice as many calls. -/
theorem repeatN_pair (m : Run σ ε Unit) (n : Nat) (s : σ) :
    repeatN n (do m; m) s = repeatN (2 * n) m s := by
  induction n generalizing s with
  | zero => rfl
  | succ n ih =>
    rw [Nat.mul_succ, repeatN, repeatN, repeatN]
    rcases h1 : m s with ⟨_ | _ | _ | _, t⟩
    · rcases h2 : m t with ⟨_ | _ | _ | _, u⟩
      · rw [bind_of_ok (bind_ok_iff.2 ⟨(), t, h1, h2⟩), bind_of_ok h1, bind_of_ok h2, ih]
      · rw [bind_of_err (by rw [bind_of_ok h1, h2]), bind_of_ok h1, bind_of_err h2]
      · rw [bind_of_panic (by rw [bind_of_ok h1, h2]), bind_of_ok h1, bind_of_panic h2]
      · rw [bind_of_hang (by rw [bind_of_ok h1, h2]), bind_of_ok h1, bind_of_hang h2]
    · rw [bind_of_err (bind_of_err h1), bind_of_err h1]
    · rw [bind_of_panic (bind_of_panic h1), bind_of_panic h1]
    · rw [bind_of_hang (bind_of_hang h1), bind_of_hang h1]

/-- Renaming errors changes no run with a value. -/
theorem mapErr_ok_iff {f : ε → ε'} {m : Run σ ε α} {s t : σ} {a : α} :
    mapErr f m s = (.ok a, t) ↔ m s = (.ok a, t) := by
  rcases h : m s with ⟨b | e | _ | _, u⟩ <;> simp [mapErr, h]

/-- A renamed error comes from one that has the name. -/
theorem mapErr_err_iff {f : ε → ε'} {m : Run σ ε α} {s t : σ} {e : ε'} :
    mapErr f m s = (.err e, t) ↔ ∃ e', m s = (.err e', t) ∧ f e' = e := by
  rcases h : m s with ⟨b | e' | _ | _, u⟩ <;> simp [mapErr, h, and_comm]

/-- A handled call has returned a value or failed, and the state is the one it left. -/
theorem attempt_ok_iff {m : Run σ ε α} {s t : σ} {o : Option α} :
    (attempt m : Run σ ε' (Option α)) s = (.ok o, t) ↔
      (∃ a, o = some a ∧ m s = (.ok a, t)) ∨ o = none ∧ ∃ e, m s = (.err e, t) := by
  rcases h : m s with ⟨b | e | _ | _, u⟩ <;> simp [attempt, h, eq_comm]

/-- A caught call has a value or an error, and the state it had. -/
theorem caught_ok_iff {m : Run σ ε α} {s t : σ} {r : Except ε α} :
    (caught m : Run σ ε' (Except ε α)) s = (.ok r, t) ↔
      (∃ a, r = .ok a ∧ m s = (.ok a, t)) ∨ ∃ e, r = .error e ∧ m s = (.err e, t) := by
  rcases h : m s with ⟨b | e | _ | _, u⟩ <;> simp [caught, h, eq_comm]

/-- An attempt that goes well has the value. -/
theorem attempt_of_ok {m : Run σ ε α} {s t : σ} {a : α} (h : m s = (.ok a, t)) :
    (attempt m : Run σ ε' (Option α)) s = (.ok (some a), t) := attempt_ok_iff.2 (.inl ⟨a, rfl, h⟩)

/-- A call whose result is ignored runs as it does. -/
theorem ignored_of_ok {m : Run σ ε Unit} {s t : σ} (h : m s = (.ok (), t)) : (ignored m : Run σ ε' Unit) s = (.ok (), t) := by
  simp only [ignored, h]

/-- An attempt does not fail. -/
theorem attempt_ne_err {m : Run σ ε α} {s t : σ} {e : ε'} : (attempt m : Run σ ε' (Option α)) s ≠ (.err e, t) := by
  rcases h : m s with ⟨b | e' | _ | _, u⟩ <;> simp [attempt, h]

/-- A run with a value for its failure does not fail. -/
theorem otherwise_ne_err {m : Run σ ε α} {s t : σ} {b : α} {e : ε} : otherwise b m s ≠ (.err e, t) := by
  rcases h : m s with ⟨c | e' | _ | _, u⟩ <;> simp [otherwise, h]

/-- A handled call leaves the state the call left. -/
theorem attempt_snd (m : Run σ ε α) (s : σ) : ((attempt m : Run σ ε' (Option α)) s).2 = (m s).2 := by
  rcases h : m s with ⟨b | e | _ | _, u⟩ <;> simp [attempt, h]

/-- Catching an error leaves the state as it was at the error. -/
theorem caught_snd (m : Run σ ε α) (s : σ) : ((caught m : Run σ ε' (Except ε α)) s).2 = (m s).2 := by
  rcases h : m s with ⟨b | e | _ | _, u⟩ <;> simp [caught, h]

/-- A result that is computed runs to its value. -/
theorem ofExcept_ok_iff {r : Except ε α} {s t : σ} {a : α} :
    (ofExcept r : Run σ ε α) s = (.ok a, t) ↔ r = .ok a ∧ t = s := by
  cases r <;> simp [ofExcept, eq_comm]

/-- An outcome runs to its value. -/
theorem ofOutcome_ok_iff {o : Outcome ε α} {s t : σ} {a : α} :
    (ofOutcome o : Run σ ε α) s = (.ok a, t) ↔ o = .ok a ∧ t = s := by
  simp [eq_comm]

/-- A handled call that keeps its state to itself. -/
theorem attempt_ofOutcome_ok {o : Outcome ε α} {s t : σ} {r : Option α}
    (h : (attempt (ofOutcome o : Run σ ε α) : Run σ ε' (Option α)) s = (.ok r, t)) : t = s ∧ ∀ a, r = some a → o = .ok a := by
  rcases attempt_ok_iff.1 h with ⟨a, rfl, hrun⟩ | ⟨rfl, e, hrun⟩
  · obtain ⟨rfl, rfl⟩ := ofOutcome_ok_iff.1 hrun
    exact ⟨rfl, fun b hb => by rw [Option.some.inj hb]⟩
  · exact ⟨(congrArg Prod.snd hrun).symm, by simp⟩

/-- A call with a default has its value, or the default after an error. -/
theorem otherwise_ok_iff {m : Run σ ε α} {s t : σ} {a b : α} :
    otherwise b m s = (.ok a, t) ↔ m s = (.ok a, t) ∨ a = b ∧ ∃ e, m s = (.err e, t) := by
  rcases h : m s with ⟨c | e | _ | _, u⟩ <;> simp [otherwise, h, eq_comm]

end Run

end Prog
