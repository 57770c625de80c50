import FdoUefi.Lib.Run
import Mathlib.Computability.Language
import Mathlib.Order.CompletePartialOrder

/-!
# Calls that speak a language

A view of the state lists what a run has said so far. `Speaks view L m` says that `m` adds a word of `L` to it when it returns a
value, and the beginning of such a word (`openings`) however it ends. A sequence of calls speaks the product of their languages,
and a loop a bounded power (`repeats`).
-/

namespace Prog

open Run

/-! ## Beginnings and repetitions -/

section

variable {τ : Type} {L M : Language τ} {v w : List τ}

/-- What a word of `L` begins with. -/
def openings (L : Language τ) : Language τ := fun w => ∃ rest, w ++ rest ∈ L

/-- A beginning of a word can be continued to the word. -/
theorem mem_openings {L : Language τ} {w : List τ} : w ∈ openings L ↔ ∃ rest, w ++ rest ∈ L := Iff.rfl

/-- A word is a beginning of itself. -/
theorem mem_openings_of_mem (h : w ∈ L) : w ∈ openings L := by
  refine mem_openings.2 ⟨[], ?_⟩
  rwa [List.append_nil]

/-- More words have more beginnings. -/
theorem openings_mono (h : L ≤ M) : openings L ≤ openings M := by
  rintro w ⟨rest, hrest⟩
  exact ⟨rest, h hrest⟩

/-- The beginning of a word is the beginning of a longer one. -/
theorem openings_le_openings_mul (h : v ∈ M) : openings L ≤ openings (L * M) := by
  rintro w ⟨rest, hrest⟩
  refine ⟨rest ++ v, ?_⟩
  rw [← List.append_assoc]
  exact Language.append_mem_mul hrest h

/-- A word, and the beginning of another. -/
theorem append_mem_openings (hw : w ∈ L) (hv : v ∈ openings M) : w ++ v ∈ openings (L * M) := by
  obtain ⟨rest, hrest⟩ := mem_openings.1 hv
  refine mem_openings.2 ⟨rest, ?_⟩
  rw [List.append_assoc]
  exact Language.append_mem_mul hw hrest

/-- From `lo` to `hi` words of `L`, one after the other. -/
def repeats (L : Language τ) (lo hi : Nat) : Language τ := fun w => ∃ n, lo ≤ n ∧ n ≤ hi ∧ w ∈ L ^ n

/-- A repetition is one of some number within the bounds. -/
theorem mem_repeats {lo hi : Nat} : w ∈ repeats L lo hi ↔ ∃ n, lo ≤ n ∧ n ≤ hi ∧ w ∈ L ^ n := Iff.rfl

/-- Repeating no times is the empty word. -/
theorem nil_mem_repeats {hi : Nat} : [] ∈ repeats L 0 hi :=
  mem_repeats.2 ⟨0, le_rfl, Nat.zero_le hi, (Language.mem_one _).2 rfl⟩

/-- What is repeated may be left out. -/
theorem one_le_repeats {hi : Nat} : 1 ≤ repeats L 0 hi := by
  intro w hw
  obtain rfl : w = [] := hw
  exact nil_mem_repeats

/-- Wider bounds allow more repetitions. -/
theorem repeats_mono {lo lo' hi hi' : Nat} (hlo : lo' ≤ lo) (hhi : hi ≤ hi') : repeats L lo hi ≤ repeats L lo' hi' := by
  rintro w ⟨n, h, h', hw⟩
  exact ⟨n, hlo.trans h, h'.trans hhi, hw⟩

/-- One word more. -/
theorem mul_repeats_le {lo hi : Nat} : L * repeats L lo hi ≤ repeats L (lo + 1) (hi + 1) := by
  intro w hw
  obtain ⟨v, hv, u, ⟨n, hlo, hhi, hu⟩, rfl⟩ := Language.mem_mul.1 hw
  refine ⟨n + 1, Nat.succ_le_succ hlo, Nat.succ_le_succ hhi, ?_⟩
  rw [pow_succ']
  exact Language.append_mem_mul hv hu

/-- The words whose letters all have a property. -/
def lettersIn (P : τ → Prop) : Language τ := fun w => ∀ t ∈ w, P t

variable {P : τ → Prop}

/-- A beginning is made of the letters of the word. -/
theorem openings_le_lettersIn (h : L ≤ lettersIn P) : openings L ≤ lettersIn P := by
  rintro w ⟨rest, hrest⟩ t ht
  exact h hrest t (List.mem_append_left rest ht)

/-- The empty word has no letters. -/
theorem one_le_lettersIn : 1 ≤ lettersIn P := by
  intro w hw t ht
  obtain rfl : w = [] := hw
  cases ht

/-- A word of two parts has the letters of both. -/
theorem mul_le_lettersIn (hL : L ≤ lettersIn P) (hM : M ≤ lettersIn P) : L * M ≤ lettersIn P := by
  intro w hw t ht
  obtain ⟨v, hv, u, hu, rfl⟩ := Language.mem_mul.1 hw
  rcases List.mem_append.1 ht with ht | ht
  · exact hL hv t ht
  · exact hM hu t ht

/-- A repetition has the letters of what is repeated. -/
theorem repeats_le_lettersIn (h : L ≤ lettersIn P) {lo hi : Nat} : repeats L lo hi ≤ lettersIn P := by
  have hpow (n : Nat) : L ^ n ≤ lettersIn P := by
    induction n with
    | zero => exact (pow_zero L).le.trans one_le_lettersIn
    | succ n ih => exact (pow_succ L n).le.trans (mul_le_lettersIn ih h)
  rintro w ⟨n, -, -, hw⟩
  exact hpow n hw

end

/-! ## Calls -/

section

variable {σ τ ε α β : Type} {view : σ → List τ} {L M : Language τ}

/-- The call says a word of `L` when it returns a value, and the beginning of one however it ends. -/
def Speaks (view : σ → List τ) (L : Language τ) (m : Run σ ε α) : Prop :=
  ∀ s, ∃ new, view (m s).2 = view s ++ new ∧ new ∈ openings L ∧ ∀ a, (m s).1 = .ok a → new ∈ L

/-- The call says nothing. -/
def Silent (view : σ → List τ) (m : Run σ ε α) : Prop := ∀ s, view (m s).2 = view s

namespace Speaks

theorem mono {m : Run σ ε α} (h : Speaks view L m) (hLM : L ≤ M) : Speaks view M m := by
  intro s
  obtain ⟨new, hnew, hopen, hok⟩ := h s
  exact ⟨new, hnew, openings_mono hLM hopen, fun a ha => hLM (hok a ha)⟩

/-- All that has been said, when nothing had been before. -/
theorem all {m : Run σ ε α} (h : Speaks view L m) {s : σ} (hs : view s = []) :
    view (m s).2 ∈ openings L ∧ ∀ a, (m s).1 = .ok a → view (m s).2 ∈ L := by
  obtain ⟨new, hnew, hopen, hok⟩ := h s
  rw [hnew, hs]
  exact ⟨hopen, hok⟩

/-- What is silent says the empty word. -/
theorem silent {m : Run σ ε α} (h : Silent view m) : Speaks view 1 m := by
  intro s
  have hone : [] ∈ (1 : Language τ) := rfl
  exact ⟨[], by rw [h s, List.append_nil], mem_openings_of_mem hone, fun _ _ => hone⟩

theorem ite {c : Prop} [Decidable c] {m m' : Run σ ε α} (hm : Speaks view L m) (hm' : Speaks view L m') :
    Speaks view L (if c then m else m') := by
  split
  · exact hm
  · exact hm'

/-- A call that says nothing speaks every language with the empty word in it. -/
theorem of_silent {m : Run σ ε α} (hnil : [] ∈ L) (hm : Silent view m) : Speaks view L m := by
  refine (silent hm).mono ?_
  rintro w rfl
  exact hnil

theorem onlyIf {c : Prop} [Decidable c] {m : Run σ ε Unit} (hnil : [] ∈ L) (hm : c → Speaks view L m) :
    Speaks view L (Run.onlyIf c m) := by
  unfold Run.onlyIf
  split
  next hc => exact hm hc
  · exact of_silent hnil fun _ => rfl

/-- One call after the other; the second may only be reached with a value that the first returns. -/
theorem bind {m : Run σ ε α} {f : α → Run σ ε β} {v : List τ} (hv : v ∈ M) (hm : Speaks view L m)
    (hf : ∀ a, (∃ s, (m s).1 = .ok a) → Speaks view M (f a)) : Speaks view (L * M) (m >>= f) := by
  intro s
  obtain ⟨new, hnew, hopen, hok⟩ := hm s
  rcases bind_cases m f s with ⟨a, t, hret, heq⟩ | ⟨hsnd, hfail⟩
  · have hret' : (m s).1 = .ok a := by rw [hret]
    obtain ⟨more, hmore, hopen', hok'⟩ := hf a ⟨s, hret'⟩ t
    refine ⟨new ++ more, ?_, append_mem_openings (hok a hret') hopen', ?_⟩
    · rw [heq, hmore, ← List.append_assoc, ← hnew, hret]
    · intro b hb
      rw [heq] at hb
      exact Language.append_mem_mul (hok a hret') (hok' b hb)
  · exact ⟨new, by rw [hsnd, hnew], openings_le_openings_mul hv hopen, fun b hb => absurd hb (hfail b)⟩

/-- What is said after a call that says nothing. -/
theorem after {m : Run σ ε α} {f : α → Run σ ε β} {v : List τ} (hv : v ∈ M) (hm : Silent view m)
    (hf : ∀ a, (∃ s, (m s).1 = .ok a) → Speaks view M (f a)) : Speaks view M (m >>= f) := by
  have h := bind hv (silent hm) hf
  rwa [one_mul] at h

/-- What is said before calls that say nothing. -/
theorem before {m : Run σ ε α} {f : α → Run σ ε β} (hm : Speaks view L m) (hf : ∀ a, Silent view (f a)) :
    Speaks view L (m >>= f) := by
  have h := bind (M := 1) (v := []) rfl hm fun a _ => silent (hf a)
  rwa [mul_one] at h

end Speaks

namespace Silent

theorem pure (a : α) : Silent view (Pure.pure a : Run σ ε α) := fun _ => rfl

theorem ofOutcome (o : Outcome ε α) : Silent view (Run.ofOutcome o : Run σ ε α) := fun _ => rfl

theorem orFail (o : Option α) (e : ε) : Silent view (Run.orFail o e : Run σ ε α) := by
  cases o with
  | none => exact fun _ => rfl
  | some a => exact .pure a

theorem bind {m : Run σ ε α} {f : α → Run σ ε β} (hm : Silent view m) (hf : ∀ a, Silent view (f a)) :
    Silent view (m >>= f) := by
  intro s
  rcases bind_cases m f s with ⟨a, t, hret, heq⟩ | ⟨hsnd, -⟩
  · rw [heq, hf a t, ← hm s, hret]
  · rw [hsnd, hm s]

end Silent

end

end Prog
