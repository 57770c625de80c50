import Mathlib.Data.List.Basic
import Mathlib.Tactic.Common

/-!
# The last write wins

What a slot holds after a sequence of writes is the last value written, or what it held before when there was none. A slot that
is cleared and filled again holds what it was filled with, if it was (`after_filled_iff`), and what it held before exactly when it
was filled with that (`after_cleared_iff`).
-/

namespace Prog

variable {V : Type}

/-- What a slot that held `v` holds after some writes, oldest first. -/
def after (v : V) (ws : List V) : V := ws.getLast?.getD v

/-- Nothing written leaves the value. -/
@[simp] theorem after_nil (v : V) : after v [] = v := rfl

/-- A write replaces the value. -/
@[simp] theorem after_single (v w : V) : after v [w] = w := rfl

/-- Writes one after the other do so in turn. -/
theorem after_append (v : V) (ws us : List V) : after v (ws ++ us) = after (after v ws) us := by
  cases hu : us.getLast? with
  | none =>
    obtain rfl := List.getLast?_eq_none_iff.1 hu
    rw [List.append_nil, after_nil]
  | some u =>
    have happ : (ws ++ us).getLast? = some u := by rw [List.getLast?_append, hu, Option.some_or]
    rw [after, after, happ, hu, Option.getD_some, Option.getD_some]

/-- Writes of one value leave that value. -/
theorem after_const {v w : V} {ws : List V} (h : ∀ x ∈ ws, x = w) (hne : ws ≠ []) : after v ws = w := by
  rw [after, List.getLast?_eq_some_getLast hne, Option.getD_some]
  exact h _ (List.getLast_mem hne)

/-- The writes clear the slot any number of times and then fill it with one value any number of times. -/
def ClearedThenFilled (w : V) (ws : List (Option V)) : Prop :=
  ∃ xs ys, ws = xs ++ ys ∧ (∀ x ∈ xs, x = none) ∧ ∀ y ∈ ys, y = some w

/-- A slot holds the value it is filled with exactly when it was filled, or held that value and was not cleared. -/
theorem after_filled_iff {v : Option V} {w : V} {ws : List (Option V)} (h : ClearedThenFilled w ws) :
    after v ws = some w ↔ some w ∈ ws ∨ none ∉ ws ∧ v = some w := by
  obtain ⟨xs, ys, rfl, hx, hy⟩ := h
  by_cases hys : ys = []
  · subst hys
    rw [List.append_nil]
    have hmem : some w ∉ xs := fun hw => Option.some_ne_none w (hx _ hw)
    by_cases hxs : xs = []
    · simp [hxs]
    · obtain ⟨x, hxx⟩ := List.exists_mem_of_ne_nil xs hxs
      have hnone : none ∈ xs := by rwa [← hx x hxx]
      simp [after_const hx hxs, hmem, hnone]
  · obtain ⟨y, hyy⟩ := List.exists_mem_of_ne_nil ys hys
    have hmem : some w ∈ xs ++ ys := List.mem_append_right xs (by rwa [← hy y hyy])
    rw [after_append, after_const hy hys]
    exact ⟨fun _ => .inl hmem, fun _ => rfl⟩

/-- A slot that was cleared and filled holds its old value exactly when it was left alone or the old value was put back. -/
theorem after_cleared_iff {v w : V} {ws : List (Option V)} (h : ClearedThenFilled w ws) :
    after (some v) ws = some v ↔ (ws ≠ [] → some v ∈ ws) := by
  obtain ⟨xs, ys, rfl, hx, hy⟩ := h
  by_cases hys : ys = []
  · subst hys
    rw [List.append_nil]
    by_cases hxs : xs = []
    · simp [hxs]
    · rw [after_const hx hxs]
      have hmem : some v ∉ xs := fun hv => Option.some_ne_none v (hx _ hv)
      simp [hxs, hmem]
  · rw [after_append, after_const hy hys]
    constructor
    · intro heq _
      obtain ⟨y, hyy⟩ := List.exists_mem_of_ne_nil ys hys
      rw [← heq, ← hy y hyy]
      exact List.mem_append_right xs hyy
    · intro hmem
      rcases List.mem_append.1 (hmem (by simp [hys])) with hv | hv
      · exact absurd (hx _ hv) (Option.some_ne_none v)
      · exact (hy _ hv).symm

end Prog
