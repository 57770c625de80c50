import FdoUefi.Lib.Bytes

/-!
# Gathering a stream from pieces

A receiver takes pieces of a stream, in order, until what it has is enough or no piece is left. What it ends up with is a prefix of the
stream, and the whole of it unless it was enough.
-/

namespace Prog

variable {α : Type} {stop : List α → Bool} {acc u : List α} {cs cs' : List (List α)}

/-- Take pieces until what has been taken is enough. -/
def gather (stop : List α → Bool) (acc : List α) : List (List α) → List α
  | [] => acc
  | c :: cs => if stop (acc ++ c) then acc ++ c else gather stop (acc ++ c) cs

/-- What is gathered is a beginning of what comes. -/
theorem gather_isPrefix : gather stop acc cs <+: acc ++ cs.flatten := by
  induction cs generalizing acc with
  | nil => simp [gather]
  | cons c cs ih =>
    rw [gather, List.flatten_cons, ← List.append_assoc]
    by_cases hc : stop (acc ++ c) = true
    · rw [if_pos hc]
      exact List.prefix_append _ _
    · rw [if_neg hc]
      exact ih

/-- The receiver goes on to the end or has enough. -/
theorem gather_eq_or_stop : gather stop acc cs = acc ++ cs.flatten ∨ stop (gather stop acc cs) = true := by
  induction cs generalizing acc with
  | nil => exact .inl (by simp [gather])
  | cons c cs ih =>
    rw [gather, List.flatten_cons, ← List.append_assoc]
    by_cases hc : stop (acc ++ c) = true
    · rw [if_pos hc]
      exact .inr hc
    · rw [if_neg hc]
      exact ih

/-- While nothing is enough, the pieces are only joined. -/
theorem gather_append (h : ∀ v, v <+: acc ++ cs.flatten → stop v = false) :
    gather stop acc (cs ++ cs') = gather stop (acc ++ cs.flatten) cs' := by
  induction cs generalizing acc with
  | nil => simp
  | cons c cs ih =>
    rw [List.flatten_cons, ← List.append_assoc] at h ⊢
    have hc : stop (acc ++ c) = false := h _ (List.prefix_append _ _)
    rw [List.cons_append, gather, hc, if_neg Bool.false_ne_true]
    exact ih h

/-- A chunk that completes what is gathered is the last. -/
theorem gather_of_stop {c : List α} (h : stop (acc ++ c) = true) : gather stop acc (c :: cs) = acc ++ c := by
  rw [gather, if_pos h]

/-- The pieces of one element each. -/
theorem flatten_singles (u : List α) : (u.map fun x => [x]).flatten = u := by rw [← List.flatMap_def, List.flatMap_singleton']

end Prog
