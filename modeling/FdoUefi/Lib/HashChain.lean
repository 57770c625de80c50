import Mathlib.Data.List.Chain
import Mathlib.Data.List.Induction

/-!
# Lists chained backwards

A list in which every element names its predecessor is determined by its last element, provided an element names at most one
predecessor and the element the chain starts from is none of its links.
-/

namespace Prog

variable {α : Type} {R : α → α → Prop}

/-- One more link: the chain before it, and the link itself. -/
theorem isChain_snoc {a z : α} {xs : List α} (h : (a :: (xs ++ [z])).IsChain R) :
    (a :: xs).IsChain R ∧ ∃ x, (a :: xs).getLast? = some x ∧ R x z := by
  rw [← List.cons_append, List.isChain_append] at h
  obtain ⟨h1, -, h2⟩ := h
  obtain ⟨x, hx⟩ : ∃ x, (a :: xs).getLast? = some x := ⟨_, List.getLast?_eq_some_getLast (List.cons_ne_nil a xs)⟩
  exact ⟨h1, x, hx, h2 x hx z rfl⟩

/-- The last element of a chain is the one it starts from only when there is no other. -/
theorem getLast?_of_cons {a x : α} {xs : List α} (ha : a ∉ xs) (h : (a :: xs).getLast? = some x) :
    x = a ∧ xs = [] ∨ x ≠ a ∧ xs.getLast? = some x := by
  cases xs with
  | nil =>
    simp only [List.getLast?_singleton, Option.some.injEq] at h
    exact .inl ⟨h.symm, rfl⟩
  | cons b bs =>
    rw [List.getLast?_cons_cons] at h
    refine .inr ⟨?_, h⟩
    rintro rfl
    exact ha (List.mem_of_getLast? h)

/-- Two chains from the same start with the same last element are the same chain. -/
theorem eq_of_isChain_of_getLast? {a : α} {xs ys : List α}
    (hback : ∀ x ∈ a :: xs, ∀ y ∈ a :: ys, ∀ z, R x z → R y z → x = y) (hxs : a ∉ xs) (hys : a ∉ ys)
    (hx : (a :: xs).IsChain R) (hy : (a :: ys).IsChain R) (hlast : xs.getLast? = ys.getLast?) : xs = ys := by
  induction xs using List.reverseRecOn generalizing ys with
  | nil => exact (List.getLast?_eq_none_iff.1 hlast.symm).symm
  | append_singleton xs z ih =>
    rcases List.eq_nil_or_concat ys with rfl | ⟨ys, w, rfl⟩
    · simp at hlast
    · rw [List.concat_eq_append] at *
      obtain rfl : z = w := by simpa using hlast
      obtain ⟨hx', x, hxl, hxz⟩ := isChain_snoc hx
      obtain ⟨hy', y, hyl, hyz⟩ := isChain_snoc hy
      have hmx : ∀ u, u ∈ a :: xs → u ∈ a :: (xs ++ [z]) := fun u hu => by
        rw [← List.cons_append]
        exact List.mem_append_left _ hu
      have hmy : ∀ u, u ∈ a :: ys → u ∈ a :: (ys ++ [z]) := fun u hu => by
        rw [← List.cons_append]
        exact List.mem_append_left _ hu
      obtain rfl : x = y :=
        hback x (hmx x (List.mem_of_getLast? hxl)) y (hmy y (List.mem_of_getLast? hyl)) z hxz hyz
      have hax : a ∉ xs := fun h => hxs (List.mem_append_left _ h)
      have hay : a ∉ ys := fun h => hys (List.mem_append_left _ h)
      have hlast' : xs.getLast? = ys.getLast? := by
        rcases getLast?_of_cons hax hxl with ⟨rfl, rfl⟩ | ⟨hne, hxs'⟩
        · rcases getLast?_of_cons hay hyl with ⟨-, rfl⟩ | ⟨hne, -⟩
          · rfl
          · exact absurd rfl hne
        · rcases getLast?_of_cons hay hyl with ⟨he, -⟩ | ⟨-, hys'⟩
          · exact absurd he hne
          · rw [hxs', hys']
      rw [ih (fun u hu v hv => hback u (hmx u hu) v (hmy v hv)) hax hay hx' hy' hlast']

end Prog
