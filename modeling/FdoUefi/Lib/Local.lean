import FdoUefi.Lib.Cursor

/-!
# Readers that look nowhere else

What such a reader returns from one place up to another depends on the bytes between the two alone, and it returns the same
wherever these stand (`Local`). The rules follow the shape of a reader.
-/

namespace Prog

open Run

section

variable {ε α β : Type}

/-- The reader does not go back, and what it returns from the bytes it has passed it returns wherever they stand. -/
def Local (m : Bytes → Run Nat ε α) : Prop :=
  ∀ d p a q, m d p = (.ok a, q) →
    p ≤ q ∧ ∀ u, At d p u → q = p + u.length → ∀ d' p', At d' p' u → m d' p' = (.ok a, p' + u.length)

namespace Local

/-- A call that does not look at the data and does not move. -/
theorem still {m : Run Nat ε α} (h : ∀ p a q, m p = (.ok a, q) → q = p ∧ ∀ p', m p' = (.ok a, p')) : Local fun _ => m := by
  intro d p a q hm
  obtain ⟨rfl, hall⟩ := h p a q hm
  refine ⟨le_rfl, fun u _ hq d' p' _ => ?_⟩
  have hlen : u.length = 0 := by omega
  rw [hall p', hlen, Nat.add_zero]

theorem pure (a : α) : Local fun _ => (Pure.pure a : Run Nat ε α) := by
  refine still fun p b q h => ?_
  obtain ⟨rfl, rfl⟩ := pure_ok_iff.1 h
  exact ⟨rfl, fun _ => rfl⟩

theorem fail (e : ε) : Local fun _ => (Run.fail e : Run Nat ε α) := by
  refine still fun p a q h => ?_
  rw [fail_apply] at h
  cases h

theorem ensure (c : Prop) [Decidable c] (e : ε) : Local fun _ => (Run.ensure c e : Run Nat ε Unit) := by
  refine still fun p a q h => ?_
  obtain ⟨hc, rfl⟩ := ensure_ok_iff.1 h
  exact ⟨rfl, fun p' => ensure_ok_iff.2 ⟨hc, rfl⟩⟩

theorem ite {c : Prop} [Decidable c] {m m' : Bytes → Run Nat ε α} (hm : Local m) (hm' : Local m') :
    Local fun d => if c then m d else m' d := by
  by_cases hc : c
  · simp only [if_pos hc]
    exact hm
  · simp only [if_neg hc]
    exact hm'

/-- The bytes of a sequence are those of its first part and those of the rest. -/
theorem bind {m : Bytes → Run Nat ε α} {f : Bytes → α → Run Nat ε β} (hm : Local m) (hf : ∀ a, Local fun d => f d a) :
    Local fun d => m d >>= f d := by
  intro d p b q h
  obtain ⟨a, r, ha, hb⟩ := bind_ok_iff.1 h
  obtain ⟨hpr, hfirst⟩ := hm d p a r ha
  obtain ⟨hrq, hrest⟩ := hf a d r b q hb
  refine ⟨hpr.trans hrq, fun u hat hq d' p' hat' => ?_⟩
  obtain ⟨v, w, rfl, hv⟩ : ∃ v w, u = v ++ w ∧ r = p + v.length := by
    refine ⟨u.take (r - p), u.drop (r - p), (List.take_append_drop _ u).symm, ?_⟩
    rw [List.length_take]
    omega
  obtain ⟨hatv, hatw⟩ := at_append_iff.1 hat
  obtain ⟨hatv', hatw'⟩ := at_append_iff.1 hat'
  rw [List.length_append] at hq ⊢
  rw [← hv] at hatw
  rw [bind_of_ok (hfirst v hatv hv d' p' hatv'), hrest w hatw (by omega) d' _ hatw', Nat.add_assoc]

theorem repeatN {m : Bytes → Run Nat ε Unit} (hm : Local m) (n : Nat) : Local fun d => Run.repeatN n (m d) := by
  induction n with
  | zero => exact pure ()
  | succ n ih => exact hm.bind fun _ => ih

end Local

end

namespace Local

theorem next : Local Prog.next := by
  intro d p b q h
  obtain ⟨hb, rfl⟩ := next_ok_iff.1 h
  refine ⟨Nat.le_succ p, fun u hat hq d' p' hat' => ?_⟩
  have hlen : u.length = 1 := by omega
  obtain rfl : u = [b] := hat.unique hb hlen
  exact next_ok_iff.2 ⟨hat', rfl⟩

theorem take (n : Nat) : Local fun d => Prog.take d n := by
  intro d p s q h
  obtain ⟨hs, hn, rfl⟩ := take_ok_iff.1 h
  refine ⟨Nat.le_add_right p n, fun u hat hq d' p' hat' => ?_⟩
  have hlen : u.length = s.length := by omega
  obtain rfl : u = s := hat.unique hs hlen
  exact take_ok_iff.2 ⟨hat', hn, by rw [hn]⟩

end Local

end Prog
