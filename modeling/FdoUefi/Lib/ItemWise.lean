import FdoUefi.Lib.Cbor
import FdoUefi.Lib.Usize

/-!
# Readers that go by the items under their cursor

A reader is item-wise when its value depends on nothing but the data items that stand at its cursor, and when it leaves the
cursor behind them. Wherever the same items stand in two byte strings, such a reader returns the same value and makes the same
way. Readers that are put together from item-wise ones are item-wise.
-/

namespace Prog

open Run Cbor

variable {ε ε' α β : Type} {P : Head → Prop} {m n : Nat}

/-- Where `n` items stand in two byte strings, `r` returns the same for both, and both cursors are behind the items then. -/
def ItemWise (P : Head → Prop) (n : Nat) (r : Bytes → Run Cur ε α) : Prop :=
  ∀ d d' u c c' e e' x y, d.length ≤ sliceMax → d'.length ≤ sliceMax → Items P n u → At d c.pos u → At d' c'.pos u →
    r d c = (.ok x, e) → r d' c' = (.ok y, e') → x = y ∧ e.pos = c.pos + u.length ∧ e'.pos = c'.pos + u.length

namespace ItemWise

/-- A reader of one item, from what it has read when it succeeds. -/
theorem of_shape {r : Bytes → Run Cur ε α} (S : Bytes → α → Prop) (hitem : ∀ w x, S w x → Item (fun _ => True) w)
    (hfun : ∀ w x y, S w x → S w y → x = y)
    (hsound : ∀ d u c e x, d.length ≤ sliceMax → Item P u → At d c.pos u → r d c = (.ok x, e) →
      ∃ w, S w x ∧ At d c.pos w ∧ e.pos = c.pos + w.length) : ItemWise P 1 r := by
  intro d d' u c c' e e' x y hd hd' hu hat hat' hx hy
  obtain ⟨w, hw, hwat, hpos⟩ := hsound d u c e x hd hu hat hx
  obtain ⟨w', hw', hwat', hpos'⟩ := hsound d' u c' e' y hd' hu hat' hy
  obtain rfl : w = u := (hitem w x hw).unique hu hwat hat
  obtain rfl : w' = w := (hitem w' y hw').unique hu hwat' hat'
  exact ⟨hfun _ x y hw hw', hpos, hpos'⟩

theorem pure (a : α) : ItemWise P 0 (fun _ => (Pure.pure a : Run Cur ε α)) := by
  intro d d' u c c' e e' x y _ _ hu _ _ hx hy
  obtain ⟨rfl, rfl⟩ := pure_ok_iff.1 hx
  obtain ⟨rfl, rfl⟩ := pure_ok_iff.1 hy
  rw [items_zero_iff.1 hu]
  exact ⟨rfl, rfl, rfl⟩

theorem bind {r : Bytes → Run Cur ε α} {f : Bytes → α → Run Cur ε β} (hr : ItemWise P m r)
    (hf : ∀ a, ItemWise P n fun d => f d a) : ItemWise P (m + n) fun d => r d >>= f d := by
  intro d d' u c c' e e' x y hd hd' hu hat hat' hx hy
  obtain ⟨v, w, rfl, hv, hw⟩ := hu.split m n rfl
  obtain ⟨hvat, hwat⟩ := at_append_iff.1 hat
  obtain ⟨hvat', hwat'⟩ := at_append_iff.1 hat'
  obtain ⟨a, c₁, ha, hx⟩ := bind_ok_iff.1 hx
  obtain ⟨b, c₁', hb, hy⟩ := bind_ok_iff.1 hy
  obtain ⟨rfl, hpos, hpos'⟩ := hr d d' v c c' c₁ c₁' a b hd hd' hv hvat hvat' ha hb
  rw [← hpos] at hwat
  rw [← hpos'] at hwat'
  obtain ⟨heq, hend, hend'⟩ := hf a d d' w c₁ c₁' e e' x y hd hd' hw hwat hwat' hx hy
  rw [hpos] at hend
  rw [hpos'] at hend'
  rw [List.length_append]
  exact ⟨heq, by omega, by omega⟩

/-- The value is put into something else. -/
theorem map {r : Bytes → Run Cur ε α} (hr : ItemWise P n r) (g : α → β) :
    ItemWise P n fun d => r d >>= fun a => Pure.pure (g a) := hr.bind fun a => pure (g a)

theorem ite {p : Prop} [Decidable p] {r r' : Bytes → Run Cur ε α} (hr : ItemWise P n r) (hr' : ItemWise P n r') :
    ItemWise P n fun d => if p then r d else r' d := by
  by_cases hp : p
  · simpa only [hp, if_true] using hr
  · simpa only [hp, if_false] using hr'

theorem mapErr {r : Bytes → Run Cur ε α} (hr : ItemWise P n r) (g : ε → ε') : ItemWise P n fun d => Run.mapErr g (r d) := by
  intro d d' u c c' e e' x y hd hd' hu hat hat' hx hy
  exact hr d d' u c c' e e' x y hd hd' hu hat hat' (mapErr_ok_iff.1 hx) (mapErr_ok_iff.1 hy)

/-- A loop over a value, `m` items in each turn. -/
theorem foldN {f : Bytes → β → Run Cur ε β} (hf : ∀ b, ItemWise P m fun d => f d b) (k : Nat) (b : β) :
    ItemWise P (k * m) fun d => Run.foldN k (f d) b := by
  induction k generalizing b with
  | zero =>
    rw [Nat.zero_mul]
    exact pure b
  | succ k ih =>
    rw [Nat.succ_mul, Nat.add_comm]
    exact (hf b).bind fun b' => ih b'

end ItemWise

end Prog
