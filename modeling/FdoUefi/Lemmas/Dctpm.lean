import FdoUefi.Dctpm
import FdoUefi.Lib.Advance
import FdoUefi.Lib.Walk

/-!
# Helpers about the DCTPM structure: what `skip` steps over

`skip` reads nothing beyond the items it steps over, so it steps over the same bytes wherever they stand. `Skipped n u` says that
`u` is `n` items to it. A DCTPM is then a head and such pieces (`Parts`), and reading and replacing DCMinFirmwareRev are facts
about the pieces.
-/

namespace FdoUefi

open Prog Prog.Run Cbor

namespace Dctpm

variable {d u : Bytes} {p q : Nat}

/-- A head that was read stands at the cursor, and any head is read. -/
theorem head_ok_iff {m arg : Nat} :
    head d p = (.ok (m, arg), q) ↔
      ∃ hd : Head, additional hd.initial < 28 ∧ At d p hd.bytes ∧ m = major hd.initial ∧ arg = hd.arg ∧
        q = p + hd.bytes.length := by
  simp only [head, bind_ok_iff, next_ok_iff]
  constructor
  · rintro ⟨b, _, ⟨hb, rfl⟩, h⟩
    split_ifs at h with h23 h27
    · obtain ⟨heq, rfl⟩ := pure_ok_iff.1 h
      obtain ⟨rfl, rfl⟩ := Prod.mk.inj heq
      have hlen : ([] : Bytes).length = extLen (additional b) := by
        unfold extLen
        split <;> simp_all
      refine ⟨⟨b, [], hlen, .inl (by omega)⟩, by dsimp; omega, hb, rfl, ?_, rfl⟩
      rw [Head.arg, argVal, if_pos (by dsimp; omega)]
    · simp only [bind_ok_iff, take_ok_iff, pure_ok_iff, Prod.mk.injEq] at h
      obtain ⟨tail, _, ⟨htail, hlen, rfl⟩, ⟨rfl, rfl⟩, rfl⟩ := h
      refine ⟨⟨b, tail, hlen, .inl (by omega)⟩, by dsimp; omega, at_append_iff.2 ⟨hb, htail⟩, rfl, ?_, ?_⟩
      · rw [Head.arg, argVal, if_neg (by dsimp; omega)]
      · rw [Head.bytes_length, Nat.add_assoc]
    · simp at h
  · rintro ⟨hd, h28, hat, rfl, rfl, rfl⟩
    obtain ⟨hb, htail⟩ := at_append_iff.1 (show At d p ([hd.initial] ++ hd.tail) from hat)
    refine ⟨hd.initial, p + 1, ⟨hb, rfl⟩, ?_⟩
    split_ifs with h23 h27
    · have hlen : extLen (additional hd.initial) = 0 := by
        unfold extLen
        split <;> omega
      rw [pure_ok_iff, Head.arg, argVal, if_pos (by omega), Head.bytes_length, hlen]
      exact ⟨rfl, rfl⟩
    · simp only [bind_ok_iff, take_ok_iff, pure_ok_iff, Prod.mk.injEq]
      refine ⟨hd.tail, _, ⟨htail, hd.tail_length, rfl⟩, ⟨trivial, ?_⟩, ?_⟩
      · rw [Head.arg, argVal, if_neg (by omega)]
      · rw [Head.bytes_length, Nat.add_assoc]
    · omega

/-- `n` items to `skip`: it steps over them wherever they stand, with a recursion depth of at most their length. -/
def Skipped (n : Nat) (u : Bytes) : Prop :=
  ∀ d p k, u.length ≤ k → At d p u → repeatN n (skip d k) p = (.ok (), p + u.length)

/-- Nothing is skipped as no items. -/
theorem skipped_zero : Skipped 0 [] := stepsOver_zero

/-- Items one after the other are skipped one after the other. -/
theorem Skipped.append {m n : Nat} {v : Bytes} (hu : Skipped m u) (hv : Skipped n v) : Skipped (m + n) (u ++ v) :=
  StepsOver.append hu hv

/-- One item, stepped over by the routine itself. -/
theorem skipped_one_iff :
    Skipped 1 u ↔ ∀ d p k, u.length ≤ k → At d p u → skip d k p = (.ok (), p + u.length) := stepsOver_one_iff

/-- The content of an item after its head, as `skip` takes it. -/
def After (hd : Head) (rest : Bytes) : Prop :=
  match major hd.initial with
  | 0 | 1 | 7 => rest = []
  | 2 | 3 => rest.length = hd.arg
  | 4 => Skipped hd.arg rest
  | 5 => Skipped (hd.arg * 2 % 2 ^ 64) rest
  | 6 => Skipped 1 rest
  | _ => False

/-- A head and what must follow it are one item. -/
theorem skipped_of_after {hd : Head} (h28 : additional hd.initial < 28) {rest : Bytes} (h : After hd rest) :
    Skipped 1 (hd.bytes ++ rest) := by
  rw [skipped_one_iff]
  intro d p k hk hat
  obtain ⟨hhd, hrest⟩ := at_append_iff.1 hat
  have hpos := hd.bytes_pos
  rw [List.length_append] at hk ⊢
  obtain ⟨k, rfl⟩ : ∃ j, k = j + 1 := ⟨k - 1, by omega⟩
  rw [skip, bind_of_ok (head_ok_iff.2 ⟨hd, h28, hhd, rfl, rfl, rfl⟩)]
  have hlt := major_lt hd.initial
  unfold After at h
  rcases (by omega : major hd.initial = 0 ∨ major hd.initial = 1 ∨ major hd.initial = 2 ∨ major hd.initial = 3 ∨
    major hd.initial = 4 ∨ major hd.initial = 5 ∨ major hd.initial = 6 ∨ major hd.initial = 7) with
    hm | hm | hm | hm | hm | hm | hm | hm <;> simp only [hm] at h ⊢
  · rw [h]
    rfl
  · rw [h]
    rfl
  · rw [← h, bind_of_ok (getS_apply _), ensure_of_true _ hrest.end_le, bind_of_ok (pure_apply () _), advance_apply,
      Nat.add_assoc]
  · rw [← h, bind_of_ok (getS_apply _), ensure_of_true _ hrest.end_le, bind_of_ok (pure_apply () _), advance_apply,
      Nat.add_assoc]
  · rw [h d _ k (by omega) hrest, Nat.add_assoc]
  · rw [h d _ k (by omega) hrest, Nat.add_assoc]
  · rw [skipped_one_iff.1 h d _ k (by omega) hrest, Nat.add_assoc]
  · rw [h]
    rfl

/-- Steps that each go over one item go over as many items as there are steps. -/
theorem repeatN_skipped {k : Nat} (hk : ∀ p q, skip d k p = (.ok (), q) → ∃ u, At d p u ∧ q = p + u.length ∧ Skipped 1 u)
    {n : Nat} (hp : p ≤ d.length) (h : repeatN n (skip d k) p = (.ok (), q)) :
    ∃ u, At d p u ∧ q = p + u.length ∧ Skipped n u := by
  induction n generalizing p with
  | zero =>
    rw [repeatN_zero_ok_iff.1 h]
    exact ⟨[], at_nil hp, rfl, skipped_zero⟩
  | succ n ih =>
    obtain ⟨r, h1, h2⟩ := repeatN_succ_ok_iff.1 h
    obtain ⟨u, hu, rfl, hs⟩ := hk p r h1
    obtain ⟨v, hv, rfl, hs'⟩ := ih hu.end_le h2
    refine ⟨u ++ v, at_append_iff.2 ⟨hu, hv⟩, by rw [List.length_append, Nat.add_assoc], ?_⟩
    rw [Nat.add_comm n 1]
    exact hs.append hs'

/-- What was stepped over is one item, a head and what follows it. -/
theorem skip_ok {k : Nat} (h : skip d k p = (.ok (), q)) : ∃ u, At d p u ∧ q = p + u.length ∧ Skipped 1 u := by
  induction k generalizing p q with
  | zero => simp [skip] at h
  | succ k ih =>
    rw [skip] at h
    obtain ⟨⟨m, arg⟩, r, hhead, h⟩ := bind_ok_iff.1 h
    obtain ⟨hd, h28, hat, rfl, rfl, rfl⟩ := head_ok_iff.1 hhead
    suffices hrest : ∃ rest, At d (p + hd.bytes.length) rest ∧ q = p + hd.bytes.length + rest.length ∧ After hd rest by
      obtain ⟨rest, hr, rfl, hafter⟩ := hrest
      exact ⟨hd.bytes ++ rest, at_append_iff.2 ⟨hat, hr⟩, by rw [List.length_append, Nat.add_assoc],
        skipped_of_after h28 hafter⟩
    have hle := hat.end_le
    have hlt := major_lt hd.initial
    unfold After
    rcases (by omega : major hd.initial = 0 ∨ major hd.initial = 1 ∨ major hd.initial = 2 ∨ major hd.initial = 3 ∨
      major hd.initial = 4 ∨ major hd.initial = 5 ∨ major hd.initial = 6 ∨ major hd.initial = 7) with
      hm | hm | hm | hm | hm | hm | hm | hm <;> simp only [hm] at h ⊢
    · exact ⟨[], at_nil hle, (pure_ok_iff.1 h).2, rfl⟩
    · exact ⟨[], at_nil hle, (pure_ok_iff.1 h).2, rfl⟩
    · simp only [bind_ok_iff, getS_apply, ensure_ok_iff, advance_apply, Prod.mk.injEq, Outcome.ok.injEq] at h
      obtain ⟨_, _, ⟨rfl, rfl⟩, _, _, ⟨hend, rfl⟩, -, rfl⟩ := h
      obtain ⟨s, hs, hl⟩ := exists_at hend
      exact ⟨s, hs, by rw [hl], hl⟩
    · simp only [bind_ok_iff, getS_apply, ensure_ok_iff, advance_apply, Prod.mk.injEq, Outcome.ok.injEq] at h
      obtain ⟨_, _, ⟨rfl, rfl⟩, _, _, ⟨hend, rfl⟩, -, rfl⟩ := h
      obtain ⟨s, hs, hl⟩ := exists_at hend
      exact ⟨s, hs, by rw [hl], hl⟩
    · exact repeatN_skipped (fun _ _ => ih) hle h
    · exact repeatN_skipped (fun _ _ => ih) hle h
    · exact ih h
    · exact ⟨[], at_nil hle, (pure_ok_iff.1 h).2, rfl⟩

/-- Zero items have no bytes. -/
theorem Skipped.eq_nil (h : Skipped 0 u) : u = [] := by
  have h0 := h u 0 u.length le_rfl (at_zero_iff.2 ⟨[], (List.append_nil u).symm⟩)
  have hlen := repeatN_zero_ok_iff.1 h0
  exact List.length_eq_zero_iff.1 (by omega)

/-- Items to `skip`, one by one. -/
theorem Skipped.exists_list {n : Nat} (h : Skipped n u) :
    ∃ xs : List Bytes, xs.length = n ∧ u = xs.flatten ∧ ∀ x ∈ xs, Skipped 1 x := by
  induction n generalizing u with
  | zero => exact ⟨[], rfl, h.eq_nil, by simp⟩
  | succ n ih =>
    have hall := h u 0 u.length le_rfl (at_zero_iff.2 ⟨[], (List.append_nil u).symm⟩)
    obtain ⟨r, h1, h2⟩ := repeatN_succ_ok_iff.1 hall
    obtain ⟨x, hx, rfl, hs⟩ := skip_ok h1
    obtain ⟨v, hv, hlen, hs'⟩ := repeatN_skipped (fun _ _ => skip_ok) hx.end_le h2
    obtain ⟨xs, hl, rfl, hxs⟩ := ih hs'
    have hu : At u 0 u := at_zero_iff.2 ⟨[], (List.append_nil u).symm⟩
    refine ⟨x :: xs, by rw [List.length_cons, hl], ?_, ?_⟩
    · refine hu.unique (v := x ++ xs.flatten) (at_append_iff.2 ⟨hx, hv⟩) ?_
      rw [List.length_append]
      omega
    · intro y hy
      rcases List.mem_cons.1 hy with rfl | hy
      · exact hs
      · exact hxs y hy

/-! ## The recursion depth -/

/-- A head is read and goes forward. -/
theorem head_lands (hpq : p ≤ q) (hq : q ≤ d.length) : Lands d.length p (fun _ r => q < r) (head d q) := by
  unfold head
  refine Lands.bind (Lands.next hpq hq le_rfl) fun b r hpr hr hnext => ?_
  refine Lands.ite (fun _ => Lands.pure hpr hr (by omega)) fun _ => Lands.ite (fun _ => ?_) fun _ => Lands.fail hpr hr
  refine Lands.bind (Lands.take hpr hr le_rfl) fun bytes s hps hs htake => ?_
  exact Lands.pure hps hs (by omega)

/-- `skip` stays inside the data when the depth it is granted exceeds the bytes that are left. -/
theorem skip_lands {k : Nat} (hq : q ≤ d.length) (hk : d.length < q + k) :
    Lands d.length q (fun _ r => q < r) (skip d k q) := by
  induction k generalizing q with
  | zero => omega
  | succ k ih =>
    -- Past the head there is one byte less, and one level less is granted.
    have hitems : ∀ {n r : Nat}, q < r → r ≤ d.length →
        Lands d.length q (fun _ s => q < s) (repeatN n (skip d k) r) := fun {n r} hqr hr =>
      (Lands.repeatN le_rfl hr fun s hrs hs => (ih hs (by omega)).trivially).mono hqr.le fun _ _ h _ _ => by omega
    rw [skip]
    refine Lands.bind (head_lands le_rfl hq) fun h r hqr hr hlt => ?_
    obtain ⟨m, arg⟩ := h
    have hstr : Lands d.length q (fun _ s => q < s)
        ((getS >>= fun pos => ensure (pos + arg ≤ d.length) () >>= fun _ => advance arg) r) := by
      refine Lands.bind (Lands.getS hqr hr) fun pos s _ _ hpos => ?_
      obtain ⟨rfl, rfl⟩ := hpos
      refine Lands.bind (Lands.ensure hqr hr) fun _ s _ _ hens => ?_
      obtain ⟨hle, rfl⟩ := hens
      exact (Lands.advance hqr hle).mono le_rfl fun _ _ _ _ h => by omega
    dsimp only
    split
    · exact Lands.pure hqr hr hlt
    · exact Lands.pure hqr hr hlt
    · exact Lands.pure hqr hr hlt
    · exact hstr
    · exact hstr
    · exact hitems hlt hr
    · exact hitems hlt hr
    · exact (ih hr (by omega)).mono hqr fun _ _ _ _ h => by omega
    · exact Lands.fail hqr hr

/-- The depth that is granted is never used up. -/
theorem skipItem_lands (hpq : p ≤ q) (hq : q ≤ d.length) : Lands d.length p (fun _ _ => True) (skipItem d q) :=
  (skip_lands hq (by omega)).mono hpq fun _ _ _ _ _ => trivial

/-! ## The pieces of a structure -/

/-- `d` starts with an array of `n` items: ten items `ten`, then `old`, which is item 10 where there is one, then `rest`. -/
structure Parts (d : Bytes) (n : Nat) (ten old rest : Bytes) : Prop where
  ten_le : 10 ≤ n
  head : ∃ hd : Head, additional hd.initial < 28 ∧ hd.IsMajor 4 ∧ hd.arg = n ∧ At d 0 (hd.bytes ++ (ten ++ (old ++ rest)))
  ten : Skipped 10 ten
  old : Skipped (min 1 (n - 10)) old
  rest : Skipped (n - 11) rest

/-- The head of an index is one of an array of ten or more. -/
theorem arrayHead_ok_iff {n : Nat} :
    arrayHead d p = (.ok n, q) ↔
      ∃ hd : Head, additional hd.initial < 28 ∧ At d p hd.bytes ∧ hd.IsMajor 4 ∧ hd.arg = n ∧ 10 ≤ n ∧
        q = p + hd.bytes.length := by
  simp only [arrayHead, bind_ok_iff, ensure_ok_iff, pure_ok_iff, Prod.exists]
  constructor
  · rintro ⟨m, arg, _, hh, _, _, ⟨⟨rfl, h10⟩, rfl⟩, rfl, rfl⟩
    obtain ⟨hd, h28, hat, hm, rfl, rfl⟩ := head_ok_iff.1 hh
    exact ⟨hd, h28, hat, hm.symm, rfl, h10, rfl⟩
  · rintro ⟨hd, h28, hat, hm, rfl, h10, rfl⟩
    exact ⟨4, hd.arg, _, head_ok_iff.2 ⟨hd, h28, hat, hm.symm, rfl, rfl⟩, (), _, ⟨⟨rfl, h10⟩, rfl⟩, rfl, rfl⟩

/-- Items that are skipped are passed where they stand. -/
theorem repeatN_skipItem {n : Nat} (h : Skipped n u) (hat : At d p u) :
    repeatN n (skipItem d) p = (.ok (), p + u.length) := h d p _ (by have := hat.end_le; omega) hat

/-- What the skip routine passes is an item that is skipped. -/
theorem skipItem_ok_iff : skipItem d p = (.ok (), q) ↔ ∃ u, At d p u ∧ q = p + u.length ∧ Skipped 1 u := by
  constructor
  · exact skip_ok
  · rintro ⟨u, hat, rfl, hs⟩
    exact skipped_one_iff.1 hs d p _ (by have := hat.end_le; omega) hat

/-- What the skip routine passes in several turns is so many items that are skipped. -/
theorem repeatN_skipItem_ok_iff {n : Nat} (hp : p ≤ d.length) :
    repeatN n (skipItem d) p = (.ok (), q) ↔ ∃ u, At d p u ∧ q = p + u.length ∧ Skipped n u := by
  constructor
  · exact repeatN_skipped (fun _ _ => skip_ok) hp
  · rintro ⟨u, hat, rfl, hs⟩
    exact repeatN_skipItem hs hat

/-- The range of the items after item 10, together with item 10. -/
theorem restRange_ok_iff {n a b : Nat} (hp : p ≤ d.length) (hn : 10 ≤ n) :
    restRange d n p = (.ok (a, b), q) ↔
      ∃ old rest, At d p (old ++ rest) ∧ Skipped (min 1 (n - 10)) old ∧ Skipped (n - 11) rest ∧ a = p + old.length ∧
        b = a + rest.length ∧ q = b := by
  unfold restRange
  have h10 : minFirmwareRevItem = 10 := rfl
  by_cases hlt : minFirmwareRevItem < n
  · have hone : min 1 (n - 10) = 1 := by omega
    rw [if_pos hlt, hone]
    simp only [bind_ok_iff, getS_apply, pure_ok_iff, Prod.mk.injEq, Outcome.ok.injEq, h10]
    constructor
    · rintro ⟨_, _, h1, _, _, ⟨rfl, rfl⟩, _, _, h2, _, _, ⟨rfl, rfl⟩, ⟨rfl, rfl⟩, rfl⟩
      obtain ⟨old, hold, rfl, ho⟩ := skipItem_ok_iff.1 h1
      obtain ⟨rest, hrest, rfl, hr⟩ := (repeatN_skipItem_ok_iff hold.end_le).1 h2
      exact ⟨old, rest, at_append_iff.2 ⟨hold, hrest⟩, ho, hr, rfl, rfl, rfl⟩
    · rintro ⟨old, rest, hat, ho, hr, rfl, rfl, rfl⟩
      obtain ⟨hold, hrest⟩ := at_append_iff.1 hat
      exact ⟨(), _, skipItem_ok_iff.2 ⟨old, hold, rfl, ho⟩, _, _, ⟨rfl, rfl⟩, (), _, repeatN_skipItem hr hrest, _, _,
        ⟨rfl, rfl⟩, ⟨rfl, rfl⟩, rfl⟩
  · obtain rfl : n = 10 := by omega
    rw [if_neg hlt]
    simp only [bind_ok_iff, getS_apply, pure_ok_iff, Prod.mk.injEq, Outcome.ok.injEq]
    constructor
    · rintro ⟨_, _, ⟨rfl, rfl⟩, ⟨rfl, rfl⟩, rfl⟩
      exact ⟨[], [], at_nil hp, skipped_zero, skipped_zero, rfl, rfl, rfl⟩
    · rintro ⟨old, rest, -, ho, hr, rfl, rfl, rfl⟩
      rw [ho.eq_nil, Skipped.eq_nil hr]
      exact ⟨p, p, ⟨rfl, rfl⟩, ⟨rfl, rfl⟩, rfl⟩

/-- A structure is rewritten exactly when it has its pieces, and the new one is put together from them. -/
theorem withMinFirmwareRev_ok_iff {rev : Nat} {o : Bytes} :
    withMinFirmwareRev d rev = .ok o ↔
      ∃ n ten old rest, Parts d n ten old rest ∧ o = encodeHead 4 (max n 11) ++ ten ++ encodeUint rev ++ rest := by
  have hread : withMinFirmwareRev d rev = .ok o ↔ ∃ n p₀ p₁ a b p₂ firstTen rest, arrayHead d 0 = (.ok n, p₀) ∧
      repeatN 10 (skipItem d) p₀ = (.ok (), p₁) ∧ restRange d n p₁ = (.ok (a, b), p₂) ∧
      (At d p₀ firstTen ∧ p₁ = p₀ + firstTen.length) ∧ (At d a rest ∧ b = a + rest.length) ∧
      o = encodeHead 4 (max n 11) ++ firstTen ++ encodeUint rev ++ rest := by
    simp only [withMinFirmwareRev, Run.eval, bind_fst_ok_iff, getS_apply, Prod.mk.injEq, Outcome.ok.injEq, slice_ok_iff,
      pure_apply, Prod.exists, minFirmwareRevItem]
    constructor
    · rintro ⟨n, p₀, hhead, _, _, ⟨rfl, rfl⟩, _, p₁, hten, _, _, ⟨rfl, rfl⟩, a, b, p₂, hrange, firstTen, _, ⟨hf, hl, rfl⟩, rest,
        _, ⟨hr, hl', rfl⟩, rfl⟩
      exact ⟨n, _, _, a, b, _, firstTen, rest, hhead, hten, hrange, ⟨hf, hl⟩, ⟨hr, hl'⟩, rfl⟩
    · rintro ⟨n, p₀, p₁, a, b, p₂, firstTen, rest, hhead, hten, hrange, hf, hr, rfl⟩
      exact ⟨n, p₀, hhead, _, _, ⟨rfl, rfl⟩, (), p₁, hten, _, _, ⟨rfl, rfl⟩, a, b, p₂, hrange, firstTen, _,
        ⟨hf.1, hf.2, rfl⟩, rest, _, ⟨hr.1, hr.2, rfl⟩, rfl⟩
  rw [hread]
  constructor
  · rintro ⟨n, p₀, p₁, a, b, p₂, firstTen, rest', hhead, hten, hrange, ⟨hf, hfl⟩, ⟨hr, hrl⟩, rfl⟩
    obtain ⟨hd, h28, hat, hm, harg, h10, rfl⟩ := arrayHead_ok_iff.1 hhead
    obtain ⟨ten, hat10, rfl, hs10⟩ := (repeatN_skipItem_ok_iff hat.end_le).1 hten
    obtain ⟨old, rest, hrat, ho, hrest, rfl, rfl, rfl⟩ := (restRange_ok_iff hat10.end_le h10).1 hrange
    obtain rfl : firstTen = ten := hf.unique hat10 (by omega)
    obtain rfl : rest' = rest := hr.unique (at_append_iff.1 hrat).2 (by omega)
    exact ⟨n, firstTen, old, rest', ⟨h10, ⟨hd, h28, hm, harg, at_append_iff.2 ⟨hat, at_append_iff.2 ⟨hat10, hrat⟩⟩⟩, hs10, ho,
      hrest⟩, rfl⟩
  · rintro ⟨n, ten, old, rest, ⟨h10, ⟨hd, h28, hm, harg, hall⟩, hs10, ho, hrest⟩, rfl⟩
    obtain ⟨hat, hall⟩ := at_append_iff.1 hall
    obtain ⟨hat10, hrat⟩ := at_append_iff.1 hall
    exact ⟨n, _, _, _, _, _, ten, rest, arrayHead_ok_iff.2 ⟨hd, h28, hat, hm, harg, h10, rfl⟩, repeatN_skipItem hs10 hat10,
      (restRange_ok_iff hat10.end_le h10).2 ⟨old, rest, hrat, ho, hrest, rfl, rfl, rfl⟩, ⟨hat10, rfl⟩,
      ⟨(at_append_iff.1 hrat).2, rfl⟩, rfl⟩

/-! ## Reading back what was written -/

/-- The shortest head, as the structure's own readers see it. -/
theorem encodeHead_head {m v : Nat} (hm : m < 7) (hv : v < 2 ^ 64) :
    ∃ hd : Head, encodeHead m v = hd.bytes ∧ hd.IsMajor m ∧ hd.arg = v ∧ additional hd.initial < 28 := by
  obtain ⟨hd, hb, hmaj, harg, hrfc, -⟩ := shortHead_head hm hv
  exact ⟨hd, hb, hmaj, harg, hrfc.1⟩

/-- A counter is skipped. -/
theorem skipped_encodeUint {v : Nat} (hv : v < 2 ^ 64) : Skipped 1 (encodeUint v) := by
  obtain ⟨hd, hb, hmaj, -, h28⟩ := encodeHead_head (m := 0) (by omega) hv
  have hafter : After hd [] := by
    unfold Head.IsMajor at hmaj
    simp only [After, hmaj]
  have hs := skipped_of_after h28 hafter
  rw [List.append_nil] at hs
  rw [encodeUint, hb]
  exact hs

/-- The length of the structure has 64 bits. -/
theorem Parts.lt {n : Nat} {ten old rest : Bytes} (h : Parts d n ten old rest) : n < 2 ^ 64 := by
  obtain ⟨hd, -, -, harg, -⟩ := h.head
  rw [← harg]
  exact hd.arg_lt

/-- What is written has the pieces of the old structure, with the new revision as item 10, whatever follows it. -/
theorem Parts.rewritten {n rev : Nat} {ten old rest : Bytes} (h : Parts d n ten old rest) (hrev : rev < 2 ^ 64) (z : Bytes) :
    Parts (encodeHead 4 (max n 11) ++ ten ++ encodeUint rev ++ rest ++ z) (max n 11) ten (encodeUint rev) rest := by
  have hn := h.lt
  obtain ⟨hd, hb, hmaj, harg, h28⟩ := encodeHead_head (m := 4) (v := max n 11) (by omega) (by omega)
  refine ⟨by omega, ⟨hd, h28, hmaj, harg, ?_⟩, h.ten, ?_, ?_⟩
  · rw [hb]
    exact at_zero_iff.2 ⟨z, by simp only [List.append_assoc]⟩
  · have hone : min 1 (max n 11 - 10) = 1 := by omega
    rw [hone]
    exact skipped_encodeUint hrev
  · have heq : max n 11 - 11 = n - 11 := by omega
    rw [heq]
    exact h.rest

/-- In a structure of more than ten items the reader returns the number that stands as item 10. -/
theorem Parts.minFirmwareRev {n rev : Nat} {ten rest : Bytes} (h : Parts d n ten (encodeUint rev) rest) (hn : 11 ≤ n)
    (hrev : rev < 2 ^ 64) : minFirmwareRev d = .ok rev := by
  obtain ⟨hd, h28, hmaj, harg, hall⟩ := h.head
  obtain ⟨hat, hall⟩ := at_append_iff.1 hall
  obtain ⟨hten, hall⟩ := at_append_iff.1 hall
  obtain ⟨hold, -⟩ := at_append_iff.1 hall
  obtain ⟨hr, hb, hrmaj, hrarg, hr28⟩ := encodeHead_head (m := 0) (by omega) hrev
  rw [encodeUint, hb] at hold
  have harr := arrayHead_ok_iff.2 ⟨hd, h28, hat, hmaj, harg, h.ten_le, rfl⟩
  have hitem : ¬n ≤ minFirmwareRevItem := by
    have h10 : minFirmwareRevItem = 10 := rfl
    omega
  have hitems : repeatN minFirmwareRevItem (skipItem d) (0 + hd.bytes.length) = (.ok (), 0 + hd.bytes.length + ten.length) :=
    repeatN_skipItem h.ten hten
  have hlast := head_ok_iff.2 ⟨hr, hr28, hold, hrmaj.symm, hrarg.symm, rfl⟩
  simp only [Dctpm.minFirmwareRev, Run.eval]
  rw [bind_of_ok harr, if_neg hitem, bind_of_ok hitems, bind_of_ok hlast]
  rfl

/-- Rewriting a structure does not depend on the revision that is put in. -/
def Rewritable (d : Bytes) : Prop := ∃ n ten old rest, Parts d n ten old rest

/-- An index can be rewritten for every revision or for none. -/
theorem rewritable_iff (rev : Nat) : Rewritable d ↔ ∃ o, withMinFirmwareRev d rev = .ok o := by
  constructor
  · rintro ⟨n, ten, old, rest, h⟩
    exact ⟨_, withMinFirmwareRev_ok_iff.2 ⟨n, ten, old, rest, h, rfl⟩⟩
  · rintro ⟨o, ho⟩
    obtain ⟨n, ten, old, rest, h, -⟩ := withMinFirmwareRev_ok_iff.1 ho
    exact ⟨n, ten, old, rest, h⟩

/-- A structure that was rewritten can be rewritten again, and its counter is the revision that was put in. -/
theorem withMinFirmwareRev_ok {rev : Nat} {o : Bytes} (hrev : rev < 2 ^ 64) (h : withMinFirmwareRev d rev = .ok o) (z : Bytes) :
    Rewritable (o ++ z) ∧ Dctpm.minFirmwareRev (o ++ z) = .ok rev := by
  obtain ⟨n, ten, old, rest, hp, rfl⟩ := withMinFirmwareRev_ok_iff.1 h
  have hnew := hp.rewritten hrev z
  exact ⟨⟨_, _, _, _, hnew⟩, hnew.minFirmwareRev (by omega) hrev⟩

end Dctpm

end FdoUefi
