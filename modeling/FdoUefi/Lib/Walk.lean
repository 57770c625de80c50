import FdoUefi.Lib.Cbor

/-!
# Walking over data items

A routine that steps over a data item reads the head at its cursor and calls itself for the items the head announces. Only its
relation between places matters here: `W k p q` says that, granted `k` levels of recursion, it steps from `p` to `q`. `Inner d p r`
are the places where it may be called when it starts at `p` (a data item starts at `r` inside the one at `p`), `Level` is what
one level has to do there, and `walk_item` is the induction over the levels: what was stepped over is one item.
-/

namespace Cbor

open Prog

/-- The bytes from `p` up to `q` are one well-formed data item. -/
def OneItem (d : Bytes) (p q : Nat) : Prop := ∃ u, Item Head.Rfc u ∧ At d p u ∧ q = p + u.length

/-- The number of items that a head announces. -/
def Head.contents (h : Head) : Nat :=
  match major h.initial with
  | 4 => h.arg
  | 5 => 2 * h.arg
  | 6 => 1
  | _ => 0

/-- A data item starts at the second place when the bytes from the first place on are read as one. -/
inductive Inner (d : Bytes) : Nat → Nat → Prop where
  | here (p : Nat) : Inner d p p
  | content {p r i : Nat} {u : Bytes} (h : Head) (hat : At d p (h.bytes ++ u)) (hu : Items Head.Rfc i u) (hi : i < h.contents)
      (hr : Inner d (p + (h.bytes ++ u).length) r) : Inner d p r

/-- `n` steps of `W`, one after the other. -/
def StepsN (W : Nat → Nat → Prop) : Nat → Nat → Nat → Prop
  | 0, p, q => q = p
  | n + 1, p, q => ∃ r, W p r ∧ StepsN W n r q

/-- What one level does with the head `h` at `p`: the cursor is behind it, behind the content of a string that is there in
full, or behind the items that it announces. A routine may miscount those where so many do not stand there. -/
inductive Level (d : Bytes) (W : Nat → Nat → Prop) (h : Head) (p : Nat) : Nat → Prop where
  | single (hm : h.IsMajor 0 ∨ h.IsMajor 1 ∨ h.IsMajor 7) : Level d W h p (p + h.bytes.length)
  | str (hm : h.IsMajor 2 ∨ h.IsMajor 3) (hle : p + h.bytes.length + h.arg ≤ d.length) :
      Level d W h p (p + h.bytes.length + h.arg)
  | nested {n q : Nat} (hm : h.IsMajor 4 ∨ h.IsMajor 5 ∨ h.IsMajor 6) (hn : n ≤ h.contents)
      (hs : StepsN W n (p + h.bytes.length) q)
      (hall : ∀ u, Items Head.Rfc n u → At d (p + h.bytes.length) u → n = h.contents) : Level d W h p q

/-- `n` items to a routine with a recursion depth: it steps over them wherever they stand, with a depth of at most their length. -/
def StepsOver (m : Bytes → Nat → Run Nat Unit Unit) (n : Nat) (u : Bytes) : Prop :=
  ∀ d p k, u.length ≤ k → At d p u → Run.repeatN n (m d k) p = (.ok (), p + u.length)

variable {d : Bytes} {p q r : Nat}

/-! ## What a head announces -/

/-- An array holds as many items as its head says. -/
theorem Head.contents_array {h : Head} (hm : h.IsMajor 4) : h.contents = h.arg := by
  unfold Head.IsMajor at hm
  simp only [Head.contents, hm]

/-- A map holds twice as many. -/
theorem Head.contents_map {h : Head} (hm : h.IsMajor 5) : h.contents = 2 * h.arg := by
  unfold Head.IsMajor at hm
  simp only [Head.contents, hm]

/-- A tag holds one. -/
theorem Head.contents_tag {h : Head} (hm : h.IsMajor 6) : h.contents = 1 := by
  unfold Head.IsMajor at hm
  simp only [Head.contents, hm]

/-! ## Routines with a recursion depth -/

section StepsOver

variable {m : Bytes → Nat → Run Nat Unit Unit} {n : Nat} {u v : Bytes}

/-- No steps go nowhere. -/
theorem stepsOver_zero : StepsOver m 0 [] := fun _ _ _ _ _ => rfl

/-- Steps one after the other go over both parts. -/
theorem StepsOver.append {k : Nat} (hu : StepsOver m k u) (hv : StepsOver m n v) : StepsOver m (k + n) (u ++ v) := by
  intro d p fuel hfuel hat
  rw [List.length_append] at hfuel
  obtain ⟨h1, h2⟩ := at_append_iff.1 hat
  have hk := hu d p fuel (by omega) h1
  have hn := hv d (p + u.length) fuel (by omega) h2
  rw [Run.repeatN_add_of_ok hk, hn, List.length_append, Nat.add_assoc]

/-- One item, stepped over by the routine itself. -/
theorem stepsOver_one_iff :
    StepsOver m 1 u ↔ ∀ d p k, u.length ≤ k → At d p u → m d k p = (.ok (), p + u.length) := by
  simp only [StepsOver, Run.repeatN_one]

/-- Items one after the other are stepped over one after the other. -/
theorem StepsOver.flatten {xs : List Bytes} (hxs : ∀ x ∈ xs, StepsOver m 1 x) : StepsOver m xs.length xs.flatten := by
  induction xs with
  | nil => exact stepsOver_zero
  | cons x xs ih =>
    have hrest := ih fun y hy => hxs y (by simp [hy])
    rw [List.length_cons, List.flatten_cons, Nat.add_comm]
    exact (hxs x (by simp)).append hrest

/-- Steps that each go over one item go over as many items as there are steps, if they end inside the data. -/
theorem repeatN_stepsOver {k : Nat} (hlt : ∀ p q, m d k p = (.ok (), q) → p ≤ q)
    (hk : ∀ p q, m d k p = (.ok (), q) → q ≤ d.length → ∃ u, At d p u ∧ q = p + u.length ∧ StepsOver m 1 u)
    (hp : p ≤ d.length) (h : Run.repeatN n (m d k) p = (.ok (), q)) (hq : q ≤ d.length) :
    ∃ u, At d p u ∧ q = p + u.length ∧ StepsOver m n u := by
  induction n generalizing p with
  | zero =>
    rw [Run.repeatN_zero_ok_iff.1 h]
    exact ⟨[], at_nil hp, rfl, stepsOver_zero⟩
  | succ n ih =>
    obtain ⟨r, h1, h2⟩ := Run.repeatN_succ_ok_iff.1 h
    have hrq : r ≤ q := Run.repeatN_ok_rel (R := (· ≤ ·)) (fun _ => le_refl _) (fun _ _ _ => le_trans) hlt h2
    obtain ⟨u, hu, rfl, hs⟩ := hk p r h1 (by omega)
    obtain ⟨v, hv, rfl, hs'⟩ := ih (by omega) h2
    refine ⟨u ++ v, at_append_iff.2 ⟨hu, hv⟩, by rw [List.length_append, Nat.add_assoc], ?_⟩
    rw [Nat.add_comm n 1]
    exact hs.append hs'

end StepsOver

/-! ## A fold over pieces that stand one after the other -/

section Pieces

variable {ε α β : Type} {f : β → Run Nat ε β} {g : β → α → β} {enc : α → Bytes} {xs : List α}

/-- A step that reads each of the pieces makes a loop that reads all of them. -/
theorem foldN_pieces (hstep : ∀ a ∈ xs, ∀ b p, At d p (enc a) → f b p = (.ok (g b a), p + (enc a).length)) (b : β)
    (hat : At d p (xs.flatMap enc)) :
    Run.foldN xs.length f b p = (.ok (xs.foldl g b), p + (xs.flatMap enc).length) := by
  induction xs generalizing b p with
  | nil => rfl
  | cons a xs ih =>
    rw [List.flatMap_cons] at hat ⊢
    obtain ⟨ha, hrest⟩ := at_append_iff.1 hat
    have hfirst := hstep a (by simp) b p ha
    have hloop := ih (fun x hx => hstep x (by simp [hx])) (g b a) hrest
    rw [List.length_cons, Run.foldN, Run.bind_of_ok hfirst, hloop, List.foldl_cons, List.length_append, Nat.add_assoc]

/-- Where a step may fail, a loop that did not has read all of the pieces. -/
theorem foldN_pieces_ok {b b' : β}
    (hstep : ∀ a ∈ xs, ∀ b p b' q, At d p (enc a) → f b p = (.ok b', q) → b' = g b a ∧ q = p + (enc a).length)
    (hat : At d p (xs.flatMap enc)) (h : Run.foldN xs.length f b p = (.ok b', q)) :
    b' = xs.foldl g b ∧ q = p + (xs.flatMap enc).length := by
  induction xs generalizing b p with
  | nil =>
    obtain ⟨rfl, rfl⟩ := Run.pure_ok_iff.1 h
    exact ⟨rfl, rfl⟩
  | cons a xs ih =>
    rw [List.flatMap_cons] at hat ⊢
    obtain ⟨ha, hrest⟩ := at_append_iff.1 hat
    rw [List.length_cons, Run.foldN] at h
    obtain ⟨c, r, hfirst, hloop⟩ := Run.bind_ok_iff.1 h
    obtain ⟨rfl, rfl⟩ := hstep a (by simp) b p c r ha hfirst
    obtain ⟨hb, hq⟩ := ih (fun x hx => hstep x (by simp [hx])) hrest hloop
    exact ⟨hb, by rw [hq, List.length_append, Nat.add_assoc]⟩

end Pieces

/-! ## One item -/

/-- An item is determined by where it starts. -/
theorem OneItem.unique (hq : OneItem d p q) (hr : OneItem d p r) : q = r := by
  obtain ⟨u, hu, hat, rfl⟩ := hq
  obtain ⟨v, hv, hbt, rfl⟩ := hr
  rw [Items.unique hu hv hat hbt]

/-- An item starts with a head, and RFC 8949 allows it. -/
theorem OneItem.exists_head (h : OneItem d p q) :
    ∃ (hd : Head) (rest : Bytes), hd.Rfc ∧ At d p (hd.bytes ++ rest) ∧ q = p + (hd.bytes ++ rest).length ∧
      AfterHead Head.Rfc 0 hd rest := by
  obtain ⟨u, hu, hat, rfl⟩ := h
  obtain ⟨hd, rest, hrfc, rfl, hafter⟩ := hu.exists_head
  exact ⟨hd, rest, hrfc, hat, rfl, hafter⟩

/-- The head an item starts with is the one that stands there. -/
theorem OneItem.afterHead {hd : Head} (h : OneItem d p q) (hat : At d p hd.bytes) :
    ∃ rest, hd.Rfc ∧ At d (p + hd.bytes.length) rest ∧ q = p + hd.bytes.length + rest.length ∧
      AfterHead Head.Rfc 0 hd rest := by
  obtain ⟨k, rest, hrfc, hkat, rfl, hafter⟩ := h.exists_head
  obtain ⟨hk, hrest⟩ := at_append_iff.1 hkat
  obtain rfl := Head.unique hat hk
  exact ⟨rest, hrfc, hrest, by rw [List.length_append, Nat.add_assoc], hafter⟩

/-- A head of major type 7 is an item of its own. -/
theorem OneItem.eq_of_simple {hd : Head} (h : OneItem d p q) (h7 : hd.IsMajor 7) (hat : At d p hd.bytes) :
    q = p + hd.bytes.length := by
  obtain ⟨rest, -, -, rfl, hafter⟩ := h.afterHead hat
  rw [items_zero_iff.1 (hafter.simple h7)]
  rfl

/-- Every item has at least one byte. -/
theorem Items.le_length {P : Head → Prop} {n : Nat} {u : Bytes} (h : Items P n u) : n ≤ u.length := by
  induction h with
  | nil => exact Nat.le_refl 0
  | int h _ _ _ ih | array h _ _ _ ih | map h _ _ _ ih | tag h _ _ _ ih | simple h _ _ _ ih =>
    have := h.bytes_pos
    rw [List.length_append]
    omega
  | str h s _ _ _ _ ih =>
    have := h.bytes_pos
    rw [List.length_append, List.length_append]
    omega

/-! ## Places inside an item -/

/-- A place inside an item inside another is inside that. -/
theorem Inner.trans (h : Inner d p q) (h' : Inner d q r) : Inner d p r := by
  induction h with
  | here => exact h'
  | content h hat hu hi _ ih => exact .content h hat hu hi (ih h')

/-! ## The walk -/

/-- One step is a step. -/
theorem stepsN_one {W : Nat → Nat → Prop} (h : W p q) : StepsN W 1 p q := ⟨q, h, rfl⟩

/-- The elements of an array. -/
theorem Level.array {W : Nat → Nat → Prop} {h : Head} (hm : h.IsMajor 4) (hs : StepsN W h.arg (p + h.bytes.length) q) :
    Level d W h p q :=
  .nested (.inl hm) (Head.contents_array hm).ge hs fun _ _ _ => (Head.contents_array hm).symm

/-- The keys and values of a map. -/
theorem Level.map {W : Nat → Nat → Prop} {h : Head} (hm : h.IsMajor 5) (hs : StepsN W (2 * h.arg) (p + h.bytes.length) q) :
    Level d W h p q :=
  .nested (.inr (.inl hm)) (Head.contents_map hm).ge hs fun _ _ _ => (Head.contents_map hm).symm

/-- What is tagged. -/
theorem Level.tag {W : Nat → Nat → Prop} {h : Head} (hm : h.IsMajor 6) (hs : W (p + h.bytes.length) q) : Level d W h p q :=
  .nested (.inr (.inr hm)) (Head.contents_tag hm).ge (stepsN_one hs) fun _ _ _ => (Head.contents_tag hm).symm

/-- A repetition makes one step of a relation each time. -/
theorem repeatN_stepsN {σ ε : Type} {m : Run σ ε Unit} {W : Nat → Nat → Prop} (place : σ → Nat)
    (hW : ∀ s t, m s = (.ok (), t) → W (place s) (place t)) {n : Nat} {s t : σ} (h : Run.repeatN n m s = (.ok (), t)) :
    StepsN W n (place s) (place t) := by
  induction n generalizing s with
  | zero =>
    rw [Run.repeatN_zero_ok_iff.1 h]
    exact rfl
  | succ n ih =>
    obtain ⟨v, h1, h2⟩ := Run.repeatN_succ_ok_iff.1 h
    exact ⟨place v, hW s v h1, ih h2⟩

/-- Steps that go over one item each, wherever the items before them end, go over a sequence of items. -/
theorem StepsN.items {W : Nat → Nat → Prop} {n : Nat} (hp : p ≤ d.length)
    (hW : ∀ i u, i < n → Items Head.Rfc i u → At d p u → ∀ q, W (p + u.length) q → OneItem d (p + u.length) q)
    (h : StepsN W n p q) : ∃ u, Items Head.Rfc n u ∧ At d p u ∧ q = p + u.length := by
  induction n generalizing p with
  | zero =>
    obtain rfl : q = p := h
    exact ⟨[], .nil, at_nil hp, rfl⟩
  | succ n ih =>
    obtain ⟨r, h1, h2⟩ := h
    have hfirst : OneItem d p r := hW 0 [] (by omega) .nil (at_nil hp) r h1
    obtain ⟨u, hu, hat, rfl⟩ := hfirst
    obtain ⟨v, hv, hbt, rfl⟩ := ih hat.end_le (fun i w hi hw hwat q hq => by
      have hlen : p + (u ++ w).length = p + u.length + w.length := by rw [List.length_append, Nat.add_assoc]
      rw [← hlen] at hq ⊢
      exact hW (1 + i) (u ++ w) (by omega) (hu.append hw) (at_append_iff.2 ⟨hat, hwat⟩) q hq) h2
    refine ⟨u ++ v, ?_, at_append_iff.2 ⟨hat, hbt⟩, by rw [List.length_append, Nat.add_assoc]⟩
    rw [Nat.add_comm n 1]
    exact hu.append hv

/-- Over a sequence of items there are as many steps, when there is one over each item wherever the items before it end. -/
theorem stepsN_of_items {W : Nat → Nat → Prop} {n : Nat} {u : Bytes}
    (hW : ∀ i w, i < n → Items Head.Rfc i w → At d p w → ∀ q, OneItem d (p + w.length) q → q ≤ p + u.length → W (p + w.length) q)
    (hu : Items Head.Rfc n u) (hat : At d p u) : StepsN W n p (p + u.length) := by
  induction n generalizing p u with
  | zero =>
    rw [items_zero_iff.1 hu]
    exact rfl
  | succ n ih =>
    obtain ⟨v, w, rfl, hv, hw⟩ := hu.split 1 n (Nat.add_comm n 1)
    obtain ⟨hvat, hwat⟩ := at_append_iff.1 hat
    rw [List.length_append]
    have hfirst : W p (p + v.length) :=
      hW 0 [] (by omega) .nil (at_nil hat.pos_le) (p + v.length) ⟨v, hv, hvat, rfl⟩ (by rw [List.length_append]; omega)
    refine ⟨p + v.length, hfirst, ?_⟩
    rw [← Nat.add_assoc]
    refine ih (fun i x hi hx hxat q hone hle => ?_) hw hwat
    have hlen : p + (v ++ x).length = p + v.length + x.length := by rw [List.length_append, Nat.add_assoc]
    have hstep := hW (1 + i) (v ++ x) (by omega) (Items.append hv hx) (at_append_iff.2 ⟨hvat, hxat⟩) q
    rw [hlen, List.length_append] at hstep
    exact hstep hone (by omega)

/-- The content of a container or a tag, with its head, is an item. -/
theorem Item.nested {hd : Head} {u : Bytes} (hrfc : hd.Rfc) (hm : hd.IsMajor 4 ∨ hd.IsMajor 5 ∨ hd.IsMajor 6)
    (hu : Items Head.Rfc hd.contents u) : Item Head.Rfc (hd.bytes ++ u) := by
  rcases hm with hm | hm | hm
  · rw [Head.contents_array hm] at hu
    exact .array hd hrfc hm hu
  · rw [Head.contents_map hm] at hu
    exact .map hd hrfc hm hu
  · rw [Head.contents_tag hm] at hu
    exact .tag hd hrfc hm hu

/-- A routine whose levels do their part wherever an item starts inside the one it is called for steps over that item. -/
theorem walk_item {W : Nat → Nat → Nat → Prop} {Good : Nat → Prop} (hzero : ∀ p q, ¬W 0 p q)
    (hstep : ∀ k p q, Good p → W (k + 1) p q → ∃ hd : Head, hd.Rfc ∧ At d p hd.bytes ∧ Level d (W k) hd p q) {k : Nat}
    (hgood : ∀ r, Inner d p r → Good r) (h : W k p q) : OneItem d p q := by
  induction k generalizing p q with
  | zero => exact absurd h (hzero p q)
  | succ k ih =>
    obtain ⟨hd, hrfc, hat, hl⟩ := hstep k p q (hgood p (.here p)) h
    cases hl with
    | single hm =>
      refine ⟨hd.bytes, ?_, hat, rfl⟩
      rcases hm with hm | hm | hm
      · exact .int hd hrfc (.inl hm)
      · exact .int hd hrfc (.inr hm)
      · exact .simple hd hrfc hm
    | str hm hle =>
      obtain ⟨s, hs, hlen⟩ := exists_at hle
      refine ⟨hd.bytes ++ s, Item.str hd s hrfc hm hlen, at_append_iff.2 ⟨hat, hs⟩, ?_⟩
      rw [List.length_append, hlen, Nat.add_assoc]
    | nested hm hn hs hall =>
      -- The items before a step are inside the item too, and so is the place where it starts.
      obtain ⟨u, hu, hbt, rfl⟩ := hs.items hat.end_le fun i u hi hu hbt q hq => by
        refine ih (fun r hr => hgood r (.content hd (at_append_iff.2 ⟨hat, hbt⟩) hu (by omega) ?_)) hq
        rwa [List.length_append, ← Nat.add_assoc]
      rw [hall u hu hbt] at hu
      exact ⟨hd.bytes ++ u, Item.nested hrfc hm hu, at_append_iff.2 ⟨hat, hbt⟩, by rw [List.length_append, Nat.add_assoc]⟩

end Cbor
