import FdoUefi.Lib.Usize

/-!
# Runs over a machine-word cursor that stay within bounds

A decoder trusts numbers it finds in its data: a string head moves the cursor by the announced length, an array head sets the
room that is allocated and the number of turns of a loop, and a range between two places of the cursor is cut out of the data.
`Event.Fits` says when one such number is harmless. `Tame` says of a program that these are the only things that can go wrong:
when every number it comes to is harmless it comes back, the cursor never wraps and never goes back, and the bytes it asks for
are paid by the way the cursor makes through the data; and when one is not, the run shows it. The rules compose such facts
along a program.
-/

namespace Prog

/-- The number in the event is harmless over an input of `n` bytes. -/
def Event.Fits (n : Nat) : Event → Prop
  | .read => True
  | .wrap => True
  | .str pos len => pos + len < wordSize
  | .capacity k size => k ≤ n ∧ k * size ≤ sliceMax
  | .cut start stop => start ≤ stop ∧ stop ≤ n

instance (n : Nat) : DecidablePred (Event.Fits n)
  | .read => .isTrue trivial
  | .wrap => .isTrue trivial
  | .str pos len => inferInstanceAs (Decidable (pos + len < wordSize))
  | .capacity k size => inferInstanceAs (Decidable (k ≤ n ∧ k * size ≤ sliceMax))
  | .cut start stop => inferInstanceAs (Decidable (start ≤ stop ∧ stop ≤ n))

/-- The event is one that must not happen over an input of `n` bytes: the cursor wrapped, or more elements were allocated than
the input has bytes. -/
def Event.Bad (n : Nat) : Event → Prop
  | .wrap => True
  | .capacity k _ => n < k
  | .read => False
  | .str _ _ => False
  | .cut _ _ => False

/-- The bytes that were asked for. -/
def reads (log : List Event) : Nat := log.count .read

/-- The bytes read in two parts of a log are those of both. -/
theorem reads_append (as bs : List Event) : reads (as ++ bs) = reads as + reads bs := List.count_append

/-- How a run over `w` bytes comes back: the cursor has not gone back, it has passed `j` bytes of the data at least after a
success, and all but `s` of the bytes asked for, or one more after a failure, were bytes the cursor has passed. -/
def Steady {ε α : Type} (w j s : Nat) (c c' : Cur) (new : List Event) : Outcome ε α → Prop
  | .ok _ => c.pos ≤ c'.pos ∧ min c.pos w + j ≤ min c'.pos w ∧ reads new + min c.pos w ≤ min c'.pos w + s
  | .err _ => c.pos ≤ c'.pos ∧ reads new + min c.pos w ≤ min c'.pos w + s + 1
  | .panic => False
  | .hang => False

/-- What a run from `c` to `c'` with the record `new` has to answer for. -/
structure Accounted {ε α : Type} (n w j s : Nat) (c c' : Cur) (o : Outcome ε α) (new : List Event) : Prop where
  fit : (∀ e ∈ new, e.Fits n) → Event.wrap ∉ new ∧ Steady w j s c c' new o
  unfit : (∃ e ∈ new, ¬e.Fits n) → o = .panic ∨ ∃ e ∈ new, e.Bad n

/-- Over an input of `n` bytes, the run from `c` adds to the record and, with less than `k` bytes to the end of the `w` bytes
that are the data of the program, is accounted for. -/
def TameAt {ε α : Type} (n w k j s : Nat) (m : Run Cur ε α) (c : Cur) : Prop :=
  ∃ new, (m c).2.log = new ++ c.log ∧ (w < min c.pos w + k → Accounted n w j s c (m c).2 (m c).1 new)

/-- Every run of the program is accounted for. -/
def Tame {ε α : Type} (n w k j s : Nat) (m : Run Cur ε α) : Prop := ∀ c, TameAt n w k j s m c

namespace Accounted

variable {ε α β : Type} {n w j j' s s' : Nat} {c c' c'' : Cur} {new new' : List Event}

/-- A run that did not panic and met a number that is not harmless shows it. -/
theorem bad_of_unfit {o : Outcome ε α} (h : Accounted n w j s c c' o new) (ho : o ≠ .panic) (hno : ∃ e ∈ new, ¬e.Fits n) :
    ∃ e ∈ new, e.Bad n := by
  rcases h.unfit hno with hp | hbad
  · exact absurd hp ho
  · exact hbad

/-- A failed run answers for the same in front of any continuation. -/
theorem of_err {e : ε} (h : Accounted n w j s c c' (.err e : Outcome ε α) new) (hs : s ≤ s') :
    Accounted n w j' s' c c' (.err e : Outcome ε β) new where
  fit hall := by
    obtain ⟨hwrap, hpos, hreads⟩ := h.fit hall
    exact ⟨hwrap, hpos, by omega⟩
  unfit hno := .inr (h.bad_of_unfit nofun hno)

/-- A panic is accounted for with any bounds. -/
theorem of_panic (h : Accounted n w j s c c' (.panic : Outcome ε α) new) :
    Accounted n w j' s' c c' (.panic : Outcome ε β) new where
  fit hall := (h.fit hall).2.elim
  unfit _ := .inl rfl

/-- A call that does not come back is accounted for with any bounds. -/
theorem of_hang (h : Accounted n w j s c c' (.hang : Outcome ε α) new) :
    Accounted n w j' s' c c' (.hang : Outcome ε β) new where
  fit hall := (h.fit hall).2.elim
  unfit hno := .inr (h.bad_of_unfit nofun hno)

/-- A successful run and the run after it. The second may rely on the way the first has made, which is made when the numbers
of the first are harmless. -/
theorem seq {a : α} {o : Outcome ε β} (h : Accounted n w j s c c' (.ok a : Outcome ε α) new)
    (h' : min c.pos w + j ≤ min c'.pos w → Accounted n w j' s' c' c'' o new') :
    Accounted n w (j + j') (s + s') c c'' o (new' ++ new) where
  fit hall := by
    obtain ⟨hwrap, hpos, hway, hreads⟩ := h.fit fun e he => hall e (by simp [he])
    obtain ⟨hwrap', hsteady⟩ := (h' hway).fit fun e he => hall e (by simp [he])
    refine ⟨by simp [hwrap, hwrap'], ?_⟩
    cases o with
    | ok b =>
      obtain ⟨hpos', hway', hreads'⟩ := hsteady
      exact ⟨by omega, by omega, by rw [reads_append]; omega⟩
    | err e =>
      obtain ⟨hpos', hreads'⟩ := hsteady
      exact ⟨by omega, by rw [reads_append]; omega⟩
    | panic => exact hsteady
    | hang => exact hsteady
  unfit hno := by
    by_cases hfirst : ∀ e ∈ new, e.Fits n
    · obtain ⟨-, -, hway, -⟩ := h.fit hfirst
      obtain ⟨e, he, hnot⟩ := hno
      have hin : e ∈ new' := by
        rcases List.mem_append.1 he with hin | hin
        · exact hin
        · exact absurd (hfirst e hin) hnot
      rcases (h' hway).unfit ⟨e, hin, hnot⟩ with hp | ⟨b, hb, hbad⟩
      · exact .inl hp
      · exact .inr ⟨b, by simp [hb], hbad⟩
    · simp only [not_forall, exists_prop] at hfirst
      obtain ⟨b, hb, hbad⟩ := h.bad_of_unfit nofun hfirst
      exact .inr ⟨b, by simp [hb], hbad⟩

end Accounted

namespace Tame

open Run

variable {ε ε' α β : Type} {n w k j s : Nat}

/-! ## Single calls -/

/-- A call that records nothing and stays where it is. -/
theorem still {m : Run Cur ε α} (h : ∀ c, ∃ o : Outcome ε α, o.Returns ∧ m c = (o, c)) : Tame n w k 0 0 m := by
  intro c
  obtain ⟨o, ho, hm⟩ := h c
  refine ⟨[], by rw [hm]; rfl, fun _ => ⟨fun _ => ⟨by simp, ?_⟩, by simp⟩⟩
  rw [hm]
  cases o with
  | ok a => simp [Steady, reads]
  | err e => simp [Steady, reads]
  | panic => exact ho.elim
  | hang => exact ho.elim

theorem pure (a : α) : Tame n w k 0 0 (Pure.pure a : Run Cur ε α) := still fun _ => ⟨.ok a, trivial, rfl⟩

theorem fail (e : ε) : Tame n w k 0 0 (Run.fail e : Run Cur ε α) := still fun _ => ⟨.err e, trivial, rfl⟩

theorem ensure (p : Prop) [Decidable p] (e : ε) : Tame n w k 0 0 (Run.ensure p e : Run Cur ε Unit) := by
  by_cases hp : p
  · rw [ensure_of_true e hp]
    exact pure ()
  · rw [ensure_of_false e hp]
    exact fail e

theorem place : Tame n w k 0 0 (Cur.place : Run Cur ε Nat) := still fun c => ⟨.ok c.pos, trivial, rfl⟩

theorem ofOutcome {o : Outcome ε α} (ho : o.Returns) : Tame n w k 0 0 (Run.ofOutcome o : Run Cur ε α) :=
  still fun _ => ⟨o, ho, rfl⟩

/-- A call that records one event and stays where it is. -/
theorem notedAt {m : Run Cur ε α} {c : Cur} {e : Event} {o : Outcome ε α} (hr : e ≠ .read) (hw : e ≠ .wrap)
    (hm : m c = (o, ⟨c.pos, e :: c.log⟩)) (hfit : e.Fits n → o.Returns) (hunfit : ¬e.Fits n → o = .panic ∨ e.Bad n) :
    TameAt n w k 0 0 m c := by
  have hreads : reads [e] = 0 := by simp [reads, hr]
  unfold TameAt
  rw [hm]
  refine ⟨[e], rfl, fun _ => ⟨?_, ?_⟩⟩
  · intro hall
    have ho := hfit (hall e (List.mem_singleton.2 rfl))
    refine ⟨by simpa [eq_comm] using hw, ?_⟩
    cases o with
    | ok a => simp [Steady, hreads]
    | err e => simp [Steady, hreads]
    | panic => exact ho.elim
    | hang => exact ho.elim
  · rintro ⟨e', he, hno⟩
    obtain rfl := List.mem_singleton.1 he
    rcases hunfit hno with h | h
    · exact .inl h
    · exact .inr ⟨e', he, h⟩

theorem peek {d : Bytes} : Tame n w k 0 0 (Cur.peek d : Run Cur ε (Option UInt8)) :=
  still fun c => ⟨.ok d[c.pos]?, trivial, rfl⟩

/-- A byte of the data is paid by the step behind it. -/
theorem byte {d : Bytes} (hd : d.length ≤ sliceMax) (e : ε) : Tame n d.length k 1 0 (Cur.byte d e) := by
  intro c
  unfold TameAt
  cases hb : d[c.pos]? with
  | none =>
    have hrun : Cur.byte d e c = (.err e, ⟨c.pos, .read :: c.log⟩) := by
      simp [Cur.byte, Cur.peek, Cur.note, bind_def, andThen, hb]
    rw [hrun]
    refine ⟨[.read], rfl, fun _ => ⟨fun _ => ⟨by simp, by simp, ?_⟩, ?_⟩⟩
    · simp [reads]
      omega
    · simp [Event.Fits]
  | some b =>
    have hlt : c.pos < d.length := (List.getElem?_eq_some_iff.1 hb).1
    have hword : c.pos + 1 < wordSize := by
      simp only [sliceMax, wordSize] at hd ⊢
      omega
    have hrun : Cur.byte d e c = (.ok b, ⟨c.pos + 1, .read :: c.log⟩) := by
      simp [Cur.byte, Cur.peek, Cur.note, Cur.bump, bind_def, andThen, hb, Nat.mod_eq_of_lt hword, Nat.not_le.2 hword]
    rw [hrun]
    refine ⟨[.read], rfl, fun _ => ⟨fun _ => ⟨by simp, by simp, ?_, ?_⟩, ?_⟩⟩
    · simp only
      omega
    · simp only [reads, List.count_singleton_self]
      omega
    · simp [Event.Fits]

/-- A string whose end wraps around ends before its start, and cutting it out panics. -/
theorem contentAt {d : Bytes} (hd : d.length ≤ sliceMax) {len : Nat} {e : Nat → ε} {c : Cur} (hlen : len < wordSize)
    (hp : c.pos ≤ d.length) : TameAt n w k 0 0 (Cur.content d len e) c := by
  have hrun : Cur.content d len e c = (Run.ensure ((c.pos + len) % wordSize ≤ d.length) (e c.pos) >>= fun _ =>
      slice d c.pos ((c.pos + len) % wordSize)) ⟨c.pos, .str c.pos len :: c.log⟩ := rfl
  have hsmall : d.length < wordSize := by
    simp only [sliceMax, wordSize] at hd ⊢
    omega
  by_cases hfit : c.pos + len < wordSize
  · rw [Nat.mod_eq_of_lt hfit] at hrun
    by_cases hle : c.pos + len ≤ d.length
    · obtain ⟨s, hs⟩ : ∃ s, range? d c.pos (c.pos + len) = some s := ⟨_, if_pos ⟨by omega, hle⟩⟩
      refine notedAt (e := .str c.pos len) (o := .ok s) (by simp) (by simp) ?_ (fun _ => trivial) (fun h => absurd hfit h)
      rw [hrun, ensure_of_true _ hle, bind_of_ok (pure_apply _ _), slice, hs, pure_apply]
    · refine notedAt (e := .str c.pos len) (o := .err (e c.pos)) (by simp) (by simp) ?_ (fun _ => trivial)
        (fun h => absurd hfit h)
      rw [hrun, ensure_of_false _ hle]
      exact bind_of_err (fail_apply _ _)
  · refine notedAt (e := .str c.pos len) (o := .panic) (by simp) (by simp) ?_ (fun h => absurd h hfit) (fun _ => .inl rfl)
    have hmod : (c.pos + len) % wordSize = c.pos + len - wordSize := by
      rw [Nat.mod_eq_sub_mod (by omega), Nat.mod_eq_of_lt (by omega)]
    have hnone : range? d c.pos (c.pos + len - wordSize) = none := if_neg (by omega)
    rw [hrun, hmod, ensure_of_true _ (by omega), bind_of_ok (pure_apply _ _), slice, hnone, panics_apply]

/-- A move forward that does not wrap. -/
theorem bumpAt {c : Cur} {len : Nat} (h : c.pos + len < wordSize) : TameAt n w k 0 0 (Cur.bump len : Run Cur ε Unit) c := by
  have hrun : (Cur.bump len : Run Cur ε Unit) c = (.ok (), ⟨c.pos + len, c.log⟩) := by
    simp [Cur.bump, Nat.mod_eq_of_lt h, Nat.not_le.2 h]
  unfold TameAt
  rw [hrun]
  refine ⟨[], rfl, fun _ => ⟨fun _ => ⟨by simp, ?_⟩, by simp⟩⟩
  refine ⟨by simp, ?_, ?_⟩
  · simp only
    omega
  · simp only [reads, List.count_nil]
    omega

/-- A string that is stepped over unread: the move wraps exactly when the announced length is not harmless. -/
theorem stepOver (len : Nat) : Tame n w k 0 0 (do
    let pos ← Cur.place
    Cur.note (.str pos len)
    Cur.bump len : Run Cur ε Unit) := by
  intro c
  have hrun : (do
      let pos ← Cur.place
      Cur.note (.str pos len)
      Cur.bump len : Run Cur ε Unit) c = Cur.bump len ⟨c.pos, .str c.pos len :: c.log⟩ := rfl
  unfold TameAt
  rw [hrun]
  by_cases h : c.pos + len < wordSize
  · refine ⟨[.str c.pos len], ?_, fun _ => ⟨fun _ => ⟨by simp, ?_⟩, fun hno => ?_⟩⟩
    · simp [Cur.bump, Nat.not_le.2 h]
    · simp only [Cur.bump, Nat.mod_eq_of_lt h]
      refine ⟨by simp, ?_, ?_⟩
      · simp only
        omega
      · simp only [reads, List.count_singleton, beq_iff_eq, reduceCtorEq, if_false]
        omega
    · obtain ⟨e, he, hnot⟩ := hno
      rw [List.mem_singleton.1 he] at hnot
      exact absurd h hnot
  · refine ⟨[.wrap, .str c.pos len], ?_, fun _ => ⟨fun hall => absurd (hall (.str c.pos len) (by simp)) h, fun _ => .inr ?_⟩⟩
    · simp [Cur.bump, Nat.not_lt.1 h]
    · exact ⟨.wrap, by simp, trivial⟩

/-- Room for a list. -/
theorem withCapacity (count size : Nat) : Tame n w k 0 0 (Cur.withCapacity count size : Run Cur ε Unit) := by
  intro c
  by_cases h : count * size ≤ sliceMax
  · refine notedAt (e := .capacity count size) (o := .ok ()) (by simp) (by simp) ?_ (fun _ => trivial) (fun hno => .inr ?_)
    · simp [Cur.withCapacity, Cur.note, h]
    · exact Nat.lt_of_not_le fun hc => hno ⟨hc, h⟩
  · refine notedAt (e := .capacity count size) (o := .panic) (by simp) (by simp) ?_ (fun hfit => absurd hfit.2 h)
      (fun _ => .inl rfl)
    simp [Cur.withCapacity, Cur.note, h, bind_of_ok (modifyS_apply _ _)]

/-- A range of the input. -/
theorem cut {d : Bytes} (hd : d.length = n) (start stop : Nat) : Tame n w k 0 0 (Cur.cut d start stop : Run Cur ε Bytes) := by
  intro c
  have hrun : (Cur.cut d start stop : Run Cur ε Bytes) c = slice d start stop ⟨c.pos, .cut start stop :: c.log⟩ := rfl
  cases h : range? d start stop with
  | some b =>
    obtain ⟨hat, rfl⟩ := range?_eq_some_iff_at.1 h
    refine notedAt (e := .cut start (start + b.length)) (o := .ok b) (by simp) (by simp) ?_ (fun _ => trivial)
      (fun hno => absurd ⟨?_, ?_⟩ hno)
    · rw [hrun, slice, h, pure_apply]
    · omega
    · exact hd ▸ hat.end_le
  | none =>
    refine notedAt (e := .cut start stop) (o := .panic) (by simp) (by simp) ?_ (fun hfit => ?_) (fun _ => .inl rfl)
    · rw [hrun, slice, h, panics_apply]
    · obtain ⟨h1, h2⟩ := hfit
      rw [← hd] at h2
      simp [range?, h1, h2] at h

/-! ## Composition -/

/-- Wider bounds hold as well, from a cursor. -/
theorem monoAt {k' j' s' : Nat} {m : Run Cur ε α} {c : Cur} (h : TameAt n w k j s m c) (hk : k' ≤ k) (hj : j' ≤ j)
    (hs : s ≤ s') : TameAt n w k' j' s' m c := by
  obtain ⟨new, hlog, hacc⟩ := h
  refine ⟨new, hlog, fun hw => ?_⟩
  have hc := hacc (by omega)
  refine ⟨fun hall => ?_, hc.unfit⟩
  obtain ⟨hwrap, hsteady⟩ := hc.fit hall
  refine ⟨hwrap, ?_⟩
  rcases ho : (m c).1 with a | e | _ | _ <;> rw [ho] at hsteady
  · exact ⟨hsteady.1, by have := hsteady.2.1; omega, by have := hsteady.2.2; omega⟩
  · exact ⟨hsteady.1, by have := hsteady.2; omega⟩
  · exact hsteady
  · exact hsteady

theorem mono {k' j' s' : Nat} {m : Run Cur ε α} (h : Tame n w k j s m) (hk : k' ≤ k) (hj : j' ≤ j) (hs : s ≤ s') :
    Tame n w k' j' s' m := fun c => monoAt (h c) hk hj hs

/-- One program after the other, where the second is accounted for at the places the first leaves it at. The bytes the first
has passed count for the second. -/
theorem bindAt {q i t : Nat} {m : Run Cur ε α} {f : α → Run Cur ε β} {c : Cur} (hm : TameAt n w k j s m c)
    (hf : ∀ a c', m c = (.ok a, c') → TameAt n w q i t (f a) c') (hk : k ≤ q + j) :
    TameAt n w k (j + i) (s + t) (m >>= f) c := by
  obtain ⟨new, hlog, hacc⟩ := hm
  unfold TameAt
  rcases hmc : m c with ⟨a | e | _ | _, c₁⟩ <;> simp only [hmc] at hlog hacc
  · obtain ⟨new', hlog', hacc'⟩ := hf a c₁ hmc
    rw [bind_of_ok hmc]
    refine ⟨new' ++ new, by rw [hlog', hlog, List.append_assoc], fun hw => ?_⟩
    exact (hacc hw).seq fun hway => hacc' (by omega)
  · rw [bind_of_err hmc]
    exact ⟨new, hlog, fun hw => (hacc hw).of_err (by omega)⟩
  · rw [bind_of_panic hmc]
    exact ⟨new, hlog, fun hw => (hacc hw).of_panic⟩
  · rw [bind_of_hang hmc]
    exact ⟨new, hlog, fun hw => (hacc hw).of_hang⟩

theorem bind {q i t : Nat} {m : Run Cur ε α} {f : α → Run Cur ε β} (hm : Tame n w k j s m)
    (hf : ∀ a, Tame n w q i t (f a)) (hk : k ≤ q + j) : Tame n w k (j + i) (s + t) (m >>= f) :=
  fun c => bindAt (hm c) (fun a c' _ => hf a c') hk

/-- The usual case: nothing is known of the way of the second program, and it is not charged for anything. -/
theorem nextAt {m : Run Cur ε α} {f : α → Run Cur ε β} {c : Cur} (hm : TameAt n w k j s m c)
    (hf : ∀ a c', m c = (.ok a, c') → TameAt n w k 0 0 (f a) c') : TameAt n w k j s (m >>= f) c :=
  bindAt hm hf (Nat.le_add_right k j)

theorem next {m : Run Cur ε α} {f : α → Run Cur ε β} (hm : Tame n w k j s m) (hf : ∀ a, Tame n w k 0 0 (f a)) :
    Tame n w k j s (m >>= f) := fun c => nextAt (hm c) fun a c' _ => hf a c'

/-- Two programs that are both charged for bytes asked for in vain. -/
theorem chargedAt {t u : Nat} {m : Run Cur ε α} {f : α → Run Cur ε β} {c : Cur} (hm : TameAt n w k 0 s m c)
    (hf : ∀ a c', m c = (.ok a, c') → TameAt n w k 0 t (f a) c') (ht : s + t ≤ u) : TameAt n w k 0 u (m >>= f) c :=
  monoAt (bindAt hm hf (Nat.le_refl k)) (Nat.le_refl k) (Nat.le_refl 0) ht

/-- Two steps with slack have the slack of both. -/
theorem charged {t u : Nat} {m : Run Cur ε α} {f : α → Run Cur ε β} (hm : Tame n w k 0 s m)
    (hf : ∀ a, Tame n w k 0 t (f a)) (ht : s + t ≤ u) : Tame n w k 0 u (m >>= f) :=
  fun c => chargedAt (hm c) (fun a c' _ => hf a c') ht

theorem ite {p : Prop} [Decidable p] {m m' : Run Cur ε α} (h : p → Tame n w k j s m) (h' : ¬p → Tame n w k j s m') :
    Tame n w k j s (if p then m else m') := by
  split
  · exact h ‹_›
  · exact h' ‹_›

/-- A loop. -/
theorem repeatN {m : Run Cur ε Unit} (hm : Tame n w k 0 0 m) (count : Nat) : Tame n w k 0 0 (Run.repeatN count m) := by
  induction count with
  | zero => exact pure ()
  | succ count ih => exact hm.next fun _ => ih

/-- A loop with the values it has read. -/
theorem collectN {m : Run Cur ε α} (hm : Tame n w k 0 0 m) (count : Nat) : Tame n w k 0 0 (Run.collectN count m) := by
  induction count with
  | zero => exact pure []
  | succ count ih => exact hm.next fun a => ih.next fun as => pure (a :: as)

/-- A call whose failure is handled. The byte the failed call asked for in vain is one of the `s` from then on. -/
theorem handled {m : Run Cur ε α} {m' : Run Cur ε' β} (hm : Tame n w k j s m)
    (h : ∀ c, (m' c).2 = (m c).2 ∧ ((m c).1 = .panic ∧ (m' c).1 = .panic ∨ (m c).1 = .hang ∧ (m' c).1 = .hang ∨
      (m c).1.Returns ∧ ∃ b, (m' c).1 = .ok b)) : Tame n w k 0 (s + 1) m' := by
  intro c
  obtain ⟨new, hlog, hacc⟩ := hm c
  obtain ⟨hstate, hout⟩ := h c
  unfold TameAt
  rw [hstate]
  refine ⟨new, hlog, fun hw => ?_⟩
  have hc := hacc hw
  rcases hout with ⟨ho, ho'⟩ | ⟨ho, ho'⟩ | ⟨hret, b, ho'⟩
  · rw [ho']
    rw [ho] at hc
    exact ⟨fun hall => (hc.fit hall).2.elim, fun _ => .inl rfl⟩
  · rw [ho']
    rw [ho] at hc
    exact ⟨fun hall => (hc.fit hall).2.elim, fun hno => .inr (hc.bad_of_unfit nofun hno)⟩
  · rw [ho']
    rcases ho : (m c).1 with a | e | _ | _ <;> rw [ho] at hc hret
    · refine ⟨fun hall => ?_, fun hno => ?_⟩
      · obtain ⟨hwrap, hpos, hway, hreads⟩ := hc.fit hall
        exact ⟨hwrap, hpos, by omega, by omega⟩
      · exact .inr (hc.bad_of_unfit nofun hno)
    · refine ⟨fun hall => ?_, fun hno => ?_⟩
      · obtain ⟨hwrap, hpos, hreads⟩ := hc.fit hall
        exact ⟨hwrap, hpos, by omega, by omega⟩
      · exact .inr (hc.bad_of_unfit nofun hno)
    · exact hret.elim
    · exact hret.elim

theorem attempt {m : Run Cur ε α} (hm : Tame n w k j s m) : Tame n w k 0 (s + 1) (Run.attempt m : Run Cur ε' (Option α)) := by
  refine hm.handled fun c => ?_
  rcases hmc : m c with ⟨a | e | _ | _, c'⟩ <;> simp [Run.attempt, hmc, Outcome.Returns]

theorem otherwise {m : Run Cur ε α} (hm : Tame n w k j s m) (b : α) : Tame n w k 0 (s + 1) (Run.otherwise b m) := by
  refine hm.handled fun c => ?_
  rcases hmc : m c with ⟨a | e | _ | _, c'⟩ <;> simp [Run.otherwise, hmc, Outcome.Returns]

theorem mapErr {m : Run Cur ε α} (hm : Tame n w k j s m) (g : ε → ε') : Tame n w k j s (Run.mapErr g m) := by
  intro c
  obtain ⟨new, hlog, hacc⟩ := hm c
  unfold TameAt
  rcases hmc : m c with ⟨a | e | _ | _, c'⟩ <;> simp only [Run.mapErr, hmc] at hlog hacc ⊢ <;> refine ⟨new, hlog, fun hw => ?_⟩
  · exact ⟨(hacc hw).fit, fun hno => .inr ((hacc hw).bad_of_unfit (by simp) hno)⟩
  · exact ⟨(hacc hw).fit, fun hno => .inr ((hacc hw).bad_of_unfit (by simp) hno)⟩
  · exact ⟨fun hall => ((hacc hw).fit hall).2.elim, fun _ => .inl rfl⟩
  · exact ⟨fun hall => ((hacc hw).fit hall).2.elim, fun hno => .inr ((hacc hw).bad_of_unfit (by simp) hno)⟩

/-- A decoder of its own over `v` bytes. -/
theorem inside {v : Nat} {m : Run Cur ε α} (hm : Tame n v (v + 1) j s m) : Tame n w k 0 (v + s) (Cur.inside m) := by
  intro c
  obtain ⟨new, hlog, hacc⟩ := hm ⟨0, c.log⟩
  have hrun : Cur.inside m c = ((m ⟨0, c.log⟩).1, ⟨c.pos, (m ⟨0, c.log⟩).2.log⟩) := rfl
  unfold TameAt
  rw [hrun]
  refine ⟨new, hlog, fun _ => ?_⟩
  have hc := hacc (by simp)
  refine ⟨fun hall => ?_, hc.unfit⟩
  obtain ⟨hwrap, hsteady⟩ := hc.fit hall
  refine ⟨hwrap, ?_⟩
  rcases ho : (m ⟨0, c.log⟩).1 with a | e | _ | _ <;> rw [ho] at hsteady
  · obtain ⟨-, -, hreads⟩ := hsteady
    exact ⟨by simp, by simp, by simp only at hreads ⊢; omega⟩
  · obtain ⟨-, hreads⟩ := hsteady
    exact ⟨by simp, by simp only at hreads ⊢; omega⟩
  · exact hsteady
  · exact hsteady

end Tame

/-! ## Whole runs -/

/-- The run meets what is asked of a decoder over `n` bytes of input: it comes back, nothing wraps, no list is allocated for
more elements than the input has bytes, and it asks for at most `steps` bytes. -/
structure Safe {ε α : Type} (n steps : Nat) (m : Run Cur ε α) : Prop where
  returns : (m Cur.start).1.Returns
  no_wrap : Event.wrap ∉ (m Cur.start).2.log
  capacity : ∀ k size, Event.capacity k size ∈ (m Cur.start).2.log → k ≤ n
  steps : reads (m Cur.start).2.log ≤ steps

/-- Every number the run comes to is harmless. -/
def Harmless {ε α : Type} (n : Nat) (m : Run Cur ε α) : Prop := ∀ e ∈ (m Cur.start).2.log, e.Fits n

/-- A tame program is safe exactly when the numbers it comes to are harmless. -/
theorem Tame.safe_iff {ε α : Type} {n w k j s steps : Nat} {m : Run Cur ε α} (h : Tame n w k j s m) (hk : w < k)
    (hs : w + s + 1 ≤ steps) : Safe n steps m ↔ Harmless n m := by
  obtain ⟨new, hlog, hacc⟩ := h Cur.start
  have hc := hacc (by simp only [Cur.start]; omega)
  have hnew : (m Cur.start).2.log = new := by rw [hlog]; simp [Cur.start]
  rw [← hnew] at hc
  constructor
  · intro hsafe
    by_contra hno
    have hex : ∃ e ∈ (m Cur.start).2.log, ¬e.Fits n := by
      simpa only [Harmless, not_forall, exists_prop] using hno
    rcases hc.unfit hex with hp | ⟨e, he, hbad⟩
    · have := hsafe.returns
      rw [hp] at this
      exact this
    · cases e with
      | wrap => exact hsafe.no_wrap he
      | capacity k size => exact absurd (hsafe.capacity k size he) (Nat.not_le.2 hbad)
      | read => exact hbad
      | str _ _ => exact hbad
      | cut _ _ => exact hbad
  · intro hall
    obtain ⟨hwrap, hsteady⟩ := hc.fit hall
    have hcap : ∀ k size, Event.capacity k size ∈ (m Cur.start).2.log → k ≤ n := fun k size he => (hall _ he).1
    rcases ho : (m Cur.start).1 with a | e | _ | _ <;> rw [ho] at hsteady
    · exact ⟨by rw [ho]; trivial, hwrap, hcap, by have := hsteady.2.2; omega⟩
    · exact ⟨by rw [ho]; trivial, hwrap, hcap, by have := hsteady.2; omega⟩
    · exact hsteady.elim
    · exact hsteady.elim

end Prog
