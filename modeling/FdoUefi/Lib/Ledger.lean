import FdoUefi.Lib.Tame
import FdoUefi.Lib.Total

/-!
# Programs that keep a ledger of what they ask of the machine

A program that trusts numbers from outside asks the machine for things: room for so many elements, a range of the data, a sum or
a product in so many bits. `Ledger σ` is its state with the list of what it has asked for, latest first. `Erases` says that the
entries change nothing: without them the program is the plain one. `Answers` says that the program answers for its entries: when
every one of them fits it comes back and nothing bad has happened, and when one does not fit it does not come back or something
bad has happened. Both are closed under every way of composing programs.
-/

namespace Prog

open Run

/-- What a program asks of the machine. -/
inductive Demand where
  /-- An event over an input of `n` bytes. -/
  | event (n : Nat) (e : Event)
  /-- A value is kept in a word of `bits` bits. -/
  | word (bits value : Nat)
  deriving DecidableEq, Repr

/-- The machine can give what is asked. -/
def Demand.Fits : Demand → Prop
  | .event n e => e.Fits n
  | .word bits value => value < 2 ^ bits

instance : DecidablePred Demand.Fits
  | .event n e => inferInstanceAs (Decidable (e.Fits n))
  | .word bits value => inferInstanceAs (Decidable (value < 2 ^ bits))

/-- What must not happen: room for more elements than the input has bytes, or a value that does not fit in its word. -/
def Demand.Bad : Demand → Prop
  | .event n e => e.Bad n
  | .word bits value => 2 ^ bits ≤ value

/-- A state and what was asked for on the way to it, latest first. -/
structure Ledger (σ : Type) where
  state : σ
  log : List Demand

variable {σ τ ε ε' α β : Type}

namespace Ledger

/-- Enter a demand. -/
def note (x : Demand) : Run (Ledger σ) ε Unit := modifyS fun c => { c with log := x :: c.log }

/-- A program without entries. -/
def within (m : Run σ ε α) : Run (Ledger σ) ε α := onPart Ledger.state (fun t c => { c with state := t }) m

/-- A decoder over `n` bytes of input, with its record. -/
def decode (n : Nat) (m : Run Cur ε α) : Run (Ledger σ) ε α where
  run c := ((m Cur.start).1, { c with log := (m Cur.start).2.log.map (.event n) ++ c.log })

/-- A program on a state of its own, with its entries. -/
def inside (t : τ) (m : Run (Ledger τ) ε α) : Run (Ledger σ) ε α where
  run c := ((m ⟨t, c.log⟩).1, { c with log := (m ⟨t, c.log⟩).2.log })

/-- A range of the data is asked for and cut out. -/
def cut (d : Bytes) (start stop : Nat) : Run (Ledger σ) ε Bytes := do
  note (.event d.length (.cut start stop))
  slice d start stop

end Ledger

open Ledger

/-! ## Without the ledger -/

/-- Without its entries the program `m` is `r`. -/
def Erases (m : Run (Ledger σ) ε α) (r : Run σ ε α) : Prop :=
  ∀ c : Ledger σ, (m c).1 = (r c.state).1 ∧ (m c).2.state = (r c.state).2

namespace Erases

theorem pure (a : α) : Erases (Pure.pure a : Run (Ledger σ) ε α) (Pure.pure a) := fun _ => ⟨rfl, rfl⟩

theorem fail (e : ε) : Erases (Run.fail e : Run (Ledger σ) ε α) (Run.fail e) := fun _ => ⟨rfl, rfl⟩

theorem ofOutcome (o : Outcome ε α) : Erases (Run.ofOutcome o : Run (Ledger σ) ε α) (Run.ofOutcome o) := fun _ => ⟨rfl, rfl⟩

theorem ensure (c : Prop) [Decidable c] (e : ε) : Erases (Run.ensure c e : Run (Ledger σ) ε Unit) (Run.ensure c e) := by
  unfold Run.ensure
  split
  · exact pure ()
  · exact fail e

theorem within (r : Run σ ε α) : Erases (Ledger.within r) r := fun _ => ⟨rfl, rfl⟩

/-- Both come to the same outcome, in the same state. -/
theorem same {m : Run (Ledger σ) ε α} {r : Run σ ε α} (h : Erases m r) (c : Ledger σ) :
    ∃ o c', m c = (o, c') ∧ r c.state = (o, c'.state) := ⟨(m c).1, (m c).2, rfl, Prod.ext (h c).1.symm (h c).2.symm⟩

/-- A value with the ledger is one without it. -/
theorem ok {m : Run (Ledger σ) ε α} {r : Run σ ε α} (h : Erases m r) {c c' : Ledger σ} {a : α} (hm : m c = (.ok a, c')) :
    r c.state = (.ok a, c'.state) := by
  obtain ⟨ho, hs⟩ := h c
  rw [hm] at ho hs
  exact Prod.ext ho.symm hs.symm

theorem bind {m : Run (Ledger σ) ε α} {r : Run σ ε α} {f : α → Run (Ledger σ) ε β} {g : α → Run σ ε β} (hm : Erases m r)
    (hf : ∀ a, Erases (f a) (g a)) : Erases (m >>= f) (r >>= g) := by
  intro c
  obtain ⟨o, c', h, h'⟩ := hm.same c
  cases o with
  | ok a =>
    rw [bind_of_ok h, bind_of_ok h']
    exact hf a c'
  | err e =>
    rw [bind_of_err h, bind_of_err h']
    exact ⟨rfl, rfl⟩
  | panic =>
    rw [bind_of_panic h, bind_of_panic h']
    exact ⟨rfl, rfl⟩
  | hang =>
    rw [bind_of_hang h, bind_of_hang h']
    exact ⟨rfl, rfl⟩

/-- An entry is not there. -/
theorem note {x : Demand} {f : Unit → Run (Ledger σ) ε α} {r : Run σ ε α} (hf : Erases (f ()) r) : Erases (Ledger.note x >>= f) r :=
  fun c => hf { c with log := x :: c.log }

/-- An entry in the books, made or not, is nothing without them. -/
theorem onlyIf_note {x : Demand} {p : Prop} [Decidable p] {f : Unit → Run (Ledger σ) ε α} {r : Run σ ε α} (hf : Erases (f ()) r) :
    Erases (onlyIf p (Ledger.note x) >>= f) r := by
  unfold onlyIf
  split
  · exact note hf
  · exact fun c => hf c

theorem ite {p : Prop} [Decidable p] {m m' : Run (Ledger σ) ε α} {r r' : Run σ ε α} (h : p → Erases m r) (h' : ¬p → Erases m' r') :
    Erases (if p then m else m') (if p then r else r') := by
  split
  · exact h ‹_›
  · exact h' ‹_›

theorem attempt {m : Run (Ledger σ) ε α} {r : Run σ ε α} (h : Erases m r) :
    Erases (Run.attempt m : Run (Ledger σ) ε' (Option α)) (Run.attempt r) := by
  intro c
  obtain ⟨o, c', hm, hr⟩ := h.same c
  cases o <;> simp [Run.attempt, hm, hr]

theorem otherwise {m : Run (Ledger σ) ε α} {r : Run σ ε α} (h : Erases m r) (b : α) :
    Erases (Run.otherwise b m) (Run.otherwise b r) := by
  intro c
  obtain ⟨o, c', hm, hr⟩ := h.same c
  cases o <;> simp [Run.otherwise, hm, hr]

theorem caught {m : Run (Ledger σ) ε α} {r : Run σ ε α} (h : Erases m r) :
    Erases (Run.caught m : Run (Ledger σ) ε' (Except ε α)) (Run.caught r) := by
  intro c
  obtain ⟨o, c', hm, hr⟩ := h.same c
  cases o <;> simp [Run.caught, hm, hr]

theorem mapErr {m : Run (Ledger σ) ε α} {r : Run σ ε α} (h : Erases m r) (g : ε → ε') : Erases (Run.mapErr g m) (Run.mapErr g r) := by
  intro c
  obtain ⟨o, c', hm, hr⟩ := h.same c
  cases o <;> simp [Run.mapErr, hm, hr]

theorem decode (n : Nat) (m : Run Cur ε α) : Erases (Ledger.decode n m : Run (Ledger σ) ε α) (Run.ofOutcome (m Cur.start).1) :=
  fun _ => ⟨rfl, rfl⟩

theorem inside {t : τ} {m : Run (Ledger τ) ε α} {r : Run τ ε α} (h : Erases m r) :
    Erases (Ledger.inside t m : Run (Ledger σ) ε α) (Run.ofOutcome (r t).1) := fun c => ⟨(h ⟨t, c.log⟩).1, rfl⟩

theorem cut (d : Bytes) (start stop : Nat) : Erases (Ledger.cut d start stop : Run (Ledger σ) ε Bytes) (slice d start stop) := by
  refine note ?_
  unfold slice
  split
  · exact pure _
  · exact fun _ => ⟨rfl, rfl⟩

end Erases

/-! ## What the program answers for -/

/-- An outcome with the entries made on the way to it. -/
structure Answered (o : Outcome ε α) (new : List Demand) : Prop where
  fit : (∀ x ∈ new, x.Fits) → o.Returns ∧ ∀ x ∈ new, ¬x.Bad
  unfit : (∃ x ∈ new, ¬x.Fits) → ¬o.Returns ∨ ∃ x ∈ new, x.Bad

/-- The run of the program from `c` adds to the ledger, and is answered for. -/
def AnswersAt (m : Run (Ledger σ) ε α) (c : Ledger σ) : Prop := ∃ new, (m c).2.log = new ++ c.log ∧ Answered (m c).1 new

/-- Every run of the program is answered for. -/
def Answers (m : Run (Ledger σ) ε α) : Prop := ∀ c, AnswersAt m c

namespace Answered

/-- The outcome may be another one that comes back in the same cases. -/
theorem congr {o : Outcome ε α} {o' : Outcome ε' β} {new : List Demand} (h : Answered o new) (ho : o.Returns ↔ o'.Returns) :
    Answered o' new where
  fit hall := by
    obtain ⟨hret, hbad⟩ := h.fit hall
    exact ⟨ho.1 hret, hbad⟩
  unfit hno := (h.unfit hno).imp_left fun hret hret' => hret (ho.2 hret')

/-- A run that came back and the run after it. -/
theorem seq {o : Outcome ε α} {o' : Outcome ε' β} {new new' : List Demand} (h : Answered o new) (ho : o.Returns)
    (h' : Answered o' new') : Answered o' (new' ++ new) where
  fit hall := by
    obtain ⟨-, hbad⟩ := h.fit fun x hx => hall x (by simp [hx])
    obtain ⟨hret', hbad'⟩ := h'.fit fun x hx => hall x (by simp [hx])
    refine ⟨hret', fun x hx => ?_⟩
    rcases List.mem_append.1 hx with hx | hx
    · exact hbad' x hx
    · exact hbad x hx
  unfit := by
    rintro ⟨x, hx, hno⟩
    rcases List.mem_append.1 hx with hx | hx
    · rcases h'.unfit ⟨x, hx, hno⟩ with hret | ⟨y, hy, hbad⟩
      · exact .inl hret
      · exact .inr ⟨y, by simp [hy], hbad⟩
    · rcases h.unfit ⟨x, hx, hno⟩ with hret | ⟨y, hy, hbad⟩
      · exact absurd ho hret
      · exact .inr ⟨y, by simp [hy], hbad⟩

end Answered

namespace Answers

/-! ### Single steps -/

/-- A step without entries that comes back. -/
theorem stillAt {m : Run (Ledger σ) ε α} {c : Ledger σ} (hlog : (m c).2.log = c.log) (ho : (m c).1.Returns) : AnswersAt m c :=
  ⟨[], hlog, fun _ => ⟨ho, nofun⟩, nofun⟩

theorem pure (a : α) : Answers (Pure.pure a : Run (Ledger σ) ε α) := fun _ => stillAt rfl trivial

theorem fail (e : ε) : Answers (Run.fail e : Run (Ledger σ) ε α) := fun _ => stillAt rfl trivial

theorem ofOutcome {o : Outcome ε α} (ho : o.Returns) : Answers (Run.ofOutcome o : Run (Ledger σ) ε α) := fun _ => stillAt rfl ho

theorem ensure {p : Prop} [Decidable p] {e : ε} : Answers (Run.ensure p e : Run (Ledger σ) ε Unit) := by
  unfold Run.ensure
  split
  · exact pure ()
  · exact fail e

/-- A call on the state alone is answered where it comes back. -/
theorem withinAt {r : Run σ ε α} {c : Ledger σ} (h : (r c.state).1.Returns) : AnswersAt (Ledger.within r) c := stillAt rfl h

theorem within {r : Run σ ε α} (h : Total r) : Answers (Ledger.within r) := fun c => withinAt (h c.state)

/-- An entry that is bad when it does not fit. -/
theorem note {x : Demand} (h : x.Fits ↔ ¬x.Bad) : Answers (Ledger.note x : Run (Ledger σ) ε Unit) := by
  intro c
  refine ⟨[x], rfl, fun hall => ⟨trivial, fun y hy => ?_⟩, ?_⟩
  · rw [List.mem_singleton.1 hy]
    exact h.1 (hall x (by simp))
  · rintro ⟨y, hy, hno⟩
    rw [List.mem_singleton.1 hy] at hno
    exact .inr ⟨x, by simp, by_contra fun hb => hno (h.2 hb)⟩

/-- A number may always be noted. -/
theorem note_word (bits value : Nat) : Answers (Ledger.note (.word bits value) : Run (Ledger σ) ε Unit) := note Nat.not_le.symm

/-- A reservation that stays within the largest slice may be noted. -/
theorem note_capacity {n count size : Nat} (hsize : count ≤ n → count * size ≤ sliceMax) :
    Answers (Ledger.note (.event n (.capacity count size)) : Run (Ledger σ) ε Unit) := by
  refine note ⟨fun hfit => Nat.not_lt.2 hfit.1, fun hbad => ?_⟩
  have hle := Nat.not_lt.1 hbad
  exact ⟨hle, hsize hle⟩

theorem cut (d : Bytes) (start stop : Nat) : Answers (Ledger.cut d start stop : Run (Ledger σ) ε Bytes) := by
  intro c
  refine ⟨[.event d.length (.cut start stop)], ?_, ?_⟩
  · change (slice d start stop (_ : Ledger σ)).2.log = _
    unfold slice
    split <;> rfl
  have hret : ((Ledger.cut d start stop : Run (Ledger σ) ε Bytes) c).1.Returns ↔ start ≤ stop ∧ stop ≤ d.length := by
    change (slice d start stop (_ : Ledger σ)).1.Returns ↔ _
    unfold slice range?
    by_cases h : start ≤ stop ∧ stop ≤ d.length
    · rw [if_pos h]
      exact iff_of_true trivial h
    · rw [if_neg h]
      exact iff_of_false id h
  refine ⟨fun hall => ⟨hret.2 (hall _ (List.mem_singleton.2 rfl)), fun x hx => ?_⟩, ?_⟩
  · rw [List.mem_singleton.1 hx]
    exact id
  · rintro ⟨x, hx, hno⟩
    rw [List.mem_singleton.1 hx] at hno
    exact .inl fun h => hno (hret.1 h)

/-- A decoder that is tame over its data. -/
theorem decode {n w k j s : Nat} {m : Run Cur ε α} (h : Tame n w k j s m) (hk : w < k) :
    Answers (Ledger.decode n m : Run (Ledger σ) ε α) := by
  intro c
  obtain ⟨new, hlog, hacc⟩ := h Cur.start
  have hc := hacc (by simp only [Cur.start]; omega)
  have hnew : (m Cur.start).2.log = new := by rw [hlog]; simp [Cur.start]
  refine ⟨new.map (.event n), ?_, ?_, ?_⟩
  · change (m Cur.start).2.log.map (.event n) ++ c.log = _
    rw [hnew]
  · intro hall
    obtain ⟨hwrap, hsteady⟩ := hc.fit fun e he => hall _ (List.mem_map_of_mem he)
    refine ⟨?_, fun x hx => ?_⟩
    · change (m Cur.start).1.Returns
      rcases ho : (m Cur.start).1 with a | e | _ | _ <;> rw [ho] at hsteady
      · trivial
      · trivial
      · exact hsteady.elim
      · exact hsteady.elim
    · obtain ⟨e, he, rfl⟩ := List.mem_map.1 hx
      have hfit : e.Fits n := hall _ (List.mem_map_of_mem he)
      cases e with
      | wrap => exact absurd he hwrap
      | capacity k size => exact fun hbad => absurd hfit.1 (Nat.not_le.2 hbad)
      | read => exact id
      | str _ _ => exact id
      | cut _ _ => exact id
  · rintro ⟨x, hx, hno⟩
    obtain ⟨e, he, rfl⟩ := List.mem_map.1 hx
    rcases hc.unfit ⟨e, he, hno⟩ with hp | ⟨b, hb, hbad⟩
    · refine .inl ?_
      change ¬(m Cur.start).1.Returns
      rw [hp]
      exact id
    · exact .inr ⟨_, List.mem_map_of_mem hb, hbad⟩

/-! ### Composition -/

/-- Two steps are answered where the first is and the second is behind it. -/
theorem bindAt {m : Run (Ledger σ) ε α} {f : α → Run (Ledger σ) ε β} {c : Ledger σ} (hm : AnswersAt m c)
    (hf : ∀ a c', m c = (.ok a, c') → AnswersAt (f a) c') : AnswersAt (m >>= f) c := by
  obtain ⟨new, hlog, hans⟩ := hm
  unfold AnswersAt
  rcases h : m c with ⟨a | e | _ | _, c'⟩ <;> simp only [h] at hlog hans
  · obtain ⟨new', hlog', hans'⟩ := hf a c' h
    rw [bind_of_ok h]
    exact ⟨new' ++ new, by rw [hlog', hlog, List.append_assoc], hans.seq trivial hans'⟩
  · rw [bind_of_err h]
    exact ⟨new, hlog, hans.congr Iff.rfl⟩
  · rw [bind_of_panic h]
    exact ⟨new, hlog, hans.congr Iff.rfl⟩
  · rw [bind_of_hang h]
    exact ⟨new, hlog, hans.congr Iff.rfl⟩

theorem bind {m : Run (Ledger σ) ε α} {f : α → Run (Ledger σ) ε β} (hm : Answers m) (hf : ∀ a, Answers (f a)) : Answers (m >>= f) :=
  fun c => bindAt (hm c) fun a c' _ => hf a c'

theorem ite {p : Prop} [Decidable p] {m m' : Run (Ledger σ) ε α} (h : p → Answers m) (h' : ¬p → Answers m') :
    Answers (if p then m else m') := by
  split
  · exact h ‹_›
  · exact h' ‹_›

theorem onlyIf {p : Prop} [Decidable p] {m : Run (Ledger σ) ε Unit} (h : Answers m) : Answers (Run.onlyIf p m) :=
  ite (fun _ => h) fun _ => pure ()

/-- A program that goes on where another one does, and comes back where it does. -/
theorem handled {m : Run (Ledger σ) ε α} {m' : Run (Ledger σ) ε' β} (hm : Answers m)
    (h : ∀ c, (m' c).2 = (m c).2 ∧ ((m c).1.Returns ↔ (m' c).1.Returns)) : Answers m' := by
  intro c
  obtain ⟨new, hlog, hans⟩ := hm c
  obtain ⟨hstate, hret⟩ := h c
  exact ⟨new, by rw [hstate, hlog], hans.congr hret⟩

theorem attempt {m : Run (Ledger σ) ε α} (hm : Answers m) : Answers (Run.attempt m : Run (Ledger σ) ε' (Option α)) := by
  refine hm.handled fun c => ?_
  rcases h : m c with ⟨a | e | _ | _, c'⟩ <;> simp [Run.attempt, h, Outcome.Returns]

theorem otherwise {m : Run (Ledger σ) ε α} (hm : Answers m) (b : α) : Answers (Run.otherwise b m) := by
  refine hm.handled fun c => ?_
  rcases h : m c with ⟨a | e | _ | _, c'⟩ <;> simp [Run.otherwise, h, Outcome.Returns]

theorem caught {m : Run (Ledger σ) ε α} (hm : Answers m) : Answers (Run.caught m : Run (Ledger σ) ε' (Except ε α)) := by
  refine hm.handled fun c => ?_
  rcases h : m c with ⟨a | e | _ | _, c'⟩ <;> simp [Run.caught, h, Outcome.Returns]

theorem mapErr {m : Run (Ledger σ) ε α} (hm : Answers m) (g : ε → ε') : Answers (Run.mapErr g m) := by
  refine hm.handled fun c => ?_
  rcases h : m c with ⟨a | e | _ | _, c'⟩ <;> simp [Run.mapErr, h, Outcome.Returns]

theorem inside {t : τ} {m : Run (Ledger τ) ε α} (hm : Answers m) : Answers (Ledger.inside t m : Run (Ledger σ) ε α) :=
  fun c => hm ⟨t, c.log⟩

end Answers

/-- A run that answers for its entries comes back and does nothing bad exactly when every entry fits. -/
theorem AnswersAt.iff {m : Run (Ledger σ) ε α} {s : σ} (h : AnswersAt m ⟨s, []⟩) :
    ((m ⟨s, []⟩).1.Returns ∧ ∀ x ∈ (m ⟨s, []⟩).2.log, ¬x.Bad) ↔ ∀ x ∈ (m ⟨s, []⟩).2.log, x.Fits := by
  obtain ⟨new, hlog, hans⟩ := h
  rw [List.append_nil] at hlog
  rw [hlog]
  constructor
  · rintro ⟨hret, hbad⟩
    by_contra hno
    have hex : ∃ x ∈ new, ¬x.Fits := by simpa only [not_forall, exists_prop] using hno
    rcases hans.unfit hex with h | ⟨x, hx, hb⟩
    · exact h hret
    · exact hbad x hx hb
  · exact hans.fit

end Prog
