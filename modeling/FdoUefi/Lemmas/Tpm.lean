import FdoUefi.Lib.Slots
import FdoUefi.Tpm

/-!
# Helpers about the TPM: what a call changes, effect by effect

`Changes t es t'` says that `t'` is `t` after the effects `es`: the record has grown by them, and what a handle or an index holds
is the last thing an effect of `es` put there. `Affects part P m` says of a call that its changes, however it ends, are the effects
of a list that satisfies `P`. Every command makes such a change (`execute_changes`), so the record is right, and what a call
leaves alone is what its effects do not mention.
-/

namespace FdoUefi

open Prog Prog.Run

namespace Tpm

/-- The writes to the persistent handle `h` among some effects. -/
def keyWrites (h : Nat) (es : List TpmEffect) : List (Option TpmKey) :=
  es.filterMap fun e => match e with
    | .evicted h' => if h' = h then some none else none
    | .persisted h' k => if h' = h then some (some k) else none
    | _ => none

/-- The writes to the index `i` among some effects. -/
def dataWrites (i : Nat) (es : List TpmEffect) : List (Option Bytes) :=
  es.filterMap fun e => match e with
    | .undefined i' => if i' = i then some none else none
    | .defined i' => if i' = i then some none else none
    | .written i' data => if i' = i then some (some data) else none
    | _ => none

/-- What can be read from an index. -/
def content (t : Tpm) (i : Nat) : Option Bytes :=
  match t.nv i with
  | some x => if x.written then some x.data else none
  | none => none

/-- `t'` is `t` after the effects `es`. -/
structure Changes (t : Tpm) (es : List TpmEffect) (t' : Tpm) : Prop where
  effects : t'.effects = t.effects ++ es
  keys : ∀ h, t'.persistent h = after (t.persistent h) (keyWrites h es)
  data : ∀ i, t'.content i = after (t.content i) (dataWrites i es)
  failedReads : t.failedReads ≤ t'.failedReads
  failedWrites : t.failedWrites ≤ t'.failedWrites

/-- The writes to a key of two lists of effects are those of one after those of the other. -/
theorem keyWrites_append (h : Nat) (es fs : List TpmEffect) : keyWrites h (es ++ fs) = keyWrites h es ++ keyWrites h fs :=
  List.filterMap_append

/-- The writes to an index of two lists of effects are those of one after those of the other. -/
theorem dataWrites_append (i : Nat) (es fs : List TpmEffect) :
    dataWrites i (es ++ fs) = dataWrites i es ++ dataWrites i fs :=
  List.filterMap_append

/-- A TPM that holds the same. -/
theorem Changes.same {t t' : Tpm} (he : t'.effects = t.effects) (hp : t'.persistent = t.persistent) (hn : t'.nv = t.nv)
    (hr : t.failedReads ≤ t'.failedReads) (hw : t.failedWrites ≤ t'.failedWrites) : Changes t [] t' := by
  refine ⟨by rw [he, List.append_nil], fun h => ?_, fun i => ?_, hr, hw⟩
  · rw [hp]
    rfl
  · rw [content, hn]
    rfl

/-- Doing nothing changes nothing. -/
theorem Changes.refl (t : Tpm) : Changes t [] t := .same rfl rfl rfl le_rfl le_rfl

/-- Changes one after the other are changes. -/
theorem Changes.trans {t t' t'' : Tpm} {es fs : List TpmEffect} (h : Changes t es t') (h' : Changes t' fs t'') :
    Changes t (es ++ fs) t'' := by
  refine ⟨by rw [h'.effects, h.effects, List.append_assoc], fun k => ?_, fun i => ?_, h.failedReads.trans h'.failedReads,
    h.failedWrites.trans h'.failedWrites⟩
  · rw [h'.keys, h.keys, keyWrites_append, after_append]
  · rw [h'.data, h.data, dataWrites_append, after_append]

/-! ## Single effects -/

/-- Evicting a key is one change. -/
theorem evict_changes (t : Tpm) (h : Nat) : Changes t [.evicted h] (t.evict h) := by
  refine ⟨rfl, fun k => ?_, fun i => rfl, le_rfl, le_rfl⟩
  by_cases hk : h = k
  · subst hk
    simp [evict, keyWrites]
  · simp [evict, keyWrites, hk, Ne.symm hk]

/-- Making a key persistent is one change. -/
theorem persist_changes (t : Tpm) (h : Nat) (k : TpmKey) : Changes t [.persisted h k] (t.persist h k) := by
  refine ⟨rfl, fun k' => ?_, fun i => rfl, le_rfl, le_rfl⟩
  by_cases hk : h = k'
  · subst hk
    simp [persist, keyWrites]
  · simp [persist, keyWrites, hk, Ne.symm hk]

/-- Undefining an index is one change. -/
theorem undefine_changes (t : Tpm) (i : Nat) : Changes t [.undefined i] (t.undefine i) := by
  refine ⟨rfl, fun k => rfl, fun j => ?_, le_rfl, le_rfl⟩
  by_cases hj : i = j
  · subst hj
    simp [undefine, content, dataWrites]
  · simp [undefine, content, dataWrites, hj, Ne.symm hj]

/-- Defining an index is one change. -/
theorem define_changes (t : Tpm) (i : Nat) (size : UInt16) (attributes : Nat) :
    Changes t [.defined i] (t.define i (NvIndex.blank size attributes)) := by
  refine ⟨rfl, fun k => rfl, fun j => ?_, le_rfl, le_rfl⟩
  by_cases hj : i = j
  · subst hj
    simp [define, content, dataWrites, NvIndex.blank]
  · simp [define, content, dataWrites, hj, Ne.symm hj]

/-- Writing into an index is one change. -/
theorem write_changes (t : Tpm) (i : Nat) {x : NvIndex} (hx : x.written = true) :
    Changes t [.written i x.data] (t.write i x) := by
  refine ⟨rfl, fun k => rfl, fun j => ?_, le_rfl, le_rfl⟩
  by_cases hj : i = j
  · subst hj
    simp [write, content, dataWrites, hx]
  · simp [write, content, dataWrites, hj, Ne.symm hj]

end Tpm

/-! ## Commands -/

/-- The effects a command can have. -/
def TpmCommand.Makes : TpmCommand → TpmEffect → Prop
  | .evictControl object persistent, e => if object = persistent then e = .evicted persistent else ∃ k, e = .persisted persistent k
  | .nvUndefineSpace index, e => e = .undefined index
  | .nvDefineSpace index _ _, e => e = .defined index
  | .nvWrite index _ _, e => ∃ data, e = .written index data
  | _, _ => False

namespace Tpm

variable {D : TpmDevice} {t : Tpm}

/-- A transient key becomes persistent at a free handle, or nothing happens. -/
theorem execute_persist (D : TpmDevice) (t : Tpm) {object persistent : Nat} (hne : object ≠ persistent) :
    (∃ k, t.transient object = some k ∧ t.execute D (.evictControl object persistent) = (.ok .done, t.persist persistent k)) ∨
      ∃ rc, t.execute D (.evictControl object persistent) = (.error rc, t) := by
  simp only [execute, if_neg hne]
  cases ht : t.transient object with
  | none => exact .inr ⟨_, rfl⟩
  | some k =>
    cases hp : t.persistent persistent with
    | none => exact .inl ⟨k, rfl, rfl⟩
    | some _ => exact .inr ⟨_, rfl⟩

/-- Data are written over the start of an index that has room for them, or nothing happens. -/
theorem execute_write (D : TpmDevice) (t : Tpm) (index : Nat) (size : UInt16) (data : Bytes) :
    (∃ i h, t.nv index = some i ∧
      t.execute D (.nvWrite index size data) = (.ok .done, t.write index (i.overwritten data h))) ∨
      ∃ rc, t.execute D (.nvWrite index size data) = (.error rc, t) := by
  simp only [execute]
  cases hn : t.nv index with
  | none => exact .inr ⟨_, rfl⟩
  | some i =>
    simp only
    split_ifs with hs hl
    · exact .inr ⟨_, rfl⟩
    · exact .inl ⟨i, hl, rfl, rfl⟩
    · exact .inr ⟨_, rfl⟩

/-- What a command changes is recorded in its effects. -/
theorem execute_changes (D : TpmDevice) (t : Tpm) (cmd : TpmCommand) :
    ∃ es, Changes t es (t.execute D cmd).2 ∧ ∀ e ∈ es, cmd.Makes e := by
  have still : ∀ {r : Except Nat TpmResponse × Tpm}, r.2 = t → ∃ es, Changes t es r.2 ∧ ∀ e ∈ es, cmd.Makes e :=
    fun h => ⟨[], h ▸ Changes.refl t, by simp⟩
  cases cmd with
  | flushContext handle =>
    simp only [execute]
    split_ifs
    · exact ⟨[], .same rfl rfl rfl le_rfl le_rfl, by simp⟩
    · exact still rfl
  | createPrimary template =>
    simp only [execute]
    split_ifs
    · exact ⟨[], .same rfl rfl rfl le_rfl le_rfl, by simp⟩
    · exact still rfl
  | evictControl object persistent =>
    by_cases hop : object = persistent
    · simp only [execute, if_pos hop]
      split_ifs
      · exact ⟨_, evict_changes t persistent, by simp [TpmCommand.Makes, hop]⟩
      · exact still rfl
    · rcases execute_persist D t hop with ⟨k, -, hex⟩ | ⟨rc, hex⟩
      · rw [hex]
        exact ⟨_, persist_changes t persistent k, by simp [TpmCommand.Makes, hop]⟩
      · exact still (by rw [hex])
  | hmac handle size data =>
    simp only [execute]
    cases t.key handle with
    | none => exact still rfl
    | some k =>
      simp only
      split_ifs <;> exact still rfl
  | sign handle digest =>
    simp only [execute]
    cases t.key handle with
    | none => exact still rfl
    | some k =>
      simp only
      split_ifs <;> exact still rfl
  | nvReadPublic index =>
    simp only [execute]
    cases t.nv index <;> exact still rfl
  | nvRead index size =>
    simp only [execute]
    cases t.nv index with
    | none => exact still rfl
    | some i =>
      simp only
      split_ifs <;> exact still rfl
  | nvUndefineSpace index =>
    simp only [execute]
    split_ifs
    · exact ⟨_, undefine_changes t index, by simp [TpmCommand.Makes]⟩
    · exact still rfl
  | nvDefineSpace index size attributes =>
    simp only [execute]
    split_ifs
    · exact still rfl
    · exact ⟨_, define_changes t index size attributes, by simp [TpmCommand.Makes]⟩
  | nvWrite index size data =>
    rcases execute_write D t index size data with ⟨i, h, -, hex⟩ | ⟨rc, hex⟩
    · rw [hex]
      exact ⟨_, write_changes t index rfl, by simp [TpmCommand.Makes]⟩
    · exact still (by rw [hex])

end Tpm

/-! ## Submissions -/

/-- A TPM after the submission of a command it did not run. -/
def Tpm.counted (t : Tpm) (n : Nat) : Tpm := { t with submissions := n }

section

variable {D : TpmDevice} {cmd : TpmCommand} {R : Tpm → Tpm → Prop}

/-- A submitted command has been run or not. -/
theorem submitCommand_snd {ε : Type} (D : TpmDevice) (cmd : TpmCommand) (t : Tpm) :
    ((submitCommand D cmd : Run Tpm ε Submitted) t).2 = t.counted (t.submissions + 1) ∨
      ((submitCommand D cmd : Run Tpm ε Submitted) t).2 = (t.execute D cmd).2.counted (t.submissions + 1) := by
  simp only [submitCommand]
  split
  · exact .inr rfl
  · exact .inr rfl
  · exact .inl rfl
  · exact .inr rfl
  · exact .inl rfl

/-- A submission that brought a response: the TPM has run the command. -/
theorem submitCommand_response {ε : Type} {t u : Tpm} {r : TpmResponse}
    (h : (submitCommand D cmd : Run Tpm ε Submitted) t = (.ok (.response r), u)) :
    u = (t.execute D cmd).2.counted (t.submissions + 1) ∧
      ∃ r₀, (t.execute D cmd).1 = .ok r₀ ∧ (r = r₀ ∨ r = r₀.garbled) := by
  simp only [submitCommand] at h
  cases hx : (t.execute D cmd).1 with
  | error rc =>
    rw [hx] at h
    split at h <;> simp [Submitted.ofResult, Except.map] at h
  | ok r₀ =>
    rw [hx] at h
    split at h
    · obtain ⟨hr, rfl⟩ := Prod.mk.inj h
      cases hr
      exact ⟨rfl, _, rfl, .inl rfl⟩
    · obtain ⟨hr, rfl⟩ := Prod.mk.inj h
      cases hr
      exact ⟨rfl, _, rfl, .inr rfl⟩
    · simp at h
    · simp at h
    · simp at h

/-- What every single submission keeps, the loop over them keeps. -/
theorem submitLoop_rel (hr : ∀ t, R t t) (ht : ∀ t u v, R t u → R u v → R t v)
    (hs : ∀ t, R t ((submitCommand D cmd : Run Tpm Nat Submitted) t).2) (n : Nat) (t : Tpm) :
    R t (submitLoop D cmd n t).2 := by
  induction n generalizing t with
  | zero => exact hr t
  | succ n ih =>
    have hstep := hs t
    rw [submitLoop]
    rcases bind_cases (submitCommand D cmd) _ t with ⟨a, u, hm, heq⟩ | ⟨heq, -⟩
    · rw [heq]
      rw [hm] at hstep
      refine ht _ _ _ hstep ?_
      cases a with
      | failed => exact ih u
      | rc code =>
        dsimp only
        split_ifs
        · exact ih u
        · exact hr u
      | response r => exact hr u
    · rw [heq]
      exact hstep

/-- A response from the loop comes from its last submission. -/
theorem submitLoop_ok (hr : ∀ t, R t t) (ht : ∀ t u v, R t u → R u v → R t v)
    (hs : ∀ t, R t ((submitCommand D cmd : Run Tpm Nat Submitted) t).2) {n : Nat} {t u : Tpm} {r : TpmResponse}
    (h : submitLoop D cmd n t = (.ok r, u)) :
    ∃ t₀ r₀, R t t₀ ∧ (t₀.execute D cmd).1 = .ok r₀ ∧ (r = r₀ ∨ r = r₀.garbled) ∧
      u = (t₀.execute D cmd).2.counted (t₀.submissions + 1) := by
  induction n generalizing t with
  | zero => simp [submitLoop] at h
  | succ n ih =>
    rw [submitLoop] at h
    obtain ⟨a, v, hm, hrest⟩ := bind_ok_iff.1 h
    have hstep := hs t
    rw [hm] at hstep
    cases a with
    | failed =>
      obtain ⟨t₀, r₀, h0, hx⟩ := ih hrest
      exact ⟨t₀, r₀, ht _ _ _ hstep h0, hx⟩
    | rc code =>
      dsimp only at hrest
      split_ifs at hrest
      · obtain ⟨t₀, r₀, h0, hx⟩ := ih hrest
        exact ⟨t₀, r₀, ht _ _ _ hstep h0, hx⟩
      · simp at hrest
    | response r' =>
      obtain ⟨rfl, rfl⟩ := pure_ok_iff.1 hrest
      obtain ⟨hu, r₀, hx, hgar⟩ := submitCommand_response hm
      exact ⟨t, r₀, hr t, hx, hgar, hu⟩

/-- A command that was answered was executed, after nothing but failed attempts. -/
theorem tpmSubmit_ok (hr : ∀ t, R t t) (ht : ∀ t u v, R t u → R u v → R t v)
    (hs : ∀ t, R t ((submitCommand D cmd : Run Tpm Nat Submitted) t).2) {t u : Tpm} {r : TpmResponse}
    (h : tpmSubmit D cmd t = (.ok r, u)) :
    ∃ t₀ r₀, R t t₀ ∧ (t₀.execute D cmd).1 = .ok r₀ ∧ (r = r₀ ∨ r = r₀.garbled) ∧
      u = (t₀.execute D cmd).2.counted (t₀.submissions + 1) :=
  submitLoop_ok hr ht hs (mapErr_ok_iff.1 h)

end

/-! ## What a call affects -/

/-- The list consists of effects that satisfy `E`. -/
def Only (E : TpmEffect → Prop) (es : List TpmEffect) : Prop := ∀ e ∈ es, E e

/-- The list starts as `P` says and goes on as `Q` says. -/
def Then (P Q : List TpmEffect → Prop) (es : List TpmEffect) : Prop := ∃ xs ys, es = xs ++ ys ∧ P xs ∧ Q ys

/-- However the call ends, what it has changed are the effects of a list that satisfies `P`. -/
def AffectsAt {σ ε α : Type} (part : σ → Tpm) (P : List TpmEffect → Prop) (m : Run σ ε α) (s : σ) : Prop :=
  ∃ es, Tpm.Changes (part s) es (part (m s).2) ∧ P es

def Affects {σ ε α : Type} (part : σ → Tpm) (P : List TpmEffect → Prop) (m : Run σ ε α) : Prop := ∀ s, AffectsAt part P m s

/-- No effects are of any kind. -/
theorem only_nil {E : TpmEffect → Prop} : Only E [] := by simp [Only]

/-- Effects of a kind after effects of it are of it. -/
theorem Only.append {E : TpmEffect → Prop} {es fs : List TpmEffect} (h : Only E es) (h' : Only E fs) : Only E (es ++ fs) := by
  intro e he
  rcases List.mem_append.1 he with he | he
  · exact h e he
  · exact h' e he

/-- Two parts with effects of a kind have effects of it. -/
theorem then_only {E : TpmEffect → Prop} {es : List TpmEffect} (h : Then (Only E) (Only E) es) : Only E es := by
  obtain ⟨xs, ys, rfl, hx, hy⟩ := h
  exact hx.append hy

section

variable {σ ε ε' α β : Type} {part : σ → Tpm} {P Q : List TpmEffect → Prop}

/-- A wider description holds as well. -/
theorem AffectsAt.mono {m : Run σ ε α} {s : σ} (h : AffectsAt part P m s) (hPQ : ∀ es, P es → Q es) : AffectsAt part Q m s := by
  obtain ⟨es, hc, hp⟩ := h
  exact ⟨es, hc, hPQ es hp⟩

/-- A call that leaves the TPM alone. -/
theorem AffectsAt.still {m : Run σ ε α} {s : σ} (h : part (m s).2 = part s) (hP : P []) : AffectsAt part P m s :=
  ⟨[], h ▸ Tpm.Changes.refl _, hP⟩

/-- A call with the same end state. -/
theorem AffectsAt.of_snd_eq {m : Run σ ε α} {m' : Run σ ε' β} {s : σ} (h : AffectsAt part P m s) (heq : (m' s).2 = (m s).2) :
    AffectsAt part P m' s := by
  obtain ⟨es, hc, hp⟩ := h
  exact ⟨es, heq ▸ hc, hp⟩

/-- A sequence: its second part runs from a state the first part has left. -/
theorem AffectsAt.bind {m : Run σ ε α} {f : α → Run σ ε β} {s : σ} (hm : AffectsAt part P m s)
    (hf : ∀ a t, m s = (.ok a, t) → AffectsAt part Q (f a) t) (hQ : Q []) : AffectsAt part (Then P Q) (m >>= f) s := by
  obtain ⟨es, hc, hp⟩ := hm
  rcases bind_cases m f s with ⟨a, t, hms, heq⟩ | ⟨heq, -⟩
  · obtain ⟨fs, hc', hq⟩ := hf a t hms
    rw [hms] at hc
    exact ⟨es ++ fs, by rw [heq]; exact hc.trans hc', es, fs, rfl, hp, hq⟩
  · exact ⟨es, by rw [heq]; exact hc, es, [], (List.append_nil es).symm, hp, hQ⟩

namespace Affects

/-- A wider description holds as well. -/
theorem mono {m : Run σ ε α} (h : Affects part P m) (hPQ : ∀ es, P es → Q es) : Affects part Q m := fun s => (h s).mono hPQ

/-- What leaves the TPM alone has no effects. -/
theorem still {m : Run σ ε α} (h : ∀ s, part (m s).2 = part s) (hP : P []) : Affects part P m := fun s => .still (h s) hP

/-- Two steps have the effects of one after those of the other. -/
theorem bind {m : Run σ ε α} {f : α → Run σ ε β} (hm : Affects part P m) (hf : ∀ a, Affects part Q (f a)) (hQ : Q []) :
    Affects part (Then P Q) (m >>= f) := fun s => (hm s).bind (fun a t _ => hf a t) hQ

/-- A sequence of calls with the same kind of effects. -/
theorem bind_only {E : TpmEffect → Prop} {m : Run σ ε α} {f : α → Run σ ε β} (hm : Affects part (Only E) m)
    (hf : ∀ a, Affects part (Only E) (f a)) : Affects part (Only E) (m >>= f) :=
  (hm.bind hf only_nil).mono fun _ => then_only

/-- A sequence whose first part leaves the TPM alone. -/
theorem bind_still {m : Run σ ε α} {f : α → Run σ ε β} (hm : ∀ s, part (m s).2 = part s) (hf : ∀ a, Affects part P (f a))
    (hP : P []) : Affects part P (m >>= f) := by
  intro s
  rcases bind_cases m f s with ⟨a, t, hms, heq⟩ | ⟨heq, -⟩
  · have ht : part t = part s := by
      rw [← hm s, hms]
    obtain ⟨es, hc, hp⟩ := hf a t
    exact ⟨es, by rw [heq, ← ht]; exact hc, hp⟩
  · exact .still (by rw [heq, hm s]) hP

/-- A sequence whose second part leaves the TPM alone. -/
theorem then_still {m : Run σ ε α} {f : α → Run σ ε β} (hm : Affects part P m) (hf : ∀ a s, part (f a s).2 = part s) :
    Affects part P (m >>= f) := by
  intro s
  obtain ⟨es, hc, hp⟩ := hm s
  rcases bind_cases m f s with ⟨a, t, hms, heq⟩ | ⟨heq, -⟩
  · rw [hms] at hc
    exact ⟨es, by rw [heq, hf a t]; exact hc, hp⟩
  · exact ⟨es, by rw [heq]; exact hc, hp⟩

/-- An attempt has the effects of the call. -/
theorem attempt {m : Run σ ε α} (h : Affects part P m) : Affects part P (Run.attempt m : Run σ ε' (Option α)) :=
  fun s => (h s).of_snd_eq (attempt_snd m s)

/-- A call whose error is renamed has the effects of the call. -/
theorem mapErr {f : ε → ε'} {m : Run σ ε α} (h : Affects part P m) : Affects part P (Run.mapErr f m) :=
  fun s => (h s).of_snd_eq (by rcases hm : m s with ⟨_ | _ | _ | _, t⟩ <;> simp [Run.mapErr, hm])

/-- A call whose result is ignored has the effects of the call. -/
theorem ignored {m : Run σ ε Unit} (h : Affects part P m) : Affects part P (Run.ignored m : Run σ ε' Unit) :=
  fun s => (h s).of_snd_eq (by rcases hm : m s with ⟨_ | _ | _ | _, t⟩ <;> simp [Run.ignored, hm])

/-- A call whose error is caught has the effects of the call. -/
theorem caught {m : Run σ ε α} (h : Affects part P m) : Affects part P (Run.caught m : Run σ ε' (Except ε α)) :=
  fun s => (h s).of_snd_eq (by rcases hm : m s with ⟨_ | _ | _ | _, t⟩ <;> simp [Run.caught, hm])

end Affects

end

end FdoUefi
