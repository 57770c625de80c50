import FdoUefi.Lemmas.Tpm

/-!
# Helpers about the functions that drive the TPM

For each function of the client: the effects it can have, in their order (`_affects`), and what holds when it returns a value
(`_ok`). A function that makes a key persistent evicts first and persists then (`KeySteps`); one that writes an index undefines
and defines it first (`DataSteps`).
-/

namespace FdoUefi

open Prog Prog.Run Tpm

/-- No effect. -/
abbrev Untouched : List TpmEffect → Prop := Only fun _ => False

/-- The key at a handle is evicted, and then `k` made persistent there. -/
def KeySteps (handle : Nat) (k : TpmKey) : List TpmEffect → Prop :=
  Then (Only (· = .evicted handle)) (Only (· = .persisted handle k))

/-- An index is undefined and defined, and then written with one content. -/
def DataSteps (index : Nat) (es : List TpmEffect) : Prop :=
  ∃ data, Then (Only fun e => e = .undefined index ∨ e = .defined index) (Only (· = .written index data)) es

/-- Untouched means no effects. -/
theorem untouched_iff {es : List TpmEffect} : Untouched es ↔ es = [] := by
  constructor
  · intro h
    cases es with
    | nil => rfl
    | cons e es => exact (h e (by simp)).elim
  · rintro rfl
    exact only_nil

/-- No effects may be steps of a key. -/
theorem keySteps_nil {handle : Nat} {k : TpmKey} : KeySteps handle k [] := ⟨[], [], rfl, only_nil, only_nil⟩

/-- No effects may be steps of an index. -/
theorem dataSteps_nil {index : Nat} : DataSteps index [] := ⟨[], [], [], rfl, only_nil, only_nil⟩

/-- A part that has no effect does not count. -/
theorem then_untouched {P : List TpmEffect → Prop} {es : List TpmEffect} (h : Then P Untouched es) : P es := by
  obtain ⟨xs, ys, rfl, hx, hy⟩ := h
  rw [untouched_iff.1 hy, List.append_nil]
  exact hx

/-- What follows nothing is all there is. -/
theorem untouched_then {P : List TpmEffect → Prop} {es : List TpmEffect} (h : Then Untouched P es) : P es := by
  obtain ⟨xs, ys, rfl, hx, hy⟩ := h
  rw [untouched_iff.1 hx, List.nil_append]
  exact hy

/-- A call without effects leaves every handle and every index as it was. -/
theorem Affects.changes_nil {α ε : Type} {m : Run Tpm ε α} (h : Affects id Untouched m) (t : Tpm) : Changes t [] (m t).2 := by
  obtain ⟨es, hc, hes⟩ := h t
  rw [untouched_iff.1 hes] at hc
  exact hc

/-- What leaves the TPM untouched leaves its keys. -/
theorem Affects.keys_eq {α ε : Type} {m : Run Tpm ε α} (h : Affects id Untouched m) {t u : Tpm} {r : Outcome ε α}
    (hm : m t = (r, u)) (handle : Nat) : u.persistent handle = t.persistent handle := by
  have hk := (h.changes_nil t).keys handle
  rwa [hm] at hk

/-! ## Submissions -/

section

variable {D : TpmDevice}

/-- Counting submissions changes no key and no index. -/
theorem counted_changes {t t' : Tpm} {es : List TpmEffect} (h : Changes t es t') (n : Nat) : Changes t es (t'.counted n) :=
  ⟨h.effects, h.keys, h.data, h.failedReads, h.failedWrites⟩

/-- A submission has the effects of its command at most. -/
theorem submitCommand_affects {ε : Type} (cmd : TpmCommand) :
    Affects id (Only cmd.Makes) (submitCommand D cmd : Run Tpm ε Submitted) := by
  intro t
  rcases submitCommand_snd (ε := ε) D cmd t with h | h
  · exact ⟨[], by rw [h]; exact counted_changes (.refl t) _, only_nil⟩
  · obtain ⟨es, hc, hes⟩ := execute_changes D t cmd
    exact ⟨es, by rw [h]; exact counted_changes hc _, hes⟩

/-- Changes of a kind one after the other are changes of it. -/
theorem changes_only_trans {E : TpmEffect → Prop} (t u v : Tpm) (h : ∃ es, Changes t es u ∧ Only E es)
    (h' : ∃ es, Changes u es v ∧ Only E es) : ∃ es, Changes t es v ∧ Only E es := by
  obtain ⟨es, hc, hes⟩ := h
  obtain ⟨fs, hc', hfs⟩ := h'
  exact ⟨es ++ fs, hc.trans hc', hes.append hfs⟩

/-- The retries have the effects of the command at most. -/
theorem tpmSubmitWithRetry_affects (cmd : TpmCommand) : Affects id (Only cmd.Makes) (tpmSubmitWithRetry D cmd) := fun t =>
  submitLoop_rel (R := fun t u => ∃ es, Changes t es u ∧ Only cmd.Makes es) (fun t => ⟨[], .refl t, only_nil⟩)
    changes_only_trans (submitCommand_affects cmd) tpmRetryMax t

/-- Submitting a command has the effects of the command at most. -/
theorem tpmSubmit_affects (cmd : TpmCommand) : Affects id (Only cmd.Makes) (tpmSubmit D cmd) :=
  (tpmSubmitWithRetry_affects cmd).mapErr

/-- Opening the TPM has none. -/
theorem openTcg_affects {E : TpmEffect → Prop} : Affects id (Only E) (openTcg D) :=
  fun t => ⟨[], counted_changes (.refl t) _, only_nil⟩

/-- A command whose result is ignored has its effects at most. -/
theorem bestEffort_affects (cmd : TpmCommand) : Affects id (Only cmd.Makes) (bestEffort D cmd) :=
  (submitCommand_affects cmd).then_still fun _ _ => rfl

/-- Flushing handles leaves the TPM untouched. -/
theorem flushEach_affects (handles : List Nat) : Affects id Untouched (flushEach D handles) := by
  induction handles with
  | nil => exact .still (fun _ => rfl) only_nil
  | cons handle handles ih => exact (bestEffort_affects (.flushContext handle)).bind_only fun _ => ih

/-- Flushing all handles leaves the TPM untouched. -/
theorem tpmFlushAllTransient_affects : Affects id Untouched (tpmFlushAllTransient D) :=
  (openTcg_affects.bind_only fun _ => flushEach_affects _).ignored

/-- Flushing one handle leaves the TPM untouched. -/
theorem tpmFlushContext_affects (handle : Nat) : Affects id Untouched (tpmFlushContext D handle) :=
  (openTcg_affects.bind_only fun _ => bestEffort_affects _).ignored

/-! ## Keys -/

/-- A command that changes neither keys nor indices, submitted until it succeeds. -/
theorem tpmSubmit_ok_of_still {cmd : TpmCommand} (h : ∀ t : Tpm, (t.execute D cmd).2 = t) {t u : Tpm} {r : TpmResponse}
    (hr : tpmSubmit D cmd t = (.ok r, u)) :
    ∃ t₀ r₀, (∃ n, t₀ = t.counted n) ∧ (t₀.execute D cmd).1 = .ok r₀ ∧ (r = r₀ ∨ r = r₀.garbled) ∧ ∃ n, u = t.counted n := by
  have hstep : ∀ t : Tpm, ∃ n, ((submitCommand D cmd : Run Tpm Nat Submitted) t).2 = t.counted n := by
    intro t
    rcases submitCommand_snd (ε := Nat) D cmd t with hs | hs
    · exact ⟨_, hs⟩
    · exact ⟨_, by rw [hs, h t]⟩
  have htrans : ∀ t u v : Tpm, (∃ n, u = t.counted n) → (∃ n, v = u.counted n) → ∃ n, v = t.counted n := by
    rintro t u v ⟨n, rfl⟩ ⟨k, rfl⟩
    exact ⟨k, rfl⟩
  have hrefl : ∀ t : Tpm, ∃ n, t = t.counted n := fun t => ⟨t.submissions, rfl⟩
  obtain ⟨t₀, r₀, h0, hx, hgar, hu⟩ := tpmSubmit_ok (R := fun t u => ∃ n, u = t.counted n) hrefl htrans hstep hr
  rw [h t₀] at hu
  exact ⟨t₀, r₀, h0, hx, hgar, htrans _ _ _ h0 ⟨_, hu⟩⟩

/-- A primary key that was created is loaded at the handle the response names. -/
theorem createPrimary_ok {template : KeyTemplate} {t u : Tpm} {r : TpmResponse}
    (h : tpmSubmit D (.createPrimary template) t = (.ok r, u)) :
    ∃ handle, isTransient handle = true ∧ u.transient handle = some ⟨template, D.seed⟩ ∧
      (r = .created handle (some (D.publicPoint ⟨template, D.seed⟩)) ∨ r = .created handle none) := by
  obtain ⟨t₀, r₀, -, hx, hgar, rfl⟩ := tpmSubmit_ok (R := fun _ _ => True) (fun _ => trivial) (fun _ _ _ _ _ => trivial)
    (fun _ => trivial) h
  simp only [execute] at hx ⊢
  split_ifs at hx ⊢ with hh
  cases hx
  refine ⟨D.handle t₀.submissions, hh.1, ?_, ?_⟩
  · simp [counted, setTransient]
  · rcases hgar with rfl | rfl
    · exact .inl rfl
    · exact .inr rfl

/-- A transient key that is made persistent: the effects are that, and the key stays loaded. -/
theorem persist_affectsAt {handle persistent : Nat} (hne : handle ≠ persistent) {k : TpmKey} {t : Tpm}
    (hk : t.transient handle = some k) :
    AffectsAt id (Only (· = .persisted persistent k)) (tpmSubmit D (.evictControl handle persistent)) t := by
  let R (t u : Tpm) : Prop := t.transient handle = some k →
    u.transient handle = some k ∧ ∃ es, Changes t es u ∧ Only (· = .persisted persistent k) es
  have hr : ∀ t, R t t := fun t ht => ⟨ht, [], .refl t, only_nil⟩
  have htrans : ∀ t u v, R t u → R u v → R t v := by
    intro t u v h1 h2 ht
    obtain ⟨hu, h1⟩ := h1 ht
    obtain ⟨hv, h2⟩ := h2 hu
    exact ⟨hv, changes_only_trans t u v h1 h2⟩
  have hs : ∀ t, R t ((submitCommand D (.evictControl handle persistent) : Run Tpm Nat Submitted) t).2 := by
    intro t ht
    rcases submitCommand_snd (ε := Nat) D (.evictControl handle persistent) t with h | h
    · rw [h]
      exact ⟨ht, [], counted_changes (.refl t) _, only_nil⟩
    · rw [h]
      rcases execute_persist D t hne with ⟨k', hk', hx⟩ | ⟨rc, hx⟩
      · obtain rfl : k = k' := Option.some.inj (ht.symm.trans hk')
        rw [hx]
        exact ⟨ht, _, counted_changes (persist_changes t persistent k) _, by simp [Only]⟩
      · rw [hx]
        exact ⟨ht, [], counted_changes (.refl t) _, only_nil⟩
  exact AffectsAt.of_snd_eq (m := tpmSubmitWithRetry D (.evictControl handle persistent))
    (submitLoop_rel hr htrans hs tpmRetryMax t hk).2 (by
      rcases hm : tpmSubmitWithRetry D (.evictControl handle persistent) t with ⟨_ | _ | _ | _, u⟩ <;>
        simp [tpmSubmit, Run.mapErr, hm])

/-- Making a transient key persistent: on success the handle holds it. -/
theorem persistOrFlush_affectsAt {handle persistent : Nat} (hne : handle ≠ persistent) {k : TpmKey} {t : Tpm}
    (hk : t.transient handle = some k) :
    AffectsAt id (Only (· = .persisted persistent k)) (persistOrFlush D handle persistent) t := by
  refine AffectsAt.mono (AffectsAt.bind (Q := Untouched) ((persist_affectsAt hne hk).of_snd_eq (attempt_snd _ t)) ?_ only_nil)
    fun _ => then_untouched
  rintro (_ | r) u -
  · exact ((bestEffort_affects _).then_still fun _ _ => rfl) u
  · exact .still rfl only_nil

/-- Making a key persistent keeps the transient keys. -/
theorem submit_persist_transient {handle persistent : Nat} (hne : handle ≠ persistent) {k : TpmKey} (t : Tpm)
    (ht : t.transient handle = some k) :
    ((submitCommand D (.evictControl handle persistent) : Run Tpm Nat Submitted) t).2.transient handle = some k := by
  rcases submitCommand_snd (ε := Nat) D (.evictControl handle persistent) t with hs | hs
  · rw [hs]
    exact ht
  · rw [hs]
    rcases execute_persist D t hne with ⟨k', -, hex⟩ | ⟨rc, hex⟩
    · rw [hex]
      exact ht
    · rw [hex]
      exact ht

/-- A key that was made persistent is the one that was loaded. -/
theorem persistOrFlush_ok {handle persistent : Nat} (hne : handle ≠ persistent) {k : TpmKey} {t u : Tpm}
    (hk : t.transient handle = some k) (h : persistOrFlush D handle persistent t = (.ok (), u)) :
    u.persistent persistent = some k := by
  obtain ⟨o, v, hsub, hrest⟩ := bind_ok_iff.1 h
  rcases attempt_ok_iff.1 hsub with ⟨r, rfl, hr⟩ | ⟨rfl, -⟩
  · obtain ⟨-, rfl⟩ := pure_ok_iff.1 hrest
    obtain ⟨t₀, r₀, ht₀, hx, -, rfl⟩ := tpmSubmit_ok (R := fun t u => t.transient handle = some k → u.transient handle = some k)
      (fun _ => id) (fun _ _ _ h1 h2 ht => h2 (h1 ht)) (fun t => submit_persist_transient hne t) hr
    rcases execute_persist D t₀ hne with ⟨k', hk', hex⟩ | ⟨rc, hex⟩
    · obtain rfl : k = k' := Option.some.inj ((ht₀ hk).symm.trans hk')
      rw [hex]
      simp [counted, persist]
    · rw [hex] at hx
      cases hx
  · obtain ⟨_, w, -, hfail⟩ := bind_ok_iff.1 hrest
    simp at hfail

/-- Evicting a stale key evicts at most that one. -/
theorem evictStale_affects (persistent : Nat) :
    Affects id (Only (· = .evicted persistent)) (bestEffort D (.evictControl persistent persistent)) :=
  (bestEffort_affects _).mono fun _ h e he => by simpa [TpmCommand.Makes] using h e he

/-- No transient handle is a persistent one. -/
theorem ne_of_isTransient {handle persistent : Nat} (h : isTransient handle = true) (h' : isTransient persistent = false) :
    handle ≠ persistent := by
  rintro rfl
  rw [h] at h'
  cases h'

/-- The signing key function evicts and then persists the key it creates. -/
theorem signingKey_affects {persistent : Nat} (hp : isTransient persistent = false) :
    Affects id (KeySteps persistent ⟨.signing, D.seed⟩) (tpmCreateAndPersistSigningKey D persistent) := by
  refine Affects.mono (Affects.bind (openTcg_affects (E := fun _ => False)) (fun _ => ?_) keySteps_nil) fun _ => untouched_then
  refine (evictStale_affects persistent).bind (fun _ t => ?_) only_nil
  refine AffectsAt.mono (AffectsAt.bind (tpmSubmit_affects _ t) (fun r u hr => ?_) only_nil) fun _ => untouched_then
  obtain ⟨handle, htr, hk, rfl | rfl⟩ := createPrimary_ok hr
  · refine AffectsAt.of_snd_eq (m := persistOrFlush D handle persistent)
      (persistOrFlush_affectsAt (ne_of_isTransient htr hp) hk) ?_
    rcases hm : persistOrFlush D handle persistent u with ⟨_ | _ | _ | _, u'⟩ <;>
      simp [TpmResponse.primaryKey?, orFail, bind_def, andThen, hm]
  · exact .still rfl only_nil

/-- The signing key it returns is the one at the handle. -/
theorem signingKey_ok {persistent : Nat} (hp : isTransient persistent = false) {t u : Tpm} {key : TpmSigningKey}
    (h : tpmCreateAndPersistSigningKey D persistent t = (.ok key, u)) :
    key.handle = persistent ∧ (key.publicX, key.publicY) = D.publicPoint ⟨.signing, D.seed⟩ ∧
      u.persistent persistent = some ⟨.signing, D.seed⟩ := by
  simp only [tpmCreateAndPersistSigningKey, bind_ok_iff, orFail_ok_iff, pure_ok_iff] at h
  obtain ⟨_, t₁, -, _, t₂, -, r, t₃, hr, ⟨handle', x, y⟩, t₄, ⟨hpk, rfl⟩, _, t₅, hpers, rfl, rfl⟩ := h
  obtain ⟨handle, htr, hk, rfl | rfl⟩ := createPrimary_ok hr
  · simp only [TpmResponse.primaryKey?, Option.some.injEq, Prod.mk.injEq] at hpk
    obtain ⟨rfl, rfl, rfl⟩ := hpk
    exact ⟨rfl, rfl, persistOrFlush_ok (ne_of_isTransient htr hp) hk hpers⟩
  · simp [TpmResponse.primaryKey?] at hpk

/-- An HMAC leaves the TPM as it is. -/
theorem execute_hmac_still (handle : Nat) (size : UInt16) (data : Bytes) (t : Tpm) :
    (t.execute D (.hmac handle size data)).2 = t := by
  simp only [execute]
  cases t.key handle with
  | none => rfl
  | some k =>
    simp only
    split_ifs <;> rfl

/-- An HMAC with a flush behind it leaves the TPM as it is. -/
theorem hmacOrFlush_affects (handle : Nat) (data : Bytes) : Affects id Untouched (hmacOrFlush D handle data) := by
  refine Affects.bind_only (Affects.attempt ((tpmSubmit_affects _).then_still fun r s => ?_)) fun o => ?_
  · rcases hr : r.digest? with _ | v <;> rfl
  · cases o with
    | none => exact (bestEffort_affects _).then_still fun _ _ => rfl
    | some v => exact .still (fun _ => rfl) only_nil

/-- The HMAC that is returned is that of the loaded key. -/
theorem hmacOrFlush_ok {handle : Nat} (htr : isTransient handle = true) {k : TpmKey} {data v : Bytes} {t u : Tpm}
    (hk : t.transient handle = some k) (h : hmacOrFlush D handle data t = (.ok v, u)) :
    v = D.hmac k data ∧ u.transient handle = some k := by
  obtain ⟨o, t₁, ho, h⟩ := bind_ok_iff.1 h
  rcases attempt_ok_iff.1 ho with ⟨v', rfl, hv⟩ | ⟨rfl, -⟩
  · obtain ⟨rfl, rfl⟩ := pure_ok_iff.1 h
    simp only [bind_ok_iff, orFail_ok_iff] at hv
    obtain ⟨r, t₂, hr, hdig, rfl⟩ := hv
    obtain ⟨t₀, r₀, ⟨n, rfl⟩, hx, hgar, m, rfl⟩ := tpmSubmit_ok_of_still (execute_hmac_still _ _ _) hr
    have hkey : (t.counted n).key handle = some k := by
      simp only [key, htr, if_pos]
      exact hk
    simp only [execute, hkey] at hx
    split_ifs at hx
    cases hx
    rcases hgar with rfl | rfl
    · exact ⟨(Option.some.inj hdig).symm, hk⟩
    · cases hdig
  · obtain ⟨_, t₂, -, hfail⟩ := bind_ok_iff.1 h
    simp at hfail

/-- The HMAC function evicts and then persists the key it creates. -/
theorem createHmac_affects {persistent : Nat} (hp : isTransient persistent = false) (data : Bytes) :
    Affects id (KeySteps persistent ⟨.hmac, D.seed⟩) (tpmCreateHmacAndPersist D data persistent) := by
  refine Affects.mono (Affects.bind (openTcg_affects (E := fun _ => False)) (fun _ => ?_) keySteps_nil) fun _ => untouched_then
  refine (evictStale_affects persistent).bind (fun _ t => ?_) only_nil
  refine AffectsAt.mono (AffectsAt.bind (tpmSubmit_affects _ t) (fun r u hr => ?_) only_nil) fun _ => untouched_then
  obtain ⟨handle, htr, hk, hr'⟩ := createPrimary_ok hr
  have hh : r.handle? = some handle := by rcases hr' with rfl | rfl <;> rfl
  have hstart : ∀ f : Nat → TpmRun (Nat × Bytes), (orFail r.handle? () >>= f) u = f handle u := by
    intro f
    rw [hh]
    rfl
  refine AffectsAt.mono (AffectsAt.of_snd_eq (AffectsAt.bind (hmacOrFlush_affects handle data u) (fun v w hv => ?_) only_nil)
    (congrArg Prod.snd (hstart _))) fun _ => untouched_then
  obtain ⟨-, hw⟩ := hmacOrFlush_ok htr hk hv
  refine AffectsAt.of_snd_eq (m := persistOrFlush D handle persistent)
    (persistOrFlush_affectsAt (ne_of_isTransient htr hp) hw) ?_
  rcases hm : persistOrFlush D handle persistent w with ⟨_ | _ | _ | _, w'⟩ <;> simp [Run.ignored, bind_def, andThen, hm]

/-- The HMAC it returns is that of the key it creates, which need not be the one at the handle. -/
theorem createHmac_ok {persistent : Nat} {data v : Bytes} {handle : Nat} {t u : Tpm}
    (h : tpmCreateHmacAndPersist D data persistent t = (.ok (handle, v), u)) :
    handle = persistent ∧ v = D.hmac ⟨.hmac, D.seed⟩ data := by
  simp only [tpmCreateHmacAndPersist, bind_ok_iff, orFail_ok_iff, pure_ok_iff, Prod.mk.injEq] at h
  obtain ⟨_, t₁, -, _, t₂, -, r, t₃, hr, handle', t₄, ⟨hh, rfl⟩, v', t₅, hv, _, t₆, -, ⟨rfl, rfl⟩, rfl⟩ := h
  obtain ⟨handle₀, htr, hk, hr'⟩ := createPrimary_ok hr
  obtain rfl : handle₀ = handle' := by rcases hr' with rfl | rfl <;> exact Option.some.inj hh
  exact ⟨rfl, (hmacOrFlush_ok htr hk hv).1⟩

/-- A signature leaves the TPM untouched. -/
theorem sign_affects (handle : Nat) (digest : Bytes) : Affects id Untouched (tpmSignEcdsa D handle digest) := by
  refine openTcg_affects.bind_only fun _ => (tpmSubmit_affects _).then_still fun r s => ?_
  rcases hr : r.signature? with _ | ⟨a, b⟩ <;> rfl

end

end FdoUefi
