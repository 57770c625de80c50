import FdoUefi.Lib.Advance
import FdoUefi.Lib.Total
import FdoUefi.Lemmas.CoseReaders

/-!
# The readers of an envelope come back

Every reader of `cose.rs` that sees data before a signature has been checked lands: it returns, and its cursor has not gone
back and is at most `reach` of its data. Eight bytes beyond the end is as far as a cursor gets, since a float at the end of
the data is stepped over without a check. The loops are given by one turn each.
-/

namespace FdoUefi

open Prog Prog.Run Cbor

/-- As far as a cursor over `d` gets. -/
def reach (d : Bytes) : Nat := d.length + 8

variable {d : Bytes} {p q : Nat}

/-! ## CBOR -/

/-- An argument is read within the data. -/
theorem cborReadUintArg_lands (ai : Nat) (hpq : p ≤ q) (hq : q ≤ reach d) :
    Lands (reach d) p (fun _ r => q ≤ r ∧ (q ≤ d.length → r ≤ d.length)) (cborReadUintArg d ai q) := by
  have hlim : d.length ≤ reach d := Nat.le_add_right _ _
  unfold cborReadUintArg
  refine Lands.ite (fun _ => Lands.pure hpq hq ⟨le_rfl, id⟩) fun _ => Lands.ite (fun _ => ?_) fun _ => Lands.ite (fun _ => ?_)
    fun _ => Lands.ite (fun _ => ?_) fun _ => Lands.fail hpq hq
  · refine Lands.bind (Lands.next hpq hq hlim) fun b r hpr hr hnext => ?_
    exact Lands.pure hpr hr (by omega)
  · refine Lands.bind (Lands.take hpq hq hlim) fun b r hpr hr htake => ?_
    exact Lands.pure hpr hr (by omega)
  · refine Lands.bind (Lands.take hpq hq hlim) fun b r hpr hr htake => ?_
    exact Lands.pure hpr hr (by omega)

/-- An unsigned integer goes forward. -/
theorem cborReadUintValue_lands (hpq : p ≤ q) (hq : q ≤ reach d) :
    Lands (reach d) p (fun _ r => q < r) (cborReadUintValue d q) := by
  unfold cborReadUintValue
  refine Lands.bind (Lands.next hpq hq (Nat.le_add_right _ _)) fun b r hpr hr hnext => ?_
  refine Lands.bind (Lands.ensure hpr hr) fun _ r' _ _ hens => ?_
  obtain ⟨-, rfl⟩ := hens
  exact (cborReadUintArg_lands _ hpr hr).mono le_rfl fun _ _ _ _ h => by omega

/-- An integer goes forward and ends within the data. -/
theorem cborReadIntValue_lands (hpq : p ≤ q) (hq : q ≤ reach d) :
    Lands (reach d) p (fun _ r => q < r ∧ r ≤ d.length) (cborReadIntValue d q) := by
  unfold cborReadIntValue
  refine Lands.bind (Lands.next hpq hq (Nat.le_add_right _ _)) fun b r hpr hr hnext => ?_
  refine Lands.bind (cborReadUintArg_lands _ hpr hr) fun v r' hpr' hr' harg => ?_
  refine Lands.ite (fun _ => Lands.pure hpr' hr' (by omega)) fun _ => ?_
  exact Lands.ite (fun _ => Lands.pure hpr' hr' (by omega)) fun _ => Lands.fail hpr' hr'

/-- A byte string goes forward and ends within the data. -/
theorem cborReadBstr_lands (hpq : p ≤ q) (hq : q ≤ reach d) :
    Lands (reach d) p (fun _ r => q < r) (cborReadBstr d q) := by
  unfold cborReadBstr
  refine Lands.bind (Lands.next hpq hq (Nat.le_add_right _ _)) fun b r hpr hr hnext => ?_
  refine Lands.bind (Lands.ensure hpr hr) fun _ r' _ _ hens => ?_
  obtain ⟨-, rfl⟩ := hens
  refine Lands.bind (cborReadUintArg_lands _ hpr hr) fun len r'' hpr'' hr'' harg => ?_
  exact (Lands.take hpr'' hr'' (Nat.le_add_right _ _)).mono le_rfl fun _ _ _ _ h => by omega

/-- `cbor_skip` comes back when the depth it is granted exceeds the bytes that are left. -/
theorem cborSkipTo_lands {fuel : Nat} (hq : q ≤ reach d) (hfuel : 0 < fuel) (hd : d.length < q + fuel) :
    Lands (reach d) q (fun _ r => q < r) (cborSkipTo d fuel q) := by
  induction fuel generalizing q with
  | zero => omega
  | succ fuel ih =>
    -- Past the head there is one byte less, and one level less is granted.
    have hrec : ∀ {s : Nat}, q < d.length → q < s → ∀ r, s ≤ r → r ≤ reach d →
        Lands (reach d) r (fun _ _ => True) (cborSkipTo d fuel r) := fun hlt hqs r hsr hr =>
      (ih hr (by omega) (by omega)).trivially
    rw [cborSkipTo]
    refine Lands.bind (Lands.next le_rfl hq (Nat.le_add_right _ _)) fun b r hqr hr hnext => ?_
    obtain ⟨hlt, rfl⟩ := hnext
    have harg := @cborReadUintArg_lands d q (q + 1) (additional b) hqr hr
    have hlt8 := major_lt b
    rcases (by omega : (major b = 0 ∨ major b = 1) ∨ (major b = 2 ∨ major b = 3) ∨ major b = 4 ∨ major b = 5 ∨ major b = 6 ∨
      major b = 7) with hm | hm | hm | hm | hm | hm
    · have hint : Lands (reach d) q (fun _ s => q < s)
          ((cborReadUintArg d (additional b) >>= fun _ => Pure.pure ()) (q + 1)) :=
        Lands.bind harg fun v s hqs hs hv => Lands.pure hqs hs (by omega)
      rcases hm with hm | hm <;> simpa only [hm] using hint
    · have hstr : Lands (reach d) q (fun _ s => q < s)
          ((cborReadUintArg d (additional b) >>= fun len => getS >>= fun pos =>
            ensure (pos + len ≤ d.length) () >>= fun _ => advance len) (q + 1)) := by
        refine Lands.bind harg fun len s hqs hs hv => ?_
        refine Lands.bind (Lands.getS hqs hs) fun pos s' _ _ hpos => ?_
        obtain ⟨rfl, rfl⟩ := hpos
        refine Lands.bind (Lands.ensure hqs hs) fun _ s' _ _ hens => ?_
        obtain ⟨hle, rfl⟩ := hens
        have hlim : d.length ≤ reach d := Nat.le_add_right _ _
        exact (Lands.advance hqs (by omega)).mono le_rfl fun _ _ _ _ h => by omega
      rcases hm with hm | hm <;> simpa only [hm] using hstr
    · simp only [hm]
      refine Lands.bind harg fun len s hqs hs hv => ?_
      refine (Lands.repeatN (p := s) le_rfl hs (hrec hlt (by omega))).mono hqs fun _ _ h _ _ => by omega
    · simp only [hm]
      refine Lands.bind harg fun len s hqs hs hv => ?_
      refine (Lands.repeatN (p := s) le_rfl hs fun r hsr hr => ?_).mono hqs fun _ _ h _ _ => by omega
      refine Lands.bind (hrec hlt (by omega) r hsr hr) fun _ r' hrr' hr' _ => ?_
      exact (hrec hlt (by omega) r' (hsr.trans hrr') hr').mono hrr' fun _ _ _ _ h => h
    · simp only [hm]
      refine Lands.bind harg fun _ s hqs hs hv => ?_
      exact (ih hs (by omega) (by omega)).mono hqs fun _ _ _ _ h => by omega
    · simp only [hm]
      have hext : extLen (additional b) ≤ 8 := by
        unfold extLen
        split <;> omega
      exact (Lands.advance hqr (by unfold reach; omega)).mono le_rfl fun _ _ _ _ h => by omega

/-- An item that is skipped goes forward. -/
theorem cborSkip_lands (hpq : p ≤ q) (hq : q ≤ reach d) : Lands (reach d) p (fun _ r => q < r) (cborSkip d q) :=
  (cborSkipTo_lands hq (by omega) (by omega)).mono hpq fun _ _ _ _ h => h

/-! ### From every place -/

/-- Reading an argument comes back from every place. -/
theorem cborReadUintArg_total (ai : Nat) : Total (cborReadUintArg d ai) := by
  unfold cborReadUintArg
  refine .ite (fun _ => .pure ai) fun _ => .ite (fun _ => ?_) fun _ => .ite (fun _ => ?_) fun _ => .ite (fun _ => ?_) fun _ => .fail ()
  · exact .bind (.next d) fun _ => .pure _
  · exact .bind (.take d 2) fun _ => .pure _
  · exact .bind (.take d 4) fun _ => .pure _

/-- Reading an integer comes back from every place. -/
theorem cborReadIntValue_total : Total (cborReadIntValue d) :=
  .bind (.next d) fun _ => .bind (cborReadUintArg_total _) fun _ => .ite (fun _ => .pure _) fun _ => .ite (fun _ => .pure _) fun _ => .fail ()

/-- Reading a byte string comes back from every place. -/
theorem cborReadBstr_total : Total (cborReadBstr d) :=
  .bind (.next d) fun _ => .bind .ensure fun _ => .bind (cborReadUintArg_total _) fun _ => .take d _

/-- Beyond the end there is nothing to step over. -/
theorem cborSkip_total : Total (cborSkip d) := by
  intro q
  by_cases hq : q ≤ reach d
  · exact (cborSkip_lands le_rfl hq).returns
  · unfold reach at hq
    have hnone : d[q]? = none := List.getElem?_eq_none (by omega)
    have hnext : next d q = (.err (), q) := by
      simp [next, hnone]
    unfold cborSkip
    rw [cborSkipTo, bind_of_err hnext]
    trivial

/-- Reading a text key comes back. -/
theorem readTextKey_total (kb : UInt8) : Total (readTextKey d kb) :=
  .bind (.advance 1) fun _ => .bind (cborReadUintArg_total _) fun _ => .takeText d _

/-- The head of an array, a map or a text, and what comes after it. -/
theorem head_lands {α : Type} {m : Nat} {f : Nat → Run Nat Unit α} {Q : α → Nat → Prop} (hpq : p ≤ q) (hq : q ≤ reach d)
    (hf : ∀ n r, q < r → r ≤ reach d → Lands (reach d) p Q (f n r)) :
    Lands (reach d) p Q ((next d >>= fun b => ensure (major b = m) () >>= fun _ =>
      cborReadUintArg d (additional b) >>= f) q) := by
  refine Lands.bind (Lands.next hpq hq (Nat.le_add_right _ _)) fun b r hpr hr hnext => ?_
  refine Lands.bind (Lands.ensure hpr hr) fun _ r' _ _ hens => ?_
  obtain ⟨-, rfl⟩ := hens
  exact Lands.bind (cborReadUintArg_lands _ hpr hr) fun n s _ hs harg => hf n s (by omega) hs

/-! ## Headers of an envelope -/

/-- One turn of the loop of `parse_protected_alg`. -/
def protectedAlgTurn (d : Bytes) (_ : Unit) : Run Nat Unit (Unit ⊕ Int) := do
  let key ← attempt (cborReadIntValue d)
  if key = some 1 then
    let v ← otherwise 0 (cborReadIntValue d)
    return .inr (asI32 v)
  else
    match ← attempt (cborSkip d) with
    | none => return .inr 0
    | some () => return .inl ()

/-- The search for the algorithm is the iteration of a turn. -/
theorem protectedAlgTurn_loopOf : LoopOf (protectedAlgTurn d) fun n _ => parseProtectedAlgLoop d n := by
  intro n _
  simp only [protectedAlgTurn, parseProtectedAlgLoop, bind_assoc]
  refine bind_congr fun key => ?_
  by_cases hkey : key = some 1
  · simp only [hkey, if_true, bind_assoc, pure_bind]
  · simp only [hkey, if_false, bind_assoc]
    refine bind_congr fun o => ?_
    cases o <;> rfl

/-- A turn that goes on goes forward. -/
theorem protectedAlgTurn_lands (u : Unit) (hp : p ≤ reach d) :
    Lands (reach d) p (fun t r => ∀ a, t = .inl a → p < r) (protectedAlgTurn d u p) := by
  refine Lands.bind (Lands.attempt (cborReadIntValue_lands le_rfl hp)) fun key r hpr hr _ => ?_
  refine Lands.ite (fun _ => ?_) fun _ => ?_
  · refine Lands.bind (Lands.otherwise (cborReadIntValue_lands hpr hr).trivially) fun v s hps hs _ => ?_
    exact Lands.pure hps hs (by simp)
  · refine Lands.bind (Lands.attempt (cborSkip_lands hpr hr)) fun o s hps hs hskip => ?_
    cases o with
    | none => exact Lands.pure hps hs (by simp)
    | some u =>
      have hlt := hskip u rfl
      exact Lands.pure hps hs fun _ _ => by omega

/-- The search comes to an end within the data. -/
theorem parseProtectedAlgLoop_progresses :
    Progresses (reach d) (protectedAlgTurn d) fun n _ => parseProtectedAlgLoop d n :=
  ⟨protectedAlgTurn_loopOf, fun u _ hp => protectedAlgTurn_lands u hp⟩

/-- Reading the algorithm comes back. -/
theorem parseProtectedAlg_returns (header : Bytes) : (parseProtectedAlg header).Returns := by
  refine Lands.eval_returns (reach header) (Lands.otherwise ?_)
  refine head_lands le_rfl (Nat.zero_le _) fun n s _ hs => ?_
  exact (parseProtectedAlgLoop_progresses.lands (a := ()) (fun _ q hq => Lands.pure le_rfl hq trivial) hs).mono
    (Nat.zero_le _) fun _ _ _ _ h => h

/-- One turn of the loop of `has_delegate_header`. -/
def delegateHeaderTurn (d : Bytes) (_ : Unit) : Run Nat Unit (Unit ⊕ Bool) := do
  let key ← attempt (cborReadIntValue d)
  match ← attempt (cborSkip d) with
  | none => return .inr false
  | some () =>
    match key with
    | some k => if k = coseLabelDelegateKey ∨ k = coseLabelX5chain then return .inr true else return .inl ()
    | none => return .inr false

/-- The search for a delegate key or a chain is the iteration of a turn. -/
theorem delegateHeaderTurn_loopOf : LoopOf (delegateHeaderTurn d) fun n _ => hasDelegateHeaderLoop d n := by
  intro n _
  simp only [delegateHeaderTurn, hasDelegateHeaderLoop, bind_assoc]
  refine bind_congr fun key => bind_congr fun o => ?_
  cases o with
  | none => rfl
  | some u =>
    cases key with
    | none => rfl
    | some k => by_cases hk : k = coseLabelDelegateKey ∨ k = coseLabelX5chain <;> simp only [hk, if_true, if_false, pure_bind]

/-- A turn that goes on goes forward. -/
theorem delegateHeaderTurn_lands (u : Unit) (hp : p ≤ reach d) :
    Lands (reach d) p (fun t r => ∀ a, t = .inl a → p < r) (delegateHeaderTurn d u p) := by
  refine Lands.bind (Lands.attempt (cborReadIntValue_lands le_rfl hp)) fun key r hpr hr _ => ?_
  refine Lands.bind (Lands.attempt (cborSkip_lands hpr hr)) fun o s hps hs hskip => ?_
  cases o with
  | none => exact Lands.pure hps hs (by simp)
  | some u =>
    have hlt := hskip u rfl
    cases key with
    | none => exact Lands.pure hps hs (by simp)
    | some k => exact Lands.ite (fun _ => Lands.pure hps hs (by simp)) fun _ => Lands.pure hps hs fun _ _ => by omega

/-- The search comes to an end within the data. -/
theorem hasDelegateHeaderLoop_progresses :
    Progresses (reach d) (delegateHeaderTurn d) fun n _ => hasDelegateHeaderLoop d n :=
  ⟨delegateHeaderTurn_loopOf, fun u _ hp => delegateHeaderTurn_lands u hp⟩

/-- Looking for a delegate key or a chain comes back. -/
theorem hasDelegateHeader_returns (unprotected : Bytes) : (hasDelegateHeader unprotected).Returns := by
  refine Lands.eval_returns (reach unprotected) (Lands.otherwise ?_)
  refine head_lands le_rfl (Nat.zero_le _) fun n s _ hs => ?_
  exact (hasDelegateHeaderLoop_progresses.lands (a := ()) (fun _ q hq => Lands.pure le_rfl hq trivial) hs).mono
    (Nat.zero_le _) fun _ _ _ _ h => h

/-- The head of a map, and what comes after it. -/
theorem mapHead_total {α : Type} {f : Nat → Run Nat Unit α} (hf : ∀ n, Total (f n)) :
    Total (next d >>= fun b => ensure (major b = 5) () >>= fun _ => cborReadUintArg d (additional b) >>= f) :=
  .bind (.next d) fun _ => .bind .ensure fun _ => .bind (cborReadUintArg_total _) hf

/-- The search for a text comes back. -/
theorem parseProtectedTstrLoop_total (target : Int) (n : Nat) : Total (parseProtectedTstrLoop d target n) := by
  induction n with
  | zero => exact .fail ()
  | succ n ih =>
    refine .bind cborReadIntValue_total fun key => .ite (fun _ => ?_) fun _ => .bind cborSkip_total fun _ => ih
    exact .bind (.next d) fun _ => .bind .ensure fun _ => .bind (cborReadUintArg_total _) fun _ => .takeText d _

/-- The search for a text in a whole header comes back. -/
theorem parseProtectedTstr_returns (header : Bytes) (target : Int) : (parseProtectedTstr header target).Returns :=
  mapHead_total (parseProtectedTstrLoop_total target) 0

/-- The value of a text key is sliced out without a check, so that the search may panic; it does not hang. -/
theorem extractTstrKeyedLoop_ne_hang (target : Bytes) (n : Nat) (p : Nat) : (extractTstrKeyedLoop d target n p).1 ≠ .hang := by
  induction n generalizing p with
  | zero => nofun
  | succ n ih =>
    refine bind_ne_hang (Total.peek d p).ne_hang fun o p₁ => ?_
    cases o with
    | none => nofun
    | some keyByte =>
      have hskip := fun q => (cborSkip_total (d := d) q).ne_hang
      dsimp only
      split
      · refine bind_ne_hang (readTextKey_total keyByte p₁).ne_hang fun key p₂ => ?_
        split
        · refine bind_ne_hang (by nofun) fun start p₃ => bind_ne_hang (hskip p₃) fun _ p₄ => bind_ne_hang (by nofun) fun stop p₅ => ?_
          unfold slice
          split <;> nofun
        · exact bind_ne_hang (hskip p₂) fun _ p₃ => ih p₃
      · exact bind_ne_hang (hskip p₁) fun _ p₂ => bind_ne_hang (hskip p₂) fun _ p₃ => ih p₃

/-- The search for a text key ends, though it may panic in the slice. -/
theorem extractTstrKeyedValue_ne_hang (header target : Bytes) : extractTstrKeyedValue header target ≠ .hang := by
  refine bind_ne_hang (Total.next header 0).ne_hang fun b p => bind_ne_hang (Total.ensure p).ne_hang fun _ p₁ => ?_
  exact bind_ne_hang (cborReadUintArg_total _ p₁).ne_hang fun n p₂ => extractTstrKeyedLoop_ne_hang target n p₂

/-! ## Scope -/

/-- The GUIDs of a scope are read without a panic. -/
theorem scopeGuidLoop_total (deviceGuid : Option Bytes) (n : Nat) : Total (scopeGuidLoop d deviceGuid n) := by
  induction n with
  | zero => exact .pure false
  | succ n ih =>
    refine .bind (.next d) fun _ => .bind .ensure fun _ => .bind (cborReadUintArg_total _) fun _ => .bind (.take d _) fun guid => ?_
    exact .ite (fun _ => .pure true) fun _ => ih

/-- The constraint on the GUID is evaluated without a panic. -/
theorem evaluateScopeGuid_total (deviceGuid : Option Bytes) : Total (evaluateScopeGuid d deviceGuid) := by
  refine .bind (.peek d) fun o => ?_
  cases o with
  | none => exact .fail ()
  | some b =>
    refine .ite (fun _ => ?_) fun _ => .ite (fun _ => ?_) fun _ => .pure false
    · exact .bind (.advance 1) fun _ => .bind (cborReadUintArg_total _) fun _ => .bind (.take d _) fun _ => .pure _
    · exact .bind (.advance 1) fun _ => .bind (cborReadUintArg_total _) fun n => scopeGuidLoop_total deviceGuid n

/-- The constraints of a scope are evaluated without a panic. -/
theorem scopeLoop_total (deviceGuid : Option Bytes) (n : Nat) : Total (scopeLoop d deviceGuid n) := by
  induction n with
  | zero => exact .pure true
  | succ n ih =>
    refine .bind (.peek d) fun o => ?_
    cases o with
    | none => exact .fail ()
    | some kb =>
      refine .ite (fun _ => ?_) fun _ => .bind cborSkip_total fun _ => .bind cborSkip_total fun _ => ih
      refine .bind (readTextKey_total kb) fun key => .ite (fun _ => ?_) fun _ => .pure false
      exact .bind (evaluateScopeGuid_total deviceGuid) fun guidOk => .ite (fun _ => ih) fun _ => .pure false

/-- Evaluating a scope comes back. -/
theorem evaluateScopeMap_returns (scopeBytes : Bytes) (deviceGuid : Option Bytes) : (evaluateScopeMap scopeBytes deviceGuid).Returns := by
  cases scopeBytes with
  | nil => trivial
  | cons b bs => exact Total.otherwise (mapHead_total (scopeLoop_total deviceGuid)) false 0

/-! ## The envelope -/

/-- The tag in front of an envelope is skipped without a panic. -/
theorem skipSign1Tag_lands (hq : q ≤ reach d) : Lands (reach d) q (fun _ _ => True) (skipSign1Tag d q) := by
  unfold skipSign1Tag
  refine Lands.bind (Lands.peek le_rfl hq) fun o r hqr hr ho => ?_
  obtain ⟨rfl, rfl⟩ := ho
  cases hb : d[r]? with
  | none => exact Lands.fail hqr hr
  | some b =>
    have hlt : r < d.length := (List.getElem?_eq_some_iff.1 hb).1
    refine Lands.ite (fun _ => ?_) fun _ => Lands.pure hqr hr trivial
    refine Lands.bind (Lands.advance hqr (by unfold reach; omega)) fun _ s hqs hs _ => ?_
    refine Lands.bind (cborReadUintArg_lands _ hqs hs) fun v s' hqs' hs' _ => ?_
    exact (Lands.ensure hqs' hs').trivially

/-- The payload is read without a panic. -/
theorem readSign1Payload_lands (hpq : p ≤ q) (hq : q ≤ reach d) :
    Lands (reach d) p (fun _ _ => True) (readSign1Payload d q) := by
  unfold readSign1Payload
  refine Lands.bind (Lands.peek hpq hq) fun o r hpr hr ho => ?_
  obtain ⟨rfl, rfl⟩ := ho
  cases hb : d[r]? with
  | none => exact Lands.fail hpr hr
  | some b =>
    have hlt : r < d.length := (List.getElem?_eq_some_iff.1 hb).1
    refine Lands.ite (fun _ => ?_) fun _ => (cborReadBstr_lands hpr hr).trivially
    exact Lands.bind (Lands.advance hpr (by unfold reach; omega)) fun _ s hps hs _ => Lands.pure hps hs trivial

/-- Reading an envelope comes back. -/
theorem parseCoseSign1_returns (data : Bytes) : (parseCoseSign1 data).Returns := by
  refine Lands.eval_returns (reach data) ?_
  unfold parseCoseSign1Run
  refine Lands.bind (skipSign1Tag_lands (Nat.zero_le _)) fun _ t₀ h₀ ht₀ _ => ?_
  refine head_lands h₀ ht₀ fun n t₁ _ ht₁ => ?_
  refine Lands.bind (Lands.ensure (Nat.zero_le _) ht₁) fun _ t₂ h₂ ht₂ _ => ?_
  refine Lands.bind (cborReadBstr_lands h₂ ht₂) fun prot t₃ h₃ ht₃ _ => ?_
  refine Lands.bind (Lands.ofOutcome (parseProtectedAlg_returns prot) h₃ ht₃) fun alg t₄ h₄ ht₄ _ => ?_
  refine Lands.bind (Lands.getS h₄ ht₄) fun start t₅ h₅ ht₅ _ => ?_
  refine Lands.bind (cborSkip_lands h₅ ht₅) fun _ t₆ h₆ ht₆ _ => ?_
  refine Lands.bind (Lands.getS h₆ ht₆) fun stop t₇ h₇ ht₇ _ => ?_
  refine Lands.bind (Lands.orFail h₇ ht₇) fun unprot t₈ h₈ ht₈ _ => ?_
  refine Lands.bind (readSign1Payload_lands h₈ ht₈) fun payload t₉ h₉ ht₉ _ => ?_
  exact Lands.bind (cborReadBstr_lands h₉ ht₉) fun sig u hu hu' _ => Lands.pure hu hu' trivial

end FdoUefi
