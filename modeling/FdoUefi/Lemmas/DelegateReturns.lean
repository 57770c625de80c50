import FdoUefi.Lemmas.EnvelopeReturns
import FdoUefi.Delegate

/-!
# The readers of a certificate chain come back

The DER readers of `delegate.rs` land within `reach` of their data, the loops of `check_eku_oids` and of `parse_x509_cert`
move forward with every turn or leave, and a chain of certificates is worked through whatever the certificates are.
-/

namespace FdoUefi

open Prog Prog.Run Cbor

variable {d : Bytes} {p q : Nat}

/-! ## DER -/

/-- The bytes of a length are read within the data. -/
theorem derLengthBytes_lands {n acc : Nat} (hpq : p ≤ q) (hq : q ≤ d.length) :
    Lands (reach d) p (fun _ r => q ≤ r ∧ r ≤ d.length) (derLengthBytes d n acc q) := by
  have hlim : d.length ≤ reach d := Nat.le_add_right _ _
  induction n generalizing q acc with
  | zero => exact Lands.pure hpq (by omega) ⟨le_rfl, hq⟩
  | succ n ih =>
    rw [derLengthBytes]
    refine Lands.bind (Lands.next hpq (by omega) hlim) fun b r hpr hr hnext => ?_
    exact (ih hpr (by omega)).mono le_rfl fun _ _ _ _ h => by omega

/-- A length is read within the data and goes forward. -/
theorem readDerLength_lands (hpq : p ≤ q) (hq : q ≤ reach d) :
    Lands (reach d) p (fun _ r => q < r ∧ r ≤ d.length) (readDerLength d q) := by
  unfold readDerLength
  refine Lands.bind (Lands.next hpq hq (Nat.le_add_right _ _)) fun b r hpr hr hnext => ?_
  refine Lands.ite (fun _ => Lands.pure hpr hr (by omega)) fun _ => ?_
  refine Lands.bind (Lands.ensure hpr hr) fun _ r' _ _ hens => ?_
  obtain ⟨-, rfl⟩ := hens
  exact (derLengthBytes_lands hpr (by omega)).mono le_rfl fun _ _ _ _ h => by omega

/-- A tag that is there is one byte. -/
theorem expectTag_lands (tag : UInt8) (hpq : p ≤ q) (hq : q ≤ reach d) :
    Lands (reach d) p (fun _ r => q < d.length ∧ r = q + 1) (expectTag d tag q) := by
  unfold expectTag
  refine Lands.bind (Lands.peek hpq hq) fun o r hpr hr ho => ?_
  obtain ⟨rfl, rfl⟩ := ho
  cases hb : d[r]? with
  | none => exact Lands.fail hpr hr
  | some b =>
    have hlt : r < d.length := (List.getElem?_eq_some_iff.1 hb).1
    refine Lands.ite (fun _ => ?_) fun _ => Lands.fail hpr hr
    exact (Lands.advance hpr (by unfold reach; omega)).mono le_rfl fun _ _ _ _ h => ⟨hlt, h⟩

/-- The content of a SEQUENCE starts behind the header and ends within the data. -/
theorem readSequenceHeader_lands (hpq : p ≤ q) (hq : q ≤ reach d) :
    Lands (reach d) p (fun se r => q < d.length ∧ q < r ∧ r ≤ se.2 ∧ se.2 ≤ d.length) (readSequenceHeader d q) := by
  unfold readSequenceHeader
  refine Lands.bind (expectTag_lands _ hpq hq) fun _ r hpr hr htag => ?_
  refine Lands.bind (readDerLength_lands hpr hr) fun len r' hpr' hr' hlen => ?_
  refine Lands.bind (Lands.getS hpr' hr') fun start r'' _ _ hstart => ?_
  obtain ⟨rfl, rfl⟩ := hstart
  refine Lands.bind (Lands.ensure hpr' hr') fun _ r'' _ _ hens => ?_
  obtain ⟨hle, rfl⟩ := hens
  exact Lands.pure hpr' hr' ⟨htag.1, by omega, Nat.le_add_right _ _, hle⟩

/-- An element that is skipped ends within the data. -/
theorem skipDerElement_lands (hpq : p ≤ q) (hq : q ≤ reach d) :
    Lands (reach d) p (fun _ r => q < r ∧ r ≤ d.length) (skipDerElement d q) := by
  have hlim : d.length ≤ reach d := Nat.le_add_right _ _
  unfold skipDerElement
  refine Lands.bind (Lands.next hpq hq hlim) fun _ r hpr hr htag => ?_
  refine Lands.bind (readDerLength_lands hpr hr) fun len r' hpr' hr' hlen => ?_
  refine Lands.bind (Lands.getS hpr' hr') fun start r'' _ _ hstart => ?_
  obtain ⟨rfl, rfl⟩ := hstart
  refine Lands.bind (Lands.ensure hpr' hr') fun _ r'' _ _ hens => ?_
  obtain ⟨hle, rfl⟩ := hens
  exact (Lands.advance hpr' (by omega)).mono le_rfl fun _ _ _ _ h => by omega

/-- An element that is read ends within the data. -/
theorem readTlv_lands (tag : UInt8) (hpq : p ≤ q) (hq : q ≤ reach d) :
    Lands (reach d) p (fun _ r => q < r ∧ r ≤ d.length) (readTlv d tag q) := by
  unfold readTlv
  refine Lands.bind (expectTag_lands _ hpq hq) fun _ r hpr hr htag => ?_
  refine Lands.bind (readDerLength_lands hpr hr) fun len r' hpr' hr' hlen => ?_
  exact (Lands.take hpr' hr' (Nat.le_add_right _ _)).mono le_rfl fun _ _ _ _ h => by omega

/-- A bit string that is read ends within the data. -/
theorem readBitString_lands (hpq : p ≤ q) (hq : q ≤ reach d) :
    Lands (reach d) p (fun _ r => q < r ∧ r ≤ d.length) (readBitString d q) := by
  unfold readBitString
  refine Lands.bind (expectTag_lands _ hpq hq) fun _ r hpr hr htag => ?_
  refine Lands.bind (readDerLength_lands hpr hr) fun len r' hpr' hr' hlen => ?_
  refine Lands.bind (Lands.ensure hpr' hr') fun _ r'' _ _ hens => ?_
  obtain ⟨-, rfl⟩ := hens
  refine Lands.bind (Lands.next hpr' hr' (Nat.le_add_right _ _)) fun _ s hps hs hnext => ?_
  exact (Lands.take hps hs (Nat.le_add_right _ _)).mono le_rfl fun _ _ _ _ h => by omega

/-- The identifier of an algorithm ends within the data. -/
theorem readAlgIdentifierOid_lands (hpq : p ≤ q) (hq : q ≤ reach d) :
    Lands (reach d) p (fun _ r => q < r ∧ r ≤ d.length) (readAlgIdentifierOid d q) := by
  have hlim : d.length ≤ reach d := Nat.le_add_right _ _
  unfold readAlgIdentifierOid
  refine Lands.bind (readSequenceHeader_lands hpq hq) fun se r hpr hr hseq => ?_
  refine Lands.bind (readTlv_lands _ hpr hr) fun oid r' hpr' hr' _ => ?_
  refine Lands.bind (Lands.setS (by omega) (by omega)) fun _ s hps hs hset => ?_
  exact Lands.pure hps hs (by omega)

/-- Reading a public key comes back. -/
theorem parseSpkiP256Point_returns (spki : Bytes) : (parseSpkiP256Point spki).Returns := by
  have hlim : spki.length ≤ reach spki := Nat.le_add_right _ _
  refine Lands.eval_returns (reach spki) ?_
  unfold parseSpkiP256PointRun
  refine Lands.bind (readSequenceHeader_lands le_rfl (Nat.zero_le _)) fun outer t₀ h₀ ht₀ _ => ?_
  refine Lands.bind (readSequenceHeader_lands h₀ ht₀) fun alg t₁ h₁ ht₁ halg => ?_
  refine Lands.bind (readTlv_lands _ h₁ ht₁) fun algOid t₂ h₂ ht₂ _ => ?_
  refine Lands.bind (Lands.ensure h₂ ht₂) fun _ t₃ h₃ ht₃ _ => ?_
  refine Lands.bind (readTlv_lands _ h₃ ht₃) fun curveOid t₄ h₄ ht₄ _ => ?_
  refine Lands.bind (Lands.ensure h₄ ht₄) fun _ t₅ h₅ ht₅ _ => ?_
  refine Lands.bind (Lands.getS h₅ ht₅) fun pos t₆ h₆ ht₆ _ => ?_
  refine Lands.bind (Lands.ensure h₆ ht₆) fun _ t₇ h₇ ht₇ _ => ?_
  refine Lands.bind (Lands.setS (Nat.zero_le _) (halg.2.2.2.trans hlim)) fun _ t₈ h₈ ht₈ _ => ?_
  refine Lands.bind (readBitString_lands h₈ ht₈) fun bits t₉ h₉ ht₉ _ => ?_
  refine Lands.bind (Lands.getS h₉ ht₉) fun pos' u hu hu' _ => ?_
  refine Lands.bind (Lands.ensure hu hu') fun _ v hv hv' _ => ?_
  exact Lands.bind (Lands.ensure hv hv') fun _ w hw hw' _ => Lands.pure hw hw' trivial

/-- Reading a signature comes back. -/
theorem ecdsaDerToRs_returns (derSig : Bytes) : (ecdsaDerToRs derSig).Returns := by
  refine Lands.eval_returns (reach derSig) ?_
  refine Lands.bind (expectTag_lands _ le_rfl (Nat.zero_le _)) fun _ t₀ h₀ ht₀ _ => ?_
  refine Lands.bind (readDerLength_lands h₀ ht₀) fun _ t₁ h₁ ht₁ _ => ?_
  refine Lands.bind (readTlv_lands _ h₁ ht₁) fun r t₂ h₂ ht₂ _ => ?_
  exact Lands.bind (readTlv_lands _ h₂ ht₂) fun s t₃ h₃ ht₃ _ => Lands.pure h₃ ht₃ trivial

/-! ## Extensions -/

/-- The flag of a CA is read without a panic. -/
theorem readCaFlag_lands {seqEnd : Nat} (hpq : p ≤ q) (hq : q ≤ reach d) :
    Lands (reach d) p (fun _ _ => True) (readCaFlag d seqEnd q) := by
  unfold readCaFlag
  refine Lands.bind (Lands.getS hpq hq) fun pos r hpr hr hpos => ?_
  refine Lands.bind (Lands.peek hpr hr) fun b r' hpr' hr' hpeek => ?_
  refine Lands.ite (fun hc => ?_) fun _ => Lands.pure hpr' hr' trivial
  have hlt : r < d.length := (List.getElem?_eq_some_iff.1 (hpeek.1.symm.trans hc.2)).1
  refine Lands.bind (Lands.advance hpr' (by unfold reach; omega)) fun _ s hps hs _ => ?_
  refine Lands.bind (readDerLength_lands hps hs) fun len s' hps' hs' hlen => ?_
  refine Lands.bind (Lands.ensure hps' hs') fun _ s'' _ _ hens => ?_
  obtain ⟨-, rfl⟩ := hens
  refine Lands.bind (Lands.peek hps' hs') fun v s' hpv hv hv' => ?_
  refine Lands.bind (Lands.advance hpv (by unfold reach; omega)) fun _ u hpu hu _ => ?_
  exact Lands.pure hpu hu trivial

/-- The path length of a CA is read without a panic. -/
theorem readPathLen_lands {seqEnd : Nat} (hpq : p ≤ q) (hq : q ≤ reach d) :
    Lands (reach d) p (fun _ _ => True) (readPathLen d seqEnd q) := by
  unfold readPathLen
  refine Lands.bind (Lands.getS hpq hq) fun pos r hpr hr _ => ?_
  refine Lands.bind (Lands.peek hpr hr) fun b r' hpr' hr' _ => ?_
  refine Lands.ite (fun _ => ?_) fun _ => Lands.pure hpr' hr' trivial
  refine Lands.bind (Lands.attempt (readTlv_lands _ hpr' hr')) fun o s hps hs _ => ?_
  cases o with
  | none => exact Lands.pure hps hs trivial
  | some i =>
    cases i with
    | nil => exact Lands.pure hps hs trivial
    | cons h t => exact Lands.ite (fun _ => Lands.pure hps hs trivial) fun _ => Lands.pure hps hs trivial

/-- Reading the BasicConstraints comes back. -/
theorem parseBasicConstraints_returns (d : Bytes) : (parseBasicConstraints d).Returns := by
  refine Lands.eval_returns (reach d) (Lands.otherwise ?_)
  refine Lands.bind (readSequenceHeader_lands le_rfl (Nat.zero_le _)) fun se t₀ h₀ ht₀ _ => ?_
  refine Lands.bind (readCaFlag_lands h₀ ht₀) fun isCa t₁ h₁ ht₁ _ => ?_
  exact Lands.bind (readPathLen_lands h₁ ht₁) fun pathLen t₂ h₂ ht₂ _ => Lands.pure h₂ ht₂ trivial

/-- One turn of the loop of `check_eku_oids`. -/
def ekuTurn (d : Bytes) (seqEnd : Nat) (flags : EkuFlags) : Run Nat Unit (EkuFlags ⊕ EkuFlags) := do
  let pos ← getS
  if pos < seqEnd then
    match ← attempt (readOid d) with
    | some oid => return .inl (flags.add oid)
    | none =>
      match ← attempt (skipDerElement d) with
      | some () => return .inl flags
      | none => return .inr flags
  else return .inr flags

/-- The loop over the key purposes is the iteration of a turn. -/
theorem ekuTurn_loopOf {seqEnd : Nat} : LoopOf (ekuTurn d seqEnd) (ekuLoop d seqEnd) := by
  intro n flags
  simp only [ekuTurn, ekuLoop, bind_assoc]
  refine bind_congr fun pos => ?_
  by_cases hpos : pos < seqEnd
  · simp only [hpos, if_true, bind_assoc]
    refine bind_congr fun o => ?_
    cases o with
    | some oid => rfl
    | none =>
      simp only [bind_assoc]
      refine bind_congr fun o' => ?_
      cases o' <;> rfl
  · simp only [hpos, if_false, pure_bind]

/-- What is not an OID is skipped, from wherever the failed read has left the cursor. -/
theorem ekuTurn_lands {seqEnd : Nat} (flags : EkuFlags) (hp : p ≤ reach d) :
    Lands (reach d) p (fun t r => ∀ a, t = .inl a → p < r ∧ r ≤ d.length) (ekuTurn d seqEnd flags p) := by
  refine Lands.bind (Lands.getS le_rfl hp) fun pos r _ _ hpos => ?_
  obtain ⟨rfl, rfl⟩ := hpos
  refine Lands.ite (fun _ => ?_) fun _ => Lands.pure le_rfl hp (by simp)
  refine Lands.bind (Lands.attempt (readTlv_lands _ le_rfl hp)) fun o s hps hs hoid => ?_
  cases o with
  | some oid =>
    have hmoved := hoid oid rfl
    exact Lands.pure hps hs fun _ _ => hmoved
  | none =>
    refine Lands.bind (Lands.attempt (skipDerElement_lands hps hs)) fun o' s' hps' hs' hskip => ?_
    cases o' with
    | some u =>
      have hmoved := hskip u rfl
      exact Lands.pure hps' hs' fun _ _ => by omega
    | none => exact Lands.pure hps' hs' (by simp)

/-- The loop over the key purposes comes to an end within the data. -/
theorem ekuLoop_progresses {seqEnd : Nat} : Progresses (reach d) (ekuTurn d seqEnd) (ekuLoop d seqEnd) :=
  ⟨ekuTurn_loopOf, fun flags _ hp => (ekuTurn_lands flags hp).mono le_rfl fun _ _ _ _ h a ha => (h a ha).1⟩

/-- Reading the key purposes comes back. -/
theorem checkEkuOids_returns (d : Bytes) : (checkEkuOids d).Returns := by
  refine Lands.eval_returns (reach d) ?_
  refine Lands.bind (Lands.attempt (readSequenceHeader_lands le_rfl (Nat.zero_le _))) fun o t h0t ht hseq => ?_
  cases o with
  | none => exact Lands.pure h0t ht trivial
  | some se =>
    have hwithin : ∀ flags q, q ≤ reach d → Lands (reach d) q (fun t r => ∀ a, t = .inl a → r ≤ d.length)
        (ekuTurn d se.2 flags q) := fun flags q hq =>
      (ekuTurn_lands flags hq).mono le_rfl fun _ _ _ _ h a ha => (h a ha).2
    exact (ekuLoop_progresses.lands_of_lt hwithin ht (by omega) (by omega)).mono h0t fun _ _ _ _ h => h

/-- An extension is read without a panic. -/
theorem readExtension_lands {oid : Bytes} {x : Extensions} (hpq : p ≤ q) (hq : q ≤ reach d) :
    Lands (reach d) p (fun _ _ => True) (readExtension d oid x q) := by
  refine Lands.ite (fun _ => ?_) fun _ => Lands.pure hpq hq trivial
  refine Lands.bind (Lands.peek hpq hq) fun b r hpr hr _ => ?_
  refine Lands.bind (Lands.onlyIf hpr hr fun _ => (skipDerElement_lands hpr hr).trivially) fun _ s hps hs _ => ?_
  refine Lands.bind (readTlv_lands _ hps hs) fun wrapper s' hps' hs' _ => ?_
  refine Lands.ite (fun _ => ?_) fun _ => ?_
  · exact Lands.bind (Lands.ofOutcome (checkEkuOids_returns wrapper) hps' hs') fun eku u hpu hu _ =>
      Lands.pure hpu hu trivial
  · exact Lands.bind (Lands.ofOutcome (parseBasicConstraints_returns wrapper) hps' hs') fun bc u hpu hu _ =>
      Lands.pure hpu hu trivial

/-- One turn of the loop over the extensions. -/
def extensionTurn (der : Bytes) (wrapperEnd : Nat) (x : Extensions) : Run Nat Unit (Extensions ⊕ Extensions) := do
  let pos ← getS
  if pos < wrapperEnd then
    match ← attempt (readSequenceHeader der) with
    | none => return .inr x
    | some (_, extEnd) =>
      let y ← (do
        match ← attempt (readOid der) with
        | some oid => readExtension der oid x
        | none => return x)
      setS extEnd
      return .inl y
  else return .inr x

/-- The loop over the extensions is the iteration of a turn. -/
theorem extensionTurn_loopOf {wrapperEnd : Nat} : LoopOf (extensionTurn d wrapperEnd) (extensionLoop d wrapperEnd) := by
  intro n x
  simp only [extensionTurn, extensionLoop, bind_assoc]
  refine bind_congr fun pos => ?_
  by_cases hpos : pos < wrapperEnd
  · simp only [hpos, if_true, bind_assoc]
    refine bind_congr fun o => ?_
    cases o with
    | none => rfl
    | some se =>
      rw [bind_assoc]
      refine bind_congr fun y => ?_
      rw [bind_assoc]
      rfl
  · simp only [hpos, if_false, pure_bind]

/-- A turn ends where its extension ends, which is behind the header of the extension. -/
theorem extensionTurn_lands {wrapperEnd : Nat} (x : Extensions) (hp : p ≤ reach d) :
    Lands (reach d) p (fun t r => ∀ a, t = .inl a → p < r ∧ r ≤ d.length) (extensionTurn d wrapperEnd x p) := by
  have hlim : d.length ≤ reach d := Nat.le_add_right _ _
  refine Lands.bind (Lands.getS le_rfl hp) fun pos r _ _ hpos => ?_
  obtain ⟨rfl, rfl⟩ := hpos
  refine Lands.ite (fun _ => ?_) fun _ => Lands.pure le_rfl hp (by simp)
  refine Lands.bind (Lands.attempt (readSequenceHeader_lands le_rfl hp)) fun o s hps hs hseq => ?_
  cases o with
  | none => exact Lands.pure hps hs (by simp)
  | some se =>
    obtain ⟨-, hlt, hle, hend⟩ := hseq se rfl
    refine Lands.bind (Q := fun _ _ => True) ?_ fun y s' hps' hs' _ => ?_
    · refine Lands.bind (Lands.attempt (readTlv_lands _ hps hs)) fun o' s' hps' hs' _ => ?_
      cases o' with
      | some oid => exact readExtension_lands hps' hs'
      | none => exact Lands.pure hps' hs' trivial
    · refine Lands.bind (Lands.setS (by omega) (by omega)) fun _ s'' hps'' hs'' hset => ?_
      exact Lands.pure hps'' hs'' fun _ _ => by omega

/-- The loop over the extensions comes to an end within the data. -/
theorem extensionLoop_progresses {wrapperEnd : Nat} :
    Progresses (reach d) (extensionTurn d wrapperEnd) (extensionLoop d wrapperEnd) :=
  ⟨extensionTurn_loopOf, fun x _ hp => (extensionTurn_lands x hp).mono le_rfl fun _ _ _ _ h a ha => (h a ha).1⟩

/-- The loop over the extensions is run without a panic. -/
theorem extensionLoop_lands {wrapperEnd : Nat} (x : Extensions) (hpq : p ≤ q) (hq : q ≤ reach d) :
    Lands (reach d) p (fun _ _ => True) (extensionLoop d wrapperEnd (d.length + 1) x q) := by
  have hwithin : ∀ x q, q ≤ reach d → Lands (reach d) q (fun t r => ∀ a, t = .inl a → r ≤ d.length)
      (extensionTurn d wrapperEnd x q) := fun x q hq =>
    (extensionTurn_lands x hq).mono le_rfl fun _ _ _ _ h a ha => (h a ha).2
  exact (extensionLoop_progresses.lands_of_lt hwithin hq (by omega) (by omega)).mono hpq fun _ _ _ _ h => h

/-- One turn of the loop over what follows the public key. -/
def tbsTailTurn (der : Bytes) (tbsEnd : Nat) (_ : Unit) : Run Nat Unit (Unit ⊕ Extensions) := do
  let pos ← getS
  if pos < tbsEnd then
    match ← peek der with
    | none => fail ()
    | some tag =>
      if tag = 0xA3 then
        advance 1
        let len ← readDerLength der
        let start ← getS
        let _ ← readSequenceHeader der
        let x ← extensionLoop der (start + len) (der.length + 1) {}
        return .inr x
      else if tag = 0xA1 ∨ tag = 0xA2 then
        skipDerElement der
        return .inl ()
      else return .inr {}
  else return .inr {}

/-- The loop over the tail of a certificate is the iteration of a turn. -/
theorem tbsTailTurn_loopOf {tbsEnd : Nat} : LoopOf (tbsTailTurn d tbsEnd) fun n _ => tbsTailLoop d tbsEnd n := by
  intro n _
  simp only [tbsTailTurn, tbsTailLoop, bind_assoc]
  refine bind_congr fun pos => ?_
  by_cases hpos : pos < tbsEnd
  · simp only [hpos, if_true, bind_assoc]
    refine bind_congr fun o => ?_
    cases o with
    | none => rfl
    | some tag =>
      by_cases h3 : tag = 0xA3
      · simp only [h3, if_true, bind_assoc, pure_bind, bind_pure]
      · by_cases h12 : tag = 0xA1 ∨ tag = 0xA2
        · simp only [h3, h12, if_true, if_false, bind_assoc, pure_bind]
        · simp only [h3, h12, if_false, pure_bind]
  · simp only [hpos, if_false, pure_bind]

/-- A turn that goes on goes forward. -/
theorem tbsTailTurn_lands {tbsEnd : Nat} (u : Unit) (hp : p ≤ reach d) :
    Lands (reach d) p (fun t r => ∀ a, t = .inl a → p < r ∧ r ≤ d.length) (tbsTailTurn d tbsEnd u p) := by
  refine Lands.bind (Lands.getS le_rfl hp) fun pos r _ _ hpos => ?_
  obtain ⟨rfl, rfl⟩ := hpos
  refine Lands.ite (fun _ => ?_) fun _ => Lands.pure le_rfl hp (by simp)
  refine Lands.bind (Lands.peek le_rfl hp) fun o s hps hs ho => ?_
  obtain ⟨rfl, rfl⟩ := ho
  cases hb : d[s]? with
  | none => exact Lands.fail hps hs
  | some tag =>
    have hlt : s < d.length := (List.getElem?_eq_some_iff.1 hb).1
    refine Lands.ite (fun _ => ?_) fun _ => Lands.ite (fun _ => ?_) fun _ => Lands.pure hps hs (by simp)
    · refine Lands.bind (Lands.advance hps (by unfold reach; omega)) fun _ t₁ h₁ ht₁ _ => ?_
      refine Lands.bind (readDerLength_lands h₁ ht₁) fun len t₂ h₂ ht₂ _ => ?_
      refine Lands.bind (Lands.getS h₂ ht₂) fun start t₃ h₃ ht₃ _ => ?_
      refine Lands.bind (readSequenceHeader_lands h₃ ht₃) fun se t₄ h₄ ht₄ _ => ?_
      exact Lands.bind (extensionLoop_lands {} h₄ ht₄) fun x t₅ h₅ ht₅ _ => Lands.pure h₅ ht₅ (by simp)
    · refine Lands.bind (skipDerElement_lands hps hs) fun _ t ht ht' hskip => ?_
      exact Lands.pure ht ht' fun _ _ => hskip

/-- The loop comes to an end within the data. -/
theorem tbsTailLoop_progresses {tbsEnd : Nat} :
    Progresses (reach d) (tbsTailTurn d tbsEnd) fun n _ => tbsTailLoop d tbsEnd n :=
  ⟨tbsTailTurn_loopOf, fun u _ hp => (tbsTailTurn_lands u hp).mono le_rfl fun _ _ _ _ h a ha => (h a ha).1⟩

/-- The loop over the tail of a certificate is run without a panic. -/
theorem tbsTailLoop_lands {tbsEnd : Nat} (hpq : p ≤ q) (hq : q ≤ reach d) :
    Lands (reach d) p (fun _ _ => True) (tbsTailLoop d tbsEnd (d.length + 1) q) := by
  have hwithin : ∀ u q, q ≤ reach d → Lands (reach d) q (fun t r => ∀ a, t = .inl a → r ≤ d.length)
      (tbsTailTurn d tbsEnd u q) := fun u q hq =>
    (tbsTailTurn_lands u hq).mono le_rfl fun _ _ _ _ h a ha => (h a ha).2
  exact (tbsTailLoop_progresses.lands_of_lt (a := ()) hwithin hq (by omega) (by omega)).mono hpq fun _ _ _ _ h => h

/-! ## Certificates and chains -/

/-- The key and what follows it are read without a panic. -/
theorem readTbsKey_lands {sigAlg : Bytes} (hq : q ≤ reach d) : Lands (reach d) 0 (fun _ _ => True) (readTbsKey d sigAlg q) := by
  have hlim : d.length ≤ reach d := Nat.le_add_right _ _
  unfold readTbsKey
  refine Lands.bind (readSequenceHeader_lands (Nat.zero_le _) hq) fun tbs t₀ h₀ ht₀ _ => ?_
  refine Lands.bind (Lands.peek h₀ ht₀) fun b t₁ h₁ ht₁ _ => ?_
  refine Lands.bind (Lands.onlyIf h₁ ht₁ fun _ => (skipDerElement_lands h₁ ht₁).trivially) fun _ t₂ h₂ ht₂ _ => ?_
  refine Lands.bind (skipDerElement_lands h₂ ht₂) fun _ t₃ h₃ ht₃ _ => ?_
  refine Lands.bind (readAlgIdentifierOid_lands h₃ ht₃) fun alg t₄ h₄ ht₄ _ => ?_
  refine Lands.bind (Lands.ensure h₄ ht₄) fun _ t₅ h₅ ht₅ _ => ?_
  refine Lands.bind (skipDerElement_lands h₅ ht₅) fun _ t₆ h₆ ht₆ _ => ?_
  refine Lands.bind (skipDerElement_lands h₆ ht₆) fun _ t₇ h₇ ht₇ _ => ?_
  refine Lands.bind (skipDerElement_lands h₇ ht₇) fun _ t₈ h₈ ht₈ _ => ?_
  refine Lands.bind (Lands.getS h₈ ht₈) fun spkiStart t₉ h₉ ht₉ _ => ?_
  refine Lands.bind (readSequenceHeader_lands h₉ ht₉) fun se u₀ hu₀ hu₀' hse => ?_
  refine Lands.bind (Lands.orFail hu₀ hu₀') fun spki u₁ hu₁ hu₁' _ => ?_
  refine Lands.bind (Lands.ofOutcome (parseSpkiP256Point_returns spki) hu₁ hu₁') fun point u₂ _ _ _ => ?_
  refine Lands.bind (Lands.setS (Nat.zero_le _) (hse.2.2.2.trans hlim)) fun _ u₃ hu₃ hu₃' _ => ?_
  exact Lands.pure hu₃ hu₃' trivial

/-- Reading a certificate comes back. -/
theorem parseX509Cert_returns (der : Bytes) : (parseX509Cert der).Returns := by
  have hlim : der.length ≤ reach der := Nat.le_add_right _ _
  refine Lands.eval_returns (reach der) ?_
  unfold parseX509CertRun
  refine Lands.bind (readSequenceHeader_lands le_rfl (Nat.zero_le _)) fun outer t₀ h₀ ht₀ _ => ?_
  refine Lands.bind (Lands.getS h₀ ht₀) fun tbsStart t₁ h₁ ht₁ hstart => ?_
  refine Lands.bind (readSequenceHeader_lands h₁ ht₁) fun tbs t₂ h₂ ht₂ htbs => ?_
  refine Lands.bind (Lands.orFail h₂ ht₂) fun tbsRaw t₃ h₃ ht₃ _ => ?_
  refine Lands.bind (Lands.setS (Nat.zero_le _) (htbs.2.2.2.trans hlim)) fun _ t₄ h₄ ht₄ _ => ?_
  refine Lands.bind (readAlgIdentifierOid_lands h₄ ht₄) fun alg t₅ h₅ ht₅ _ => ?_
  refine Lands.bind (Lands.ensure h₅ ht₅) fun _ t₆ h₆ ht₆ _ => ?_
  refine Lands.bind (readBitString_lands h₆ ht₆) fun sigRaw t₇ h₇ ht₇ _ => ?_
  refine Lands.bind (Lands.ofOutcome (ecdsaDerToRs_returns sigRaw) h₇ ht₇) fun rs t₈ _ _ _ => ?_
  refine Lands.bind (Lands.setS (Nat.zero_le _) (by omega)) fun _ t₉ h₉ ht₉ _ => ?_
  refine Lands.bind (readTbsKey_lands ht₉) fun point u₀ hu₀ hu₀' _ => ?_
  exact Lands.bind (tbsTailLoop_lands hu₀ hu₀') fun x u₁ hu₁ hu₁' _ => Lands.pure hu₁ hu₁' trivial

/-- Checking that a certificate was issued by the next one comes back. -/
theorem checkIssued_returns (Γ : Ctx) {ps : List ParsedCert} {i : Nat} (hi : i + 1 < ps.length) :
    (checkIssued Γ ps i).Returns := by
  refine Outcome.bind_returns (Outcome.index_returns hi) fun issuer _ => ?_
  refine Outcome.bind_returns Outcome.ensure_returns fun _ _ => ?_
  refine Outcome.bind_returns Outcome.ensure_returns fun _ _ => ?_
  refine Outcome.bind_returns (Outcome.index_returns (by omega)) fun cert _ => ?_
  exact Outcome.ensure_returns

/-- The walk from the root to the leaf comes back. -/
theorem rootToLeaf_returns (Γ : Ctx) {ps : List ParsedCert} {n : Nat} (hn : n < ps.length) :
    (rootToLeaf Γ ps n).Returns := by
  induction n with
  | zero => trivial
  | succ n ih => exact Outcome.bind_returns (checkIssued_returns Γ hn) fun _ _ => ih (by omega)

/-- The walk from the leaf to the root comes back. -/
theorem leafToRoot_returns (Γ : Ctx) {ps : List ParsedCert} {n i : Nat} (hn : i + n < ps.length) :
    (leafToRoot Γ ps n i).Returns := by
  induction n generalizing i with
  | zero => trivial
  | succ n ih => exact Outcome.bind_returns (checkIssued_returns Γ (by omega)) fun _ _ => ih (by omega)

/-- The certificates of a chain that is not empty. -/
theorem collect_parseX509Cert_pos {ders : List Bytes} {ps : List ParsedCert} (hne : Outcome.ensure (ders ≠ []) () = .ok ())
    (hps : Outcome.collect parseX509Cert ders = .ok ps) : 0 < ps.length := by
  rw [Outcome.collect_length hps]
  exact List.length_pos_iff.2 (Outcome.ensure_ok_iff.1 hne)

/-- Validating a delegate chain comes back. -/
theorem verifyDelegateChain_returns (Γ : Ctx) (certDers : List Bytes) (ownerKeyPoint : Bytes) :
    (verifyDelegateChain Γ certDers ownerKeyPoint).Returns := by
  refine Outcome.bind_returns Outcome.ensure_returns fun _ hne => ?_
  refine Outcome.bind_returns Outcome.ensure_returns fun _ _ => ?_
  refine Outcome.bind_returns (Outcome.collect_returns parseX509Cert_returns) fun ps hps => ?_
  have hpos : 0 < ps.length := collect_parseX509Cert_pos hne hps
  refine Outcome.bind_returns (Outcome.index_returns (by omega)) fun root _ => ?_
  refine Outcome.bind_returns Outcome.ensure_returns fun _ _ => ?_
  refine Outcome.bind_returns (rootToLeaf_returns Γ (by omega)) fun _ _ => ?_
  exact Outcome.bind_returns (Outcome.index_returns hpos) fun leaf _ => trivial

/-- Validating an x5chain comes back. -/
theorem verifyX5chainInternal_returns (Γ : Ctx) (certDers : List Bytes) : (verifyX5chainInternal Γ certDers).Returns := by
  refine Outcome.bind_returns Outcome.ensure_returns fun _ hne => ?_
  refine Outcome.bind_returns Outcome.ensure_returns fun _ _ => ?_
  refine Outcome.bind_returns (Outcome.collect_returns parseX509Cert_returns) fun ps hps => ?_
  have hpos : 0 < ps.length := collect_parseX509Cert_pos hne hps
  refine Outcome.bind_returns (leafToRoot_returns Γ (by omega)) fun _ _ => ?_
  exact Outcome.bind_returns (Outcome.index_returns hpos) fun leaf _ => trivial

end FdoUefi
