import FdoUefi.Delegate
import FdoUefi.Lib.Yields

/-!
# Certificate chains: what the validators check

One specification for each function of `delegate.rs` that the theorems about chains use. `ekuOids` lists the OIDs of an
ExtendedKeyUsage; the flags of a certificate are determined by that list (`checkEkuOids_ok`).
-/

namespace FdoUefi

open Prog Prog.Run Cbor

/-! ## ExtendedKeyUsage -/

/-- The OIDs from the cursor to the end of the sequence, in order. -/
def ekuOidsLoop (d : Bytes) (seqEnd : Nat) : Nat → Run Nat Unit (List Bytes)
  | 0 => hangs
  | fuel + 1 => do
    let pos ← getS
    if pos < seqEnd then
      match ← attempt (readOid d) with
      | some oid =>
        let oids ← ekuOidsLoop d seqEnd fuel
        return oid :: oids
      | none =>
        match ← attempt (skipDerElement d) with
        | some () => ekuOidsLoop d seqEnd fuel
        | none => return []
    else return []

/-- The OIDs of an ExtendedKeyUsage value. -/
def ekuOids (d : Bytes) : Outcome Unit (List Bytes) :=
  (do
    match ← attempt (readSequenceHeader d) with
    | some (_, seqEnd) => ekuOidsLoop d seqEnd (d.length + 1)
    | none => return [] : Run Nat Unit (List Bytes)).eval

/-- The OID is in the ExtendedKeyUsage of the certificate. -/
def ParsedCert.HasEkuOid (c : ParsedCert) (oid : Bytes) : Prop := ∃ oids, ekuOids c.extensions.ekuValue = .ok oids ∧ oid ∈ oids

/-- The flags of a list of OIDs. -/
def EkuFlags.ofOids (oids : List Bytes) : EkuFlags := oids.foldl EkuFlags.add EkuFlags.none

/-- The flags of a certificate are those of its key purposes. -/
theorem ekuLoop_ok {d : Bytes} {seqEnd fuel p q : Nat} {f g : EkuFlags} (h : ekuLoop d seqEnd fuel f p = (.ok g, q)) :
    ∃ oids, ekuOidsLoop d seqEnd fuel p = (.ok oids, q) ∧ g = oids.foldl EkuFlags.add f := by
  induction fuel generalizing p f with
  | zero => simp [ekuLoop] at h
  | succ fuel ih =>
    simp only [ekuLoop, bind_ok_iff, getS_apply, Prod.mk.injEq, Outcome.ok.injEq] at h
    obtain ⟨_, _, ⟨rfl, rfl⟩, h⟩ := h
    rw [ekuOidsLoop, bind_of_ok (getS_apply p)]
    by_cases hp : p < seqEnd
    · rw [if_pos hp] at h ⊢
      obtain ⟨o, r, hoid, hr⟩ := bind_ok_iff.1 h
      rw [bind_of_ok hoid]
      cases o with
      | some oid =>
        obtain ⟨oids, hl, hg⟩ := ih hr
        exact ⟨oid :: oids, bind_ok_iff.2 ⟨oids, q, hl, pure_ok_iff.2 ⟨rfl, rfl⟩⟩, hg⟩
      | none =>
        obtain ⟨o', r', hskip, hr'⟩ := bind_ok_iff.1 hr
        simp only [bind_of_ok hskip]
        cases o' with
        | some _ => exact ih hr'
        | none =>
          obtain ⟨rfl, rfl⟩ := pure_ok_iff.1 hr'
          exact ⟨[], rfl, rfl⟩
    · rw [if_neg hp] at h ⊢
      obtain ⟨rfl, rfl⟩ := pure_ok_iff.1 h
      exact ⟨[], rfl, rfl⟩

/-- The flags of an ExtendedKeyUsage are those of its OIDs. -/
theorem checkEkuOids_ok {d : Bytes} {f : EkuFlags} (h : checkEkuOids d = .ok f) :
    ∃ oids, ekuOids d = .ok oids ∧ f = EkuFlags.ofOids oids := by
  unfold checkEkuOids Run.eval at h
  obtain ⟨o, p, hp, hr⟩ := bind_fst_ok_iff.1 h
  unfold ekuOids Run.eval
  rw [bind_of_ok hp]
  cases o with
  | some x =>
    obtain ⟨oids, hl, hf⟩ := ekuLoop_ok (Prod.ext hr rfl)
    exact ⟨oids, congrArg Prod.fst hl, hf⟩
  | none =>
    have hf : EkuFlags.none = f := by simpa using hr
    exact ⟨[], rfl, hf.symm⟩

/-- The permissions that allow onboarding. -/
def onboardOids : List Bytes := [oidPermitOnboardNewcred, oidPermitOnboardReusecred, oidPermitOnboardFdodisable]

/-- A flag that one OID of `S` sets, and no other, says that an OID of `S` is there. -/
theorem foldl_add_iff {π : EkuFlags → Bool} {S : List Bytes}
    (hπ : ∀ f oid, π (f.add oid) = true ↔ π f = true ∨ oid ∈ S) (oids : List Bytes) (f : EkuFlags) :
    π (oids.foldl EkuFlags.add f) = true ↔ π f = true ∨ ∃ oid ∈ oids, oid ∈ S := by
  induction oids generalizing f with
  | nil => simp
  | cons oid oids ih =>
    rw [List.foldl_cons, ih, hπ, or_assoc]
    simp

/-- A purpose sets the flag for redirection if it is that. -/
theorem add_redirect_iff (f : EkuFlags) (oid : Bytes) :
    (f.add oid).redirect = true ↔ f.redirect = true ∨ oid ∈ [oidPermitRedirect] := by
  unfold EkuFlags.add
  split_ifs <;> simp_all [oidPermitRedirect, oidPermitProvision, oidPermit]

/-- A purpose sets the flag for provisioning if it is that. -/
theorem add_provision_iff (f : EkuFlags) (oid : Bytes) :
    (f.add oid).provision = true ↔ f.provision = true ∨ oid ∈ [oidPermitProvision] := by
  unfold EkuFlags.add
  split_ifs <;> simp_all

/-- A purpose sets the flag for the reuse of credentials if it is that. -/
theorem add_reuseCred_iff (f : EkuFlags) (oid : Bytes) :
    (f.add oid).reuseCred = true ↔ f.reuseCred = true ∨ oid ∈ [oidPermitOnboardReusecred] := by
  unfold EkuFlags.add
  split_ifs <;>
    simp_all [oidPermitRedirect, oidPermitProvision, oidPermitOnboardNewcred, oidPermitOnboardReusecred, oidPermit]

/-- The flag for onboarding is set by any of three. -/
theorem add_onboard_iff (f : EkuFlags) (oid : Bytes) :
    (f.add oid).onboard = true ↔ f.onboard = true ∨ oid ∈ onboardOids := by
  unfold EkuFlags.add onboardOids
  split_ifs <;> simp_all [oidPermitRedirect, oidPermitProvision, oidPermitOnboardNewcred, oidPermitOnboardReusecred,
    oidPermitOnboardFdodisable, oidPermit]

/-! ## The flags of a certificate -/

/-- The extensions of a certificate, as far as their flags go: they were read from the value kept beside them. -/
def Extensions.Faithful (x : Extensions) : Prop := checkEkuOids x.ekuValue = .ok x.eku

/-- A certificate without extensions claims nothing. -/
theorem extensions_default_faithful : ({} : Extensions).Faithful := by
  unfold Extensions.Faithful
  decide

/-- An extension is recorded as it is parsed. -/
theorem readExtension_faithful {der oid : Bytes} {x y : Extensions} {p q : Nat} (hx : x.Faithful)
    (h : readExtension der oid x p = (.ok y, q)) : y.Faithful := by
  unfold readExtension at h
  by_cases hoid : oid = oidExtKeyUsage ∨ oid = oidBasicConstraints
  · rw [if_pos hoid] at h
    simp only [bind_ok_iff] at h
    obtain ⟨_, _, -, _, _, -, w, r, -, hr⟩ := h
    by_cases heku : oid = oidExtKeyUsage
    · rw [if_pos heku] at hr
      simp only [bind_ok_iff, ofOutcome_apply, Prod.mk.injEq] at hr
      obtain ⟨eku, _, ⟨hflags, -⟩, hp⟩ := hr
      obtain ⟨rfl, -⟩ := pure_ok_iff.1 hp
      exact hflags
    · rw [if_neg heku] at hr
      obtain ⟨⟨ca, pl⟩, _, -, hp⟩ := bind_ok_iff.1 hr
      obtain ⟨rfl, -⟩ := pure_ok_iff.1 hp
      exact hx
  · rw [if_neg hoid] at h
    obtain ⟨rfl, -⟩ := pure_ok_iff.1 h
    exact hx

/-- The extensions of a certificate are recorded as they are parsed. -/
theorem extensionLoop_faithful {der : Bytes} {wrapperEnd fuel p q : Nat} {x y : Extensions} (hx : x.Faithful)
    (h : extensionLoop der wrapperEnd fuel x p = (.ok y, q)) : y.Faithful := by
  induction fuel generalizing p x with
  | zero => simp [extensionLoop] at h
  | succ fuel ih =>
    simp only [extensionLoop, bind_ok_iff, getS_apply, Prod.mk.injEq, Outcome.ok.injEq] at h
    obtain ⟨_, _, ⟨rfl, rfl⟩, h⟩ := h
    split_ifs at h with hp
    · obtain ⟨o, r, -, hr⟩ := bind_ok_iff.1 h
      cases o with
      | none =>
        obtain ⟨rfl, -⟩ := pure_ok_iff.1 hr
        exact hx
      | some e =>
        obtain ⟨z, r₂, hz, hr⟩ := bind_ok_iff.1 hr
        obtain ⟨_, r₃, -, hr⟩ := bind_ok_iff.1 hr
        refine ih ?_ hr
        obtain ⟨o', r₄, -, hz⟩ := bind_ok_iff.1 hz
        cases o' with
        | none =>
          obtain ⟨rfl, -⟩ := pure_ok_iff.1 hz
          exact hx
        | some oid => exact readExtension_faithful hx hz
    · obtain ⟨rfl, -⟩ := pure_ok_iff.1 h
      exact hx

/-- The extensions in the tail of a certificate are recorded as they are parsed. -/
theorem tbsTailLoop_faithful {der : Bytes} {tbsEnd fuel p q : Nat} {y : Extensions}
    (h : tbsTailLoop der tbsEnd fuel p = (.ok y, q)) : y.Faithful := by
  induction fuel generalizing p with
  | zero => simp [tbsTailLoop] at h
  | succ fuel ih =>
    rw [tbsTailLoop, bind_of_ok (getS_apply p)] at h
    by_cases hp : p < tbsEnd
    · rw [if_pos hp, bind_of_ok (peek_apply der p)] at h
      cases hb : der[p]? with
      | none =>
        simp only [hb] at h
        simp at h
      | some tag =>
        simp only [hb] at h
        by_cases h3 : tag = 0xA3
        · rw [if_pos h3] at h
          simp only [bind_ok_iff] at h
          obtain ⟨_, _, -, _, _, -, _, _, -, _, _, -, hl⟩ := h
          exact extensionLoop_faithful extensions_default_faithful hl
        · rw [if_neg h3] at h
          by_cases h12 : tag = 0xA1 ∨ tag = 0xA2
          · rw [if_pos h12] at h
            obtain ⟨_, _, -, hl⟩ := bind_ok_iff.1 h
            exact ih hl
          · rw [if_neg h12] at h
            obtain ⟨rfl, -⟩ := pure_ok_iff.1 h
            exact extensions_default_faithful
    · rw [if_neg hp] at h
      obtain ⟨rfl, -⟩ := pure_ok_iff.1 h
      exact extensions_default_faithful

/-- The flags of a parsed certificate were read from its ExtendedKeyUsage. -/
theorem parseX509Cert_faithful {der : Bytes} {c : ParsedCert} (h : parseX509Cert der = .ok c) : c.extensions.Faithful := by
  have hyields : Yields (parseX509CertRun der) fun c => c.extensions.Faithful := by
    refine .next fun _ => .next fun _ => .next fun _ => .next fun _ => .next fun _ => .next fun _ => ?_
    refine .next fun _ => .next fun _ => .next fun _ => .next fun _ => .next fun _ => ?_
    exact .bind (fun _ _ _ => tbsTailLoop_faithful) fun x hx => .pure hx
  exact hyields.fst h

/-- A flag of a certificate says which OID its ExtendedKeyUsage has. -/
theorem flag_iff_hasEkuOid {π : EkuFlags → Bool} {S : List Bytes} (h0 : π EkuFlags.none = false)
    (hπ : ∀ f oid, π (f.add oid) = true ↔ π f = true ∨ oid ∈ S) {c : ParsedCert} (hc : c.extensions.Faithful) :
    π c.extensions.eku = true ↔ ∃ oid ∈ S, c.HasEkuOid oid := by
  obtain ⟨oids, ho, hf⟩ := checkEkuOids_ok hc
  rw [hf, EkuFlags.ofOids, foldl_add_iff hπ, h0]
  constructor
  · rintro (h | ⟨oid, hmem, hS⟩)
    · cases h
    · exact ⟨oid, hS, oids, ho, hmem⟩
  · rintro ⟨oid, hS, oids', ho', hmem⟩
    rw [ho, Outcome.ok.injEq] at ho'
    exact .inr ⟨oid, ho' ▸ hmem, hS⟩

/-! ## Chains -/

variable {Γ : Ctx} {ps : List ParsedCert}

/-- Certificate `i` is properly issued by the one above it. -/
structure Issued (Γ : Ctx) (ps : List ParsedCert) (i : Nat) (cert issuer : ParsedCert) : Prop where
  cert_at : ps[i]? = some cert
  issuer_at : ps[i + 1]? = some issuer
  ca : issuer.isCa = true
  path : ∀ n, issuer.pathLen = some n → i ≤ n
  signed : verifyEs256 Γ cert.tbsRaw cert.signatureRs issuer.publicKeyPoint = true

/-- A certificate passes if it was issued by the next one. -/
theorem checkIssued_ok_iff {i : Nat} : checkIssued Γ ps i = .ok () ↔ ∃ cert issuer, Issued Γ ps i cert issuer := by
  simp only [checkIssued, Outcome.bind_ok_iff, Outcome.ensure_ok_iff, Outcome.index_ok_iff, Option.all_eq_true,
    decide_eq_true_eq]
  constructor
  · rintro ⟨issuer, hi, _, hca, _, hpath, cert, hc, hsig⟩
    exact ⟨cert, issuer, hc, hi, hca, hpath, hsig⟩
  · rintro ⟨cert, issuer, hc, hi, hca, hpath, hsig⟩
    exact ⟨issuer, hi, (), hca, (), hpath, cert, hc, hsig⟩

/-- The walk from the root checks every link. -/
theorem rootToLeaf_ok_iff {n : Nat} {u : Unit} : rootToLeaf Γ ps n = .ok u ↔ ∀ i < n, checkIssued Γ ps i = .ok () := by
  induction n with
  | zero => simp [rootToLeaf, pure]
  | succ n ih =>
    rw [rootToLeaf, Outcome.bind_ok_iff]
    constructor
    · rintro ⟨_, hn, hr⟩ i hi
      rcases Nat.lt_succ_iff_lt_or_eq.1 hi with hi | rfl
      · exact ih.1 hr i hi
      · exact hn
    · intro h
      exact ⟨(), h n (Nat.lt_succ_self n), ih.2 fun i hi => h i (Nat.lt_succ_of_lt hi)⟩

/-- The walk from the leaf checks every link. -/
theorem leafToRoot_ok_iff {n i : Nat} {u : Unit} :
    leafToRoot Γ ps n i = .ok u ↔ ∀ j < n, checkIssued Γ ps (i + j) = .ok () := by
  induction n generalizing i with
  | zero => simp [leafToRoot, pure]
  | succ n ih =>
    rw [leafToRoot, Outcome.bind_ok_iff]
    constructor
    · rintro ⟨_, hi, hr⟩ j hj
      cases j with
      | zero => exact hi
      | succ j =>
        have := ih.1 hr j (by omega)
        rwa [Nat.add_assoc, Nat.add_comm 1 j] at this
    · intro h
      refine ⟨(), h 0 (Nat.succ_pos n), ih.2 fun j hj => ?_⟩
      rw [Nat.add_assoc, Nat.add_comm 1 j]
      exact h (j + 1) (by omega)

/-- The result of a chain, from its parsed certificates and the leaf. -/
def chainResult (ps : List ParsedCert) (leaf : ParsedCert) : DelegateChainResult where
  leafKeyPoint := leaf.publicKeyPoint
  hasRedirect := ps.all (·.hasPermitRedirect)
  hasProvision := ps.all (·.hasPermitProvision)
  hasOnboard := ps.all (·.hasPermitOnboard)
  hasReuseCred := ps.all (·.hasPermitReuseCred)

/-- What both validators require: a length, certificates that parse, and every link. -/
structure Linked (Γ : Ctx) (c : List Bytes) (ps : List ParsedCert) : Prop where
  nonempty : c ≠ []
  short : c.length ≤ maxDelegateChainLen
  parsed : Outcome.collect parseX509Cert c = .ok ps
  links : ∀ i < ps.length - 1, checkIssued Γ ps i = .ok ()

/-- A chain is accepted if it is linked and its root is signed by the Owner key. -/
theorem verifyDelegateChain_ok_iff {c : List Bytes} {o : Bytes} {r : DelegateChainResult} :
    verifyDelegateChain Γ c o = .ok r ↔
      ∃ ps root leaf, Linked Γ c ps ∧ ps[ps.length - 1]? = some root ∧ ps[0]? = some leaf ∧
        verifyEs256 Γ root.tbsRaw root.signatureRs o = true ∧ r = chainResult ps leaf := by
  simp only [verifyDelegateChain, Outcome.bind_ok_iff, Outcome.ensure_ok_iff, Outcome.index_ok_iff, rootToLeaf_ok_iff,
    Outcome.pure_ok_iff]
  constructor
  · rintro ⟨_, hne, _, hlen, ps, hps, root, hroot, _, hsig, _, hlinks, leaf, hleaf, rfl⟩
    exact ⟨ps, root, leaf, ⟨hne, hlen, hps, hlinks⟩, hroot, hleaf, hsig, rfl⟩
  · rintro ⟨ps, root, leaf, ⟨hne, hlen, hps, hlinks⟩, hroot, hleaf, hsig, rfl⟩
    exact ⟨(), hne, (), hlen, ps, hps, root, hroot, (), hsig, (), hlinks, leaf, hleaf, rfl⟩

/-- An x5chain is accepted if it is linked. -/
theorem verifyX5chainInternal_ok_iff {c : List Bytes} {k : Bytes} :
    verifyX5chainInternal Γ c = .ok k ↔
      ∃ ps leaf, Linked Γ c ps ∧ ps[0]? = some leaf ∧ k = leaf.publicKeyPoint := by
  simp only [verifyX5chainInternal, Outcome.bind_ok_iff, Outcome.ensure_ok_iff, Outcome.index_ok_iff, leafToRoot_ok_iff,
    Outcome.pure_ok_iff, Nat.zero_add]
  constructor
  · rintro ⟨_, hne, _, hlen, ps, hps, _, hlinks, leaf, hleaf, rfl⟩
    exact ⟨ps, leaf, ⟨hne, hlen, hps, hlinks⟩, hleaf, rfl⟩
  · rintro ⟨ps, leaf, ⟨hne, hlen, hps, hlinks⟩, hleaf, rfl⟩
    exact ⟨(), hne, (), hlen, ps, hps, (), hlinks, leaf, hleaf, rfl⟩

/-- The last parsed certificate is the parsed last certificate. -/
theorem Linked.last_iff {c : List Bytes} (h : Linked Γ c ps) {root : ParsedCert} :
    ps[ps.length - 1]? = some root ↔ ∃ last, c.getLast? = some last ∧ parseX509Cert last = .ok root := by
  rw [Outcome.collect_getElem? h.parsed, Outcome.collect_length h.parsed, List.getLast?_eq_getElem?]

/-- Every certificate of a chain has a flag exactly when every one has an OID that sets it. -/
theorem Linked.all_iff {c : List Bytes} (h : Linked Γ c ps) {π : EkuFlags → Bool} {S : List Bytes}
    (h0 : π EkuFlags.none = false) (hπ : ∀ f oid, π (f.add oid) = true ↔ π f = true ∨ oid ∈ S) :
    ps.all (fun p => π p.extensions.eku) = true ↔ ∀ p ∈ ps, ∃ oid ∈ S, p.HasEkuOid oid := by
  have hfaith : ∀ p ∈ ps, p.extensions.Faithful := by
    intro p hp
    obtain ⟨i, hi⟩ := List.getElem?_of_mem hp
    obtain ⟨der, -, hder⟩ := (Outcome.collect_getElem? h.parsed).1 hi
    exact parseX509Cert_faithful hder
  rw [List.all_eq_true]
  exact forall₂_congr fun p hp => flag_iff_hasEkuOid h0 hπ (hfaith p hp)

/-- For a flag that one OID sets, every certificate of a chain has it exactly when every one has the OID. -/
theorem Linked.all_iff_oid {c : List Bytes} (h : Linked Γ c ps) {π : EkuFlags → Bool} {oid : Bytes}
    (h0 : π EkuFlags.none = false) (hπ : ∀ f x, π (f.add x) = true ↔ π f = true ∨ x ∈ [oid]) :
    ps.all (fun p => π p.extensions.eku) = true ↔ ∀ p ∈ ps, p.HasEkuOid oid := by
  have hall := h.all_iff h0 hπ
  simp only [List.mem_singleton, exists_eq_left] at hall
  exact hall

end FdoUefi
