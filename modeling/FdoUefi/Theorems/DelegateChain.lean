import FdoUefi.Lemmas.Delegate

/-!
# Delegate chains

The two validators of `delegate.rs` accept the same chains up to the anchor (`verifyDelegateChain_iff_x5chain`), and what a
chain is granted is what its certificates carry (`verifyDelegateChain_permissions`). A granted onboarding need not be one
permission that all of them carry (`onboarding_without_common_permission`).
-/

namespace FdoUefi

open Prog Cbor

/-- A chain is accepted for an Owner, with leaf key `k`, exactly when its linkage yields `k` and its last certificate is
signed by the Owner; an accepted chain has one to eight certificates, each signed by the next, and all but the leaf are CAs
whose path length allows the certificates below. -/
theorem verifyDelegateChain_iff_x5chain (Γ : Ctx) (c : List Bytes) (o : Bytes) :
    (∀ k, (∃ r, verifyDelegateChain Γ c o = .ok r ∧ r.leafKeyPoint = k) ↔
      verifyX5chainInternal Γ c = .ok k ∧ ∃ last cert, c.getLast? = some last ∧ parseX509Cert last = .ok cert ∧
        verifyEs256 Γ cert.tbsRaw cert.signatureRs o = true) ∧
    (∀ r, verifyDelegateChain Γ c o = .ok r → 1 ≤ c.length ∧ c.length ≤ 8 ∧
      ∃ ps, Outcome.collect parseX509Cert c = .ok ps ∧
        (∀ j cert above, ps[j]? = some cert → ps[j + 1]? = some above →
          verifyEs256 Γ cert.tbsRaw cert.signatureRs above.publicKeyPoint = true) ∧
        (∀ j cert, 1 ≤ j → ps[j]? = some cert →
          cert.isCa = true ∧ ∀ n, cert.pathLen = some n → j - 1 ≤ n)) := by
  refine ⟨fun k => ?_, fun r hr => ?_⟩
  · constructor
    · rintro ⟨r, hr, rfl⟩
      obtain ⟨ps, root, leaf, hl, hroot, hleaf, hsig, rfl⟩ := verifyDelegateChain_ok_iff.1 hr
      obtain ⟨last, hlast, hcert⟩ := hl.last_iff.1 hroot
      exact ⟨verifyX5chainInternal_ok_iff.2 ⟨ps, leaf, hl, hleaf, rfl⟩, last, root, hlast, hcert, hsig⟩
    · rintro ⟨hk, last, root, hlast, hcert, hsig⟩
      obtain ⟨ps, leaf, hl, hleaf, rfl⟩ := verifyX5chainInternal_ok_iff.1 hk
      have hroot := hl.last_iff.2 ⟨last, hlast, hcert⟩
      exact ⟨_, verifyDelegateChain_ok_iff.2 ⟨ps, root, leaf, hl, hroot, hleaf, hsig, rfl⟩, rfl⟩
  · obtain ⟨ps, root, leaf, hl, -, -, -, -⟩ := verifyDelegateChain_ok_iff.1 hr
    have hlen := Outcome.collect_length hl.parsed
    -- A certificate with another above it is one of the links that were checked.
    have hlink : ∀ j above, ps[j + 1]? = some above → ∃ cert, Issued Γ ps j cert above := by
      intro j above habove
      have hj := (List.getElem?_eq_some_iff.1 habove).1
      obtain ⟨cert, issuer, hi⟩ := checkIssued_ok_iff.1 (hl.links j (by omega))
      obtain rfl : issuer = above := Option.some.inj (hi.issuer_at.symm.trans habove)
      exact ⟨cert, hi⟩
    refine ⟨List.length_pos_iff.2 hl.nonempty, hl.short, ps, hl.parsed, ?_, ?_⟩
    · intro j cert above hcert habove
      obtain ⟨cert', hi⟩ := hlink j above habove
      obtain rfl : cert' = cert := Option.some.inj (hi.cert_at.symm.trans hcert)
      exact hi.signed
    · intro j cert hj hcert
      obtain ⟨i, rfl⟩ : ∃ i, j = i + 1 := ⟨j - 1, by omega⟩
      obtain ⟨_, hi⟩ := hlink i cert hcert
      exact ⟨hi.ca, fun n hn => hi.path n hn⟩

/-- A chain is granted redirection, provisioning or credential reuse exactly when every one of its certificates carries that
permission, and onboarding exactly when every certificate carries at least one of the onboarding permissions. -/
theorem verifyDelegateChain_permissions (Γ : Ctx) (c : List Bytes) (o : Bytes) (r : DelegateChainResult)
    (h : verifyDelegateChain Γ c o = .ok r) :
    ∃ ps, Outcome.collect parseX509Cert c = .ok ps ∧
      (r.hasRedirect = true ↔ ∀ p ∈ ps, p.HasEkuOid oidPermitRedirect) ∧
      (r.hasProvision = true ↔ ∀ p ∈ ps, p.HasEkuOid oidPermitProvision) ∧
      (r.hasReuseCred = true ↔ ∀ p ∈ ps, p.HasEkuOid oidPermitOnboardReusecred) ∧
      (r.hasOnboard = true ↔ ∀ p ∈ ps, ∃ oid ∈ onboardOids, p.HasEkuOid oid) := by
  obtain ⟨ps, root, leaf, hl, -, -, -, rfl⟩ := verifyDelegateChain_ok_iff.1 h
  refine ⟨ps, hl.parsed, ?_, ?_, ?_, ?_⟩
  · exact hl.all_iff_oid (π := EkuFlags.redirect) rfl add_redirect_iff
  · exact hl.all_iff_oid (π := EkuFlags.provision) rfl add_provision_iff
  · exact hl.all_iff_oid (π := EkuFlags.reuseCred) rfl add_reuseCred_iff
  · exact hl.all_iff (π := EkuFlags.onboard) rfl add_onboard_iff

/-! ## A chain of two certificates -/

/-- An Owner key. -/
def sampleOwnerPoint : Bytes := beBytes 65
  0x04960af07a3d00ecf1cb00d16e8e00560e7b95c4d36dcb386fb229b012c4e37a96dc6a23cf6cf9b2facea39466c918f9e0ffee8dfe057d184a6ce5408c22f7296d

/-- A CA certificate for PERM.4, signed by the Owner. -/
def sampleRootCert : Bytes := beBytes 283
  0x308201173081bda003020102020101300a06082a8648ce3d0403023000301e170d3236303130313030303030305a170d3336303130313030303030305a30003059301306072a8648ce3d020106082a8648ce3d0301070342000472fe98ddb78f71493af5d9917b78e5fb003317916b544de1381dfa6d3ff57a7cbb13473c14d683766264cf97593f08162c184e29fa5615513de3550662e1543ba328302630160603551d25040f300d060b2b0601040182e51c030104300c0603551d13040530030101ff300a06082a8648ce3d0403020349003046022100fd2d01696cc54012f3a2c0d7333e23e9e489fefdda935528b61da7c3d79896cf022100e1f1b0224412d69d83e855ff7c47de500dd44f940ed1896b9c1f6635eaa086f9

/-- A certificate for PERM.2, signed by the key of the CA certificate. -/
def sampleLeafCert : Bytes := beBytes 268
  0x308201083081afa003020102020102300a06082a8648ce3d0403023000301e170d3236303130313030303030305a170d3336303130313030303030305a30003059301306072a8648ce3d020106082a8648ce3d0301070342000405b236caf1a3e6d896e3d6ebd748f76ba7b4839aff7117a64f3fae97624dd8640d7ab0d2c28b4c58a8b57b49fa10164a685255c7b4e6f1f0f8502824e56f5529a31a301830160603551d25040f300d060b2b0601040182e51c030102300a06082a8648ce3d040302034800304502201f330824afbc9cb7f0ad8bfda396427182dd951be69e62d4e0a3618335e57c78022100faa43fc5db039daa58d3c5e735707c81cab9a38cc557ead6d4e807faab7c0337

/-- The signatures of the two certificates are the ones that verify. -/
def sampleChainCtx : Ctx :=
  match parseX509Cert sampleRootCert, parseX509Cert sampleLeafCert with
  | .ok root, .ok leaf => Ctx.ofTables
      [(root.tbsRaw, root.signatureRs, sampleOwnerPoint), (leaf.tbsRaw, leaf.signatureRs, root.publicKeyPoint)] [] []
  | _, _ => Ctx.ofTables [] [] []

/-- The CA certificate above the leaf. -/
def sampleChain : List Bytes := [sampleLeafCert, sampleRootCert]

/-- The sample chain is accepted and permits onboarding. -/
theorem sampleChain_accepted :
    ∃ r, verifyDelegateChain sampleChainCtx sampleChain sampleOwnerPoint = .ok r ∧ r.hasOnboard = true := by
  refine Outcome.okWith_iff.1 ?_
  decide +kernel

/-- The sample chain is accepted as an x5chain and permits onboarding. -/
theorem sampleChain_x5chain :
    (∃ k, verifyX5chainInternal sampleChainCtx sampleChain = .ok k) ∧ 1 ≤ sampleChain.length ∧ sampleChain.length ≤ 8 := by
  obtain ⟨r, hr, -⟩ := sampleChain_accepted
  have h := verifyDelegateChain_iff_x5chain sampleChainCtx sampleChain sampleOwnerPoint
  obtain ⟨h1, h8, -⟩ := h.2 r hr
  exact ⟨⟨r.leafKeyPoint, ((h.1 _).1 ⟨r, hr, rfl⟩).1⟩, h1, h8⟩

/-- Each certificate of the sample chain carries an onboarding permission. -/
theorem sampleChain_permissions :
    ∃ ps, Outcome.collect parseX509Cert sampleChain = .ok ps ∧ ∀ p ∈ ps, ∃ oid ∈ onboardOids, p.HasEkuOid oid := by
  obtain ⟨r, hr, hon⟩ := sampleChain_accepted
  obtain ⟨ps, hps, -, -, -, h⟩ := verifyDelegateChain_permissions sampleChainCtx sampleChain sampleOwnerPoint r hr
  exact ⟨ps, hps, h.1 hon⟩

/-- Some certificate of the list lacks `oid`. -/
def someLacks (ps : List ParsedCert) (oid : Bytes) : Bool :=
  ps.any fun p => Outcome.okWith (fun oids => !oids.contains oid) (ekuOids p.extensions.ekuValue)

/-- A chain can be granted onboarding although its certificates have no onboarding permission in common: the CA of the sample
chain carries PERM.4 only, the leaf PERM.2 only. -/
theorem onboarding_without_common_permission :
    ∃ r ps, verifyDelegateChain sampleChainCtx sampleChain sampleOwnerPoint = .ok r ∧ r.hasOnboard = true ∧
      Outcome.collect parseX509Cert sampleChain = .ok ps ∧ ¬∃ oid ∈ onboardOids, ∀ p ∈ ps, p.HasEkuOid oid := by
  obtain ⟨r, hr, hon⟩ := sampleChain_accepted
  obtain ⟨ps, hps, hlack⟩ : ∃ ps, Outcome.collect parseX509Cert sampleChain = .ok ps ∧
      onboardOids.all (someLacks ps) = true := by
    refine Outcome.okWith_iff.1 ?_
    decide +kernel
  refine ⟨r, ps, hr, hon, hps, ?_⟩
  rintro ⟨oid, hoid, hall⟩
  obtain ⟨p, hp, hno⟩ := List.any_eq_true.1 (List.all_eq_true.1 hlack oid hoid)
  obtain ⟨oids, ho, hnot⟩ := Outcome.okWith_iff.1 hno
  obtain ⟨oids', ho', hmem⟩ := hall p hp
  rw [ho, Outcome.ok.injEq] at ho'
  subst ho'
  simp [hmem] at hnot

end FdoUefi
