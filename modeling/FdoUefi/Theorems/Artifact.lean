import FdoUefi.Lemmas.Artifact
import FdoUefi.Theorems.DelegateChain

/-!
# Signed artifacts and meta-payloads

A payload that `verify_bmo_signed` or `verify_and_extract_meta` returns as authenticated is the payload of an envelope whose
signature was made for that purpose, by a signer the Owner has authorised.
-/

namespace FdoUefi

open Prog Cbor

/-- The key that must have signed an artifact with this unprotected header: the Owner key, or the key of the leaf of the x5chain
in it, which is accepted for the Owner and carries PERM.7 in every certificate. -/
inductive ArtifactSigner (Γ : Ctx) (owner unprotected : Bytes) : Bytes → Prop where
  | owner (hdirect : hasDelegateHeader unprotected = .ok false) : ArtifactSigner Γ owner unprotected owner
  | delegate {value : Bytes} {certs : List Bytes} {chain : DelegateChainResult} {leaf : ParsedCert} {ps : List ParsedCert}
      (hdelegated : hasDelegateHeader unprotected = .ok true) (hlabel : HasLabel unprotected coseLabelX5chain value)
      (hcerts : IsX5chain value certs) (hchain : verifyDelegateChain Γ certs owner = .ok chain)
      (hparsed : Outcome.collect parseX509Cert certs = .ok ps) (hleaf : ps.head? = some leaf)
      (hperm : ∀ p ∈ ps, p.HasEkuOid oidPermitProvision) : ArtifactSigner Γ owner unprotected leaf.publicKeyPoint

/-- The signature of the envelope verifies under `key` over exactly `["Signature1", protected, bstr of [tag], payload]`. -/
structure SignedFor (Γ : Ctx) (s1 : CoseSign1) (tag key : Bytes) : Prop where
  aad : IsDomainAad (domainAad tag fdoVersion200) tag
  message : IsSigStructure (buildSigStructure s1.protectedHeader (domainAad tag fdoVersion200) s1.payload) s1.protectedHeader
    (domainAad tag fdoVersion200) s1.payload
  verifies : verifyEs256 Γ (buildSigStructure s1.protectedHeader (domainAad tag fdoVersion200) s1.payload) s1.signature key = true

/-- `data` is an envelope with the parts of `s1`, and maybe some bytes after it. -/
def IsCoseSign1 (data : Bytes) (s1 : CoseSign1) : Prop :=
  ∃ pre pl sg post, data = pre ++ (s1.unprotectedHeader ++ (pl ++ sg)) ++ post ∧ IsSign1Prefix pre s1.protectedHeader ∧
    Item Head.Narrow s1.unprotectedHeader ∧ IsSign1Payload pl s1.payload ∧ IsBstr sg s1.signature

/-- `p` is the payload of a provisioning artifact for this content type and device, signed with the Owner's authority. -/
structure ProvisioningVerified (Γ : Ctx) (data owner expectedCt : Bytes) (guid : Option Bytes) (p : Bytes) (s1 : CoseSign1)
    (key : Bytes) : Prop where
  parsed : parseCoseSign1 data = .ok s1
  envelope : IsCoseSign1 data s1
  payload : s1.payload = p
  contentType : ∃ value, HasLabel s1.protectedHeader 3 value ∧ IsText value expectedCt
  scope : evaluateBmoScope s1.protectedHeader guid = .ok true
  signer : ArtifactSigner Γ owner s1.unprotectedHeader key
  signature : SignedFor Γ s1 aadTagBmoProvision key

/-- `p` is the payload of a meta-payload signed by the publisher the begin message names or, where it names none, with the
Owner's authority. -/
structure MetaAuthenticated (Γ : Ctx) (data : Bytes) (metaSigner owner : Option Bytes) (p : Bytes) (s1 : CoseSign1)
    (key : Bytes) : Prop where
  parsed : parseCoseSign1 data = .ok s1
  envelope : IsCoseSign1 data s1
  payload : s1.payload = p
  signer : (∃ coseKey, metaSigner = some coseKey ∧ parseCoseKeyP256 coseKey = .ok key) ∨
    metaSigner = none ∧ ∃ o, owner = some o ∧ ArtifactSigner Γ o s1.unprotectedHeader key
  signature : SignedFor Γ s1 aadTagMetaPayload key

namespace Aux

variable {Γ : Ctx} {data : Bytes} {s1 : CoseSign1} {key : Bytes}

/-- What is parsed as an envelope is one. -/
theorem isCoseSign1_of_parse (h : parseCoseSign1 data = .ok s1) : IsCoseSign1 data s1 := by
  obtain ⟨pre, pl, sg, post, hdata, hpre, hitem, hpl, hsg, -⟩ := parseCoseSign1_ok h
  exact ⟨pre, pl, sg, post, hdata, hpre, hitem, hpl, hsg⟩

/-- The strings of a parsed envelope are short enough for the Sig_structure to be the array it is meant to be. -/
theorem signedFor_of_verify {tag : Bytes} (hparse : parseCoseSign1 data = .ok s1) (htag : tag.length < 256)
    (hver : verifyEs256 Γ (buildSigStructure s1.protectedHeader (domainAad tag fdoVersion200) s1.payload) s1.signature key = true) :
    SignedFor Γ s1 tag key := by
  obtain ⟨hprot, hpay⟩ := parseCoseSign1_length_lt hparse
  have haad : (domainAad tag fdoVersion200).length < 2 ^ 32 := by
    have hhead := encodeHead_length_le 3 tag.length
    rw [domainAad, if_neg (Nat.lt_irrefl _), encodeTstr, List.length_cons, List.length_append]
    omega
  exact ⟨domainAad_isDomainAad le_rfl (by omega), buildSigStructure_isSigStructure hprot haad hpay, hver⟩

/-- The key an artifact is verified under is that of an authorised signer. -/
theorem artifactSigner_of_point {unprotected owner : Bytes} (h : artifactSignerPoint Γ unprotected owner = .ok key) :
    ArtifactSigner Γ owner unprotected key := by
  simp only [artifactSignerPoint, Outcome.bind_ok_iff] at h
  obtain ⟨delegated, hdel, hrest⟩ := h
  cases delegated with
  | false =>
    simp only [if_true, Outcome.pure_ok_iff] at hrest
    subst hrest
    exact .owner hdel
  | true =>
    simp only [Bool.true_eq_false, if_false, Outcome.bind_ok_iff, Outcome.ensure_ok_iff, Outcome.pure_ok_iff] at hrest
    obtain ⟨certs, hcerts, chain, hchain, _, hprovision, rfl⟩ := hrest
    obtain ⟨value, hlabel, hx⟩ := extractX5chainFromUnprotected_ok hcerts
    obtain ⟨ps, root, leaf, hl, -, hleaf, -, hres⟩ := verifyDelegateChain_ok_iff.1 hchain
    have hall : ps.all (·.hasPermitProvision) = true := by rwa [hres] at hprovision
    have hperm := (hl.all_iff_oid (π := EkuFlags.provision) rfl add_provision_iff).1 hall
    have hhead : ps.head? = some leaf := by rw [List.head?_eq_getElem?, hleaf]
    have hkey : chain.leafKeyPoint = leaf.publicKeyPoint := by rw [hres]; rfl
    rw [hkey]
    exact .delegate hdel hlabel hx hchain hl.parsed hhead hperm

/-- An accepted artifact is verified by its signer. -/
theorem verifyBmoSigned_verified {owner expectedCt p : Bytes} {guid : Option Bytes}
    (h : verifyBmoSigned Γ data owner expectedCt guid = .ok p) :
    ∃ s1 key, ProvisioningVerified Γ data owner expectedCt guid p s1 key := by
  simp only [verifyBmoSigned, Outcome.bind_ok_iff, Outcome.ensure_ok_iff, Outcome.pure_ok_iff] at h
  obtain ⟨s1, hs1, ct, hct, _, rfl, key, hkey, _, hsig, inScope, hscope, _, rfl, rfl⟩ := h
  exact ⟨s1, key,
    { parsed := hs1
      envelope := isCoseSign1_of_parse hs1
      payload := rfl
      contentType := parseProtectedTstr_ok hct
      scope := hscope
      signer := artifactSigner_of_point hkey
      signature := signedFor_of_verify hs1 (by decide) hsig }⟩

/-- A meta-payload that a named publisher or the Owner's authority has signed. -/
theorem metaAuthenticated_of_verify {metaSigner owner : Option Bytes} (hs1 : parseCoseSign1 data = .ok s1)
    (hsigner : (∃ coseKey, metaSigner = some coseKey ∧ parseCoseKeyP256 coseKey = .ok key) ∨
      metaSigner = none ∧ ∃ o, owner = some o ∧ ArtifactSigner Γ o s1.unprotectedHeader key)
    (hsig : verifyEs256 Γ (buildSigStructure s1.protectedHeader (domainAad aadTagMetaPayload fdoVersion200) s1.payload)
      s1.signature key = true) : ∃ s1' key', MetaAuthenticated Γ data metaSigner owner s1.payload s1' key' :=
  ⟨s1, key,
    { parsed := hs1
      envelope := isCoseSign1_of_parse hs1
      payload := rfl
      signer := hsigner
      signature := signedFor_of_verify hs1 (by decide) hsig }⟩

/-- A meta-payload that counts as authenticated is verified by its signer. -/
theorem verifyAndExtractMeta_authenticated {metaSigner owner : Option Bytes} {p : Bytes}
    (h : verifyAndExtractMeta Γ data metaSigner owner = .ok (p, true)) :
    ∃ s1 key, MetaAuthenticated Γ data metaSigner owner p s1 key := by
  unfold verifyAndExtractMeta at h
  cases metaSigner with
  | some coseKey =>
    simp only [Outcome.bind_ok_iff, Outcome.ensure_ok_iff, Outcome.noneAs_ok_iff, Outcome.pure_ok_iff, Prod.mk.injEq,
      and_true] at h
    obtain ⟨_, -, point, hpoint, s1, hs1, _, hver, rfl⟩ := h
    rw [verifySign1, Bool.and_eq_true] at hver
    exact metaAuthenticated_of_verify hs1 (.inl ⟨coseKey, rfl, hpoint⟩) hver.2
  | none =>
    by_cases htag : isCborTag18 data = true
    · cases owner with
      | none => simp [htag] at h
      | some o =>
        simp only [if_pos htag, Outcome.bind_ok_iff, Outcome.noneAs_ok_iff, Outcome.pure_ok_iff, Prod.mk.injEq, and_true] at h
        obtain ⟨inner, hinner, rfl⟩ := h
        simp only [verifyMetaSigned, Outcome.bind_ok_iff, Outcome.ensure_ok_iff, Outcome.pure_ok_iff] at hinner
        obtain ⟨s1, hs1, key, hkey, _, hver, rfl⟩ := hinner
        exact metaAuthenticated_of_verify hs1 (.inr ⟨rfl, o, rfl, artifactSigner_of_point hkey⟩) hver
    · simp [if_neg htag] at h

/-- A meta-payload that does not count as authenticated is unsigned, and no signer was named. -/
theorem verifyAndExtractMeta_unsigned {metaSigner owner : Option Bytes} {p : Bytes}
    (h : verifyAndExtractMeta Γ data metaSigner owner = .ok (p, false)) :
    metaSigner = none ∧ data.head? ≠ some 0xd2 ∧ p = data := by
  unfold verifyAndExtractMeta at h
  cases metaSigner with
  | some coseKey => simp [Outcome.bind_ok_iff, Outcome.pure_ok_iff] at h
  | none =>
    by_cases htag : isCborTag18 data = true
    · cases owner with
      | none => simp [htag] at h
      | some o =>
        simp only [if_pos htag, Outcome.bind_ok_iff, Outcome.pure_ok_iff, Prod.mk.injEq, Bool.false_eq_true, and_false,
          exists_const] at h
    · rw [if_neg htag, Outcome.ok.injEq, Prod.mk.injEq] at h
      refine ⟨rfl, fun hhead => htag ?_, h.1.symm⟩
      rw [isCborTag18, hhead]
      rfl

end Aux

/-- What is returned as authenticated has been signed for its purpose by an authorised signer; what is returned unauthenticated
is data that does not start with tag 18 (`0xd2`), unchanged, and only where no publisher is named. -/
theorem signed_artifacts_verified (Γ : Ctx) (data : Bytes) :
    (∀ owner expectedCt guid p, verifyBmoSigned Γ data owner expectedCt guid = .ok p →
      ∃ s1 key, ProvisioningVerified Γ data owner expectedCt guid p s1 key) ∧
    (∀ metaSigner owner p, verifyAndExtractMeta Γ data metaSigner owner = .ok (p, true) →
      ∃ s1 key, MetaAuthenticated Γ data metaSigner owner p s1 key) ∧
    ∀ metaSigner owner p, verifyAndExtractMeta Γ data metaSigner owner = .ok (p, false) →
      metaSigner = none ∧ data.head? ≠ some 0xd2 ∧ p = data := by
  refine ⟨fun owner expectedCt guid p h => ?_, fun metaSigner owner p h => ?_, fun metaSigner owner p h => ?_⟩
  · exact Aux.verifyBmoSigned_verified h
  · exact Aux.verifyAndExtractMeta_authenticated h
  · exact Aux.verifyAndExtractMeta_unsigned h

/-- A certificate for PERM.7, signed by the Owner. -/
def sampleProvisionCert : Bytes := beBytes 268
  0x308201083081afa003020102020103300a06082a8648ce3d0403023000301e170d3236303130313030303030305a170d3336303130313030303030305a30003059301306072a8648ce3d020106082a8648ce3d030107034200046f4bfae6480cf314cb02e42e83d93f706cf2ed6bc1c8cc376e7354b69669fa5cc46028105ac8fede9b65d0aeb3dbc2b77919e83ac189e12f92483755bcd17caea31a301830160603551d25040f300d060b2b0601040182e51c030107300a06082a8648ce3d0403020348003045022100847c3ff8c71072a4c4989a609c31135202102f29405310115fd0ef24493fffb802200156baaf68384aefe8eea57a125cfcda249a9eafc6ad2d6d650e4a4e63f8efb6

/-- The key in the certificate for PERM.7. -/
def sampleProvisionPoint : Bytes := beBytes 65
  0x046f4bfae6480cf314cb02e42e83d93f706cf2ed6bc1c8cc376e7354b69669fa5cc46028105ac8fede9b65d0aeb3dbc2b77919e83ac189e12f92483755bcd17cae

/-- A begin message `{8: h'aabbcc'}` as a provisioning artifact, signed with that key. -/
def sampleArtifact : Bytes := beBytes 394
  0xd284582aa201260378246170706c69636174696f6e2f63626f722b66646f2e626d6f2e696d6167652d626567696ea118218159010c308201083081afa003020102020103300a06082a8648ce3d0403023000301e170d3236303130313030303030305a170d3336303130313030303030305a30003059301306072a8648ce3d020106082a8648ce3d030107034200046f4bfae6480cf314cb02e42e83d93f706cf2ed6bc1c8cc376e7354b69669fa5cc46028105ac8fede9b65d0aeb3dbc2b77919e83ac189e12f92483755bcd17caea31a301830160603551d25040f300d060b2b0601040182e51c030107300a06082a8648ce3d0403020348003045022100847c3ff8c71072a4c4989a609c31135202102f29405310115fd0ef24493fffb802200156baaf68384aefe8eea57a125cfcda249a9eafc6ad2d6d650e4a4e63f8efb646a10843aabbcc5840d7f127d652f8fb22a2e604a47d375408189c7e33098fc551a4991043f2f828369cee50c009cba736ae82885d86d2a5dd7fbf8750a643cd58664e0e44a1ca34d6

/-- An empty meta-payload, signed by the Owner. -/
def sampleMetaPayload : Bytes := beBytes 75
  0xd28443a10126a041a05840a43ef72a0fa0183e7ad3244ba8d4a531cc595f466dd7de8c8e03d0a8a3d03c8625007719375da2aed14e9f210fb6e47a7b7b4f04dc5daef1eae6990aa85bc1e0

/-- The three signatures are the ones that verify. -/
def sampleArtifactCtx : Ctx :=
  match parseX509Cert sampleProvisionCert, parseCoseSign1 sampleArtifact, parseCoseSign1 sampleMetaPayload with
  | .ok cert, .ok artifact, .ok metaPayload => Ctx.ofTables
      [(cert.tbsRaw, cert.signatureRs, sampleOwnerPoint),
        (buildSigStructure artifact.protectedHeader (domainAad aadTagBmoProvision 200) artifact.payload, artifact.signature,
          sampleProvisionPoint),
        (buildSigStructure metaPayload.protectedHeader (domainAad aadTagMetaPayload 200) metaPayload.payload,
          metaPayload.signature, sampleOwnerPoint)] [] []
  | _, _, _ => Ctx.ofTables [] [] []

/-- The sample artifact and the sample meta-payload are verified. -/
theorem sampleArtifact_verified :
    (∃ s1 key, ProvisioningVerified sampleArtifactCtx sampleArtifact sampleOwnerPoint bmoContentTypeImageBegin none
      [0xa1, 0x08, 0x43, 0xaa, 0xbb, 0xcc] s1 key) ∧
    ∃ s1 key, MetaAuthenticated sampleArtifactCtx sampleMetaPayload none (some sampleOwnerPoint) [0xa0] s1 key := by
  have hbmo : verifyBmoSigned sampleArtifactCtx sampleArtifact sampleOwnerPoint bmoContentTypeImageBegin none =
      .ok [0xa1, 0x08, 0x43, 0xaa, 0xbb, 0xcc] := by decide +kernel
  have hmeta : verifyAndExtractMeta sampleArtifactCtx sampleMetaPayload none (some sampleOwnerPoint) = .ok ([0xa0], true) := by
    decide +kernel
  exact ⟨(signed_artifacts_verified _ _).1 _ _ _ _ hbmo, (signed_artifacts_verified _ _).2.1 _ _ _ hmeta⟩

end FdoUefi
