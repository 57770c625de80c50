import FdoUefi.Lemmas.Voucher

/-!
# Ownership vouchers

Verification is sound and complete (`verifyVoucher_iff`): the Owner key is the end of a sequence of keys that leads from the
manufacturer key through every entry. An accepted list of entries is determined by its last entry
(`verifyVoucher_unique`).
-/

namespace FdoUefi

open Prog Prog.Run Cbor

/-- A voucher is accepted with Owner key `k` exactly when its header is this device's and a sequence of keys leads from the
manufacturer key through the entries to `k`. `hasDelegateHeader` is the code's own scan of the unprotected header: it ends at the
first label that is no integer and at the first item it cannot skip, and does not see a delegate key or a chain behind that. -/
theorem verifyVoucher_iff (Γ : Ctx) (hdr hmacRaw hmacValue : Bytes) (handle : Nat) (guid : Bytes) (entries : List Bytes)
    (k : Bytes) :
    verifyVoucher Γ hdr hmacRaw hmacValue handle guid entries = .ok k ↔
      ∃ header, parseOvHeader Γ hdr = .ok header ∧ header.guid = guid ∧ Γ.tpmHmac handle hdr = some hmacValue ∧
        ∃ ks : List Bytes, ks.length = entries.length + 1 ∧ ks[0]? = some header.mfgKeyPoint ∧
          ks[entries.length]? = some k ∧
          ∀ i prev entry, ((hdr ++ hmacRaw) :: entries)[i]? = some prev → entries[i]? = some entry →
            ∃ key next s1 payload, ks[i]? = some key ∧ ks[i + 1]? = some next ∧
              parseCoseSign1 entry = .ok s1 ∧ hasDelegateHeader s1.unprotectedHeader = .ok false ∧
              verifySign1 Γ s1 (domainAad aadTagOvEntry header.protver) key = true ∧
              parseOvEntryPayload Γ s1.payload = .ok payload ∧
              payload.hashPrevAlg = hashAlgSha256 ∧ payload.hashHdrAlg = hashAlgSha256 ∧
              payload.hashHdr = Γ.sha256 (header.guid ++ header.deviceInfo) ∧
              payload.hashPrev = Γ.sha256 prev ∧ payload.pubKeyPoint = next := by
  rw [verifyVoucher_ok_iff]
  refine exists_congr fun header => and_congr_right fun _ => and_congr_right fun _ => and_congr_right fun _ => ?_
  rw [verifyEntries_ok_iff]
  refine exists_congr fun ks => ?_
  constructor
  · rintro ⟨hl, h0, ht, hs⟩
    refine ⟨hl, h0, ht, fun i prev entry hp he => ?_⟩
    obtain ⟨key, next, hk, hn, s1, payload, h⟩ := hs i prev entry hp he
    exact ⟨key, next, s1, payload, hk, hn, h⟩
  · rintro ⟨hl, h0, ht, hs⟩
    refine ⟨hl, h0, ht, fun i prev entry hp he => ?_⟩
    obtain ⟨key, next, s1, payload, hk, hn, h⟩ := hs i prev entry hp he
    exact ⟨key, next, hk, hn, s1, payload, h⟩

/-- Entries cannot be reordered, inserted or dropped from the middle: where the hash has no collision among the byte strings
involved, two accepted lists of entries with the same last entry are equal, and so are the Owner keys. What can be done is to
drop entries from the end: every prefix of an accepted list is accepted. -/
theorem verifyVoucher_unique (Γ : Ctx) (hdr hmacRaw : Bytes) (handle : Nat) (guid : Bytes) :
    (∀ v v' es es' k k',
      (∀ x ∈ (hdr ++ hmacRaw) :: es, ∀ y ∈ (hdr ++ hmacRaw) :: es', Γ.sha256 x = Γ.sha256 y → x = y) →
      verifyVoucher Γ hdr hmacRaw v handle guid es = .ok k → verifyVoucher Γ hdr hmacRaw v' handle guid es' = .ok k' →
      es.getLast? = es'.getLast? → es = es' ∧ k = k') ∧
    (∀ v es k p, verifyVoucher Γ hdr hmacRaw v handle guid es = .ok k → p <+: es →
      ∃ k', verifyVoucher Γ hdr hmacRaw v handle guid p = .ok k') := by
  refine ⟨?_, ?_⟩
  · intro v v' es es' k k' hcf h h' hlast
    obtain ⟨header, hh, -, -, hes⟩ := verifyVoucher_ok_iff.1 h
    obtain ⟨header', hh', -, -, hes'⟩ := verifyVoucher_ok_iff.1 h'
    rw [hh, Outcome.ok.injEq] at hh'
    subst hh'
    have hfirst : ∀ {l : List Bytes}, (∀ e ∈ l, ∃ s1, parseCoseSign1 e = .ok s1) → hdr ++ hmacRaw ∉ l := by
      intro l hl hmem
      obtain ⟨s1, hs1⟩ := hl _ hmem
      exact ovHeader_append_not_sign1 hh hs1
    have heq : es = es' :=
      eq_of_isChain_of_getLast? (fun x hx y hy z hxz hyz => hcf x hx y hy (hxz.sha256_eq hyz))
        (hfirst (verifyEntries_sign1 hes)) (hfirst (verifyEntries_sign1 hes'))
        (verifyEntries_isChain hes) (verifyEntries_isChain hes') hlast
    subst heq
    rw [hes, Outcome.ok.injEq] at hes'
    exact ⟨rfl, hes'⟩
  · rintro v es k p h ⟨q, rfl⟩
    obtain ⟨header, hh, hg, hm, hes⟩ := verifyVoucher_ok_iff.1 h
    obtain ⟨k', hk'⟩ := verifyEntries_prefix hes
    exact ⟨k', verifyVoucher_ok_iff.2 ⟨header, hh, hg, hm, hk'⟩⟩

/-! ## A voucher with two entries -/

/-- A device GUID. -/
def sampleGuid : Bytes := beBytes 16
  0x000102030405060708090a0b0c0d0e0f

/-- A voucher header for that device, FDO 2.0. -/
def sampleOvHeader : Bytes := beBytes 122
  0x8618c850000102030405060708090a0b0c0d0e0f8063646576830a01585b3059301306072a8648ce3d020106082a8648ce3d030107034200045593bf725a1ff60b77df476a04d440e99e3f91c89bd3e771f79d06e1ccab039297532db0b833ffd7267a997aa926b251f70e98f0f47a1d1e91b4bbaff235165df6

/-- The HMAC of the header under the device's secret. -/
def sampleHmac : Bytes := beBytes 32
  0x3e1e6c91e90f04d367c17381e527e5a0eea587630d72733c203453633412216f

/-- The HMac structure with the HMAC of the header. -/
def sampleHmacRaw : Bytes := beBytes 36
  0x820558203e1e6c91e90f04d367c17381e527e5a0eea587630d72733c203453633412216f

/-- The first entry, signed by the manufacturer. -/
def sampleEntry0 : Bytes := beBytes 245
  0xd28443a10126a058aa84822f58204d020433bfefa8e57358f6f365c586b04332e4b9bc483347ebc00db1a5814fcc822f5820eefc2964855234ad0e17e2042ccf03601f1a02600eb6b4970c64f0a28a75b4d8f6830a01585b3059301306072a8648ce3d020106082a8648ce3d03010703420004dee3428ca227e6b7f22fd74420ea38f644ba0f6011d1f1f74218f525fc2e7673e544bd2a589e7b8d0659f6430210c91e785f99c09b16b5088ba7377bf1547704584035c571c8dc8724364d845b9fc1ba53273903319cfab4e13d3b8a60ebe120f23b9fdc7550b9b9c1ada521a0e101ef5c67dedc4f22a4ab0e4e8d6ecf6dbef8d81f

/-- The second entry, signed by the key in the first. -/
def sampleEntry1 : Bytes := beBytes 245
  0xd28443a10126a058aa84822f5820f7ee030380ee3aa7dcffc9b5668bd87605427e1015ec99fd0022fb7e0b7b4e0b822f5820eefc2964855234ad0e17e2042ccf03601f1a02600eb6b4970c64f0a28a75b4d8f6830a01585b3059301306072a8648ce3d020106082a8648ce3d03010703420004259d52200d4b49bf9a390b32fbd2ac71ede884eec1b6dd0cb6aaca6c9c379c175fba205c7befb013763b096a91bb676b76de88c04bd7817b0d9093b8a5b245425840ddc8d5b5b5de22155d6dc76f8ab89942cfcc7d0ea58c1895ff07fcc7ba28054696b0ffb5968b385390351d7a7e7f8add3298a205430b7bd017bf1abb604baf44

def sampleMfgPoint : Bytes := beBytes 65
  0x045593bf725a1ff60b77df476a04d440e99e3f91c89bd3e771f79d06e1ccab039297532db0b833ffd7267a997aa926b251f70e98f0f47a1d1e91b4bbaff235165d

def sampleOwner1Point : Bytes := beBytes 65
  0x04dee3428ca227e6b7f22fd74420ea38f644ba0f6011d1f1f74218f525fc2e7673e544bd2a589e7b8d0659f6430210c91e785f99c09b16b5088ba7377bf1547704

def sampleOwner2Point : Bytes := beBytes 65
  0x04259d52200d4b49bf9a390b32fbd2ac71ede884eec1b6dd0cb6aaca6c9c379c175fba205c7befb013763b096a91bb676b76de88c04bd7817b0d9093b8a5b24542

/-- The message and the signature of an envelope, under the AAD of a voucher entry. -/
def entrySignature (entry point : Bytes) : List (Bytes × Bytes × Bytes) :=
  match parseCoseSign1 entry with
  | .ok s1 => [(buildSigStructure s1.protectedHeader (domainAad aadTagOvEntry 200) s1.payload, s1.signature, point)]
  | _ => []

/-- The signatures and digests of the voucher, and the HMAC of its header. -/
def sampleVoucherCtx : Ctx :=
  Ctx.ofTables (entrySignature sampleEntry0 sampleMfgPoint ++ entrySignature sampleEntry1 sampleOwner1Point)
    [(sampleOvHeader ++ sampleHmacRaw,
        beBytes 32 0x4d020433bfefa8e57358f6f365c586b04332e4b9bc483347ebc00db1a5814fcc),
      (sampleGuid ++ utf8 "dev",
        beBytes 32 0xeefc2964855234ad0e17e2042ccf03601f1a02600eb6b4970c64f0a28a75b4d8),
      (sampleEntry0,
        beBytes 32 0xf7ee030380ee3aa7dcffc9b5668bd87605427e1015ec99fd0022fb7e0b7b4e0b),
      (sampleEntry1,
        beBytes 32 0xc85b164fb5db8c13b2a2d228695dea6f48fb3df2231447623d780cd9aacef7a3)]
    [((0x81000001, sampleOvHeader), sampleHmac)]

/-- The sample voucher is accepted with its last key. -/
theorem sampleVoucher_accepted :
    verifyVoucher sampleVoucherCtx sampleOvHeader sampleHmacRaw sampleHmac 0x81000001 sampleGuid
      [sampleEntry0, sampleEntry1] = .ok sampleOwner2Point := by
  decide +kernel

/-- No two of the byte strings of the voucher have the same digest. -/
theorem sampleVoucher_collisionFree :
    ∀ x ∈ (sampleOvHeader ++ sampleHmacRaw) :: [sampleEntry0, sampleEntry1],
      ∀ y ∈ (sampleOvHeader ++ sampleHmacRaw) :: [sampleEntry0, sampleEntry1],
        sampleVoucherCtx.sha256 x = sampleVoucherCtx.sha256 y → x = y := by
  decide +kernel

/-- The two entries are accepted, and no list that drops the first of them or has the second one in front as well. Without its
last entry the voucher is accepted, too. -/
theorem sampleVoucher_prefix_accepted :
    (verifyVoucher sampleVoucherCtx sampleOvHeader sampleHmacRaw sampleHmac 0x81000001 sampleGuid
        [sampleEntry0, sampleEntry1] = .ok sampleOwner2Point ∧
      ∀ es' ∈ [[sampleEntry1], [sampleEntry1, sampleEntry0, sampleEntry1]], ∀ k',
        verifyVoucher sampleVoucherCtx sampleOvHeader sampleHmacRaw sampleHmac 0x81000001 sampleGuid es' ≠ .ok k') ∧
    ∃ k, verifyVoucher sampleVoucherCtx sampleOvHeader sampleHmacRaw sampleHmac 0x81000001 sampleGuid [sampleEntry0] =
      .ok k := by
  have h := verifyVoucher_unique sampleVoucherCtx sampleOvHeader sampleHmacRaw 0x81000001 sampleGuid
  refine ⟨⟨sampleVoucher_accepted, fun es' hes' k' haccepted => ?_⟩,
    h.2 _ _ _ [sampleEntry0] sampleVoucher_accepted ⟨[sampleEntry1], rfl⟩⟩
  have hlist : es' = [sampleEntry1] ∨ es' = [sampleEntry1, sampleEntry0, sampleEntry1] := by simpa using hes'
  have hsub : ∀ x ∈ es', x ∈ [sampleEntry0, sampleEntry1] := by
    rcases hlist with rfl | rfl <;> simp
  have hlast : [sampleEntry0, sampleEntry1].getLast? = es'.getLast? := by
    rcases hlist with rfl | rfl <;> rfl
  have hfree : ∀ x ∈ (sampleOvHeader ++ sampleHmacRaw) :: [sampleEntry0, sampleEntry1],
      ∀ y ∈ (sampleOvHeader ++ sampleHmacRaw) :: es', sampleVoucherCtx.sha256 x = sampleVoucherCtx.sha256 y → x = y := by
    intro x hx y hy
    refine sampleVoucher_collisionFree x hx y ?_
    rcases List.mem_cons.1 hy with rfl | hy
    · exact List.mem_cons_self
    · exact List.mem_cons_of_mem _ (hsub y hy)
  have hsame := (h.1 _ _ _ _ _ _ hfree sampleVoucher_accepted haccepted hlast).1
  have hlen := congrArg List.length hsame
  rcases hlist with rfl | rfl
  · simp at hlen
  · simp at hlen

end FdoUefi
