import FdoUefi.Lemmas.PathLength
import FdoUefi.Theorems.DelegateChain

/-!
# Path length constraints

A path length that `parse_basic_constraints` cannot use counts as no constraint. So the constraints of an accepted chain bind
except for those that are dropped on the way: the integer is unreadable, empty, negative or long, or a later BasicConstraints
of the same certificate replaces the one it is in (`pathLengthsBind_iff`).
-/

namespace FdoUefi

open Prog Prog.Run Cbor

/-- Every path length constraint of an issuing certificate allows the intermediates below it. -/
def PathLengthsBind (certs : List Bytes) : Prop :=
  ∀ j der, 1 ≤ j → certs[j]? = some der → ∀ w ∈ basicConstraintsOf der, (pathLenField w).Allows (j - 1)

/-- A constraint that is dropped and would not allow `n` certificates: it is unreadable or without content, it is negative, it
has more than two bytes, or another BasicConstraints follows. -/
def Overlooked (n : Nat) (ws : List Bytes) : Prop :=
  (∃ w ∈ ws, pathLenField w = .unreadable ∨ ∃ content, pathLenField w = .integer content ∧
      (content = [] ∨ (∃ h t, content = h :: t ∧ 0x80 ≤ h) ∨ 3 ≤ content.length ∧ beNat content < n)) ∨
    ∃ w ∈ ws.dropLast, ∃ content, pathLenField w = .integer content ∧ beNat content < n

namespace Aux

variable {Γ : Ctx} {certs : List Bytes} {o : Bytes} {r : DelegateChainResult} {n : Nat} {w content : Bytes}

/-- An integer is at most what its bytes make without a sign. -/
theorem derIntegerValue_le {v : Int} (h : derIntegerValue content = some v) : v ≤ beNat content := by
  cases content with
  | nil => cases h
  | cons b t =>
    have hv := Option.some.inj h
    have hpow : (0 : Int) ≤ 256 ^ (t.length + 1) := Int.pow_nonneg (by decide)
    by_cases hb : b < 0x80
    · rw [if_pos hb] at hv
      omega
    · rw [if_neg hb] at hv
      omega

/-- An integer with the high bit set is negative. -/
theorem derIntegerValue_neg {b : UInt8} {t : Bytes} {v : Int} (hb : 0x80 ≤ b) (h : derIntegerValue (b :: t) = some v) : v < 0 := by
  have hv := Option.some.inj h
  rw [if_neg (UInt8.not_lt.2 hb)] at hv
  have hlt : beNat (b :: t) < 256 ^ (t.length + 1) := beNat_lt (b :: t)
  have hcast : ((beNat (b :: t) : Nat) : Int) < 256 ^ (t.length + 1) := by exact_mod_cast hlt
  omega

/-- A constraint that allows `n` certificates is not overlooked. -/
theorem not_overlooked {ws : List Bytes} (h : ∀ w ∈ ws, (pathLenField w).Allows n) : ¬Overlooked n ws := by
  rintro (⟨w, hw, hfield | ⟨content, hfield, hdropped⟩⟩ | ⟨w, hw, content, hfield, hlt⟩)
  · have hallows := h w hw
    rw [hfield] at hallows
    exact hallows
  · have hallows := h w hw
    rw [hfield] at hallows
    obtain ⟨v, hv, hle⟩ := hallows
    rcases hdropped with rfl | ⟨b, t, rfl, hb⟩ | ⟨-, hlt⟩
    · cases hv
    · have := derIntegerValue_neg hb hv
      omega
    · have := derIntegerValue_le hv
      omega
  · have hallows := h w (List.dropLast_subset ws hw)
    rw [hfield] at hallows
    obtain ⟨v, hv, hle⟩ := hallows
    have := derIntegerValue_le hv
    omega

/-- A constraint that is not overlooked allows what the path length that is kept of the last one allows. -/
theorem allows_of_not_overlooked {ws : List Bytes} {x : Extensions} (hshows : Shows ws x) (hca : x.isCa = true)
    (hpath : ∀ m, x.pathLen = some m → n ≤ m) (hno : ¬Overlooked n ws) : ∀ w ∈ ws, (pathLenField w).Allows n := by
  intro w hw
  cases hfield : pathLenField w with
  | absent => trivial
  | unreadable => exact absurd (.inl ⟨w, hw, .inl hfield⟩) hno
  | integer content =>
    have hdrop : ∀ {P : Prop}, (content = [] ∨ (∃ h t, content = h :: t ∧ 0x80 ≤ h) ∨ 3 ≤ content.length ∧ beNat content < n) → P :=
      fun hd => absurd (.inl ⟨w, hw, .inr ⟨content, hfield, hd⟩⟩) hno
    cases hcontent : content with
    | nil => exact hdrop (.inl hcontent)
    | cons b t =>
      have hb : b < 0x80 := by
        by_contra hb
        exact hdrop (.inr (.inl ⟨b, t, hcontent, UInt8.not_lt.1 hb⟩))
      refine ⟨beNat (b :: t), by rw [derIntegerValue, if_pos hb], ?_⟩
      by_contra hlt
      have hsmall : beNat content < n := by
        rw [hcontent]
        omega
      have hshort : content.length ≤ 2 := by
        by_contra hlong
        exact hdrop (.inr (.inr ⟨by omega, hsmall⟩))
      -- Only the last of the values is left, and its constraint is kept.
      rcases hshows with ⟨rfl, -, -⟩ | ⟨front, last, rfl, hlast⟩
      · cases hw
      · rcases List.mem_append.1 hw with hfront | hend
        · exact hno (.inr ⟨w, by rwa [List.dropLast_concat], content, hfield, hsmall⟩)
        · obtain rfl := List.mem_singleton.1 hend
          rw [hca] at hlast
          have hkept := kept_of_ca hlast
          rw [hfield, hcontent, PathLenField.kept_cons, if_pos ⟨hcontent ▸ hshort, hb⟩] at hkept
          have := hpath _ hkept
          rw [hcontent] at hsmall
          omega

end Aux

/-- The path length constraints of an accepted chain bind exactly when no issuing certificate has one that is overlooked. -/
theorem pathLengthsBind_iff (Γ : Ctx) (certs : List Bytes) (o : Bytes) (r : DelegateChainResult)
    (h : verifyDelegateChain Γ certs o = .ok r) :
    PathLengthsBind certs ↔ ∀ j der, 1 ≤ j → certs[j]? = some der → ¬Overlooked (j - 1) (basicConstraintsOf der) := by
  obtain ⟨ps, root, leaf, hl, -, -, -, -⟩ := verifyDelegateChain_ok_iff.1 h
  have hlen := Outcome.collect_length hl.parsed
  constructor
  · intro hbind j der hj hder
    exact Aux.not_overlooked (hbind j der hj hder)
  · intro hno j der hj hder
    obtain ⟨i, rfl⟩ : ∃ i, j = i + 1 := ⟨j - 1, by omega⟩
    have hi := (List.getElem?_eq_some_iff.1 hder).1
    obtain ⟨cert, issuer, hissued⟩ := checkIssued_ok_iff.1 (hl.links i (by omega))
    obtain ⟨der', hder', hparse⟩ := (Outcome.collect_getElem? hl.parsed).1 hissued.issuer_at
    obtain rfl : der' = der := Option.some.inj (hder'.symm.trans hder)
    exact Aux.allows_of_not_overlooked (parseX509Cert_shows hparse) hissued.ca hissued.path (hno (i + 1) der' hj hder)

/-! ## A chain whose constraints bind -/

/-- A CA certificate with the path length constraint 1, signed by the Owner. -/
def sampleBoundRootCert : Bytes := beBytes 285
  0x308201193081c0a003020102020101300a06082a8648ce3d0403023000301e170d3236303130313030303030305a170d3336303130313030303030305a30003059301306072a8648ce3d020106082a8648ce3d030107034200049cb9bb1c7e3605f014d1977774be43590240c0d93a194616387a4774f41c508c89074b79456207d78cfe2113feee3dd9051d592635e9bdd46ec9955a76467e6ca32b302930160603551d25040f300d060b2b0601040182e51c030102300f0603551d13040830060101ff020101300a06082a8648ce3d040302034800304502204e75b05d78f23bbf975b64145c6af731c142d1efdac074ac519788814d6d5154022100a4b1e1ce31dabb28dff6d218f39bb9829a633d798e40c55b3548ec64665b26b0

/-- A CA certificate with the path length constraint 0, below it. -/
def samplePathMiddleCert : Bytes := beBytes 285
  0x308201193081c0a003020102020102300a06082a8648ce3d0403023000301e170d3236303130313030303030305a170d3336303130313030303030305a30003059301306072a8648ce3d020106082a8648ce3d0301070342000444665d37f683bc04265500136695d0219f00399a0d5542cb0aa59cda7a07c0ad15ea453e5ce2b016f15266347864b7a03ba3e3e6c9d73cdbdca69981f4b08eefa32b302930160603551d25040f300d060b2b0601040182e51c030102300f0603551d13040830060101ff020100300a06082a8648ce3d0403020348003045022100ad089766427c85c8a114f9fea68d50081a68418304475eef36831f3634ae1d660220291d73112477cf45081da54efcbfebeab3d3cfc7b83e55575e812045160e70c5

def samplePathLeafCert : Bytes := beBytes 268
  0x308201083081afa003020102020103300a06082a8648ce3d0403023000301e170d3236303130313030303030305a170d3336303130313030303030305a30003059301306072a8648ce3d020106082a8648ce3d03010703420004cd9b1c532349dfafbfe35992d2cacd4e542fe4639eb53e9ddd9d01df000f5560d2485af7f8080349bee2b547e545965fd39a82858369a28acdf7a70c0a3bfe1aa31a301830160603551d25040f300d060b2b0601040182e51c030102300a06082a8648ce3d0403020348003045022100c2d1ddfc6bcaed6ef2d190039c724d0f9933c2fdcc34974d13ff297cb6d8f16202200b22020f1de330811d95a86384d19a3379b86ac4e1cd03366efce90fb54bea90

/-- The signatures of the three certificates are the ones that verify. -/
def sampleBoundCtx : Ctx :=
  match parseX509Cert sampleBoundRootCert, parseX509Cert samplePathMiddleCert, parseX509Cert samplePathLeafCert with
  | .ok root, .ok middle, .ok leaf => Ctx.ofTables
      [(root.tbsRaw, root.signatureRs, sampleOwnerPoint), (middle.tbsRaw, middle.signatureRs, root.publicKeyPoint),
        (leaf.tbsRaw, leaf.signatureRs, middle.publicKeyPoint)] [] []
  | _, _, _ => Ctx.ofTables [] [] []

/-- The leaf below two CAs, each of which allows just the certificates below it. -/
def sampleBoundChain : List Bytes := [samplePathLeafCert, samplePathMiddleCert, sampleBoundRootCert]

/-- The chain is accepted, and the constraints 0 and 1 of its two CAs bind. -/
theorem sampleBoundChain_pathLengthsBind :
    (∃ r, verifyDelegateChain sampleBoundCtx sampleBoundChain sampleOwnerPoint = .ok r) ∧ PathLengthsBind sampleBoundChain := by
  obtain ⟨r, hr, -⟩ : ∃ r, verifyDelegateChain sampleBoundCtx sampleBoundChain sampleOwnerPoint = .ok r ∧ r.hasOnboard = true := by
    refine Outcome.okWith_iff.1 ?_
    decide +kernel
  refine ⟨⟨r, hr⟩, (pathLengthsBind_iff sampleBoundCtx sampleBoundChain sampleOwnerPoint r hr).2 ?_⟩
  intro j der hj hder
  have hmiddle : basicConstraintsOf samplePathMiddleCert = [[0x30, 0x06, 0x01, 0x01, 0xff, 0x02, 0x01, 0x00]] := by decide +kernel
  have hroot : basicConstraintsOf sampleBoundRootCert = [[0x30, 0x06, 0x01, 0x01, 0xff, 0x02, 0x01, 0x01]] := by decide +kernel
  have hzero : pathLenField [0x30, 0x06, 0x01, 0x01, 0xff, 0x02, 0x01, 0x00] = .integer [0x00] := by decide
  have hone : pathLenField [0x30, 0x06, 0x01, 0x01, 0xff, 0x02, 0x01, 0x01] = .integer [0x01] := by decide
  obtain ⟨hlt, -⟩ := List.getElem?_eq_some_iff.1 hder
  have hlen : sampleBoundChain.length = 3 := rfl
  apply Aux.not_overlooked
  intro w hw
  obtain rfl | rfl : j = 1 ∨ j = 2 := by omega
  · -- No certificate stands between the middle CA and the leaf.
    obtain rfl : samplePathMiddleCert = der := Option.some.inj hder
    rw [hmiddle, List.mem_singleton] at hw
    rw [hw, hzero]
    exact ⟨0, rfl, Int.le_refl _⟩
  · -- One stands between the upper CA and the leaf, which is what it allows.
    obtain rfl : sampleBoundRootCert = der := Option.some.inj hder
    rw [hroot, List.mem_singleton] at hw
    rw [hw, hone]
    exact ⟨1, rfl, Int.le_refl _⟩

/-! ## A negative constraint -/

/-- A CA certificate with the path length constraint -1, signed by the Owner. -/
def samplePathRootCert : Bytes := beBytes 284
  0x308201183081c0a003020102020101300a06082a8648ce3d0403023000301e170d3236303130313030303030305a170d3336303130313030303030305a30003059301306072a8648ce3d020106082a8648ce3d030107034200049cb9bb1c7e3605f014d1977774be43590240c0d93a194616387a4774f41c508c89074b79456207d78cfe2113feee3dd9051d592635e9bdd46ec9955a76467e6ca32b302930160603551d25040f300d060b2b0601040182e51c030102300f0603551d13040830060101ff0201ff300a06082a8648ce3d0403020347003044022021695c46a65ec4c0c1f173ffa6e8184bd99273a36a7a871ae17998c2d92413c902206ffb371e5a3778630c36eebc7218b4667f26891426fa73dc4e035c12fefd5c36

/-- The signatures of the three certificates are the ones that verify. -/
def samplePathCtx : Ctx :=
  match parseX509Cert samplePathRootCert, parseX509Cert samplePathMiddleCert, parseX509Cert samplePathLeafCert with
  | .ok root, .ok middle, .ok leaf => Ctx.ofTables
      [(root.tbsRaw, root.signatureRs, sampleOwnerPoint), (middle.tbsRaw, middle.signatureRs, root.publicKeyPoint),
        (leaf.tbsRaw, leaf.signatureRs, middle.publicKeyPoint)] [] []
  | _, _, _ => Ctx.ofTables [] [] []

/-- The leaf below two CAs, the upper one of which allows less than nothing below it. -/
def samplePathChain : List Bytes := [samplePathLeafCert, samplePathMiddleCert, samplePathRootCert]

/-- The chain is accepted. -/
theorem samplePathChain_not_bound :
    (∃ r, verifyDelegateChain samplePathCtx samplePathChain sampleOwnerPoint = .ok r) ∧ ¬PathLengthsBind samplePathChain := by
  constructor
  · obtain ⟨r, hr, -⟩ : ∃ r, verifyDelegateChain samplePathCtx samplePathChain sampleOwnerPoint = .ok r ∧ r.hasOnboard = true := by
      refine Outcome.okWith_iff.1 ?_
      decide +kernel
    exact ⟨r, hr⟩
  · intro hbind
    have hvalues : basicConstraintsOf samplePathRootCert = [[0x30, 0x06, 0x01, 0x01, 0xff, 0x02, 0x01, 0xff]] := by decide +kernel
    have hallows := hbind 2 samplePathRootCert (by decide) rfl _ (hvalues ▸ List.mem_singleton_self _)
    have hfield : pathLenField [0x30, 0x06, 0x01, 0x01, 0xff, 0x02, 0x01, 0xff] = .integer [0xff] := by decide
    rw [hfield] at hallows
    obtain ⟨v, hv, hle⟩ := hallows
    have := Aux.derIntegerValue_neg (by decide) hv
    omega

end FdoUefi
