import FdoUefi.Lemmas.CertCoverage

/-!
# What the signature of a certificate covers

The fields of a TBSCertificate are read with a cursor over the whole certificate, and the lengths inside it are compared with the end of
the certificate. Where every element that is read ends in the TBSCertificate, what is taken from the certificate depends on those bytes
alone (`tbs_covers`); an element that goes on behind them takes in bytes that nobody signed.
-/

namespace FdoUefi

open Prog Prog.Run

/-- The certificates with this TBSCertificate that are accepted give the same key, permissions and constraints. -/
def CoveredBySignature (tbs : Bytes) : Prop :=
  ∀ (der der' : Bytes) (c c' : ParsedCert), parseX509Cert der = .ok c → parseX509Cert der' = .ok c' → c.tbsRaw = tbs → c'.tbsRaw = tbs →
    c.publicKeyPoint = c'.publicKeyPoint ∧ c.hasPermitRedirect = c'.hasPermitRedirect ∧ c.hasPermitProvision = c'.hasPermitProvision ∧
      c.hasPermitOnboard = c'.hasPermitOnboard ∧ c.hasPermitReuseCred = c'.hasPermitReuseCred ∧ c.isCa = c'.isCa ∧
      c.pathLen = c'.pathLen

/-- What stands in `t` from `p` on makes the reader fail, whatever `t` is a part of. -/
def FailsWithin {α : Type} (reader : Bytes → Run Nat Unit α) (t : Bytes) (p : Nat) : Prop :=
  ∀ (der : Bytes) (k : Nat), At der k t → ∃ q, reader der (k + p) = (.err (), q)

/-- The extensions from `p` up to the end `e` of their wrapper, read over `t` alone: they turn `x` into `y`. -/
inductive ExtensionsWithin (t : Bytes) (e : Nat) : Nat → Extensions → Extensions → Prop where
  | done {p : Nat} (x : Extensions) (hp : e ≤ p) : ExtensionsWithin t e p x x
  | stop {p : Nat} (x : Extensions) (hno : FailsWithin readSequenceHeader t p) : ExtensionsWithin t e p x x
  | unnamed {p q s extEnd : Nat} {x y : Extensions} (hp : p < e) (hseq : readSequenceHeader t p = (.ok (s, extEnd), q))
      (hno : FailsWithin readOid t q) (hr : ExtensionsWithin t e extEnd x y) : ExtensionsWithin t e p x y
  | entry {p q r r' s extEnd : Nat} {oid : Bytes} {x y z : Extensions} (hp : p < e)
      (hseq : readSequenceHeader t p = (.ok (s, extEnd), q)) (hoid : readOid t q = (.ok oid, r))
      (hext : readExtension t oid x r = (.ok y, r')) (hr : ExtensionsWithin t e extEnd y z) : ExtensionsWithin t e p x z

/-- What follows the public key from `p` on, read over `t` alone: it gives `y`. -/
inductive TailWithin (t : Bytes) : Nat → Extensions → Prop where
  | done {p : Nat} (hp : t.length ≤ p) : TailWithin t p {}
  | other {p : Nat} (tag : UInt8) (hat : At t p [tag]) (h3 : tag ≠ 0xA3) (h12 : ¬(tag = 0xA1 ∨ tag = 0xA2)) : TailWithin t p {}
  | uniqueId {p q : Nat} {y : Extensions} (tag : UInt8) (hat : At t p [tag]) (h12 : tag = 0xA1 ∨ tag = 0xA2)
      (hskip : skipDerElement t p = (.ok (), q)) (hr : TailWithin t q y) : TailWithin t p y
  | extensions {p q s len : Nat} {r : Nat × Nat} {y : Extensions} (hat : At t p [0xA3]) (hlen : readDerLength t (p + 1) = (.ok len, s))
      (hseq : readSequenceHeader t s = (.ok r, q)) (hext : ExtensionsWithin t (s + len) q {} y) : TailWithin t p y

/-- The elements that are read from a TBSCertificate end in it. -/
def TbsWithin (tbs : Bytes) : Prop :=
  ∃ point q y, readTbsKey tbs oidEcdsaWithSha256 0 = (.ok point, q) ∧ TailWithin tbs q y

namespace Aux

variable {t der : Bytes} {k : Nat}

/-- What fails in the part is missing in the whole. -/
theorem attempt_of_fails {α : Type} {reader : Bytes → Run Nat Unit α} {p : Nat} (hno : FailsWithin reader t p) (hd : At der k t) :
    ∃ q, (attempt (reader der) : Run Nat Unit (Option α)) (k + p) = (.ok none, q) := by
  obtain ⟨q, hq⟩ := hno der k hd
  exact ⟨q, by simp only [attempt, hq]⟩

/-- What is read is there. -/
theorem attempt_of_ok {α : Type} {m : Run Nat Unit α} {p q : Nat} {a : α} (h : m p = (.ok a, q)) :
    (attempt m : Run Nat Unit (Option α)) p = (.ok (some a), q) := by
  simp only [attempt, h]

/-- A turn of the loop that reads a SEQUENCE goes on behind it. -/
theorem extensionLoop_turn {e p q r s extEnd fuel : Nat} {x y : Extensions} {o : Option Bytes} (hp : p < e)
    (hseq : readSequenceHeader der p = (.ok (s, extEnd), q))
    (hoid : (attempt (readOid der) : Run Nat Unit (Option Bytes)) q = (.ok o, r)) {r' : Nat}
    (hy : (match o with
      | some oid => readExtension der oid x
      | none => pure x : Run Nat Unit Extensions) r = (.ok y, r')) :
    extensionLoop der e (fuel + 1) x p = extensionLoop der e fuel y extEnd := by
  have hset : (setS extEnd : Run Nat Unit Unit) r' = (.ok (), extEnd) := rfl
  rw [extensionLoop, bind_of_ok (getS_apply _), if_pos hp, bind_of_ok (attempt_of_ok hseq)]
  cases o with
  | none =>
    exact (bind_of_ok ((bind_of_ok hoid).trans hy)).trans (bind_of_ok hset)
  | some oid =>
    exact (bind_of_ok ((bind_of_ok hoid).trans hy)).trans (bind_of_ok hset)

/-- What the loop over the extensions returns is read from the part alone. -/
theorem extensionLoop_within (hd : At der k t) {e p q fuel : Nat} {x y y' : Extensions} (h : ExtensionsWithin t e p x y)
    (hrun : extensionLoop der (k + e) fuel x (k + p) = (.ok y', q)) : y' = y := by
  induction h generalizing fuel with
  | @done p x hp =>
    cases fuel with
    | zero => cases hrun
    | succ fuel =>
      rw [extensionLoop, bind_of_ok (getS_apply _), if_neg (by omega)] at hrun
      exact (pure_ok_iff.1 hrun).1
  | @stop p x hno =>
    cases fuel with
    | zero => cases hrun
    | succ fuel =>
      rw [extensionLoop, bind_of_ok (getS_apply _)] at hrun
      by_cases hlt : k + p < k + e
      · obtain ⟨r, hattempt⟩ := attempt_of_fails hno hd
        rw [if_pos hlt, bind_of_ok hattempt] at hrun
        exact (pure_ok_iff.1 hrun).1
      · rw [if_neg hlt] at hrun
        exact (pure_ok_iff.1 hrun).1
  | @unnamed p r s extEnd x y hp hseq hno _ ih =>
    cases fuel with
    | zero => cases hrun
    | succ fuel =>
      obtain ⟨r', hattempt⟩ := attempt_of_fails hno hd
      rw [extensionLoop_turn (by omega) (readSequenceHeader_part hd hseq) hattempt rfl] at hrun
      exact ih hrun
  | @entry p r s s' c extEnd oid x y z hp hseq hoid hext _ ih =>
    cases fuel with
    | zero => cases hrun
    | succ fuel =>
      have hattempt := attempt_of_ok ((readTlv_carries hd 0x06).ok hoid)
      rw [extensionLoop_turn (by omega) (readSequenceHeader_part hd hseq) hattempt ((readExtension_carries hd oid x).ok hext)] at hrun
      exact ih hrun

/-- Inside the part the tail goes by the tag that stands there. -/
theorem tbsTailLoop_tag (hd : At der k t) {p fuel : Nat} {tag : UInt8} (hat : At t p [tag]) :
    tbsTailLoop der (k + t.length) (fuel + 1) (k + p) = (if tag = 0xA3 then do
        advance 1
        let len ← readDerLength der
        let start ← getS
        let _ ← readSequenceHeader der
        extensionLoop der (start + len) (der.length + 1) {}
      else if tag = 0xA1 ∨ tag = 0xA2 then do
        skipDerElement der
        tbsTailLoop der (k + t.length) fuel
      else return {} : Run Nat Unit Extensions) (k + p) := by
  have hend := hat.end_le
  rw [List.length_singleton] at hend
  have hbyte : der[k + p]? = some tag := getElem?_eq_some_iff_at.2 (hd.inner hat)
  rw [tbsTailLoop, bind_of_ok (getS_apply _), if_pos (by omega), bind_of_ok (peek_apply der (k + p)), hbyte]

/-- What the tail returns is read from the part alone. -/
theorem tbsTailLoop_within (hd : At der k t) {p q fuel : Nat} {y y' : Extensions} (h : TailWithin t p y)
    (hrun : tbsTailLoop der (k + t.length) fuel (k + p) = (.ok y', q)) : y' = y := by
  induction h generalizing fuel with
  | @done p hp =>
    cases fuel with
    | zero => cases hrun
    | succ fuel =>
      rw [tbsTailLoop, bind_of_ok (getS_apply _), if_neg (by omega)] at hrun
      exact (pure_ok_iff.1 hrun).1
  | @other p tag hat h3 h12 =>
    cases fuel with
    | zero => cases hrun
    | succ fuel =>
      rw [tbsTailLoop_tag hd hat, if_neg h3, if_neg h12] at hrun
      exact (pure_ok_iff.1 hrun).1
  | @uniqueId p r y tag hat h12 hskip _ ih =>
    cases fuel with
    | zero => cases hrun
    | succ fuel =>
      have h3 : tag ≠ 0xA3 := by
        rintro rfl
        exact absurd h12 (by decide)
      rw [tbsTailLoop_tag hd hat, if_neg h3, if_pos h12, bind_of_ok ((skipDerElement_carries hd).ok hskip)] at hrun
      exact ih hrun
  | @extensions p r s len c y hat hlen hseq hext =>
    cases fuel with
    | zero => cases hrun
    | succ fuel =>
      have hlen' := (readDerLength_carries hd).ok hlen
      rw [← Nat.add_assoc] at hlen'
      rw [tbsTailLoop_tag hd hat, if_pos rfl, bind_of_ok (advance_apply 1 (k + p)), bind_of_ok hlen', bind_of_ok (getS_apply _),
        bind_of_ok (readSequenceHeader_part hd hseq), Nat.add_assoc] at hrun
      exact extensionLoop_within hd hext hrun

/-- What is taken from a certificate with this TBSCertificate. -/
theorem parseX509Cert_within {c : ParsedCert} (h : parseX509Cert der = .ok c) {q : Nat} {point : Bytes} {y : Extensions}
    (hkey : readTbsKey c.tbsRaw oidEcdsaWithSha256 0 = (.ok point, q)) (htail : TailWithin c.tbsRaw q y) :
    c.publicKeyPoint = point ∧ c.extensions = y := by
  have hrun : parseX509CertRun der 0 = (.ok c, (parseX509CertRun der 0).2) := eq_of_fst h
  unfold parseX509CertRun at hrun
  obtain ⟨r, p₁, -, r₁⟩ := bind_ok_iff.1 hrun
  obtain ⟨k, p₂, hk, r₂⟩ := bind_ok_iff.1 r₁
  obtain ⟨⟨s, e⟩, p₃, -, r₃⟩ := bind_ok_iff.1 r₂
  obtain ⟨tbs, p₄, hraw, r₄⟩ := bind_ok_iff.1 r₃
  obtain ⟨_, p₅, -, r₅⟩ := bind_ok_iff.1 r₄
  obtain ⟨alg, p₆, -, r₆⟩ := bind_ok_iff.1 r₅
  obtain ⟨_, p₇, hens, r₇⟩ := bind_ok_iff.1 r₆
  obtain ⟨sig, p₈, -, r₈⟩ := bind_ok_iff.1 r₇
  obtain ⟨rs, p₉, -, r₉⟩ := bind_ok_iff.1 r₈
  obtain ⟨_, p₁₀, hset, r₁₀⟩ := bind_ok_iff.1 r₉
  obtain ⟨key, p₁₁, hkey', r₁₁⟩ := bind_ok_iff.1 r₁₀
  obtain ⟨x, p₁₂, htail', hc⟩ := bind_ok_iff.1 r₁₁
  obtain ⟨rfl, -⟩ := ensure_ok_iff.1 hens
  obtain ⟨rfl, -⟩ := pure_ok_iff.1 hc
  obtain ⟨htbs, -⟩ := orFail_ok_iff.1 hraw
  obtain ⟨hd, rfl⟩ := range?_eq_some_iff_at.1 htbs
  obtain rfl : k = p₁₀ := congrArg Prod.snd hset
  have hcarried := (readTbsKey_carries hd oidEcdsaWithSha256).ok hkey
  rw [Nat.add_zero, hkey', Prod.mk.injEq, Outcome.ok.injEq] at hcarried
  obtain ⟨rfl, rfl⟩ := hcarried
  exact ⟨rfl, tbsTailLoop_within hd htail htail'⟩

end Aux

/-- Where the elements that are read end in the TBSCertificate, its bytes alone decide what is taken from the certificate. -/
theorem tbs_covers (tbs : Bytes) (h : TbsWithin tbs) : CoveredBySignature tbs := by
  obtain ⟨point, q, y, hkey, htail⟩ := h
  intro der der' c c' hc hc' htbs htbs'
  obtain ⟨hpoint, hext⟩ := Aux.parseX509Cert_within hc (htbs ▸ hkey) (htbs ▸ htail)
  obtain ⟨hpoint', hext'⟩ := Aux.parseX509Cert_within hc' (htbs' ▸ hkey) (htbs' ▸ htail)
  simp only [ParsedCert.hasPermitRedirect, ParsedCert.hasPermitProvision, ParsedCert.hasPermitOnboard, ParsedCert.hasPermitReuseCred,
    ParsedCert.isCa, ParsedCert.pathLen, hpoint, hpoint', hext, hext', and_self]

/-! ## An extension that goes on behind the TBSCertificate -/

/-- The TBSCertificate of a CA that may onboard devices and allows one intermediate. -/
def coveredTbs : Bytes := beBytes 198
  0x3081c3a003020102020101300a06082a8648ce3d0403023000301e170d3236303130313030303030305a170d3336303130313030303030305a30003059301306072a8648ce3d020106082a8648ce3d0301070342000470f3fbeb50ce8d8ef9af15498fa266d342bef0c4ea21c50c2ae9445ef643193e3313c59f225b3a9e2f83c710e68543e465dc708c3da4b1f5a0b1aee7c5f55f9ea32e302c30160603551d25040f300d060b2b0601040182e51c03010230120603551d130101ff040830060101ff020101

/-- The certificate, signed. -/
def coveredCert : Bytes := beBytes 4 0x3082011d ++ coveredTbs ++ beBytes 87
  0x300a06082a8648ce3d0403020349003046022100c12560f8401b2c3329ec743290a160e5715fd264e73957ab23188918152f2ed6022100db8bedcc2194ac86fd20397590fb92434cafd6b62f17d08b5a1b8c1b6f9c7bab

/-- What the extensions of the sample certificate say. -/
def coveredExtensions : Extensions where
  eku := ⟨false, true, false, false⟩
  ekuValue := [0x30, 0x0d, 0x06, 0x0b] ++ oidPermitOnboardNewcred
  isCa := true
  pathLen := some 1

/-- The sample certificate is covered by its signature. -/
theorem coveredTbs_covered :
    (∃ c, parseX509Cert coveredCert = .ok c ∧ c.tbsRaw = coveredTbs ∧ c.extensions = coveredExtensions) ∧ CoveredBySignature coveredTbs := by
  have haccepted : ∃ c, parseX509Cert coveredCert = .ok c ∧ c.tbsRaw = coveredTbs ∧ c.extensions = coveredExtensions := by
    have hok : Outcome.okWith (fun c => decide (c.tbsRaw = coveredTbs ∧ c.extensions = coveredExtensions)) (parseX509Cert coveredCert) =
        true := by decide +kernel
    obtain ⟨c, hc, hp⟩ := Outcome.okWith_iff.1 hok
    exact ⟨c, hc, of_decide_eq_true hp⟩
  have hkey : readTbsKey coveredTbs oidEcdsaWithSha256 0 = (.ok (coveredTbs.drop 85 |>.take 65), 150) := by decide +kernel
  have hwrapper : At coveredTbs 150 [0xA3] := getElem?_eq_some_iff_at.1 (by decide)
  have hlen : readDerLength coveredTbs 151 = (.ok 46, 152) := by decide
  have hseq : readSequenceHeader coveredTbs 152 = (.ok (154, 198), 154) := by decide +kernel
  have heku : readSequenceHeader coveredTbs 154 = (.ok (156, 178), 156) := by decide +kernel
  have hekuOid : readOid coveredTbs 156 = (.ok oidExtKeyUsage, 161) := by decide +kernel
  have hekuValue : readExtension coveredTbs oidExtKeyUsage {} 161 =
      (.ok { coveredExtensions with isCa := false, pathLen := none }, 178) := by decide +kernel
  have hbc : readSequenceHeader coveredTbs 178 = (.ok (180, 198), 180) := by decide +kernel
  have hbcOid : readOid coveredTbs 180 = (.ok oidBasicConstraints, 185) := by decide +kernel
  have hbcValue : readExtension coveredTbs oidBasicConstraints { coveredExtensions with isCa := false, pathLen := none } 185 =
      (.ok coveredExtensions, 198) := by decide +kernel
  have hexts : ExtensionsWithin coveredTbs (152 + 46) 154 {} coveredExtensions :=
    .entry (by decide) heku hekuOid hekuValue (.entry (by decide) hbc hbcOid hbcValue (.done _ (by decide)))
  exact ⟨haccepted, tbs_covers coveredTbs ⟨_, 150, coveredExtensions, hkey, .extensions hwrapper hlen hseq hexts⟩⟩

/-- A TBSCertificate that ends with the head of the value of an ExtKeyUsage; the value would begin behind it. -/
def overrunTbs : Bytes := beBytes 163
  0x3081a0a003020102020102300a06082a8648ce3d0403023000301e170d3236303130313030303030305a170d3336303130313030303030305a30003059301306072a8648ce3d020106082a8648ce3d0301070342000470f3fbeb50ce8d8ef9af15498fa266d342bef0c4ea21c50c2ae9445ef643193e3313c59f225b3a9e2f83c710e68543e465dc708c3da4b1f5a0b1aee7c5f55f9ea324302230200603551d250419

/-- The algorithm of a signature, ES256, with a permission in the place of its parameters, which nobody looks at. -/
def permitAlgorithm (n : UInt8) : Bytes := [0x30, 0x17, 0x06, 0x08] ++ oidEcdsaWithSha256 ++ [0x06, 0x0b] ++ oidPermit n

/-- The certificate with that algorithm behind its TBSCertificate. The signature is good for any `n`. -/
def overrunCert (n : UInt8) : Bytes := beBytes 4 0x30820106 ++ overrunTbs ++ permitAlgorithm n ++ beBytes 74
  0x034800304502203af58e3d1a5f620a196cda880ec41bc0de4270b504456de68cc79f323217643c022100e323a8414cd54facf2287639ea6f2cc9f54d96b6861475e9fc1e42a1485e2f21

/-- With PERM.1 in the algorithm the certificate may redirect, with PERM.2 it may not. -/
theorem overrunTbs_not_covered : ¬CoveredBySignature overrunTbs := by
  have hone : Outcome.okWith (fun c => decide (c.tbsRaw = overrunTbs ∧ c.hasPermitRedirect = true)) (parseX509Cert (overrunCert 1)) =
      true := by decide +kernel
  have htwo : Outcome.okWith (fun c => decide (c.tbsRaw = overrunTbs ∧ c.hasPermitRedirect = false)) (parseX509Cert (overrunCert 2)) =
      true := by decide +kernel
  obtain ⟨c, hc, hp⟩ := Outcome.okWith_iff.1 hone
  obtain ⟨c', hc', hp'⟩ := Outcome.okWith_iff.1 htwo
  obtain ⟨htbs, hredirect⟩ := of_decide_eq_true hp
  obtain ⟨htbs', hredirect'⟩ := of_decide_eq_true hp'
  intro hcovered
  have heq := (hcovered _ _ c c' hc hc' htbs htbs').2.1
  rw [hredirect, hredirect'] at heq
  cases heq

end FdoUefi
