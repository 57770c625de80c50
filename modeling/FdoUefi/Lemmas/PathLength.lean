import FdoUefi.Lemmas.Delegate

/-!
# The path length constraints of a certificate

`parse_x509_cert` keeps of each BasicConstraints whether the certificate is a CA and its path length. Here the values of the
extensions are read with the same readers at the same places (`basicConstraintsOf`), so that what was kept can be compared with
what was there (`parseX509Cert_shows`, `keptPathLen_of_ok`).
-/

namespace FdoUefi

open Prog Prog.Run Cbor

/-! ## The constraints of a certificate -/

/-- `pathLenConstraint` in a BasicConstraints value, as `read_der_integer` finds it. -/
inductive PathLenField where
  | absent
  | unreadable
  | integer (content : Bytes)
  deriving DecidableEq, Repr

/-- The constraint behind the flag of a CA. -/
def readPathLenField (d : Bytes) (seqEnd : Nat) : Run Nat Unit PathLenField := do
  let pos ← getS
  let b ← peek d
  if pos < seqEnd ∧ b = some 0x02 then
    match ← attempt (readDerInteger d) with
    | some content => return .integer content
    | none => return .unreadable
  else return .absent

/-- The constraint in a BasicConstraints value, where `parse_basic_constraints` looks for it. -/
def pathLenField (d : Bytes) : PathLenField :=
  ((do
    let (_, seqEnd) ← readSequenceHeader d
    let _ ← readCaFlag d seqEnd
    readPathLenField d seqEnd : Run Nat Unit PathLenField).eval.toOption).getD .absent

/-- The value of the content of an INTEGER, in two's complement. An INTEGER without content has none. -/
def derIntegerValue : Bytes → Option Int
  | [] => none
  | h :: t => some (if h < 0x80 then beNat (h :: t) else beNat (h :: t) - 256 ^ (t.length + 1))

/-- The constraint, if there is one, has a value and allows `n` certificates. -/
def PathLenField.Allows (n : Nat) : PathLenField → Prop
  | .absent => True
  | .unreadable => False
  | .integer content => ∃ v, derIntegerValue content = some v ∧ (n : Int) ≤ v

/-- The value of an extension with the OID `oid`, when it is a BasicConstraints. -/
def readBasicConstraints (der oid : Bytes) : Run Nat Unit (List Bytes) :=
  if oid = oidExtKeyUsage ∨ oid = oidBasicConstraints then do
    let b ← peek der
    onlyIf (b = some 0x01) (skipDerElement der)
    let wrapper ← readOctetString der
    if oid = oidExtKeyUsage then return [] else return [wrapper]
  else pure []

/-- The values of the BasicConstraints that the loop over the extensions comes to. -/
def basicConstraintsLoop (der : Bytes) (wrapperEnd : Nat) : Nat → Run Nat Unit (List Bytes)
  | 0 => hangs
  | fuel + 1 => do
    let pos ← getS
    if pos < wrapperEnd then
      match ← attempt (readSequenceHeader der) with
      | none => return []
      | some (_, extEnd) =>
        let found ← (do
          match ← attempt (readOid der) with
          | some oid => readBasicConstraints der oid
          | none => return [])
        setS extEnd
        let rest ← basicConstraintsLoop der wrapperEnd fuel
        return found ++ rest
    else return []

def basicConstraintsTail (der : Bytes) (tbsEnd : Nat) : Nat → Run Nat Unit (List Bytes)
  | 0 => hangs
  | fuel + 1 => do
    let pos ← getS
    if pos < tbsEnd then
      match ← peek der with
      | none => fail ()
      | some tag =>
        if tag = 0xA3 then
          advance 1
          let len ← readDerLength der
          let start ← getS
          let _ ← readSequenceHeader der
          basicConstraintsLoop der (start + len) (der.length + 1)
        else if tag = 0xA1 ∨ tag = 0xA2 then
          skipDerElement der
          basicConstraintsTail der tbsEnd fuel
        else return []
    else return []

/-- The values of the BasicConstraints of a certificate, in their order. -/
def basicConstraintsOf (der : Bytes) : List Bytes :=
  ((do
    let _ ← readSequenceHeader der
    let tbsStart ← getS
    let (_, tbsEnd) ← readSequenceHeader der
    setS tbsStart
    let _ ← readTbsKey der oidEcdsaWithSha256
    basicConstraintsTail der tbsEnd (der.length + 1) : Run Nat Unit (List Bytes)).eval.toOption).getD []

/-! ## What is kept of them -/

/-- What `parse_basic_constraints` keeps of a constraint. -/
def PathLenField.kept : PathLenField → Option Nat
  | .integer (h :: t) => if (h :: t).length ≤ 2 ∧ h < 0x80 then some (beNat (h :: t)) else none
  | _ => none

/-- A path length is kept if it has at most two bytes and is not negative. -/
theorem PathLenField.kept_cons (h : UInt8) (t : Bytes) :
    (PathLenField.integer (h :: t)).kept = if (h :: t).length ≤ 2 ∧ h < 0x80 then some (beNat (h :: t)) else none := rfl

/-- The last of the values is the one the extensions were taken from. -/
def Shows (ws : List Bytes) (x : Extensions) : Prop :=
  ws = [] ∧ x.isCa = false ∧ x.pathLen = none ∨
    ∃ front w, ws = front ++ [w] ∧ parseBasicConstraints w = .ok (x.isCa, x.pathLen)

variable {d der oid : Bytes} {x y : Extensions} {p q : Nat}

/-- The path length that was read is what is kept of the constraint. -/
theorem readPathLen_ok {seqEnd : Nat} {pathLen : Option Nat} (h : readPathLen d seqEnd p = (.ok pathLen, q)) :
    ∃ field, readPathLenField d seqEnd p = (.ok field, q) ∧ pathLen = field.kept := by
  rw [readPathLen, bind_of_ok (getS_apply p), bind_of_ok (peek_apply d p)] at h
  rw [readPathLenField, bind_of_ok (getS_apply p), bind_of_ok (peek_apply d p)]
  by_cases hthere : p < seqEnd ∧ d[p]? = some 0x02
  · rw [if_pos hthere] at h ⊢
    obtain ⟨o, r, ho, hres⟩ := bind_ok_iff.1 h
    rw [bind_of_ok ho]
    cases o with
    | none =>
      obtain ⟨rfl, rfl⟩ := pure_ok_iff.1 hres
      exact ⟨.unreadable, rfl, rfl⟩
    | some content =>
      refine ⟨.integer content, ?_, ?_⟩
      · cases content with
        | nil =>
          obtain ⟨-, rfl⟩ := pure_ok_iff.1 hres
          rfl
        | cons h t =>
          dsimp only at hres
          split_ifs at hres <;> obtain ⟨-, rfl⟩ := pure_ok_iff.1 hres <;> rfl
      · cases content with
        | nil => exact (pure_ok_iff.1 hres).1
        | cons h t =>
          rw [PathLenField.kept_cons]
          dsimp only at hres
          split_ifs at hres ⊢ <;> exact (pure_ok_iff.1 hres).1
  · rw [if_neg hthere] at h ⊢
    obtain ⟨rfl, rfl⟩ := pure_ok_iff.1 h
    exact ⟨.absent, rfl, rfl⟩

/-- Of a CA, the path length is what is kept of its constraint. -/
theorem kept_of_ca {pathLen : Option Nat} (h : parseBasicConstraints d = .ok (true, pathLen)) : pathLen = (pathLenField d).kept := by
  unfold parseBasicConstraints Run.eval at h
  rcases otherwise_ok_iff.1 (eq_of_fst h) with hread | ⟨hno, -⟩
  · obtain ⟨header, p₁, hheader, hread⟩ := bind_ok_iff.1 hread
    obtain ⟨isCa, p₂, hca, hread⟩ := bind_ok_iff.1 hread
    obtain ⟨pl, p₃, hpl, hread⟩ := bind_ok_iff.1 hread
    obtain ⟨field, hfield, hkept⟩ := readPathLen_ok hpl
    have hof : pathLenField d = field := by
      unfold pathLenField Run.eval
      rw [bind_of_ok hheader]
      change (((readCaFlag d header.2 >>= fun _ => readPathLenField d header.2 : Run Nat Unit PathLenField) p₁).1.toOption).getD
        .absent = field
      rw [bind_of_ok hca, hfield]
      rfl
    rw [hof, ← hkept]
    exact congrArg Prod.snd (pure_ok_iff.1 hread).1
  · cases hno

/-- An extension shows the constraint that it is. -/
theorem readExtension_shows (h : readExtension der oid x p = (.ok y, q)) :
    ∃ ws, readBasicConstraints der oid p = (.ok ws, q) ∧ ∀ front, Shows front x → Shows (front ++ ws) y := by
  unfold readExtension at h
  unfold readBasicConstraints
  by_cases hoid : oid = oidExtKeyUsage ∨ oid = oidBasicConstraints
  · rw [if_pos hoid] at h ⊢
    simp only [bind_ok_iff] at h
    obtain ⟨b, _, hpeek, _, r, hcritical, w, r', hw, h⟩ := h
    rw [bind_of_ok hpeek, bind_of_ok hcritical, bind_of_ok hw]
    by_cases heku : oid = oidExtKeyUsage
    · rw [if_pos heku] at h ⊢
      obtain ⟨eku, r'', hflags, hdone⟩ := bind_ok_iff.1 h
      obtain ⟨-, rfl⟩ := ofOutcome_ok_iff.1 hflags
      obtain ⟨rfl, rfl⟩ := pure_ok_iff.1 hdone
      refine ⟨[], rfl, ?_⟩
      intro front hfront
      rw [List.append_nil]
      exact hfront
    · rw [if_neg heku] at h ⊢
      obtain ⟨⟨isCa, pathLen⟩, r'', hparse, hdone⟩ := bind_ok_iff.1 h
      obtain ⟨hbasic, rfl⟩ := ofOutcome_ok_iff.1 hparse
      obtain ⟨rfl, rfl⟩ := pure_ok_iff.1 hdone
      exact ⟨[w], rfl, fun front _ => .inr ⟨front, w, rfl, hbasic⟩⟩
  · rw [if_neg hoid] at h ⊢
    obtain ⟨rfl, rfl⟩ := pure_ok_iff.1 h
    refine ⟨[], rfl, ?_⟩
    intro front hfront
    rw [List.append_nil]
    exact hfront

/-- The extensions show those among them. -/
theorem extensionLoop_shows {wrapperEnd fuel : Nat} (h : extensionLoop der wrapperEnd fuel x p = (.ok y, q)) :
    ∃ ws, basicConstraintsLoop der wrapperEnd fuel p = (.ok ws, q) ∧ ∀ front, Shows front x → Shows (front ++ ws) y := by
  induction fuel generalizing p x with
  | zero => simp [extensionLoop] at h
  | succ fuel ih =>
    rw [extensionLoop, bind_of_ok (getS_apply p)] at h
    rw [basicConstraintsLoop, bind_of_ok (getS_apply p)]
    by_cases hp : p < wrapperEnd
    · rw [if_pos hp] at h ⊢
      obtain ⟨o, r, ho, h⟩ := bind_ok_iff.1 h
      rw [bind_of_ok ho]
      cases o with
      | none =>
        obtain ⟨rfl, rfl⟩ := pure_ok_iff.1 h
        exact ⟨[], rfl, fun front hfront => by rwa [List.append_nil]⟩
      | some e =>
        obtain ⟨z, r₂, hz, h⟩ := bind_ok_iff.1 h
        obtain ⟨_, r₃, hset, h⟩ := bind_ok_iff.1 h
        obtain ⟨rest, hrest, hshows⟩ := ih h
        obtain ⟨found, hfound, hkeep⟩ : ∃ found, (do
            match ← attempt (readOid der) with
            | some oid => readBasicConstraints der oid
            | none => return [] : Run Nat Unit (List Bytes)) r = (.ok found, r₂) ∧
              ∀ front, Shows front x → Shows (front ++ found) z := by
          obtain ⟨o', r₄, ho', hz⟩ := bind_ok_iff.1 hz
          rw [bind_of_ok ho']
          cases o' with
          | none =>
            obtain ⟨rfl, rfl⟩ := pure_ok_iff.1 hz
            exact ⟨[], rfl, fun front hfront => by rwa [List.append_nil]⟩
          | some oid => exact readExtension_shows hz
        refine ⟨found ++ rest, ?_, ?_⟩
        · change ((do
            match ← attempt (readOid der) with
            | some oid => readBasicConstraints der oid
            | none => return [] : Run Nat Unit (List Bytes)) >>= fun found => setS e.2 >>= fun _ =>
              basicConstraintsLoop der wrapperEnd fuel >>= fun rest => pure (found ++ rest)) r = _
          rw [bind_of_ok hfound, bind_of_ok hset, bind_of_ok hrest, pure_apply]
        · intro front hfront
          rw [← List.append_assoc]
          exact hshows _ (hkeep front hfront)
    · rw [if_neg hp] at h ⊢
      obtain ⟨rfl, rfl⟩ := pure_ok_iff.1 h
      exact ⟨[], rfl, fun front hfront => by rwa [List.append_nil]⟩

/-- The tail of a certificate shows the constraints that its extensions show. -/
theorem tbsTailLoop_shows {tbsEnd fuel : Nat} (h : tbsTailLoop der tbsEnd fuel p = (.ok y, q)) :
    ∃ ws, basicConstraintsTail der tbsEnd fuel p = (.ok ws, q) ∧ Shows ws y := by
  have hnone : Shows [] ({} : Extensions) := .inl ⟨rfl, rfl, rfl⟩
  induction fuel generalizing p with
  | zero => simp [tbsTailLoop] at h
  | succ fuel ih =>
    rw [tbsTailLoop, bind_of_ok (getS_apply p)] at h
    rw [basicConstraintsTail, bind_of_ok (getS_apply p)]
    by_cases hp : p < tbsEnd
    · rw [if_pos hp, bind_of_ok (peek_apply der p)] at h ⊢
      cases hb : der[p]? with
      | none =>
        rw [hb] at h
        cases h
      | some tag =>
        simp only [hb] at h ⊢
        by_cases h3 : tag = 0xA3
        · rw [if_pos h3] at h ⊢
          simp only [bind_ok_iff] at h
          obtain ⟨_, r₁, h₁, len, r₂, h₂, start, r₃, h₃, _, r₄, h₄, h⟩ := h
          obtain ⟨ws, hws, hshows⟩ := extensionLoop_shows h
          refine ⟨ws, ?_, hshows [] hnone⟩
          rw [bind_of_ok h₁, bind_of_ok h₂, bind_of_ok h₃, bind_of_ok h₄, hws]
        · rw [if_neg h3] at h ⊢
          by_cases h12 : tag = 0xA1 ∨ tag = 0xA2
          · rw [if_pos h12] at h ⊢
            obtain ⟨_, r, hskip, h⟩ := bind_ok_iff.1 h
            obtain ⟨ws, hws, hshows⟩ := ih h
            exact ⟨ws, by rw [bind_of_ok hskip, hws], hshows⟩
          · rw [if_neg h12] at h ⊢
            obtain ⟨rfl, rfl⟩ := pure_ok_iff.1 h
            exact ⟨[], rfl, hnone⟩
    · rw [if_neg hp] at h ⊢
      obtain ⟨rfl, rfl⟩ := pure_ok_iff.1 h
      exact ⟨[], rfl, hnone⟩

/-- What is kept of the BasicConstraints of a certificate was taken from the last of them. -/
theorem parseX509Cert_shows {c : ParsedCert} (h : parseX509Cert der = .ok c) : Shows (basicConstraintsOf der) c.extensions := by
  have hrun : parseX509CertRun der 0 = (.ok c, (parseX509CertRun der 0).2) := Prod.ext h rfl
  unfold parseX509CertRun at hrun
  obtain ⟨outer, p₁, houter, r₁⟩ := bind_ok_iff.1 hrun
  obtain ⟨tbsStart, p₂, hstart, r₂⟩ := bind_ok_iff.1 r₁
  obtain ⟨tbs, p₃, htbs, r₃⟩ := bind_ok_iff.1 r₂
  obtain ⟨tbsRaw, p₄, hraw, r₄⟩ := bind_ok_iff.1 r₃
  obtain ⟨_, p₅, hset, r₅⟩ := bind_ok_iff.1 r₄
  obtain ⟨alg, p₆, halg, r₆⟩ := bind_ok_iff.1 r₅
  obtain ⟨_, p₇, hens, r₇⟩ := bind_ok_iff.1 r₆
  obtain ⟨rfl, -⟩ := ensure_ok_iff.1 hens
  obtain ⟨sig, p₈, hsig, r₈⟩ := bind_ok_iff.1 r₇
  obtain ⟨rs, p₉, hrs, r₉⟩ := bind_ok_iff.1 r₈
  obtain ⟨_, p₁₀, hback, r₁₀⟩ := bind_ok_iff.1 r₉
  obtain ⟨point, p₁₁, hkey, r₁₁⟩ := bind_ok_iff.1 r₁₀
  obtain ⟨x, p₁₂, htail, hc⟩ := bind_ok_iff.1 r₁₁
  obtain ⟨rfl, -⟩ := pure_ok_iff.1 hc
  obtain ⟨ws, hws, hshows⟩ := tbsTailLoop_shows htail
  have hof : basicConstraintsOf der = ws := by
    unfold basicConstraintsOf Run.eval
    rw [bind_of_ok houter, bind_of_ok hstart, bind_of_ok htbs]
    obtain rfl : tbsStart = p₁₀ := congrArg Prod.snd hback
    change ((setS tbsStart >>= fun _ => readTbsKey der oidEcdsaWithSha256 >>= fun _ =>
      basicConstraintsTail der tbs.2 (der.length + 1) : Run Nat Unit (List Bytes)) p₃).1.toOption.getD [] = ws
    rw [bind_of_ok (setS_apply p₃ tbsStart), bind_of_ok hkey, hws]
    rfl
  rw [hof]
  exact hshows

end FdoUefi
