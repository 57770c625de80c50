import FdoUefi.Lemmas.DelegateReturns
import FdoUefi.Voucher

/-!
# The readers of a voucher come back

The parsers of `voucher.rs`, over any header, any HMAC and any entries.
-/

namespace FdoUefi

open Prog Prog.Run Cbor

variable {d : Bytes} {p q : Nat}

/-! ## Public keys -/

/-- The head of an array or a map and what comes after it, each failure with its own error. -/
theorem okOr_head_lands {ε α : Type} {m : Nat} {e₁ e₂ e₃ : ε} {f : Nat → Run Nat ε α} {Q : α → Nat → Prop} (hpq : p ≤ q)
    (hq : q ≤ reach d) (hf : ∀ n r, q < r → r ≤ reach d → Lands (reach d) p Q (f n r)) :
    Lands (reach d) p Q ((okOr (next d) e₁ >>= fun b => ensure (major b = m) e₂ >>= fun _ =>
      okOr (cborReadUintArg d (additional b)) e₃ >>= f) q) := by
  refine Lands.bind (Lands.mapErr (Lands.next hpq hq (Nat.le_add_right _ _))) fun b r hpr hr hnext => ?_
  refine Lands.bind (Lands.ensure hpr hr) fun _ r' _ _ hens => ?_
  obtain ⟨-, rfl⟩ := hens
  exact Lands.bind (Lands.mapErr (cborReadUintArg_lands _ hpr hr)) fun n s _ hs harg => hf n s (by omega) hs

/-- Reading a chain of certificates comes back. -/
theorem x5chainCerts_returns (cbor : Bytes) : (x5chainCerts cbor).Returns := by
  refine Lands.eval_returns (reach cbor) ?_
  refine Lands.bind (Lands.mapErr (Lands.next le_rfl (Nat.zero_le _) (Nat.le_add_right _ _))) fun b t₀ h₀ ht₀ _ => ?_
  refine Lands.ite (fun _ => Lands.ite (fun _ => ?_) fun _ => Lands.fail h₀ ht₀) fun _ => ?_
  · refine Lands.bind (Lands.setS le_rfl (Nat.zero_le _)) fun _ t₁ h₁ ht₁ _ => ?_
    exact Lands.bind (Lands.mapErr (cborReadBstr_lands h₁ ht₁)) fun der t₂ h₂ ht₂ _ => Lands.pure h₂ ht₂ trivial
  · refine Lands.bind (Lands.mapErr (cborReadUintArg_lands _ h₀ ht₀)) fun n t₁ h₁ ht₁ _ => ?_
    refine Lands.bind (Lands.ensure h₁ ht₁) fun _ t₂ h₂ ht₂ _ => ?_
    refine Lands.bind (Lands.ensure h₂ ht₂) fun _ t₃ h₃ ht₃ _ => ?_
    exact Lands.collectN h₃ ht₃ fun r _ hr => Lands.mapErr (cborReadBstr_lands le_rfl hr).trivially

/-- One turn of the loop over the entries of a COSE_Key. -/
def coseKeyTurn (body : Bytes) (xy : Option Bytes × Option Bytes) :
    Run Nat VoucherError ((Option Bytes × Option Bytes) ⊕ (Option Bytes × Option Bytes)) := do
  let key ← okOr (cborReadIntValue body) (unsupportedKey "bad COSE_Key label")
  if key = -2 then
    let x ← attempt (cborReadBstr body)
    return .inl (x, xy.2)
  else if key = -3 then
    let y ← attempt (cborReadBstr body)
    return .inl (xy.1, y)
  else
    okOr (cborSkip body) (unsupportedKey "bad COSE_Key value")
    return .inl xy

/-- The loop over a COSE key is the iteration of a turn. -/
theorem coseKeyTurn_loopOf : LoopOf (coseKeyTurn d) fun n xy => coseKeyLoop d n xy.1 xy.2 := by
  intro n xy
  simp only [coseKeyTurn, coseKeyLoop, bind_assoc]
  refine bind_congr fun key => ?_
  by_cases h2 : key = -2
  · simp only [h2, if_true, bind_assoc, pure_bind]
  · by_cases h3 : key = -3
    · rw [if_neg h2, if_neg h2, if_pos h3, if_pos h3]
      simp only [bind_assoc, pure_bind]
    · simp only [h2, h3, if_false, bind_assoc, pure_bind]

/-- The label alone moves the cursor: a coordinate that cannot be read does not end the loop. -/
theorem coseKeyTurn_lands (xy : Option Bytes × Option Bytes) (hp : p ≤ reach d) :
    Lands (reach d) p (fun t r => ∀ a, t = .inl a → p < r) (coseKeyTurn d xy p) := by
  refine Lands.bind (Lands.mapErr (cborReadIntValue_lands le_rfl hp)) fun key r hpr hr hkey => ?_
  refine Lands.ite (fun _ => ?_) fun _ => Lands.ite (fun _ => ?_) fun _ => ?_
  · refine (Lands.bind (R := fun _ s => r ≤ s) (Lands.attempt (cborReadBstr_lands le_rfl hr)) fun x s hrs hs _ => ?_).mono hpr
      fun _ s _ _ hrs _ _ => by omega
    exact Lands.pure hrs hs hrs
  · refine (Lands.bind (R := fun _ s => r ≤ s) (Lands.attempt (cborReadBstr_lands le_rfl hr)) fun x s hrs hs _ => ?_).mono hpr
      fun _ s _ _ hrs _ _ => by omega
    exact Lands.pure hrs hs hrs
  · refine Lands.bind (Lands.mapErr (cborSkip_lands hpr hr)) fun _ s hps hs hskip => ?_
    exact Lands.pure hps hs fun _ _ => by omega

/-- The loop over a COSE key comes to an end within the data. -/
theorem coseKeyLoop_progresses : Progresses (reach d) (coseKeyTurn d) fun n xy => coseKeyLoop d n xy.1 xy.2 :=
  ⟨coseKeyTurn_loopOf, fun xy _ hp => coseKeyTurn_lands xy hp⟩

/-- Reading a COSE key comes back. -/
theorem coseKeyP256Point_returns (body : Bytes) : (coseKeyP256Point body).Returns := by
  refine Lands.eval_returns (reach body) ?_
  refine okOr_head_lands le_rfl (Nat.zero_le _) fun n t₀ _ ht₀ => ?_
  have hloop := coseKeyLoop_progresses.lands (n := n) (a := (none, none))
    (fun _ q hq => Lands.pure le_rfl hq trivial) ht₀
  refine Lands.bind (hloop.mono (Nat.zero_le _) fun _ _ _ _ h => h) fun xy t₁ h₁ ht₁ _ => ?_
  obtain ⟨x, y⟩ := xy
  cases x with
  | none => exact Lands.fail h₁ ht₁
  | some x =>
    cases y with
    | none => exact Lands.fail h₁ ht₁
    | some y => exact Lands.ite (fun _ => Lands.pure h₁ ht₁ trivial) fun _ => Lands.fail h₁ ht₁

/-- Reading a public key comes back in every encoding. -/
theorem parseFdoPublicKey_returns (Γ : Ctx) (data : Bytes) : (parseFdoPublicKey Γ data).Returns := by
  refine Lands.eval_returns (reach data) ?_
  refine okOr_head_lands le_rfl (Nat.zero_le _) fun n t₀ _ ht₀ => ?_
  refine Lands.bind (Lands.ensure (Nat.zero_le _) ht₀) fun _ t₁ h₁ ht₁ _ => ?_
  refine Lands.bind (Lands.mapErr (cborReadIntValue_lands h₁ ht₁)) fun pkType t₂ h₂ ht₂ _ => ?_
  refine Lands.bind (Lands.mapErr (cborReadIntValue_lands h₂ ht₂)) fun pkEnc t₃ h₃ ht₃ hpos => ?_
  refine Lands.bind (Lands.ensure h₃ ht₃) fun _ t₄ _ _ hens => ?_
  obtain ⟨-, rfl⟩ := hens
  refine Lands.bind (Lands.ensure h₃ ht₃) fun _ t₅ _ _ hens => ?_
  obtain ⟨-, rfl⟩ := hens
  refine Lands.ite (fun _ => ?_) fun _ => Lands.ite (fun _ => ?_) fun _ => Lands.ite (fun _ => ?_) fun _ =>
    Lands.ite (fun _ => Lands.fail h₃ ht₃) fun _ => Lands.fail h₃ ht₃
  · refine Lands.bind (Lands.mapErr (cborReadBstr_lands h₃ ht₃)) fun der t₆ h₆ ht₆ _ => ?_
    exact (Lands.ofOutcome (Outcome.noneAs_returns (parseSpkiP256Point_returns der)) h₆ ht₆).trivially
  -- The two encodings that are read from the rest of the data: the cursor is within it.
  · refine Lands.bind (Lands.getS h₃ ht₃) fun pos t₆ h₆ ht₆ hget => ?_
    obtain ⟨rfl, rfl⟩ := hget
    refine Lands.bind (Lands.slice hpos.2 le_rfl h₆ ht₆) fun body t₇ h₇ ht₇ _ => ?_
    exact (Lands.ofOutcome (coseKeyP256Point_returns body) h₇ ht₇).trivially
  · refine Lands.bind (Lands.getS h₃ ht₃) fun pos t₆ h₆ ht₆ hget => ?_
    obtain ⟨rfl, rfl⟩ := hget
    refine Lands.bind (Lands.slice hpos.2 le_rfl h₆ ht₆) fun body t₇ h₇ ht₇ _ => ?_
    refine Lands.bind (Lands.ofOutcome (x5chainCerts_returns body) h₇ ht₇) fun chain t₈ h₈ ht₈ _ => ?_
    exact (Lands.ofOutcome (Outcome.noneAs_returns (verifyX5chainInternal_returns Γ chain)) h₈ ht₈).trivially

/-! ## Vouchers -/

/-- Decoding a text comes back. -/
theorem decodeTstr_returns (data : Bytes) : (decodeTstr data).Returns := by
  refine Lands.eval_returns (reach data) ?_
  refine head_lands le_rfl (Nat.zero_le _) fun n t₀ _ ht₀ => ?_
  refine Lands.bind (Lands.take (Nat.zero_le _) ht₀ (Nat.le_add_right _ _)) fun s t₁ h₁ ht₁ _ => ?_
  exact Lands.bind (Lands.ensure h₁ ht₁) fun _ t₂ h₂ ht₂ _ => Lands.pure h₂ ht₂ trivial

/-- Reading a voucher header comes back. -/
theorem parseOvHeader_returns (Γ : Ctx) (data : Bytes) : (parseOvHeader Γ data).Returns := by
  refine Lands.eval_returns (reach data) ?_
  unfold parseOvHeaderRun
  refine okOr_head_lands le_rfl (Nat.zero_le _) fun n t₀ _ ht₀ => ?_
  refine Lands.bind (Lands.ensure (Nat.zero_le _) ht₀) fun _ t₁ h₁ ht₁ _ => ?_
  refine Lands.bind (Lands.mapErr (cborReadUintValue_lands h₁ ht₁)) fun protver t₂ h₂ ht₂ _ => ?_
  refine Lands.bind (Lands.mapErr (cborReadBstr_lands h₂ ht₂)) fun guid t₃ h₃ ht₃ _ => ?_
  refine Lands.bind (Lands.ensure h₃ ht₃) fun _ t₄ h₄ ht₄ _ => ?_
  refine Lands.bind (Lands.mapErr (cborSkip_lands h₄ ht₄)) fun _ t₅ h₅ ht₅ _ => ?_
  refine Lands.bind (Lands.getS h₅ ht₅) fun diStart t₆ h₆ ht₆ _ => ?_
  refine Lands.bind (Lands.mapErr (cborSkip_lands h₆ ht₆)) fun _ t₇ h₇ ht₇ _ => ?_
  refine Lands.bind (Lands.getS h₇ ht₇) fun diStop t₈ h₈ ht₈ _ => ?_
  refine Lands.bind (Lands.ofOutcome (Outcome.noneAs_returns (decodeTstr_returns _)) h₈ ht₈) fun info t₉ h₉ ht₉ _ => ?_
  refine Lands.bind (Lands.getS h₉ ht₉) fun pkStart u₀ hu₀ hu₀' _ => ?_
  refine Lands.bind (Lands.mapErr (cborSkip_lands hu₀ hu₀')) fun _ u₁ hu₁ hu₁' _ => ?_
  refine Lands.bind (Lands.getS hu₁ hu₁') fun pkStop u₂ hu₂ hu₂' _ => ?_
  refine Lands.bind (Lands.orFail hu₂ hu₂') fun pk u₃ hu₃ hu₃' _ => ?_
  exact Lands.bind (Lands.ofOutcome (parseFdoPublicKey_returns Γ pk) hu₃ hu₃') fun key u₄ hu₄ hu₄' _ =>
    Lands.pure hu₄ hu₄' trivial

/-- A hash is read without a panic. -/
theorem readHash_lands (hpq : p ≤ q) (hq : q ≤ reach d) : Lands (reach d) p (fun _ _ => True) (readHash d q) := by
  unfold readHash
  refine head_lands hpq hq fun n t₀ hlt ht₀ => ?_
  refine Lands.bind (Lands.ensure (by omega) ht₀) fun _ t₁ h₁ ht₁ _ => ?_
  refine Lands.bind (cborReadIntValue_lands h₁ ht₁) fun alg t₂ h₂ ht₂ _ => ?_
  refine Lands.bind (cborReadBstr_lands h₂ ht₂) fun value t₃ h₃ ht₃ _ => ?_
  refine Lands.bind (Lands.repeatN h₃ ht₃ fun r _ hr => (cborSkip_lands le_rfl hr).trivially) fun _ t₄ h₄ ht₄ _ => ?_
  exact Lands.pure h₄ ht₄ trivial

/-- Reading the payload of an entry comes back. -/
theorem parseOvEntryPayload_returns (Γ : Ctx) (data : Bytes) : (parseOvEntryPayload Γ data).Returns := by
  refine Lands.eval_returns (reach data) ?_
  refine head_lands le_rfl (Nat.zero_le _) fun n t₀ _ ht₀ => ?_
  refine Lands.bind (Lands.ensure (Nat.zero_le _) ht₀) fun _ t₁ h₁ ht₁ _ => ?_
  refine Lands.bind (readHash_lands h₁ ht₁) fun prev t₂ h₂ ht₂ _ => ?_
  refine Lands.bind (readHash_lands h₂ ht₂) fun hdr t₃ h₃ ht₃ _ => ?_
  refine Lands.bind (cborSkip_lands h₃ ht₃) fun _ t₄ h₄ ht₄ _ => ?_
  refine Lands.bind (Lands.getS h₄ ht₄) fun pkStart t₅ h₅ ht₅ _ => ?_
  refine Lands.bind (cborSkip_lands h₅ ht₅) fun _ t₆ h₆ ht₆ _ => ?_
  refine Lands.bind (Lands.getS h₆ ht₆) fun pkStop t₇ h₇ ht₇ _ => ?_
  refine Lands.bind (Lands.orFail h₇ ht₇) fun pk t₈ h₈ ht₈ _ => ?_
  exact Lands.bind (Lands.mapErr (Lands.ofOutcome (parseFdoPublicKey_returns Γ pk) h₈ ht₈)) fun key t₉ h₉ ht₉ _ =>
    Lands.pure h₉ ht₉ trivial

/-- Verifying an entry comes back. -/
theorem verifyEntry_returns (Γ : Ctx) (header : OvHeaderInfo) (i : Nat) (prevKey prevHash entry : Bytes) :
    (verifyEntry Γ header i prevKey prevHash entry).Returns := by
  refine Outcome.bind_returns (Outcome.noneAs_returns (parseCoseSign1_returns entry)) fun s1 _ => ?_
  refine Outcome.bind_returns (Outcome.noneAs_returns (hasDelegateHeader_returns _)) fun delegated _ => ?_
  refine Outcome.bind_returns Outcome.ensure_returns fun _ _ => ?_
  refine Outcome.bind_returns Outcome.ensure_returns fun _ _ => ?_
  refine Outcome.bind_returns (Outcome.noneAs_returns (parseOvEntryPayload_returns Γ _)) fun payload _ => ?_
  refine Outcome.bind_returns Outcome.ensure_returns fun _ _ => ?_
  refine Outcome.bind_returns Outcome.ensure_returns fun _ _ => ?_
  refine Outcome.bind_returns Outcome.ensure_returns fun _ _ => ?_
  exact Outcome.bind_returns Outcome.ensure_returns fun _ _ => trivial

/-- Verifying all entries comes back. -/
theorem verifyEntries_returns (Γ : Ctx) (header : OvHeaderInfo) (i : Nat) (prevKey prevHash : Bytes) (entries : List Bytes) :
    (verifyEntries Γ header i prevKey prevHash entries).Returns := by
  induction entries generalizing i prevKey prevHash with
  | nil => trivial
  | cons entry entries ih =>
    exact Outcome.bind_returns (verifyEntry_returns Γ header i prevKey prevHash entry) fun key _ => ih (i + 1) key _

/-- Verifying a voucher comes back. -/
theorem verifyVoucher_returns (Γ : Ctx) (ovHeaderCbor hmacRawCbor hmacValue : Bytes) (hmacKeyHandle : Nat) (deviceGuid : Bytes)
    (entries : List Bytes) :
    (verifyVoucher Γ ovHeaderCbor hmacRawCbor hmacValue hmacKeyHandle deviceGuid entries).Returns := by
  refine Outcome.bind_returns (parseOvHeader_returns Γ ovHeaderCbor) fun header _ => ?_
  refine Outcome.bind_returns Outcome.ensure_returns fun _ _ => ?_
  cases Γ.tpmHmac hmacKeyHandle ovHeaderCbor with
  | none => trivial
  | some computed =>
    refine Outcome.bind_returns Outcome.ensure_returns fun _ _ => ?_
    exact verifyEntries_returns Γ header 0 _ _ entries

end FdoUefi
