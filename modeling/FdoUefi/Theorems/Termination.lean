import FdoUefi.Lemmas.Envelope
import FdoUefi.Lemmas.VoucherReturns
import FdoUefi.Lib.Usize

/-!
# Unauthenticated vouchers and certificate chains

`verify_voucher` and `verify_delegate_chain` come back on every input, and each of their loops moves its cursor forward or
ends. What they allocate is bounded by numbers they have checked: a string has less than 2^32 bytes, a chain at most eight
certificates.
-/

namespace FdoUefi

open Prog Prog.Run Cbor

namespace Aux

/-- There are as many results as were asked for. -/
theorem collectN_length {ε α : Type} {m : Run Nat ε α} {n p q : Nat} {as : List α} (h : collectN n m p = (.ok as, q)) :
    as.length = n := by
  induction n generalizing p q as with
  | zero => simp [(pure_ok_iff.1 h).1]
  | succ n ih =>
    simp only [collectN, bind_ok_iff, pure_ok_iff] at h
    obtain ⟨a, _, -, bs, _, hbs, rfl, -⟩ := h
    simp [ih hbs]

/-- A chain is not taken in before its length has been checked. -/
theorem x5chainCerts_length_le {cbor : Bytes} {chain : List Bytes} (h : x5chainCerts cbor = .ok chain) :
    chain.length ≤ maxDelegateChainLen := by
  unfold x5chainCerts Run.eval at h
  obtain ⟨b, t, hb, hrest⟩ := bind_fst_ok_iff.1 h
  split_ifs at hrest with h4 h2
  · obtain ⟨_, _, -, h3⟩ := bind_fst_ok_iff.1 hrest
    obtain ⟨der, _, -, hpure⟩ := bind_fst_ok_iff.1 h3
    have hchain : [der] = chain := by simpa using hpure
    rw [← hchain]
    exact Nat.succ_le_succ (Nat.zero_le 7)
  · simp at hrest
  · obtain ⟨n, _, -, h3⟩ := bind_fst_ok_iff.1 hrest
    obtain ⟨_, _, -, h5⟩ := bind_fst_ok_iff.1 h3
    obtain ⟨_, u, hle, h6⟩ := bind_fst_ok_iff.1 h5
    rw [collectN_length (Prod.ext h6 rfl)]
    exact (ensure_ok_iff.1 hle).1

/-- An integer is copied to the width. -/
theorem copyIntegerToFixed_length (src : Bytes) (width : Nat) : (copyIntegerToFixed src width).length = width := by
  simp only [copyIntegerToFixed]
  split_ifs with h
  · rw [List.length_drop]
    omega
  · rw [List.length_append, List.length_replicate]
    omega

end Aux

/-- What the verification of a voucher or of a chain does with the byte string `d`: every loop and every recursion over it
moves the cursor forward or ends, and every buffer it makes has a size it can have. -/
structure BoundedWork (d : Bytes) : Prop where
  /-- `cbor_skip`, at every depth of its recursion. -/
  skip : ∀ fuel p q, cborSkipTo d fuel p = (.ok (), q) → p < q
  /-- The items of a container and of a `Hash`. -/
  items : Moves (reach d) (cborSkip d)
  /-- The certificates of an X5CHAIN. -/
  certs : Moves (reach d) (cborReadBstr d)
  /-- The bytes of a DER length. -/
  derLength : Moves (reach d) (next d)
  protectedAlg : Progresses (reach d) (protectedAlgTurn d) fun n _ => parseProtectedAlgLoop d n
  delegateHeader : Progresses (reach d) (delegateHeaderTurn d) fun n _ => hasDelegateHeaderLoop d n
  coseKey : Progresses (reach d) (coseKeyTurn d) fun n xy => coseKeyLoop d n xy.1 xy.2
  /-- `check_eku_oids` -/
  eku : ∀ seqEnd, Progresses (reach d) (ekuTurn d seqEnd) (ekuLoop d seqEnd)
  /-- The extensions of a certificate, up to the end their wrapper claims. -/
  extensions : ∀ wrapperEnd, Progresses (reach d) (extensionTurn d wrapperEnd) (extensionLoop d wrapperEnd)
  /-- What follows the public key of a certificate. -/
  tbsTail : ∀ tbsEnd, Progresses (reach d) (tbsTailTurn d tbsEnd) fun n _ => tbsTailLoop d tbsEnd n
  /-- `Vec::with_capacity` in `build_sig_structure`. -/
  sigStructure : ∀ s1 version, parseCoseSign1 d = .ok s1 →
    s1.protectedHeader.length + (domainAad aadTagOvEntry version).length + s1.payload.length + 24 ≤ sliceMax
  /-- `Vec::with_capacity` in `x5chain_certs`. -/
  chain : ∀ certs, x5chainCerts d = .ok certs → certs.length ≤ maxDelegateChainLen
  /-- `copy_from_slice` in `copy_integer_to_fixed`. -/
  integer : (copyIntegerToFixed d 32).length = 32

namespace Aux

/-- All parser work is bounded. -/
theorem boundedWork (d : Bytes) : BoundedWork d where
  skip _ _ _ h := (cborSkipTo_lt h).1
  items _ hp := cborSkip_lands le_rfl hp
  certs _ hp := cborReadBstr_lands le_rfl hp
  derLength _ hp := (Lands.next le_rfl hp (Nat.le_add_right _ _)).mono le_rfl fun _ _ _ _ h => by omega
  protectedAlg := parseProtectedAlgLoop_progresses
  delegateHeader := hasDelegateHeaderLoop_progresses
  coseKey := coseKeyLoop_progresses
  eku _ := ekuLoop_progresses
  extensions _ := extensionLoop_progresses
  tbsTail _ := tbsTailLoop_progresses
  sigStructure s1 version h := by
    obtain ⟨hprot, hpay⟩ := parseCoseSign1_length_lt h
    have haad : (domainAad aadTagOvEntry version).length ≤ 16 := by
      unfold domainAad
      split_ifs <;> decide
    unfold sliceMax
    omega
  chain _ h := x5chainCerts_length_le h
  integer := copyIntegerToFixed_length d 32

end Aux

/-- Whatever it is given, the verification of a voucher and of a delegate chain returns, and all its work is bounded. -/
theorem unauthenticated_returns :
    (∀ (Γ : Ctx) (ovHeaderCbor hmacRawCbor hmacValue : Bytes) (hmacKeyHandle : Nat) (deviceGuid : Bytes) (entries : List Bytes),
      (verifyVoucher Γ ovHeaderCbor hmacRawCbor hmacValue hmacKeyHandle deviceGuid entries).Returns) ∧
    (∀ (Γ : Ctx) (certDers : List Bytes) (ownerKeyPoint : Bytes), (verifyDelegateChain Γ certDers ownerKeyPoint).Returns) ∧
    ∀ d, BoundedWork d :=
  ⟨verifyVoucher_returns, verifyDelegateChain_returns, Aux.boundedWork⟩

end FdoUefi
