import FdoUefi.Lib.Tame
import FdoUefi.Lemmas.DecoderReaders

/-!
# What the readers of `CborDecoder` answer for

Each reader of `fdo.rs` over data that fits in memory is tame. Those that read a byte pass one at least, and `skip_value` is
accounted for as long as its recursion depth is more than the bytes before it.
-/

namespace FdoUefi

open Prog Prog.Run Cbor

variable {d : Bytes} {n k : Nat}

/-! ## Heads -/

/-- Looking at a byte stays within all bounds. -/
theorem peek_tame {w : Nat} : Tame n w k 0 0 (Dec.peek d) := Tame.peek

/-- Reading a byte goes a byte forward. -/
theorem readByte_tame_step (hd : d.length ≤ sliceMax) : Tame n d.length k 1 0 (Dec.readByte d) := Tame.byte hd _

/-- Reading a byte stays within the bounds. -/
theorem readByte_tame (hd : d.length ≤ sliceMax) : Tame n d.length k 0 0 (Dec.readByte d) :=
  (readByte_tame_step hd).mono (Nat.le_refl k) (Nat.zero_le 1) (Nat.le_refl 0)

/-- Reading a big-endian number stays within the bounds. -/
theorem readBe_tame (hd : d.length ≤ sliceMax) (count acc : Nat) : Tame n d.length k 0 0 (Dec.readBe d count acc) := by
  induction count generalizing acc with
  | zero => exact Tame.pure acc
  | succ count ih => exact (readByte_tame hd).next fun b => ih (acc * 256 + b.toNat)

/-- Reading an argument stays within the bounds. -/
theorem decodeAdditional_tame (hd : d.length ≤ sliceMax) (ai : Nat) :
    Tame n d.length k 0 0 (Dec.decodeAdditional d ai) := by
  unfold Dec.decodeAdditional
  refine Tame.ite (fun _ => Tame.pure ai) fun _ => ?_
  refine Tame.ite (fun _ => readBe_tame hd 1 0) fun _ => ?_
  refine Tame.ite (fun _ => readBe_tame hd 2 0) fun _ => ?_
  refine Tame.ite (fun _ => readBe_tame hd 4 0) fun _ => ?_
  exact Tame.ite (fun _ => readBe_tame hd 8 0) fun _ => Tame.fail _

/-- Reading a head of a major type stays within the bounds. -/
theorem readHead_tame (hd : d.length ≤ sliceMax) (m : Nat) (e : Nat → FdoError) :
    Tame n d.length k 0 0 (Dec.readHead d m e) :=
  (readByte_tame hd).next fun b => (Tame.ensure _ _).next fun _ => decodeAdditional_tame hd (additional b)

/-- Reading an unsigned integer stays within the bounds. -/
theorem readUint_tame (hd : d.length ≤ sliceMax) : Tame n d.length k 0 0 (Dec.readUint d) := readHead_tame hd _ _

/-- Reading the length of an array stays within the bounds. -/
theorem readArrayLen_tame (hd : d.length ≤ sliceMax) : Tame n d.length k 0 0 (Dec.readArrayLen d) := readHead_tame hd _ _

/-- Reading a tag stays within the bounds. -/
theorem readTag_tame (hd : d.length ≤ sliceMax) : Tame n d.length k 0 0 (Dec.readTag d) := readHead_tame hd _ _

/-- Reading an integer stays within the bounds. -/
theorem readInt_tame (hd : d.length ≤ sliceMax) : Tame n d.length k 0 0 (Dec.readInt d) := by
  refine (readByte_tame hd).next fun b => ?_
  split
  · exact (decodeAdditional_tame hd _).next fun v => Tame.pure _
  · exact (decodeAdditional_tame hd _).next fun v => Tame.pure _
  · exact Tame.fail _

/-- Reading the length of a map stays within the bounds. -/
theorem readMapLen_tame (hd : d.length ≤ sliceMax) : Tame n d.length k 0 0 (Dec.readMapLen d) := by
  refine (readByte_tame hd).next fun b => (Tame.ensure _ _).next fun _ => ?_
  refine Tame.ite (fun _ => Tame.pure _) fun _ => ?_
  refine Tame.ite (fun _ => readBe_tame hd 1 0) fun _ => ?_
  exact Tame.ite (fun _ => readBe_tame hd 2 0) fun _ => Tame.fail _

/-- Looking for null stays within all bounds. -/
theorem peekNull_tame {w : Nat} : Tame n w k 0 0 (Dec.peekNull d) := peek_tame.next fun _ => Tame.pure _

/-- Reading null stays within the bounds. -/
theorem readNull_tame (hd : d.length ≤ sliceMax) : Tame n d.length k 0 0 (Dec.readNull d) :=
  (readByte_tame hd).next fun _ => Tame.ensure _ _

/-! ## Strings -/

/-- A string item, with what is done to its content. -/
theorem strItem_tame {α : Type} (hd : d.length ≤ sliceMax) {m : Nat} {e : Nat → FdoError} {e' : Nat → Nat → FdoError}
    {f : Nat → Bytes → Dec.R α} (hf : ∀ len s c, c.pos + len ≤ d.length → TameAt n d.length k 0 0 (f len s) c) :
    Tame n d.length k 0 0 (Dec.readHead d m e >>= fun len => Dec.readStr d len (e' len) >>= f len) := by
  intro c
  refine Tame.nextAt (readHead_tame hd m e c) ?_
  intro len c₁ h₁
  obtain ⟨hd', -, hat, rfl, hc₁⟩ := readHead_ok hd h₁
  have hp : c₁.pos ≤ d.length := by
    rw [hc₁]
    exact hat.end_le
  refine Tame.nextAt (Tame.contentAt hd hd'.arg_lt hp) ?_
  intro s c₂ h₂
  obtain ⟨hs, hl, hc₂⟩ := readStr_ok hd hd'.arg_lt hp h₂
  refine hf _ s c₂ ?_
  rw [hc₂, ← hl]
  exact hs.end_le

/-- The cursor moves behind a string that lies in the data. -/
theorem bump_tameAt (hd : d.length ≤ sliceMax) {len : Nat} {c : Cur} (h : c.pos + len ≤ d.length) :
    TameAt n d.length k 0 0 (Cur.bump len : Dec.R Unit) c := by
  refine Tame.bumpAt ?_
  simp only [sliceMax, wordSize] at hd ⊢
  omega

/-- Reading a byte string copies no more than the data. -/
theorem readBytes_tame (hd : d.length ≤ sliceMax) : Tame n d.length k 0 0 (Dec.readBytes d) :=
  strItem_tame hd fun _ s _ h => Tame.nextAt (bump_tameAt hd h) fun _ c _ => Tame.pure s c

/-- Reading a text string copies no more than the data. -/
theorem readText_tame (hd : d.length ≤ sliceMax) : Tame n d.length k 0 0 (Dec.readText d) := by
  refine strItem_tame hd fun len s c h => Tame.nextAt (Tame.ensure _ _ c) ?_
  intro _ c' h'
  obtain ⟨-, rfl⟩ := ensure_ok_iff.1 h'
  exact Tame.nextAt (bump_tameAt hd h) fun _ c _ => Tame.pure s c

/-! ## Items -/

/-- One level of recursion costs one byte, so a depth of more than the bytes that are left is enough. -/
theorem skipValue_tame (hd : d.length ≤ sliceMax) (fuel : Nat) : Tame n d.length fuel 0 0 (Dec.skipValue d fuel) := by
  induction fuel with
  | zero => exact fun c => ⟨[], rfl, fun h => absurd h (by omega)⟩
  | succ fuel ih =>
    intro c
    rw [Dec.skipValue]
    refine Tame.monoAt (Tame.bindAt (readByte_tame_step hd c) (q := fuel) (i := 0) (t := 0) ?_ (Nat.le_refl _))
      (Nat.le_refl _) (Nat.zero_le _) (Nat.le_refl _)
    intro b c₁ h₁
    obtain ⟨hat, hc₁⟩ := readByte_ok hd h₁
    have hend := hat.end_le
    split
    · exact (decodeAdditional_tame hd _).next (fun _ => Tame.pure ()) c₁
    · exact (decodeAdditional_tame hd _).next (fun _ => Tame.pure ()) c₁
    · exact (decodeAdditional_tame hd _).next (fun len => Tame.stepOver len) c₁
    · exact (decodeAdditional_tame hd _).next (fun len => Tame.stepOver len) c₁
    · exact (decodeAdditional_tame hd _).next (fun len => ih.repeatN len) c₁
    · exact (decodeAdditional_tame hd _).next (fun len => (ih.next fun _ => ih).repeatN len) c₁
    · exact (decodeAdditional_tame hd _).next (fun _ => ih) c₁
    · refine Tame.bumpAt ?_
      have hext : extLen (additional b) ≤ 8 := by
        unfold extLen
        split <;> omega
      simp only [sliceMax, wordSize, List.length_singleton] at hd hend ⊢
      split <;> omega
    · exact Tame.fail _ c₁

/-! ## Messages -/

section Messages

variable {fuel : Nat}

/-- A chain of certificates, or null, is read within the bounds. -/
theorem readCertChainOrNull_tame (hd : d.length ≤ sliceMax) : Tame n d.length k 0 0 (readCertChainOrNull d) := by
  refine peekNull_tame.next fun isNull => ?_
  refine Tame.ite (fun _ => (readNull_tame hd).next fun _ => Tame.pure none) fun _ => ?_
  refine (readArrayLen_tame hd).next fun len => (Tame.ensure _ _).next fun _ => (Tame.withCapacity len vecSize).next fun _ => ?_
  exact (Tame.collectN (readBytes_tame hd) len).next fun certs => Tame.pure _

/-- An error message is read within the bounds, with a slack of four. -/
theorem readFdoError_tame (hd : d.length ≤ sliceMax) : Tame n d.length k 0 4 (readFdoError d) := by
  have hrest : Tame n d.length k 0 3 (do
      let code ← otherwise 0 (Dec.readUint d)
      let _prev ← otherwise 0 (Dec.readUint d)
      let msg ← otherwise (utf8 "<unparseable>") (Dec.readText d)
      return (code, msg)) := by
    refine ((readUint_tame hd).otherwise 0).charged (fun code => ?_) (show 0 + 1 + 2 ≤ 3 by decide)
    refine ((readUint_tame hd).otherwise 0).charged (fun _ => ?_) (show 0 + 1 + 1 ≤ 2 by decide)
    exact ((readText_tame hd).otherwise _).next fun msg => Tame.pure _
  refine ((readArrayLen_tame hd).attempt).charged (fun o => ?_) (show 0 + 1 + 3 ≤ 4 by decide)
  cases o with
  | none => exact (Tame.pure _).mono (Nat.le_refl _) (Nat.le_refl _) (Nat.zero_le _)
  | some len =>
    refine Tame.ite (fun _ => hrest) fun _ => ?_
    exact (Tame.pure _).mono (Nat.le_refl _) (Nat.le_refl _) (Nat.zero_le _)

/-- A response that may be an error message is read within the bounds, with a slack of four. -/
theorem checkFdoError_tame (hd : d.length ≤ sliceMax) (messageType : Option Nat) (context : Bytes) :
    Tame n d.length k 0 4 (checkFdoError messageType d context) := by
  refine Tame.ite (fun _ => (Tame.pure ()).mono (Nat.le_refl _) (Nat.le_refl _) (Nat.zero_le _)) fun _ => ?_
  exact (readFdoError_tame hd).next fun _ => Tame.fail _

/-- HelloRVAck is read within the bounds. -/
theorem parseTo1HelloRvAck_tame (hd : d.length ≤ sliceMax) : Tame n d.length fuel 0 0 (parseTo1HelloRvAck fuel d) := by
  refine (readArrayLen_tame hd).next fun _ => (Tame.ensure _ _).next fun _ => (readBytes_tame hd).next fun _ => ?_
  refine (skipValue_tame hd fuel).next fun _ => (readBytes_tame hd).next fun _ => (Tame.ensure _ _).next fun _ => ?_
  exact Tame.pure _

/-- RVRedirect is read within the bounds, with a copy of all of it. -/
theorem parseTo1RvRedirect_tame (hd : d.length ≤ sliceMax) :
    Tame d.length d.length fuel 0 0 (parseTo1RvRedirect fuel d) := by
  refine (readArrayLen_tame hd).next fun _ => (Tame.ensure _ _).next fun _ => (readUint_tame hd).next fun _ => ?_
  refine (readUint_tame hd).next fun _ => (readArrayLen_tame hd).next fun _ => (Tame.ensure _ _).next fun _ => ?_
  refine Tame.place.next fun start => (skipValue_tame hd fuel).next fun _ => Tame.place.next fun stop => ?_
  exact Tame.cut rfl start stop

/-- The certificates are read by a decoder of their own, over bytes of the message. -/
theorem to1dDelegateChain_tame (hd : d.length ≤ sliceMax) :
    Tame n d.length fuel 0 d.length (to1dDelegateChain fuel d) := by
  have hpure : ∀ {m : Dec.R (Option (List Bytes))}, Tame n d.length fuel 0 0 m → Tame n d.length fuel 0 d.length m :=
    fun h => h.mono (Nat.le_refl _) (Nat.le_refl _) (Nat.zero_le _)
  refine (readArrayLen_tame hd).charged (fun len => ?_) (Nat.le_of_eq (Nat.zero_add _))
  refine Tame.ite (fun _ => hpure (Tame.pure none)) fun _ => Tame.ite (fun _ => ?_) fun _ => hpure (Tame.fail _)
  refine (skipValue_tame hd fuel).charged (fun _ => ?_) (Nat.le_of_eq (Nat.zero_add _))
  refine (skipValue_tame hd fuel).charged (fun _ => ?_) (Nat.le_of_eq (Nat.zero_add _))
  intro c
  refine Tame.monoAt (Tame.bindAt (readBytes_tame hd c) (q := fuel) (i := 0) (t := d.length) ?_ (Nat.le_refl _))
    (Nat.le_refl _) (Nat.zero_le _) (Nat.le_of_eq (Nat.zero_add _))
  intro wrapped c₁ h₁
  obtain ⟨hd', -, hat, -, -⟩ := readBytes_ok hd h₁
  have hlen : wrapped.length ≤ d.length := by
    have hend := hat.end_le
    rw [List.length_append] at hend
    omega
  have hchain := Tame.inside (w := d.length) (k := fuel)
    (readCertChainOrNull_tame (d := wrapped) (n := n) (k := wrapped.length + 1) (by omega))
  exact (hchain.mono (Nat.le_refl _) (Nat.le_refl _) (by omega)) c₁

/-- HelloDeviceAck of FDO 1.1 is read within the bounds. -/
theorem parseTo2HelloDeviceAckV11_tame (hd : d.length ≤ sliceMax) :
    Tame n d.length fuel 0 0 (parseTo2HelloDeviceAckV11 fuel d) := by
  refine (readBytes_tame hd).next fun _ => (Tame.ensure _ _).next fun _ => (skipValue_tame hd fuel).next fun _ => ?_
  refine (readUint_tame hd).next fun _ => (readInt_tame hd).next fun _ => (skipValue_tame hd fuel).next fun _ => ?_
  exact Tame.pure _

/-- HelloDeviceAck20 with five elements is read within the bounds. -/
theorem parseTo2HelloDeviceAck5_tame (hd : d.length ≤ sliceMax) :
    Tame n d.length fuel 0 0 (parseTo2HelloDeviceAck5 fuel d) := by
  refine peek_tame.next fun first => Tame.ite (fun _ => ?_) fun _ => parseTo2HelloDeviceAckV11_tame hd
  exact (readUint_tame hd).next fun _ => (readUint_tame hd).next fun _ => (readText_tame hd).next fun _ => Tame.fail _

/-- Choosing a suite comes back. -/
theorem selectKexSuite20_returns (Γ : Ctx) (offered : List Bytes) : (selectKexSuite20 Γ offered).Returns := by
  unfold selectKexSuite20
  split <;> trivial

/-- HelloDeviceAck20 with eight elements is read within the bounds. -/
theorem parseTo2HelloDeviceAck8_tame (Γ : Ctx) (hd : d.length ≤ sliceMax) :
    Tame n d.length fuel 0 0 (parseTo2HelloDeviceAck8 Γ fuel d) := by
  refine (readBytes_tame hd).next fun _ => (skipValue_tame hd fuel).next fun _ => (skipValue_tame hd fuel).next fun _ => ?_
  refine (readUint_tame hd).next fun _ => (readArrayLen_tame hd).next fun kexLen => ?_
  refine (Tame.collectN (readText_tame hd) kexLen).next fun offered => ?_
  refine (Tame.ofOutcome (selectKexSuite20_returns Γ offered)).next fun _ => (readArrayLen_tame hd).next fun cipherLen => ?_
  refine (Tame.ite (fun _ => readInt_tame hd) fun _ => Tame.pure 0).next fun _ => ?_
  refine ((skipValue_tame hd fuel).repeatN _).next fun _ => (readBytes_tame hd).next fun _ => ?_
  refine (readArrayLen_tame hd).next fun hashArrLen => (readInt_tame hd).next fun _ => ?_
  exact (Tame.ite (fun _ => readBytes_tame hd) fun _ => Tame.pure []).next fun _ => Tame.pure _

/-- HelloDeviceAck is read within the bounds in every form. -/
theorem parseTo2HelloDeviceAck_tame (Γ : Ctx) (hd : d.length ≤ sliceMax) :
    Tame n d.length fuel 0 0 (parseTo2HelloDeviceAck Γ fuel d) := by
  refine (readArrayLen_tame hd).next fun arrLen => Tame.ite (fun _ => parseTo2HelloDeviceAck5_tame hd) fun _ => ?_
  exact (Tame.ensure _ _).next fun _ => parseTo2HelloDeviceAck8_tame Γ hd

/-- A tag in front of an envelope is skipped within the bounds. -/
theorem skipCoseTag_tame (hd : d.length ≤ sliceMax) : Tame n d.length k 0 0 (skipCoseTag d) := by
  refine peek_tame.next fun first => ?_
  cases first with
  | none => exact Tame.pure ()
  | some b => exact Tame.ite (fun _ => (readTag_tame hd).next fun _ => Tame.ensure _ _) fun _ => Tame.pure ()

/-- The payload of an envelope is taken out within the bounds. -/
theorem extractCosePayload_tame (hd : d.length ≤ sliceMax) : Tame n d.length fuel 0 0 (extractCosePayload fuel d) := by
  refine (skipCoseTag_tame hd).next fun _ => (readArrayLen_tame hd).next fun _ => (Tame.ensure _ _).next fun _ => ?_
  exact (skipValue_tame hd fuel).next fun _ => (skipValue_tame hd fuel).next fun _ => readBytes_tame hd

/-- ProveOVHdr20 is read within the bounds, with a copy of all of it. -/
theorem parseProveOvHdrPayload_tame (hd : d.length ≤ sliceMax) :
    Tame d.length d.length fuel 0 0 (parseProveOvHdrPayload fuel d) := by
  refine (readArrayLen_tame hd).next fun _ => (Tame.ensure _ _).next fun _ => (readBytes_tame hd).next fun _ => ?_
  refine (readUint_tame hd).next fun _ => Tame.place.next fun _ => (readArrayLen_tame hd).next fun hmacLen => ?_
  refine (readInt_tame hd).next fun _ => (Tame.ite (fun _ => readBytes_tame hd) fun _ => Tame.pure []).next fun _ => ?_
  refine ((skipValue_tame hd fuel).repeatN _).next fun _ => Tame.place.next fun _ => (readBytes_tame hd).next fun _ => ?_
  refine (readBytes_tame hd).next fun _ => (readUint_tame hd).next fun _ => Tame.place.next fun start => ?_
  refine (skipValue_tame hd fuel).next fun _ => Tame.place.next fun stop => (Tame.cut rfl start stop).next fun _ => ?_
  exact (readCertChainOrNull_tame hd).next fun _ => Tame.pure _

/-- The entries of the header of a ciphertext are read within the bounds. -/
theorem encryptedHeaderLoop_tame (hd : d.length ≤ sliceMax) (count : Nat) (nonce : Bytes) :
    Tame n d.length fuel 0 0 (encryptedHeaderLoop fuel d count nonce) := by
  induction count generalizing nonce with
  | zero => exact Tame.pure nonce
  | succ count ih =>
    refine (readUint_tame hd).next fun key => Tame.ite (fun _ => ?_) fun _ => ?_
    · exact (readBytes_tame hd).next fun iv => ih iv
    · exact (skipValue_tame hd fuel).next fun _ => ih nonce

/-- An encrypted message is read within the bounds. -/
theorem parseEncryptedMessage_tame (hd : d.length ≤ sliceMax) :
    Tame n d.length fuel 0 0 (parseEncryptedMessage fuel d) := by
  refine peek_tame.next fun first => (Tame.ensure _ _).next fun _ => (readByte_tame hd).next fun tagByte => ?_
  refine (Tame.ite (fun _ => Tame.pure _) fun _ => readUint_tame hd).next fun _ => (Tame.ensure _ _).next fun _ => ?_
  refine (readArrayLen_tame hd).next fun _ => (Tame.ensure _ _).next fun _ => (readBytes_tame hd).next fun _ => ?_
  refine (readMapLen_tame hd).next fun mapLen => (encryptedHeaderLoop_tame hd mapLen []).next fun _ => ?_
  exact (readBytes_tame hd).next fun _ => (Tame.ensure _ _).next fun _ => Tame.pure _

end Messages

end FdoUefi
