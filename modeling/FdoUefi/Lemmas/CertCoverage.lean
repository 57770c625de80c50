import FdoUefi.Delegate
import FdoUefi.Lib.Part

/-!
# The DER readers over a part of a certificate

What a reader returns over the bytes of a TBSCertificate alone, it returns over the certificate that they stand in, with its places moved
on. The certificate has more bytes, so a reader that fails over the part may go on behind it.
-/

namespace FdoUefi

open Prog Prog.Run

variable {k : Nat} {t der : Bytes}

/-! ## Elements -/

/-- The bytes of a length are read alike in a part and in the whole. -/
theorem derLengthBytes_carries (hd : At der k t) (n acc : Nat) : Carries k Eq (derLengthBytes t n acc) (derLengthBytes der n acc) := by
  induction n generalizing acc with
  | zero => exact .pure rfl
  | succ n ih => exact (Carries.nextByte hd).next fun b => ih _

/-- A length is read alike in a part and in the whole. -/
theorem readDerLength_carries (hd : At der k t) : Carries k Eq (readDerLength t) (readDerLength der) := by
  refine (Carries.nextByte hd).next fun b => ?_
  by_cases hb : b < 0x80
  · simp only [if_pos hb]
    exact .pure rfl
  · simp only [if_neg hb]
    exact (Carries.ensure id).next fun _ => derLengthBytes_carries hd _ _

/-- A tag is checked alike in a part and in the whole. -/
theorem expectTag_carries (hd : At der k t) (tag : UInt8) : Carries k Eq (expectTag t tag) (expectTag der tag) := by
  refine Carries.peek hd ?_ ?_
  · intro b
    by_cases hb : b = tag
    · simp only [if_pos hb]
      exact .advance
    · simp only [if_neg hb]
      exact .of_fails fun p a q h => by cases h
  · intro p a q _ h
    cases h

/-- The places of an element, moved on. -/
def Moved (k : Nat) (r r' : Nat × Nat) : Prop := r' = (k + r.1, k + r.2)

/-- The header of a sequence is read alike, and its places are moved. -/
theorem readSequenceHeader_carries (hd : At der k t) : Carries k (Moved k) (readSequenceHeader t) (readSequenceHeader der) := by
  have hend := hd.end_le
  refine (expectTag_carries hd 0x30).next fun _ => (readDerLength_carries hd).next fun len => Carries.getS.bind ?_
  rintro start _ rfl
  refine Carries.next (.ensure ?_) fun _ => .pure ?_
  · intro hle
    omega
  · simp only [Moved, Nat.add_assoc]

/-- The places of a SEQUENCE in the part. -/
theorem readSequenceHeader_part (hd : At der k t) {p s e q : Nat} (h : readSequenceHeader t p = (.ok (s, e), q)) :
    readSequenceHeader der (k + p) = (.ok (k + s, k + e), k + q) := by
  obtain ⟨r, rfl, hr⟩ := readSequenceHeader_carries hd p (s, e) q h
  exact hr

/-- An element is skipped alike. -/
theorem skipDerElement_carries (hd : At der k t) : Carries k Eq (skipDerElement t) (skipDerElement der) := by
  have hend := hd.end_le
  refine (Carries.nextByte hd).next fun _ => (readDerLength_carries hd).next fun len => Carries.getS.bind ?_
  rintro pos _ rfl
  exact (Carries.ensure fun hle => by omega).next fun _ => .advance

/-- An element is read alike in a part and in the whole. -/
theorem readTlv_carries (hd : At der k t) (tag : UInt8) : Carries k Eq (readTlv t tag) (readTlv der tag) :=
  (expectTag_carries hd tag).next fun _ => (readDerLength_carries hd).next fun len => .take hd len

/-- The identifier of an algorithm is read alike in a part and in the whole. -/
theorem readAlgIdentifierOid_carries (hd : At der k t) : Carries k Eq (readAlgIdentifierOid t) (readAlgIdentifierOid der) := by
  refine (readSequenceHeader_carries hd).bind ?_
  rintro ⟨s, e⟩ _ rfl
  exact (readTlv_carries hd 0x06).next fun oid => Carries.setS.next fun _ => .pure rfl

/-- At the end of the data there is no element to skip. -/
theorem skipDerElement_at_end {p : Nat} (hp : t.length ≤ p) : skipDerElement t p = (.err (), p) := by
  have hnext : next t p = (.err (), p) := by simp only [next, List.getElem?_eq_none hp]
  rw [skipDerElement, bind_of_err hnext]

/-- At the end of the data there is no tag. -/
theorem expectTag_at_end {p : Nat} (hp : t.length ≤ p) (tag : UInt8) : expectTag t tag p = (.err (), p) := by
  rw [expectTag, bind_of_ok (peek_apply t p), List.getElem?_eq_none hp]
  rfl

/-! ## The fields -/

/-- An element that may be there, before the rest. -/
theorem optional_carries {α : Type} (hd : At der k t) (tag : UInt8) {m m' : Run Nat Unit α} (hm : Carries k Eq m m')
    (hend : ∀ p a q, t.length ≤ p → m p ≠ (.ok a, q)) :
    Carries k Eq (peek t >>= fun b => onlyIf (b = some tag) (skipDerElement t) >>= fun _ => m)
      (peek der >>= fun b => onlyIf (b = some tag) (skipDerElement der) >>= fun _ => m') := by
  refine Carries.peek hd ?_ ?_
  · intro b
    exact (Carries.onlyIf (skipDerElement_carries hd)).next fun _ => hm
  · intro p a q hp h
    have hno : ¬(none : Option UInt8) = some tag := by simp
    rw [onlyIf, if_neg hno, pure_bind] at h
    exact hend p a q hp h

/-- The key is read alike in a part and in the whole. -/
theorem readTbsKey_carries (hd : At der k t) (sigAlg : Bytes) : Carries k Eq (readTbsKey t sigAlg) (readTbsKey der sigAlg) := by
  refine (readSequenceHeader_carries hd).bind fun _ _ _ => ?_
  refine optional_carries hd 0xA0 ?_ ?_
  · refine (skipDerElement_carries hd).next fun _ => (readAlgIdentifierOid_carries hd).next fun oid => ?_
    refine (Carries.ensure id).next fun _ => (skipDerElement_carries hd).next fun _ => (skipDerElement_carries hd).next fun _ => ?_
    refine (skipDerElement_carries hd).next fun _ => Carries.getS.bind ?_
    rintro start _ rfl
    refine (readSequenceHeader_carries hd).bind ?_
    rintro ⟨s, e⟩ _ rfl
    refine Carries.next (.orFail ?_) fun spki => (Carries.ofOutcome _).next fun point => Carries.setS.next fun _ => .pure rfl
    intro spki hspki
    obtain ⟨hat, hlen⟩ := range?_eq_some_iff_at.1 hspki
    exact range?_eq_some_iff_at.2 ⟨hd.inner hat, by rw [hlen, Nat.add_assoc]⟩
  · intro p a q hp h
    rw [bind_of_err (skipDerElement_at_end hp)] at h
    cases h

/-- An extension is read alike in a part and in the whole. -/
theorem readExtension_carries (hd : At der k t) (oid : Bytes) (x : Extensions) :
    Carries k Eq (readExtension t oid x) (readExtension der oid x) := by
  unfold readExtension
  by_cases hoid : oid = oidExtKeyUsage ∨ oid = oidBasicConstraints
  · rw [if_pos hoid, if_pos hoid]
    refine optional_carries hd 0x01 ?_ ?_
    · refine (readTlv_carries hd 0x04).next fun wrapper => ?_
      by_cases heku : oid = oidExtKeyUsage
      · rw [if_pos heku]
        exact (Carries.ofOutcome _).next fun _ => .pure rfl
      · rw [if_neg heku]
        exact (Carries.ofOutcome _).next fun _ => .pure rfl
    · intro p a q hp h
      have hoctet : readOctetString t p = (.err (), p) := by rw [readOctetString, readTlv, bind_of_err (expectTag_at_end hp _)]
      rw [bind_of_err hoctet] at h
      cases h
  · rw [if_neg hoid, if_neg hoid]
    exact .pure rfl

end FdoUefi
