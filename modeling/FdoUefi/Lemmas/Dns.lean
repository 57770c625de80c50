import FdoUefi.Dns

/-!
# Names in DNS packets

What is left to do decreases with every turn of the loops over a name: a label moves the place on, and a jump, which may go
anywhere, is one of 64. The two loops go the same way; that only one of them looks whether a label ends inside the packet makes
no difference, as the other finds the end of the packet in its next turn.
-/

namespace FdoUefi

open Prog

/-- A bound for the turns that are left at a place after a number of jumps. -/
def dnsLeft (data : Bytes) (pos jumps : Nat) : Nat := (64 - jumps) * (data.length + 1) + (data.length - pos)

namespace Aux

variable {data : Bytes} {pos jumps turns : Nat} {endPos : Option Nat}

/-- A label leaves less to be read. -/
theorem dnsLeft_label (h : pos < data.length) (jumps n : Nat) : dnsLeft data (pos + (1 + n)) jumps < dnsLeft data pos jumps := by
  unfold dnsLeft
  omega

/-- A jump leaves less to be read, since there are at most 64. -/
theorem dnsLeft_jump (h : ¬64 < jumps + 1) (data : Bytes) (pos target : Nat) :
    dnsLeft data target (jumps + 1) < dnsLeft data pos jumps := by
  unfold dnsLeft
  have hleft : 64 - jumps = 64 - (jumps + 1) + 1 := by omega
  rw [hleft, Nat.succ_mul]
  omega

/-- At the start there is less left than there are turns. -/
theorem dnsLeft_start (data : Bytes) (pos : Nat) : dnsLeft data pos 0 < dnsTurns data := by
  unfold dnsLeft dnsTurns
  omega

/-- Indexing within the packet gives the byte. -/
theorem index_of_lt {as : Bytes} {i : Nat} (h : i < as.length) : (Outcome.index as i : Outcome Unit UInt8) = .ok as[i] := by
  rw [Outcome.index, List.getElem?_eq_getElem h]

/-- Behind the end of the packet there is no name. -/
theorem skipDnsLoop_of_end (h : data.length ≤ pos) (hturns : 0 < turns) : skipDnsLoop data turns pos jumps endPos = .err () := by
  obtain ⟨n, rfl⟩ : ∃ n, turns = n + 1 := ⟨turns - 1, by omega⟩
  rw [skipDnsLoop, if_pos h]

/-- One loop goes the way of the other. -/
theorem skipDnsLoop_eq (hleft : dnsLeft data pos jumps < turns) (name : Bytes) :
    skipDnsLoop data turns pos jumps endPos =
      decodeDnsLoop data turns pos jumps endPos name >>= fun r => (.ok r.2 : Outcome Unit Nat) := by
  induction turns generalizing pos jumps endPos name with
  | zero => omega
  | succ turns ih =>
    rw [skipDnsLoop, decodeDnsLoop]
    by_cases hend : data.length ≤ pos
    · rw [if_pos hend, if_pos hend]
      rfl
    · have hlabel := dnsLeft_label (Nat.lt_of_not_le hend) jumps
      rw [if_neg hend, if_neg hend, index_of_lt (Nat.lt_of_not_le hend)]
      generalize data[pos] = len
      show (if len = 0 then _ else _) = (if len = 0 then _ else _) >>= _
      by_cases hzero : len = 0
      · rw [if_pos hzero, if_pos hzero]
        rfl
      rw [if_neg hzero, if_neg hzero]
      by_cases hpointer : len &&& 0xC0 = 0xC0
      · rw [if_pos hpointer, if_pos hpointer]
        by_cases hshort : data.length ≤ pos + 1
        · rw [if_pos hshort, if_pos hshort]
          rfl
        · rw [if_neg hshort, if_neg hshort, index_of_lt (Nat.lt_of_not_le hshort)]
          generalize data[pos + 1] = low
          show (if 64 < jumps + 1 then _ else _) = (if 64 < jumps + 1 then _ else _) >>= _
          by_cases hjumps : 64 < jumps + 1
          · rw [if_pos hjumps, if_pos hjumps]
            rfl
          · have hjump := dnsLeft_jump hjumps data pos (pointerOffset len low)
            rw [if_neg hjumps, if_neg hjumps]
            exact ih (by omega) name
      · rw [if_neg hpointer, if_neg hpointer]
        have hnext := hlabel len.toNat
        by_cases hout : data.length < pos + 1 + len.toNat
        · rw [if_pos hout, skipDnsLoop_of_end (by omega) (by omega)]
          rfl
        · obtain ⟨label, hat, hlen⟩ := exists_at (d := data) (p := pos + 1) (n := len.toNat) (by omega)
          rw [if_neg hout, range?_eq_some_iff_at.2 ⟨hat, by rw [hlen]⟩]
          exact ih (by omega) (pushLabel name label)

/-- The loop comes back, also from pointers that lead in a circle. -/
theorem skipDnsLoop_returns (hleft : dnsLeft data pos jumps < turns) : (skipDnsLoop data turns pos jumps endPos).Returns := by
  induction turns generalizing pos jumps endPos with
  | zero => omega
  | succ turns ih =>
    rw [skipDnsLoop]
    split
    · trivial
    · rename_i hend
      rw [index_of_lt (Nat.lt_of_not_le hend)]
      generalize data[pos] = len
      show (if len = 0 then _ else _ : Outcome Unit Nat).Returns
      split
      · trivial
      · split
        · split
          · trivial
          · rename_i hshort
            rw [index_of_lt (Nat.lt_of_not_le hshort)]
            generalize data[pos + 1] = low
            show (if 64 < jumps + 1 then _ else _ : Outcome Unit Nat).Returns
            split
            · trivial
            · rename_i hjumps
              have hjump := dnsLeft_jump hjumps data pos (pointerOffset len low)
              exact ih (by omega)
        · have hnext := dnsLeft_label (Nat.lt_of_not_le hend) jumps len.toNat
          exact ih (by omega)

/-- Skipping a name comes back. -/
theorem skipDnsName_returns (data : Bytes) (pos : Nat) : (skipDnsName data pos).Returns :=
  skipDnsLoop_returns (dnsLeft_start data pos)

/-- Skipping a name goes where decoding the name goes. -/
theorem skipDnsName_eq (data : Bytes) (pos : Nat) :
    skipDnsName data pos = decodeDnsName data pos >>= fun r => (.ok r.2 : Outcome Unit Nat) :=
  skipDnsLoop_eq (dnsLeft_start data pos) []

/-- What is done with a result does not make a call come back that does not. -/
theorem returns_of_bind_ok {α β : Type} {o : Outcome Unit α} {f : α → β}
    (h : (o >>= fun a => (.ok (f a) : Outcome Unit β)).Returns) : o.Returns := by
  cases o with
  | ok a => trivial
  | err e => trivial
  | panic => exact h
  | hang => exact h

/-- Decoding a name comes back. -/
theorem decodeDnsName_returns (data : Bytes) (pos : Nat) : (decodeDnsName data pos).Returns := by
  have h := skipDnsName_returns data pos
  rw [skipDnsName_eq] at h
  exact returns_of_bind_ok h

/-! ## Responses -/

/-- A number within the packet is read. -/
theorem dnsU16_returns (h : pos + 2 ≤ data.length) : (dnsU16 data pos).Returns := by
  unfold dnsU16
  refine Outcome.bind_returns (Outcome.index_returns (by omega)) ?_
  intro high _
  exact Outcome.bind_returns (Outcome.index_returns (by omega)) fun _ _ => trivial

/-- Every field is read behind the check of the length. -/
theorem readDnsHeader_returns (data : Bytes) (expectedId : Nat) : (readDnsHeader data expectedId).Returns := by
  unfold readDnsHeader
  refine Outcome.bind_returns Outcome.ensure_returns ?_
  intro _ hlen
  have hlen' : 12 ≤ data.length := Outcome.ensure_ok_iff.1 hlen
  refine Outcome.bind_returns (dnsU16_returns (by omega)) ?_
  intro id _
  refine Outcome.bind_returns (dnsU16_returns (by omega)) ?_
  intro flags _
  refine Outcome.bind_returns (dnsU16_returns (by omega)) ?_
  intro qdcount _
  refine Outcome.bind_returns (dnsU16_returns (by omega)) ?_
  intro ancount _
  refine Outcome.bind_returns Outcome.ensure_returns ?_
  intro _ _
  refine Outcome.bind_returns Outcome.ensure_returns ?_
  intro _ _
  exact Outcome.bind_returns Outcome.ensure_returns fun _ _ => trivial

/-- Skipping the questions comes back. -/
theorem skipQuestions_returns (data : Bytes) (n pos : Nat) : (skipQuestions data n pos).Returns := by
  induction n generalizing pos with
  | zero => trivial
  | succ n ih =>
    refine Outcome.bind_returns (skipDnsName_returns data pos) ?_
    intro nameEnd _
    exact Outcome.bind_returns Outcome.ensure_returns fun _ _ => ih (nameEnd + 4)

/-- The loop over the answers looks at no more than the answer, if `found` does not. -/
theorem findAnswer_returns {α : Type} {found : Nat → Nat → Outcome Unit (Option α)}
    (hfound : ∀ pos rdlength, pos + 10 + rdlength ≤ data.length → (found pos rdlength).Returns) (n pos : Nat) :
    (findAnswer data found n pos).Returns := by
  induction n generalizing pos with
  | zero => trivial
  | succ n ih =>
    refine Outcome.bind_returns Outcome.ensure_returns ?_
    intro _ _
    refine Outcome.bind_returns (skipDnsName_returns data pos) ?_
    intro nameEnd _
    refine Outcome.bind_returns Outcome.ensure_returns ?_
    intro _ hfixed
    have hfixed' : nameEnd + 10 ≤ data.length := Outcome.ensure_ok_iff.1 hfixed
    refine Outcome.bind_returns (dnsU16_returns (by omega)) ?_
    intro rdlength _
    refine Outcome.bind_returns Outcome.ensure_returns ?_
    intro _ hdata
    refine Outcome.bind_returns (hfound nameEnd rdlength (Outcome.ensure_ok_iff.1 hdata)) ?_
    intro answer _
    cases answer with
    | none => exact ih _
    | some a => trivial

/-- An address record within the packet is read. -/
theorem aRecord_returns {rdlength : Nat} (h : pos + 10 + rdlength ≤ data.length) : (aRecord data pos rdlength).Returns := by
  refine Outcome.bind_returns (dnsU16_returns (by omega)) ?_
  intro rtype _
  refine Outcome.bind_returns (dnsU16_returns (by omega)) ?_
  intro rclass _
  split
  · rename_i hrecord
    have hlength := hrecord.2.2
    refine Outcome.bind_returns (Outcome.index_returns (by omega)) ?_
    intro a _
    refine Outcome.bind_returns (Outcome.index_returns (by omega)) ?_
    intro b _
    refine Outcome.bind_returns (Outcome.index_returns (by omega)) ?_
    intro c _
    exact Outcome.bind_returns (Outcome.index_returns (by omega)) fun _ _ => trivial
  · trivial

/-- An alias record within the packet is read. -/
theorem cnameRecord_returns {rdlength : Nat} (h : pos + 10 + rdlength ≤ data.length) :
    (cnameRecord data pos rdlength).Returns := by
  refine Outcome.bind_returns (dnsU16_returns (by omega)) ?_
  intro rtype _
  split
  · exact Outcome.bind_returns (decodeDnsName_returns data _) fun _ _ => trivial
  · trivial

/-- Parsing a response comes back. -/
theorem parseDnsResponse_returns (data : Bytes) (expectedId : Nat) : (parseDnsResponse data expectedId).Returns := by
  refine Outcome.bind_returns (readDnsHeader_returns data expectedId) ?_
  rintro ⟨qdcount, ancount⟩ _
  refine Outcome.bind_returns Outcome.ensure_returns ?_
  intro _ _
  refine Outcome.bind_returns (skipQuestions_returns data qdcount 12) ?_
  intro pos _
  exact findAnswer_returns (fun _ _ => aRecord_returns) ancount pos

/-- Looking for an alias in a response comes back. -/
theorem extractCnameTarget_returns (data : Bytes) (expectedId : Nat) : (extractCnameTarget data expectedId).Returns := by
  refine Outcome.bind_returns (readDnsHeader_returns data expectedId) ?_
  rintro ⟨qdcount, ancount⟩ _
  refine Outcome.bind_returns (skipQuestions_returns data qdcount 12) ?_
  intro pos _
  exact findAnswer_returns (fun _ _ => cnameRecord_returns) ancount pos

end Aux

end FdoUefi
