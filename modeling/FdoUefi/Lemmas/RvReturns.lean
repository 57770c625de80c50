import FdoUefi.Lemmas.EnvelopeReturns
import FdoUefi.Lemmas.Rendezvous

/-!
# The readers of the DCTPM index that come back

The readers of `tpm.rs` and `rv_parse.rs` check every byte against the end of the data before they read it, wherever a skip or a
failed reader has left the cursor. The exception is the first byte of the rendezvous information, which is indexed.
-/

namespace FdoUefi

open Prog Prog.Run Cbor

variable {d : Bytes} {p q : Nat}

/-! ## The skip routine -/

/-- Steps that return from everywhere behind a place, and go forward, are repeated and return. -/
theorem repeatN_returns_from {m : Run Nat Unit Unit} (hm : ∀ s, p ≤ s → (m s).1.Returns) (hlt : ∀ s t, m s = (.ok (), t) → s ≤ t)
    (n : Nat) : (repeatN n m p).1.Returns := by
  induction n generalizing p with
  | zero => trivial
  | succ n ih =>
    refine bind_returns_iff.2 ⟨hm p le_rfl, ?_⟩
    intro _ t ht
    exact ih fun s hs => hm s ((hlt p t ht).trans hs)

/-- Each level reads a byte, so no more levels are needed than bytes are left. -/
theorem skipShort_returns {checked : Bool} {more : Nat → Nat} {k : Nat} (hk : 0 < k) (hd : d.length < p + k) :
    (skipShort checked more d k p).1.Returns := by
  induction k generalizing p with
  | zero => omega
  | succ k ih =>
    rw [skipShort]
    refine bind_returns_iff.2 ⟨Total.next d p, ?_⟩
    intro b r hb
    obtain ⟨hat, rfl⟩ := next_ok_iff.1 hb
    have hend := hat.end_le
    rw [List.length_singleton] at hend
    refine bind_returns_iff.2 ⟨cborReadUintArg_total (additional b) (p + 1), ?_⟩
    intro arg r harg
    obtain ⟨hd', -, -, hat', -, rfl⟩ := cborHead_ok hb harg
    have hpos := hd'.bytes_pos
    have hinner : ∀ s, p + hd'.bytes.length ≤ s → (skipShort checked more d k s).1.Returns := fun s hs => ih (by omega) (by omega)
    have hitems : ∀ n, (repeatN n (skipShort checked more d k) (p + hd'.bytes.length)).1.Returns :=
      repeatN_returns_from hinner fun s t hst => (skipShort_lt hst).le
    have hstr : Total (getS >>= fun pos => ensure (checked = false ∨ pos + arg ≤ d.length) () >>= fun _ => advance arg : Run Nat Unit Unit) :=
      .bind .getS fun _ => .bind .ensure fun _ => .advance arg
    split
    · trivial
    · trivial
    · exact hstr _
    · exact hstr _
    · exact hitems arg
    · exact hitems (arg * 2)
    · exact hinner _ le_rfl
    · trivial
    · trivial

/-! ## The readers of `tpm.rs` -/

namespace Tpm

/-- Skipping a value comes back from every place. -/
theorem skipCborValue_total : Total (skipCborValue d) := fun _ => skipShort_returns (by omega) (by omega)

/-- Stepping over a value and failing without one comes back. -/
theorem stepOver_total : Total (stepOver d) := .ignored skipCborValue_total

/-- Reading an argument comes back. -/
theorem readCborUintArg_total (ai : Nat) : Total (readCborUintArg d ai) := by
  unfold readCborUintArg
  refine .ite (fun _ => .pure ai) fun _ => .ite (fun _ => ?_) fun _ => .ite (fun _ => ?_) fun _ => .fail ()
  · exact .bind (.next d) fun _ => .pure _
  · exact .bind (.take d 2) fun _ => .pure _

/-- Reading an unsigned integer comes back. -/
theorem readCborUint_total : Total (readCborUint d) :=
  .bind (.next d) fun _ => .bind .ensure fun _ => cborReadUintArg_total _

/-- Reading a head of two bytes at most comes back. -/
theorem readShortHead_total (m : Nat) : Total (readShortHead d m) :=
  .bind (.next d) fun _ => .bind .ensure fun _ => readCborUintArg_total _

/-- Reading a byte string comes back. -/
theorem readCborBstr_total : Total (readCborBstr d) := .bind (readShortHead_total 2) fun _ => .take d _

/-- Reading the length of the structure comes back. -/
theorem readNumItems_total : Total (readNumItems d) :=
  .bind (.next d) fun _ => .ite (fun _ => .pure _) fun _ => .ite (fun _ => .bind (.next d) fun _ => .pure _) fun _ => .fail ()

/-- Reading a key comes back. -/
theorem readMapKey_total : Total (readMapKey d) :=
  .bind (.next d) fun _ => .bind .ensure fun _ =>
    .ite (fun _ => .pure _) fun _ => .ite (fun _ => .bind (.next d) fun _ => .pure _) fun _ => .fail ()

/-- Reading the GUID comes back. -/
theorem readGuid_total : Total (readGuid d) := .bind readCborBstr_total fun _ => .bind .ensure fun _ => .pure _

/-- Reading the magic comes back. -/
theorem readMagic_total : Total (readMagic d) := .bind readCborUint_total fun _ => .ensure

/-- Reading the credentials in array form comes back. -/
theorem arrayCredentials_total : Total (arrayCredentials d) :=
  .bind readMagic_total fun _ => .bind (.repeatN skipCborValue_total 3) fun _ => .bind readGuid_total fun _ =>
    .bind (.repeatN skipCborValue_total 3) fun _ => .bind readCborUint_total fun _ => .bind readCborUint_total fun _ => .pure _

/-- Reading an entry of the map form comes back. -/
theorem mapEntry_total (f : MapFields) : Total (mapEntry d f) := by
  refine .bind .getS fun pos => .ite (fun _ => .pure f) fun _ => .bind readMapKey_total fun key => ?_
  split
  · exact .bind readMagic_total fun _ => .pure _
  · exact .bind readGuid_total fun _ => .pure _
  · exact .bind readCborUint_total fun _ => .pure _
  · exact .bind readCborUint_total fun _ => .pure _
  · exact .bind skipCborValue_total fun _ => .pure _

/-- Reading the credentials in map form comes back. -/
theorem mapCredentials_total (n : Nat) : Total (mapCredentials d n) := by
  refine .bind (.foldN mapEntry_total n _) fun f => .bind .ensure fun _ => ?_
  split
  · exact .pure _
  · exact .fail ()

/-- Reading the credentials comes back on every index content. -/
theorem readFdoCredentials_returns (d : Bytes) : (readFdoCredentials d).Returns := by
  refine Total.bind readNumItems_total (fun head => ?_) 0
  obtain ⟨m, numItems⟩ := head
  dsimp only
  split
  · exact .bind .ensure fun _ => arrayCredentials_total
  · exact mapCredentials_total numItems
  · exact .fail ()

/-- Reading an instruction comes back. -/
theorem rvInstruction_total (vars : Rv.Directive) : Total (rvInstruction d vars) := by
  refine .bind .getS fun pos => .ite (fun _ => .pure vars) fun _ => .bind (.next d) fun b =>
    .ite (fun _ => .bind stepOver_total fun _ => .pure vars) fun _ => .bind (.attempt (readCborUintArg_total _)) fun len => ?_
  cases len with
  | none => exact .pure vars
  | some len =>
    refine .ite (fun _ => .bind (.repeatN stepOver_total len) fun _ => .pure vars) fun _ =>
      .bind (.attempt (readShortHead_total 0)) fun var => .bind (.attempt readCborBstr_total) fun value =>
      .bind (.repeatN stepOver_total _) fun _ => ?_
    cases value with
    | none => exact .pure vars
    | some v => exact .pure _

/-- Reading a directive comes back. -/
theorem rvDirective_total (url : Option Bytes) : Total (rvDirective d url) := by
  refine .bind .getS fun pos => .ite (fun _ => .pure url) fun _ => .bind (.next d) fun b =>
    .ite (fun _ => .bind stepOver_total fun _ => .pure none) fun _ => .bind (.attempt (readCborUintArg_total _)) fun len => ?_
  cases len with
  | none => exact .pure none
  | some len => exact .bind (.foldN rvInstruction_total len _) fun _ => .pure _

/-- The search for the rendezvous information comes back. -/
theorem seekRvInfo_total (n : Nat) : Total (seekRvInfo d n) := by
  induction n with
  | zero => exact .fail ()
  | succ n ih => exact .bind readMapKey_total fun _ => .ite (fun _ => .pure ()) fun _ => .bind skipCborValue_total fun _ => ih

/-- The search from the start of the index comes back. -/
theorem findRvInfo_total : Total (findRvInfo d) := by
  refine .bind readNumItems_total fun head => ?_
  obtain ⟨m, n⟩ := head
  dsimp only
  split
  · exact .bind .ensure fun _ => .repeatN skipCborValue_total 5
  · exact seekRvInfo_total n
  · exact .fail ()

end Tpm

/-! ## The readers of `rv_parse.rs` -/

namespace Rv

/-- Skipping a value comes back from every place. -/
theorem skipCborValueTo_total : Total (skipCborValueTo d (d.length + 1)) := fun _ => skipShort_returns (by omega) (by omega)

/-- Stepping over a value and failing without one comes back. -/
theorem stepOver_total : Total (stepOver d) := .ignored skipCborValueTo_total

/-- Reading an unsigned integer comes back. -/
theorem readCborUintAt_total : Total (readCborUintAt d) :=
  .bind (.next d) fun _ => .bind .ensure fun _ => cborReadUintArg_total _

/-- Reading a byte string comes back. -/
theorem readCborBstrRaw_total : Total (readCborBstrRaw d) := by
  refine .bind (.next d) fun b => .bind (cborReadUintArg_total _) fun arg => ?_
  split
  · exact .take d arg
  · exact .bind (.advance arg) fun _ => .fail ()
  · exact .bind (.repeatN stepOver_total arg) fun _ => .fail ()
  · exact .bind (.repeatN stepOver_total _) fun _ => .fail ()
  · exact .fail ()

/-- Reading an instruction comes back. -/
theorem instruction_total (s : RvFirmwareInfo × Directive) : Total (instruction d s) := by
  refine .bind .getS fun pos => .ite (fun _ => .pure s) fun _ => .bind (.next d) fun b =>
    .ite (fun _ => .bind stepOver_total fun _ => .pure s) fun _ => .bind (cborReadUintArg_total _) fun len =>
    .ite (fun _ => .bind (.repeatN stepOver_total len) fun _ => .pure s) fun _ =>
      .bind (.attempt readCborUintAt_total) fun var => .bind (.attempt readCborBstrRaw_total) fun value =>
      .bind (.repeatN stepOver_total _) fun _ => ?_
  cases value with
  | none => exact .pure s
  | some v => exact .pure _

/-- Reading a directive comes back. -/
theorem directive_total (info : RvFirmwareInfo) : Total (directive d info) := by
  refine .bind .getS fun pos => .ite (fun _ => .pure info) fun _ => .bind (.next d) fun b =>
    .ite (fun _ => .bind stepOver_total fun _ => .pure info) fun _ => .bind (cborReadUintArg_total _) fun len =>
    .bind (.foldN instruction_total len _) fun s => ?_
  exact .pure _

end Rv

/-! ## The first byte -/

/-- Indexing a byte returns exactly where there is one. -/
theorem index_returns_iff {α : Type} {f : UInt8 → Run Nat Unit α} (hf : ∀ b, Total (f b)) :
    ((getS >>= fun pos => ofOutcome (Outcome.index d pos) >>= f : Run Nat Unit α) p).1.Returns ↔ p < d.length := by
  rw [bind_of_ok (getS_apply _), bind_returns_iff]
  constructor
  · rintro ⟨hindex, -⟩
    by_contra hle
    have hnone : d[p]? = none := List.getElem?_eq_none (by omega)
    have hpanic : (Outcome.index d p : Outcome Unit UInt8) = .panic := by
      rw [Outcome.index, hnone]
    change (Outcome.index d p : Outcome Unit UInt8).Returns at hindex
    rw [hpanic] at hindex
    exact hindex
  · intro hlt
    exact ⟨Outcome.index_returns hlt, fun b t _ => hf b t⟩

/-- The reader of the URL panics exactly when it is sent behind the end of the data. -/
theorem Tpm.rvDirectives_returns_iff : (Tpm.rvDirectives d p).1.Returns ↔ p < d.length :=
  index_returns_iff fun _ => .bind (.advance 1) fun _ => .bind .ensure fun _ => .bind (Tpm.readCborUintArg_total _) fun len =>
    .bind (.foldN Tpm.rvDirective_total len none) fun _ => .orFail

/-- The reader of the firmware server panics exactly when it is sent behind the end of the data. -/
theorem Rv.directives_returns_iff : (Rv.directives d p).1.Returns ↔ p < d.length :=
  index_returns_iff fun _ => .bind (.advance 1) fun _ => .bind .ensure fun _ => .bind (cborReadUintArg_total _) fun len =>
    .bind (.foldN Rv.directive_total len _) fun _ => .bind .ensure fun _ => .pure _

end FdoUefi
