import FdoUefi.Lemmas.Rendezvous

/-!
# The two readers of RVMinFirmwareRev

At Device Initialization the counter starts from the highest revision of the rendezvous information; the firmware that a boot
fetches is held against the last one. The two are the same exactly when the last is the highest, and when every revision that one
of the readers sees is one for the other too.
-/

namespace FdoUefi

open Prog Prog.Run Cbor

/-- The revision that the reader of the firmware tags takes from an instruction: the variable is cut to one byte, and the
argument has at most four. -/
def RvInstruction.taken (i : RvInstruction) : Option Nat :=
  if i.var.arg % 2 ^ 8 = 18 then i.value.bind fun v => leadingUint 27 v.content else none

/-- The last revision that this reader takes, or 0. -/
def RendezvousInfo.lastTaken (rv : RendezvousInfo) : Nat := (rv.instructions.filterMap RvInstruction.taken).getLast?.getD 0

/-- The revisions of the instructions with variable 18. -/
def RendezvousInfo.offered (rv : RendezvousInfo) : List Nat := rv.instructions.filterMap Dctpm.offered

/-- The last revision that is taken is the highest that is offered. -/
def LastIsHighest (rv : RendezvousInfo) : Prop := (∀ r ∈ rv.offered, r ≤ rv.lastTaken) ∧ (rv.lastTaken = 0 ∨ rv.lastTaken ∈ rv.offered)

namespace Aux

/-- An instruction sets the minimal revision if it is number 18 and has a value. -/
theorem apply_minFirmwareRev (varId : Nat) (value : Bytes) (info : Rv.RvFirmwareInfo) (dir : Rv.Directive) :
    (Rv.apply varId value info dir).1.minFirmwareRev =
      if varId = 18 then (leadingUint 27 value).or info.minFirmwareRev else info.minFirmwareRev := by
  rw [← Rv.decodeCborUint_eq]
  unfold Rv.apply
  split
  · rfl
  · rfl
  · rfl
  · split <;> rfl
  · rfl
  · rfl
  · rfl
  · rename_i h18
    rw [if_neg h18]

/-- An instruction replaces the revision if it has one. -/
theorem applyTo_minFirmwareRev (i : RvInstruction) (s : Rv.RvFirmwareInfo × Rv.Directive) :
    (i.applyTo s).1.minFirmwareRev = i.taken.or s.1.minFirmwareRev := by
  unfold RvInstruction.applyTo RvInstruction.taken
  cases i.value with
  | none =>
    rw [Option.bind_none, ite_self]
    rfl
  | some v =>
    rw [Option.bind_some]
    dsimp only
    rw [apply_minFirmwareRev]
    split <;> rfl

/-- The last of the revisions stays. -/
theorem foldl_minFirmwareRev (xs : List RvInstruction) (s : Rv.RvFirmwareInfo × Rv.Directive) :
    (xs.foldl (fun s i => i.applyTo s) s).1.minFirmwareRev =
      (xs.filterMap RvInstruction.taken).getLast?.or s.1.minFirmwareRev := by
  induction xs generalizing s with
  | nil => rfl
  | cons i xs ih =>
    rw [List.foldl_cons, ih, applyTo_minFirmwareRev, List.filterMap_cons]
    cases i.taken with
    | none => rfl
    | some r =>
      dsimp only
      rw [List.getLast?_cons]
      cases (xs.filterMap RvInstruction.taken).getLast? <;> rfl

/-- A directive sets the revision to the last value in it. -/
theorem directive_minFirmwareRev (dir : RvDirective) (info : Rv.RvFirmwareInfo) :
    (dir.applyTo info).minFirmwareRev = (dir.instructions.filterMap RvInstruction.taken).getLast?.or info.minFirmwareRev :=
  foldl_minFirmwareRev dir.instructions (info, Rv.Directive.new)

/-- Over all directives too. -/
theorem firmwareInfo_minFirmwareRev (rv : RendezvousInfo) : rv.firmwareInfo.minFirmwareRev.getD 0 = rv.lastTaken := by
  have hfold : ∀ (dirs : List RvDirective) (info : Rv.RvFirmwareInfo),
      (dirs.foldl (fun info dir => dir.applyTo info) info).minFirmwareRev =
        ((dirs.flatMap (·.instructions)).filterMap RvInstruction.taken).getLast?.or info.minFirmwareRev := by
    intro dirs
    induction dirs with
    | nil =>
      intro info
      rfl
    | cons dir dirs ih =>
      intro info
      rw [List.foldl_cons, ih, directive_minFirmwareRev, List.flatMap_cons, List.filterMap_append, List.getLast?_append,
        Option.or_assoc]
  rw [RendezvousInfo.firmwareInfo, hfold]
  show (Option.or _ none).getD 0 = _
  rw [Option.or_none]
  rfl

/-- A running maximum bounds what it has seen, and it is one of these or what it started with. -/
theorem foldl_max_isGreatest (xs : List RvInstruction) (f : RvInstruction → Option Nat) (b : Nat) :
    b ≤ xs.foldl (fun best i => max best ((f i).getD 0)) b ∧
      (∀ r ∈ xs.filterMap f, r ≤ xs.foldl (fun best i => max best ((f i).getD 0)) b) ∧
      (xs.foldl (fun best i => max best ((f i).getD 0)) b = b ∨
        xs.foldl (fun best i => max best ((f i).getD 0)) b ∈ xs.filterMap f) := by
  induction xs generalizing b with
  | nil => simp
  | cons i xs ih =>
    rw [List.foldl_cons, List.filterMap_cons]
    obtain ⟨hle, hall, hmem⟩ := ih (max b ((f i).getD 0))
    cases hf : f i with
    | none =>
      rw [hf, Option.getD_none, Nat.max_zero] at hle hall hmem
      rw [Option.getD_none, Nat.max_zero]
      exact ⟨hle, hall, hmem⟩
    | some r =>
      rw [hf, Option.getD_some] at hle hall hmem
      rw [Option.getD_some]
      refine ⟨by omega, ?_, ?_⟩
      · intro r' hr'
        rcases List.mem_cons.1 hr' with rfl | hr'
        · omega
        · exact hall r' hr'
      · rcases hmem with hmem | hmem
        · rw [hmem]
          rcases Nat.le_total r b with hrb | hbr
          · exact .inl (Nat.max_eq_left hrb)
          · exact .inr (by rw [Nat.max_eq_right hbr]; exact List.mem_cons_self)
        · exact .inr (List.mem_cons_of_mem r hmem)

/-- The highest of some numbers bounds them all and is one of them, or 0. -/
theorem foldl_max_eq_iff (xs : List RvInstruction) (f : RvInstruction → Option Nat) (a : Nat) :
    xs.foldl (fun best i => max best ((f i).getD 0)) 0 = a ↔ (∀ r ∈ xs.filterMap f, r ≤ a) ∧ (a = 0 ∨ a ∈ xs.filterMap f) := by
  obtain ⟨-, hall, hmem⟩ := foldl_max_isGreatest xs f 0
  constructor
  · rintro rfl
    exact ⟨hall, hmem⟩
  · rintro ⟨hbound, ha⟩
    have hle : xs.foldl (fun best i => max best ((f i).getD 0)) 0 ≤ a := by
      rcases hmem with hmem | hmem
      · omega
      · exact hbound _ hmem
    rcases ha with rfl | ha
    · omega
    · exact le_antisymm hle (hall a ha)

end Aux

/-- The two readers agree exactly when the last revision taken is the highest that is offered. -/
theorem rvMinFirmwareRev_agree_iff {rv : RendezvousInfo} {wrap : Option Head} {d : Bytes} {p q : Nat} {info : Rv.RvFirmwareInfo}
    (hop : ∀ i ∈ rv.instructions, i.Operands Head.Short) (hat : rv.StandsAt wrap d p)
    (h : Rv.parseRvFirmwareInfoAt d p = (.ok info, q)) :
    info.minFirmwareRev.getD 0 = Dctpm.rvMinFirmwareRev rv.bytes ↔ LastIsHighest rv := by
  rw [Rv.parseRvFirmwareInfoAt_of_item hop hat h, Aux.firmwareInfo_minFirmwareRev, Dctpm.rvMinFirmwareRev_of_item, eq_comm]
  exact Aux.foldl_max_eq_iff _ _ _

/-! ### A directive with two revisions -/

def sampleArrayOne : Head := ⟨0x81, [], by decide, .inl (by decide)⟩

def sampleArrayTwo : Head := ⟨0x82, [], by decide, .inl (by decide)⟩

def sampleArrayThree : Head := ⟨0x83, [], by decide, .inl (by decide)⟩

/-- The head `81` is that of an array. -/
theorem sampleArrayOne_isArray : sampleArrayOne.IsMajor 4 := rfl

/-- The head `81` announces one element. -/
theorem sampleArrayOne_arg : sampleArrayOne.arg = 1 := by decide

/-- The head `82` is that of an array. -/
theorem sampleArrayTwo_isArray : sampleArrayTwo.IsMajor 4 := rfl

/-- The head `82` announces two elements. -/
theorem sampleArrayTwo_arg : sampleArrayTwo.arg = 2 := by decide

def sampleBstrOne : Head := ⟨0x41, [], by decide, .inl (by decide)⟩

def sampleBstrTwo : Head := ⟨0x42, [], by decide, .inl (by decide)⟩

def sampleVarDns : Head := ⟨0x05, [], by decide, .inl (by decide)⟩

def sampleVarRev : Head := ⟨0x12, [], by decide, .inl (by decide)⟩

/-- The DNS name `a`. -/
def sampleDns : RvInstruction where
  head := sampleArrayTwo
  var := sampleVarDns
  value := some ⟨sampleBstrTwo, [0x61, 0x61], rfl, rfl⟩
  isArray := sampleArrayTwo_isArray
  isUint := rfl
  count := sampleArrayTwo_arg

/-- A minimum revision, in one byte. -/
def sampleRevision (rev : UInt8) : RvInstruction where
  head := sampleArrayTwo
  var := sampleVarRev
  value := some ⟨sampleBstrOne, [rev], rfl, rfl⟩
  isArray := sampleArrayTwo_isArray
  isUint := rfl
  count := sampleArrayTwo_arg

/-- A directive with a host and two minimum revisions. -/
def sampleRevisions (first second : UInt8) : RendezvousInfo where
  head := sampleArrayOne
  directives := [{
    head := sampleArrayThree
    instructions := [sampleDns, sampleRevision first, sampleRevision second]
    isArray := rfl
    count := (by decide : sampleArrayThree.arg = 3) }]
  isArray := sampleArrayOne_isArray
  count := sampleArrayOne_arg

/-- The heads of the sample are short. -/
theorem sampleRevisions_operands (first second : UInt8) :
    ∀ i ∈ (sampleRevisions first second).instructions, i.Operands Head.Short := by
  intro i hi
  have hcases : i = sampleDns ∨ i = sampleRevision first ∨ i = sampleRevision second := by
    simpa [RendezvousInfo.instructions, sampleRevisions] using hi
  have hshort : ∀ {h : Head}, additional h.initial < 27 → h.Short := fun h => h
  rcases hcases with rfl | rfl | rfl
  · exact RvInstruction.operands_of_value (hshort (by decide)) rfl (hshort (by decide))
  · exact RvInstruction.operands_of_value (hshort (h := sampleVarRev) (by decide)) rfl (hshort (h := sampleBstrOne) (by decide))
  · exact RvInstruction.operands_of_value (hshort (h := sampleVarRev) (by decide)) rfl (hshort (h := sampleBstrOne) (by decide))

/-- The higher revision stands last: both readers return it. -/
theorem sampleRevisions_agree :
    ∃ info q, Rv.parseRvFirmwareInfoAt (sampleRevisions 5 7).bytes 0 = (.ok info, q) ∧
      info.minFirmwareRev.getD 0 = Dctpm.rvMinFirmwareRev (sampleRevisions 5 7).bytes := by
  have hok : Outcome.okWith (fun _ => true) (Rv.parseRvFirmwareInfoAt (sampleRevisions 5 7).bytes 0).1 = true := by
    decide
  obtain ⟨info, hinfo, -⟩ := Outcome.okWith_iff.1 hok
  have hat : (sampleRevisions 5 7).StandsAt none (sampleRevisions 5 7).bytes 0 := at_zero_iff.2 ⟨[], (List.append_nil _).symm⟩
  have hlast : LastIsHighest (sampleRevisions 5 7) := by
    unfold LastIsHighest
    decide
  exact ⟨info, _, eq_of_fst hinfo, (rvMinFirmwareRev_agree_iff (sampleRevisions_operands 5 7) hat (eq_of_fst hinfo)).2 hlast⟩

/-- The lower revision stands last: the counter starts from 7, and firmware of revision 5 is let through. -/
theorem sampleRevisions_disagree :
    (sampleRevisions 7 5).StandsAt none (sampleRevisions 7 5).bytes 0 ∧
      ∃ info q, Rv.parseRvFirmwareInfoAt (sampleRevisions 7 5).bytes 0 = (.ok info, q) ∧
        info.minFirmwareRev.getD 0 = 5 ∧ Dctpm.rvMinFirmwareRev (sampleRevisions 7 5).bytes = 7 := by
  have hok : Outcome.okWith (fun info => decide (info.minFirmwareRev.getD 0 = 5))
      (Rv.parseRvFirmwareInfoAt (sampleRevisions 7 5).bytes 0).1 = true := by decide
  obtain ⟨info, hinfo, hrev⟩ := Outcome.okWith_iff.1 hok
  refine ⟨at_zero_iff.2 ⟨[], (List.append_nil _).symm⟩, info, _, eq_of_fst hinfo, of_decide_eq_true hrev, ?_⟩
  decide

end FdoUefi
