import FdoUefi.Credentials
import FdoUefi.Lemmas.Dctpm
import FdoUefi.Lemmas.ShortSkip

/-!
# The encoded rendezvous information

Directives of instructions `[variable, bstr value]`, with the heads they are encoded with. Where its heads are short enough for a
reader, the reader goes over it piece by piece; a longer head leaves the cursor inside the argument, and what is read from there
on has nothing to do with the items.
-/

namespace FdoUefi

open Prog Prog.Run Cbor

/-- A byte string with its head. -/
structure BstrItem where
  head : Head
  content : Bytes
  isBstr : head.IsMajor 2
  length : content.length = head.arg

/-- An instruction: a variable and an optional value. -/
structure RvInstruction where
  head : Head
  var : Head
  value : Option BstrItem
  isArray : head.IsMajor 4
  isUint : var.IsMajor 0
  count : head.arg = 1 + value.toList.length

/-- A directive: an array of instructions. -/
structure RvDirective where
  head : Head
  instructions : List RvInstruction
  isArray : head.IsMajor 4
  count : head.arg = instructions.length

/-- A well-formed RendezvousInfo: an array of directives. -/
structure RendezvousInfo where
  head : Head
  directives : List RvDirective
  isArray : head.IsMajor 4
  count : head.arg = directives.length

def BstrItem.bytes (v : BstrItem) : Bytes := v.head.bytes ++ v.content

def RvInstruction.bytes (i : RvInstruction) : Bytes := i.head.bytes ++ (i.var.bytes ++ i.value.toList.flatMap BstrItem.bytes)

def RvDirective.bytes (dir : RvDirective) : Bytes := dir.head.bytes ++ dir.instructions.flatMap RvInstruction.bytes

def RendezvousInfo.bytes (rv : RendezvousInfo) : Bytes := rv.head.bytes ++ rv.directives.flatMap RvDirective.bytes

/-- The rendezvous information stands at `p`, as an array or inside a byte string with the head `wrap`. -/
def RendezvousInfo.StandsAt (rv : RendezvousInfo) (wrap : Option Head) (d : Bytes) (p : Nat) : Prop :=
  match wrap with
  | none => At d p rv.bytes
  | some h => h.IsMajor 2 ∧ h.arg = rv.bytes.length ∧ At d p (h.bytes ++ rv.bytes)

/-- The heads of the variable and of the value are in `P`. -/
def RvInstruction.Operands (P : Head → Prop) (i : RvInstruction) : Prop := P i.var ∧ ∀ v ∈ i.value, P v.head

/-- What an instruction does in the reader of the firmware tags. -/
def RvInstruction.applyTo (i : RvInstruction) (s : Rv.RvFirmwareInfo × Rv.Directive) : Rv.RvFirmwareInfo × Rv.Directive :=
  match i.value with
  | none => s
  | some v => Rv.apply (i.var.arg % 2 ^ 8) v.content s.1 s.2

/-- What a directive does in the reader of the firmware tags. -/
def RvDirective.applyTo (dir : RvDirective) (info : Rv.RvFirmwareInfo) : Rv.RvFirmwareInfo :=
  let (info', vars) := dir.instructions.foldl (fun s i => i.applyTo s) (info, Rv.Directive.new)
  { info' with serverUrl := info'.serverUrl.or (Rv.serverUrlOf vars) }

/-- The instructions of all directives. -/
def RendezvousInfo.instructions (rv : RendezvousInfo) : List RvInstruction := rv.directives.flatMap (·.instructions)

/-- The unsigned integer at the start, if the additional information of its head is below `limit`. -/
def leadingUint (limit : Nat) : Bytes → Option Nat
  | [] => none
  | b :: tail =>
    let ai := additional b
    if major b = 0 ∧ ai < limit ∧ extLen ai ≤ tail.length then some (argVal ai (tail.take (extLen ai))) else none

/-- Nothing read yet. -/
def Rv.RvFirmwareInfo.none : Rv.RvFirmwareInfo where
  firmwareUrls := []
  firmwarePath := .none
  minFirmwareRev := .none
  serverUrl := .none

/-- What the information says to the reader of the firmware tags. -/
def RendezvousInfo.firmwareInfo (rv : RendezvousInfo) : Rv.RvFirmwareInfo :=
  rv.directives.foldl (fun info dir => dir.applyTo info) .none

/-- The operands of an instruction with a value are its variable and the value. -/
theorem RvInstruction.operands_of_value {P : Head → Prop} {i : RvInstruction} {v : BstrItem} (hvar : P i.var)
    (hv : i.value = some v) (hvalue : P v.head) : i.Operands P := by
  refine ⟨hvar, fun w hw => ?_⟩
  rw [hv] at hw
  obtain rfl := Option.some.inj hw
  exact hvalue

variable {d : Bytes} {p q : Nat}

/-- Where a head stands the data are not at their end. -/
theorem head_not_end {h : Head} {rest : Bytes} (hat : At d p (h.bytes ++ rest)) : ¬d.length ≤ p := by
  have hend := hat.end_le
  have hpos := h.bytes_pos
  rw [List.length_append] at hend
  omega

/-- An array is not a simple value. -/
theorem not_major_seven {h : Head} (hm : h.IsMajor 4) : ¬h.IsMajor 7 := fun h7 => absurd (hm.symm.trans h7) (by decide)

/-- A head of an array is one to the readers. -/
theorem major_four {h : Head} (hm : h.IsMajor 4) : ¬major h.initial ≠ 4 := not_not.2 hm

namespace Rv

/-- The argument of a head is read, or it takes eight bytes and is not. -/
theorem readCborUintArg_head {h : Head} (hat : At d p h.bytes) (h7 : ¬h.IsMajor 7) :
    h.Short ∧ readCborUintArg d (additional h.initial) (p + 1) = (.ok h.arg, p + h.bytes.length) ∨
      ¬h.Short ∧ readCborUintArg d (additional h.initial) (p + 1) = (.err (), p + 1) := by
  rcases cborReadUintArg_head hat h7 with ⟨hn, hread⟩ | ⟨hn, hread⟩
  · exact .inl ⟨hn.resolve_left h7, hread⟩
  · exact .inr ⟨fun hs => hn hs.narrow, hread⟩

/-- A short head of an integer is read as its argument. -/
theorem readCborUintAt_of_head {h : Head} (hat : At d p h.bytes) (hm : h.IsMajor 0) (hs : h.Short) :
    readCborUintAt d p = (.ok h.arg, p + h.bytes.length) := by
  unfold readCborUintAt cborReadUintValue
  have hm' : major h.initial = 0 := hm
  rw [bind_of_ok (next_of_head hat), ensure_of_true _ hm', bind_of_ok (pure_apply () _), cborReadUintArg_of_head hs hat]

/-- A byte string with a short head is read as its content. -/
theorem readCborBstrRaw_of_item {v : BstrItem} (hat : At d p v.bytes) (hs : v.head.Short) :
    readCborBstrRaw d p = (.ok v.content, p + v.bytes.length) := by
  obtain ⟨hhead, hcontent⟩ := at_append_iff.1 hat
  have hm : major v.head.initial = 2 := v.isBstr
  unfold readCborBstrRaw
  rw [bind_of_ok (next_of_head hhead)]
  unfold readCborUintArg
  rw [bind_of_ok (cborReadUintArg_of_head hs hhead)]
  simp only [hm]
  rw [take_ok_iff.2 ⟨hcontent, v.length, rfl⟩, ← v.length, BstrItem.bytes, List.length_append, Nat.add_assoc]

/-- An integer with a short head is stepped over. -/
theorem stepOver_of_uint {h : Head} (hat : At d p h.bytes) (hm : h.IsMajor 0) (hs : h.Short) :
    stepOver d p = (.ok (), p + h.bytes.length) := by
  unfold stepOver skipCborValueTo
  exact ignored_of_ok ((skipShort_of_head hs hat _).int (.inl hm))

/-- An instruction with operands that the reader takes: it is read, or its own head is too long. -/
theorem instruction_of_item {i : RvInstruction} (hop : i.Operands Head.Short) (hat : At d p i.bytes)
    (s : RvFirmwareInfo × Directive) :
    i.head.Short ∧ instruction d s p = (.ok (i.applyTo s), p + i.bytes.length) ∨
      ¬i.head.Short ∧ instruction d s p = (.err (), p + 1) := by
  obtain ⟨hhead, hrest⟩ := at_append_iff.1 hat
  unfold instruction
  rw [bind_of_ok (getS_apply _), if_neg (head_not_end hat), bind_of_ok (next_of_head hhead), if_neg (major_four i.isArray)]
  rcases readCborUintArg_head hhead (not_major_seven i.isArray) with ⟨hs, hread⟩ | ⟨hs, hread⟩
  · refine .inl ⟨hs, ?_⟩
    rw [bind_of_ok hread, i.count]
    obtain ⟨hvar, hvalue⟩ := at_append_iff.1 hrest
    rw [RvInstruction.bytes, List.length_append, List.length_append]
    cases hv : i.value with
    | none =>
      have hone : repeatN 1 (stepOver d) (p + i.head.bytes.length) = (.ok (), p + i.head.bytes.length + i.var.bytes.length) := by
        rw [repeatN_one]
        exact stepOver_of_uint hvar i.isUint hop.1
      rw [Option.toList_none, List.length_nil, if_pos (by omega), bind_of_ok hone, RvInstruction.applyTo, hv]
      rw [List.flatMap_nil, List.length_nil, Nat.add_zero, Nat.add_assoc]
      rfl
    | some v =>
      rw [hv, Option.toList_some, List.flatMap_singleton] at hvalue
      have hvarRead := readCborUintAt_of_head hvar i.isUint hop.1
      have hvalueRead := readCborBstrRaw_of_item hvalue (hop.2 v hv)
      rw [Option.toList_some, List.length_singleton, if_neg (by omega), bind_of_ok (attempt_of_ok hvarRead),
        bind_of_ok (attempt_of_ok hvalueRead), RvInstruction.applyTo, hv, List.flatMap_singleton, ← Nat.add_assoc, ← Nat.add_assoc]
      rfl
  · refine .inr ⟨hs, ?_⟩
    rw [bind_of_err hread]

/-- A directive whose instructions have operands that the reader takes is read, or it fails at a head that is too long. -/
theorem directive_of_item {dir : RvDirective} (hop : ∀ i ∈ dir.instructions, i.Operands Head.Short) (hat : At d p dir.bytes)
    {info info' : RvFirmwareInfo} (h : directive d info p = (.ok info', q)) :
    info' = dir.applyTo info ∧ q = p + dir.bytes.length := by
  obtain ⟨hhead, hrest⟩ := at_append_iff.1 hat
  unfold directive at h
  rw [bind_of_ok (getS_apply _), if_neg (head_not_end hat), bind_of_ok (next_of_head hhead),
    if_neg (major_four dir.isArray)] at h
  rcases readCborUintArg_head hhead (not_major_seven dir.isArray) with ⟨-, hread⟩ | ⟨-, hread⟩
  · rw [bind_of_ok hread, dir.count] at h
    obtain ⟨⟨info₁, vars⟩, r, hloop, hret⟩ := bind_ok_iff.1 h
    have hstep : ∀ i ∈ dir.instructions, ∀ s p s' q, At d p i.bytes → instruction d s p = (.ok s', q) →
        s' = i.applyTo s ∧ q = p + i.bytes.length := by
      intro i hi s p s' q hat hrun
      rcases instruction_of_item (hop i hi) hat s with ⟨-, hok⟩ | ⟨-, herr⟩
      · rw [hok] at hrun
        obtain ⟨hs, hq⟩ := Prod.mk.inj hrun
        exact ⟨(Outcome.ok.inj hs).symm, hq.symm⟩
      · rw [herr] at hrun
        nomatch hrun
    obtain ⟨hfold, rfl⟩ := foldN_pieces_ok hstep hrest hloop
    obtain ⟨rfl, rfl⟩ := pure_ok_iff.1 hret
    refine ⟨?_, by rw [RvDirective.bytes, List.length_append, Nat.add_assoc]⟩
    rw [RvDirective.applyTo, ← hfold]
  · rw [bind_of_err hread] at h
    nomatch h

/-- The first byte is there, so indexing it does not fail. -/
theorem directives_head {rv : RendezvousInfo} (hat : At d p rv.bytes) :
    directives d p = (readCborUintArg d (additional rv.head.initial) >>= fun len =>
      foldN len (directive d) .none >>= fun info =>
        ensure (info.serverUrl ≠ none ∨ info.firmwareUrls ≠ []) () >>= fun _ => pure info : R RvFirmwareInfo) (p + 1) := by
  have hindex : (Outcome.index d p : Outcome Unit UInt8) = .ok rv.head.initial :=
    Outcome.index_ok_iff.2 (peek_of_head (at_append_iff.1 hat).1)
  unfold directives
  rw [bind_of_ok (getS_apply _), bind_of_ok (ofOutcome_ok_iff.2 ⟨hindex, rfl⟩), bind_of_ok (advance_apply 1 p),
    ensure_of_true _ (show major rv.head.initial = 4 from rv.isArray), bind_of_ok (pure_apply () _)]
  rfl

/-- The whole information, where no variable and no value has a head that is too long. -/
theorem directives_of_item {rv : RendezvousInfo} (hop : ∀ i ∈ rv.instructions, i.Operands Head.Short) (hat : At d p rv.bytes)
    {info : RvFirmwareInfo} (h : directives d p = (.ok info, q)) : info = rv.firmwareInfo := by
  obtain ⟨hhead, hrest⟩ := at_append_iff.1 hat
  rw [directives_head hat] at h
  rcases readCborUintArg_head hhead (not_major_seven rv.isArray) with ⟨-, hread⟩ | ⟨-, hread⟩
  · rw [bind_of_ok hread, rv.count] at h
    obtain ⟨info₁, r, hloop, hret⟩ := bind_ok_iff.1 h
    obtain ⟨_, _, hens, hret⟩ := bind_ok_iff.1 hret
    obtain ⟨rfl, rfl⟩ := pure_ok_iff.1 hret
    have hstep : ∀ dir ∈ rv.directives, ∀ info p info' q, At d p dir.bytes → directive d info p = (.ok info', q) →
        info' = dir.applyTo info ∧ q = p + dir.bytes.length := by
      intro dir hdir info p info' q hat hrun
      exact directive_of_item (fun i hi => hop i (List.mem_flatMap.2 ⟨dir, hdir, hi⟩)) hat hrun
    exact (foldN_pieces_ok hstep hrest hloop).1
  · rw [bind_of_err hread] at h
    nomatch h

/-- The initial byte of what stands there decides whether it is unwrapped. -/
theorem parseRvFirmwareInfoAt_bare {rv : RendezvousInfo} (hat : At d p rv.bytes) :
    parseRvFirmwareInfoAt d p = directives d p := by
  have hpeek := peek_of_head (at_append_iff.1 hat).1
  have hm : ¬major rv.head.initial = 2 := fun h2 => absurd (h2.symm.trans rv.isArray) (by decide)
  unfold parseRvFirmwareInfoAt
  rw [bind_of_ok (getS_apply _), hpeek, orFail, bind_of_ok (pure_apply _ _), if_neg hm]

/-- Wrapped rendezvous information is that of the content. -/
theorem parseRvFirmwareInfoAt_wrapped {v : BstrItem} (hat : At d p v.bytes) :
    parseRvFirmwareInfoAt d p =
      (readCborBstrRaw d >>= fun rv => ofOutcome (directives rv).eval : R RvFirmwareInfo) p := by
  have hpeek := peek_of_head (at_append_iff.1 hat).1
  unfold parseRvFirmwareInfoAt
  rw [bind_of_ok (getS_apply _), hpeek, orFail, bind_of_ok (pure_apply _ _),
    if_pos (show major v.head.initial = 2 from v.isBstr)]

/-- A byte string with a longer head is not read. -/
theorem readCborBstrRaw_of_long {v : BstrItem} (hat : At d p v.bytes) (hs : ¬v.head.Short) :
    readCborBstrRaw d p = (.err (), p + 1) := by
  obtain ⟨hhead, -⟩ := at_append_iff.1 hat
  have h7 : ¬v.head.IsMajor 7 := fun h7 => absurd (v.isBstr.symm.trans h7) (by decide)
  unfold readCborBstrRaw
  rw [bind_of_ok (next_of_head hhead)]
  rcases readCborUintArg_head hhead h7 with ⟨hshort, -⟩ | ⟨-, hread⟩
  · exact absurd hshort hs
  · rw [bind_of_err hread]

/-- Only a byte string with a short head is read. -/
theorem short_of_readCborBstrRaw {v : BstrItem} {bs : Bytes} (hat : At d p v.bytes) (h : readCborBstrRaw d p = (.ok bs, q)) :
    v.head.Short := by
  by_contra hs
  rw [readCborBstrRaw_of_long hat hs] at h
  nomatch h

/-- What the reader returns, where no variable and no value has a head that is too long for it. -/
theorem parseRvFirmwareInfoAt_of_item {rv : RendezvousInfo} {wrap : Option Head}
    (hop : ∀ i ∈ rv.instructions, i.Operands Head.Short) (hat : rv.StandsAt wrap d p) {info : RvFirmwareInfo}
    (h : parseRvFirmwareInfoAt d p = (.ok info, q)) : info = rv.firmwareInfo := by
  cases wrap with
  | none =>
    have hbare : At d p rv.bytes := hat
    rw [parseRvFirmwareInfoAt_bare hbare] at h
    exact directives_of_item hop hbare h
  | some hd =>
    obtain ⟨hm, harg, hwrapped⟩ := hat
    have hv : At d p (BstrItem.mk hd rv.bytes hm harg.symm).bytes := hwrapped
    rw [parseRvFirmwareInfoAt_wrapped hv] at h
    obtain ⟨bs, r, hread, hinner⟩ := bind_ok_iff.1 h
    have hs := short_of_readCborBstrRaw hv hread
    rw [readCborBstrRaw_of_item hv hs] at hread
    obtain rfl : rv.bytes = bs := Outcome.ok.inj (Prod.mk.inj hread).1
    have hinside := eq_of_fst (ofOutcome_ok_iff.1 hinner).1
    exact directives_of_item hop (at_zero_iff.2 ⟨[], (List.append_nil _).symm⟩) hinside

end Rv

/-- An unsigned integer that starts a byte string is a head there. -/
theorem leadingUint_eq_some_iff {limit v : Nat} {c : Bytes} (hlimit : limit ≤ 28) :
    leadingUint limit c = some v ↔ ∃ h : Head, h.IsMajor 0 ∧ additional h.initial < limit ∧ At c 0 h.bytes ∧ v = h.arg := by
  constructor
  · intro h
    cases c with
    | nil => nomatch h
    | cons b tail =>
      rw [leadingUint] at h
      split_ifs at h with hc
      obtain ⟨hm, hai, hlen⟩ := hc
      refine ⟨⟨b, tail.take (extLen (additional b)), by rw [List.length_take, Nat.min_eq_left hlen], .inl (by omega)⟩, hm, hai, ?_,
        (Option.some.inj h).symm⟩
      refine at_zero_iff.2 ⟨tail.drop (extLen (additional b)), ?_⟩
      rw [Head.bytes, List.cons_append, List.take_append_drop]
  · rintro ⟨h, hm, hai, hat, rfl⟩
    obtain ⟨post, rfl⟩ := at_zero_iff.1 hat
    have hlen : extLen (additional h.initial) ≤ (h.tail ++ post).length := by
      rw [List.length_append, h.tail_length]
      omega
    have htake : (h.tail ++ post).take (extLen (additional h.initial)) = h.tail := List.take_left' h.tail_length
    rw [Head.bytes, List.cons_append, leadingUint, if_pos ⟨hm, hai, hlen⟩, htake, Head.arg]

/-- The value is a leading integer with an argument of four bytes at most. -/
theorem Rv.decodeCborUint_eq (c : Bytes) : Rv.decodeCborUint c = leadingUint 27 c := by
  refine Option.ext fun v => ?_
  rw [leadingUint_eq_some_iff (by omega), Rv.decodeCborUint, Outcome.toOption_eq_some_iff]
  constructor
  · intro h
    have hrun := eq_of_fst h
    unfold Rv.readCborUintAt cborReadUintValue at hrun
    simp only [bind_ok_iff, ensure_ok_iff] at hrun
    obtain ⟨b, t, hb, _, _, ⟨hm, rfl⟩, harg⟩ := hrun
    obtain ⟨k, rfl, h27, hat, rfl, -⟩ := cborHead_ok hb harg
    exact ⟨k, hm, h27, hat, rfl⟩
  · rintro ⟨k, hm, h27, hat, rfl⟩
    exact congrArg Prod.fst (Rv.readCborUintAt_of_head hat hm h27)

namespace Dctpm

/-- The revision that an instruction offers to the counter. -/
def offered (i : RvInstruction) : Option Nat := if i.var.arg = 18 then i.value.bind fun v => leadingUint 28 v.content else none

/-- A head is read as its major type and its argument. -/
theorem head_of_item {h : Head} {m : Nat} (hat : At d p h.bytes) (hm : h.IsMajor m) (h7 : m ≠ 7) :
    head d p = (.ok (m, h.arg), p + h.bytes.length) := by
  refine head_ok_iff.2 ⟨h, h.defined.resolve_right fun h7' => h7 (hm.symm.trans h7'), hat, hm.symm, rfl, rfl⟩

/-- A byte string is skipped. -/
theorem skipItem_bstr {v : BstrItem} (hat : At d p v.bytes) : skipItem d p = (.ok (), p + v.bytes.length) := by
  have hm : major v.head.initial = 2 := v.isBstr
  have hafter : After v.head v.content := by
    simp only [After, hm]
    exact v.length
  have h28 : additional v.head.initial < 28 := v.head.defined.resolve_right (by omega)
  exact skipItem_ok_iff.2 ⟨v.bytes, hat, rfl, skipped_of_after h28 hafter⟩

/-- The value of an instruction is read, whatever its variable. -/
theorem scanValue_of_item {i : RvInstruction} {v : BstrItem} (hv : i.value = some v) (hat : At d p v.bytes) (best : Nat) :
    scanValue d 0 i.var.arg best p = (.ok (max best ((offered i).getD 0)), p + v.bytes.length) := by
  unfold scanValue offered
  have h18 : rvMinFirmwareRevVariable = 18 := rfl
  rw [h18, hv, Option.bind_some]
  by_cases hvar : i.var.arg = 18
  · obtain ⟨hhead, hcontent⟩ := at_append_iff.1 hat
    have htake : Prog.take d v.head.arg (p + v.head.bytes.length) = (.ok v.content, p + v.bytes.length) :=
      take_ok_iff.2 ⟨hcontent, v.length, by rw [BstrItem.bytes, List.length_append, v.length, Nat.add_assoc]⟩
    rw [if_pos ⟨rfl, hvar⟩, if_pos hvar, bind_of_ok (head_of_item hhead v.isBstr (by decide)), bind_of_ok htake]
    have hread : ∀ r, (head v.content).eval = .ok (0, r) ↔ leadingUint 28 v.content = some r := by
      intro r
      rw [leadingUint_eq_some_iff (by omega)]
      constructor
      · intro h
        obtain ⟨k, h28, hk, hm, rfl, -⟩ := head_ok_iff.1 (eq_of_fst h)
        exact ⟨k, hm.symm, h28, hk, rfl⟩
      · rintro ⟨k, hm, h28, hk, rfl⟩
        exact congrArg Prod.fst (head_of_item hk hm (by decide))
    split
    · rename_i r _ hr
      rw [(hread r).1 hr]
      rfl
    · rename_i hno
      have hnone : leadingUint 28 v.content = none := by
        refine Option.eq_none_iff_forall_ne_some.2 fun r hr => ?_
        exact hno r rfl ((hread r).2 hr)
      rw [hnone, Option.getD_none, Nat.max_zero]
      rfl
  · rw [if_neg fun h => hvar h.2, if_neg hvar, bind_of_ok (skipItem_bstr hat), Option.getD_none, Nat.max_zero]
    rfl

/-- An instruction offers what it says to the scan. -/
theorem scanInstruction_of_item {i : RvInstruction} (hat : At d p i.bytes) (best : Nat) :
    scanInstruction d best p = (.ok (max best ((offered i).getD 0)), p + i.bytes.length) := by
  obtain ⟨hhead, hrest⟩ := at_append_iff.1 hat
  obtain ⟨hvar, hvalue⟩ := at_append_iff.1 hrest
  have hens : 4 = 4 ∧ i.head.arg ≠ 0 := ⟨rfl, by rw [i.count]; omega⟩
  unfold scanInstruction
  rw [bind_of_ok (head_of_item hhead i.isArray (by decide))]
  dsimp only
  rw [ensure_of_true _ hens, bind_of_ok (pure_apply () _), bind_of_ok (head_of_item hvar i.isUint (by decide))]
  rw [RvInstruction.bytes, List.length_append, List.length_append, i.count]
  cases hv : i.value with
  | none =>
    have hnone : offered i = none := by
      rw [offered, hv]
      split <;> rfl
    rw [hnone, Option.getD_none, Nat.max_zero, Option.toList_none, List.length_nil, if_pos (by omega), List.flatMap_nil,
      List.length_nil, Nat.add_zero, Nat.add_assoc]
    rfl
  | some v =>
    rw [hv, Option.toList_some, List.flatMap_singleton] at hvalue
    rw [Option.toList_some, List.length_singleton, if_neg (by omega), bind_of_ok (scanValue_of_item hv hvalue best),
      List.flatMap_singleton, ← Nat.add_assoc, ← Nat.add_assoc]
    rfl

/-- A directive offers what it says to the scan, instruction by instruction. -/
theorem scanDirective_of_item {dir : RvDirective} (hat : At d p dir.bytes) (best : Nat) :
    scanDirective d best p =
      (.ok (dir.instructions.foldl (fun best i => max best ((offered i).getD 0)) best), p + dir.bytes.length) := by
  obtain ⟨hhead, hrest⟩ := at_append_iff.1 hat
  unfold scanDirective
  rw [bind_of_ok (head_of_item hhead dir.isArray (by decide))]
  dsimp only
  rw [ensure_of_true _ rfl, bind_of_ok (pure_apply () _), dir.count,
    foldN_pieces (fun i _ best p hi => scanInstruction_of_item hi best) best hrest, RvDirective.bytes, List.length_append,
    Nat.add_assoc]

/-- The counter's reader takes the highest revision that is offered. -/
theorem rvMinFirmwareRev_of_item (rv : RendezvousInfo) :
    rvMinFirmwareRev rv.bytes = rv.instructions.foldl (fun best i => max best ((offered i).getD 0)) 0 := by
  have hat : At rv.bytes 0 rv.bytes := at_zero_iff.2 ⟨[], (List.append_nil _).symm⟩
  obtain ⟨hhead, hrest⟩ := at_append_iff.1 hat
  have hscan : (scan rv.bytes).eval = .ok (rv.instructions.foldl (fun best i => max best ((offered i).getD 0)) 0) := by
    unfold Run.eval scan
    rw [bind_of_ok (head_of_item hhead rv.isArray (by decide))]
    dsimp only
    rw [ensure_of_true _ rfl, bind_of_ok (pure_apply () _), rv.count,
      foldN_pieces (fun dir _ best p hdir => scanDirective_of_item hdir best) 0 hrest, RendezvousInfo.instructions,
      List.foldl_flatMap]
  rw [rvMinFirmwareRev, hscan]
  rfl

end Dctpm

/-! ## The URL -/

/-- The argument takes at most two bytes. -/
def Head.TwoBytes (h : Head) : Prop := additional h.initial < 26

/-- A head of two bytes is short. -/
theorem Head.TwoBytes.short {h : Head} (hs : Head.TwoBytes h) : h.Short := Nat.lt_succ_of_lt hs

/-- The bytes start with a head whose argument takes four bytes. -/
def startsWide : Bytes → Bool
  | [] => false
  | b :: _ => additional b = 26

/-- The value of an instruction does not start with a four-byte argument. -/
def RvInstruction.plain (i : RvInstruction) : Bool :=
  match i.value with
  | none => true
  | some v => !startsWide v.content

/-- What an instruction says about the server. -/
def RvInstruction.applyVars (vars : Rv.Directive) (i : RvInstruction) : Rv.Directive := (i.applyTo (.none, vars)).2

/-- The URL that the instructions in `keep` of a directive name. -/
def RvDirective.url (keep : RvInstruction → Bool) (dir : RvDirective) : Option Bytes :=
  Rv.serverUrlOf ((dir.instructions.filter keep).foldl RvInstruction.applyVars Rv.Directive.new)

/-- The first URL that a directive names. -/
def RendezvousInfo.url (keep : RvInstruction → Bool) (rv : RendezvousInfo) : Option Bytes :=
  rv.directives.findSome? (RvDirective.url keep)

namespace Tpm

/-- The two readers of an argument differ where it takes four bytes. -/
theorem readCborUintArg_eq {ai : Nat} (h : ai ≠ 26) : readCborUintArg d ai = cborReadUintArg d ai := by
  unfold readCborUintArg cborReadUintArg
  by_cases h23 : ai < 24
  · rw [if_pos h23, if_pos (show ai ≤ 23 by omega)]
  · rw [if_neg h23, if_neg (show ¬ai ≤ 23 by omega)]
    by_cases h24 : ai = 24
    · rw [if_pos h24, if_pos h24]
    · rw [if_neg h24, if_neg h24, if_neg h]

/-- A head and its content: nothing where the argument takes four bytes, and otherwise as the other reader. -/
theorem decode_eq {α : Type} (c : Bytes) (m : Nat) (f : Nat → R α) :
    (readShortHead c m >>= f : R α).eval.toOption =
      if startsWide c then none
      else (next c >>= fun b => ensure (major b = m) () >>= fun _ => cborReadUintArg c (additional b) >>= f : R α).eval.toOption := by
  cases c with
  | nil => rfl
  | cons b tail =>
    have hnext : next (b :: tail) 0 = (.ok b, 1) := rfl
    have hwide : startsWide (b :: tail) = decide (additional b = 26) := rfl
    unfold readShortHead Run.eval
    simp only [bind_assoc]
    rw [bind_of_ok hnext, bind_of_ok hnext, hwide]
    by_cases hm : major b = m
    · rw [ensure_of_true _ hm, bind_of_ok (pure_apply () _), bind_of_ok (pure_apply () _)]
      by_cases h26 : additional b = 26
      · rw [if_pos (decide_eq_true h26), h26]
        rfl
      · rw [if_neg (by simpa using h26), readCborUintArg_eq h26]
    · rw [ensure_of_false _ hm]
      split <;> rfl

/-- An integer is decoded as by the other reader, unless its head is wide. -/
theorem decodeCborUint_eq (c : Bytes) : decodeCborUint c = if startsWide c then none else Rv.decodeCborUint c := by
  have h := decode_eq c 0 pure
  simp only [bind_pure] at h
  exact h

/-- The argument of a head of two bytes is read. -/
theorem readCborUintArg_of_head {h : Head} (hat : At d p h.bytes) (hs : Head.TwoBytes h) :
    readCborUintArg d (additional h.initial) (p + 1) = (.ok h.arg, p + h.bytes.length) := by
  rw [readCborUintArg_eq (Nat.ne_of_lt hs), cborReadUintArg_of_head hs.short hat]

/-- A head of two bytes is read as its argument. -/
theorem readShortHead_of_head {h : Head} {m : Nat} (hat : At d p h.bytes) (hm : h.IsMajor m) (hs : Head.TwoBytes h) :
    readShortHead d m p = (.ok h.arg, p + h.bytes.length) := by
  have hm' : major h.initial = m := hm
  unfold readShortHead
  rw [bind_of_ok (next_of_head hat), ensure_of_true _ hm', bind_of_ok (pure_apply () _), readCborUintArg_of_head hat hs]

/-- A byte string with a head of two bytes is read as its content. -/
theorem readCborBstr_of_item {v : BstrItem} (hat : At d p v.bytes) (hs : Head.TwoBytes v.head) :
    readCborBstr d p = (.ok v.content, p + v.bytes.length) := by
  obtain ⟨hhead, hcontent⟩ := at_append_iff.1 hat
  unfold readCborBstr
  rw [bind_of_ok (readShortHead_of_head hhead v.isBstr hs), take_ok_iff.2 ⟨hcontent, v.length, rfl⟩, ← v.length, BstrItem.bytes,
    List.length_append, Nat.add_assoc]

end Tpm

end FdoUefi
