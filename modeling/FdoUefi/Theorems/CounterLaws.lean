import FdoUefi.Lemmas.Dctpm

/-!
# Get and set of DCMinFirmwareRev

What is written is read back, whatever follows it; the other items stay byte for byte; the last of two writes counts; and what
follows the array has no influence. The items are those that `skip` steps over, among them all well-formed ones
(`skipped_of_items`). Whatever the contents are, the functions of the counter come back.
-/

namespace FdoUefi

open Prog Prog.Run Cbor

namespace Dctpm

/-- `a` is an array of the items `items`. -/
def ArrayOf (a : Bytes) (items : List Bytes) : Prop :=
  ∃ hd : Head, additional hd.initial < 28 ∧ hd.IsMajor 4 ∧ hd.arg = items.length ∧ a = hd.bytes ++ items.flatten ∧
    ∀ item ∈ items, Skipped 1 item

namespace Aux

variable {d a tail : Bytes} {n : Nat} {ten old rest : Bytes} {items : List Bytes}

/-- The pieces of a structure, item by item. -/
theorem Parts.arrayOf (h : Parts d n ten old rest) :
    ∃ a items tail, d = a ++ tail ∧ ArrayOf a items := by
  obtain ⟨hd, h28, hmaj, harg, hat⟩ := h.head
  obtain ⟨tail, hd'⟩ := at_zero_iff.1 hat
  have hall : Skipped (10 + (min 1 (n - 10) + (n - 11))) (ten ++ (old ++ rest)) :=
    Skipped.append h.ten (Skipped.append h.old h.rest)
  obtain ⟨items, hl, heq, hitems⟩ := Skipped.exists_list hall
  have h10 := h.ten_le
  refine ⟨hd.bytes ++ items.flatten, items, tail, ?_, hd, h28, hmaj, by omega, rfl, hitems⟩
  rw [hd', heq]

/-- The items of an array of at least ten items, in three pieces. -/
theorem ArrayOf.parts (h : ArrayOf a items) (h10 : 10 ≤ items.length) (tail : Bytes) :
    Parts (a ++ tail) items.length (items.take 10).flatten ((items.drop 10).take 1).flatten (items.drop 11).flatten := by
  obtain ⟨hd, h28, hmaj, harg, rfl, hitems⟩ := h
  have hpart : ∀ part : List Bytes, (∀ item ∈ part, item ∈ items) → Skipped part.length part.flatten := fun part hmem =>
    StepsOver.flatten fun item hitem => hitems item (hmem item hitem)
  have hten := hpart (items.take 10) fun _ => List.mem_of_mem_take
  have hold := hpart ((items.drop 10).take 1) fun _ hmem => List.mem_of_mem_drop (List.mem_of_mem_take hmem)
  have hrest := hpart (items.drop 11) fun _ => List.mem_of_mem_drop
  have hsplit : items.flatten = (items.take 10).flatten ++ (((items.drop 10).take 1).flatten ++ (items.drop 11).flatten) := by
    rw [← List.flatten_append, ← List.flatten_append, ← List.drop_drop (i := 1) (j := 10), List.take_append_drop,
      List.take_append_drop]
  refine ⟨h10, ⟨hd, h28, hmaj, harg, ?_⟩, ?_, ?_, ?_⟩
  · rw [← hsplit]
    exact at_zero_iff.2 ⟨tail, rfl⟩
  · rwa [List.length_take, Nat.min_eq_left h10] at hten
  · rwa [List.length_take, List.length_drop] at hold
  · rwa [List.length_drop] at hrest

/-- A structure that is rewritten has at least ten items. -/
theorem ten_le_of_withMinFirmwareRev {rev : Nat} {o : Bytes} (h : withMinFirmwareRev (a ++ tail) rev = .ok o)
    (ha : ArrayOf a items) : 10 ≤ items.length := by
  obtain ⟨n, ten, old, rest, hp, -⟩ := withMinFirmwareRev_ok_iff.1 h
  obtain ⟨hd, -, -, harg, hat⟩ := hp.head
  obtain ⟨hd', -, -, harg', rfl, -⟩ := ha
  have hat' : At (hd'.bytes ++ items.flatten ++ tail) 0 hd'.bytes :=
    at_zero_iff.2 ⟨items.flatten ++ tail, by rw [List.append_assoc]⟩
  obtain rfl := Head.unique (at_append_iff.1 hat).1 hat'
  have h10 := hp.ten_le
  omega

/-- What is written is an array of the same items, with the new revision as item 10. -/
theorem ArrayOf.rewritten {rev : Nat} (h : ArrayOf a items) (h10 : 10 ≤ items.length) (hrev : rev < 2 ^ 64) :
    ArrayOf (encodeHead 4 (max items.length 11) ++ (items.take 10).flatten ++ encodeUint rev ++ (items.drop 11).flatten)
      (items.take 10 ++ encodeUint rev :: items.drop 11) := by
  have hlt := (ArrayOf.parts h h10 []).lt
  obtain ⟨-, -, -, -, -, hitems⟩ := h
  obtain ⟨hd, hb, hmaj, harg, h28⟩ := encodeHead_head (m := 4) (v := max items.length 11) (by omega) (by omega)
  refine ⟨hd, h28, hmaj, ?_, ?_, ?_⟩
  · rw [harg, List.length_append, List.length_cons, List.length_take, List.length_drop]
    omega
  · rw [hb, List.flatten_append, List.flatten_cons]
    simp only [List.append_assoc]
  · intro item hitem
    rcases List.mem_append.1 hitem with hmem | hmem
    · exact hitems item (List.mem_of_mem_take hmem)
    · rcases List.mem_cons.1 hmem with rfl | hmem
      · exact skipped_encodeUint hrev
      · exact hitems item (List.mem_of_mem_drop hmem)

/-- The head of the index is read without a panic. -/
theorem arrayHead_lands : Lands d.length 0 (fun _ _ => True) (arrayHead d 0) := by
  refine Lands.bind (head_lands le_rfl (Nat.zero_le _)) fun h r hpr hr _ => ?_
  exact Lands.bind (Lands.ensure hpr hr) fun _ s hps hs _ => Lands.pure hps hs trivial

/-- The rest starts behind the tenth item and ends inside of the data. -/
theorem restRange_lands {p : Nat} (hp : p ≤ d.length) (n : Nat) :
    Lands d.length p (fun r _ => r.1 ≤ r.2 ∧ r.2 ≤ d.length) (restRange d n p) := by
  refine Lands.ite (fun _ => ?_) fun _ => ?_
  · refine Lands.bind (skipItem_lands le_rfl hp) fun _ q hpq hq _ => ?_
    refine Lands.bind (Lands.getS hpq hq) fun start q' hpq' hq' hstart => ?_
    obtain ⟨rfl, rfl⟩ := hstart
    have hrest := Lands.repeatN (n := n - (minFirmwareRevItem + 1)) le_rfl hq' fun r _ hr => skipItem_lands (d := d) le_rfl hr
    refine Lands.bind ((hrest.mono le_rfl fun _ _ hle _ _ => hle).mono hpq' fun _ _ _ _ h => h) fun _ r hpr hr hle => ?_
    refine Lands.bind (Lands.getS hpr hr) fun stop r' hpr' hr' hstop => ?_
    obtain ⟨rfl, rfl⟩ := hstop
    exact Lands.pure hpr' hr' ⟨hle, hr'⟩
  · refine Lands.bind (Lands.getS le_rfl hp) fun pos q hpq hq hpos => ?_
    obtain ⟨rfl, rfl⟩ := hpos
    exact Lands.pure hpq hq ⟨le_rfl, hq⟩

/-- A value of the scan is read without a panic. -/
theorem scanValue_lands {p q vm var best : Nat} (hpq : p ≤ q) (hq : q ≤ d.length) :
    Lands d.length p (fun _ _ => True) (scanValue d vm var best q) := by
  refine Lands.ite (fun _ => ?_) fun _ => ?_
  · refine Lands.bind (head_lands hpq hq) fun h r hpr hr _ => ?_
    refine Lands.bind (Lands.take hpr hr le_rfl) fun inner s hps hs _ => ?_
    split
    · exact Lands.pure hps hs trivial
    · exact Lands.pure hps hs trivial
  · exact Lands.bind (skipItem_lands hpq hq) fun _ r hpr hr _ => Lands.pure hpr hr trivial

/-- An instruction of the scan is read without a panic. -/
theorem scanInstruction_lands {p q : Nat} (best : Nat) (hpq : p ≤ q) (hq : q ≤ d.length) :
    Lands d.length p (fun _ _ => True) (scanInstruction d best q) := by
  refine Lands.bind (head_lands hpq hq) fun h r hpr hr _ => Lands.bind (Lands.ensure hpr hr) fun _ s hps hs _ => ?_
  refine Lands.bind (head_lands hps hs) fun h' t hpt ht _ => Lands.ite (fun _ => Lands.pure hpt ht trivial) fun _ => ?_
  refine Lands.bind (scanValue_lands hpt ht) fun best' u hpu hu _ => ?_
  refine Lands.bind (Lands.repeatN hpu hu fun v _ hv => skipItem_lands le_rfl hv) fun _ v hpv hv _ => ?_
  exact Lands.pure hpv hv trivial

/-- The rendezvous information is scanned without a panic. -/
theorem scan_lands : Lands d.length 0 (fun _ _ => True) (scan d 0) := by
  refine Lands.bind (head_lands le_rfl (Nat.zero_le _)) fun h r hpr hr _ => Lands.bind (Lands.ensure hpr hr) fun _ s hps hs _ => ?_
  refine Lands.foldN hps hs (fun best q _ hq => ?_) 0
  refine Lands.bind (head_lands le_rfl hq) fun h' t hpt ht _ => Lands.bind (Lands.ensure hpt ht) fun _ u hpu hu _ => ?_
  exact Lands.foldN hpu hu (fun best' v _ hv => scanInstruction_lands best' le_rfl hv) best

end Aux

/-- The laws of the rollback counter. -/
theorem minFirmwareRev_laws {d o : Bytes} {rev : UInt64} (h : withMinFirmwareRev d rev.toNat = .ok o) :
    (∀ z, minFirmwareRev (o ++ z) = .ok rev.toNat) ∧
      (∃ a items tail, d = a ++ tail ∧ ArrayOf a items) ∧
      (∀ a items tail, d = a ++ tail → ArrayOf a items →
        ArrayOf o (items.take 10 ++ encodeUint rev.toNat :: items.drop 11) ∧
        ∀ tail', withMinFirmwareRev (a ++ tail') rev.toNat = .ok o) ∧
      ∀ rev₂ : UInt64, withMinFirmwareRev o rev₂.toNat = withMinFirmwareRev d rev₂.toNat := by
  refine ⟨fun z => (withMinFirmwareRev_ok rev.toNat_lt h z).2, ?_, ?_, ?_⟩
  · obtain ⟨n, ten, old, rest, hp, -⟩ := withMinFirmwareRev_ok_iff.1 h
    exact Aux.Parts.arrayOf hp
  · rintro a items tail rfl ha
    have h10 := Aux.ten_le_of_withMinFirmwareRev h ha
    have hnew : ∀ tail', withMinFirmwareRev (a ++ tail') rev.toNat = .ok (encodeHead 4 (max items.length 11) ++
        (items.take 10).flatten ++ encodeUint rev.toNat ++ (items.drop 11).flatten) := fun tail' =>
      withMinFirmwareRev_ok_iff.2 ⟨_, _, _, _, Aux.ArrayOf.parts ha h10 tail', rfl⟩
    have ho := Outcome.ok.inj (h.symm.trans (hnew tail))
    rw [ho]
    exact ⟨Aux.ArrayOf.rewritten ha h10 rev.toNat_lt, hnew⟩
  · intro rev₂
    obtain ⟨n, ten, old, rest, hp, ho⟩ := withMinFirmwareRev_ok_iff.1 h
    have hd : withMinFirmwareRev d rev₂.toNat = .ok (encodeHead 4 (max n 11) ++ ten ++ encodeUint rev₂.toNat ++ rest) :=
      withMinFirmwareRev_ok_iff.2 ⟨n, ten, old, rest, hp, rfl⟩
    have ho₂ : Parts o (max n 11) ten (encodeUint rev.toNat) rest := by
      have hnew := hp.rewritten rev.toNat_lt []
      rwa [List.append_nil, ← ho] at hnew
    have ho' : withMinFirmwareRev o rev₂.toNat = .ok (encodeHead 4 (max (max n 11) 11) ++ ten ++ encodeUint rev₂.toNat ++ rest) :=
      withMinFirmwareRev_ok_iff.2 ⟨_, _, _, _, ho₂, rfl⟩
    have hmax : max (max n 11) 11 = max n 11 := by omega
    rw [ho', hd, hmax]

/-- Whatever the index or the rendezvous information holds, reading the counter, setting it and looking for its first value come back:
no slice is out of range, and the recursion never gets deeper than it may. -/
theorem counter_returns (d : Bytes) (rev : Nat) :
    (minFirmwareRev d).Returns ∧ (withMinFirmwareRev d rev).Returns ∧ (scan d).eval.Returns := by
  refine ⟨Lands.eval_returns d.length ?_, Lands.eval_returns d.length ?_, Lands.eval_returns d.length Aux.scan_lands⟩
  · refine Lands.bind Aux.arrayHead_lands fun n p hp hpl _ => Lands.ite (fun _ => Lands.pure hp hpl trivial) fun _ => ?_
    refine Lands.bind (Lands.repeatN hp hpl fun q _ hq => skipItem_lands le_rfl hq) fun _ q h0q hq _ => ?_
    refine Lands.bind (head_lands h0q hq) fun h r hpr hr _ => ?_
    exact Lands.bind (Lands.ensure hpr hr) fun _ s hps hs _ => Lands.pure hps hs trivial
  · refine Lands.bind Aux.arrayHead_lands fun n p hp hpl _ => ?_
    refine Lands.bind (Lands.getS hp hpl) fun start p' hp' hpl' hstart => ?_
    obtain ⟨rfl, rfl⟩ := hstart
    have hten := Lands.repeatN (n := minFirmwareRevItem) le_rfl hpl' fun r _ hr => skipItem_lands (d := d) le_rfl hr
    refine Lands.bind ((hten.mono le_rfl fun _ _ hle _ _ => hle).mono hp' fun _ _ _ _ h => h) fun _ q h0q hq hle => ?_
    refine Lands.bind (Lands.getS h0q hq) fun stop q' h0q' hq' hstop => ?_
    obtain ⟨rfl, rfl⟩ := hstop
    refine Lands.bind ((Aux.restRange_lands hq' n).mono h0q' fun _ _ _ _ h => h) fun rest r h0r hr hrest => ?_
    refine Lands.bind (Lands.slice hle hq' h0r hr) fun firstTen s h0s hs _ => ?_
    exact Lands.bind (Lands.slice hrest.1 hrest.2 h0s hs) fun last t h0t ht _ => Lands.pure h0t ht trivial

end Dctpm

/-- A structure of ten items, the sixth an array, with two bytes after it. -/
def sampleTenItems : Bytes :=
  [0x8a, 0x1a, 0x46, 0x44, 0x4f, 0x31, 0xf5, 0x18, 0xc8, 0x63, 0x64, 0x65, 0x76, 0x41, 0xaa, 0x81, 0x81, 0x82, 0x0c, 0x41, 0x05,
    0x82, 0x2f, 0x41, 0x00, 0x00, 0x18, 0x02, 0x18, 0x03, 0, 0]

/-- Setting a counter that is appended: it is read back as 300, and the bytes after the array are left out. -/
theorem sampleTenItems_set :
    ∃ o, Dctpm.withMinFirmwareRev sampleTenItems 300 = .ok o ∧ Dctpm.minFirmwareRev (o ++ [0xff]) = .ok 300 := by
  have hok : Outcome.okWith (fun _ => true) (Dctpm.withMinFirmwareRev sampleTenItems 300) = true := by decide
  obtain ⟨o, ho, -⟩ := Outcome.okWith_iff.1 hok
  have h : Dctpm.withMinFirmwareRev sampleTenItems (300 : UInt64).toNat = .ok o := ho
  exact ⟨o, ho, (Dctpm.minFirmwareRev_laws h).1 [0xff]⟩

end FdoUefi
