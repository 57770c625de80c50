import FdoUefi.Di
import FdoUefi.Lemmas.RvReturns

/-!
# The readers of the DCTPM index return

For any contents of the index the readers come back with a value or without one, except where item 5 is an empty byte string: it
is unwrapped, and then its first byte is indexed. The parser of DI takes such an item for rendezvous information and stores it.
-/

namespace FdoUefi

open Prog Prog.Run Cbor

/-- An empty byte string with a head in `P` stands at `p`. -/
def EmptyBstr (P : Head → Prop) (d : Bytes) (p : Nat) : Prop := ∃ h : Head, P h ∧ h.IsMajor 2 ∧ h.arg = 0 ∧ At d p h.bytes

/-- The way of `rv_parse.rs` to the entry 5 of a map: what cannot be stepped over is ignored. -/
def Rv.seekRvInfo (d : Bytes) : Nat → Rv.R Unit
  | 0 => fail ()
  | n + 1 => do
    let key ← Rv.readCborUintAt d
    if key = 5 then pure ()
    else
      Rv.stepOver d
      Rv.seekRvInfo d n

/-- The way of `rv_parse.rs` to item 5. -/
def Rv.walkToRvInfo (d : Bytes) : Rv.R Unit := do
  let (m, numItems) ← Tpm.readNumItems d
  match m with
  | 4 => do
    ensure (6 ≤ numItems) ()
    repeatN 5 (Rv.skipCborValueTo d (d.length + 1))
  | 5 => Rv.seekRvInfo d numItems
  | _ => fail ()

namespace Aux

variable {d : Bytes} {p q : Nat}

/-! ### The rendezvous information at a place -/

/-- What `tpm.rs` reads as an empty byte string is one. -/
theorem tpm_empty_iff : (∃ t, Tpm.readCborBstr d p = (.ok [], t)) ↔ EmptyBstr Head.TwoBytes d p := by
  constructor
  · rintro ⟨t, h⟩
    unfold Tpm.readCborBstr Tpm.readShortHead at h
    simp only [bind_ok_iff, ensure_ok_iff, take_ok_iff] at h
    obtain ⟨len, _, ⟨b, _, hb, _, _, ⟨hm, rfl⟩, harg⟩, -, hlen, -⟩ := h
    have h26 : additional b ≠ 26 := by
      intro h26
      have hfail : Tpm.readCborUintArg d 26 = fail () := rfl
      rw [h26, hfail] at harg
      cases harg
    rw [Tpm.readCborUintArg_eq h26] at harg
    obtain ⟨hd, rfl, h27, hat, rfl, -⟩ := cborHead_ok hb harg
    have htwo : Head.TwoBytes hd := show additional hd.initial < 26 by omega
    exact ⟨hd, htwo, hm, hlen.symm, hat⟩
  · rintro ⟨hd, htwo, hm, harg, hat⟩
    have hitem : At d p (BstrItem.mk hd [] hm harg.symm).bytes := by
      rw [BstrItem.bytes, List.append_nil]
      exact hat
    exact ⟨_, Tpm.readCborBstr_of_item hitem htwo⟩

/-- What `rv_parse.rs` reads as an empty byte string is one. -/
theorem rv_empty_iff : (∃ t, Rv.readCborBstrRaw d p = (.ok [], t)) ↔ EmptyBstr Head.Short d p := by
  constructor
  · rintro ⟨t, h⟩
    unfold Rv.readCborBstrRaw Rv.readCborUintArg at h
    obtain ⟨b, _, hb, h⟩ := bind_ok_iff.1 h
    obtain ⟨arg, _, harg, h⟩ := bind_ok_iff.1 h
    obtain ⟨hd, rfl, h27, hat, rfl, -⟩ := cborHead_ok hb harg
    have hno : ∀ {m : Rv.R Unit} {s : Nat}, (m >>= fun _ => (fail () : Rv.R Bytes)) s ≠ (.ok [], t) := by
      intro m s hf
      obtain ⟨_, _, -, hf⟩ := bind_ok_iff.1 hf
      nomatch hf
    split at h
    · rename_i hm
      obtain ⟨-, hlen, -⟩ := take_ok_iff.1 h
      exact ⟨hd, h27, hm, hlen.symm, hat⟩
    · exact absurd h hno
    · exact absurd h hno
    · exact absurd h hno
    · nomatch h
  · rintro ⟨hd, hs, hm, harg, hat⟩
    have hitem : At d p (BstrItem.mk hd [] hm harg.symm).bytes := by
      rw [BstrItem.bytes, List.append_nil]
      exact hat
    exact ⟨_, Rv.readCborBstrRaw_of_item hitem hs⟩

/-- Where the initial byte is that of a byte string, the rest is a matter of its content. -/
theorem unwrapped_returns_iff {α : Type} {read : Run Nat Unit Bytes} {f : Bytes → Outcome Unit α} (hread : Total read)
    (hf : ∀ bs, (f bs).Returns ↔ bs ≠ []) :
    ((read >>= fun bs => ofOutcome (f bs) : Run Nat Unit α) p).1.Returns ↔ ¬∃ t, read p = (.ok [], t) := by
  rw [bind_returns_iff]
  constructor
  · rintro ⟨-, hall⟩ ⟨t, h⟩
    exact (hf []).1 (hall [] t h) rfl
  · intro hno
    refine ⟨hread p, fun bs t h => (hf bs).2 ?_⟩
    rintro rfl
    exact hno ⟨t, h⟩

/-- An empty byte string starts as a byte string does. -/
theorem emptyBstr_peek {P : Head → Prop} (h : EmptyBstr P d p) : ∃ b, d[p]? = some b ∧ major b = 2 := by
  obtain ⟨hd, -, hm, -, hat⟩ := h
  exact ⟨hd.initial, peek_of_head hat, hm⟩

/-- Something has a length. -/
theorem length_pos_iff_ne_nil {bs : Bytes} : 0 < bs.length ↔ bs ≠ [] := List.length_pos_iff

end Aux

/-- `parse_rv_info_at` returns except at an empty byte string. -/
theorem parseRvInfoAt_returns_iff {d : Bytes} {p : Nat} : (Tpm.parseRvInfoAt d p).1.Returns ↔ ¬EmptyBstr Head.TwoBytes d p := by
  unfold Tpm.parseRvInfoAt
  rw [bind_of_ok (peek_apply d p)]
  cases hp : d[p]? with
  | none =>
    refine iff_of_true trivial fun hempty => ?_
    obtain ⟨b, hb, -⟩ := Aux.emptyBstr_peek hempty
    rw [hp] at hb
    nomatch hb
  | some b =>
    dsimp only
    by_cases hm : major b = 2
    · rw [if_pos hm, Aux.unwrapped_returns_iff Tpm.readCborBstr_total fun bs => ?_, Aux.tpm_empty_iff]
      rw [← Aux.length_pos_iff_ne_nil]
      exact Tpm.rvDirectives_returns_iff
    · rw [if_neg hm, Tpm.rvDirectives_returns_iff]
      obtain ⟨hlt, -⟩ := List.getElem?_eq_some_iff.1 hp
      refine iff_of_true hlt fun hempty => ?_
      obtain ⟨b', hb', hm'⟩ := Aux.emptyBstr_peek hempty
      obtain rfl : b = b' := Option.some.inj (hp.symm.trans hb')
      exact hm hm'

/-- `parse_rv_firmware_info_at`, which knows longer heads, returns except at an empty byte string. -/
theorem parseRvFirmwareInfoAt_returns_iff {d : Bytes} {p : Nat} :
    (Rv.parseRvFirmwareInfoAt d p).1.Returns ↔ ¬EmptyBstr Head.Short d p := by
  unfold Rv.parseRvFirmwareInfoAt
  rw [bind_of_ok (getS_apply _)]
  cases hp : d[p]? with
  | none =>
    refine iff_of_true trivial fun hempty => ?_
    obtain ⟨b, hb, -⟩ := Aux.emptyBstr_peek hempty
    rw [hp] at hb
    nomatch hb
  | some b =>
    rw [orFail, bind_of_ok (pure_apply b p)]
    by_cases hm : major b = 2
    · rw [if_pos hm, Aux.unwrapped_returns_iff Rv.readCborBstrRaw_total fun bs => ?_, Aux.rv_empty_iff]
      rw [← Aux.length_pos_iff_ne_nil]
      exact Rv.directives_returns_iff
    · rw [if_neg hm, Rv.directives_returns_iff]
      obtain ⟨hlt, -⟩ := List.getElem?_eq_some_iff.1 hp
      refine iff_of_true hlt fun hempty => ?_
      obtain ⟨b', hb', hm'⟩ := Aux.emptyBstr_peek hempty
      obtain rfl : b = b' := Option.some.inj (hp.symm.trans hb')
      exact hm hm'

namespace Aux

variable {d : Bytes}

/-! ### The way to item 5 -/

/-- The rendezvous information is looked for and then parsed. -/
theorem rv_findRvInfo_eq (n : Nat) : Rv.findRvInfo d n = Rv.seekRvInfo d n >>= fun _ => Rv.parseRvFirmwareInfoAt d := by
  induction n with
  | zero => rfl
  | succ n ih =>
    rw [Rv.findRvInfo, Rv.seekRvInfo, bind_assoc]
    congr 1
    funext key
    by_cases h5 : key = 5
    · rw [if_pos h5, if_pos h5]
      rfl
    · rw [if_neg h5, if_neg h5, bind_assoc, ih]

/-- Looking for the rendezvous information comes back. -/
theorem rv_seekRvInfo_total (n : Nat) : Total (Rv.seekRvInfo d n) := by
  induction n with
  | zero => exact .fail ()
  | succ n ih =>
    exact .bind Rv.readCborUintAt_total fun _ => .ite (fun _ => .pure ()) fun _ => .bind Rv.stepOver_total fun _ => ih

/-- The walk to the rendezvous information comes back. -/
theorem rv_walkToRvInfo_total : Total (Rv.walkToRvInfo d) := by
  refine .bind Tpm.readNumItems_total fun head => ?_
  obtain ⟨m, n⟩ := head
  dsimp only
  split
  · exact .bind .ensure fun _ => .repeatN Rv.skipCborValueTo_total 5
  · exact rv_seekRvInfo_total n
  · exact .fail ()

/-- The reader of the firmware tags goes to item 5 and reads it. -/
theorem parseRvFirmwareInfo_eq (d : Bytes) :
    Rv.parseRvFirmwareInfo d = (Rv.walkToRvInfo d >>= fun _ => Rv.parseRvFirmwareInfoAt d : Rv.R Rv.RvFirmwareInfo).eval := by
  have hitems : ∀ m n : Nat, (match m with
      | 4 => ensure (6 ≤ n) () >>= fun _ => repeatN 5 (Rv.skipCborValueTo d (d.length + 1)) >>= fun _ => Rv.parseRvFirmwareInfoAt d
      | 5 => Rv.findRvInfo d n
      | _ => fail () : Rv.R Rv.RvFirmwareInfo) =
      (match m with
        | 4 => ensure (6 ≤ n) () >>= fun _ => repeatN 5 (Rv.skipCborValueTo d (d.length + 1))
        | 5 => Rv.seekRvInfo d n
        | _ => fail () : Rv.R Unit) >>= fun _ => Rv.parseRvFirmwareInfoAt d := by
    intro m n
    split
    · rw [bind_assoc]
    · exact rv_findRvInfo_eq n
    · rfl
  unfold Rv.parseRvFirmwareInfo Rv.walkToRvInfo Tpm.readNumItems
  congr 1
  simp only [bind_assoc]
  congr 1
  funext b
  by_cases h23 : additional b < 24
  · rw [if_pos h23, if_pos h23]
    exact hitems (major b) (additional b)
  · rw [if_neg h23, if_neg h23]
    by_cases h24 : additional b = 24
    · rw [if_pos h24, if_pos h24]
      simp only [bind_assoc]
      congr 1
      funext n
      exact hitems (major b) n.toNat
    · rw [if_neg h24, if_neg h24]
      rfl

end Aux

/-- The readers of the index return exactly where item 5, as each of them comes to it, is not an empty byte string. -/
theorem nvReaders_return_iff (d : Bytes) :
    ((Tpm.readFdoCredentials d).Returns ∧ (Tpm.readFdoRvInfo d).Returns ∧ (Rv.parseRvFirmwareInfo d).Returns) ↔
      (∀ p, Tpm.findRvInfo d 0 = (.ok (), p) → ¬EmptyBstr Head.TwoBytes d p) ∧
        ∀ p, Rv.walkToRvInfo d 0 = (.ok (), p) → ¬EmptyBstr Head.Short d p := by
  have htpm : (Tpm.readFdoRvInfo d).Returns ↔ ∀ p, Tpm.findRvInfo d 0 = (.ok (), p) → ¬EmptyBstr Head.TwoBytes d p := by
    unfold Tpm.readFdoRvInfo Run.eval
    rw [bind_returns_iff]
    simp only [parseRvInfoAt_returns_iff]
    exact ⟨fun h p hp => h.2 () p hp, fun h => ⟨Tpm.findRvInfo_total 0, fun _ p hp => h p hp⟩⟩
  have hrv : (Rv.parseRvFirmwareInfo d).Returns ↔ ∀ p, Rv.walkToRvInfo d 0 = (.ok (), p) → ¬EmptyBstr Head.Short d p := by
    rw [Aux.parseRvFirmwareInfo_eq]
    unfold Run.eval
    rw [bind_returns_iff]
    simp only [parseRvFirmwareInfoAt_returns_iff]
    exact ⟨fun h p hp => h.2 () p hp, fun h => ⟨Aux.rv_walkToRvInfo_total 0, fun _ p hp => h p hp⟩⟩
  rw [htpm, hrv]
  exact ⟨fun h => h.2, fun h => ⟨Tpm.readFdoCredentials_returns d, h⟩⟩

/-! ### An OVHeader whose rendezvous information is an empty byte string -/

/-- `[200, guid, h'', "dev", [], null]` -/
def sampleEmptyRvHeader : Bytes :=
  [0x86, 0x18, 0xc8, 0x50] ++ List.replicate 16 0xaa ++ [0x40, 0x63, 0x64, 0x65, 0x76, 0x80, 0xf6]

/-- The digest of the public key `[]`. -/
def sampleEmptyRvCtx : Ctx :=
  Ctx.ofTables [] [([0x80], beBytes 32 0x76be8b528d0075f7aae98d6fa57a6d3c83ae480a8469e668d7b0af968995ac71)] []

/-- DI accepts the header and stores its item 5, and each reader of the rendezvous information panics on what it stored. -/
theorem emptyRvInfo_panics : ∃ h, Di.parseOvHeaderCbor sampleEmptyRvHeader = .ok h ∧ h.rvInfo = [0x40] ∧
    ¬(Tpm.readFdoRvInfo (Di.buildDctpm sampleEmptyRvCtx h Di.fdoDakHandle Di.fdoHmacHandle)).Returns ∧
    ¬(Rv.parseRvFirmwareInfo (Di.buildDctpm sampleEmptyRvCtx h Di.fdoDakHandle Di.fdoHmacHandle)).Returns := by
  have hok : Outcome.okWith (fun h => decide (h.rvInfo = [0x40] ∧
      ¬(Tpm.readFdoRvInfo (Di.buildDctpm sampleEmptyRvCtx h Di.fdoDakHandle Di.fdoHmacHandle)).Returns ∧
      ¬(Rv.parseRvFirmwareInfo (Di.buildDctpm sampleEmptyRvCtx h Di.fdoDakHandle Di.fdoHmacHandle)).Returns))
      (Di.parseOvHeaderCbor sampleEmptyRvHeader) = true := by decide
  obtain ⟨h, hparse, hall⟩ := Outcome.okWith_iff.1 hok
  exact ⟨h, hparse, of_decide_eq_true hall⟩

end FdoUefi
