import FdoUefi.Lemmas.DiHeader
import FdoUefi.Theorems.Voucher

/-!
# One OVHeader, two parsers

DI and TO2 parse the OVHeader each with a parser of its own. A header that DI has accepted, and whose key TO2 can read, is accepted
by TO2 with the same identity and the same manufacturer key.
-/

namespace FdoUefi

open Prog Prog.Run Cbor

namespace Aux

variable {d : Bytes} {p : Nat}

/-- An item that DI has captured is stepped over by `cbor_skip`. -/
theorem cborSkip_short {ε : Type} {e : ε} {u : Bytes} (hat : At d p u) (hu : Item Head.Short u) :
    okOr (cborSkip d) e p = (.ok (), p + u.length) := by
  have hnarrow : Item Head.Narrow u := hu.mono fun _ hs => hs.narrow
  exact okOr_ok_iff.2 (cborSkip_of_narrow hat hnarrow)

/-- What stands somewhere is in range. -/
theorem range?_of_at {u : Bytes} (hat : At d p u) : range? d p (p + u.length) = some u := range?_eq_some_iff_at.2 ⟨hat, rfl⟩

end Aux

/-- What DI accepts as an OVHeader, TO2 accepts too if it can read the manufacturer's key, with the same GUID, DeviceInfo and key. -/
theorem parseOvHeader_of_di (Γ : Ctx) {d : Bytes} {h : Di.OvHeader} {k : Bytes} (hdi : Di.parseOvHeaderCbor d = .ok h)
    (hkey : parseFdoPublicKey Γ h.pubKey = .ok k) :
    h.rawCbor = d ∧
      ∃ i, parseOvHeader Γ d = .ok i ∧ i.guid = h.guid ∧ i.deviceInfo = h.deviceInfo ∧ i.mfgKeyPoint = k := by
  obtain ⟨f⟩ := Di.parseOvHeaderCbor_fields hdi
  refine ⟨f.raw, ⟨f.protVer % 2 ^ 16, h.guid, h.deviceInfo, k⟩, ?_, rfl, rfl, rfl⟩
  obtain ⟨hrvAt, hrest⟩ := at_append_iff.1 f.rest
  obtain ⟨htextAt, hkeyAt⟩ := at_append_iff.1 hrest
  have htext : decodeTstr (f.textHead.bytes ++ h.deviceInfo) = .ok h.deviceInfo :=
    decodeTstr_of_text f.text f.text_short f.text_length f.text_utf8
  unfold parseOvHeader parseOvHeaderRun Run.eval
  rw [bind_of_ok (okOr_ok_iff.2 f.initial_read), ensure_of_true _ f.array, bind_of_ok (pure_apply () _),
    bind_of_ok (okOr_ok_iff.2 f.count_read), ensure_of_true _ f.five, bind_of_ok (pure_apply () _),
    bind_of_ok (okOr_ok_iff.2 f.version_read), bind_of_ok (okOr_ok_iff.2 f.guid_read),
    ensure_of_true _ f.guid_length, bind_of_ok (pure_apply () _)]
  -- The three opaque fields: where DI has captured an item, `cbor_skip` stops at its end.
  rw [bind_of_ok (Aux.cborSkip_short hrvAt f.rvInfo), bind_of_ok (getS_apply _),
    bind_of_ok (Aux.cborSkip_short htextAt f.textItem), bind_of_ok (getS_apply _), Aux.range?_of_at htextAt, Option.getD_some,
    bind_of_ok (ofOutcome_ok_iff.2 ⟨Outcome.noneAs_ok_iff.2 htext, rfl⟩), bind_of_ok (getS_apply _),
    bind_of_ok (Aux.cborSkip_short hkeyAt f.pubKey), bind_of_ok (getS_apply _), Aux.range?_of_at hkeyAt,
    bind_of_ok (orFail_ok_iff.2 ⟨rfl, rfl⟩), hkey, bind_of_ok (ofOutcome_ok_iff.2 ⟨rfl, rfl⟩), pure_apply]

/-- The sample voucher's header, as DI has parsed it. -/
def sampleDiHeader : Di.OvHeader where
  guid := sampleGuid
  rvInfo := [0x80]
  deviceInfo := utf8 "dev"
  pubKey := sampleOvHeader.drop 25 |>.take 96
  certChainHash := [0xf6]
  rawCbor := sampleOvHeader

/-- TO2 takes the manufacturer's key of the sample voucher from the header that DI has accepted. -/
theorem sampleOvHeader_read_by_both :
    sampleDiHeader.rawCbor = sampleOvHeader ∧
      ∃ i, parseOvHeader sampleVoucherCtx sampleOvHeader = .ok i ∧ i.guid = sampleGuid ∧ i.deviceInfo = utf8 "dev" ∧
        i.mfgKeyPoint = sampleMfgPoint :=
  parseOvHeader_of_di sampleVoucherCtx (h := sampleDiHeader) (by decide +kernel) (by decide)

end FdoUefi
