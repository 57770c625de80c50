import FdoUefi.Lemmas.ReadBack
import FdoUefi.Theorems.Di

/-!
# What DI stores and what onboarding reads back

DI writes the structure with heads of its own, and four readers with three different skip routines take it apart again. What is
read back is what was stored for a DeviceInfo of fewer than 256 bytes, the most its one length byte can say, and rendezvous
information that `skip_cbor_value` of `tpm.rs` steps over as one item.
-/

namespace FdoUefi

open Prog Prog.Run Cbor

/-- Where DI puts the rendezvous information. -/
def rvInfoPlace (h : Di.OvHeader) : Nat :=
  9 + (Di.deviceInfoHead h.deviceInfo.length).length + h.deviceInfo.length + 17

/-- To the two readers of the rendezvous information item 5 is `u`: it stands at `p`, both go on from there, and what their skip
routines take for one item there ends where `u` does. -/
structure SeesItem5 (d : Bytes) (p : Nat) (u : Bytes) : Prop where
  stands : At d p u
  url : Tpm.findRvInfo d 0 = (.ok (), p)
  url_end : Tpm.skipCborValue d p = (.ok (), p + u.length)
  firmware : Rv.parseRvFirmwareInfo d = (Rv.parseRvFirmwareInfoAt d p).1
  firmware_end : Rv.skipCborValueTo d (d.length + 1) p = (.ok (), p + u.length)

/-- Every reader gets from the index what DI has put there. -/
structure ReadsBack (Γ : Ctx) (h : Di.OvHeader) (dakHandle hmacHandle : Nat) : Prop where
  credentials : Tpm.readFdoCredentials (dctpmPadded (Di.buildDctpm Γ h dakHandle hmacHandle)) =
    .ok { guid := h.guid, deviceKeyHandle := dakHandle, hmacKeyHandle := hmacHandle }
  revision : Dctpm.minFirmwareRev (dctpmPadded (Di.buildDctpm Γ h dakHandle hmacHandle)) =
    .ok (Dctpm.rvMinFirmwareRev h.rvInfo)
  rvInfo : SeesItem5 (dctpmPadded (Di.buildDctpm Γ h dakHandle hmacHandle)) (rvInfoPlace h) h.rvInfo

namespace Aux

variable {Γ : Ctx} {h : Di.OvHeader} {dak hmac : Nat}

/-- What follows the rendezvous information and its two neighbours. -/
def builtRest (h : Di.OvHeader) (dak hmac : Nat) (z : Bytes) : Bytes :=
  Di.handleItem dak ++ (Di.handleItem hmac ++ (Dctpm.encodeUint (Dctpm.rvMinFirmwareRev h.rvInfo) ++ z))

/-- The places of the pieces. -/
structure Places (Γ : Ctx) (h : Di.OvHeader) (dak hmac : Nat) (d z : Bytes) : Prop where
  head : At d 0 [0x8b]
  front : At d 1 (Di.builtFront h)
  rvInfo : At d (1 + (Di.builtFront h).length) h.rvInfo
  middle : At d (1 + (Di.builtFront h).length + h.rvInfo.length) (Di.builtMiddle Γ h)
  rest : At d (1 + (Di.builtFront h).length + h.rvInfo.length + (Di.builtMiddle Γ h).length) (builtRest h dak hmac z)

/-- What DI writes stands at its places in the padded index. -/
theorem places (Γ : Ctx) (h : Di.OvHeader) (dak hmac : Nat) :
    ∃ z, dctpmPadded (Di.buildDctpm Γ h dak hmac) = Di.buildDctpm Γ h dak hmac ++ z ∧
      Places Γ h dak hmac (dctpmPadded (Di.buildDctpm Γ h dak hmac)) z := by
  refine ⟨_, rfl, ?_⟩
  have hall : At (dctpmPadded (Di.buildDctpm Γ h dak hmac)) 0
      ([0x8b] ++ (Di.builtFront h ++ (h.rvInfo ++ (Di.builtMiddle Γ h ++ builtRest h dak hmac
        (List.replicate (dctpmDefaultSize - (Di.buildDctpm Γ h dak hmac).length) 0))))) := by
    refine at_zero_iff.2 ⟨[], ?_⟩
    rw [dctpmPadded, Di.buildDctpm_eq, Di.builtItems_eq]
    simp [builtRest]
  obtain ⟨h0, hall⟩ := at_append_iff.1 hall
  obtain ⟨h1, hall⟩ := at_append_iff.1 hall
  obtain ⟨h2, hall⟩ := at_append_iff.1 hall
  obtain ⟨h3, h4⟩ := at_append_iff.1 hall
  exact ⟨h0, h1, h2, h3, h4⟩

/-- The rendezvous information stands behind the front. -/
theorem rvInfoPlace_eq (hguid : h.guid.length = 16) : rvInfoPlace h = 1 + (Di.builtFront h).length := by
  simp only [rvInfoPlace, Di.builtFront, Di.builtInfo, List.length_append, List.length_cons, List.length_nil, hguid]
  omega

/-! ### The readers -/

variable {d z : Bytes}

/-- The index is an array of eleven. -/
theorem readNumItems_built (pl : Places Γ h dak hmac d z) : Tpm.readNumItems d 0 = (.ok (4, 11), 1) := by
  unfold Tpm.readNumItems
  rw [bind_of_ok (next_ok_iff.2 ⟨pl.head, rfl⟩)]
  rfl

/-- The reader of `tpm.rs` stands behind the magic and the items up to the GUID. -/
theorem front_parts (pl : Places Γ h dak hmac d z) :
    At d 1 [0x1a, 0x46, 0x44, 0x4f, 0x31] ∧ At d 6 (Di.builtInfo h) ∧ At d (6 + (Di.builtInfo h).length) (0x50 :: [] ++ h.guid) := by
  obtain ⟨hmi, hguid⟩ := at_append_iff.1 (show At d 1 ([0x1a, 0x46, 0x44, 0x4f, 0x31] ++ Di.builtInfo h ++ (0x50 :: [] ++ h.guid))
    from pl.front)
  obtain ⟨hmagic, hinfo⟩ := at_append_iff.1 hmi
  refine ⟨hmagic, hinfo, ?_⟩
  have hplace : 1 + ([0x1a, 0x46, 0x44, 0x4f, 0x31] ++ Di.builtInfo h).length = 6 + (Di.builtInfo h).length := by
    rw [List.length_append, ← Nat.add_assoc]
    rfl
  rwa [hplace] at hguid

/-- The credentials are read back. -/
theorem readFdoCredentials_built (pl : Places Γ h dak hmac d z) (hguid : h.guid.length = 16)
    (hinfo : h.deviceInfo.length < 256) (hrv : StepsOver Tpm.skipCborValueTo 1 h.rvInfo)
    (hsha : (Γ.sha256 h.pubKey).length = 32) (hdak : dak < 2 ^ 32) (hhmac : hmac < 2 ^ 32) :
    Tpm.readFdoCredentials d = .ok { guid := h.guid, deviceKeyHandle := dak, hmacKeyHandle := hmac } := by
  obtain ⟨hmagic, hinfoAt, hguidAt⟩ := front_parts pl
  obtain ⟨hdakAt, hrest⟩ := at_append_iff.1 (show At d _ (Di.handleItem dak ++ _) from pl.rest)
  obtain ⟨hhmacAt, -⟩ := at_append_iff.1 hrest
  have hthree : repeatN 3 (Tpm.skipCborValue d) 6 = (.ok (), 6 + (Di.builtInfo h).length) :=
    Tpm.repeatN_skipCborValue (Tpm.stepsOver_of_noShortFloat (Di.items_builtInfo hinfo)) hinfoAt
  have hmiddle : StepsOver Tpm.skipCborValueTo 3 (h.rvInfo ++ Di.builtMiddle Γ h) :=
    hrv.append (Tpm.stepsOver_of_noShortFloat (Di.items_builtMiddle hsha))
  have hplace : 6 + (Di.builtInfo h).length + (0x50 :: [] ++ h.guid).length = 1 + (Di.builtFront h).length := by
    simp only [Di.builtFront, List.length_append, List.length_cons, List.length_nil]
    omega
  have hthree' := Tpm.repeatN_skipCborValue hmiddle (at_append_iff.2 ⟨pl.rvInfo, pl.middle⟩)
  rw [List.length_append, ← Nat.add_assoc] at hthree'
  have harray : (Tpm.arrayCredentials d 1).1 = .ok { guid := h.guid, deviceKeyHandle := dak, hmacKeyHandle := hmac } := by
    unfold Tpm.arrayCredentials
    rw [bind_of_ok (Tpm.readMagic_of_magic hmagic), bind_of_ok hthree, bind_of_ok (Tpm.readGuid_of_guid hguid hguidAt), hplace,
      bind_of_ok hthree', bind_of_ok (Tpm.readCborUint_handleItem hdak hdakAt),
      bind_of_ok (Tpm.readCborUint_handleItem hhmac hhmacAt)]
    rfl
  unfold Tpm.readFdoCredentials Run.eval
  rw [bind_of_ok (readNumItems_built pl)]
  change ((ensure (10 ≤ 11) () >>= fun _ => Tpm.arrayCredentials d : Tpm.R FdoCredentials) 1).1 = _
  rw [ensure_of_true _ (by decide), bind_of_ok (pure_apply () _)]
  exact harray

/-- Both readers of the rendezvous information come to it, and to its end. -/
theorem seesItem5_built (pl : Places Γ h dak hmac d z) (hguid : h.guid.length = 16) (hinfo : h.deviceInfo.length < 256)
    (hrv : StepsOver Tpm.skipCborValueTo 1 h.rvInfo) (hshort : Item Head.Short h.rvInfo) :
    SeesItem5 d (1 + (Di.builtFront h).length) h.rvInfo := by
  have hfront := Di.items_builtFront hguid hinfo
  have hend := pl.rvInfo.end_le
  have hrvfront := pl.front.end_le
  refine ⟨pl.rvInfo, ?_, ?_, ?_, ?_⟩
  · unfold Tpm.findRvInfo
    rw [bind_of_ok (readNumItems_built pl)]
    change (ensure (6 ≤ 11) () >>= fun _ => repeatN 5 (Tpm.skipCborValue d) : Tpm.R Unit) 1 = _
    rw [ensure_of_true _ (by decide), bind_of_ok (pure_apply () _)]
    exact Tpm.repeatN_skipCborValue (Tpm.stepsOver_of_noShortFloat hfront) pl.front
  · exact stepsOver_one_iff.1 hrv d _ (d.length + 1) (by omega) pl.rvInfo
  · have hfive : repeatN 5 (Rv.skipCborValueTo d (d.length + 1)) 1 = (.ok (), 1 + (Di.builtFront h).length) :=
      Rv.stepsOver_of_short (hfront.mono fun _ hp => hp.1) d 1 (d.length + 1) (by omega) pl.front
    unfold Rv.parseRvFirmwareInfo Run.eval
    rw [bind_of_ok (next_ok_iff.2 ⟨pl.head, rfl⟩), if_pos (by decide), bind_of_ok (pure_apply _ _)]
    simp only [(by decide : major 0x8b = 4)]
    rw [ensure_of_true _ (by decide), bind_of_ok (pure_apply () _), bind_of_ok hfive]
  · exact stepsOver_one_iff.1 (Rv.stepsOver_of_short hshort) d _ (d.length + 1) (by omega) pl.rvInfo

/-! ### A DeviceInfo that is too long -/

/-- The items up to the GUID as the readers see them: DeviceInfo ends where its length byte says. -/
def cutInfo (h : Di.OvHeader) : Bytes :=
  [0xf5] ++ [0x18, 200] ++ ([0x78, UInt8.ofNat h.deviceInfo.length] ++ h.deviceInfo.take (h.deviceInfo.length % 256))

/-- The fields with a DeviceInfo that is cut are items. -/
theorem items_cutInfo (h : Di.OvHeader) : Items Head.NoShortFloat 3 (cutInfo h) := by
  have hlen : (h.deviceInfo.take (h.deviceInfo.length % 256)).length = h.deviceInfo.length % 256 := by
    rw [List.length_take]
    exact min_eq_left (Nat.mod_le _ _)
  have harg : argVal (additional 0x78) [UInt8.ofNat h.deviceInfo.length] = h.deviceInfo.length % 256 := by
    rw [argVal, if_neg (by decide)]
    simp [beNat]
  have htext : Item Head.NoShortFloat
      ([0x78, UInt8.ofNat h.deviceInfo.length] ++ h.deviceInfo.take (h.deviceInfo.length % 256)) :=
    Item.str ⟨0x78, [UInt8.ofNat h.deviceInfo.length], rfl, .inl (by decide)⟩ _
      (Di.noShortFloat_of_ne (by decide : additional 0x78 < 27) (by decide : major 0x78 ≠ 7)) (.inr (by decide : major 0x78 = 3))
      (hlen.trans harg.symm)
  exact Di.items_active.append htext

/-- The fields with a DeviceInfo that is cut stand where the longer ones do. -/
theorem cutInfo_at (hlong : 256 ≤ h.deviceInfo.length) {p : Nat} (hat : At d p (Di.builtInfo h)) : At d p (cutInfo h) := by
  have hsplit : Di.builtInfo h = cutInfo h ++ h.deviceInfo.drop (h.deviceInfo.length % 256) := by
    have hhead : Di.deviceInfoHead h.deviceInfo.length = [0x78, UInt8.ofNat h.deviceInfo.length] := by
      rw [Di.deviceInfoHead, if_neg (by omega)]
    simp [Di.builtInfo, cutInfo, hhead, List.take_append_drop]
  rw [hsplit] at hat
  exact (at_append_iff.1 hat).1

/-- Where the credentials are read from the GUID's place and the rendezvous information from its own, DeviceInfo is short. -/
theorem deviceInfo_lt (pl : Places Γ h dak hmac d z) (hguid : h.guid.length = 16) {c : FdoCredentials}
    (hcred : Tpm.readFdoCredentials d = .ok c) (hurl : Tpm.findRvInfo d 0 = (.ok (), 1 + (Di.builtFront h).length)) :
    h.deviceInfo.length < 256 := by
  by_contra hshort
  have hlong : 256 ≤ h.deviceInfo.length := by omega
  obtain ⟨hmagic, hinfoAt, -⟩ := front_parts pl
  have hcut := cutInfo_at hlong hinfoAt
  have hlen : (cutInfo h).length = 5 + h.deviceInfo.length % 256 := by
    simp [cutInfo]
    omega
  have hfull : (Di.builtFront h).length = 27 + h.deviceInfo.length := by
    have hhead : Di.deviceInfoHead h.deviceInfo.length = [0x78, UInt8.ofNat h.deviceInfo.length] := by
      rw [Di.deviceInfoHead, if_neg (by omega)]
    simp [Di.builtFront, Di.builtInfo, hhead, hguid]
    omega
  -- The credentials: a byte string of 16 bytes stands behind the cut DeviceInfo.
  have hthree : repeatN 3 (Tpm.skipCborValue d) 6 = (.ok (), 6 + (cutInfo h).length) :=
    Tpm.repeatN_skipCborValue (Tpm.stepsOver_of_noShortFloat (items_cutInfo h)) hcut
  obtain ⟨hd, hm, hhead, hhlen, harg⟩ : ∃ hd : Head, hd.IsMajor 2 ∧ At d (6 + (cutInfo h).length) hd.bytes ∧
      hd.bytes.length ≤ 3 ∧ hd.arg = 16 := by
    unfold Tpm.readFdoCredentials Run.eval at hcred
    rw [bind_of_ok (readNumItems_built pl)] at hcred
    change ((ensure (10 ≤ 11) () >>= fun _ => Tpm.arrayCredentials d : Tpm.R FdoCredentials) 1).1 = _ at hcred
    rw [ensure_of_true _ (by decide), bind_of_ok (pure_apply () _)] at hcred
    unfold Tpm.arrayCredentials at hcred
    rw [bind_of_ok (Tpm.readMagic_of_magic hmagic), bind_of_ok hthree] at hcred
    obtain ⟨guid, t, hread, -⟩ := bind_fst_ok_iff.1 hcred
    exact Tpm.readGuid_ok hread
  -- The other reader steps over the same byte string, and is not far enough behind it.
  have hfour : repeatN 4 (Tpm.skipCborValue d) 1 = (.ok (), 1 + ([0x1a, 0x46, 0x44, 0x4f, 0x31] ++ cutInfo h).length) :=
    Tpm.repeatN_skipCborValue (Tpm.stepsOver_of_noShortFloat (Di.item_magic.append (items_cutInfo h)))
      (at_append_iff.2 ⟨hmagic, hcut⟩)
  have hplace : 1 + ([0x1a, 0x46, 0x44, 0x4f, 0x31] ++ cutInfo h).length = 6 + (cutInfo h).length := by
    rw [List.length_append, ← Nat.add_assoc]
    rfl
  rw [hplace] at hfour
  unfold Tpm.findRvInfo at hurl
  rw [bind_of_ok (readNumItems_built pl)] at hurl
  change (ensure (6 ≤ 11) () >>= fun _ => repeatN (4 + 1) (Tpm.skipCborValue d) : Tpm.R Unit) 1 = _ at hurl
  rw [ensure_of_true _ (by decide), bind_of_ok (pure_apply () _), repeatN_add_of_ok hfour, repeatN_one] at hurl
  obtain ⟨hd', -, hhead', hc⟩ := skipShort_succ_ok hurl
  obtain rfl := Head.unique hhead hhead'
  unfold Head.IsMajor at hc hm
  rcases hc with ⟨hm', -⟩ | ⟨-, hend, -⟩ | ⟨hm', -⟩ | ⟨hm', -⟩ | ⟨hm', -⟩ | ⟨hm', -⟩ <;> omega

end Aux

/-- For every OVHeader that DI accepts and any two handles, what onboarding reads back from the index is what DI has stored exactly
when DeviceInfo is shorter than 256 bytes and `skip_cbor_value` of `tpm.rs` steps over the rendezvous information as one item, as
it does if no half or single float is inside. -/
theorem readsBack_iff {Γ : Ctx} (hsha : ∀ m, (Γ.sha256 m).length = 32) {s : Slice} {h : Di.OvHeader}
    (hparse : Di.parseOvHeaderCbor s.bytes = .ok h) (dakHandle hmacHandle : UInt32) :
    (ReadsBack Γ h dakHandle.toNat hmacHandle.toNat ↔
      h.deviceInfo.length < 256 ∧ Tpm.skipCborValue h.rvInfo 0 = (.ok (), h.rvInfo.length)) ∧
    (Item Head.NoShortFloat h.rvInfo → Tpm.skipCborValue h.rvInfo 0 = (.ok (), h.rvInfo.length)) := by
  obtain ⟨f⟩ := Di.parseOvHeaderCbor_fields hparse
  obtain ⟨z, hz, pl⟩ := Aux.places Γ h dakHandle.toNat hmacHandle.toNat
  have hself : At h.rvInfo 0 h.rvInfo := at_zero_iff.2 ⟨[], (List.append_nil _).symm⟩
  have hwhole : StepsOver Tpm.skipCborValueTo 1 h.rvInfo → Tpm.skipCborValue h.rvInfo 0 = (.ok (), h.rvInfo.length) := by
    intro hsteps
    have hrun := stepsOver_one_iff.1 hsteps h.rvInfo 0 (h.rvInfo.length + 1) (by omega) hself
    rwa [Nat.zero_add] at hrun
  refine ⟨⟨fun hread => ?_, fun ⟨hinfo, hskip⟩ => ?_⟩, fun hno => hwhole (Tpm.stepsOver_of_noShortFloat hno)⟩
  · have hsees := hread.rvInfo
    rw [Aux.rvInfoPlace_eq f.guid_length] at hsees
    refine ⟨Aux.deviceInfo_lt pl f.guid_length hread.credentials hsees.url, hwhole ?_⟩
    exact Tpm.stepsOver_of_skipped hsees.stands hsees.url_end
  · rw [← Nat.zero_add h.rvInfo.length] at hskip
    have hrv : StepsOver Tpm.skipCborValueTo 1 h.rvInfo := Tpm.stepsOver_of_skipped hself hskip
    have hfits : h.rvInfo.length ≤ sliceMax := by
      have hend := f.rest.end_le
      have hs := s.fits
      rw [List.length_append] at hend
      omega
    have hskipped : Dctpm.Skipped 1 h.rvInfo := skipped_of_items (fun _ hp => lt_trans hp (by decide)) f.rvInfo hfits
    refine ⟨?_, ?_, ?_⟩
    · exact Aux.readFdoCredentials_built pl f.guid_length hinfo hrv (hsha _) dakHandle.toNat_lt hmacHandle.toNat_lt
    · rw [hz]
      exact Di.buildDctpm_minFirmwareRev f.guid_length hinfo hskipped (hsha _) _ _ z
    · rw [Aux.rvInfoPlace_eq f.guid_length]
      exact Aux.seesItem5_built pl f.guid_length hinfo hrv f.rvInfo

/-- A header that asks for revision 7 is read back from the index. -/
theorem sampleOvHeader7_readsBack :
    ∃ h, Di.parseOvHeaderCbor sampleOvHeader7 = .ok h ∧ ReadsBack sampleDiCtx h Di.fdoDakHandle Di.fdoHmacHandle := by
  have hshort : Outcome.okWith (fun h : Di.OvHeader => h.deviceInfo.length < 256 ∧
      Tpm.skipCborValue h.rvInfo 0 = (.ok (), h.rvInfo.length)) (Di.parseOvHeaderCbor sampleOvHeader7) = true := by
    decide +kernel
  obtain ⟨h, hparse, hcond⟩ := Outcome.okWith_iff.1 hshort
  refine ⟨h, hparse, ?_⟩
  exact (readsBack_iff sampleDiCtx_digest (s := ⟨sampleOvHeader7, by decide +kernel⟩) hparse 0x81020002 0x81020003).1.2
    (of_decide_eq_true hcond)

/-- An OVHeader with a DeviceInfo of 256 letters. -/
def longInfoHeader : Bytes :=
  [0x86, 0x18, 0xc8, 0x50] ++ List.replicate 16 0x11 ++ [0x80] ++ [0x79, 0x01, 0x00] ++ List.replicate 256 0x61 ++ [0x80, 0xf6]

/-- DI accepts it and writes a structure from which no credentials can be read: its length byte says that DeviceInfo is empty. -/
theorem longInfoHeader_not_readsBack :
    ∃ h, Di.parseOvHeaderCbor longInfoHeader = .ok h ∧
      Tpm.readFdoCredentials (dctpmPadded (Di.buildDctpm sampleDiCtx h Di.fdoDakHandle Di.fdoHmacHandle)) = .err () ∧
      ¬ReadsBack sampleDiCtx h Di.fdoDakHandle Di.fdoHmacHandle := by
  have hrun : Outcome.okWith (fun h : Di.OvHeader => Tpm.readFdoCredentials (dctpmPadded (Di.buildDctpm sampleDiCtx h
      Di.fdoDakHandle Di.fdoHmacHandle)) = .err ()) (Di.parseOvHeaderCbor longInfoHeader) = true := by
    decide +kernel
  obtain ⟨h, hparse, herr⟩ := Outcome.okWith_iff.1 hrun
  have herr' := of_decide_eq_true herr
  refine ⟨h, hparse, herr', fun hread => ?_⟩
  have hcred := hread.credentials
  rw [herr'] at hcred
  cases hcred

end FdoUefi
