import FdoUefi.Lemmas.Delivery
import FdoUefi.Lemmas.DiHeader
import FdoUefi.Lemmas.Skips

/-!
# Helpers about the counter in the structure that DI builds

A built DCTPM has the pieces of a structure with the requested revision as item 10, as long as its DeviceInfo is shorter than 256
bytes and its rendezvous information is one item to the routine that steps over it.
-/

namespace FdoUefi

open Prog Prog.Run Cbor Tpm

namespace Dctpm

/-! ## The revision that is asked for -/

/-- The argument of a head has 64 bits. -/
theorem head_lt {d : Bytes} {p q m v : Nat} (h : head d p = (.ok (m, v), q)) : v < 2 ^ 64 := by
  obtain ⟨hd, -, -, -, rfl, -⟩ := head_ok_iff.1 h
  exact hd.arg_lt

/-- The best revision behind a value has 64 bits. -/
theorem scanValue_lt {d : Bytes} {vm var best p q r : Nat} (hb : best < 2 ^ 64) (h : scanValue d vm var best p = (.ok r, q)) :
    r < 2 ^ 64 := by
  unfold scanValue at h
  split_ifs at h with hvar
  · obtain ⟨⟨bm, blen⟩, _, -, h⟩ := bind_ok_iff.1 h
    obtain ⟨inner, _, -, h⟩ := bind_ok_iff.1 h
    split at h
    · rename_i v hinner _
      have hv : v < 2 ^ 64 := head_lt (eq_of_fst hinner)
      obtain ⟨rfl, -⟩ := pure_ok_iff.1 h
      omega
    · obtain ⟨rfl, -⟩ := pure_ok_iff.1 h
      exact hb
  · obtain ⟨_, _, -, h⟩ := bind_ok_iff.1 h
    obtain ⟨rfl, -⟩ := pure_ok_iff.1 h
    exact hb

/-- The best revision behind an instruction has 64 bits. -/
theorem scanInstruction_lt {d : Bytes} {best p q r : Nat} (hb : best < 2 ^ 64) (h : scanInstruction d best p = (.ok r, q)) :
    r < 2 ^ 64 := by
  obtain ⟨⟨m, len⟩, _, -, h⟩ := bind_ok_iff.1 h
  obtain ⟨_, _, -, h⟩ := bind_ok_iff.1 h
  obtain ⟨⟨vm, var⟩, _, -, h⟩ := bind_ok_iff.1 h
  dsimp only at h
  split_ifs at h
  · obtain ⟨rfl, -⟩ := pure_ok_iff.1 h
    exact hb
  · obtain ⟨best', _, hvalue, h⟩ := bind_ok_iff.1 h
    obtain ⟨_, _, -, h⟩ := bind_ok_iff.1 h
    obtain ⟨rfl, -⟩ := pure_ok_iff.1 h
    exact scanValue_lt hb hvalue

/-- The best revision behind a directive has 64 bits. -/
theorem scanDirective_lt {d : Bytes} {best p q r : Nat} (hb : best < 2 ^ 64) (h : scanDirective d best p = (.ok r, q)) :
    r < 2 ^ 64 := by
  obtain ⟨⟨m, instrs⟩, _, -, h⟩ := bind_ok_iff.1 h
  obtain ⟨_, _, -, h⟩ := bind_ok_iff.1 h
  exact foldN_ok_inv (P := (· < 2 ^ 64)) (fun _ _ _ _ hb h => scanInstruction_lt hb h) hb h

/-- The revision that is asked for is a 64-bit number. -/
theorem rvMinFirmwareRev_lt (rvInfo : Bytes) : rvMinFirmwareRev rvInfo < 2 ^ 64 := by
  unfold rvMinFirmwareRev
  rcases hs : (scan rvInfo).eval with v | _ | _ | _
  · obtain ⟨⟨m, dirs⟩, _, -, h⟩ := bind_ok_iff.1 (eq_of_fst hs)
    obtain ⟨_, _, -, h⟩ := bind_ok_iff.1 h
    exact foldN_ok_inv (P := (· < 2 ^ 64)) (fun _ _ _ _ hb h => scanDirective_lt hb h) (by omega) h
  all_goals
    simp only [Outcome.toOption, Option.getD_none]
    omega

end Dctpm

namespace Di

variable {Γ : Ctx} {h : OvHeader}

/-- An accepted header has a GUID of 16 bytes. -/
theorem parseDiSetCredentials_guid {body : Bytes} (hparse : parseDiSetCredentials body = .ok h) : h.guid.length = 16 := by
  obtain ⟨header, -, hparse⟩ := Outcome.bind_ok_iff.1 hparse
  obtain ⟨f⟩ := parseOvHeaderCbor_fields hparse
  exact f.guid_length

/-! ## The items of a built structure -/

/-- A head of another major type is no half float. -/
theorem noShortFloat_of_ne {hd : Head} (hshort : hd.Short) (h7 : major hd.initial ≠ 7) : hd.NoShortFloat :=
  ⟨hshort, fun hm => absurd hm h7⟩

/-- A DeviceInfo of less than 256 bytes is one item. -/
theorem item_deviceInfo {info : Bytes} (hlen : info.length < 256) :
    Item Head.NoShortFloat (deviceInfoHead info.length ++ info) := by
  unfold deviceInfoHead
  split_ifs with h24
  · have hm : major (UInt8.ofNat (0x60 + info.length)) = 3 := major_ofNat (m := 3) (by omega) (by omega)
    have ha : additional (UInt8.ofNat (0x60 + info.length)) = info.length := additional_ofNat (m := 3) (by omega) (by omega)
    have ht : ([] : Bytes).length = extLen (additional (UInt8.ofNat (0x60 + info.length))) := by
      rw [ha]
      unfold extLen
      split <;> first | rfl | omega
    let hd : Head := ⟨UInt8.ofNat (0x60 + info.length), [], ht, .inl (by omega)⟩
    refine Item.str hd info (noShortFloat_of_ne ?_ ?_) (.inr hm) ?_
    · exact ha.trans_lt (by omega)
    · exact fun h7 => absurd (hm.symm.trans h7) (by decide)
    · rw [Head.arg, ha, argVal, if_pos h24]
  · have ha : additional 0x78 = 24 := by decide
    let hd : Head := ⟨0x78, [UInt8.ofNat info.length], by rw [ha]; rfl, .inl (by omega)⟩
    refine Item.str hd info (noShortFloat_of_ne (by decide : additional 0x78 < 27) (by decide : major 0x78 ≠ 7))
      (.inr (by decide : major 0x78 = 3)) ?_
    have hnat : beNat [UInt8.ofNat info.length] = info.length := by
      simp [beNat, Nat.mod_eq_of_lt hlen]
    rw [Head.arg, ha, argVal, if_neg (by omega), hnat]

/-- A handle is one item. -/
theorem item_handleItem (handle : Nat) : Item Head.NoShortFloat (handleItem handle) := by
  have ht : (beBytes 4 handle).length = extLen (additional 0x1a) := by
    rw [beBytes_length]
    decide
  exact Item.int ⟨0x1a, beBytes 4 handle, ht, .inl (by decide)⟩ (noShortFloat_of_ne (by decide : additional 0x1a < 27) (by decide : major 0x1a ≠ 7))
    (.inl (by decide : major 0x1a = 0))

/-- An item of one byte. -/
theorem item_byte {b : UInt8} (ha : additional b < 24) (hm : major b = 0 ∨ major b = 1) : Item Head.NoShortFloat [b] := by
  have ht : ([] : Bytes).length = extLen (additional b) := by
    unfold extLen
    split <;> first | rfl | omega
  refine Item.int ⟨b, [], ht, .inl (by omega)⟩ (noShortFloat_of_ne ?_ ?_) hm
  · exact lt_trans ha (by decide)
  · dsimp only
    omega

/-- The items between the magic and the GUID. -/
def builtInfo (h : OvHeader) : Bytes := [0xf5] ++ [0x18, 200] ++ (deviceInfoHead h.deviceInfo.length ++ h.deviceInfo)

/-- The items before RVInfo. -/
def builtFront (h : OvHeader) : Bytes := [0x1a, 0x46, 0x44, 0x4f, 0x31] ++ builtInfo h ++ (0x50 :: [] ++ h.guid)

/-- The items between RVInfo and the handles. -/
def builtMiddle (Γ : Ctx) (h : OvHeader) : Bytes := (0x82 :: [] ++ ([0x2f] ++ (0x58 :: [32] ++ Γ.sha256 h.pubKey))) ++ [0x00]

/-- The magic is one item. -/
theorem item_magic : Item Head.NoShortFloat [0x1a, 0x46, 0x44, 0x4f, 0x31] :=
  Item.int ⟨0x1a, [0x46, 0x44, 0x4f, 0x31], by decide, .inl (by decide)⟩
    (noShortFloat_of_ne (by decide : additional 0x1a < 27) (by decide)) (.inl (by decide : major 0x1a = 0))

/-- DCActive and ProtVer. -/
theorem items_active : Items Head.NoShortFloat 2 ([0xf5] ++ [0x18, 200]) := by
  have hactive : Item Head.NoShortFloat [0xf5] :=
    Item.simple ⟨0xf5, [], by decide, .inl (by decide)⟩ ⟨(by decide : additional 0xf5 < 27), fun _ => by decide⟩
      (by decide : major 0xf5 = 7)
  have hversion : Item Head.NoShortFloat [0x18, 200] :=
    Item.int ⟨0x18, [200], by decide, .inl (by decide)⟩
      (noShortFloat_of_ne (by decide : additional 0x18 < 27) (by decide)) (.inl (by decide : major 0x18 = 0))
  exact hactive.append hversion

/-- The first three fields that DI builds are items. -/
theorem items_builtInfo (hinfo : h.deviceInfo.length < 256) : Items Head.NoShortFloat 3 (builtInfo h) :=
  items_active.append (item_deviceInfo hinfo)

/-- The first five fields that DI builds are items. -/
theorem items_builtFront (hguid : h.guid.length = 16) (hinfo : h.deviceInfo.length < 256) :
    Items Head.NoShortFloat 5 (builtFront h) := by
  have hid : Item Head.NoShortFloat (0x50 :: [] ++ h.guid) :=
    Item.str ⟨0x50, [], by decide, .inl (by decide)⟩ h.guid
      (noShortFloat_of_ne (by decide : additional 0x50 < 27) (by decide)) (.inl (by decide : major 0x50 = 2))
      (by rw [hguid]; decide)
  exact (item_magic.append (items_builtInfo hinfo)).append hid

/-- The two fields behind the rendezvous information are items. -/
theorem items_builtMiddle (hsha : (Γ.sha256 h.pubKey).length = 32) : Items Head.NoShortFloat 2 (builtMiddle Γ h) := by
  have hdigest : Item Head.NoShortFloat (0x58 :: [32] ++ Γ.sha256 h.pubKey) :=
    Item.str ⟨0x58, [32], by decide, .inl (by decide)⟩ (Γ.sha256 h.pubKey)
      (noShortFloat_of_ne (by decide : additional 0x58 < 27) (by decide)) (.inl (by decide : major 0x58 = 2))
      (by rw [hsha]; decide)
  have halg : Item Head.NoShortFloat [0x2f] := item_byte (by decide) (.inr (by decide))
  have htwo : Items Head.NoShortFloat (argVal (additional 0x82) [] + 0) ([0x2f] ++ (0x58 :: [32] ++ Γ.sha256 h.pubKey)) := by
    rw [show argVal (additional 0x82) [] + 0 = 1 + 1 by decide]
    exact halg.append hdigest
  have hhash : Item Head.NoShortFloat (0x82 :: [] ++ ([0x2f] ++ (0x58 :: [32] ++ Γ.sha256 h.pubKey))) :=
    Items.array ⟨0x82, [], by decide, .inl (by decide)⟩ (noShortFloat_of_ne (by decide : additional 0x82 < 27) (by decide))
      (by decide : major 0x82 = 4) htwo
  exact hhash.append (item_byte (by decide) (.inl (by decide)))

/-- Items without half floats are skipped one by one. -/
theorem skipped_of_noShortFloat {n : Nat} {u : Bytes} (hu : Items Head.NoShortFloat n u) (hlen : u.length ≤ 512) :
    Dctpm.Skipped n u := by
  refine skipped_of_items (fun _ hp => lt_trans hp.1 (by decide)) hu ?_
  unfold sliceMax
  omega

/-- The ten items before DCMinFirmwareRev. -/
def builtItems (Γ : Ctx) (h : OvHeader) (dakHandle hmacHandle : Nat) : Bytes :=
  [0x1a, 0x46, 0x44, 0x4f, 0x31] ++ [0xf5] ++ [0x18, 200] ++ (deviceInfoHead h.deviceInfo.length ++ h.deviceInfo) ++
    (0x50 :: [] ++ h.guid) ++ h.rvInfo ++ (0x82 :: [] ++ ([0x2f] ++ (0x58 :: [32] ++ Γ.sha256 h.pubKey))) ++ [0x00] ++
    handleItem dakHandle ++ handleItem hmacHandle

/-- What DI builds is ten items and the counter. -/
theorem buildDctpm_eq (dakHandle hmacHandle : Nat) :
    buildDctpm Γ h dakHandle hmacHandle =
      0x8b :: builtItems Γ h dakHandle hmacHandle ++ Dctpm.encodeUint (Dctpm.rvMinFirmwareRev h.rvInfo) := by
  simp [buildDctpm, builtItems]

/-- The ten items, group by group. -/
theorem builtItems_eq (dakHandle hmacHandle : Nat) :
    builtItems Γ h dakHandle hmacHandle =
      builtFront h ++ h.rvInfo ++ builtMiddle Γ h ++ handleItem dakHandle ++ handleItem hmacHandle := by
  simp [builtItems, builtFront, builtInfo, builtMiddle]

/-- The ten items that DI builds are skipped one by one. -/
theorem skipped_builtItems (hguid : h.guid.length = 16) (hinfo : h.deviceInfo.length < 256) (hrv : Dctpm.Skipped 1 h.rvInfo)
    (hsha : (Γ.sha256 h.pubKey).length = 32) (dakHandle hmacHandle : Nat) :
    Dctpm.Skipped 10 (builtItems Γ h dakHandle hmacHandle) := by
  have hhead : (deviceInfoHead h.deviceInfo.length).length ≤ 2 := by
    unfold deviceInfoHead
    split_ifs <;> simp
  have hfront : Dctpm.Skipped 5 (builtFront h) := by
    refine skipped_of_noShortFloat (items_builtFront hguid hinfo) ?_
    simp only [builtFront, builtInfo, List.length_append, List.length_cons, List.length_nil, hguid]
    omega
  have hmiddle : Dctpm.Skipped 2 (builtMiddle Γ h) := by
    refine skipped_of_noShortFloat (items_builtMiddle hsha) ?_
    simp only [builtMiddle, List.length_append, List.length_cons, List.length_nil, hsha]
    omega
  have hhandle : ∀ handle, Dctpm.Skipped 1 (handleItem handle) := by
    intro handle
    refine skipped_of_noShortFloat (item_handleItem handle) ?_
    simp [handleItem, beBytes_length]
  rw [builtItems_eq]
  exact (((hfront.append hrv).append hmiddle).append (hhandle dakHandle)).append (hhandle hmacHandle)

/-- The counter of a built structure is the revision its rendezvous information asks for. -/
theorem buildDctpm_minFirmwareRev (hguid : h.guid.length = 16) (hinfo : h.deviceInfo.length < 256)
    (hrv : Dctpm.Skipped 1 h.rvInfo) (hsha : (Γ.sha256 h.pubKey).length = 32) (dakHandle hmacHandle : Nat) (z : Bytes) :
    Dctpm.minFirmwareRev (buildDctpm Γ h dakHandle hmacHandle ++ z) = .ok (Dctpm.rvMinFirmwareRev h.rvInfo) := by
  have hlt := Dctpm.rvMinFirmwareRev_lt h.rvInfo
  have hparts : Dctpm.Parts (buildDctpm Γ h dakHandle hmacHandle ++ z) 11 (builtItems Γ h dakHandle hmacHandle)
      (Dctpm.encodeUint (Dctpm.rvMinFirmwareRev h.rvInfo)) [] := by
    refine ⟨by omega, ⟨⟨0x8b, [], by decide, .inl (by decide)⟩, by decide, ?_, ?_, ?_⟩, ?_, ?_, Dctpm.skipped_zero⟩
    · exact (by decide : major 0x8b = 4)
    · exact (by decide : argVal (additional 0x8b) [] = 11)
    · rw [buildDctpm_eq]
      exact at_zero_iff.2 ⟨z, by simp [Head.bytes]⟩
    · exact skipped_builtItems hguid hinfo hrv hsha dakHandle hmacHandle
    · exact Dctpm.skipped_encodeUint hlt
  exact hparts.minFirmwareRev le_rfl hlt

end Di

end FdoUefi
