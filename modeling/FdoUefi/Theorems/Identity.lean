import FdoUefi.Lemmas.Credentials
import FdoUefi.Theorems.NvReaders
import FdoUefi.Theorems.ReadBack

/-!
# The identity of a device

The GUID, the key handles and the rendezvous information stay in the index for life. Raising the counter writes the structure
around them anew, with another head and only the items that its own routine has stepped over. Where that routine and those of the
readers agree on the first ten items, as they do on a structure that DI has built, the readers find afterwards what they found before.
-/

namespace FdoUefi

open Prog Prog.Run Cbor

/-- The pieces of a structure as all routines see them: five items, `u`, four items, then the counter and the rest. -/
structure Layout (d : Bytes) (n : Nat) (five u four old rest : Bytes) : Prop where
  parts : Dctpm.Parts d n (five ++ (u ++ four)) old rest
  beforeRvInfo : StepsOver Tpm.skipCborValueTo 5 five
  rvInfo : StepsOver Tpm.skipCborValueTo 1 u
  behindRvInfo : StepsOver Tpm.skipCborValueTo 4 four
  beforeRvInfoFirmware : StepsOver Rv.skipCborValueTo 5 five
  rvInfoFirmware : StepsOver Rv.skipCborValueTo 1 u

/-- The structure holds the credentials `c`, with the rendezvous information `u`. -/
structure HoldsIdentity (c : FdoCredentials) (u d : Bytes) : Prop where
  credentials : Tpm.readFdoCredentials d = .ok c
  layout : ∃ n five four old rest, Layout d n five u four old rest

namespace IdentityAux

variable {c : FdoCredentials} {d u five four old rest : Bytes} {n : Nat}

/-! ## Heads -/

/-- An argument of at most one byte. -/
theorem arg_lt {hd : Head} (h25 : additional hd.initial < 25) : hd.arg < 256 := by
  rw [Head.arg, argVal]
  split_ifs with h24
  · omega
  · have hlen : hd.tail.length = 1 := by
      rw [hd.tail_length, (by omega : additional hd.initial = 24)]
      rfl
    have hlt := beNat_lt hd.tail
    rw [hlen] at hlt
    omega

/-- The head of an array of fewer than 256 items has at most one byte behind the first. -/
theorem encodeHead_narrow (hn : n < 256) :
    ∃ hd : Head, Dctpm.encodeHead 4 n = hd.bytes ∧ hd.IsMajor 4 ∧ hd.arg = n ∧ additional hd.initial < 25 := by
  obtain ⟨hd, hb, hm, harg, h28⟩ := Dctpm.encodeHead_head (m := 4) (v := n) (by omega) (by omega)
  refine ⟨hd, hb, hm, harg, ?_⟩
  have hlen : (Dctpm.encodeHead 4 n).length ≤ 2 := by
    unfold Dctpm.encodeHead shortHead
    by_cases h24 : n < 24
    · simp [if_pos h24]
    · simp [if_neg h24, if_pos hn, beBytes_length]
  rw [hb, hd.bytes_length] at hlen
  by_contra hwide
  have hwidths : additional hd.initial = 25 ∨ additional hd.initial = 26 ∨ additional hd.initial = 27 := by omega
  rcases hwidths with h | h | h <;> simp [h, extLen] at hlen

/-! ## The readers on the pieces -/

/-- The credentials are those of the ten items behind a short head. -/
theorem readFdoCredentials_ok_iff (l : Layout d n five u four old rest) :
    Tpm.readFdoCredentials d = .ok c ↔ ∃ hd : Head, additional hd.initial < 25 ∧ hd.IsMajor 4 ∧ hd.arg = n ∧ At d 0 hd.bytes ∧
      Tpm.arrayCredentials d (0 + hd.bytes.length) =
        (.ok c, 0 + hd.bytes.length + (five ++ (u ++ four)).length) := by
  obtain ⟨hd, -, hmaj, harg, hall⟩ := l.parts.head
  obtain ⟨hat, hitems⟩ := at_append_iff.1 hall
  have hm : major hd.initial = 4 := hmaj
  constructor
  · intro h
    unfold Tpm.readFdoCredentials Run.eval at h
    obtain ⟨⟨m, k⟩, r, hnum, h⟩ := bind_fst_ok_iff.1 h
    obtain ⟨hd', h25, hat', rfl, rfl, rfl⟩ := Tpm.readNumItems_ok hnum
    obtain rfl := Head.unique hat' hat
    simp only [hm] at h
    obtain ⟨_, t, hens, h⟩ := bind_fst_ok_iff.1 h
    obtain ⟨-, rfl⟩ := ensure_ok_iff.1 hens
    have hrun := eq_of_fst h
    have hten : StepsOver Tpm.skipCborValueTo 10 (five ++ (u ++ four)) := l.beforeRvInfo.append (l.rvInfo.append l.behindRvInfo)
    have hover := Tpm.repeatN_skipCborValue hten (at_append_iff.1 hitems).1
    have hend := congrArg Prod.snd ((Tpm.arrayCredentials_skips hrun).symm.trans hover)
    refine ⟨hd', h25, hmaj, harg, hat, ?_⟩
    rw [hrun]
    exact congrArg _ hend
  · rintro ⟨hd', h25, -, -, hat', hrun⟩
    obtain rfl := Head.unique hat' hat
    have h10 : 10 ≤ hd'.arg := by
      rw [harg]
      exact l.parts.ten_le
    unfold Tpm.readFdoCredentials Run.eval
    rw [bind_of_ok (Tpm.readNumItems_of_head h25 hat)]
    simp only [hm]
    rw [ensure_of_true _ h10, bind_of_ok (pure_apply () _), hrun]

/-- The readers of the rendezvous information come to item 5, and to its end. -/
theorem seesItem5 (l : Layout d n five u four old rest) (hc : Tpm.readFdoCredentials d = .ok c) : ∃ p, SeesItem5 d p u := by
  obtain ⟨hd, h25, hmaj, harg, hat, -⟩ := (readFdoCredentials_ok_iff l).1 hc
  obtain ⟨hd', -, -, -, hall⟩ := l.parts.head
  obtain ⟨hat', hitems⟩ := at_append_iff.1 hall
  obtain rfl := Head.unique hat' hat
  obtain ⟨hfive, hu⟩ := at_append_iff.1 (at_append_iff.1 hitems).1
  have hstands := (at_append_iff.1 hu).1
  have hend := hstands.end_le
  have hm : major hd'.initial = 4 := hmaj
  have h6 : 6 ≤ hd'.arg := by
    have h10 := l.parts.ten_le
    omega
  refine ⟨_, hstands, ?_, ?_, ?_, ?_⟩
  · unfold Tpm.findRvInfo
    rw [bind_of_ok (Tpm.readNumItems_of_head h25 hat)]
    simp only [hm]
    rw [ensure_of_true _ h6, bind_of_ok (pure_apply () _)]
    exact Tpm.repeatN_skipCborValue l.beforeRvInfo hfive
  · exact stepsOver_one_iff.1 l.rvInfo d _ (d.length + 1) (by omega) hstands
  · have hwalk : Rv.walkToRvInfo d 0 = (.ok (), 0 + hd'.bytes.length + five.length) := by
      unfold Rv.walkToRvInfo
      rw [bind_of_ok (Tpm.readNumItems_of_head h25 hat)]
      simp only [hm]
      rw [ensure_of_true _ h6, bind_of_ok (pure_apply () _)]
      exact l.beforeRvInfoFirmware d _ (d.length + 1) (by omega) hfive
    rw [Aux.parseRvFirmwareInfo_eq, Run.eval, bind_of_ok hwalk]
  · exact stepsOver_one_iff.1 l.rvInfoFirmware d _ (d.length + 1) (by omega) hstands

/-- The structure that is written has the same pieces but for the counter. -/
theorem layout_rewritten {rev : Nat} (l : Layout d n five u four old rest) (hrev : rev < 2 ^ 64) (z : Bytes) :
    Layout (Dctpm.encodeHead 4 (max n 11) ++ (five ++ (u ++ four)) ++ Dctpm.encodeUint rev ++ rest ++ z) (max n 11) five u four
      (Dctpm.encodeUint rev) rest :=
  ⟨l.parts.rewritten hrev z, l.beforeRvInfo, l.rvInfo, l.behindRvInfo, l.beforeRvInfoFirmware, l.rvInfoFirmware⟩

end IdentityAux

open IdentityAux

/-- Whatever revision is put into a structure that holds an identity, it holds that identity afterwards, whatever follows it, and
both readers of the rendezvous information see the same item. -/
theorem identity_rewritten {c : FdoCredentials} {u d o : Bytes} {rev : Nat} (h : HoldsIdentity c u d) (hrev : rev < 2 ^ 64)
    (ho : Dctpm.withMinFirmwareRev d rev = .ok o) (z : Bytes) :
    HoldsIdentity c u (o ++ z) ∧ (∃ p, SeesItem5 (o ++ z) p u) ∧ Dctpm.minFirmwareRev (o ++ z) = .ok rev := by
  obtain ⟨hcred, n, five, four, old, rest, l⟩ := h
  obtain rfl : o = Dctpm.encodeHead 4 (max n 11) ++ (five ++ (u ++ four)) ++ Dctpm.encodeUint rev ++ rest :=
    Outcome.ok.inj (ho.symm.trans (Dctpm.withMinFirmwareRev_ok_iff.2 ⟨n, _, old, rest, l.parts, rfl⟩))
  have l' := layout_rewritten l hrev z
  obtain ⟨hd, h25, -, harg, hat, hrun⟩ := (readFdoCredentials_ok_iff l).1 hcred
  have hn : n < 256 := by
    rw [← harg]
    exact arg_lt h25
  obtain ⟨hd', hb, hm', harg', h25'⟩ := encodeHead_narrow (n := max n 11) (by omega)
  obtain ⟨hd₁, -, -, -, hall⟩ := l.parts.head
  obtain ⟨hat₁, hitems⟩ := at_append_iff.1 hall
  obtain rfl := Head.unique hat₁ hat
  obtain ⟨hd₂, -, -, -, hall'⟩ := l'.parts.head
  obtain ⟨hat₂, hitems'⟩ := at_append_iff.1 hall'
  have hat' : At (Dctpm.encodeHead 4 (max n 11) ++ (five ++ (u ++ four)) ++ Dctpm.encodeUint rev ++ rest ++ z) 0 hd'.bytes := by
    rw [← hb]
    exact at_zero_iff.2 ⟨five ++ (u ++ (four ++ (Dctpm.encodeUint rev ++ (rest ++ z)))), by simp only [List.append_assoc]⟩
  obtain rfl := Head.unique hat₂ hat'
  -- The reader has looked at nothing but the ten items, and they stand behind the new head.
  have hrun' := (Tpm.arrayCredentials_local d _ c _ hrun).2 _ (at_append_iff.1 hitems).1 rfl _ _ (at_append_iff.1 hitems').1
  have hcred' := (readFdoCredentials_ok_iff l').2 ⟨hd₂, h25', hm', harg', hat', hrun'⟩
  exact ⟨⟨hcred', _, _, _, _, _, l'⟩, seesItem5 l' hcred', (Dctpm.withMinFirmwareRev_ok hrev ho z).2⟩

/-- A structure that DI has built holds the identity of its header, whatever follows it, when DeviceInfo is shorter than 256 bytes
and the rendezvous information is one item to `skip_cbor_value` of `tpm.rs`. -/
theorem identity_built {Γ : Ctx} (hsha : ∀ m, (Γ.sha256 m).length = 32) {s : Slice} {h : Di.OvHeader}
    (hparse : Di.parseOvHeaderCbor s.bytes = .ok h) (hinfo : h.deviceInfo.length < 256)
    (hskip : Tpm.skipCborValue h.rvInfo 0 = (.ok (), h.rvInfo.length)) (dakHandle hmacHandle : UInt32) (z : Bytes) :
    HoldsIdentity { guid := h.guid, deviceKeyHandle := dakHandle.toNat, hmacKeyHandle := hmacHandle.toNat } h.rvInfo
      (Di.buildDctpm Γ h dakHandle.toNat hmacHandle.toNat ++ z) := by
  obtain ⟨f⟩ := Di.parseOvHeaderCbor_fields hparse
  have hself : At h.rvInfo 0 h.rvInfo := at_zero_iff.2 ⟨[], (List.append_nil _).symm⟩
  rw [← Nat.zero_add h.rvInfo.length] at hskip
  have hrv : StepsOver Tpm.skipCborValueTo 1 h.rvInfo := Tpm.stepsOver_of_skipped hself hskip
  have hfits : h.rvInfo.length ≤ sliceMax := by
    have hend := f.rest.end_le
    have hs := s.fits
    rw [List.length_append] at hend
    omega
  have hskipped : Dctpm.Skipped 1 h.rvInfo := skipped_of_items (fun _ hp => lt_trans hp (by decide)) f.rvInfo hfits
  have hfront := Di.items_builtFront f.guid_length hinfo
  have hhandles := (Di.items_builtMiddle (hsha h.pubKey)).append
    ((Di.item_handleItem dakHandle.toNat).append (Di.item_handleItem hmacHandle.toNat))
  have hten : Di.builtItems Γ h dakHandle.toNat hmacHandle.toNat = Di.builtFront h ++ (h.rvInfo ++
      (Di.builtMiddle Γ h ++ (Di.handleItem dakHandle.toNat ++ Di.handleItem hmacHandle.toNat))) := by
    rw [Di.builtItems_eq]
    simp only [List.append_assoc]
  have hparts : Dctpm.Parts (Di.buildDctpm Γ h dakHandle.toNat hmacHandle.toNat ++ z) 11
      (Di.builtItems Γ h dakHandle.toNat hmacHandle.toNat) (Dctpm.encodeUint (Dctpm.rvMinFirmwareRev h.rvInfo)) [] := by
    refine ⟨by omega, ⟨⟨0x8b, [], by decide, .inl (by decide)⟩, by decide, ?_, ?_, ?_⟩, ?_, ?_, Dctpm.skipped_zero⟩
    · exact (by decide : major 0x8b = 4)
    · exact (by decide : argVal (additional 0x8b) [] = 11)
    · rw [Di.buildDctpm_eq]
      exact at_zero_iff.2 ⟨z, by simp [Head.bytes]⟩
    · exact Di.skipped_builtItems f.guid_length hinfo hskipped (hsha _) _ _
    · exact Dctpm.skipped_encodeUint (Dctpm.rvMinFirmwareRev_lt h.rvInfo)
  rw [hten] at hparts
  have l : Layout (Di.buildDctpm Γ h dakHandle.toNat hmacHandle.toNat ++ z) 11 (Di.builtFront h) h.rvInfo
      (Di.builtMiddle Γ h ++ (Di.handleItem dakHandle.toNat ++ Di.handleItem hmacHandle.toNat))
      (Dctpm.encodeUint (Dctpm.rvMinFirmwareRev h.rvInfo)) [] := by
    refine ⟨hparts, Tpm.stepsOver_of_noShortFloat hfront, hrv, Tpm.stepsOver_of_noShortFloat hhandles, ?_, ?_⟩
    · exact Rv.stepsOver_of_short (hfront.mono fun _ hp => hp.1)
    · exact Rv.stepsOver_of_short f.rvInfo
  refine ⟨?_, _, _, _, _, _, l⟩
  have hall : At (Di.buildDctpm Γ h dakHandle.toNat hmacHandle.toNat ++ z) 0 ([0x8b] ++ (Di.builtFront h ++ (h.rvInfo ++
      (Di.builtMiddle Γ h ++ Aux.builtRest h dakHandle.toNat hmacHandle.toNat z)))) := by
    refine at_zero_iff.2 ⟨[], ?_⟩
    rw [Di.buildDctpm_eq, Di.builtItems_eq]
    simp [Aux.builtRest]
  obtain ⟨h0, hall⟩ := at_append_iff.1 hall
  obtain ⟨h1, hall⟩ := at_append_iff.1 hall
  obtain ⟨h2, hall⟩ := at_append_iff.1 hall
  obtain ⟨h3, h4⟩ := at_append_iff.1 hall
  exact Aux.readFdoCredentials_built ⟨h0, h1, h2, h3, h4⟩ f.guid_length hinfo hrv (hsha _) dakHandle.toNat_lt hmacHandle.toNat_lt

end FdoUefi
