import FdoUefi.Lemmas.ExactSkip
import FdoUefi.Lemmas.SigStructure
import FdoUefi.Lemmas.VoucherReturns

/-!
# What SetupDevice20 is accepted

`check_setup_device20` reads the new credentials with a decoder that checks little of what it steps over. Where the two values that
it steps over hold nothing that it misreads, it decides what it is to decide, but for one thing: of the payload's third element it
sees nothing, so that a signed payload is accepted whether one follows or not (`checkSetupDevice20_decides_iff`).
-/

namespace FdoUefi

open Prog Prog.Run Cbor

/-- `cred` is a ReplacementCred with the identifier `g` and the nonce of this session, whose Owner2PubKey has signed the envelope. -/
def IsReplacementCred (Γ : Ctx) (s1 : CoseSign1) (setupNonce g cred : Bytes) : Prop :=
  ∃ rendezvousInfo guid nonce owner2 point, IsArray Head.Rfc cred [rendezvousInfo, guid, nonce, owner2] ∧ IsBstr guid g ∧
    g.length = 16 ∧ IsBstr nonce setupNonce ∧ parseFdoPublicKey Γ owner2 = .ok point ∧
    verifySign1 Γ s1 setupDeviceAad point = true

/-- DispResale: `[1, ReplacementCred, _]`. -/
def IsResale (Γ : Ctx) (s1 : CoseSign1) (setupNonce g : Bytes) : Prop :=
  ∃ code cred third, IsArray Head.Rfc s1.payload [code, cred, third] ∧ IsInt code 1 ∧ IsReplacementCred Γ s1 setupNonce g cred

/-- DispCredReuse: `[2, null, _]`, signed by the peer. -/
def IsCredReuse (Γ : Ctx) (s1 : CoseSign1) (peerPoint : Bytes) : Prop :=
  ∃ code third, IsArray Head.Rfc s1.payload [code, [0xf6], third] ∧ IsInt code 2 ∧ verifySign1 Γ s1 setupDeviceAad peerPoint = true

/-- The check accepts new credentials and the old ones exactly when the envelope says so, and refuses everything else. -/
structure SetupDecided (Γ : Ctx) (fuel : Nat) (data setupNonce peerPoint : Bytes) : Prop where
  resale : ∀ g, checkSetupDevice20 Γ fuel data setupNonce peerPoint = .ok (.resale g) ↔
    ∃ s1, parseCoseSign1 data = .ok s1 ∧ IsResale Γ s1 setupNonce g
  credReuse : checkSetupDevice20 Γ fuel data setupNonce peerPoint = .ok .credReuse ↔
    ∃ s1, parseCoseSign1 data = .ok s1 ∧ IsCredReuse Γ s1 peerPoint
  refused : (¬∃ s1, parseCoseSign1 data = .ok s1 ∧ ((∃ g, IsResale Γ s1 setupNonce g) ∨ IsCredReuse Γ s1 peerPoint)) →
    ∃ e, checkSetupDevice20 Γ fuel data setupNonce peerPoint = .err e

/-- What comes before the element `n` of ReplacementCred, from the start of the payload. -/
inductive CredPrefix : Nat → Bytes → Prop where
  | rendezvousInfo {pre : Bytes} {cred : Head} (hpre : IsSetupStart pre 1) (hm : cred.IsMajor 4) (h4 : cred.arg = 4) :
      CredPrefix 0 (pre ++ cred.bytes)
  | guid {u x : Bytes} (hu : CredPrefix 0 u) (hx : Item Head.Rfc x) : CredPrefix 1 (u ++ x)
  | nonce {u x s : Bytes} (hu : CredPrefix 1 u) (hx : IsBstr x s) : CredPrefix 2 (u ++ x)
  | owner2PubKey {u x s : Bytes} (hu : CredPrefix 2 u) (hx : IsBstr x s) : CredPrefix 3 (u ++ x)

/-- What the check steps over, RendezvousInfo and Owner2PubKey, holds nothing that `skip_value` misreads, and the ends of the two byte
strings between them, as they are announced, are machine words. -/
structure CredReadable (d : Bytes) : Prop where
  skipped : ∀ n u, CredPrefix n u → n = 0 ∨ n = 3 → At d 0 u → ReadsClean d u.length
  strings : ∀ n u, CredPrefix n u → n = 1 ∨ n = 2 → ∀ k : Head, k.IsMajor 2 → At d 0 (u ++ k.bytes) →
    (u ++ k.bytes).length + k.arg < 2 ^ 64

/-- A payload that asks for one of the two, with the right signature, has a third element and nothing else. -/
def SignedComplete (Γ : Ctx) (s1 : CoseSign1) (setupNonce peerPoint : Bytes) : Prop :=
  ∀ pre second third, s1.payload = pre ++ (second ++ third) →
    IsSetupStart pre 1 ∧ (∃ g, IsReplacementCred Γ s1 setupNonce g second) ∨
      IsSetupStart pre 2 ∧ second = [0xf6] ∧ verifySign1 Γ s1 setupDeviceAad peerPoint = true →
    Item Head.Rfc third

namespace Aux

variable {Γ : Ctx} {fuel : Nat} {s1 : CoseSign1} {d pre setupNonce g : Bytes} {c c' : Cur}

/-- A byte string that was read is an item. -/
theorem readBytes_item (hd : d.length ≤ sliceMax) {s : Bytes} (h : Dec.readBytes d c = (.ok s, c')) :
    ∃ u, Cur.Passed d c c' u ∧ Item Head.Rfc u ∧ IsBstr u s := by
  obtain ⟨k, hm, hat, hs, hpos⟩ := readBytes_ok hd h
  have hstr : IsBstr (k.bytes ++ s) s := ⟨k, hm, hs, rfl⟩
  exact ⟨k.bytes ++ s, ⟨hat, by rw [hpos, List.length_append, Nat.add_assoc]⟩, hstr.item, hstr⟩

/-- A byte string that is there is read. -/
theorem readBytes_of_isBstr {p : Nat} {u s : Bytes} (hu : IsBstr u s) (hat : At d p u) (hp : p + u.length < wordSize) :
    Cur.Reads (Dec.readBytes d) p s (p + u.length) := by
  obtain ⟨k, hm, hs, rfl⟩ := hu
  exact readBytes_reads hat hm (k.defined.resolve_right (by unfold Head.IsMajor at hm; omega)) hs hp

/-- A byte string whose end is a machine word is read or refused. -/
theorem readBytes_returns (hd : d.length ≤ sliceMax)
    (hend : ∀ k : Head, k.IsMajor 2 → At d c.pos k.bytes → c.pos + k.bytes.length + k.arg < wordSize) :
    (Dec.readBytes d c).1.Returns := by
  refine bind_returns (readHead_returns d _ _ c) ?_
  intro len c₁ hhead
  obtain ⟨k, hm, hat, rfl, hc₁⟩ := readHead_ok hd hhead
  have hword := hend k hm hat
  rw [← hc₁] at hword
  refine bind_returns ?_ fun _ _ _ => bind_returns trivial fun _ _ _ => trivial
  refine bind_returns trivial ?_
  intro pos c₂ hplace
  obtain ⟨rfl, rfl⟩ : pos = c₁.pos ∧ c₂ = c₁ := ⟨(Outcome.ok.inj (congrArg Prod.fst hplace)).symm, (congrArg Prod.snd hplace).symm⟩
  refine bind_returns trivial ?_
  intro _ c₃ _
  refine bind_returns ensure_returns ?_
  intro _ c₄ hens
  have hle := (ensure_ok_iff.1 hens).1
  rw [Nat.mod_eq_of_lt hword] at hle ⊢
  obtain ⟨s, hs⟩ : ∃ s, range? d c₂.pos (c₂.pos + k.arg) = some s := ⟨_, if_pos ⟨by omega, hle⟩⟩
  rw [slice, hs]
  trivial

/-- Behind what was passed the data are clean. -/
theorem readsClean_of_passed {n : Nat} {u : Bytes} (hread : CredReadable d) (hu : CredPrefix n u) (hn : n = 0 ∨ n = 3)
    (h : Cur.Passed d Cur.start c u) : ReadsClean d c.pos := by
  have hpos : c.pos = u.length := h.2.trans (Nat.zero_add _)
  rw [hpos]
  exact hread.skipped n u hu hn h.1

/-- A byte string behind what was passed does not wrap around. -/
theorem string_lt_of_passed {n : Nat} {u : Bytes} (hread : CredReadable d) (hu : CredPrefix n u) (hn : n = 1 ∨ n = 2)
    (h : Cur.Passed d Cur.start c u) (k : Head) (hm : k.IsMajor 2) (hk : At d c.pos k.bytes) :
    c.pos + k.bytes.length + k.arg < wordSize := by
  have hpos : c.pos = u.length := h.2.trans (Nat.zero_add _)
  rw [hpos] at hk ⊢
  have hlt := hread.strings n u hu hn k hm (at_append_iff.2 ⟨h.1, by rw [Nat.zero_add]; exact hk⟩)
  rwa [List.length_append] at hlt

/-- New credentials that the check accepts are a ReplacementCred. -/
theorem replacementCred_of_resaleRun (hd : s1.payload.length ≤ sliceMax) (hread : CredReadable s1.payload)
    (hpre : IsSetupStart pre 1) (hat : At s1.payload 0 pre) {log : List Event}
    (h : ResaleRun Γ fuel s1 setupDeviceAad setupNonce g ⟨pre.length, log⟩) :
    ∃ cred, At s1.payload 0 (pre ++ cred) ∧ IsReplacementCred Γ s1 setupNonce g cred := by
  obtain ⟨c₁, c₂, c₃, c₄, c₅, owner2Raw, point, hlen, hskip, hguid, hnonce, hskip₂, hraw, hend, hpoint, hverify, h16⟩ := h
  obtain ⟨k, hm, hk, h4, hc₁⟩ := readHead_ok hd hlen
  have hrfc : k.Rfc := Head.rfc_of_major_lt hm (by decide) (k.defined.resolve_right (by unfold Head.IsMajor at hm; omega))
  have hstart : Cur.Passed s1.payload Cur.start ⟨pre.length, log⟩ pre := ⟨hat, (Nat.zero_add _).symm⟩
  have hhead : Cur.Passed s1.payload Cur.start c₁ (pre ++ k.bytes) := hstart.append ⟨hk, hc₁⟩
  -- RendezvousInfo.
  have prefix₀ := CredPrefix.rendezvousInfo hpre hm h4.symm
  have hinfoclean := readsClean_of_passed hread prefix₀ (.inl rfl) hhead
  obtain ⟨info, iinfo, hinfoat, hc₂⟩ := skipValue_sound hd hinfoclean hskip
  obtain ⟨guid, hguidpassed, iguid, eguid⟩ := readBytes_item hd hguid
  obtain ⟨nonce, hnoncepassed, inonce, enonce⟩ := readBytes_item hd hnonce
  have hthree := ((hhead.append ⟨hinfoat, hc₂⟩).append hguidpassed).append hnoncepassed
  -- Owner2PubKey, from one cursor to the next.
  have hownerclean := readsClean_of_passed hread (((prefix₀.guid iinfo).nonce eguid).owner2PubKey enonce) (.inr rfl) hthree
  obtain ⟨owner2, iowner, howat, hc₅⟩ := skipValue_sound hd hownerclean hskip₂
  obtain rfl : owner2Raw = owner2 := hraw.unique howat (by omega)
  have hfour := hthree.append ⟨howat, hc₅⟩
  refine ⟨k.bytes ++ [info, guid, nonce, owner2Raw].flatten, ?_, info, guid, nonce, owner2Raw, point, ?_, eguid, h16, enonce, hpoint,
    hverify⟩
  · simpa [Cur.start] using hfour.1
  · refine ⟨k, hrfc, hm, h4.symm, rfl, ?_⟩
    simp only [List.mem_cons, List.not_mem_nil, or_false]
    rintro x (rfl | rfl | rfl | rfl)
    · exact iinfo
    · exact iguid
    · exact inonce
    · exact iowner

/-- A ReplacementCred that stands behind the start is accepted. -/
theorem resaleRun_of_replacementCred (hd : s1.payload.length ≤ sliceMax) (hfuel : s1.payload.length < fuel)
    (hread : CredReadable s1.payload) (hpre : IsSetupStart pre 1) {cred : Bytes} (hat : At s1.payload 0 (pre ++ cred))
    (hcred : IsReplacementCred Γ s1 setupNonce g cred) (log : List Event) :
    ResaleRun Γ fuel s1 setupDeviceAad setupNonce g ⟨pre.length, log⟩ := by
  obtain ⟨info, guid, nonce, owner2, point, ⟨k, hrfc, hm, h4, rfl, hitems⟩, eguid, h16, enonce, hpoint, hverify⟩ := hcred
  have iinfo : Item Head.Rfc info := hitems info (by simp)
  have iowner : Item Head.Rfc owner2 := hitems owner2 (by simp)
  have hall : At s1.payload 0 (pre ++ k.bytes ++ info ++ guid ++ nonce ++ owner2) := by simpa using hat
  have hend := hall.end_le
  obtain ⟨hnonce0, howner⟩ := at_append_iff.1 hall
  obtain ⟨hguid0, hnonce⟩ := at_append_iff.1 hnonce0
  obtain ⟨hinfo0, hguid⟩ := at_append_iff.1 hguid0
  obtain ⟨hhead0, hinfo⟩ := at_append_iff.1 hinfo0
  obtain ⟨-, hhead⟩ := at_append_iff.1 hhead0
  have prefix₀ := CredPrefix.rendezvousInfo hpre hm h4
  have hinfoclean := hread.skipped 0 _ prefix₀ (.inl rfl) hhead0
  have hownerclean := hread.skipped 3 _ (((prefix₀.guid iinfo).nonce eguid).owner2PubKey enonce) (.inr rfl) hnonce0
  simp only [List.length_append, Nat.zero_add] at hend hinfo hguid hnonce howner hhead hinfoclean hownerclean
  have hword : s1.payload.length < wordSize := by
    simp only [sliceMax] at hd
    unfold wordSize
    omega
  obtain ⟨log₁, h1⟩ := readHead_reads (e := fun m => cborErr s!"expected array, got major type {m}") hhead hm hrfc.1 (by omega) log
  obtain ⟨log₂, h2⟩ := @skipValue_complete _ _ _ fuel hd hinfoclean ⟨info, iinfo, hinfo, rfl⟩ (by omega) log₁
  obtain ⟨log₃, h3⟩ := readBytes_of_isBstr eguid hguid (by omega) log₂
  obtain ⟨log₄, h4'⟩ := readBytes_of_isBstr enonce hnonce (by omega) log₃
  obtain ⟨log₅, h5⟩ := @skipValue_complete _ _ _ fuel hd hownerclean ⟨owner2, iowner, howner, rfl⟩ (by omega) log₄
  rw [h4] at h1
  exact ⟨_, _, _, _, _, owner2, point, h1, h2, h3, h4', h5, howner, rfl, hpoint, hverify, h16⟩

/-- The check for new credentials comes back. -/
theorem checkSetupResale_returns (hd : s1.payload.length ≤ sliceMax) (hfuel : s1.payload.length < fuel)
    (hread : CredReadable s1.payload) (hpre : IsSetupStart pre 1) (hat : At s1.payload 0 pre) (log : List Event) :
    (checkSetupResale Γ fuel s1 setupDeviceAad setupNonce ⟨pre.length, log⟩).1.Returns := by
  have hskips : ∀ c : Cur, ReadsClean s1.payload c.pos → c.pos ≤ s1.payload.length → (Dec.skipValue s1.payload fuel c).1.Returns :=
    fun c hclean hle => skipValue_returns hd hclean hle (by omega) c.log
  have hstart : Cur.Passed s1.payload Cur.start ⟨pre.length, log⟩ pre := ⟨hat, (Nat.zero_add _).symm⟩
  refine bind_returns trivial ?_
  intro null c₀ hpeek
  obtain rfl : c₀ = ⟨pre.length, log⟩ := (congrArg Prod.snd hpeek).symm
  refine bind_returns ensure_returns ?_
  intro _ c₀' hnull
  obtain ⟨-, rfl⟩ := ensure_ok_iff.1 hnull
  refine bind_returns (readHead_returns _ _ _ _) ?_
  intro len c₀ hlen
  refine bind_returns ensure_returns ?_
  intro _ c₁ h4
  obtain ⟨rfl, rfl⟩ := ensure_ok_iff.1 h4
  obtain ⟨k, hm, hk, harg, hc₁⟩ := readHead_ok hd hlen
  have hhead : Cur.Passed s1.payload Cur.start c₁ (pre ++ k.bytes) := hstart.append ⟨hk, hc₁⟩
  have prefix₀ := CredPrefix.rendezvousInfo hpre hm harg.symm
  have hinfoclean := readsClean_of_passed hread prefix₀ (.inl rfl) hhead
  refine bind_returns (hskips c₁ hinfoclean (by rw [hc₁]; exact hk.end_le)) ?_
  intro _ c₂ hskip
  obtain ⟨info, iinfo, hinfoat, hc₂⟩ := skipValue_sound hd hinfoclean hskip
  have hone := hhead.append ⟨hinfoat, hc₂⟩
  refine bind_returns (readBytes_returns hd (string_lt_of_passed hread (prefix₀.guid iinfo) (.inl rfl) hone)) ?_
  intro g' c₃ hguid
  obtain ⟨guid, hguidpassed, -, eguid⟩ := readBytes_item hd hguid
  have htwo := hone.append hguidpassed
  refine bind_returns (readBytes_returns hd (string_lt_of_passed hread ((prefix₀.guid iinfo).nonce eguid) (.inr rfl) htwo)) ?_
  intro n c₄ hnonce
  obtain ⟨nonce, hnoncepassed, -, enonce⟩ := readBytes_item hd hnonce
  have hthree := htwo.append hnoncepassed
  refine bind_returns trivial ?_
  intro start c₄' hplace
  obtain ⟨rfl, rfl⟩ : start = c₄.pos ∧ c₄' = c₄ :=
    ⟨(Outcome.ok.inj (congrArg Prod.fst hplace)).symm, (congrArg Prod.snd hplace).symm⟩
  have hownerclean := readsClean_of_passed hread (((prefix₀.guid iinfo).nonce eguid).owner2PubKey enonce) (.inr rfl) hthree
  refine bind_returns (hskips c₄' hownerclean (by rw [hnoncepassed.2]; exact hnoncepassed.1.end_le)) ?_
  intro _ c₅ hskip₂
  obtain ⟨owner2, iowner, howat, hc₅⟩ := skipValue_sound hd hownerclean hskip₂
  refine bind_returns trivial ?_
  intro stop c₅' hplace₂
  obtain ⟨rfl, rfl⟩ : stop = c₅.pos ∧ c₅' = c₅ :=
    ⟨(Outcome.ok.inj (congrArg Prod.fst hplace₂)).symm, (congrArg Prod.snd hplace₂).symm⟩
  have hcut : (Cur.cut s1.payload c₄'.pos c₅'.pos : Dec.R Bytes) c₅' = (.ok owner2, _) := cut_ok_iff.2 ⟨howat, hc₅, rfl⟩
  rw [bind_of_ok hcut]
  refine bind_returns ?_ ?_
  · have hkey := parseFdoPublicKey_returns Γ owner2
    cases hparse : parseFdoPublicKey Γ owner2 <;> rw [hparse] at hkey <;> trivial
  · intro point c₆ _
    refine bind_returns ensure_returns fun _ _ _ => ?_
    refine bind_returns ensure_returns fun _ _ _ => ?_
    exact bind_returns ensure_returns fun _ _ _ => trivial

/-! ### The three elements -/

/-- The start of a payload is determined. -/
theorem setupStart_append_inj {pre' r r' : Bytes} {n n' : Nat} (h : IsSetupStart pre n) (h' : IsSetupStart pre' n')
    (heq : pre ++ r = pre' ++ r') : pre = pre' ∧ r = r' := by
  obtain ⟨arr, code, -, -, -, -, rfl⟩ := h
  obtain ⟨arr', code', -, -, -, -, rfl⟩ := h'
  rw [List.append_assoc, List.append_assoc] at heq
  obtain ⟨rfl, hcode⟩ := Head.append_inj heq
  obtain ⟨rfl, hrest⟩ := Head.append_inj hcode
  exact ⟨rfl, hrest⟩

/-- An array of three that starts with the disposition `n`. -/
theorem setupStart_of_isArray {n : Nat} {code second third : Bytes} (h : IsArray Head.Rfc d [code, second, third])
    (hcode : IsInt code n) : ∃ pre, IsSetupStart pre n ∧ d = pre ++ (second ++ third) ∧ Item Head.Rfc third := by
  obtain ⟨arr, -, hm, h3, rfl, hitems⟩ := h
  obtain ⟨k, hk, rfl⟩ := hcode
  refine ⟨arr.bytes ++ k.bytes, ⟨arr, k, hm, h3, ?_⟩, by simp, hitems third (by simp)⟩
  rcases hk with ⟨h0, harg⟩ | ⟨-, harg⟩
  · exact ⟨h0, by omega, rfl⟩
  · omega

/-- A start with two items behind it is such an array. -/
theorem isArray_of_setupStart {n : Nat} {second third : Bytes} (hpre : IsSetupStart pre n) (hd : d = pre ++ (second ++ third))
    (hsecond : Item Head.Rfc second) (hthird : Item Head.Rfc third) :
    ∃ code, IsArray Head.Rfc d [code, second, third] ∧ IsInt code n := by
  obtain ⟨arr, k, hm, h3, h0, rfl, rfl⟩ := hpre
  have hk28 : additional k.initial < 28 := k.defined.resolve_right (by unfold Head.IsMajor at h0; omega)
  have harr28 : additional arr.initial < 28 := arr.defined.resolve_right (by unfold Head.IsMajor at hm; omega)
  refine ⟨k.bytes, ⟨arr, Head.rfc_of_major_lt hm (by decide) harr28, hm, h3, by rw [hd]; simp, ?_⟩, k, .inl ⟨h0, rfl⟩, rfl⟩
  simp only [List.mem_cons, List.not_mem_nil, or_false]
  rintro x (rfl | rfl | rfl)
  · exact Item.int k (Head.rfc_of_major_lt h0 (by decide) hk28) (.inl h0)
  · exact hsecond
  · exact hthird

/-! ### The check -/

variable {data peerPoint : Bytes}

/-- A payload is a slice. -/
theorem payload_fits (h : parseCoseSign1 data = .ok s1) : s1.payload.length ≤ sliceMax := by
  have := (parseCoseSign1_length_lt h).2
  unfold sliceMax
  omega

/-- New credentials are accepted exactly when a ReplacementCred stands behind the disposition 1. -/
theorem checkSetupDevice20_resale_iff (hfuel : data.length < fuel)
    (hread : ∀ s1, parseCoseSign1 data = .ok s1 → CredReadable s1.payload) :
    checkSetupDevice20 Γ fuel data setupNonce peerPoint = .ok (.resale g) ↔
      ∃ s1 pre cred third, parseCoseSign1 data = .ok s1 ∧ IsSetupStart pre 1 ∧ s1.payload = pre ++ (cred ++ third) ∧
        IsReplacementCred Γ s1 setupNonce g cred := by
  constructor
  · intro h
    obtain ⟨s1, hs1, h⟩ := Outcome.bind_ok_iff.1 h
    rw [Outcome.noneAs_ok_iff] at hs1
    have hd := payload_fits hs1
    obtain ⟨pre, n, log, hpre, hat, hk⟩ := setupStart_ok hd h
    split_ifs at hk with h1 h2 h3
    · subst h1
      obtain ⟨g', hg, hrun⟩ := checkSetupResale_ok_iff.1 hk
      obtain rfl := SetupDisposition.resale.inj hg
      obtain ⟨cred, hcredat, hcred⟩ := replacementCred_of_resaleRun hd (hread s1 hs1) hpre hat hrun
      obtain ⟨third, hthird⟩ := at_zero_iff.1 hcredat
      exact ⟨s1, pre, cred, third, hs1, hpre, by rw [hthird, List.append_assoc], hcred⟩
    · simp only [checkSetupCredReuse, bind_fst_ok_iff] at hk
      obtain ⟨_, _, -, _, _, -, _, _, -, hresult⟩ := hk
      cases Outcome.ok.inj hresult
    · simp at hk
    · simp at hk
  · rintro ⟨s1, pre, cred, third, hs1, hpre, hpayload, hcred⟩
    have hd := payload_fits hs1
    have hle := parseCoseSign1_payload_le hs1
    have hat : At s1.payload 0 (pre ++ cred) := at_zero_iff.2 ⟨third, by rw [hpayload, List.append_assoc]⟩
    refine Outcome.bind_ok_iff.2 ⟨s1, Outcome.noneAs_ok_iff.2 hs1, ?_⟩
    obtain ⟨log, hrun⟩ := setupStart_runs _ hpre (at_append_iff.1 hat).1 hd
    refine (congrArg Prod.fst hrun).trans ?_
    have hresale : ResaleRun Γ fuel s1 setupDeviceAad setupNonce g ⟨pre.length, log⟩ :=
      resaleRun_of_replacementCred hd (by omega) (hread s1 hs1) hpre hat hcred log
    exact checkSetupResale_ok_iff.2 ⟨g, rfl, hresale⟩

/-- The check comes back. -/
theorem checkSetupDevice20_returns (hfuel : data.length < fuel)
    (hread : ∀ s1, parseCoseSign1 data = .ok s1 → CredReadable s1.payload) :
    (checkSetupDevice20 Γ fuel data setupNonce peerPoint).Returns := by
  refine Outcome.bind_returns (Outcome.noneAs_returns (parseCoseSign1_returns data)) ?_
  intro s1 hs1
  rw [Outcome.noneAs_ok_iff] at hs1
  have hd := payload_fits hs1
  have hle := parseCoseSign1_payload_le hs1
  refine setupStart_returns hd ?_
  intro pre n log hpre hat
  split_ifs with h1 h2 h3
  · subst h1
    exact checkSetupResale_returns hd (by omega) (hread s1 hs1) hpre hat log
  · refine bind_returns trivial fun null c₁ _ => ?_
    refine bind_returns ensure_returns fun _ c₂ _ => ?_
    exact bind_returns ensure_returns fun _ c₃ _ => trivial
  · trivial
  · trivial

end Aux

/-- Where the check reads ReplacementCred as it is encoded, it accepts exactly the payloads that ask for new credentials or the old
ones with the right signature, and refuses all others, if and only if every signed payload it comes to is complete. -/
theorem checkSetupDevice20_decides_iff (Γ : Ctx) (fuel : Nat) (data setupNonce peerPoint : Bytes) (hfuel : data.length < fuel)
    (hread : ∀ s1, parseCoseSign1 data = .ok s1 → CredReadable s1.payload) :
    SetupDecided Γ fuel data setupNonce peerPoint ↔
      ∀ s1, parseCoseSign1 data = .ok s1 → SignedComplete Γ s1 setupNonce peerPoint := by
  have hresale : ∀ g, checkSetupDevice20 Γ fuel data setupNonce peerPoint = .ok (.resale g) ↔
      ∃ s1 pre cred third, parseCoseSign1 data = .ok s1 ∧ IsSetupStart pre 1 ∧ s1.payload = pre ++ (cred ++ third) ∧
        IsReplacementCred Γ s1 setupNonce g cred := fun g => Aux.checkSetupDevice20_resale_iff hfuel hread
  have hreuse : checkSetupDevice20 Γ fuel data setupNonce peerPoint = .ok .credReuse ↔
      ∃ s1 pre, parseCoseSign1 data = .ok s1 ∧ IsSetupStart pre 2 ∧ At s1.payload 0 (pre ++ [0xf6]) ∧
        verifySign1 Γ s1 setupDeviceAad peerPoint = true := checkSetupDevice20_credReuse_iff
  constructor
  · intro h s1 hs1 pre second third hpayload hsigned
    rcases hsigned with ⟨hpre, g, hcred⟩ | ⟨hpre, rfl, hverify⟩
    · obtain ⟨s, hs, code, cred, third', harray, hcode, hcred'⟩ :=
        (h.resale g).1 ((hresale g).2 ⟨s1, pre, second, third, hs1, hpre, hpayload, hcred⟩)
      obtain rfl : s1 = s := Outcome.ok.inj (hs1.symm.trans hs)
      obtain ⟨pre', hpre', hpayload', hthird⟩ := Aux.setupStart_of_isArray (n := 1) harray hcode
      obtain ⟨-, hrest⟩ := Aux.setupStart_append_inj hpre hpre' (hpayload.symm.trans hpayload')
      obtain ⟨_, _, _, _, _, hitem, -⟩ := hcred
      obtain ⟨_, _, _, _, _, hitem', -⟩ := hcred'
      rw [(Items.append_inj hitem.item hitem'.item hrest).2]
      exact hthird
    · have hat : At s1.payload 0 (pre ++ [0xf6]) := at_zero_iff.2 ⟨third, by rw [hpayload, List.append_assoc]⟩
      obtain ⟨s, hs, code, third', harray, hcode, -⟩ := h.credReuse.1 (hreuse.2 ⟨s1, pre, hs1, hpre, hat, hverify⟩)
      obtain rfl : s1 = s := Outcome.ok.inj (hs1.symm.trans hs)
      obtain ⟨pre', hpre', hpayload', hthird⟩ := Aux.setupStart_of_isArray (n := 2) harray hcode
      obtain ⟨-, hrest⟩ := Aux.setupStart_append_inj hpre hpre' (hpayload.symm.trans hpayload')
      rw [List.append_cancel_left hrest]
      exact hthird
  · intro hcomplete
    have hresale' : ∀ g, checkSetupDevice20 Γ fuel data setupNonce peerPoint = .ok (.resale g) ↔
        ∃ s1, parseCoseSign1 data = .ok s1 ∧ IsResale Γ s1 setupNonce g := by
      intro g
      rw [hresale g]
      constructor
      · rintro ⟨s1, pre, cred, third, hs1, hpre, hpayload, hcred⟩
        have hthird := hcomplete s1 hs1 pre cred third hpayload (.inl ⟨hpre, g, hcred⟩)
        have hitem : Item Head.Rfc cred := by
          obtain ⟨_, _, _, _, _, harray, -⟩ := id hcred
          exact harray.item
        obtain ⟨code, harray, hcode⟩ := Aux.isArray_of_setupStart hpre hpayload hitem hthird
        exact ⟨s1, hs1, code, cred, third, harray, hcode, hcred⟩
      · rintro ⟨s1, hs1, code, cred, third, harray, hcode, hcred⟩
        obtain ⟨pre, hpre, hpayload, -⟩ := Aux.setupStart_of_isArray (n := 1) harray hcode
        exact ⟨s1, pre, cred, third, hs1, hpre, hpayload, hcred⟩
    have hreuse' : checkSetupDevice20 Γ fuel data setupNonce peerPoint = .ok .credReuse ↔
        ∃ s1, parseCoseSign1 data = .ok s1 ∧ IsCredReuse Γ s1 peerPoint := by
      rw [hreuse]
      constructor
      · rintro ⟨s1, pre, hs1, hpre, hat, hverify⟩
        obtain ⟨third, hthird⟩ := at_zero_iff.1 hat
        have hpayload : s1.payload = pre ++ ([0xf6] ++ third) := by rw [hthird, List.append_assoc]
        have hitem := hcomplete s1 hs1 pre [0xf6] third hpayload (.inr ⟨hpre, rfl, hverify⟩)
        obtain ⟨code, harray, hcode⟩ := Aux.isArray_of_setupStart hpre hpayload null_item hitem
        exact ⟨s1, hs1, code, third, harray, hcode, hverify⟩
      · rintro ⟨s1, hs1, code, third, harray, hcode, hverify⟩
        obtain ⟨pre, hpre, hpayload, -⟩ := Aux.setupStart_of_isArray (n := 2) harray hcode
        exact ⟨s1, pre, hs1, hpre, at_zero_iff.2 ⟨third, by rw [hpayload, List.append_assoc]⟩, hverify⟩
    refine ⟨hresale', hreuse', ?_⟩
    intro hnone
    have hreturns : (checkSetupDevice20 Γ fuel data setupNonce peerPoint).Returns := Aux.checkSetupDevice20_returns hfuel hread
    cases hrun : checkSetupDevice20 Γ fuel data setupNonce peerPoint with
    | ok disposition =>
      refine absurd ?_ hnone
      cases disposition with
      | resale g =>
        obtain ⟨s1, hs1, hspec⟩ := (hresale' g).1 hrun
        exact ⟨s1, hs1, .inl ⟨g, hspec⟩⟩
      | credReuse =>
        obtain ⟨s1, hs1, hspec⟩ := hreuse'.1 hrun
        exact ⟨s1, hs1, .inr hspec⟩
    | err e => exact ⟨e, rfl⟩
    | panic =>
      rw [hrun] at hreturns
      exact hreturns.elim
    | hang =>
      rw [hrun] at hreturns
      exact hreturns.elim

namespace Aux

variable {d pre cred third info guid nonce owner2 g n : Bytes}

/-- What comes before an element of the ReplacementCred at the start of some bytes is determined. -/
theorem credPrefix_unique {i : Nat} {u v : Bytes} (hu : CredPrefix i u) (hv : CredPrefix i v) (huat : At d 0 u) (hvat : At d 0 v) :
    u = v := by
  induction hu generalizing v with
  | rendezvousInfo hpre _ _ =>
    cases hv with
    | rendezvousInfo hpre' _ _ =>
      obtain ⟨r, hr⟩ := at_zero_iff.1 huat
      obtain ⟨r', hr'⟩ := at_zero_iff.1 hvat
      rw [List.append_assoc] at hr hr'
      obtain ⟨rfl, hhead⟩ := setupStart_append_inj hpre hpre' (hr.symm.trans hr')
      rw [(Head.append_inj hhead).1]
  | guid hu hx ih =>
    cases hv with
    | guid hv hy =>
      obtain ⟨hu0, hxat⟩ := at_append_iff.1 huat
      obtain ⟨hv0, hyat⟩ := at_append_iff.1 hvat
      obtain rfl := ih hv hu0 hv0
      rw [Items.unique hx hy hxat hyat]
  | nonce hu hx ih =>
    cases hv with
    | nonce hv hy =>
      obtain ⟨hu0, hxat⟩ := at_append_iff.1 huat
      obtain ⟨hv0, hyat⟩ := at_append_iff.1 hvat
      obtain rfl := ih hv hu0 hv0
      rw [Items.unique hx.item hy.item hxat hyat]
  | owner2PubKey hu hx ih =>
    cases hv with
    | owner2PubKey hv hy =>
      obtain ⟨hu0, hxat⟩ := at_append_iff.1 huat
      obtain ⟨hv0, hyat⟩ := at_append_iff.1 hvat
      obtain rfl := ih hv hu0 hv0
      rw [Items.unique hx.item hy.item hxat hyat]

/-- A ReplacementCred without simple values in two bytes is readable. -/
theorem credReadable_of_plain (hd : d.length ≤ sliceMax) (hpre : IsSetupStart pre 1) (hat : At d 0 (pre ++ cred))
    (hcred : IsArray PlainHead cred [info, guid, nonce, owner2]) (hguid : IsBstr guid g) (hnonce : IsBstr nonce n) :
    CredReadable d := by
  obtain ⟨k, -, hm, h4, rfl, hitems⟩ := hcred
  have hinfo : Item PlainHead info := hitems info (by simp)
  have howner : Item PlainHead owner2 := hitems owner2 (by simp)
  have hall : At d 0 (pre ++ k.bytes ++ info ++ guid ++ nonce ++ owner2) := by simpa using hat
  obtain ⟨hnonce0, howner0⟩ := at_append_iff.1 hall
  obtain ⟨hguid0, -⟩ := at_append_iff.1 hnonce0
  obtain ⟨hinfo0, -⟩ := at_append_iff.1 hguid0
  obtain ⟨hhead0, hinfoat⟩ := at_append_iff.1 hinfo0
  rw [Nat.zero_add] at howner0 hinfoat
  have prefix₀ := CredPrefix.rendezvousInfo hpre hm h4
  have prefix₁ := prefix₀.guid (hinfo.mono fun _ hp => hp.1)
  have prefix₂ := prefix₁.nonce hguid
  have prefix₃ := prefix₂.owner2PubKey hnonce
  -- The head of a byte string that stands behind a prefix announces what stands there.
  have hstring : ∀ {u x s : Bytes} (k' : Head), IsBstr x s → At d 0 (u ++ x) → At d 0 (u ++ k'.bytes) →
      (u ++ k'.bytes).length + k'.arg < 2 ^ 64 := by
    intro u x s k' hx hxat hk'
    obtain ⟨kx, -, hs, rfl⟩ := hx
    have hend := hxat.end_le
    rw [← List.append_assoc] at hxat
    obtain rfl := Head.unique (at_append_iff.1 (at_append_iff.1 hxat).1).2 (at_append_iff.1 hk').2
    simp only [List.length_append, sliceMax] at hend hd ⊢
    omega
  constructor
  · intro i u hu hi huat
    rcases hi with rfl | rfl
    · rw [credPrefix_unique hu prefix₀ huat hhead0]
      exact readsClean_of_item hinfo hinfoat
    · rw [credPrefix_unique hu prefix₃ huat hnonce0]
      exact readsClean_of_item howner howner0
  · intro i u hu hi k' _ hk'
    have huat := (at_append_iff.1 hk').1
    rcases hi with rfl | rfl
    · rw [credPrefix_unique hu prefix₁ huat hinfo0] at hk' ⊢
      exact hstring k' hguid hguid0 hk'
    · rw [credPrefix_unique hu prefix₂ huat hguid0] at hk' ⊢
      exact hstring k' hnonce hnonce0 hk'

end Aux

/-- The SubjectPublicKeyInfo of the new owner's key. -/
def resaleOwnerSpki : Bytes := beBytes 91
  0x3059301306072a8648ce3d020106082a8648ce3d03010703420004f1662bd0dac01c386a749989aa3d820a73d68d43efb7a68d2bd4e982426c7f5a166fdda32b00a61fe6c56709bca880331fabbde2724be3a38be9f21f7f8b8e40

def resaleGuid : Bytes := [1, 2, 3, 4, 5, 6, 7, 8, 9, 10, 11, 12, 13, 14, 15, 16]

def resaleNonce : Bytes := [0x21, 0x22, 0x23, 0x24, 0x25, 0x26, 0x27, 0x28, 0x29, 0x2a, 0x2b, 0x2c, 0x2d, 0x2e, 0x2f, 0x30]

/-- `[10, 1, bstr]` -/
def resaleOwnerKey : Bytes := 0x83 :: [shortHead 0 10, shortHead 0 1, encodeBstr resaleOwnerSpki].flatten

/-- `[[], Guid, Nonce, Owner2PubKey]` -/
def resaleCred : Bytes := 0x84 :: [[0x80], encodeBstr resaleGuid, encodeBstr resaleNonce, resaleOwnerKey].flatten

def resalePayload : Bytes := [0x83, 0x01] ++ (resaleCred ++ [0xf6])

def resaleSignature : Bytes := beBytes 64
  0x9d2998908742c943a2543c49284140294d8ed734910a57f6aaa71bbbe651ce615a14d5c1eb077f981ac9ca8ebcaa068f4722c80ce16b404baadd5d1d85e2cb31

/-- An envelope around a payload, with the signature of the new owner over the sample payload. -/
def resaleEnvelope (payload : Bytes) : Bytes :=
  [0xd2, 0x84, 0x43, 0xa1, 0x01, 0x26, 0xa0] ++ encodeBstr payload ++ encodeBstr resaleSignature

def resaleCtx : Ctx :=
  Ctx.ofTables [(buildSigStructure [0xa1, 0x01, 0x26] setupDeviceAad resalePayload, resaleSignature, resaleOwnerSpki.drop 26)] [] []

namespace Aux

/-- The sample starts as SetupDevice20 does. -/
theorem resaleStart : IsSetupStart [0x83, 0x01] 1 :=
  ⟨⟨0x83, [], by decide, .inl (by decide)⟩, ⟨0x01, [], by decide, .inl (by decide)⟩, by unfold Head.IsMajor; decide, by decide,
    by unfold Head.IsMajor; decide, by decide, rfl⟩

/-- The Owner key of the sample is an item. -/
theorem resaleOwnerKey_item : Item Head.Rfc resaleOwnerKey := by
  have hint : ∀ {n : Nat}, n < 2 ^ 64 → Item Head.Rfc (shortHead 0 n) := by
    intro n hn
    obtain ⟨h, hb, hm, -, hrfc, -⟩ := shortHead_head (m := 0) (by decide) hn
    rw [hb]
    exact Item.int h hrfc (.inl hm)
  refine (@isArray_of_small 3 [shortHead 0 10, shortHead 0 1, encodeBstr resaleOwnerSpki] (by decide) rfl ?_).item
  simp only [List.mem_cons, List.not_mem_nil, or_false]
  rintro x (rfl | rfl | rfl)
  · exact hint (by decide)
  · exact hint (by decide)
  · exact (encodeBstr_isBstr (s := resaleOwnerSpki) (by decide)).2

/-- The credentials of the sample are an array of four. -/
theorem resaleCred_isArray :
    IsArray Head.Rfc resaleCred [[0x80], encodeBstr resaleGuid, encodeBstr resaleNonce, resaleOwnerKey] := by
  have hinfo : Item Head.Rfc [0x80] := by
    have harray := @isArray_of_small 0 [] (by decide) rfl (by simp)
    exact harray.item
  refine isArray_of_small (n := 4) (by decide) rfl ?_
  simp only [List.mem_cons, List.not_mem_nil, or_false]
  rintro x (rfl | rfl | rfl | rfl)
  · exact hinfo
  · exact (encodeBstr_isBstr (s := resaleGuid) (by decide)).2
  · exact (encodeBstr_isBstr (s := resaleNonce) (by decide)).2
  · exact resaleOwnerKey_item

/-- The credentials of the sample payload are readable. -/
theorem resalePayload_readable : CredReadable resalePayload := by
  have hplain : Item PlainHead resaleCred := by
    refine resaleCred_isArray.item.mono_mem fun h hmem hrfc => ⟨hrfc, fun hf8 => ?_⟩
    rw [hf8] at hmem
    exact absurd hmem (by decide)
  refine credReadable_of_plain (by decide +kernel) resaleStart ?_ (resaleCred_isArray.mono hplain)
    (encodeBstr_isBstr (s := resaleGuid) (by decide)).1 (encodeBstr_isBstr (s := resaleNonce) (by decide)).1
  exact at_zero_iff.2 ⟨[0xf6], by rw [resalePayload, List.append_assoc]⟩

/-- The payload of the sample envelope is the sample. -/
theorem parse_resaleEnvelope {s1 : CoseSign1} (h : parseCoseSign1 (resaleEnvelope resalePayload) = .ok s1) :
    s1.payload = resalePayload := by
  have hparts : Outcome.okWith (fun s => s.payload = resalePayload) (parseCoseSign1 (resaleEnvelope resalePayload)) = true := by
    decide +kernel
  obtain ⟨s, hs, hp⟩ := Outcome.okWith_iff.1 hparts
  obtain rfl : s1 = s := Outcome.ok.inj (h.symm.trans hs)
  simpa only [decide_eq_true_eq] using hp

end Aux

/-- The sample is complete, so the check decides it: it is accepted. -/
theorem resaleEnvelope_decided :
    checkSetupDevice20 resaleCtx 211 (resaleEnvelope resalePayload) resaleNonce [] = .ok (.resale resaleGuid) ∧
      SetupDecided resaleCtx 211 (resaleEnvelope resalePayload) resaleNonce [] := by
  refine ⟨by decide +kernel, ?_⟩
  refine (checkSetupDevice20_decides_iff resaleCtx 211 (resaleEnvelope resalePayload) resaleNonce [] (by decide +kernel) ?_).2 ?_
  · intro s1 hs1
    rw [Aux.parse_resaleEnvelope hs1]
    exact Aux.resalePayload_readable
  · intro s1 hs1 pre second third hpayload hsigned
    rw [Aux.parse_resaleEnvelope hs1, resalePayload] at hpayload
    rcases hsigned with ⟨hpre, g, _, _, _, _, _, harray, -⟩ | ⟨hpre, rfl, -⟩
    · obtain ⟨-, hrest⟩ := Aux.setupStart_append_inj Aux.resaleStart hpre hpayload
      rw [← (Items.append_inj Aux.resaleCred_isArray.item harray.item hrest).2]
      exact null_item
    · obtain ⟨-, hrest⟩ := Aux.setupStart_append_inj Aux.resaleStart hpre hpayload
      have hnull := (Items.append_inj Aux.resaleCred_isArray.item null_item hrest).1
      exact absurd hnull (by decide)

/-- The payload up to the head of an Owner2PubKey that is a byte string of one byte. -/
def cutOffPayload : Bytes := [0x83, 0x01, 0x84, 0x80] ++ encodeBstr resaleGuid ++ encodeBstr resaleNonce ++ [0x41]

/-- Owner2PubKey is cut out past the end of the payload, and the check panics instead of refusing. -/
theorem cutOffPayload_not_decided :
    checkSetupDevice20 resaleCtx 200 (resaleEnvelope cutOffPayload) resaleNonce [] = .panic ∧
      ¬SetupDecided resaleCtx 200 (resaleEnvelope cutOffPayload) resaleNonce [] := by
  have hrun : checkSetupDevice20 resaleCtx 200 (resaleEnvelope cutOffPayload) resaleNonce [] = .panic := by decide +kernel
  refine ⟨hrun, ?_⟩
  intro h
  have hparts : Outcome.okWith (fun s => s.payload = cutOffPayload) (parseCoseSign1 (resaleEnvelope cutOffPayload)) = true := by
    decide +kernel
  obtain ⟨s, hs, hp⟩ := Outcome.okWith_iff.1 hparts
  simp only [decide_eq_true_eq] at hp
  -- The payload is no data item, so it is no array.
  have hitem : ¬Item Head.Rfc cutOffPayload := by
    intro hitem
    have hskips := Dctpm.skipped_one_iff.1 (skipped_of_items (fun _ hrfc => hrfc.1) hitem (by decide)) cutOffPayload 0
      cutOffPayload.length (Nat.le_refl _) (at_zero_iff.2 ⟨[], (List.append_nil _).symm⟩)
    have hno : (Dctpm.skip cutOffPayload cutOffPayload.length 0).1 ≠ .ok () := by decide
    rw [hskips] at hno
    exact hno rfl
  obtain ⟨e, he⟩ := h.refused (by
    rintro ⟨s1, hs1, hspec⟩
    obtain rfl : s1 = s := Outcome.ok.inj (hs1.symm.trans hs)
    rw [← hp] at hitem
    rcases hspec with ⟨g, _, _, _, harray, -⟩ | ⟨_, _, harray, -⟩
    · exact hitem harray.item
    · exact hitem harray.item)
  rw [hrun] at he
  cases he

end FdoUefi
