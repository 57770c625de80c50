import FdoUefi.Lemmas.Envelope
import FdoUefi.Lemmas.EnvelopeReturns
import FdoUefi.Lemmas.RoundTrip
import FdoUefi.To2Messages

/-!
# The start of SetupDevice20

The payload is read from the left: the head of an array of three, the disposition, and what the disposition asks for.
`checkSetupDevice20_cases` says which branch of the check decides, and what stands before the place it goes on from.
-/

namespace FdoUefi

open Prog Prog.Run Cbor

/-- The head of an array of three and the disposition `n`. -/
def IsSetupStart (pre : Bytes) (n : Nat) : Prop :=
  ∃ arr code : Head, arr.IsMajor 4 ∧ arr.arg = 3 ∧ code.IsMajor 0 ∧ code.arg = n ∧ pre = arr.bytes ++ code.bytes

/-- The associated data of SetupDevice20. -/
def setupDeviceAad : Bytes := domainAad aadTagSetupDevice fdoProtocolVersion

variable {d : Bytes}

/-! ## The start -/

/-- Where the start stands, the check goes on behind it. -/
theorem setupStart_runs {α : Type} {pre : Bytes} {n : Nat} {e : FdoError} (k : Nat → Dec.R α) (hpre : IsSetupStart pre n)
    (hat : At d 0 pre) (hd : d.length ≤ sliceMax) :
    ∃ log, (Dec.readArrayLen d >>= fun len => ensure (len = 3) e >>= fun _ => Dec.readUint d >>= k : Dec.R α) Cur.start =
      k n ⟨pre.length, log⟩ := by
  obtain ⟨arr, code, harr, h3, hcode, rfl, rfl⟩ := hpre
  have hend := hat.end_le
  obtain ⟨hat₁, hat₂⟩ := at_append_iff.1 hat
  simp only [sliceMax, List.length_append] at hd hend
  have h28 : additional arr.initial < 28 := arr.defined.resolve_right (by unfold Head.IsMajor at harr; omega)
  have h28' : additional code.initial < 28 := code.defined.resolve_right (by unfold Head.IsMajor at hcode; omega)
  obtain ⟨log₁, hlen⟩ := readHead_reads (e := fun m => cborErr s!"expected array, got major type {m}") hat₁ harr h28
    (by unfold wordSize; omega) []
  obtain ⟨log₂, hdisp⟩ := readHead_reads (e := fun m => cborErr s!"expected uint, got major type {m}") hat₂ hcode h28'
    (by unfold wordSize; omega) log₁
  refine ⟨log₂, ?_⟩
  have hlen' : Dec.readArrayLen d Cur.start = (.ok arr.arg, ⟨0 + arr.bytes.length, log₁⟩) := hlen
  have hdisp' : Dec.readUint d ⟨0 + arr.bytes.length, log₁⟩ = (.ok code.arg, ⟨0 + arr.bytes.length + code.bytes.length, log₂⟩) :=
    hdisp
  rw [bind_of_ok hlen', ensure_of_true _ h3, bind_of_ok (pure_apply () _), bind_of_ok hdisp', List.length_append, Nat.zero_add]

/-- When a check of the payload comes to a value, the start stands there. -/
theorem setupStart_ok {α : Type} {e : FdoError} {k : Nat → Dec.R α} {a : α} (hd : d.length ≤ sliceMax)
    (h : Dec.eval (Dec.readArrayLen d >>= fun len => ensure (len = 3) e >>= fun _ => Dec.readUint d >>= k) = .ok a) :
    ∃ pre n log, IsSetupStart pre n ∧ At d 0 pre ∧ (k n ⟨pre.length, log⟩).1 = .ok a := by
  unfold Dec.eval at h
  simp only [bind_fst_ok_iff, ensure_ok_iff] at h
  obtain ⟨len, c₁, hlen, _, c₂, ⟨h3, rfl⟩, n, c₃, hdisp, hk⟩ := h
  obtain ⟨arr, harr, hat, rfl, hc₁⟩ := readHead_ok hd hlen
  obtain ⟨code, hcode, hat', rfl, hc₃⟩ := readHead_ok hd hdisp
  have hplace : c₃.pos = (arr.bytes ++ code.bytes).length := by
    rw [hc₃, hc₁, List.length_append]
    exact congrArg (· + _) (Nat.zero_add _)
  refine ⟨arr.bytes ++ code.bytes, code.arg, c₃.log, ⟨arr, code, harr, h3, hcode, rfl, rfl⟩, ?_, ?_⟩
  · rw [hc₁] at hat'
    exact at_append_iff.2 ⟨hat, hat'⟩
  · rw [← hplace]
    exact hk

/-- A check of the payload comes back if it does from behind the start. -/
theorem setupStart_returns {α : Type} {e : FdoError} {k : Nat → Dec.R α} (hd : d.length ≤ sliceMax)
    (hk : ∀ pre n log, IsSetupStart pre n → At d 0 pre → (k n ⟨pre.length, log⟩).1.Returns) :
    (Dec.eval (Dec.readArrayLen d >>= fun len => ensure (len = 3) e >>= fun _ => Dec.readUint d >>= k)).Returns := by
  refine bind_returns (readHead_returns d _ _ _) ?_
  intro len c₁ hlen
  refine bind_returns ensure_returns ?_
  intro _ c₂ hens
  obtain ⟨h3, rfl⟩ := ensure_ok_iff.1 hens
  refine bind_returns (readHead_returns d _ _ _) ?_
  intro n c₃ hdisp
  obtain ⟨arr, harr, hat, rfl, hc₁⟩ := readHead_ok hd hlen
  obtain ⟨code, hcode, hat', rfl, hc₃⟩ := readHead_ok hd hdisp
  have hplace : c₃.pos = (arr.bytes ++ code.bytes).length := by
    rw [hc₃, hc₁, List.length_append]
    exact congrArg (· + _) (Nat.zero_add _)
  rw [hc₁] at hat'
  have hstart := hk (arr.bytes ++ code.bytes) code.arg c₃.log ⟨arr, code, harr, h3, hcode, rfl, rfl⟩ (at_append_iff.2 ⟨hat, hat'⟩)
  rw [← hplace] at hstart
  exact hstart

variable {Γ : Ctx} {fuel : Nat} {data aad setupNonce peerPoint : Bytes} {s1 : CoseSign1}

/-! ## DispResale -/

/-- What the check for new credentials has done from `c` on when it accepts them with the identifier `g`. -/
def ResaleRun (Γ : Ctx) (fuel : Nat) (s1 : CoseSign1) (aad setupNonce g : Bytes) (c : Cur) : Prop :=
  ∃ (c₁ c₂ c₃ c₄ c₅ : Cur) (owner2Raw point : Bytes), Dec.readArrayLen s1.payload c = (.ok 4, c₁) ∧
    Dec.skipValue s1.payload fuel c₁ = (.ok (), c₂) ∧ Dec.readBytes s1.payload c₂ = (.ok g, c₃) ∧
    Dec.readBytes s1.payload c₃ = (.ok setupNonce, c₄) ∧ Dec.skipValue s1.payload fuel c₄ = (.ok (), c₅) ∧
    At s1.payload c₄.pos owner2Raw ∧ c₅.pos = c₄.pos + owner2Raw.length ∧ parseFdoPublicKey Γ owner2Raw = .ok point ∧
    verifySign1 Γ s1 aad point = true ∧ g.length = 16

/-- Null is seen where it stands. -/
theorem peekNull_apply (c : Cur) : Dec.peekNull d c = (.ok (d[c.pos]? == some 0xf6), c) := rfl

/-- A piece is cut out exactly where it stands. -/
theorem cut_ok_iff {u : Bytes} {start stop : Nat} {c c' : Cur} :
    (Cur.cut d start stop : Dec.R Bytes) c = (.ok u, c') ↔
      At d start u ∧ stop = start + u.length ∧ c' = { c with log := .cut start stop :: c.log } := slice_ok_iff

/-- A byte that was read is there. -/
theorem getElem?_of_readByte {b : UInt8} {c c' : Cur} (h : Dec.readByte d c = (.ok b, c')) : d[c.pos]? = some b := by
  obtain ⟨_, c₁, hnote, h⟩ := bind_ok_iff.1 h
  obtain ⟨o, c₂, hpeek, h⟩ := bind_ok_iff.1 h
  obtain rfl : d[c₁.pos]? = o := Outcome.ok.inj (congrArg Prod.fst hpeek)
  have hpos : c.pos = c₁.pos := congrArg (fun r => r.2.pos) hnote
  rw [hpos]
  cases hb : d[c₁.pos]? with
  | none =>
    rw [hb] at h
    cases h
  | some a =>
    rw [hb] at h
    obtain ⟨_, _, -, h⟩ := bind_ok_iff.1 h
    rw [(pure_ok_iff.1 h).1]

/-- Where the head of an array was read, there is no null. -/
theorem not_null_of_readArrayLen {n : Nat} {c c' : Cur} (h : Dec.readArrayLen d c = (.ok n, c')) :
    (d[c.pos]? == some 0xf6) = false := by
  obtain ⟨b, c₁, hb, h⟩ := bind_ok_iff.1 h
  obtain ⟨_, c₂, hens, -⟩ := bind_ok_iff.1 h
  have hm : major b = 4 := (ensure_ok_iff.1 hens).1
  rw [getElem?_of_readByte hb, beq_eq_false_iff_ne]
  intro hnull
  rw [Option.some.inj hnull] at hm
  exact absurd hm (by decide)

/-- A resale is accepted exactly in a run that checks all of it. -/
theorem checkSetupResale_ok_iff {c : Cur} {disposition : SetupDisposition} :
    (checkSetupResale Γ fuel s1 aad setupNonce c).1 = .ok disposition ↔
      ∃ g, disposition = .resale g ∧ ResaleRun Γ fuel s1 aad setupNonce g c := by
  constructor
  · intro h
    unfold checkSetupResale at h
    obtain ⟨null, c₁, hpeek, r₁⟩ := bind_fst_ok_iff.1 h
    obtain ⟨_, c₂, hnull, r₂⟩ := bind_fst_ok_iff.1 r₁
    obtain ⟨len, c₃, hlen, r₃⟩ := bind_fst_ok_iff.1 r₂
    obtain ⟨_, c₄, h4, r₄⟩ := bind_fst_ok_iff.1 r₃
    obtain ⟨_, c₅, hskip, r₅⟩ := bind_fst_ok_iff.1 r₄
    obtain ⟨g, c₆, hguid, r₆⟩ := bind_fst_ok_iff.1 r₅
    obtain ⟨nonce, c₇, hnonce, r₇⟩ := bind_fst_ok_iff.1 r₆
    obtain ⟨start, c₈, hstart, r₈⟩ := bind_fst_ok_iff.1 r₇
    obtain ⟨_, c₉, hskip₂, r₉⟩ := bind_fst_ok_iff.1 r₈
    obtain ⟨stop, c₁₀, hstop, r₁₀⟩ := bind_fst_ok_iff.1 r₉
    obtain ⟨owner2Raw, c₁₁, hcut, r₁₁⟩ := bind_fst_ok_iff.1 r₁₀
    obtain ⟨point, c₁₂, hkey, r₁₂⟩ := bind_fst_ok_iff.1 r₁₁
    obtain ⟨_, c₁₃, hsigned, r₁₃⟩ := bind_fst_ok_iff.1 r₁₂
    obtain ⟨_, c₁₄, hfresh, r₁₄⟩ := bind_fst_ok_iff.1 r₁₃
    obtain ⟨_, c₁₅, hsize, hresult⟩ := bind_fst_ok_iff.1 r₁₄
    obtain rfl : c₁ = c := (congrArg Prod.snd hpeek).symm
    obtain ⟨-, rfl⟩ := ensure_ok_iff.1 hnull
    obtain ⟨rfl, rfl⟩ := ensure_ok_iff.1 h4
    cases hstart
    cases hstop
    obtain ⟨hat, hend, -⟩ := cut_ok_iff.1 hcut
    have hpoint := Outcome.mapErr_ok_iff.1 (ofOutcome_ok_iff.1 hkey).1
    obtain ⟨hverify, -⟩ := ensure_ok_iff.1 hsigned
    obtain ⟨rfl, -⟩ := ensure_ok_iff.1 hfresh
    obtain ⟨h16, -⟩ := ensure_ok_iff.1 hsize
    exact ⟨g, (Outcome.ok.inj hresult).symm,
      ⟨_, _, _, _, _, owner2Raw, point, hlen, hskip, hguid, hnonce, hskip₂, hat, hend, hpoint, hverify, h16⟩⟩
  · rintro ⟨g, rfl, c₁, c₂, c₃, c₄, c₅, owner2Raw, point, hlen, hskip, hguid, hnonce, hskip₂, hat, hend, hpoint, hverify, h16⟩
    have hnull : Dec.peekNull s1.payload c = (.ok false, c) := by rw [peekNull_apply, not_null_of_readArrayLen hlen]
    have hstart : (Cur.place : Dec.R Nat) c₄ = (.ok c₄.pos, c₄) := rfl
    have hstop : (Cur.place : Dec.R Nat) c₅ = (.ok c₅.pos, c₅) := rfl
    have hcut : (Cur.cut s1.payload c₄.pos c₅.pos : Dec.R Bytes) c₅ = (.ok owner2Raw, _) := cut_ok_iff.2 ⟨hat, hend, rfl⟩
    unfold checkSetupResale
    rw [bind_of_ok hnull, ensure_of_true _ rfl, bind_of_ok (pure_apply () _), bind_of_ok hlen, ensure_of_true _ rfl,
      bind_of_ok (pure_apply () _), bind_of_ok hskip, bind_of_ok hguid, bind_of_ok hnonce, bind_of_ok hstart, bind_of_ok hskip₂,
      bind_of_ok hstop, bind_of_ok hcut, bind_of_ok (ofOutcome_ok_iff.2 ⟨Outcome.mapErr_ok_iff.2 hpoint, rfl⟩),
      ensure_of_true _ hverify, bind_of_ok (pure_apply () _), ensure_of_true _ rfl, bind_of_ok (pure_apply () _),
      ensure_of_true _ h16, bind_of_ok (pure_apply () _)]
    rfl

/-! ## DispCredReuse -/

/-- The credentials stay as they are exactly when the envelope is signed by the peer and its payload starts with the
disposition 2 and a null. -/
theorem checkSetupDevice20_credReuse_iff :
    checkSetupDevice20 Γ fuel data setupNonce peerPoint = .ok .credReuse ↔
      ∃ s1 pre, parseCoseSign1 data = .ok s1 ∧ IsSetupStart pre 2 ∧ At s1.payload 0 (pre ++ [0xf6]) ∧
        verifySign1 Γ s1 setupDeviceAad peerPoint = true := by
  constructor
  · intro h
    obtain ⟨s1, hs1, h⟩ := Outcome.bind_ok_iff.1 h
    rw [Outcome.noneAs_ok_iff] at hs1
    have hd : s1.payload.length ≤ sliceMax := by
      have := (parseCoseSign1_length_lt hs1).2
      unfold sliceMax
      omega
    obtain ⟨pre, n, log, hpre, hat, hk⟩ := setupStart_ok hd h
    split_ifs at hk with h1 h2 h3
    · obtain ⟨g, hg, -⟩ := checkSetupResale_ok_iff.1 hk
      cases hg
    · subst h2
      simp only [checkSetupCredReuse, peekNull_apply, bind_fst_ok_iff, ensure_ok_iff, Prod.mk.injEq, Outcome.ok.injEq] at hk
      obtain ⟨null, c₁, ⟨rfl, rfl⟩, _, c₂, ⟨hnull, rfl⟩, _, c₃, ⟨hverify, rfl⟩, -⟩ := hk
      have hbyte : s1.payload[pre.length]? = some 0xf6 := by simpa using hnull
      refine ⟨s1, pre, hs1, hpre, at_append_iff.2 ⟨hat, ?_⟩, hverify⟩
      rw [Nat.zero_add]
      exact getElem?_eq_some_iff_at.1 hbyte
    · simp at hk
    · simp at hk
  · rintro ⟨s1, pre, hs1, hpre, hat, hverify⟩
    have hd : s1.payload.length ≤ sliceMax := by
      have := (parseCoseSign1_length_lt hs1).2
      unfold sliceMax
      omega
    obtain ⟨hat₁, hat₂⟩ := at_append_iff.1 hat
    rw [Nat.zero_add] at hat₂
    refine Outcome.bind_ok_iff.2 ⟨s1, Outcome.noneAs_ok_iff.2 hs1, ?_⟩
    obtain ⟨log, hrun⟩ := setupStart_runs _ hpre hat₁ hd
    refine (congrArg Prod.fst hrun).trans ?_
    have hnull : Dec.peekNull s1.payload ⟨pre.length, log⟩ = (.ok true, ⟨pre.length, log⟩) := by
      rw [peekNull_apply, getElem?_eq_some_iff_at.2 hat₂]
      rfl
    change (checkSetupCredReuse Γ s1 setupDeviceAad peerPoint _).1 = _
    rw [checkSetupCredReuse, bind_of_ok hnull, ensure_of_true _ rfl,
      bind_of_ok (pure_apply () _), ensure_of_true _ hverify, bind_of_ok (pure_apply () _)]
    rfl

end FdoUefi
