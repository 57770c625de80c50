import FdoUefi.Lib.Tame
import FdoUefi.RvFirmware
import FdoUefi.Lib.Yields

/-!
# What the readers of a firmware file answer for

The readers of `rv_firmware/cose_verify.rs` are tame. The loop over the protected header goes on after an entry that cannot be
read, so the bytes it asks for in vain are bounded by the number of entries the header announces and not by its length.
-/

namespace FdoUefi

open Prog Prog.Run Cbor

namespace Fw

variable {d : Bytes} {n k w : Nat} {c c' : Cur}

/-! ## Heads -/

/-- Looking at a byte stays within the bounds. -/
theorem peek_tame : Tame n w k 0 0 (peek d) := Tame.peek

/-- Reading an initial byte goes a byte forward. -/
theorem initial_tame_step (hd : d.length ≤ sliceMax) : Tame n d.length k 1 0 (initial d) := Tame.byte hd ()

/-- Reading an initial byte stays within the bounds. -/
theorem initial_tame (hd : d.length ≤ sliceMax) : Tame n d.length k 0 0 (initial d) :=
  (initial_tame_step hd).mono (Nat.le_refl k) (Nat.zero_le 1) (Nat.le_refl 0)

/-- The bytes of an argument that was read stand at the cursor. -/
theorem argBytes_ok (hd : d.length ≤ sliceMax) {size v : Nat} (h : argBytes d size c = (.ok v, c')) :
    ∃ bs, At d c.pos bs ∧ bs.length = size ∧ v = beNat bs ∧ c'.pos = c.pos + size := by
  simp only [argBytes, Cur.place, bind_ok_iff, orFail_ok_iff, Prod.mk.injEq, Outcome.ok.injEq] at h
  obtain ⟨_, c₁, ⟨rfl, rfl⟩, bs, c₂, ⟨hbs, rfl⟩, _, c₃, h3, h4⟩ := h
  obtain ⟨rfl, rfl⟩ := pure_ok_iff.1 h4
  obtain ⟨hat, hl⟩ := range?_eq_some_iff_at.1 hbs
  have hend := hat.end_le
  simp only [Cur.bump, Prod.mk.injEq] at h3
  refine ⟨bs, hat, by omega, rfl, ?_⟩
  rw [← h3.2]
  refine Nat.mod_eq_of_lt ?_
  simp only [sliceMax, wordSize] at hd ⊢
  omega

/-- The bytes of an argument are read within the bounds. -/
theorem argBytes_tame (hd : d.length ≤ sliceMax) (size : Nat) : Tame n w k 0 0 (argBytes d size) := by
  intro c
  refine Tame.nextAt (Tame.place c) ?_
  intro pos c₁ h₁
  simp only [Cur.place, Prod.mk.injEq, Outcome.ok.injEq] at h₁
  obtain ⟨rfl, rfl⟩ := h₁
  refine Tame.nextAt (j := 0) (s := 0) ?_ ?_
  · cases h : range? d c.pos (c.pos + size) with
    | none => exact Tame.fail () c
    | some bs => exact Tame.pure bs c
  · intro bs c₂ h₂
    obtain ⟨hbs, rfl⟩ := orFail_ok_iff.1 h₂
    obtain ⟨hat, hl⟩ := range?_eq_some_iff_at.1 hbs
    have hend := hat.end_le
    refine Tame.nextAt (Tame.bumpAt ?_) fun _ c₃ _ => Tame.pure _ c₃
    simp only [sliceMax, wordSize] at hd ⊢
    omega

/-- The argument of a head is less than a word, and it lies in the data. -/
theorem cborReadUintArg_ok (hd : d.length ≤ sliceMax) {ai v : Nat} (hp : c.pos ≤ d.length)
    (h : cborReadUintArg d ai c = (.ok v, c')) : v < wordSize ∧ c'.pos ≤ d.length := by
  have hbytes : ∀ size ≤ 8, argBytes d size c = (.ok v, c') → v < wordSize ∧ c'.pos ≤ d.length := by
    intro size hsize hrun
    obtain ⟨bs, hat, hl, rfl, hc'⟩ := argBytes_ok hd hrun
    have hlt := beNat_lt bs
    have hpow : 256 ^ bs.length ≤ 256 ^ 8 := Nat.pow_le_pow_right (by decide) (by omega)
    have hend := hat.end_le
    refine ⟨Nat.lt_of_lt_of_le hlt (Nat.le_trans hpow (by decide)), by omega⟩
  unfold cborReadUintArg at h
  by_cases h24 : ai < 24
  · rw [if_pos h24] at h
    obtain ⟨rfl, rfl⟩ := pure_ok_iff.1 h
    refine ⟨?_, hp⟩
    simp only [wordSize]
    omega
  · rw [if_neg h24] at h
    split at h
    · exact hbytes 1 (by decide) h
    · split at h
      · exact hbytes 2 (by decide) h
      · split at h
        · exact hbytes 4 (by decide) h
        · split at h
          · exact hbytes 8 (by decide) h
          · simp at h

/-- An argument is read within the bounds. -/
theorem cborReadUintArg_tame (hd : d.length ≤ sliceMax) (ai : Nat) : Tame n w k 0 0 (cborReadUintArg d ai) := by
  unfold cborReadUintArg
  refine Tame.ite (fun _ => Tame.pure ai) fun _ => ?_
  refine Tame.ite (fun _ => argBytes_tame hd 1) fun _ => ?_
  refine Tame.ite (fun _ => argBytes_tame hd 2) fun _ => ?_
  refine Tame.ite (fun _ => argBytes_tame hd 4) fun _ => ?_
  exact Tame.ite (fun _ => argBytes_tame hd 8) fun _ => Tame.fail ()

/-- One tag costs one byte. -/
theorem cborReadUintValue_tame (hd : d.length ≤ sliceMax) (fuel : Nat) :
    Tame n d.length fuel 0 0 (cborReadUintValue d fuel) := by
  induction fuel with
  | zero => exact fun c => ⟨[], rfl, fun h => absurd h (by omega)⟩
  | succ fuel ih =>
    rw [cborReadUintValue]
    refine ((initial_tame_step hd).bind (q := fuel) (i := 0) (t := 0) (fun b => ?_) (Nat.le_refl _)).mono
      (Nat.le_refl _) (Nat.zero_le _) (Nat.le_refl _)
    refine Tame.ite (fun _ => (cborReadUintArg_tame hd _).next fun _ => ih) fun _ => ?_
    exact (Tame.ensure _ _).next fun _ => cborReadUintArg_tame hd _

/-- An integer is read within the bounds. -/
theorem cborReadIntValue_tame (hd : d.length ≤ sliceMax) : Tame n d.length k 0 0 (cborReadIntValue d) := by
  refine (initial_tame hd).next fun b => (cborReadUintArg_tame hd _).next fun arg => ?_
  exact Tame.ite (fun _ => Tame.pure _) fun _ => Tame.ite (fun _ => Tame.pure _) fun _ => Tame.fail ()

/-! ## Strings -/

/-- A head of major type `m` and what follows it, at a place in the data and with an argument less than a word. -/
theorem head_tame {α : Type} (hd : d.length ≤ sliceMax) {m s : Nat} {f : Nat → R α}
    (hf : ∀ arg c, arg < wordSize → c.pos ≤ d.length → TameAt n d.length k 0 s (f arg) c) :
    Tame n d.length k 0 s (initial d >>= fun b => ensure (major b = m) () >>= fun _ =>
      cborReadUintArg d (additional b) >>= f) := by
  intro c
  refine Tame.chargedAt (initial_tame hd c) ?_ (Nat.le_of_eq (Nat.zero_add s))
  intro b c₁ h₁
  obtain ⟨hat, hc₁⟩ := Cur.byte_ok hd h₁
  have hp : c₁.pos ≤ d.length := by
    rw [hc₁]
    exact hat.end_le
  refine Tame.chargedAt (Tame.ensure _ _ c₁) ?_ (Nat.le_of_eq (Nat.zero_add s))
  intro _ c₂ h₂
  obtain ⟨-, rfl⟩ := ensure_ok_iff.1 h₂
  refine Tame.chargedAt (cborReadUintArg_tame hd _ c₂) ?_ (Nat.le_of_eq (Nat.zero_add s))
  intro arg c₃ h₃
  obtain ⟨harg, hp₃⟩ := cborReadUintArg_ok hd hp h₃
  exact hf arg c₃ harg hp₃

/-- A string with what is done to its content. -/
theorem str_tame {α : Type} (hd : d.length ≤ sliceMax) {m : Nat} {f : Nat → Bytes → R α}
    (hf : ∀ len s c, c.pos + len ≤ d.length → TameAt n d.length k 0 0 (f len s) c) :
    Tame n d.length k 0 0 (initial d >>= fun b => ensure (major b = m) () >>= fun _ =>
      cborReadUintArg d (additional b) >>= fun len => strContent d len >>= f len) := by
  refine head_tame hd fun len c hlen hp => Tame.nextAt (Tame.contentAt hd hlen hp) ?_
  intro s c' h
  obtain ⟨hs, hl, hc'⟩ := Cur.content_ok hd hlen hp h
  refine hf len s c' ?_
  rw [hc', ← hl]
  exact hs.end_le

/-- A step that ends at most one byte behind the data stays within the bounds. -/
theorem bump_tameAt (hd : d.length ≤ sliceMax) {len : Nat} (h : c.pos + len ≤ d.length + 1) :
    TameAt n w k 0 0 (Cur.bump len : R Unit) c := by
  refine Tame.bumpAt ?_
  simp only [sliceMax, wordSize] at hd ⊢
  omega

/-- A byte string is read within the bounds. -/
theorem cborReadBstr_tame (hd : d.length ≤ sliceMax) : Tame n d.length k 0 0 (cborReadBstr d) :=
  str_tame hd fun _ s _ h => Tame.nextAt (bump_tameAt hd (by omega)) fun _ c _ => Tame.pure s c

/-- A text string is read within the bounds. -/
theorem cborReadTstr_tame (hd : d.length ≤ sliceMax) : Tame n d.length k 0 0 (cborReadTstr d) := by
  refine str_tame hd fun len s c h => Tame.nextAt (Tame.ensure _ _ c) ?_
  intro _ c' h'
  obtain ⟨-, rfl⟩ := ensure_ok_iff.1 h'
  exact Tame.nextAt (bump_tameAt hd (by omega)) fun _ c _ => Tame.pure s c

/-- A string that is skipped. When its end wraps around, the wrapped end passes the check and the cursor goes back. -/
theorem skipStr_tameAt (hd : d.length ≤ sliceMax) {len : Nat} (hlen : len < wordSize) (hp : c.pos ≤ d.length) :
    TameAt n w k 0 0 (do
      let pos ← Cur.place
      Cur.note (.str pos len)
      ensure ((pos + len) % wordSize ≤ d.length) ()
      Cur.bump len : R Unit) c := by
  have hsmall : d.length < wordSize := by
    simp only [sliceMax, wordSize] at hd ⊢
    omega
  by_cases hle : (c.pos + len) % wordSize ≤ d.length
  · have hrun : (do
        let pos ← Cur.place
        Cur.note (.str pos len)
        ensure ((pos + len) % wordSize ≤ d.length) ()
        Cur.bump len : R Unit) c = (do
        let pos ← Cur.place
        Cur.note (.str pos len)
        Cur.bump len : R Unit) c := by
      simp [Cur.place, Cur.note, bind_def, andThen, ensure_of_true _ hle]
    unfold TameAt
    rw [hrun]
    exact Tame.stepOver len c
  · have hfit : c.pos + len < wordSize := by
      by_contra hno
      rw [Nat.mod_eq_sub_mod (by omega), Nat.mod_eq_of_lt (by omega)] at hle
      omega
    refine Tame.notedAt (e := .str c.pos len) (o := .err ()) (by simp) (by simp) ?_ (fun _ => trivial) (fun h => absurd hfit h)
    simp [Cur.place, Cur.note, bind_def, andThen, ensure_of_false _ hle]

/-- One level of recursion costs one byte. -/
theorem cborSkip_tame (hd : d.length ≤ sliceMax) (fuel : Nat) : Tame n d.length fuel 0 0 (cborSkip d fuel) := by
  induction fuel with
  | zero => exact fun c => ⟨[], rfl, fun h => absurd h (by omega)⟩
  | succ fuel ih =>
    intro c
    rw [cborSkip]
    refine Tame.monoAt (Tame.bindAt (initial_tame_step hd c) (q := fuel) (i := 0) (t := 0) ?_ (Nat.le_refl _))
      (Nat.le_refl _) (Nat.zero_le _) (Nat.le_refl _)
    intro b c₁ h₁
    obtain ⟨hat, hc₁⟩ := Cur.byte_ok hd h₁
    refine Tame.nextAt (cborReadUintArg_tame hd _ c₁) ?_
    intro arg c₂ h₂
    obtain ⟨harg, hp⟩ := cborReadUintArg_ok hd (by rw [hc₁]; exact hat.end_le) h₂
    split
    · exact Tame.pure () c₂
    · exact Tame.pure () c₂
    · exact Tame.pure () c₂
    · exact skipStr_tameAt hd harg hp
    · exact skipStr_tameAt hd harg hp
    · exact ih.repeatN arg c₂
    · exact ih.repeatN _ c₂
    · exact ih c₂
    · exact Tame.fail () c₂

/-! ## The envelope -/

/-- The search for the algorithm runs at most two steps behind the data for each entry. -/
theorem protectedHeaderAlgLoop_tame (hd : d.length ≤ sliceMax) (count : Nat) :
    Tame n d.length k 0 (2 * count) (protectedHeaderAlgLoop d count) := by
  induction count with
  | zero => exact Tame.pure 0
  | succ count ih =>
    rw [protectedHeaderAlgLoop]
    have hgo : ∀ {m : R Int}, Tame n d.length k 0 0 m → Tame n d.length k 0 (2 * count) m :=
      fun h => h.mono (Nat.le_refl _) (Nat.le_refl _) (Nat.zero_le _)
    refine (cborReadIntValue_tame hd).attempt.charged (t := 2 * count + 1) (fun key => ?_) (by omega)
    refine (cborReadIntValue_tame hd).attempt.charged (t := 2 * count) (fun val => ?_) (by omega)
    split
    · exact Tame.ite (fun _ => hgo (Tame.pure _)) fun _ => ih
    · exact ih

/-- What `parse_protected_header_alg` may ask for in vain: two bytes for each of fewer than 2^64 entries. -/
def algSlack : Nat := 2 * wordSize

/-- The scan of a whole header stays within the slack. -/
theorem parseProtectedHeaderAlg_tame (hd : d.length ≤ sliceMax) :
    Tame n d.length k 0 (algSlack + 1) (parseProtectedHeaderAlg d) := by
  refine Tame.ite (fun _ => (Tame.pure 0).mono (Nat.le_refl _) (Nat.le_refl _) (Nat.zero_le _)) fun _ => ?_
  refine Tame.otherwise (head_tame hd fun arg c harg _ => ?_) 0
  refine Tame.monoAt (protectedHeaderAlgLoop_tame hd arg c) (Nat.le_refl _) (Nat.le_refl _) ?_
  unfold algSlack
  omega

/-- The tag in front of the envelope is skipped within the bounds. -/
theorem skipTag_tame (hd : d.length ≤ sliceMax) : Tame n d.length k 0 0 (skipTag d) := by
  intro c
  refine Tame.nextAt (peek_tame c) ?_
  intro o c₁ h₁
  simp only [peek, Cur.peek, Prod.mk.injEq, Outcome.ok.injEq] at h₁
  obtain ⟨rfl, rfl⟩ := h₁
  split
  · exact Tame.fail () c
  · next b hb =>
    have hlt : c.pos < d.length := (List.getElem?_eq_some_iff.1 hb).1
    split
    · refine Tame.nextAt (bump_tameAt hd (by omega)) fun _ c₂ _ => ?_
      exact (cborReadUintArg_tame hd _).next (fun _ => Tame.pure ()) c₂
    · exact Tame.pure () c

/-- A null, or something else. -/
theorem orNull_tame {α : Type} (hd : d.length ≤ sliceMax) {a : α} {m : R α} (hm : Tame n d.length k 0 0 m) :
    Tame n d.length k 0 0 (do
      match ← peek d with
      | none => fail ()
      | some b =>
        if b = 0xf6 then
          Cur.bump 1
          return a
        else m) := by
  intro c
  refine Tame.nextAt (peek_tame c) ?_
  intro o c₁ h₁
  simp only [peek, Cur.peek, Prod.mk.injEq, Outcome.ok.injEq] at h₁
  obtain ⟨rfl, rfl⟩ := h₁
  split
  · exact Tame.fail () c
  · next b hb =>
    have hlt : c.pos < d.length := (List.getElem?_eq_some_iff.1 hb).1
    split
    · exact Tame.nextAt (bump_tameAt hd (by omega)) fun _ c₂ _ => Tame.pure _ c₂
    · exact hm c

/-- The payload is read within the bounds. -/
theorem readPayload_tame (hd : d.length ≤ sliceMax) : Tame n d.length k 0 0 (readPayload d) :=
  orNull_tame hd (cborReadBstr_tame hd)

/-- The build ID is read within the bounds. -/
theorem readBuildId_tame (hd : d.length ≤ sliceMax) : Tame n d.length k 0 0 (readBuildId d) :=
  orNull_tame hd ((cborReadTstr_tame hd).next fun _ => Tame.pure _)

/-- A byte string that was read is not longer than the data. -/
theorem cborReadBstr_length (hd : d.length ≤ sliceMax) {s : Bytes} (h : cborReadBstr d c = (.ok s, c')) :
    s.length ≤ d.length := by
  simp only [cborReadBstr, bind_ok_iff, ensure_ok_iff] at h
  obtain ⟨b, c₁, h₁, _, c₂, ⟨-, rfl⟩, len, c₃, h₃, s', c₄, h₄, _, c₅, -, h₆⟩ := h
  obtain ⟨rfl, rfl⟩ := pure_ok_iff.1 h₆
  obtain ⟨hat, hc₁⟩ := Cur.byte_ok hd h₁
  obtain ⟨hlen, hp⟩ := cborReadUintArg_ok hd (by rw [hc₁]; exact hat.end_le) h₃
  obtain ⟨hs, -, -⟩ := Cur.content_ok hd hlen hp h₄
  have hend := hs.end_le
  omega

/-- A payload is no longer than the file. -/
theorem readPayload_length (hd : d.length ≤ sliceMax) : Yields (readPayload d) fun s => s.length ≤ d.length := by
  refine .next fun o => ?_
  cases o with
  | none => simp [Yields]
  | some b =>
    dsimp only
    by_cases hb : b = 0xf6
    · rw [if_pos hb]
      exact .next fun _ => .pure (Nat.zero_le _)
    · rw [if_neg hb]
      exact fun _ _ _ => cborReadBstr_length hd

/-- The payload of an envelope is no longer than the envelope. -/
theorem parseCoseSign1_payload_length (hd : d.length ≤ sliceMax) {fuel : Nat} {sign1 : CoseSign1}
    (h : parseCoseSign1 fuel d c = (.ok sign1, c')) : sign1.payload.length ≤ d.length := by
  have hyields : Yields (parseCoseSign1 fuel d) fun sign1 => sign1.payload.length ≤ d.length := by
    refine .next fun _ => .next fun _ => .next fun _ => .next fun _ => ?_
    refine .next fun _ => .next fun _ => .next fun _ => .next fun _ => ?_
    exact .bind (readPayload_length hd) fun payload hpayload => .next fun _ => .pure hpayload
  exact hyields c sign1 c' h

/-- The protected header is read by readers of its own, over bytes of the file. -/
theorem parseCoseSign1_tame (hd : d.length ≤ sliceMax) (fuel : Nat) :
    Tame n d.length fuel 0 (d.length + (algSlack + 1)) (parseCoseSign1 fuel d) := by
  refine (skipTag_tame hd).charged (fun _ => ?_) (Nat.le_of_eq (Nat.zero_add _))
  refine (initial_tame hd).charged (fun b => ?_) (Nat.le_of_eq (Nat.zero_add _))
  refine (Tame.ensure _ _).charged (fun _ => ?_) (Nat.le_of_eq (Nat.zero_add _))
  refine (cborReadUintArg_tame hd _).charged (fun _ => ?_) (Nat.le_of_eq (Nat.zero_add _))
  refine (Tame.ensure _ _).charged (fun _ => ?_) (Nat.le_of_eq (Nat.zero_add _))
  intro c
  refine Tame.chargedAt (cborReadBstr_tame hd c) ?_ (Nat.le_of_eq (Nat.zero_add _))
  intro header c₁ h₁
  have hlen := cborReadBstr_length hd h₁
  have halg := Tame.inside (w := d.length) (k := fuel)
    (parseProtectedHeaderAlg_tame (d := header) (n := n) (k := header.length + 1) (by omega))
  refine Tame.chargedAt (halg c₁) (t := 0) ?_ (by omega)
  intro alg c₂ _
  refine (cborSkip_tame hd fuel).next (fun _ => ?_) c₂
  exact (readPayload_tame hd).next fun _ => (cborReadBstr_tame hd).next fun _ => Tame.pure _

/-! ## The payload -/

/-- The hash of the image is read within the bounds. -/
theorem readImageHash_tame (hd : d.length ≤ sliceMax) : Tame n d.length k 0 0 (readImageHash d) := by
  refine (initial_tame hd).next fun b => (Tame.ensure _ _).next fun _ => (cborReadUintArg_tame hd _).next fun _ => ?_
  refine (Tame.ensure _ _).next fun _ => (cborReadIntValue_tame hd).next fun _ => (cborReadBstr_tame hd).next fun _ => ?_
  exact Tame.pure _

/-- The places where the image begins and ends are read within the bounds. -/
theorem readImageSpan_tame (hd : d.length ≤ sliceMax) : Tame n d.length k 0 0 (readImageSpan d) := by
  refine (initial_tame hd).next fun b => (Tame.ensure _ _).next fun _ => (cborReadUintArg_tame hd _).next fun _ => ?_
  exact Tame.place.next fun _ => Tame.pure _

/-- The payload is parsed within the bounds. -/
theorem parseFirmwarePayload_tame (hd : d.length ≤ sliceMax) (fuel : Nat) :
    Tame n d.length fuel 0 0 (parseFirmwarePayload fuel d) := by
  refine (initial_tame hd).next fun b => (Tame.ensure _ _).next fun _ => (cborReadUintArg_tame hd _).next fun _ => ?_
  refine (Tame.ensure _ _).next fun _ => (cborReadUintValue_tame hd fuel).next fun _ => (Tame.ensure _ _).next fun _ => ?_
  refine (cborReadUintValue_tame hd fuel).next fun _ => (cborReadTstr_tame hd).next fun _ => ?_
  refine (cborReadTstr_tame hd).next fun _ => (cborReadUintValue_tame hd fuel).next fun _ => ?_
  refine (cborReadUintValue_tame hd fuel).next fun _ => (cborReadUintValue_tame hd fuel).next fun _ => ?_
  refine (readBuildId_tame hd).next fun _ => (readImageHash_tame hd).next fun hash => ?_
  exact (readImageSpan_tame hd).next fun span => Tame.pure _

/-- The image begins within the data, and its end is a machine word. -/
theorem readImageSpan_bounds (hd : d.length ≤ sliceMax) :
    Yields (readImageSpan d) fun span => span.1 ≤ d.length ∧ span.2 < wordSize := by
  intro c span c' hspan
  simp only [readImageSpan, Cur.place, bind_ok_iff, ensure_ok_iff, Prod.mk.injEq, Outcome.ok.injEq] at hspan
  obtain ⟨b, c₁, h₁, _, c₂, ⟨-, rfl⟩, arg, c₃, h₃, _, c₄, ⟨rfl, rfl⟩, h₅⟩ := hspan
  obtain ⟨rfl, -⟩ := pure_ok_iff.1 h₅
  obtain ⟨hat, hc₁⟩ := Cur.byte_ok hd h₁
  obtain ⟨hlen, hp⟩ := cborReadUintArg_ok hd (by rw [hc₁]; exact hat.end_le) h₃
  exact ⟨hp, hlen⟩

/-- The image starts in the payload; the size is only known to be a word. -/
theorem parseFirmwarePayload_image (hd : d.length ≤ sliceMax) {fuel : Nat} {payload : FirmwarePayload}
    (h : parseFirmwarePayload fuel d c = (.ok payload, c')) :
    payload.imageOffset ≤ d.length ∧ payload.imageSize < wordSize := by
  have hyields : Yields (parseFirmwarePayload fuel d) fun payload => payload.imageOffset ≤ d.length ∧ payload.imageSize < wordSize := by
    refine .next fun _ => .next fun _ => .next fun _ => .next fun _ => .next fun _ => .next fun _ => .next fun _ => ?_
    refine .next fun _ => .next fun _ => .next fun _ => .next fun _ => .next fun _ => .next fun _ => .next fun _ => ?_
    exact .bind (readImageSpan_bounds hd) fun span hspan => .pure hspan
  exact hyields c payload c' h

/-- An image whose end wraps around ends before its start, passes the check, and cutting it out panics. -/
theorem extractImage_tame (Γ : Ctx) (hd : d.length ≤ sliceMax) {payload : FirmwarePayload}
    (ho : payload.imageOffset ≤ d.length) (hs : payload.imageSize < wordSize) :
    Tame n w k 0 0 (extractImage Γ d payload) := by
  intro c
  have hsmall : d.length < wordSize := by
    simp only [sliceMax, wordSize] at hd ⊢
    omega
  by_cases hfit : payload.imageOffset + payload.imageSize < wordSize
  · have hret : ∃ r, extractImage Γ d payload c =
        (.ok r, ⟨c.pos, .str payload.imageOffset payload.imageSize :: c.log⟩) := by
      unfold extractImage
      rw [Cur.note, bind_of_ok (modifyS_apply _ _), Nat.mod_eq_of_lt hfit]
      by_cases hle : d.length < payload.imageOffset + payload.imageSize
      · rw [if_pos hle]
        exact ⟨_, rfl⟩
      · obtain ⟨image, himage⟩ : ∃ image, range? d payload.imageOffset (payload.imageOffset + payload.imageSize) = some image :=
          ⟨_, if_pos ⟨by omega, by omega⟩⟩
        rw [if_neg hle, slice, himage, bind_of_ok (pure_apply _ _)]
        cases verifyImageHash Γ payload image <;> exact ⟨_, rfl⟩
    obtain ⟨r, hr⟩ := hret
    exact Tame.notedAt (by simp) (by simp) hr (fun _ => trivial) (fun h => absurd hfit h)
  · refine Tame.notedAt (e := .str payload.imageOffset payload.imageSize) (o := .panic) (by simp) (by simp) ?_
      (fun h => absurd h hfit) (fun _ => .inl rfl)
    have hmod : (payload.imageOffset + payload.imageSize) % wordSize =
        payload.imageOffset + payload.imageSize - wordSize := by
      rw [Nat.mod_eq_sub_mod (by omega), Nat.mod_eq_of_lt (by omega)]
    have hnone : range? d payload.imageOffset (payload.imageOffset + payload.imageSize - wordSize) = none := if_neg (by omega)
    unfold extractImage
    rw [Cur.note, bind_of_ok (modifyS_apply _ _), hmod, if_neg (by omega), slice, hnone]
    exact bind_of_panic (panics_apply _)

/-- The payload is verified within the bounds. -/
theorem verifyPayload_tame (Γ : Ctx) (hd : d.length ≤ sliceMax) {fuel : Nat} (hfuel : d.length < fuel) :
    Tame n w k 0 (d.length + 1) (verifyPayload Γ fuel d) := by
  intro c
  have hparse := Tame.inside (w := w) (k := k) ((parseFirmwarePayload_tame (n := n) hd fuel).mono hfuel
    (Nat.le_refl _) (Nat.le_refl _))
  refine Tame.chargedAt (hparse.attempt c) (t := 0) ?_ (by omega)
  intro o c₁ h₁
  rcases attempt_ok_iff.1 h₁ with ⟨payload, rfl, hpayload⟩ | ⟨rfl, -⟩
  · refine Tame.ite (fun _ => Tame.pure _) (fun _ => ?_) c₁
    have hout : (parseFirmwarePayload fuel d ⟨0, c.log⟩).1 = .ok payload := (Prod.mk.inj hpayload).1
    obtain ⟨ho, hs⟩ := parseFirmwarePayload_image hd (Prod.ext hout rfl)
    exact extractImage_tame Γ hd ho hs
  · exact Tame.pure _ c₁

/-- The bytes `verify_firmware` may ask for over a file of `len` bytes, the last place of the cursor not counted. -/
def firmwareSlack (len : Nat) : Nat := 2 * len + algSlack + 3

/-- The file is verified within the bounds, with the slack of its protected header. -/
theorem verifyFirmware_tame (Γ : Ctx) (hd : d.length ≤ sliceMax) {fuel : Nat} (hfuel : d.length < fuel) :
    Tame n d.length fuel 0 (firmwareSlack d.length) (verifyFirmware Γ fuel d) := by
  intro c
  refine Tame.chargedAt ((parseCoseSign1_tame hd fuel).attempt c) (t := d.length + 1) ?_ (by unfold firmwareSlack; omega)
  intro o c₁ h₁
  have hpure : ∀ r, Tame n d.length fuel 0 (d.length + 1) (pure r : Run Cur Empty VerifyResult) :=
    fun r => (Tame.pure r).mono (Nat.le_refl _) (Nat.le_refl _) (Nat.zero_le _)
  rcases attempt_ok_iff.1 h₁ with ⟨sign1, rfl, hsign1⟩ | ⟨rfl, -⟩
  · have hlen := parseCoseSign1_payload_length hd hsign1
    refine Tame.ite (fun _ => hpure _) (fun _ => Tame.ite (fun _ => hpure _) fun _ => ?_) c₁
    exact (verifyPayload_tame Γ (by omega) (by omega)).mono (Nat.le_refl _) (Nat.le_refl _) (by omega)
  · exact hpure _ c₁

end Fw

end FdoUefi
