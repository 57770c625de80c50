import FdoUefi.Lemmas.Envelope
import FdoUefi.Lemmas.FirmwareReaders
import FdoUefi.Lemmas.Scope

/-!
# Two readers of an envelope over the same bytes

`cose.rs` and `rv_firmware/cose_verify.rs` each have readers of their own. The second ones accept arguments of eight bytes, check less
of a string's end and read the argument of every head, but where both succeed from one place they have read the same, up to the same
place.
-/

namespace FdoUefi

open Prog Prog.Run Cbor

variable {d : Bytes} {p q t v v' : Nat} {c c₁ c' : Cur}

/-! ## Heads and strings -/

/-- One argument is read. -/
theorem arg_agree (hd : d.length ≤ sliceMax) (hc : c.pos = p) (hp : p ≤ d.length) {ai : Nat}
    (h : cborReadUintArg d ai p = (.ok v, q)) (h' : Fw.cborReadUintArg d ai c = (.ok v', c')) : v = v' ∧ c'.pos = q := by
  obtain ⟨-, tail, hat, hl, rfl, rfl⟩ := (cborReadUintArg_ok_iff hp).1 h
  obtain ⟨-, tail', ⟨hat', hpos⟩, hl', rfl⟩ := Fw.cborReadUintArg_bytes hd (by omega) h'
  rw [hc] at hat' hpos
  obtain rfl : tail = tail' := hat.unique hat' (hl.trans hl'.symm)
  exact ⟨rfl, hpos⟩

/-- One head is read. -/
theorem head_agree (hd : d.length ≤ sliceMax) (hc : c.pos = p) {b b' : UInt8} (hb : next d p = (.ok b, t))
    (ha : cborReadUintArg d (additional b) t = (.ok v, q)) (hb' : Fw.initial d c = (.ok b', c₁))
    (ha' : Fw.cborReadUintArg d (additional b') c₁ = (.ok v', c')) : b = b' ∧ v = v' ∧ c'.pos = q := by
  obtain ⟨hat, rfl⟩ := next_ok_iff.1 hb
  obtain ⟨hat', hpos⟩ := Cur.byte_ok hd hb'
  rw [hc] at hat' hpos
  obtain rfl : b = b' := List.singleton_inj.1 (hat.unique hat' rfl)
  exact ⟨rfl, arg_agree hd hpos hat.end_le ha ha'⟩

/-- Where both read a byte string they read the same. -/
theorem bstr_agree (hd : d.length ≤ sliceMax) (hc : c.pos = p) {s s' : Bytes} (h : cborReadBstr d p = (.ok s, q))
    (h' : Fw.cborReadBstr d c = (.ok s', c')) : s = s' ∧ c'.pos = q := by
  obtain ⟨k, hm, -, hat, hl, rfl⟩ := cborReadBstr_ok h
  obtain ⟨u, ⟨huat, hpos⟩, hitem, hu⟩ := Fw.cborReadBstr_ok hd h'
  have hbstr : IsBstr (k.bytes ++ s) s := ⟨k, hm, hl, rfl⟩
  rw [hc] at huat hpos
  obtain rfl : k.bytes ++ s = u := Items.unique hbstr.item hitem hat huat
  exact ⟨(hbstr.unique hu).2, hpos⟩

/-- Both see the same byte. -/
theorem peek_agree (hc : c.pos = p) {o o' : Option UInt8} (h : (peek d : Run Nat Unit _) p = (.ok o, q))
    (h' : Fw.peek d c = (.ok o', c')) : o = d[p]? ∧ o' = d[p]? ∧ q = p ∧ c' = c := by
  simp only [peek_apply, Prod.mk.injEq, Outcome.ok.injEq] at h
  simp only [Fw.peek, Cur.peek, Prod.mk.injEq, Outcome.ok.injEq] at h'
  rw [hc] at h'
  exact ⟨h.1.symm, h'.1.symm, h.2.symm, h'.2.symm⟩

/-- A byte that stands at the cursor is stepped over. -/
theorem bump_pos (hd : d.length ≤ sliceMax) {b : UInt8} (hat : At d c.pos [b]) {u : Unit}
    (h : (Cur.bump 1 : Fw.R Unit) c = (.ok u, c')) : c'.pos = c.pos + 1 := by
  have hend := hat.end_le
  simp only [Cur.bump, Prod.mk.injEq] at h
  rw [← h.2]
  refine Nat.mod_eq_of_lt ?_
  simp only [sliceMax, wordSize, List.length_singleton] at hd hend ⊢
  omega

/-- The argument of a narrow head has less than 32 bits. -/
theorem narrow_arg_lt {k : Head} (h27 : additional k.initial < 27) : k.arg < 2 ^ 32 := by
  have hle : extLen (additional k.initial) ≤ 4 := by
    unfold extLen
    split <;> omega
  have hlt := beNat_lt k.tail
  have hpow : 256 ^ k.tail.length ≤ 256 ^ 4 := Nat.pow_le_pow_right (by decide) (by rw [k.tail_length]; exact hle)
  unfold Head.arg argVal
  split <;> omega

/-! ## The parts of an envelope -/

/-- Where both skip a tag they go to the same place. -/
theorem tag_agree (hd : d.length ≤ sliceMax) (hc : c.pos = p) (h : skipSign1Tag d p = (.ok (), q))
    (h' : Fw.skipTag d c = (.ok (), c')) : c'.pos = q := by
  obtain ⟨o, r, hpeek, hr⟩ := bind_ok_iff.1 h
  obtain ⟨o', c₁, hpeek', hr'⟩ := bind_ok_iff.1 h'
  obtain ⟨rfl, rfl, rfl, rfl⟩ := peek_agree hc hpeek hpeek'
  cases hb : d[r]? with
  | none =>
    simp only [hb] at hr
    simp at hr
  | some b =>
    simp only [hb] at hr hr'
    have hat := getElem?_eq_some_iff_at.1 hb
    by_cases hm : major b = 6
    · rw [if_pos hm] at hr hr'
      obtain ⟨_, r₁, hadvance, hr⟩ := bind_ok_iff.1 hr
      obtain ⟨v, r₂, harg, hr⟩ := bind_ok_iff.1 hr
      obtain ⟨-, rfl⟩ := ensure_ok_iff.1 hr
      obtain ⟨_, c₂, hbump, hr'⟩ := bind_ok_iff.1 hr'
      obtain ⟨v', c₃, harg', hr'⟩ := bind_ok_iff.1 hr'
      obtain ⟨-, rfl⟩ := pure_ok_iff.1 hr'
      obtain rfl : r + 1 = r₁ := congrArg Prod.snd hadvance
      have hpos := bump_pos hd (by rw [hc]; exact hat) hbump
      rw [hc] at hpos
      exact (arg_agree hd hpos hat.end_le harg harg').2
    · rw [if_neg hm] at hr hr'
      obtain ⟨-, rfl⟩ := pure_ok_iff.1 hr
      obtain ⟨-, rfl⟩ := pure_ok_iff.1 hr'
      exact hc

/-- What `cbor_skip` of the firmware code does behind the head `hd`, one case for each kind of item. -/
structure Fw.SkippedItem (d : Bytes) (fuel : Nat) (hd : Head) (c₁ c' : Cur) : Prop where
  single : hd.IsMajor 0 ∨ hd.IsMajor 1 ∨ hd.IsMajor 7 → c'.pos = c₁.pos
  str : hd.IsMajor 2 ∨ hd.IsMajor 3 → c'.pos = (c₁.pos + hd.arg) % wordSize
  array : hd.IsMajor 4 → repeatN hd.arg (Fw.cborSkip d fuel) c₁ = (.ok (), c')
  map : hd.IsMajor 5 → repeatN (hd.arg * 2 % wordSize) (Fw.cborSkip d fuel) c₁ = (.ok (), c')
  tag : hd.IsMajor 6 → Fw.cborSkip d fuel c₁ = (.ok (), c')

/-- What is skipped is the item under its head. -/
theorem Fw.cborSkip_succ_ok (hd : d.length ≤ sliceMax) {fuel : Nat} (h : Fw.cborSkip d (fuel + 1) c = (.ok (), c')) :
    ∃ (k : Head) (c₁ : Cur), Cur.Passed d c c₁ k.bytes ∧ Fw.SkippedItem d fuel k c₁ c' := by
  rw [Fw.cborSkip] at h
  obtain ⟨b, c₀, hb, h⟩ := bind_ok_iff.1 h
  obtain ⟨arg, c₁, ha, h⟩ := bind_ok_iff.1 h
  obtain ⟨k, rfl, -, rfl, hk⟩ := Fw.head_ok hd hb ha
  refine ⟨k, c₁, hk, ?_, ?_, ?_, ?_, ?_⟩
  · intro hm
    have h' : (pure () : Fw.R Unit) c₁ = (.ok (), c') := by
      unfold Head.IsMajor at hm
      rcases hm with hm | hm | hm <;> simpa only [hm] using h
    rw [(pure_ok_iff.1 h').2]
  · intro hm
    have h' : (Cur.place >>= fun pos => Cur.note (.str pos k.arg) >>= fun _ =>
        ensure ((pos + k.arg) % wordSize ≤ d.length) () >>= fun _ => Cur.bump k.arg : Fw.R Unit) c₁ = (.ok (), c') := by
      unfold Head.IsMajor at hm
      rcases hm with hm | hm <;> simpa only [hm] using h
    simp only [bind_ok_iff, Cur.place, Cur.note, Cur.bump, modifyS_apply, ensure_ok_iff, Prod.mk.injEq, Outcome.ok.injEq] at h'
    obtain ⟨_, _, ⟨rfl, rfl⟩, _, _, ⟨-, rfl⟩, _, _, ⟨-, rfl⟩, -, rfl⟩ := h'
    rfl
  · intro hm
    unfold Head.IsMajor at hm
    simpa only [hm] using h
  · intro hm
    unfold Head.IsMajor at hm
    simpa only [hm] using h
  · intro hm
    unfold Head.IsMajor at hm
    simpa only [hm] using h

/-- As many items are stepped over. -/
theorem repeatN_agree {m : Run Nat Unit Unit} {m' : Fw.R Unit}
    (hone : ∀ {p q : Nat} {c c' : Cur}, c.pos = p → m p = (.ok (), q) → m' c = (.ok (), c') → c'.pos = q) {n : Nat} (hc : c.pos = p)
    (h : repeatN n m p = (.ok (), q)) (h' : repeatN n m' c = (.ok (), c')) : c'.pos = q := by
  induction n generalizing p c with
  | zero => rw [repeatN_zero_ok_iff.1 h, repeatN_zero_ok_iff.1 h', hc]
  | succ n ih =>
    obtain ⟨r, h1, h2⟩ := repeatN_succ_ok_iff.1 h
    obtain ⟨c₁, h1', h2'⟩ := repeatN_succ_ok_iff.1 h'
    exact ih (hone hc h1 h1') h2 h2'

/-- Where both skip an item they go to the same place. -/
theorem skip_agree (hd : d.length ≤ sliceMax) {fuel fuel' : Nat} (hc : c.pos = p) (h : cborSkipTo d fuel p = (.ok (), q))
    (h' : Fw.cborSkip d fuel' c = (.ok (), c')) : c'.pos = q := by
  induction fuel generalizing p q c c' fuel' with
  | zero => simp [cborSkipTo] at h
  | succ fuel ih =>
    cases fuel' with
    | zero => simp [Fw.cborSkip] at h'
    | succ fuel' =>
      obtain ⟨k', c₁, ⟨hat', hpos⟩, hitem⟩ := Fw.cborSkip_succ_ok hd h'
      rw [hc] at hat' hpos
      rcases cborSkipTo_succ_ok h with ⟨b, hat, h7, rfl⟩ | ⟨k, hnarrow, hat, hcases⟩
      · -- A simple value or a float: the bytes of its argument are stepped over.
        have hk : At d p ([k'.initial] ++ k'.tail) := hat'
        obtain rfl : b = k'.initial := List.singleton_inj.1 (hat.unique (at_append_iff.1 hk).1 rfl)
        have hend := hitem.single (.inr (.inr h7))
        have hlen := k'.bytes_length
        omega
      · obtain rfl := Head.unique hat hat'
        rcases hcases with ⟨hm, rfl⟩ | ⟨hm, rfl, hle⟩ | ⟨hm, hn⟩ | ⟨hm, hn⟩ | ⟨hm, hn⟩
        · rw [hitem.single (by tauto), hpos]
        · rw [hitem.str hm, hpos]
          refine Nat.mod_eq_of_lt ?_
          simp only [sliceMax, wordSize] at hd ⊢
          omega
        · exact repeatN_agree ih hpos hn (hitem.array hm)
        · have harg : k.arg < 2 ^ 32 := narrow_arg_lt (hnarrow.resolve_left (by unfold Head.IsMajor at hm ⊢; omega))
          have hcount := hitem.map hm
          rw [Nat.mod_eq_of_lt (by unfold wordSize; omega), Nat.mul_comm] at hcount
          exact repeatN_agree ih hpos hn hcount
        · exact ih hpos hn (hitem.tag hm)

/-- Where both read a payload they read the same. -/
theorem payload_agree (hd : d.length ≤ sliceMax) (hc : c.pos = p) {s s' : Bytes} (h : readSign1Payload d p = (.ok s, q))
    (h' : Fw.readPayload d c = (.ok s', c')) : s = s' ∧ c'.pos = q := by
  obtain ⟨o, r, hpeek, hr⟩ := bind_ok_iff.1 h
  obtain ⟨o', c₁, hpeek', hr'⟩ := bind_ok_iff.1 h'
  obtain ⟨rfl, rfl, rfl, rfl⟩ := peek_agree hc hpeek hpeek'
  cases hb : d[r]? with
  | none =>
    simp only [hb] at hr
    simp at hr
  | some b =>
    simp only [hb] at hr hr'
    have hat := getElem?_eq_some_iff_at.1 hb
    by_cases hnull : b = 0xf6
    · rw [if_pos hnull] at hr hr'
      obtain ⟨_, r₁, hadvance, hr⟩ := bind_ok_iff.1 hr
      obtain ⟨rfl, rfl⟩ := pure_ok_iff.1 hr
      obtain ⟨_, c₂, hbump, hr'⟩ := bind_ok_iff.1 hr'
      obtain ⟨rfl, rfl⟩ := pure_ok_iff.1 hr'
      have hq : r + 1 = q := congrArg Prod.snd hadvance
      rw [bump_pos hd (by rw [hc]; exact hat) hbump, hc]
      exact ⟨rfl, hq⟩
    · rw [if_neg hnull] at hr hr'
      exact bstr_agree hd hc hr hr'

/-- Two envelopes over the same bytes: what both parsers return is the same, but for the algorithm, which each reads from the protected
header with a scan of its own. -/
theorem sign1_agree (hd : d.length ≤ sliceMax) {fuel : Nat} {s : CoseSign1} {s' : Fw.CoseSign1} (h : parseCoseSign1 d = .ok s)
    (h' : Fw.parseCoseSign1 fuel d Cur.start = (.ok s', c')) :
    s'.protectedHeader = s.protectedHeader ∧ s'.payload = s.payload ∧ s'.signature = s.signature ∧
      parseProtectedAlg s.protectedHeader = .ok s.algorithm ∧
      ∃ log log', Fw.parseProtectedHeaderAlg s.protectedHeader ⟨0, log⟩ = (.ok s'.algorithm, log') := by
  obtain ⟨f⟩ := parseCoseSign1_fields h
  simp only [Fw.parseCoseSign1, bind_ok_iff, ensure_ok_iff] at h'
  obtain ⟨_, c₁, htag', b', c₂, hb', _, _, ⟨hm', rfl⟩, n', c₃, hn', _, _, ⟨h4', rfl⟩, prot', c₄, hprot', alg', c₅, halg', _, c₆, hskip',
    pay', c₇, hpay', sig', c₈, hsig', hend'⟩ := h'
  obtain ⟨rfl, -⟩ := pure_ok_iff.1 hend'
  have e₁ : c₁.pos = f.initialAt := tag_agree hd rfl f.tag_read htag'
  obtain ⟨rfl, -, e₃⟩ := head_agree hd e₁ f.initial_read f.count_read hb' hn'
  obtain ⟨rfl, e₄⟩ := bstr_agree hd e₃ f.protected_read hprot'
  have halgrun : (Fw.parseProtectedHeaderAlg s.protectedHeader ⟨0, c₄.log⟩).1 = .ok alg' ∧ c₅.pos = c₄.pos := by
    rw [Cur.inside] at halg'
    exact ⟨congrArg Prod.fst halg', (congrArg (fun r => r.2.pos) halg').symm⟩
  have e₆ := skip_agree hd (halgrun.2.trans e₄) f.unprotected_skip hskip'
  obtain ⟨rfl, e₇⟩ := payload_agree hd e₆ f.payload_read hpay'
  obtain ⟨rfl, -⟩ := bstr_agree hd e₇ f.signature_read hsig'
  exact ⟨rfl, rfl, rfl, f.algorithm, c₄.log, _, eq_of_fst halgrun.1⟩

end FdoUefi
