import FdoUefi.Chainload

/-!
# The gate in front of LoadImage

What an image must be to pass, read off the image itself, and the images on which the checks come to something else: those
that end within the field of the image size, and those whose sizes do not fit in 32 bits when they are compared.
-/

namespace FdoUefi

open Prog Prog.Run

/-- The 32-bit number at `off`, where the image has one. -/
def le32? (d : Bytes) (off : Nat) : Option Nat := (range? d off (off + 4)).map leNat

/-- The image has a PE header at `pe`. -/
structure HasPeHeader (d : Bytes) (pe : Nat) : Prop where
  size : 64 ≤ d.length
  magic : At d 0 mzMagic
  offset : le32? d 0x3c = some pe
  signature : At d pe peSignature
  room : pe + 56 ≤ d.length

/-- The image may be started: it has a PE header and an entry point, and where its own size is given and not zero, the entry
point lies below it and the image is at most twice as long. -/
def Startable (d : Bytes) : Prop :=
  ∃ pe, HasPeHeader d pe ∧ (∀ entry, le32? d (pe + 40) = some entry → entry ≠ 0 ∧
    ∀ size, le32? d (pe + 80) = some size → size ≠ 0 → entry < size ∧ d.length ≤ 2 * size)

/-- The checks index nothing out of range and wrap nowhere, and they let the image through exactly when it may be started. -/
def GateExact (d : Bytes) : Prop :=
  (chainloadChecks d false).1.Returns ∧ (chainloadChecks d false).2 = false ∧
    ((chainloadChecks d false).1 = .ok () ↔ Startable d)

/-- An image with a PE header does not end within the field of its size, and where the size is compared with the length, it
can be doubled in 32 bits and the length is not taken for a smaller one. -/
def GateFits (d : Bytes) : Prop :=
  ∀ pe, HasPeHeader d pe → (d.length < pe + 80 ∨ pe + 84 ≤ d.length) ∧
    ∀ entry size, le32? d (pe + 40) = some entry → le32? d (pe + 80) = some size → 0 < entry → entry < size →
      size < 2 ^ 31 ∧ (d.length < 2 ^ 32 ∨ 2 * size < d.length % 2 ^ 32)

namespace Aux

variable {ε : Type} {d : Bytes} {off pe : Nat}

/-! ### Reading the image -/

/-- Four bytes that stand there are in range. -/
theorem range_four {bs : Bytes} (hat : At d off bs) (hlen : bs.length = 4) : range? d off (off + 4) = some bs :=
  range?_eq_some_iff_at.2 ⟨hat, by rw [hlen]⟩

/-- Four bytes that are there are read. -/
theorem leU32At_eq (h : off + 4 ≤ d.length) : ∃ v, le32? d off = some v ∧ (leU32At d off : Outcome ε Nat) = .ok v := by
  obtain ⟨bs, hat, hlen⟩ := exists_at h
  match bs, hlen with
  | [b0, b1, b2, b3], _ =>
    refine ⟨leNat [b0, b1, b2, b3], by rw [le32?, range_four hat rfl, Option.map_some], ?_⟩
    obtain ⟨h0, hat⟩ := at_append_iff.1 (show At d off ([b0] ++ [b1, b2, b3]) from hat)
    obtain ⟨h1, hat⟩ := at_append_iff.1 (show At d (off + 1) ([b1] ++ [b2, b3]) from hat)
    obtain ⟨h2, h3⟩ := at_append_iff.1 (show At d (off + 2) ([b2] ++ [b3]) from hat)
    unfold leU32At
    simp only [Outcome.index, getElem?_eq_some_iff_at.2 h0, getElem?_eq_some_iff_at.2 h1, getElem?_eq_some_iff_at.2 h2,
      getElem?_eq_some_iff_at.2 (show At d (off + 3) [b3] from h3)]
    rfl

/-- One of four bytes that are read is not there. -/
theorem leU32At_panics (hlt : d.length < off + 4) : (leU32At d off : Outcome ε Nat) = .panic := by
  have h3 : d[off + 3]? = none := List.getElem?_eq_none (by omega)
  simp only [leU32At, Outcome.index, h3]
  cases d[off]? with
  | none => rfl
  | some b0 =>
    cases d[off + 1]? with
    | none => rfl
    | some b1 =>
      cases d[off + 2]? with
      | none => rfl
      | some b2 => rfl

/-- A number that would end behind the data is not there. -/
theorem le32?_none (hlt : d.length < off + 4) : le32? d off = none := by
  rw [le32?, range?, if_neg (by omega), Option.map_none]

/-- A little-endian number has as many bytes as it has. -/
theorem leNat_lt (bs : Bytes) : leNat bs < 256 ^ bs.length := by
  induction bs with
  | nil => decide
  | cons b bs ih =>
    have hb := b.toNat_lt
    rw [leNat, List.length_cons, Nat.pow_succ]
    omega

/-- What four bytes hold fits in 32 bits. -/
theorem le32?_lt {v : Nat} (h : le32? d off = some v) : v < 2 ^ 32 := by
  obtain ⟨bs, hrange, rfl⟩ := Option.map_eq_some_iff.1 h
  obtain ⟨-, hlen⟩ := range?_eq_some_iff_at.1 hrange
  have hlt := leNat_lt bs
  rw [show bs.length = 4 by omega] at hlt
  exact hlt

/-- Bytes that are there are compared. -/
theorem bytesAt_eq {bs : Bytes} (h : off + bs.length ≤ d.length) :
    ∃ b, (bytesAt d off bs : Outcome ε Bool) = .ok b ∧ (b = true ↔ At d off bs) := by
  induction bs generalizing off with
  | nil =>
    have hat : At d off [] := at_nil h
    exact ⟨true, rfl, by simp [hat]⟩
  | cons x bs ih =>
    rw [List.length_cons] at h
    obtain ⟨y, hy⟩ : ∃ y, d[off]? = some y := ⟨_, List.getElem?_eq_getElem (by omega)⟩
    have hyat := getElem?_eq_some_iff_at.1 hy
    have hstep : (bytesAt d off (x :: bs) : Outcome ε Bool) = if y ≠ x then .ok false else bytesAt d (off + 1) bs := by
      simp only [bytesAt, Outcome.index, hy]
      rfl
    by_cases hxy : y = x
    · subst hxy
      obtain ⟨b, hb, hiff⟩ := ih (show off + 1 + bs.length ≤ d.length by omega)
      refine ⟨b, by rw [hstep, if_neg (by simp), hb], ?_⟩
      rw [hiff, show y :: bs = [y] ++ bs from rfl, at_append_iff]
      exact ⟨fun h => ⟨hyat, h⟩, fun h => h.2⟩
    · refine ⟨false, by rw [hstep, if_pos hxy], ?_⟩
      simp only [Bool.false_eq_true, false_iff]
      intro hat
      obtain ⟨hx, -⟩ := at_append_iff.1 (show At d off ([x] ++ bs) from hat)
      exact hxy (List.singleton_inj.1 (hyat.unique hx rfl))

/-! ### The header -/

/-- A value is handed on. -/
theorem ok_bind {α β : Type} (a : α) (f : α → Outcome ε β) : (Outcome.ok a >>= f) = f a := rfl

/-- The validation comes back, and says whether a PE signature stands where the image says. -/
theorem validateEfiImage_eq (d : Bytes) : ∃ b, (validateEfiImage d : Outcome ε Bool) = .ok b ∧
    (b = true ↔ 64 ≤ d.length ∧ At d 0 mzMagic ∧ ∃ pe, le32? d 0x3c = some pe ∧ At d pe peSignature) := by
  unfold validateEfiImage
  by_cases hsize : d.length < 64
  · rw [if_pos hsize]
    refine ⟨false, rfl, ?_⟩
    simp only [Bool.false_eq_true, false_iff]
    intro h
    omega
  · have hmz : 0 + mzMagic.length ≤ d.length := by simp only [mzMagic, List.length_cons, List.length_nil]; omega
    obtain ⟨b, hb, hmagic⟩ := bytesAt_eq (ε := ε) hmz
    rw [if_neg hsize, hb, ok_bind]
    by_cases hfalse : b = false
    · rw [if_pos hfalse]
      refine ⟨false, rfl, ?_⟩
      simp only [Bool.false_eq_true, false_iff]
      intro h
      rw [hmagic.2 h.2.1] at hfalse
      cases hfalse
    · obtain ⟨pe, hpe, hread⟩ := leU32At_eq (ε := ε) (show 0x3c + 4 ≤ d.length by omega)
      have hmz : At d 0 mzMagic := hmagic.1 (by simpa using hfalse)
      rw [if_neg hfalse, hread, ok_bind]
      by_cases hroom : d.length < pe + 4
      · rw [if_pos hroom]
        refine ⟨false, rfl, ?_⟩
        simp only [Bool.false_eq_true, false_iff]
        rintro ⟨-, -, pe', hpe', hsig⟩
        obtain rfl := Option.some.inj (hpe.symm.trans hpe')
        have hend := hsig.end_le
        simp only [peSignature, List.length_cons, List.length_nil] at hend
        omega
      · rw [if_neg hroom]
        have hin : pe + peSignature.length ≤ d.length := by simp only [peSignature, List.length_cons, List.length_nil]; omega
        obtain ⟨b', hb', hsig⟩ := bytesAt_eq (ε := ε) hin
        refine ⟨b', hb', hsig.trans ⟨fun h => ⟨by omega, hmz, pe, hpe, h⟩, ?_⟩⟩
        rintro ⟨-, -, pe', hpe', h⟩
        rwa [Option.some.inj (hpe.trans rfl |>.symm.trans hpe')]

/-- An image has at most one PE header. -/
theorem header_unique {pe' : Nat} (h : HasPeHeader d pe) (h' : HasPeHeader d pe') : pe = pe' :=
  Option.some.inj (h.offset.symm.trans h'.offset)

/-- An image without a PE header is refused. -/
theorem checks_refuse (hno : ∀ pe, ¬HasPeHeader d pe) (w : Bool) : chainloadChecks d w = (.err .loadError, w) := by
  obtain ⟨b, hb, hiff⟩ := validateEfiImage_eq (ε := Status) d
  rw [chainloadChecks, hb, bind_of_ok (ofOutcome_apply _ w)]
  by_cases hvalid : b = true
  · obtain ⟨hsize, hmagic, pe, hpe, hsig⟩ := hiff.1 hvalid
    obtain ⟨v, hv, hread⟩ := leU32At_eq (ε := Status) (show 0x3c + 4 ≤ d.length by omega)
    obtain rfl := Option.some.inj (hpe.symm.trans hv)
    have hroom : ¬pe + 56 ≤ d.length := fun hroom => hno pe ⟨hsize, hmagic, hpe, hsig, hroom⟩
    rw [ensure_of_true _ hvalid, bind_of_ok (pure_apply _ w), hread, bind_of_ok (ofOutcome_apply _ w), ensure_of_false _ hroom,
      bind_of_err (fail_apply _ w)]
  · rw [ensure_of_false _ hvalid, bind_of_err (fail_apply _ w)]

/-! ### The sizes -/

/-- The checks that follow the reading of the header. -/
def sizeChecks (d : Bytes) (entry size : Nat) : Run Bool Status Unit := do
  ensure (entry ≠ 0) .loadError
  ensure (¬(0 < size ∧ size ≤ entry)) .loadError
  onlyIf (0 < size) do
    let limit ← mulU32 size 2
    ensure (¬limit < d.length % 2 ^ 32) .loadError

/-- Logging an image of 64 bytes changes nothing. -/
theorem logImage_eq (h : 64 ≤ d.length) (w : Bool) : logImage d w = (.ok (), w) := by
  have hcut : ∀ a b, a ≤ b → b ≤ d.length → ∃ s, (slice d a b : Run Bool Status Bytes) w = (.ok s, w) := by
    intro a b hab hb
    unfold slice
    rw [range?, if_pos ⟨hab, hb⟩]
    exact ⟨_, rfl⟩
  obtain ⟨_, h1⟩ := hcut 0 16 (by omega) (by omega)
  obtain ⟨_, h2⟩ := hcut (d.length / 2) (min (d.length / 2 + 16) d.length) (by omega) (by omega)
  obtain ⟨_, h3⟩ := hcut (d.length - 16) d.length (by omega) (by omega)
  rw [logImage, bind_of_ok h1, bind_of_ok h2, bind_of_ok h3]
  rfl

/-- An image with a PE header comes to the checks of its sizes, unless it ends within the field of its size. -/
theorem checks_of_header (h : HasPeHeader d pe) (w : Bool) : ∃ entry, le32? d (pe + 40) = some entry ∧ chainloadChecks d w =
    if d.length < pe + 80 then sizeChecks d entry 0 w
    else if d.length < pe + 84 then (.panic, w)
    else sizeChecks d entry ((le32? d (pe + 80)).getD 0) w := by
  obtain ⟨b, hb, hiff⟩ := validateEfiImage_eq (ε := Status) d
  have hroom := h.room
  have hsize := h.size
  have hvalid : b = true := hiff.2 ⟨hsize, h.magic, pe, h.offset, h.signature⟩
  obtain ⟨v, hv, hread⟩ := leU32At_eq (ε := Status) (show 0x3c + 4 ≤ d.length by omega)
  obtain rfl : pe = v := Option.some.inj (h.offset.symm.trans hv)
  obtain ⟨entry, hentry, hreadEntry⟩ := leU32At_eq (ε := Status) (show pe + 40 + 4 ≤ d.length by omega)
  obtain ⟨_, -, hbase⟩ := leU32At_eq (ε := Status) (show pe + 48 + 4 ≤ d.length by omega)
  obtain ⟨_, -, hbase'⟩ := leU32At_eq (ε := Status) (show pe + 52 + 4 ≤ d.length by omega)
  refine ⟨entry, hentry, ?_⟩
  rw [chainloadChecks, hb, bind_of_ok (ofOutcome_apply _ w), ensure_of_true _ hvalid, bind_of_ok (pure_apply _ w), hread,
    bind_of_ok (ofOutcome_apply _ w), ensure_of_true _ hroom, bind_of_ok (pure_apply _ w), hreadEntry,
    bind_of_ok (ofOutcome_apply _ w), hbase, bind_of_ok (ofOutcome_apply _ w), hbase', bind_of_ok (ofOutcome_apply _ w)]
  by_cases hshort : d.length < pe + 80
  · rw [if_neg (by omega), bind_of_ok (pure_apply _ w), bind_of_ok (logImage_eq hsize w), if_pos hshort]
    rfl
  · rw [if_pos (by omega), if_neg hshort]
    by_cases hcut : d.length < pe + 84
    · rw [leU32At_panics (by omega), bind_of_panic (ofOutcome_apply _ w), if_pos hcut]
    · obtain ⟨size, hsizeAt, hreadSize⟩ := leU32At_eq (ε := Status) (show pe + 80 + 4 ≤ d.length by omega)
      rw [hreadSize, bind_of_ok (ofOutcome_apply _ w), bind_of_ok (logImage_eq hsize w), if_neg hcut, hsizeAt, Option.getD_some]
      rfl

/-- How the checks of the sizes end. -/
theorem sizeChecks_eq (entry size : Nat) (w : Bool) : sizeChecks d entry size w =
    if entry = 0 then (.err .loadError, w)
    else if size = 0 then (.ok (), w)
    else if size ≤ entry then (.err .loadError, w)
    else (if size * 2 % 2 ^ 32 < d.length % 2 ^ 32 then .err .loadError else .ok (), w || 2 ^ 32 ≤ size * 2) := by
  unfold sizeChecks
  by_cases hentry : entry = 0
  · rw [if_pos hentry, ensure_of_false _ (by simpa using hentry), bind_of_err (fail_apply _ w)]
  · rw [if_neg hentry, ensure_of_true _ hentry, bind_of_ok (pure_apply _ w)]
    by_cases hsize : size = 0
    · rw [if_pos hsize, ensure_of_true _ (by omega), bind_of_ok (pure_apply _ w), onlyIf, if_neg (by omega)]
      rfl
    · rw [if_neg hsize]
      by_cases hle : size ≤ entry
      · rw [if_pos hle, ensure_of_false _ (by omega), bind_of_err (fail_apply _ w)]
      · rw [if_neg hle, ensure_of_true _ (by omega), bind_of_ok (pure_apply _ w), onlyIf, if_pos (by omega),
          bind_of_ok (t := w || 2 ^ 32 ≤ size * 2) (a := size * 2 % 2 ^ 32) rfl]
        by_cases hlt : size * 2 % 2 ^ 32 < d.length % 2 ^ 32
        · rw [ensure_of_false _ (by simpa using hlt), if_pos hlt]
          rfl
        · rw [ensure_of_true _ hlt, if_neg hlt]
          rfl

/-- An image can be started if its entry point is in the image and the file is not too large for it. -/
theorem startable_iff {entry : Nat} (h : HasPeHeader d pe) (hentry : le32? d (pe + 40) = some entry) : Startable d ↔
    entry ≠ 0 ∧ ∀ size, le32? d (pe + 80) = some size → size ≠ 0 → entry < size ∧ d.length ≤ 2 * size := by
  constructor
  · rintro ⟨pe', h', hrest⟩
    obtain rfl := header_unique h h'
    exact hrest entry hentry
  · intro hrest
    refine ⟨pe, h, fun entry' hentry' => ?_⟩
    obtain rfl := Option.some.inj (hentry.symm.trans hentry')
    exact hrest

/-- The fields of the gate fit if the size is there, or not at all, and nothing in it wraps around. -/
theorem gateFits_iff (h : HasPeHeader d pe) : GateFits d ↔ (d.length < pe + 80 ∨ pe + 84 ≤ d.length) ∧
    ∀ entry size, le32? d (pe + 40) = some entry → le32? d (pe + 80) = some size → 0 < entry → entry < size →
      size < 2 ^ 31 ∧ (d.length < 2 ^ 32 ∨ 2 * size < d.length % 2 ^ 32) := by
  constructor
  · intro hfits
    exact hfits pe h
  · intro hrest pe' h'
    obtain rfl := header_unique h h'
    exact hrest

/-- Where the image has a size of its own, the fields of the gate fit if nothing in it wraps around. -/
theorem gateFits_iff_of_size {entry size : Nat} (h : HasPeHeader d pe) (hentry : le32? d (pe + 40) = some entry)
    (hsize : le32? d (pe + 80) = some size) (hroom : pe + 84 ≤ d.length) : GateFits d ↔
      (0 < entry → entry < size → size < 2 ^ 31 ∧ (d.length < 2 ^ 32 ∨ 2 * size < d.length % 2 ^ 32)) := by
  rw [gateFits_iff h]
  constructor
  · rintro ⟨-, hfits⟩
    exact hfits entry size hentry hsize
  · intro hfits
    refine ⟨.inr hroom, fun entry' size' hentry' hsize' => ?_⟩
    obtain rfl := Option.some.inj (hentry.symm.trans hentry')
    obtain rfl := Option.some.inj (hsize.symm.trans hsize')
    exact hfits

/-- The gate is exact on an image with a PE header exactly when its sizes fit. -/
theorem gate_of_header (h : HasPeHeader d pe) : GateExact d ↔ GateFits d := by
  obtain ⟨entry, hentry, hrun⟩ := checks_of_header h false
  rw [GateExact, startable_iff h hentry, hrun]
  by_cases hshort : d.length < pe + 80
  · rw [if_pos hshort, gateFits_iff h, sizeChecks_eq, le32?_none (by omega)]
    by_cases hzero : entry = 0
    · simp [hzero, hshort, Outcome.Returns]
    · simp [hzero, hshort, Outcome.Returns]
  rw [if_neg hshort]
  by_cases hcut : d.length < pe + 84
  · rw [if_pos hcut, gateFits_iff h]
    simp only [Outcome.Returns, false_and, false_iff, not_and]
    omega
  obtain ⟨size, hsize, -⟩ := leU32At_eq (ε := Status) (show pe + 80 + 4 ≤ d.length by omega)
  have hlt := le32?_lt hsize
  rw [if_neg hcut, gateFits_iff_of_size h hentry hsize (by omega), hsize, Option.getD_some, sizeChecks_eq]
  simp only [Option.some.injEq, forall_eq']
  by_cases hzero : entry = 0
  · simp [hzero, Outcome.Returns]
  rw [if_neg hzero]
  by_cases hnone : size = 0
  · simp [hnone, hzero, Outcome.Returns]
  rw [if_neg hnone]
  by_cases hle : size ≤ entry
  · rw [if_pos hle]
    have hno : ¬entry < size := by omega
    simp [hno, hnone, Outcome.Returns]
  rw [if_neg hle]
  -- The product is formed: what is left is whether it and the length fit in 32 bits.
  have hpos : 0 < entry := by omega
  have hin : entry < size := by omega
  by_cases hover : d.length % 2 ^ 32 ≤ size * 2 % 2 ^ 32
  · rw [if_neg (by omega)]
    simp only [Outcome.Returns, true_and, Bool.false_or, decide_eq_false_iff_not, true_iff, hpos, hin, hzero, hnone, ne_eq,
      not_false_eq_true, forall_const]
    omega
  · rw [if_pos (by omega)]
    simp only [Outcome.Returns, true_and, Bool.false_or, decide_eq_false_iff_not, reduceCtorEq, false_iff, hpos, hin, hzero,
      hnone, ne_eq, not_false_eq_true, forall_const]
    omega

/-- A gate that panics is not exact. -/
theorem not_exact_of_panic (h : (chainloadChecks d false).1 = .panic) : ¬GateExact d := by
  rintro ⟨hreturns, -, -⟩
  rw [h] at hreturns
  exact hreturns

end Aux

/-- The checks are safe and exact exactly on the images whose sizes fit. -/
theorem chainloadChecks_iff (d : Bytes) : GateExact d ↔ GateFits d := by
  by_cases h : ∃ pe, HasPeHeader d pe
  · obtain ⟨pe, hpe⟩ := h
    exact Aux.gate_of_header hpe
  · have hno : ∀ pe, ¬HasPeHeader d pe := fun pe hpe => h ⟨pe, hpe⟩
    have hfits : GateFits d := fun pe hpe => absurd hpe (hno pe)
    have hstart : ¬Startable d := fun ⟨pe, hpe, _⟩ => hno pe hpe
    rw [GateExact, Aux.checks_refuse hno]
    simp [hfits, hstart, Outcome.Returns]

/-- An image with its PE header at 64 and the given fields, from the entry point on. -/
def sampleImage (entry : UInt8) (tail : Bytes) : Bytes :=
  [0x4d, 0x5a] ++ List.replicate 58 0 ++ [64, 0, 0, 0] ++ [0x50, 0x45, 0, 0] ++ List.replicate 36 0 ++
    [entry, 0, 0, 0] ++ List.replicate 12 0 ++ tail

/-- An image that ends where the field of its size starts. -/
def cutImage : Bytes := sampleImage 1 (List.replicate 24 0)

/-- Reading the field is a panic, and so the image is not let through, as one without a size of its own is. -/
theorem cutImage_not_exact : (chainloadChecks cutImage false).1 = .panic ∧ ¬GateExact cutImage := by
  have hpanic : (chainloadChecks cutImage false).1 = .panic := by decide +kernel
  exact ⟨hpanic, Aux.not_exact_of_panic hpanic⟩

end FdoUefi
