import FdoUefi.Lemmas.FirmwareReaders

/-!
# What an accepted firmware file holds

The image of an accepted file is the last element of the payload, also where an addition on its offset would wrap. What is signed and
declared is what the claim of the file says as long as no integer loses high bits on the way: the magic and the hash type are
compared as 32-bit numbers, the Sig_structure writes lengths of 32 bits, and nothing looks behind the payload's array
(`verifyFirmware_sound_iff`).
-/

namespace FdoUefi

open Prog Prog.Run Cbor

/-- The declared hash is the digest of the image. -/
def IsDigest (Γ : Ctx) (type : Int) (hash image : Bytes) : Prop :=
  type = Fw.coseAlgSha256 ∧ Γ.sha256 image = hash ∨ type = Fw.coseAlgSha384 ∧ Γ.sha384 image = hash

/-- What an accepted file promises: an ES256 signature of the platform key over `["Signature1", protected, h'', P]`, and a `P` of ten
fields for this machine with the image, its revision and its digest. `sign1.algorithm` is the code's own reading of label 1. It is
not the value in the decoded map where that loses high bits in an `i32`, and where the scan, which takes the value of every label
for an integer, goes on inside an item. -/
def FirmwareSound (Γ : Ctx) (fuel : Nat) (d : Bytes) (payload : Fw.FirmwarePayload) (image : Bytes) : Prop :=
  ∃ sign1, (Fw.parseCoseSign1 fuel d Cur.start).1 = .ok sign1 ∧ sign1.algorithm = coseAlgEs256 ∧
    IsSigStructure (Fw.sigStructure sign1) sign1.protectedHeader [] sign1.payload ∧
    sign1.signature.length = 64 ∧
    Γ.es256 (Fw.sigStructure sign1) sign1.signature (0x04 :: (Fw.platformKeyX ++ Fw.platformKeyY)) = true ∧
    ∃ f, FirmwareLayout sign1.payload f [] ∧ f.magic = Fw.fwMagic ∧ f.architecture = utf8 "x86_64" ∧ f.image = image ∧
      payload.firmwareRev = f.firmwareRev ∧ IsDigest Γ f.hashType f.hash image

/-- No number of the file loses high bits and the payload ends with its array. -/
def FirmwareInRange (fuel : Nat) (d : Bytes) : Prop :=
  ∀ sign1, (Fw.parseCoseSign1 fuel d Cur.start).1 = .ok sign1 →
    sign1.protectedHeader.length < 2 ^ 32 ∧ sign1.payload.length < 2 ^ 32 ∧
      ∀ f rest, FirmwareLayout sign1.payload f rest →
        f.magic < 2 ^ 32 ∧ -2 ^ 31 ≤ f.hashType ∧ f.hashType < 2 ^ 31 ∧ rest = []

namespace Aux

variable {Γ : Ctx} {fuel : Nat} {d image : Bytes} {payload : Fw.FirmwarePayload} {c c' : Cur}

/-- A hash that was accepted is that of the image. -/
theorem isDigest_of_verifyImageHash (h : Fw.verifyImageHash Γ payload image = .ok) :
    IsDigest Γ payload.imageHashType payload.imageHash image := by
  unfold Fw.verifyImageHash at h
  split at h
  · cases h
  · split at h
    · next h256 =>
      split at h
      · next hhash => exact .inl ⟨h256, hhash⟩
      · cases h
    · split at h
      · next h384 =>
        split at h
        · next hhash => exact .inr ⟨h384, hhash⟩
        · cases h
      · cases h

/-- The image that was extracted lies where it is announced: an end that wraps around is before the start, and cutting there
panics. -/
theorem extractImage_ok (hd : d.length ≤ sliceMax) (ho : payload.imageOffset ≤ d.length) (hs : payload.imageSize < wordSize)
    {payload' : Fw.FirmwarePayload} (h : Fw.extractImage Γ d payload c = (.ok (.ok payload' image), c')) :
    payload' = payload ∧ At d payload.imageOffset image ∧ image.length = payload.imageSize ∧
      Fw.verifyImageHash Γ payload image = .ok := by
  rw [Fw.extractImage, Cur.note, bind_of_ok (modifyS_apply _ _)] at h
  split at h
  · cases (pure_ok_iff.1 h).1
  · obtain ⟨data, c₁, hslice, hmatch⟩ := bind_ok_iff.1 h
    obtain ⟨hat, hend, -⟩ := slice_ok_iff.1 hslice
    have hlen : data.length = payload.imageSize := by
      have hle := hat.end_le
      simp only [sliceMax, wordSize] at hd hend hs
      omega
    split at hmatch
    · next hok =>
      obtain ⟨rfl, rfl⟩ := Fw.VerifyResult.ok.inj (pure_ok_iff.1 hmatch).1
      exact ⟨rfl, hat, hlen, hok⟩
    · cases (pure_ok_iff.1 hmatch).1
    · cases (pure_ok_iff.1 hmatch).1

/-- A payload that was accepted: ten fields, the image in the last. -/
theorem verifyPayload_ok (hd : d.length ≤ sliceMax) (h : Fw.verifyPayload Γ fuel d c = (.ok (.ok payload image), c')) :
    ∃ f rest, FirmwareLayout d f rest ∧ f.image = image ∧ f.magic % 2 ^ 32 = Fw.fwMagic ∧ f.architecture = utf8 "x86_64" ∧
      payload.firmwareRev = f.firmwareRev ∧ IsDigest Γ (asI32 f.hashType) f.hash image := by
  obtain ⟨o, c₁, hattempt, hr⟩ := bind_ok_iff.1 h
  rcases attempt_ok_iff.1 hattempt with ⟨p, rfl, hp⟩ | ⟨rfl, -⟩
  · have hparse : Fw.parseFirmwarePayload fuel d ⟨0, c.log⟩ = (.ok p, (Fw.parseFirmwarePayload fuel d ⟨0, c.log⟩).2) :=
      eq_of_fst (Prod.mk.inj hp).1
    obtain ⟨ho, hs⟩ := Fw.parseFirmwarePayload_image hd hparse
    simp only at hr
    by_cases harch : p.architecture = utf8 "x86_64"
    · rw [if_neg (not_not.2 harch)] at hr
      obtain ⟨rfl, hat, hlen, hhash⟩ := extractImage_ok hd ho hs hr
      obtain ⟨f, rest, hlayout, himage, hmagic, hpayload⟩ := Fw.parseFirmwarePayload_ok hd rfl hparse hat hlen
      rw [hpayload] at harch hhash ⊢
      exact ⟨f, rest, hlayout, himage, hmagic, harch, rfl, isDigest_of_verifyImageHash hhash⟩
    · rw [if_pos harch] at hr
      cases (pure_ok_iff.1 hr).1
  · cases (pure_ok_iff.1 hr).1

/-- The steps of an accepted file. -/
theorem verifyFirmware_ok (h : Fw.verifyFirmware Γ fuel d Cur.start = (.ok (.ok payload image), c')) :
    ∃ sign1 c₁, Fw.parseCoseSign1 fuel d Cur.start = (.ok sign1, c₁) ∧ sign1.algorithm = coseAlgEs256 ∧
      Fw.verifySignature Γ sign1 = true ∧ Fw.verifyPayload Γ fuel sign1.payload c₁ = (.ok (.ok payload image), c') := by
  obtain ⟨o, c₁, hattempt, hr⟩ := bind_ok_iff.1 h
  rcases attempt_ok_iff.1 hattempt with ⟨sign1, rfl, hsign1⟩ | ⟨rfl, -⟩
  · simp only at hr
    by_cases halg : sign1.algorithm = coseAlgEs256
    · rw [if_neg (not_not.2 halg)] at hr
      by_cases hsig : Fw.verifySignature Γ sign1 = false
      · rw [if_pos hsig] at hr
        cases (pure_ok_iff.1 hr).1
      · rw [if_neg hsig] at hr
        exact ⟨sign1, c₁, hsign1, halg, by simpa using hsig, hr⟩
    · rw [if_pos halg] at hr
      cases (pure_ok_iff.1 hr).1
  · cases (pure_ok_iff.1 hr).1

end Aux

/-- A file that `verify_firmware` accepts holds what its acceptance promises exactly when it is in range: protected header and payload
are shorter than 2^32 bytes, the magic has 32 bits, the hash type is a 32-bit number, and the payload ends with its array. -/
theorem verifyFirmware_sound_iff (Γ : Ctx) (fuel : Nat) (d : Slice) (payload : Fw.FirmwarePayload) (image : Bytes)
    (h : (Fw.verifyFirmware Γ fuel d.bytes Cur.start).1 = .ok (.ok payload image)) :
    FirmwareSound Γ fuel d.bytes payload image ↔ FirmwareInRange fuel d.bytes := by
  obtain ⟨sign1, c₁, hsign1, halg, hsig, hpayload⟩ := Aux.verifyFirmware_ok (eq_of_fst h)
  have hparse : (Fw.parseCoseSign1 fuel d.bytes Cur.start).1 = .ok sign1 := by rw [hsign1]
  have hlen := Fw.parseCoseSign1_payload_length d.fits hsign1
  obtain ⟨f, rest, hlayout, himage, hmagic, harch, hrev, hdigest⟩ := Aux.verifyPayload_ok (hlen.trans d.fits) hpayload
  constructor
  · rintro ⟨s, hs, -, hstruct, -, -, g, hg, hgmagic, -, -, -, hgdigest⟩ s' hs'
    obtain rfl : sign1 = s := Outcome.ok.inj (hparse.symm.trans hs)
    obtain rfl : sign1 = s' := Outcome.ok.inj (hparse.symm.trans hs')
    rw [Fw.sigStructure_eq] at hstruct
    obtain ⟨hprot, -, hpay⟩ := lt_of_isSigStructure hstruct
    refine ⟨hprot, hpay, ?_⟩
    intro f' rest' hf'
    obtain ⟨rfl, rfl⟩ := hg.unique hf'
    refine ⟨by rw [hgmagic]; decide, ?_, ?_, rfl⟩
    · rcases hgdigest with ⟨htype, -⟩ | ⟨htype, -⟩ <;> rw [htype] <;> decide
    · rcases hgdigest with ⟨htype, -⟩ | ⟨htype, -⟩ <;> rw [htype] <;> decide
  · intro hrange
    obtain ⟨hprot, hpay, hfields⟩ := hrange sign1 hparse
    obtain ⟨hf, hlo, hhi, rfl⟩ := hfields f rest hlayout
    rw [Nat.mod_eq_of_lt hf] at hmagic
    rw [asI32_of_range hlo hhi] at hdigest
    simp only [Fw.verifySignature, Fw.verifyEcdsaP256, Bool.and_eq_true, beq_iff_eq] at hsig
    refine ⟨sign1, hparse, halg, ?_, hsig.1, hsig.2, f, hlayout, hmagic, harch, himage, hrev, hdigest⟩
    rw [Fw.sigStructure_eq]
    exact buildSigStructure_isSigStructure hprot (by decide) hpay

def imageBytes : Bytes := [0x4d, 0x5a, 0x90, 0x00]

/-- SHA-256 of the image. -/
def imageDigest : Bytes := beBytes 32 0x9f2981a7cc4d40a2a409dc895de64253acd819d7c0011c8e80b86fe899464e31

/-- The fields of a firmware file with an image of four bytes. -/
def imageFields (magic : Nat) : FirmwareFields where
  magic
  version := 1
  platformType := utf8 "uefi"
  architecture := utf8 "x86_64"
  imageType := 0
  timestamp := 0
  firmwareRev := 5
  buildId := none
  hashType := -16
  hash := imageDigest
  image := imageBytes

/-- The same, encoded. -/
def imageElements (magic : Nat) : List Bytes :=
  [shortHead 0 magic, shortHead 0 1, encodeTstr (utf8 "uefi"), encodeTstr (utf8 "x86_64"), shortHead 0 0, shortHead 0 0, shortHead 0 5,
    [0xf6], 0x82 :: [shortHead 1 15, encodeBstr imageDigest].flatten, encodeBstr imageBytes]

def imagePayload (magic : Nat) : Bytes := 0x8a :: (imageElements magic).flatten

def imageFile (magic : Nat) (signature : Bytes) : Bytes :=
  [0xd2, 0x84, 0x43, 0xa1, 0x01, 0x26, 0xa0] ++ encodeBstr (imagePayload magic) ++ encodeBstr signature

namespace Aux

/-- The shortest head of a number is an integer, tagged or not. -/
theorem shortHead_uint {n : Nat} (hn : n < 2 ^ 64) : Item Head.Rfc (shortHead 0 n) ∧ IsTaggedUint (shortHead 0 n) n := by
  obtain ⟨h, hb, hm, harg, hrfc, -⟩ := shortHead_head (m := 0) (by decide) hn
  rw [hb]
  refine ⟨Item.int h hrfc (.inl hm), ?_⟩
  rw [← harg]
  exact .uint h hm

/-- The hash of the sample payload is a hash. -/
theorem imageHash_isHash :
    IsHash (0x82 :: [shortHead 1 15, encodeBstr imageDigest].flatten) (-16) imageDigest := by
  obtain ⟨h, hb, hm, harg, hrfc, -⟩ := shortHead_head (m := 1) (n := 15) (by decide) (by decide)
  have hint : Item Head.Rfc (shortHead 1 15) := by
    rw [hb]
    exact Item.int h hrfc (.inr hm)
  obtain ⟨hstr, hitem⟩ := encodeBstr_isBstr (s := imageDigest) (by decide)
  refine ⟨_, _, isArray_of_small (n := 2) (by decide) rfl ?_, ⟨h, .inr ⟨hm, by rw [harg]; rfl⟩, hb⟩, hstr⟩
  simp only [List.mem_cons, List.not_mem_nil, or_false]
  rintro x (rfl | rfl)
  · exact hint
  · exact hitem

/-- The payload is the array of its fields, for every magic of a word. -/
theorem imagePayload_layout {magic : Nat} (hmagic : magic < 2 ^ 64) : FirmwareLayout (imagePayload magic) (imageFields magic) [] := by
  obtain ⟨i0, e0⟩ := shortHead_uint hmagic
  obtain ⟨i1, e1⟩ := shortHead_uint (n := 1) (by decide)
  obtain ⟨i4, e4⟩ := shortHead_uint (n := 0) (by decide)
  obtain ⟨i6, e6⟩ := shortHead_uint (n := 5) (by decide)
  obtain ⟨e2, i2⟩ := encodeTstr_isText (s := utf8 "uefi") (by decide)
  obtain ⟨e3, i3⟩ := encodeTstr_isText (s := utf8 "x86_64") (by decide)
  obtain ⟨e9, i9⟩ := encodeBstr_isBstr (s := imageBytes) (by decide)
  have e8 := imageHash_isHash
  have i8 : Item Head.Rfc (0x82 :: [shortHead 1 15, encodeBstr imageDigest].flatten) := by
    obtain ⟨_, _, harray, -⟩ := e8
    exact harray.item
  have harray : IsArray Head.Rfc (imagePayload magic) (imageElements magic) := by
    refine isArray_of_small (n := 10) (by decide) rfl ?_
    simp only [imageElements, List.mem_cons, List.not_mem_nil, or_false]
    rintro x (rfl | rfl | rfl | rfl | rfl | rfl | rfl | rfl | rfl | rfl)
    · exact i0
    · exact i1
    · exact i2
    · exact i3
    · exact i4
    · exact i4
    · exact i6
    · exact null_item
    · exact i8
    · exact i9
  exact ⟨_, _, (List.append_nil _).symm, harray, e0, e1, e2, e3, e4, e4, e6, rfl, e8, e9⟩

end Aux

/-- What the platform key has signed of the file with this magic. -/
def imageSigned (magic : Nat) (signature : Bytes) : Bytes × Bytes × Bytes :=
  ([0x84, 0x6a] ++ utf8 "Signature1" ++ [0x43, 0xa1, 0x01, 0x26, 0x40] ++ encodeBstr (imagePayload magic), signature,
    0x04 :: (Fw.platformKeyX ++ Fw.platformKeyY))

def imageSignature : Bytes := beBytes 64
  0xfac15b62ea0f571c19b12d4c4efdf209d2ce010e57678d3bbc8a34d51382eb279595b9ed35d0e65d12f57e2a30fec5101f1b9b442016be7f8d108b44604946c4

def wideSignature : Bytes := beBytes 64
  0x7f35ee9f899e9ffaed63cb06f0a11760b15647c62e58e5af947882a2d800e8a8a509e7f6ea8fcc6c7129a54ac8172db109254a5a579816538b93f1dac89142ae

/-- A magic whose low 32 bits are "FDOF". -/
def wideMagic : Nat := 0x146444f46

def imageCtx : Ctx :=
  Ctx.ofTables [imageSigned Fw.fwMagic imageSignature, imageSigned wideMagic wideSignature]
    [(imageBytes, imageDigest)] []

def imageSlice : Slice where
  bytes := imageFile Fw.fwMagic imageSignature
  fits := by decide +kernel

/-- The sample file is in range, and it holds what it promises. -/
theorem imageSlice_sound : FirmwareSound imageCtx 8 imageSlice.bytes ((imageFields Fw.fwMagic).toPayload 60) imageBytes := by
  refine (verifyFirmware_sound_iff imageCtx 8 imageSlice _ _ (by decide +kernel)).2 ?_
  intro sign1 hsign1
  have hparts : Outcome.okWith (fun s => s.protectedHeader.length < 2 ^ 32 ∧ s.payload = imagePayload Fw.fwMagic)
      (Fw.parseCoseSign1 8 imageSlice.bytes Cur.start).1 = true := by decide +kernel
  obtain ⟨s, hs, hp⟩ := Outcome.okWith_iff.1 hparts
  obtain rfl : sign1 = s := Outcome.ok.inj (hsign1.symm.trans hs)
  simp only [decide_eq_true_eq] at hp
  obtain ⟨hprot, hpayload⟩ := hp
  rw [hpayload]
  refine ⟨hprot, by decide, ?_⟩
  intro f rest hf
  obtain ⟨rfl, rfl⟩ := (Aux.imagePayload_layout (by decide)).unique hf
  exact ⟨by decide, by decide, by decide, rfl⟩

/-- A magic of five bytes is accepted. -/
theorem wideMagic_not_sound :
    (Fw.verifyFirmware imageCtx 8 (imageFile wideMagic wideSignature) Cur.start).1 =
        .ok (.ok ((imageFields wideMagic).toPayload 64) imageBytes) ∧
      ¬FirmwareSound imageCtx 8 (imageFile wideMagic wideSignature) ((imageFields wideMagic).toPayload 64)
        imageBytes := by
  refine ⟨by decide +kernel, ?_⟩
  rintro ⟨sign1, hsign1, -, -, -, -, f, hf, hmagic, -⟩
  have hparts : Outcome.okWith (fun s => s.payload = imagePayload wideMagic)
      (Fw.parseCoseSign1 8 (imageFile wideMagic wideSignature) Cur.start).1 = true := by decide +kernel
  obtain ⟨s, hs, hp⟩ := Outcome.okWith_iff.1 hparts
  obtain rfl : sign1 = s := Outcome.ok.inj (hsign1.symm.trans hs)
  simp only [decide_eq_true_eq] at hp
  rw [hp] at hf
  obtain ⟨rfl, -⟩ := (Aux.imagePayload_layout (by decide)).unique hf
  exact absurd hmagic (by decide)

end FdoUefi
