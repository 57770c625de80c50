import FdoUefi.Lemmas.FirmwareBounds

/-!
# A firmware file before its signature is checked

`verify_firmware` over every file that fits in memory, with a recursion depth of more than its length. The function has no
failure of its own (its errors are results), so a run that comes back has a `VerifyResult`.
-/

namespace FdoUefi

open Prog

/-- The file is verified without a panic and without a wrapped cursor, in finitely many steps, exactly when the strings it comes
to end below 2^64. The bound on the steps is not one in the length of the file: a protected header that announces 2^64 entries
and holds none is read that often. -/
theorem verifyFirmware_safe_iff (Γ : Ctx) (d : Slice) (fuel : Nat) (hfuel : d.bytes.length < fuel) :
    Safe d.bytes.length (3 * d.bytes.length + 2 ^ 65 + 4) (Fw.verifyFirmware Γ fuel d.bytes) ↔
      Harmless d.bytes.length (Fw.verifyFirmware Γ fuel d.bytes) := by
  refine (Fw.verifyFirmware_tame Γ d.fits hfuel).safe_iff hfuel ?_
  simp only [Fw.firmwareSlack, Fw.algSlack, wordSize]
  omega

/-- `18([h'a10126', {5: {6: [h'00']}}, h'8301820203f5', h'00..00'])`: a protected header with ES256, an unprotected header with a map
inside of a map, a payload and a signature of 64 bytes. -/
def nestedFirmware : Slice where
  bytes := [0xd2, 0x84, 0x43, 0xa1, 0x01, 0x26, 0xa1, 0x05, 0xa1, 0x06, 0x81, 0x41, 0x00, 0x46, 0x83, 0x01, 0x82, 0x02, 0x03, 0xf5,
    0x58, 0x40] ++ List.replicate 64 0
  fits := by decide

/-- The sample file is checked safely. -/
theorem nestedFirmware_safe :
    Safe 86 (3 * 86 + 2 ^ 65 + 4) (Fw.verifyFirmware (Ctx.ofTables [] [] []) 87 nestedFirmware.bytes) := by
  refine (verifyFirmware_safe_iff (Ctx.ofTables [] [] []) nestedFirmware 87 (by decide)).2 ?_
  unfold Harmless
  decide

/-- An envelope whose protected header is announced with 2^64 - 1 bytes. -/
def wrappingFirmware : Bytes := 0x84 :: 0x5b :: List.replicate 8 0xff

/-- The end of the protected header wraps to a place before its start, which passes the check, and cutting it out panics. -/
theorem wrappingFirmware_panics :
    (Fw.verifyFirmware (Ctx.ofTables [] [] []) 11 wrappingFirmware Cur.start).1 = .panic ∧
      ¬Safe wrappingFirmware.length (3 * wrappingFirmware.length + 2 ^ 65 + 4)
        (Fw.verifyFirmware (Ctx.ofTables [] [] []) 11 wrappingFirmware) := by
  have hrun : (Fw.verifyFirmware (Ctx.ofTables [] [] []) 11 wrappingFirmware Cur.start).1 = .panic := by decide
  refine ⟨hrun, fun hsafe => ?_⟩
  have hret := hsafe.returns
  rw [hrun] at hret
  exact hret

end FdoUefi
