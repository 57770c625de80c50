import FdoUefi.Lemmas.TpmLayout

/-!
# What a TPM makes of the client's commands

Every command the client builds says what it was built from, as long as what it carries fits in the 16 bits of its size. The three
commands for which it writes out a public area are the ones that create a key with that area.
-/

namespace FdoUefi

open Prog Marshal TpmLayoutAux

/-- A command is well formed when its payload has fewer than `2^16` bytes, and it is then the one that was asked for; beyond that
its bytes are no command at all. The commands that create the client's three keys are of this kind, with the public areas of an ECDH
key, a signing key and an HMAC key. -/
theorem whole_bytes :
    (∀ c : WireCommand, commandLayout.whole c.bytes = if c.payload < 2 ^ 16 then some c else none) ∧
      buildCreatePrimaryEcdhCmd = (WireCommand.createPrimary ecdhTemplate).bytes ∧
      buildCreatePrimarySigningCmd = (WireCommand.createPrimary signingTemplate).bytes ∧
      buildCreatePrimaryHmacCmd = (WireCommand.createPrimary hmacTemplate).bytes := by
  refine ⟨?_, buildCreatePrimaryEcdhCmd_eq, buildCreatePrimarySigningCmd_eq, buildCreatePrimaryHmacCmd_eq⟩
  intro c
  split
  next hsmall => exact whole_bytes_of_small hsmall
  next hlarge =>
    rw [Option.eq_none_iff_forall_ne_some]
    intro c' hc'
    exact hlarge (payload_lt_of_whole hc')

end FdoUefi
