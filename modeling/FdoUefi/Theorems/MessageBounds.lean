import FdoUefi.Lemmas.DecoderBounds

/-!
# The parsers of unauthenticated messages

The eight parsers of `fdo.rs` that see a message before anything in it has been verified. Over every message that fits in
memory, with a recursion depth of more than its length, they come back within a number of steps that the length bounds,
without a panic, a cursor that wraps, or room for more elements than the message has bytes, exactly when the numbers they
come to are harmless: a string ends below 2^64, a range that is cut out ends in the message, and a certificate chain is not
announced longer than the message.
-/

namespace FdoUefi

open Prog

/-- The parser meets its obligations over the message exactly when the numbers it comes to are harmless. -/
def SafeIffHarmless {α : Type} (d : Slice) (m : Dec.R α) : Prop :=
  Safe d.bytes.length (2 * d.bytes.length + 5) m ↔ Harmless d.bytes.length m

namespace Aux

/-- What stays within the bounds is safe if the data are harmless. -/
theorem safeIffHarmless {α : Type} {d : Slice} {fuel s : Nat} {m : Dec.R α} (hfuel : d.bytes.length < fuel)
    (h : Tame d.bytes.length d.bytes.length fuel 0 s m) (hs : s ≤ d.bytes.length + 4) : SafeIffHarmless d m :=
  h.safe_iff hfuel (by omega)

end Aux

/-- The eight parsers are safe exactly on harmless data. -/
theorem messageParsers_safe_iff (Γ : Ctx) (d : Slice) (fuel : Nat) (hfuel : d.bytes.length < fuel)
    (messageType : Option Nat) (context : Bytes) :
    SafeIffHarmless d (parseTo1HelloRvAck fuel d.bytes) ∧
    SafeIffHarmless d (parseTo1RvRedirect fuel d.bytes) ∧
    SafeIffHarmless d (to1dDelegateChain fuel d.bytes) ∧
    SafeIffHarmless d (parseTo2HelloDeviceAck Γ fuel d.bytes) ∧
    SafeIffHarmless d (extractCosePayload fuel d.bytes) ∧
    SafeIffHarmless d (parseProveOvHdrPayload fuel d.bytes) ∧
    SafeIffHarmless d (parseEncryptedMessage fuel d.bytes) ∧
    SafeIffHarmless d (checkFdoError messageType d.bytes context) := by
  refine ⟨?_, ?_, ?_, ?_, ?_, ?_, ?_, ?_⟩
  · exact Aux.safeIffHarmless hfuel (parseTo1HelloRvAck_tame d.fits) (by omega)
  · exact Aux.safeIffHarmless hfuel (parseTo1RvRedirect_tame d.fits) (by omega)
  · exact Aux.safeIffHarmless hfuel (to1dDelegateChain_tame d.fits) (by omega)
  · exact Aux.safeIffHarmless hfuel (parseTo2HelloDeviceAck_tame Γ d.fits) (by omega)
  · exact Aux.safeIffHarmless hfuel (extractCosePayload_tame d.fits) (by omega)
  · exact Aux.safeIffHarmless hfuel (parseProveOvHdrPayload_tame d.fits) (by omega)
  · exact Aux.safeIffHarmless hfuel (parseEncryptedMessage_tame d.fits) (by omega)
  · exact Aux.safeIffHarmless hfuel (checkFdoError_tame d.fits messageType context) (by omega)

/-- `[h'01', [1], nonce]` -/
def sampleHelloRvAck : Slice where
  bytes := [0x83, 0x41, 0x01, 0x81, 0x01, 0x50] ++ List.replicate 16 0
  fits := by decide

/-- The sample response is parsed safely. -/
theorem sampleHelloRvAck_safe : Safe 22 49 (parseTo1HelloRvAck 23 sampleHelloRvAck.bytes) := by
  refine (messageParsers_safe_iff (Ctx.ofTables [] [] []) sampleHelloRvAck 23 (by decide) none []).1.2 ?_
  unfold Harmless
  decide

/-- `[1, 0, [h'']]`, cut off within the byte string: its head announces one byte and none follows. -/
def truncatedRvRedirect : Bytes := [0x83, 0x01, 0x00, 0x81, 0x41]

/-- The step over the blob leaves the message, and cutting the blob out panics. -/
theorem truncatedRvRedirect_panics :
    (parseTo1RvRedirect 6 truncatedRvRedirect Cur.start).1 = .panic ∧
      ¬Safe truncatedRvRedirect.length (2 * truncatedRvRedirect.length + 5) (parseTo1RvRedirect 6 truncatedRvRedirect) := by
  have hrun : (parseTo1RvRedirect 6 truncatedRvRedirect Cur.start).1 = .panic := by decide
  refine ⟨hrun, fun hsafe => ?_⟩
  have hret := hsafe.returns
  rw [hrun] at hret
  exact hret

end FdoUefi
