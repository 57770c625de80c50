import FdoUefi.To2

/-!
# The TO1 protocol (`perform_to1` of `fdo.rs`)

TO1 asks the network and the TPM the way TO2 does, so its runs have the same traces.
-/

namespace FdoUefi

open Prog Prog.Run Cbor

def msgTo1HelloRv : Nat := 30
def msgTo1ProveToRv : Nat := 32

def aadTagProveToRv : Bytes := utf8 "FDO-TO1-ProveToRV-v1"

def buildTo1HelloRv (guid : Bytes) : Bytes := Enc.array 3 ++ Enc.bytes [capb0SupFdo20] ++ Enc.array 0 ++ Enc.bytes guid

/-- `{1: -7}` -/
def proveToRvProtected : Bytes := [0xa1, 0x01] ++ Enc.negInt (-7)

/-- The EAT `{256: ueid, 10: nonce}`. -/
def proveToRvEat (guid nonce4 : Bytes) : Bytes :=
  [0xa2] ++ Enc.uint 256 ++ Enc.bytes (0x01 :: guid) ++ Enc.uint 10 ++ Enc.bytes nonce4

/-- The bytes the device attestation key signs. -/
def proveToRvSigStructure (guid nonce4 : Bytes) : Bytes :=
  buildSigStructure proveToRvProtected (domainAad aadTagProveToRv fdoProtocolVersion) (proveToRvEat guid nonce4)

/-- ProveToRV, signed by the TPM. -/
def buildTo1ProveToRv (Γ : Ctx) (w : World) (guid nonce4 : Bytes) (deviceKeyHandle : Nat) : To2 Bytes := do
  let sigHash := Γ.sha256 (proveToRvSigStructure guid nonce4)
  let signature ← askFor (fun past => w.sign past deviceKeyHandle sigHash) (.sign deviceKeyHandle sigHash)
    (cryptoErr "TPM signing failed for ProveToRV")
  ensure (signature.length = 64) (cryptoErr "unexpected ProveToRV signature length")
  return [0xd2] ++ Enc.array 4 ++ Enc.bytes proveToRvProtected ++ [0xa0] ++ Enc.bytes (proveToRvEat guid nonce4) ++
    Enc.bytes signature

/-- HelloRV: the acknowledgement and the session token. -/
def performTo1Hello (fuel : Nat) (w : World) (rvUrl guid : Bytes) : To2 (To1HelloRvAck × Option Bytes) := do
  let resp ← httpPostWithSession w (messageUrl rvUrl msgTo1HelloRv) (buildTo1HelloRv guid) msgTo1HelloRv none "HTTP POST failed"
  ofOutcome (Dec.eval (checkFdoError resp.messageType resp.body (utf8 "TO1.HelloRVAck")))
  let ack ← ofOutcome (Dec.eval (parseTo1HelloRvAck fuel resp.body))
  return (ack, resp.authToken)

/-- ProveToRV: the rendezvous blob. -/
def performTo1Prove (Γ : Ctx) (fuel : Nat) (w : World) (rvUrl guid nonce4 : Bytes) (deviceKeyHandle : Nat)
    (sessionToken : Option Bytes) : To2 Bytes := do
  let proveToRv ← buildTo1ProveToRv Γ w guid nonce4 deviceKeyHandle
  let resp ← httpPostWithSession w (messageUrl rvUrl msgTo1ProveToRv) proveToRv msgTo1ProveToRv sessionToken "HTTP POST failed"
  ofOutcome (Dec.eval (checkFdoError resp.messageType resp.body (utf8 "TO1.RVRedirect")))
  ofOutcome (Dec.eval (parseTo1RvRedirect fuel resp.body))

def performTo1 (Γ : Ctx) (fuel : Nat) (w : World) (rvUrl guid : Bytes) (deviceKeyHandle : Nat) : To2 Bytes := do
  let (ack, sessionToken) ← performTo1Hello fuel w rvUrl guid
  performTo1Prove Γ fuel w rvUrl guid ack.nonce4 deviceKeyHandle sessionToken

end FdoUefi
