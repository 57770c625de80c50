import FdoUefi.Lemmas.BmoMetered
import FdoUefi.Theorems.DelegateChain

/-!
# What processing a message asks of the machine

`process_bmo_message` comes back without a panic, without a product or a counter that wraps, and without room for more elements
or bytes than there are, exactly when the numbers it comes to are harmless: a string ends below 2^64, as many elements as are
announced are no more than the bytes there, a range that is sliced out lies in the header, the announced size of an image is no
more than the bytes of the message, and twice the estimated duration and the counters of the session fit in their words.
-/

namespace FdoUefi

open Prog Cbor

section Statements

variable (Γ : Ctx) (fuel : Nat) (ownerKeyPoint : Option Bytes) (peer : PeerAuthority) (deviceGuid : Option Bytes)
  (m : BmoMessage) (session : BmoSession)

/-- What processing the message asks of the machine, latest first. -/
def messageDemands : List Demand :=
  (Metered.processBmoMessage Γ fuel ownerKeyPoint peer deviceGuid m ⟨session, []⟩).2.log

/-- Processing the message comes back, and nothing bad happens on the way. -/
structure SafeMessage : Prop where
  returns : (processBmoMessage Γ fuel ownerKeyPoint peer deviceGuid m session).1.Returns
  harmless : ∀ x ∈ messageDemands Γ fuel ownerKeyPoint peer deviceGuid m session, ¬x.Bad

namespace Aux

variable {Γ fuel ownerKeyPoint peer deviceGuid m session}

/-- A message that ends in a panic is not safe. -/
theorem not_safe_of_panic (h : (processBmoMessage Γ fuel ownerKeyPoint peer deviceGuid m session).1 = .panic) :
    ¬SafeMessage Γ fuel ownerKeyPoint peer deviceGuid m session := by
  rintro ⟨hret, -⟩
  rw [h] at hret
  exact hret

/-- A message with a demand that cannot be met is not safe. -/
theorem not_safe_of_bad {x : Demand} (hx : x ∈ messageDemands Γ fuel ownerKeyPoint peer deviceGuid m session) (hbad : x.Bad) :
    ¬SafeMessage Γ fuel ownerKeyPoint peer deviceGuid m session := by
  rintro ⟨-, hnone⟩
  exact hnone x hx hbad

end Aux

/-- Processing a message is safe exactly if all its demands fit. -/
theorem processBmoMessage_safe_iff (hm : Metered.Held fuel m) :
    SafeMessage Γ fuel ownerKeyPoint peer deviceGuid m session ↔
      ∀ x ∈ messageDemands Γ fuel ownerKeyPoint peer deviceGuid m session, x.Fits := by
  have hanswers := Metered.processBmoMessage_answers (Γ := Γ) hm ownerKeyPoint peer deviceGuid ⟨session, []⟩
  have herases : Erases (Metered.processBmoMessage Γ fuel ownerKeyPoint peer deviceGuid m)
      (processBmoMessage Γ fuel ownerKeyPoint peer deviceGuid m) := Metered.processBmoMessage_erases ownerKeyPoint peer deviceGuid m
  obtain ⟨hsame, -⟩ := herases ⟨session, []⟩
  refine Iff.trans ?_ hanswers.iff
  rw [hsame]
  exact ⟨fun hsafe => ⟨hsafe.returns, hsafe.harmless⟩, fun h => ⟨h.1, h.2⟩⟩

end Statements

/-- `{0: 3, 4: 5}`: an image of three bytes, and five seconds. -/
def sampleBegin : BmoMessage := ⟨bmoKeyImageBegin, [0xa2, 0x00, 0x03, 0x04, 0x05], fun _ _ => none⟩

/-- The sample message is safe. -/
theorem sampleBegin_safe :
    SafeMessage (Ctx.ofTables [] [] []) 6 (some sampleOwnerPoint) .ownerDirect none sampleBegin BmoSession.new := by
  refine (processBmoMessage_safe_iff _ 6 _ _ none sampleBegin _ ⟨by decide, by decide, nofun, nofun⟩).2 ?_
  decide

/-- A begin message with the map `{key: 2^63}`. -/
def hugeBegin (key : UInt8) : BmoMessage :=
  ⟨bmoKeyImageBegin, [0xa1, key, 0x1b, 0x80, 0, 0, 0, 0, 0, 0, 0], fun _ _ => none⟩

/-- Set parameters: an array of 2^32 - 1 pairs, and none of them. -/
def hugeSet : BmoMessage := ⟨bmoKeySet, [0x9a, 0xff, 0xff, 0xff, 0xff], fun _ _ => none⟩

/-- An envelope of the Owner, with a protected header that ends in the head of a float under `fdo.scope`. -/
def cutScopeEnvelope : Bytes := beBytes 126
  0xd2845835a301260378246170706c69636174696f6e2f63626f722b66646f2e626d6f2e696d6167652d626567696e6966646f2e73636f7065f9a041a05840a8cbdbe84201cd22592c0dab288711e73b4a29db3301a0d24394c29b76ab2fd341762632080023bdabadae2566922e1bccbb7ee7c8fac1c34e0856bba83d80d2

def cutScope : BmoMessage := ⟨bmoKeyImageBegin, cutScopeEnvelope, fun _ _ => none⟩

/-- The signature of the cut envelope is the one that verifies. -/
def cutScopeCtx : Ctx :=
  match parseCoseSign1 cutScopeEnvelope with
  | .ok s1 => Ctx.ofTables
      [(buildSigStructure s1.protectedHeader (0x81 :: encodeTstr aadTagBmoProvision) s1.payload, s1.signature, sampleOwnerPoint)] [] []
  | _ => Ctx.ofTables [] [] []

/-- The announced size is reserved, the duration is doubled, room for the announced pairs is allocated and the scope is sliced
out, all of them without a check. -/
theorem hugeBegin_not_safe :
    (processBmoMessage (Ctx.ofTables [] [] []) 12 (some sampleOwnerPoint) .ownerDirect none (hugeBegin 0) BmoSession.new).1 = .panic ∧
    .word 64 (2 ^ 64) ∈
      messageDemands (Ctx.ofTables [] [] []) 12 (some sampleOwnerPoint) .ownerDirect none (hugeBegin 4) BmoSession.new ∧
    .event 5 (.capacity (2 ^ 32 - 1) stringPairSize) ∈
      messageDemands (Ctx.ofTables [] [] []) 12 (some sampleOwnerPoint) .ownerDirect none hugeSet BmoSession.new ∧
    (processBmoMessage cutScopeCtx 127 (some sampleOwnerPoint) .unauthenticated none cutScope BmoSession.new).1 = .panic ∧
    ¬SafeMessage (Ctx.ofTables [] [] []) 12 (some sampleOwnerPoint) .ownerDirect none (hugeBegin 0) BmoSession.new ∧
    ¬SafeMessage (Ctx.ofTables [] [] []) 12 (some sampleOwnerPoint) .ownerDirect none (hugeBegin 4) BmoSession.new ∧
    ¬SafeMessage (Ctx.ofTables [] [] []) 12 (some sampleOwnerPoint) .ownerDirect none hugeSet BmoSession.new ∧
    ¬SafeMessage cutScopeCtx 127 (some sampleOwnerPoint) .unauthenticated none cutScope BmoSession.new := by
  have hsize : (processBmoMessage (Ctx.ofTables [] [] []) 12 (some sampleOwnerPoint) .ownerDirect none (hugeBegin 0)
      BmoSession.new).1 = .panic := by decide
  have hduration : .word 64 (2 ^ 64) ∈
      messageDemands (Ctx.ofTables [] [] []) 12 (some sampleOwnerPoint) .ownerDirect none (hugeBegin 4) BmoSession.new := by
    decide
  have hset : .event 5 (.capacity (2 ^ 32 - 1) stringPairSize) ∈
      messageDemands (Ctx.ofTables [] [] []) 12 (some sampleOwnerPoint) .ownerDirect none hugeSet BmoSession.new := by
    decide
  have hscope : (processBmoMessage cutScopeCtx 127 (some sampleOwnerPoint) .unauthenticated none cutScope BmoSession.new).1 =
      .panic := by decide +kernel
  refine ⟨hsize, hduration, hset, hscope, ?_, ?_, ?_, ?_⟩
  · exact Aux.not_safe_of_panic hsize
  · exact Aux.not_safe_of_bad hduration (le_refl (2 ^ 64))
  · have hmore : 5 < 2 ^ 32 - 1 := by decide
    exact Aux.not_safe_of_bad hset hmore
  · exact Aux.not_safe_of_panic hscope

end FdoUefi
