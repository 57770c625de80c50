import FdoUefi.Lemmas.To2
import Mathlib.Data.List.Nodup

/-!
# No IV of a session repeats

Over every world and every run, however it ends: the IVs passed to `cose_encrypt0_a256gcm` are those of the numbers 0, 1, 2
and so on, one for each message, and the counter stays far below where it would wrap.
-/

namespace FdoUefi

open Prog Prog.Run

/-- The IV of an encryption. -/
def To2Event.iv? : To2Event → Option Bytes
  | .encrypt _ nonce _ => some nonce
  | _ => none

/-- The IVs that were used so far, oldest first. -/
def sessionIvs (trace : List To2Event) : List Bytes := trace.filterMap To2Event.iv?

/-- A call takes at most `k` IVs from the session counter and encrypts under each, in order. -/
abbrev DrawsIvs {α : Type} (k : Nat) (m : To2 α) : Prop :=
  Effect (Numbered To2State.ivCounter (fun s => sessionIvs s.trace) sessionIv (2 ^ 64) k) m

namespace Aux

variable {Γ : Ctx} {fuel : Nat} {w : World} {args : To2Args} {session : To2Session} {k : Nat}

/-- Numbers below 2^64 have different IVs. -/
theorem sessionIv_inj {i j : Nat} (hi : i < 2 ^ 64) (hj : j < 2 ^ 64) (h : sessionIv i = sessionIv j) : i = j := by
  have hbytes : beBytes 8 i = beBytes 8 j := List.append_cancel_left h
  rw [← beNat_beBytes (k := 8) hi, ← beNat_beBytes (k := 8) hj, hbytes]

/-- Another event than an encryption leaves the counter and the IVs as they are. -/
theorem numbered_add {e : To2Event} (he : e.iv? = none) (s : To2State) :
    Numbered To2State.ivCounter (fun s => sessionIvs s.trace) sessionIv (2 ^ 64) k s (s.add e) :=
  .none rfl (by simp [sessionIvs, List.filterMap_append, he])

/-- An event without an IV draws none. -/
theorem tell_drawsIvs {e : To2Event} (he : e.iv? = none) : DrawsIvs 0 (tell e) := numbered_add he

/-- The handshake draws no IV. -/
theorem handshake_drawsIvs : DrawsIvs 0 (handshake Γ fuel w args) :=
  handshake_effect
    { random := fun _ => numbered_add rfl
      createEcdhKey := fun _ => numbered_add rfl
      ecdhDerive := fun _ _ _ => numbered_add rfl
      sign := fun _ _ _ _ => numbered_add rfl
      post := fun _ _ _ _ _ _ => numbered_add rfl }

/-- Sending a message draws no IV. -/
theorem exchange_drawsIvs {msgType : Nat} {body : Bytes} {token : Option Bytes} {failed context : String} :
    DrawsIvs 0 (exchange w args msgType body token failed context) := exchange_effect fun _ _ => numbered_add rfl

/-- A message takes one IV, whether it is sent or not. -/
theorem sendSealed_drawsIvs {msgType : Nat} {plaintext : Bytes} {failed context : String} :
    DrawsIvs 1 (sendSealed Γ w args session msgType plaintext failed context) := by
  intro s
  have hsend : DrawsIvs 0 (do
      let encryptedMsg ← ofOutcome (coseEncrypt0A256gcm Γ session.sek (sessionIv s.ivCounter) plaintext)
      exchange w args msgType encryptedMsg session.hello.sessionToken failed context : To2 HttpPostResponse) :=
    Effect.bind (.ofOutcome _) fun _ => exchange_drawsIvs
  refine Numbered.trans (.one ?_ ?_)
    (hsend (To2State.add { s with ivCounter := (s.ivCounter + 1) % 2 ^ 64 }
      (.encrypt session.sek (sessionIv s.ivCounter) plaintext)))
  · intro hlimit
    exact Nat.mod_eq_of_lt hlimit
  · simp [sessionIvs, List.filterMap_append, To2Event.iv?]

/-- DeviceSvcInfoRdy20 draws one IV. -/
theorem setupDevice_drawsIvs : DrawsIvs 1 (setupDevice Γ fuel w args session) := by
  refine Effect.numbered_after (randomNonce_effect fun _ => numbered_add rfl) ?_
  intro nonce
  refine Effect.numbered_before sendSealed_drawsIvs ?_
  intro resp
  refine Effect.bind (.ofOutcome _) ?_
  intro plain
  exact Effect.bind (.ofOutcome _) fun _ => .pure _

/-- Taking the ServiceInfo of a round draws none. -/
theorem takeServiceInfo_drawsIvs {round : Nat} : DrawsIvs 0 (takeServiceInfo round) := by
  intro s
  simp only [takeServiceInfo, bind_of_ok (getS_apply s)]
  split
  · exact .none rfl rfl
  · split <;> exact .none rfl rfl

/-- Calling the BMO module draws no IV. -/
theorem callBmo_drawsIvs {peer : To2Peer} {key value : Bytes} : DrawsIvs 0 (callBmo Γ fuel w args peer key value) := by
  refine Effect.bind .getS ?_
  intro s
  refine Effect.bind (tell_drawsIvs rfl) ?_
  intro _
  exact Effect.bind (.attempt fun _ => .none rfl rfl) fun _ => .pure _

/-- Processing a ServiceInfo draws no IV. -/
theorem processServiceInfo_drawsIvs {peer : To2Peer} (entries : List (Bytes × Bytes)) :
    DrawsIvs 0 (processServiceInfo Γ fuel w args peer entries) := by
  induction entries with
  | nil => exact .pure _
  | cons e entries ih =>
    exact .bind (.onlyIf (.bind callBmo_drawsIvs fun _ _ => .none rfl rfl)) fun _ => ih

/-- A round draws one IV. -/
theorem serviceInfoRound_drawsIvs {round : Nat} : DrawsIvs 1 (serviceInfoRound Γ fuel w args session round) := by
  refine Effect.numbered_after takeServiceInfo_drawsIvs ?_
  intro svcInfo
  refine Effect.numbered_before sendSealed_drawsIvs ?_
  intro resp
  refine Effect.bind (.ofOutcome _) ?_
  intro plain
  refine Effect.bind (.ofOutcome _) ?_
  intro ownerSvc
  refine Effect.bind (.attempt (.ofOutcome _)) ?_
  intro entries
  exact Effect.bind (processServiceInfo_drawsIvs _) fun _ => .pure _

/-- One IV for each round that is left. -/
theorem serviceInfoRounds_drawsIvs (left round : Nat) :
    DrawsIvs left (serviceInfoRounds Γ fuel w args session left round) := by
  induction left generalizing round with
  | zero => exact .pure _
  | succ left ih =>
    have hround : DrawsIvs (1 + left) (serviceInfoRounds Γ fuel w args session (left + 1) round) := by
      refine Effect.numbered_seq serviceInfoRound_drawsIvs ?_
      intro isDone
      exact .ite (fun _ => .none rfl rfl) (ih (round + 1))
    rwa [Nat.add_comm] at hround

/-- Done20 draws one IV. -/
theorem finishTo2_drawsIvs {nonce : Bytes} : DrawsIvs 1 (finishTo2 Γ fuel w args session nonce) := by
  refine Effect.numbered_before sendSealed_drawsIvs ?_
  intro resp
  refine Effect.bind (.ofOutcome _) ?_
  intro plain
  exact Effect.bind (.ofOutcome _) fun _ => .ofOutcome _

/-- A session draws one IV for each round and one more. -/
theorem runSession_drawsIvs {nonce : Bytes} :
    DrawsIvs (maxServiceInfoRounds + 1) (runSession Γ fuel w args session nonce) := by
  refine Effect.numbered_seq (serviceInfoRounds_drawsIvs _ _) ?_
  intro _
  refine Effect.numbered_before finishTo2_drawsIvs ?_
  intro _
  exact Effect.bind .getS fun _ => .onlyIf (tell_drawsIvs rfl)

/-- A run takes one IV for DeviceSvcInfoRdy20, one for each round and one for Done20. -/
theorem performTo2_drawsIvs : DrawsIvs (1 + (maxServiceInfoRounds + 1)) (performTo2 Γ fuel w args) := by
  refine Effect.numbered_after handshake_drawsIvs ?_
  intro session
  exact Effect.numbered_seq setupDevice_drawsIvs fun _ => runSession_drawsIvs

end Aux

/-- However a run ends, the IVs it has used are those of the numbers 0, 1, 2 and so on up to its counter, which has not
wrapped, and no two of them are equal. -/
theorem performTo2_sessionIvs (Γ : Ctx) (fuel : Nat) (w : World) (args : To2Args) :
    let s := (performTo2 Γ fuel w args To2State.new).2
    sessionIvs s.trace = (List.range s.ivCounter).map sessionIv ∧ s.ivCounter ≤ maxServiceInfoRounds + 2 ∧
      maxServiceInfoRounds + 2 < 2 ^ 64 ∧ (sessionIvs s.trace).Nodup := by
  intro s
  have hlimit : maxServiceInfoRounds + 2 < 2 ^ 64 := by decide
  obtain ⟨hle, hivs⟩ := (Aux.performTo2_drawsIvs To2State.new).marks_eq (by decide) rfl rfl
  have hcount : s.ivCounter ≤ maxServiceInfoRounds + 2 := by rwa [← Nat.add_assoc, Nat.add_comm 1] at hle
  refine ⟨hivs, hcount, hlimit, ?_⟩
  rw [hivs]
  refine List.Nodup.map_on ?_ List.nodup_range
  intro i hi j hj hij
  have hi' := List.mem_range.1 hi
  have hj' := List.mem_range.1 hj
  exact Aux.sessionIv_inj (by omega) (by omega) hij

end FdoUefi
