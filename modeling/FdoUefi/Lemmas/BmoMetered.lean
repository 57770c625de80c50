import FdoUefi.BmoMetered
import FdoUefi.Lemmas.Bmo
import FdoUefi.Lemmas.DecoderBounds
import FdoUefi.Lemmas.DelegateReturns
import FdoUefi.Lemmas.Envelope

/-!
# The ledger of a message

Without its ledger, processing a message is what it was (`processBmoMessage_erases`), and it answers for every entry it makes.
-/

namespace FdoUefi

open Prog Prog.Run Prog.Ledger Cbor

namespace Metered

variable {σ : Type} {Γ : Ctx} {fuel : Nat}

/-! ## Without the ledger -/

/-- An outcome computed in two steps is run in two steps. -/
theorem ofOutcome_bind {ε α β : Type} (o : Outcome ε α) (f : α → Outcome ε β) :
    (ofOutcome (o >>= f) : Run σ ε β) = ofOutcome o >>= fun a => ofOutcome (f a) := by
  cases o <;> rfl

/-- A check that is computed is a check that is run. -/
theorem ofOutcome_ensure {ε : Type} (c : Prop) [Decidable c] (e : ε) :
    (ofOutcome (Outcome.ensure c e) : Run σ ε Unit) = ensure c e := by
  unfold Outcome.ensure ensure
  split <;> rfl

/-- Reading a chain is the same with the ledger and without. -/
theorem parseX5chainValue_erases (n : Nat) (data : Bytes) : Erases (parseX5chainValue n data) (FdoUefi.parseX5chainValue data) := by
  refine .bind (.within _) fun b => .ite (fun _ => ?_) fun _ => .ite (fun _ => .within _) fun _ => .fail ()
  exact .bind (.within _) fun _ => .note (.within _)

/-- The search for a chain among the entries of a header is the same with the ledger and without. -/
theorem extractX5chainLoop_erases (n : Nat) (unprotected : Bytes) (k : Nat) :
    Erases (extractX5chainLoop n unprotected k) (FdoUefi.extractX5chainLoop unprotected k) := by
  induction k with
  | zero => exact .fail ()
  | succ k ih =>
    refine .bind (.within _) fun key => .ite (fun _ => parseX5chainValue_erases n unprotected) fun _ => ?_
    exact .bind (.within _) fun _ => ih

/-- The search for a chain in a whole header is the same with the ledger and without. -/
theorem extractX5chainFromUnprotected_erases (n : Nat) (unprotected : Bytes) :
    Erases (extractX5chainFromUnprotected n unprotected : Run (Ledger σ) Unit _)
      (ofOutcome (FdoUefi.extractX5chainFromUnprotected unprotected)) :=
  .inside (.bind (.within _) fun _ => .bind (.ensure _ _) fun _ => .bind (.within _) fun _ => extractX5chainLoop_erases n unprotected _)

/-- The signer of an artifact is the same with the ledger and without. -/
theorem artifactSignerPoint_erases (n : Nat) (unprotected ownerPoint : Bytes) :
    Erases (artifactSignerPoint Γ n unprotected ownerPoint : Run (Ledger σ) Unit _)
      (ofOutcome (FdoUefi.artifactSignerPoint Γ unprotected ownerPoint)) := by
  unfold FdoUefi.artifactSignerPoint
  rw [ofOutcome_bind]
  refine .bind (.ofOutcome _) fun delegated => ?_
  cases delegated with
  | false => exact .pure ownerPoint
  | true =>
    simp only [Bool.true_eq_false, if_false, ofOutcome_bind, ofOutcome_ensure]
    refine .bind (extractX5chainFromUnprotected_erases n unprotected) fun certDers => .bind (.ofOutcome _) fun chain => ?_
    exact .bind (.ensure _ _) fun _ => .pure _

/-- The search for a text key among the entries of a header is the same with the ledger and without. -/
theorem extractTstrKeyedLoop_erases (d target : Bytes) (n : Nat) :
    Erases (extractTstrKeyedLoop d target n) (FdoUefi.extractTstrKeyedLoop d target n) := by
  induction n with
  | zero => exact .fail ()
  | succ n ih =>
    refine .bind (.within _) fun o => ?_
    cases o with
    | none => exact .fail ()
    | some keyByte =>
      refine .ite (fun _ => .bind (.within _) fun key => .ite (fun _ => ?_) fun _ => ?_) fun _ => ?_
      · exact .bind (.within _) fun _ => .bind (.within _) fun _ => .bind (.within _) fun _ => .cut d _ _
      · exact .bind (.within _) fun _ => ih
      · exact .bind (.within _) fun _ => .bind (.within _) fun _ => ih

/-- The search for a text key in a whole header is the same with the ledger and without. -/
theorem extractTstrKeyedValue_erases (header target : Bytes) :
    Erases (extractTstrKeyedValue header target : Run (Ledger σ) Unit _) (ofOutcome (FdoUefi.extractTstrKeyedValue header target)) :=
  .inside (.bind (.within _) fun _ => .bind (.ensure _ _) fun _ => .bind (.within _) fun _ => extractTstrKeyedLoop_erases header target _)

/-- The scope is evaluated in three steps: both labels are looked up, and the one that is there is checked. -/
theorem ofOutcome_evaluateBmoScope (header : Bytes) (deviceGuid : Option Bytes) :
    (ofOutcome (FdoUefi.evaluateBmoScope header deviceGuid) : Run σ Unit Bool) = do
      let generic ← attempt (ofOutcome (FdoUefi.extractTstrKeyedValue header scopeLabel) : Run σ Unit Bytes)
      let legacy ← attempt (ofOutcome (FdoUefi.extractTstrKeyedValue header legacyBmoScopeLabel) : Run σ Unit Bytes)
      match generic, legacy with
      | some _, some _ => return false
      | some b, none => ofOutcome (evaluateScopeMap b deviceGuid)
      | none, some b => ofOutcome (evaluateScopeMap b deviceGuid)
      | none, none => return true := by
  unfold FdoUefi.evaluateBmoScope
  have hgeneric := extractTstrKeyedValue_ne_hang header scopeLabel
  -- The second search is not made when the first has panicked.
  generalize FdoUefi.extractTstrKeyedValue header scopeLabel = generic at hgeneric ⊢
  generalize FdoUefi.extractTstrKeyedValue header legacyBmoScopeLabel = legacy
  cases generic with
  | ok b => cases legacy <;> rfl
  | err e => cases legacy <;> rfl
  | panic => cases legacy <;> rfl
  | hang => exact absurd rfl hgeneric

/-- The verdict on a scope is the same with the ledger and without. -/
theorem evaluateBmoScope_erases (header : Bytes) (deviceGuid : Option Bytes) :
    Erases (evaluateBmoScope header deviceGuid : Run (Ledger σ) Unit _) (ofOutcome (FdoUefi.evaluateBmoScope header deviceGuid)) := by
  rw [ofOutcome_evaluateBmoScope]
  refine .bind (.attempt (extractTstrKeyedValue_erases _ _)) fun generic => ?_
  refine .bind (.attempt (extractTstrKeyedValue_erases _ _)) fun legacy => ?_
  cases generic <;> cases legacy
  · exact .pure true
  · exact .ofOutcome _
  · exact .ofOutcome _
  · exact .pure false

/-- The verdict on a signed artifact is the same with the ledger and without. -/
theorem verifyBmoSigned_erases (data ownerPoint expectedCt : Bytes) (deviceGuid : Option Bytes) :
    Erases (verifyBmoSigned Γ data ownerPoint expectedCt deviceGuid : Run (Ledger σ) Unit _)
      (ofOutcome (FdoUefi.verifyBmoSigned Γ data ownerPoint expectedCt deviceGuid)) := by
  unfold FdoUefi.verifyBmoSigned
  simp only [ofOutcome_bind, ofOutcome_ensure]
  refine .bind (.ofOutcome _) fun s1 => .bind (.ofOutcome _) fun ct => .bind (.ensure _ _) fun _ => ?_
  refine .bind (artifactSignerPoint_erases _ _ _) fun key => .bind (.ensure _ _) fun _ => ?_
  exact .bind (evaluateBmoScope_erases _ _) fun inScope => .bind (.ensure _ _) fun _ => .pure _

/-- The verdict on a signed meta-payload is the same with the ledger and without. -/
theorem verifyMetaSigned_erases (data ownerPoint : Bytes) :
    Erases (verifyMetaSigned Γ data ownerPoint : Run (Ledger σ) Unit _) (ofOutcome (FdoUefi.verifyMetaSigned Γ data ownerPoint)) := by
  unfold FdoUefi.verifyMetaSigned
  simp only [ofOutcome_bind, ofOutcome_ensure]
  refine .bind (.ofOutcome _) fun s1 => .bind (artifactSignerPoint_erases _ _ _) fun key => ?_
  exact .bind (.ensure _ _) fun _ => .pure _

/-- A tagged message is authorised in two steps: it is verified, and the verdict is turned into a result. -/
theorem ofOutcome_checkBmoAuthorization {data : Bytes} (htag : isCborTag18 data = true) (ownerPoint : Bytes) (peer : PeerAuthority)
    (expectedCt : Bytes) (deviceGuid : Option Bytes) :
    (ofOutcome (FdoUefi.checkBmoAuthorization Γ data (some ownerPoint) peer expectedCt deviceGuid) :
      Run σ Unit (BmoAuthResult × Option Bytes)) = do
      match ← attempt (ofOutcome (FdoUefi.verifyBmoSigned Γ data ownerPoint expectedCt deviceGuid) : Run σ Unit Bytes) with
      | some inner => return (.signedOk, some inner)
      | none => return (.signedFailed, none) := by
  unfold FdoUefi.checkBmoAuthorization unwrapBmoSigned
  simp only [htag, if_true, Bool.true_eq_false, if_false]
  generalize FdoUefi.verifyBmoSigned Γ data ownerPoint expectedCt deviceGuid = o
  cases o <;> rfl

/-- The authorisation of a message is the same with the ledger and without. -/
theorem checkBmoAuthorization_erases (data : Bytes) (ownerKeyPoint : Option Bytes) (peer : PeerAuthority) (expectedCt : Bytes)
    (deviceGuid : Option Bytes) :
    Erases (checkBmoAuthorization Γ data ownerKeyPoint peer expectedCt deviceGuid : Run (Ledger σ) Unit _)
      (ofOutcome (FdoUefi.checkBmoAuthorization Γ data ownerKeyPoint peer expectedCt deviceGuid)) := by
  unfold checkBmoAuthorization
  cases htag : isCborTag18 data with
  | false => exact .ofOutcome _
  | true =>
    cases ownerKeyPoint with
    | none => exact .ofOutcome _
    | some ownerPoint =>
      rw [ofOutcome_checkBmoAuthorization (σ := σ) htag]
      refine .bind (.attempt (verifyBmoSigned_erases _ _ _ _)) fun o => ?_
      cases o with
      | none => exact .pure _
      | some inner => exact .pure _

/-- The content of a meta-payload is the same with the ledger and without. -/
theorem verifyAndExtractMeta_erases (data : Bytes) (metaSigner ownerPoint : Option Bytes) :
    Erases (verifyAndExtractMeta Γ data metaSigner ownerPoint : Run (Ledger σ) Nat _)
      (ofOutcome (FdoUefi.verifyAndExtractMeta Γ data metaSigner ownerPoint)) := by
  unfold verifyAndExtractMeta
  cases metaSigner with
  | some signer => exact .ofOutcome _
  | none =>
    cases htag : isCborTag18 data with
    | false => exact .ofOutcome _
    | true =>
      cases ownerPoint with
      | none => exact .ofOutcome _
      | some owner =>
        have hplain : (ofOutcome (FdoUefi.verifyAndExtractMeta Γ data none (some owner)) : Run σ Nat (Bytes × Bool)) = do
            let inner ← mapErr (fun _ => errMetaSignatureInvalid) (ofOutcome (FdoUefi.verifyMetaSigned Γ data owner))
            return (inner, true) := by
          unfold FdoUefi.verifyAndExtractMeta
          simp only [htag, if_true]
          generalize FdoUefi.verifyMetaSigned Γ data owner = o
          cases o <;> rfl
        rw [hplain]
        exact .bind (.mapErr (verifyMetaSigned_erases _ _) _) fun _ => .pure _

/-! ### Messages -/

/-- Delivery by a meta-payload is the same with the ledger and without. -/
theorem processBmoMetaUrlDelivery_erases (get : Nat → Bytes → Option Bytes) (begin : BmoImageBegin) (ownerKeyPoint : Option Bytes) :
    Erases (processBmoMetaUrlDelivery Γ fuel get begin ownerKeyPoint)
      (FdoUefi.processBmoMetaUrlDelivery Γ fuel get begin ownerKeyPoint) := by
  refine .bind (.within _) fun metaUrl => .bind (.within _) fun metaData => ?_
  refine .bind (verifyAndExtractMeta_erases _ _ _) fun x => ?_
  have hmeta : ∀ data, (ofOutcome (Outcome.noneAs (parseMetaPayload fuel data) errMetaParseError) : Run BmoSession Nat MetaPayload) =
      mapErr (fun _ => errMetaParseError) (ofOutcome (metaPayloadRun fuel data Cur.start).1) := by
    intro data
    change ofOutcome (Outcome.noneAs (metaPayloadRun fuel data Cur.start).1 errMetaParseError) = _
    cases (metaPayloadRun fuel data Cur.start).1 <;> rfl
  simp only [hmeta]
  exact .bind (.mapErr (.decode _ _) _) fun m => .within _

/-- The start of an inline delivery, which reserves the buffer of the image, is the same with the ledger and without. -/
theorem beginInline_erases (n : Nat) (begin : BmoImageBegin) : Erases (beginInline n begin) (FdoUefi.beginInline begin) :=
  .onlyIf_note (.within _)

/-- A begin message in mode 2 is handled alike with the ledger and without. -/
theorem beginMetaUrl_erases (get : Nat → Bytes → Option Bytes) (begin : BmoImageBegin) (ownerKeyPoint : Option Bytes) :
    Erases (beginMetaUrl Γ fuel get begin ownerKeyPoint) (FdoUefi.beginMetaUrl Γ fuel get begin ownerKeyPoint) := by
  refine .ite (fun _ => .within _) fun _ => .bind (.caught (processBmoMetaUrlDelivery_erases _ _ _)) fun r => ?_
  cases r with
  | ok _ => exact .within _
  | error _ => exact .within _

/-- Every mode of delivery is the same with the ledger and without. -/
theorem deliver_erases (m : BmoMessage) (ownerKeyPoint : Option Bytes) (begin : BmoImageBegin) :
    Erases (deliver Γ fuel m ownerKeyPoint begin) (FdoUefi.deliver Γ fuel m.get ownerKeyPoint begin) := by
  refine .onlyIf_note (.bind (.within _) fun session => ?_)
  cases signedBeginBindsContent session.authority begin with
  | error e => exact .within _
  | ok _ =>
    refine .ite (fun _ => beginInline_erases _ _) fun _ => .ite (fun _ => .within _) fun _ => ?_
    exact .ite (fun _ => beginMetaUrl_erases _ _ _) fun _ => .within _

/-- A begin message as a whole is handled alike with the ledger and without. -/
theorem imageBegin_erases (ownerKeyPoint : Option Bytes) (peer : PeerAuthority) (deviceGuid : Option Bytes) (m : BmoMessage) :
    Erases (imageBegin Γ fuel ownerKeyPoint peer deviceGuid m) (FdoUefi.imageBegin Γ fuel ownerKeyPoint peer deviceGuid m) := by
  refine .bind (checkBmoAuthorization_erases _ _ _ _ _) fun x => .ite (fun _ => .within _) fun _ => ?_
  refine .bind (.within _) fun _ => .bind (.attempt (.decode _ _)) fun o => ?_
  cases o with
  | none => exact .bind (.within _) fun _ => .pure _
  | some begin => exact deliver_erases _ _ _

/-- What is there in place of an error. -/
theorem ofOutcome_orElse (value : Bytes) (o : Outcome FdoError Bytes) :
    (ofOutcome (match o with
      | .ok inner => .ok inner
      | .err _ => .ok value
      | .panic => .panic
      | .hang => .hang) : Run σ Unit Bytes) = do
      match ← attempt (ofOutcome o : Run σ FdoError Bytes) with
      | some inner => return inner
      | none => return value := by
  cases o <;> rfl

/-- The data of a chunk are the same with the ledger and without. -/
theorem chunkData_erases (value : Bytes) : Erases (chunkData value : Run (Ledger σ) Unit _) (ofOutcome (FdoUefi.chunkData value)) := by
  unfold chunkData FdoUefi.chunkData Dec.eval
  split
  · refine (ofOutcome_orElse value _).symm ▸ .bind (.attempt (.decode _ _)) fun o => ?_
    cases o with
    | none => exact .pure _
    | some inner => exact .pure _
  · exact .pure value

/-- A chunk as a whole is handled alike with the ledger and without. -/
theorem imageData_erases (m : BmoMessage) : Erases (imageData m) (FdoUefi.imageData m) := by
  refine .bind (.within _) fun session => .ite (fun _ => .pure _) fun _ => .bind (chunkData_erases _) fun chunk => ?_
  exact .note (.note (.note (.bind (.within _) fun _ => .pure _)))

/-- The hash of an end message is the same with the ledger and without. -/
theorem parseImageEndHash_erases (data : Bytes) :
    Erases (parseImageEndHash fuel data : Run (Ledger σ) Unit _) (ofOutcome (FdoUefi.parseImageEndHash fuel data)) := by
  unfold parseImageEndHash FdoUefi.parseImageEndHash
  split
  · exact .fail ()
  · exact .decode _ _

/-- An end message as a whole is handled alike with the ledger and without. -/
theorem imageEnd_erases (m : BmoMessage) : Erases (imageEnd Γ fuel m) (FdoUefi.imageEnd Γ fuel m) := by
  refine .bind (.within _) fun session => .ite (fun _ => .pure _) fun _ => .ite (fun _ => .within _) fun _ => ?_
  exact .bind (.attempt (parseImageEndHash_erases _)) fun _ => .within _

/-- A message that sets parameters is handled alike with the ledger and without. -/
theorem setParameters_erases (ownerKeyPoint : Option Bytes) (peer : PeerAuthority) (deviceGuid : Option Bytes) (m : BmoMessage) :
    Erases (setParameters Γ ownerKeyPoint peer deviceGuid m) (FdoUefi.setParameters Γ ownerKeyPoint peer deviceGuid m) := by
  refine .bind (checkBmoAuthorization_erases _ _ _ _ _) fun x => .ite (fun _ => ?_) fun _ => ?_
  · exact .bind (.within _) fun _ => .pure _
  · exact .bind (.otherwise (.bind (.decode _ _) fun params => .pure _) _) fun text => .pure _

/-- The ledger changes nothing. -/
theorem processBmoMessage_erases (ownerKeyPoint : Option Bytes) (peer : PeerAuthority) (deviceGuid : Option Bytes) (m : BmoMessage) :
    Erases (processBmoMessage Γ fuel ownerKeyPoint peer deviceGuid m)
      (FdoUefi.processBmoMessage Γ fuel ownerKeyPoint peer deviceGuid m) := by
  refine .ite (fun _ => imageBegin_erases _ _ _ _) fun _ => .ite (fun _ => imageData_erases _) fun _ => ?_
  exact .ite (fun _ => imageEnd_erases _) fun _ => .ite (fun _ => setParameters_erases _ _ _ _) fun _ => .pure _

/-! ## The decoders -/

section Decoders

variable {d : Bytes} {n k : Nat}

/-- A decoder is no wilder when its error is forgotten. -/
theorem decOk_tame {α : Type} {w j s : Nat} {m : Dec.R α} (hm : Tame n w k j s m) : Tame n w k j s (Dec.ok m) := hm.mapErr _

/-- A Boolean is read within the bounds. -/
theorem readBool_tame (hd : d.length ≤ sliceMax) : Tame n d.length k 0 0 (Dec.readBool d) := by
  refine (readByte_tame hd).next fun b => Tame.ite (fun _ => Tame.pure false) fun _ => ?_
  exact Tame.ite (fun _ => Tame.pure true) fun _ => Tame.fail _

/-- A field that is read and put into a record. -/
theorem field_tame {α β : Type} {m : Dec.R α} (hm : Tame n d.length k 0 0 m) (f : α → β) :
    Tame n d.length k 0 0 (Dec.ok m >>= fun a => Pure.pure (f a) : Run Cur Unit β) :=
  (decOk_tame hm).next fun a => Tame.pure (f a)

/-- A field of the delivery is read within the bounds. -/
theorem readDeliveryField_tame (hd : d.length ≤ sliceMax) (keys : DeliveryKeys) (field : Int) :
    Tame n d.length k 0 0 (readDeliveryField d keys field) := by
  refine Tame.ite (fun _ => field_tame (readUint_tame hd) _) fun _ => ?_
  refine Tame.ite (fun _ => field_tame (readText_tame hd) _) fun _ => ?_
  refine Tame.ite (fun _ => field_tame (readBytes_tame hd) _) fun _ => ?_
  exact Tame.ite (fun _ => field_tame (readBytes_tame hd) _) fun _ => field_tame (readBytes_tame hd) _

/-- A field of a begin message is read or skipped within the bounds. -/
theorem readBeginField_tame (hd : d.length ≤ sliceMax) (f : BeginFields) (key : Int) :
    Tame n d.length fuel 0 0 (readBeginField fuel d f key) := by
  refine Tame.ite (fun _ => field_tame (readUint_tame hd) _) fun _ => ?_
  refine Tame.ite (fun _ => field_tame (readText_tame hd) _) fun _ => ?_
  refine Tame.ite (fun _ => field_tame (readBool_tame hd) _) fun _ => ?_
  refine Tame.ite (fun _ => field_tame (readUint_tame hd) _) fun _ => ?_
  refine Tame.ite (fun _ => field_tame (readText_tame hd) _) fun _ => ?_
  refine Tame.ite (fun _ => field_tame (readText_tame hd) _) fun _ => ?_
  refine Tame.ite (fun _ => field_tame (readText_tame hd) _) fun _ => ?_
  refine Tame.ite (fun _ => field_tame (readText_tame hd) _) fun _ => ?_
  refine Tame.ite (fun _ => field_tame (readText_tame hd) _) fun _ => ?_
  refine Tame.ite (fun _ => (readDeliveryField_tame hd _ _).next fun _ => Tame.pure _) fun _ => ?_
  refine Tame.ite (fun _ => (readDeliveryField_tame hd _ _).next fun _ => Tame.pure _) fun _ => ?_
  exact (decOk_tame (skipValue_tame hd fuel)).next fun _ => Tame.pure f

/-- The entries of a begin message are read or skipped within the bounds. -/
theorem imageBeginLoop_tame (hd : d.length ≤ sliceMax) (count : Nat) (f : BeginFields) :
    Tame n d.length fuel 0 0 (imageBeginLoop fuel d count f) := by
  induction count generalizing f with
  | zero => exact Tame.pure f
  | succ count ih =>
    exact (decOk_tame (readInt_tame hd)).next fun key => (readBeginField_tame hd f key).next fun f' => ih f'

/-- Folding the legacy keys into the generic ones comes back. -/
theorem finish_returns (f : BeginFields) : f.finish.Returns := by
  have hmerge : ∀ {α : Type} [DecidableEq α] (generic legacy : Option α), (mergeAlias generic legacy).Returns := by
    intro α _ generic legacy
    cases generic with
    | none => trivial
    | some g =>
      cases legacy with
      | none => trivial
      | some l =>
        change (if g = l then Outcome.ok (some g) else Outcome.err () : Outcome Unit (Option α)).Returns
        split_ifs <;> trivial
  unfold BeginFields.finish
  refine Outcome.bind_returns (hmerge _ _) fun mode _ => Outcome.bind_returns (hmerge _ _) fun url _ => ?_
  refine Outcome.bind_returns (hmerge _ _) fun tlsCa _ => Outcome.bind_returns (hmerge _ _) fun hash _ => ?_
  exact Outcome.bind_returns (hmerge _ _) fun signer _ => trivial

/-- A begin message is read within the bounds. -/
theorem imageBeginRun_tame (hd : d.length ≤ sliceMax) : Tame n d.length fuel 0 0 (imageBeginRun fuel d) := by
  refine (decOk_tame (readMapLen_tame hd)).next fun mapLen => (imageBeginLoop_tame hd mapLen {}).next fun f => ?_
  exact Tame.ofOutcome (finish_returns f)

/-- A field of a meta-payload is read or skipped within the bounds. -/
theorem readMetaField_tame (hd : d.length ≤ sliceMax) (m : MetaFields) (key : Int) :
    Tame n d.length fuel 0 0 (readMetaField fuel d m key) := by
  refine Tame.ite (fun _ => field_tame (readText_tame hd) _) fun _ => ?_
  refine Tame.ite (fun _ => field_tame (readText_tame hd) _) fun _ => ?_
  refine Tame.ite (fun _ => field_tame (readBytes_tame hd) _) fun _ => ?_
  refine Tame.ite (fun _ => field_tame (readText_tame hd) _) fun _ => ?_
  refine Tame.ite (fun _ => field_tame (readBytes_tame hd) _) fun _ => ?_
  refine Tame.ite (fun _ => field_tame (readText_tame hd) _) fun _ => ?_
  refine Tame.ite (fun _ => field_tame (readText_tame hd) _) fun _ => ?_
  refine Tame.ite (fun _ => field_tame (readText_tame hd) _) fun _ => ?_
  refine Tame.ite (fun _ => field_tame (readText_tame hd) _) fun _ => ?_
  exact (decOk_tame (skipValue_tame hd fuel)).next fun _ => Tame.pure _

/-- The entries of a meta-payload are read or skipped within the bounds. -/
theorem metaPayloadLoop_tame (hd : d.length ≤ sliceMax) (count : Nat) (m : MetaFields) :
    Tame n d.length fuel 0 0 (metaPayloadLoop fuel d count m) := by
  induction count generalizing m with
  | zero => exact Tame.pure m
  | succ count ih =>
    exact (decOk_tame (readInt_tame hd)).next fun key => (readMetaField_tame hd m key).next fun m' => ih m'

/-- A meta-payload is read within the bounds. -/
theorem metaPayloadRun_tame (hd : d.length ≤ sliceMax) : Tame n d.length fuel 0 0 (metaPayloadRun fuel d) := by
  refine (decOk_tame (readMapLen_tame hd)).next fun mapLen => (metaPayloadLoop_tame hd mapLen {}).next fun m => ?_
  refine Tame.ofOutcome ?_
  unfold MetaFields.finish
  split <;> trivial

/-- The parameters are read within the bounds. -/
theorem bmoSetRun_tame (hd : d.length ≤ sliceMax) : Tame n d.length k 0 0 (bmoSetRun d) := by
  refine (decOk_tame (readArrayLen_tame hd)).next fun outerLen => (Tame.ensure _ _).next fun _ => ?_
  refine (Tame.withCapacity outerLen stringPairSize).next fun _ => Tame.collectN ?_ outerLen
  refine (decOk_tame (readArrayLen_tame hd)).next fun len => (Tame.ensure _ _).next fun _ => ?_
  exact (decOk_tame (readText_tame hd)).next fun name => field_tame (readText_tame hd) _

/-- The entries of an end message are read within the bounds. -/
theorem imageEndLoop_tame (hd : d.length ≤ sliceMax) (count : Nat) : Tame n d.length fuel 0 0 (imageEndLoop fuel d count) := by
  induction count with
  | zero => exact Tame.fail ()
  | succ count ih =>
    refine (decOk_tame (readInt_tame hd)).next fun key => Tame.ite (fun _ => decOk_tame (readBytes_tame hd)) fun _ => ?_
    exact (decOk_tame (skipValue_tame hd fuel)).next fun _ => ih

/-- An end message is read within the bounds. -/
theorem imageEndHashRun_tame (hd : d.length ≤ sliceMax) : Tame n d.length fuel 0 0 (imageEndHashRun fuel d) :=
  (decOk_tame (readMapLen_tame hd)).next fun mapLen => imageEndLoop_tame hd mapLen

end Decoders

/-! ## Envelopes -/

/-- There are fewer than 2^32 certificates, so that room for as many as there are bytes is never too much. -/
theorem parseX5chainValue_answers (n : Nat) (data : Bytes) : Answers (parseX5chainValue n data) := by
  refine .bind (.within (.next data)) fun b => .ite (fun _ => ?_) fun _ => .ite (fun _ => .within ?_) fun _ => .fail ()
  · intro c
    refine Answers.bindAt (Answers.within (cborReadUintArg_total _) c) fun certCount c' h => ?_
    have hlt := cborReadUintArg_lt ((Erases.within _).ok h)
    have hsize : certCount ≤ n → certCount * vecSize ≤ sliceMax := fun _ => by
      simp only [vecSize, sliceMax]
      omega
    exact Answers.bind (.note_capacity hsize) (fun _ => .within (.collectN cborReadBstr_total certCount)) c'
  · exact .bind (cborReadUintArg_total _) fun len => .bind (.take data len) fun der => .pure [der]

/-- The search for a chain comes back. -/
theorem extractX5chainLoop_answers (n : Nat) (unprotected : Bytes) (k : Nat) : Answers (extractX5chainLoop n unprotected k) := by
  induction k with
  | zero => exact .fail ()
  | succ k ih =>
    refine .bind (.within cborReadIntValue_total) fun key => .ite (fun _ => parseX5chainValue_answers n unprotected) fun _ => ?_
    exact .bind (.within cborSkip_total) fun _ => ih

/-- The search for a chain in a whole header comes back. -/
theorem extractX5chainFromUnprotected_answers (n : Nat) (unprotected : Bytes) :
    Answers (extractX5chainFromUnprotected n unprotected : Run (Ledger σ) Unit _) :=
  .inside (.bind (.within (.next unprotected)) fun _ => .bind .ensure fun _ =>
    .bind (.within (cborReadUintArg_total _)) fun mapLen => extractX5chainLoop_answers n unprotected mapLen)

/-- Finding the signer of an artifact comes back. -/
theorem artifactSignerPoint_answers (n : Nat) (unprotected ownerPoint : Bytes) :
    Answers (artifactSignerPoint Γ n unprotected ownerPoint : Run (Ledger σ) Unit _) := by
  refine .bind (.ofOutcome (hasDelegateHeader_returns unprotected)) fun delegated => .ite (fun _ => .pure ownerPoint) fun _ => ?_
  refine .bind (extractX5chainFromUnprotected_answers n unprotected) fun certDers => ?_
  exact .bind (.ofOutcome (verifyDelegateChain_returns Γ certDers ownerPoint)) fun chain => .bind .ensure fun _ => .pure _

/-- The search for a text key comes back. -/
theorem extractTstrKeyedLoop_answers (d target : Bytes) (n : Nat) : Answers (extractTstrKeyedLoop d target n) := by
  have hskip : Answers (within (cborSkip d) : Run (Ledger Nat) Unit Unit) := .within cborSkip_total
  induction n with
  | zero => exact .fail ()
  | succ n ih =>
    refine .bind (.within (.peek d)) fun o => ?_
    cases o with
    | none => exact .fail ()
    | some keyByte =>
      refine .ite (fun _ => .bind (.within (readTextKey_total keyByte)) fun key => .ite (fun _ => ?_) fun _ => ?_) fun _ => ?_
      · exact .bind (.within .getS) fun start => .bind hskip fun _ => .bind (.within .getS) fun stop => .cut d start stop
      · exact .bind hskip fun _ => ih
      · exact .bind hskip fun _ => .bind hskip fun _ => ih

/-- The search for a text key in a whole header comes back. -/
theorem extractTstrKeyedValue_answers (header target : Bytes) :
    Answers (extractTstrKeyedValue header target : Run (Ledger σ) Unit _) :=
  .inside (.bind (.within (.next header)) fun _ => .bind .ensure fun _ =>
    .bind (.within (cborReadUintArg_total _)) fun mapLen => extractTstrKeyedLoop_answers header target mapLen)

/-- Evaluating a scope comes back. -/
theorem evaluateBmoScope_answers (header : Bytes) (deviceGuid : Option Bytes) :
    Answers (evaluateBmoScope header deviceGuid : Run (Ledger σ) Unit _) := by
  refine .bind (.attempt (extractTstrKeyedValue_answers header scopeLabel)) fun generic => ?_
  refine .bind (.attempt (extractTstrKeyedValue_answers header legacyBmoScopeLabel)) fun legacy => ?_
  cases generic <;> cases legacy
  · exact .pure true
  · exact .ofOutcome (evaluateScopeMap_returns _ deviceGuid)
  · exact .ofOutcome (evaluateScopeMap_returns _ deviceGuid)
  · exact .pure false

/-- Verifying a signed artifact comes back. -/
theorem verifyBmoSigned_answers (data ownerPoint expectedCt : Bytes) (deviceGuid : Option Bytes) :
    Answers (verifyBmoSigned Γ data ownerPoint expectedCt deviceGuid : Run (Ledger σ) Unit _) := by
  refine .bind (.ofOutcome (parseCoseSign1_returns data)) fun s1 => ?_
  refine .bind (.ofOutcome (parseProtectedTstr_returns s1.protectedHeader 3)) fun ct => .bind .ensure fun _ => ?_
  refine .bind (artifactSignerPoint_answers data.length s1.unprotectedHeader ownerPoint) fun key => .bind .ensure fun _ => ?_
  exact .bind (evaluateBmoScope_answers s1.protectedHeader deviceGuid) fun inScope => .bind .ensure fun _ => .pure _

/-- Verifying a signed meta-payload comes back. -/
theorem verifyMetaSigned_answers (data ownerPoint : Bytes) :
    Answers (verifyMetaSigned Γ data ownerPoint : Run (Ledger σ) Unit _) := by
  refine .bind (.ofOutcome (parseCoseSign1_returns data)) fun s1 => ?_
  refine .bind (artifactSignerPoint_answers data.length s1.unprotectedHeader ownerPoint) fun key => ?_
  exact .bind .ensure fun _ => .pure _

/-- Authorising a message comes back. -/
theorem checkBmoAuthorization_answers (data : Bytes) (ownerKeyPoint : Option Bytes) (peer : PeerAuthority) (expectedCt : Bytes)
    (deviceGuid : Option Bytes) :
    Answers (checkBmoAuthorization Γ data ownerKeyPoint peer expectedCt deviceGuid : Run (Ledger σ) Unit _) := by
  unfold checkBmoAuthorization
  cases htag : isCborTag18 data with
  | false =>
    refine .ofOutcome ?_
    unfold FdoUefi.checkBmoAuthorization
    rw [if_neg (by simp [htag])]
    cases peer with
    | ownerDirect => trivial
    | delegate provision => cases provision <;> trivial
    | unauthenticated =>
      dsimp only
      split_ifs <;> trivial
  | true =>
    cases ownerKeyPoint with
    | none =>
      refine .ofOutcome ?_
      unfold FdoUefi.checkBmoAuthorization unwrapBmoSigned
      rw [if_pos htag, if_neg (by simp [htag])]
      trivial
    | some ownerPoint =>
      refine .bind (.attempt (verifyBmoSigned_answers data ownerPoint expectedCt deviceGuid)) fun o => ?_
      cases o with
      | none => exact .pure _
      | some inner => exact .pure _

/-- The entries of a COSE key are read without a panic. -/
theorem coseKeyP256Loop_total (data : Bytes) (n : Nat) (x y : Option Bytes) : Total (coseKeyP256Loop data n x y) := by
  induction n generalizing x y with
  | zero => exact .pure (x, y)
  | succ n ih =>
    refine .bind cborReadIntValue_total fun key => .ite (fun _ => ?_) fun _ => .ite (fun _ => ?_) fun _ => ?_
    · exact .bind (.attempt cborReadBstr_total) fun x' => ih x' y
    · exact .bind (.attempt cborReadBstr_total) fun y' => ih x y'
    · exact .bind cborSkip_total fun _ => ih x y

/-- Reading a COSE key comes back. -/
theorem parseCoseKeyP256_returns (data : Bytes) : (parseCoseKeyP256 data).Returns := by
  refine mapHead_total (fun mapLen => .bind (coseKeyP256Loop_total data mapLen none none) fun xy => ?_) 0
  obtain ⟨x, y⟩ := xy
  cases x with
  | none => exact .fail ()
  | some xb =>
    cases y with
    | none => exact .fail ()
    | some yb => exact .bind .ensure fun _ => .pure _

/-- Verifying a meta-payload and taking its content comes back. -/
theorem verifyAndExtractMeta_answers (data : Bytes) (metaSigner ownerPoint : Option Bytes) :
    Answers (verifyAndExtractMeta Γ data metaSigner ownerPoint : Run (Ledger σ) Nat _) := by
  unfold verifyAndExtractMeta
  cases metaSigner with
  | some signer =>
    refine .ofOutcome (Outcome.bind_returns Outcome.ensure_returns fun _ _ => ?_)
    refine Outcome.bind_returns (Outcome.noneAs_returns (parseCoseKeyP256_returns signer)) fun point _ => ?_
    refine Outcome.bind_returns (Outcome.noneAs_returns (parseCoseSign1_returns data)) fun s1 _ => ?_
    exact Outcome.bind_returns Outcome.ensure_returns fun _ _ => trivial
  | none =>
    cases htag : isCborTag18 data with
    | false =>
      refine .ofOutcome ?_
      unfold FdoUefi.verifyAndExtractMeta
      simp only [htag, Bool.false_eq_true, if_false]
      trivial
    | true =>
      cases ownerPoint with
      | none =>
        refine .ofOutcome ?_
        unfold FdoUefi.verifyAndExtractMeta
        simp only [htag, if_true]
        trivial
      | some owner => exact .bind (.mapErr (verifyMetaSigned_answers data owner) _) fun inner => .pure (inner, true)

/-! ## Sizes -/

/-- What a message is made of are slices, and none is longer than the recursion depth granted to `skip_value`. -/
structure Held (fuel : Nat) (m : BmoMessage) : Prop where
  value_fits : m.value.length ≤ sliceMax
  value_lt : m.value.length < fuel
  body_fits : ∀ {i : Nat} {url body : Bytes}, m.get i url = some body → body.length ≤ sliceMax
  body_lt : ∀ {i : Nat} {url body : Bytes}, m.get i url = some body → body.length < fuel

/-- The content of a signed envelope lies in it. -/
theorem verifyBmoSigned_length_le {data ownerPoint expectedCt inner : Bytes} {deviceGuid : Option Bytes}
    (h : FdoUefi.verifyBmoSigned Γ data ownerPoint expectedCt deviceGuid = .ok inner) : inner.length ≤ data.length := by
  simp only [FdoUefi.verifyBmoSigned, Outcome.bind_ok_iff, Outcome.pure_ok_iff] at h
  obtain ⟨s1, hs1, _, -, _, -, _, -, _, -, _, -, _, -, rfl⟩ := h
  exact parseCoseSign1_payload_le hs1

/-- What is signed is no longer than the envelope around it. -/
theorem verifyMetaSigned_length_le {data ownerPoint inner : Bytes} (h : FdoUefi.verifyMetaSigned Γ data ownerPoint = .ok inner) :
    inner.length ≤ data.length := by
  simp only [FdoUefi.verifyMetaSigned, Outcome.bind_ok_iff, Outcome.pure_ok_iff] at h
  obtain ⟨s1, hs1, _, -, _, -, rfl⟩ := h
  exact parseCoseSign1_payload_le hs1

/-- What is parsed of an authorised message is no longer than the message. -/
theorem checkBmoAuthorization_length_le {data expectedCt : Bytes} {ownerKeyPoint deviceGuid inner : Option Bytes}
    {peer : PeerAuthority} {auth : BmoAuthResult}
    (h : FdoUefi.checkBmoAuthorization Γ data ownerKeyPoint peer expectedCt deviceGuid = .ok (auth, inner)) :
    (inner.getD data).length ≤ data.length := by
  have hnone : inner = none → (inner.getD data).length ≤ data.length := by
    rintro rfl
    exact le_rfl
  unfold FdoUefi.checkBmoAuthorization at h
  by_cases htag : isCborTag18 data = true
  · rw [if_pos htag] at h
    cases hun : unwrapBmoSigned Γ data ownerKeyPoint expectedCt deviceGuid with
    | ok body =>
      simp only [hun, Outcome.ok.injEq, Prod.mk.injEq] at h
      obtain ⟨-, rfl⟩ := h
      cases ownerKeyPoint with
      | none => simp [unwrapBmoSigned, htag] at hun
      | some ownerPoint =>
        simp only [unwrapBmoSigned, htag, Bool.true_eq_false, if_false] at hun
        exact verifyBmoSigned_length_le hun
    | err e =>
      simp only [hun, Outcome.ok.injEq, Prod.mk.injEq] at h
      exact hnone h.2.symm
    | panic => simp [hun] at h
    | hang => simp [hun] at h
  · rw [if_neg htag] at h
    refine hnone ?_
    cases peer with
    | ownerDirect =>
      simp only [Outcome.ok.injEq, Prod.mk.injEq] at h
      exact h.2.symm
    | delegate provision =>
      cases provision <;> simp only [Outcome.ok.injEq, Prod.mk.injEq] at h
      · exact h.2.symm
      · exact h.2.symm
    | unauthenticated =>
      dsimp only at h
      split_ifs at h <;> simp only [Outcome.ok.injEq, Prod.mk.injEq] at h
      · exact h.2.symm
      · exact h.2.symm

/-- The content of a meta-payload is no longer than the meta-payload. -/
theorem verifyAndExtractMeta_length_le {data content : Bytes} {metaSigner ownerPoint : Option Bytes} {authenticated : Bool}
    (h : FdoUefi.verifyAndExtractMeta Γ data metaSigner ownerPoint = .ok (content, authenticated)) :
    content.length ≤ data.length := by
  unfold FdoUefi.verifyAndExtractMeta at h
  cases metaSigner with
  | some coseKey =>
    simp only [Outcome.bind_ok_iff, Outcome.noneAs_ok_iff, Outcome.pure_ok_iff, Prod.mk.injEq] at h
    obtain ⟨_, -, point, -, s1, hs1, _, -, rfl, -⟩ := h
    exact parseCoseSign1_payload_le hs1
  | none =>
    by_cases htag : isCborTag18 data = true
    · cases ownerPoint with
      | none => simp [htag] at h
      | some owner =>
        simp only [if_pos htag, Outcome.bind_ok_iff, Outcome.noneAs_ok_iff, Outcome.pure_ok_iff, Prod.mk.injEq] at h
        obtain ⟨inner, hinner, rfl, -⟩ := h
        exact verifyMetaSigned_length_le hinner
    · simp only [if_neg htag, Outcome.ok.injEq, Prod.mk.injEq] at h
      rw [← h.1]

/-! ## Messages -/

/-- Refusing an image comes back. -/
theorem refuseImage_total (text : Bytes) : Total (refuseImage text) := .bind (.modifyS _) fun _ => .pure _

/-- Completing an image comes back. -/
theorem completeWith_total (begin : BmoImageBegin) (text : Bytes) : Total (completeWith begin text) :=
  .bind (.modifyS _) fun _ => .pure _

/-- A decision that is computed comes back. -/
theorem ofExcept_total {ρ ε α : Type} (x : Except ε α) : Total (ofExcept x : Run ρ ε α) := by
  cases x with
  | ok a => exact .pure a
  | error e => exact .fail e

/-- Delivery from a URL comes back. -/
theorem beginUrl_total (get : Nat → Bytes → Option Bytes) (begin : BmoImageBegin) : Total (beginUrl Γ get begin) := by
  have hfetch : Total (processBmoUrlDelivery Γ get begin) := by
    refine .bind .orFail fun url => .bind .getS fun session => .bind (.mapErr (ofExcept_total _) _) fun expectedHash => ?_
    exact .bind .orFail fun imageData => .bind .ensure fun _ => .bind .ensure fun _ => .modifyS _
  refine .ite (fun _ => refuseImage_total _) fun _ => .bind (.caught hfetch) fun r => ?_
  cases r with
  | ok _ => exact completeWith_total begin _
  | error code => exact refuseImage_total _

/-- Finishing an inline image comes back. -/
theorem finishInline_total (endHash : Option Bytes) : Total (finishInline Γ endHash) := by
  refine .bind .getS fun session => ?_
  cases inlineHashDecision session.authority (session.begin.bind (·.expectedHash)) endHash with
  | error e => exact refuseImage_total _
  | ok expectedHash => exact .ite (fun _ => refuseImage_total _) fun _ => .bind (.modifyS _) fun _ => .pure _

variable {m : BmoMessage}

/-- Delivery by a meta-payload comes back. -/
theorem processBmoMetaUrlDelivery_answers (hm : Held fuel m) (begin : BmoImageBegin) (ownerKeyPoint : Option Bytes) :
    Answers (processBmoMetaUrlDelivery Γ fuel m.get begin ownerKeyPoint) := by
  refine .bind (.within .orFail) fun metaUrl c => ?_
  refine Answers.bindAt (Answers.within .orFail c) fun metaData c₁ h₁ => ?_
  obtain ⟨hget, -⟩ := orFail_ok_iff.1 ((Erases.within _).ok h₁)
  refine Answers.bindAt (verifyAndExtractMeta_answers metaData begin.metaSigner ownerKeyPoint c₁) fun x c₂ h₂ => ?_
  obtain ⟨metaCbor, metaAuthenticated⟩ := x
  obtain ⟨hextract, -⟩ := ofOutcome_ok_iff.1 ((verifyAndExtractMeta_erases metaData begin.metaSigner ownerKeyPoint).ok h₂)
  have hle := verifyAndExtractMeta_length_le hextract
  have htame : Tame metaCbor.length metaCbor.length fuel 0 0 (metaPayloadRun fuel metaCbor) :=
    metaPayloadRun_tame (hle.trans (hm.body_fits hget))
  have hparse := Answers.decode (σ := BmoSession) htame (hle.trans_lt (hm.body_lt hget))
  refine Answers.bind (.mapErr hparse _) (fun mp => .within ?_) c₂
  refine .bind (.mapErr (ofExcept_total _) _) fun _ => .bind .getS fun session => .bind (.mapErr (ofExcept_total _) _) fun required => ?_
  exact .bind .orFail fun imageData => .bind .ensure fun _ => .modifyS _

/-- An image that is larger than a slice can be is also larger than the message. -/
theorem beginInline_answers (hm : m.value.length ≤ sliceMax) (begin : BmoImageBegin) :
    Answers (beginInline m.value.length begin) := by
  intro c
  by_cases hsize : begin.totalSize ≤ sliceMax
  · refine Answers.bind (.onlyIf (.note_capacity fun h => by omega)) (fun _ => .within ?_) c
    refine .bind (.modifyS _) fun _ => ?_
    rw [if_neg (by omega)]
    exact .bind (.modifyS _) fun _ => .ite (fun _ => .pure _) fun _ => .pure _
  · have hpos : 0 < begin.totalSize := by omega
    have hrun : beginInline m.value.length begin c =
        (.panic, ⟨{ c.state with state := .awaitingData, imageBuffer := [] },
          .event m.value.length (.capacity begin.totalSize 1) :: c.log⟩) := by
      unfold beginInline FdoUefi.beginInline
      rw [onlyIf, if_pos hpos, if_pos (Nat.lt_of_not_le hsize)]
      rfl
    unfold AnswersAt
    rw [hrun]
    refine ⟨[_], rfl, fun hall => absurd (hall _ (List.mem_singleton.2 rfl)) ?_, fun _ => .inl id⟩
    exact fun hfit => hsize (by simpa using hfit.2)

/-- A begin message in mode 2 comes back. -/
theorem beginMetaUrl_answers (hm : Held fuel m) (begin : BmoImageBegin) (ownerKeyPoint : Option Bytes) :
    Answers (beginMetaUrl Γ fuel m.get begin ownerKeyPoint) := by
  refine .ite (fun _ => .within (refuseImage_total _)) fun _ => ?_
  refine .bind (.caught (processBmoMetaUrlDelivery_answers hm begin ownerKeyPoint)) fun r => ?_
  cases r with
  | ok _ => exact .within (completeWith_total begin _)
  | error code => exact .within (refuseImage_total _)

/-- Every mode of delivery comes back. -/
theorem deliver_answers (hm : Held fuel m) (ownerKeyPoint : Option Bytes) (begin : BmoImageBegin) :
    Answers (deliver Γ fuel m ownerKeyPoint begin) := by
  refine .bind (.onlyIf (.note_word 64 _)) fun _ => .bind (.within .getS) fun session => ?_
  cases signedBeginBindsContent session.authority begin with
  | error e => exact .within (refuseImage_total _)
  | ok _ =>
    refine .ite (fun _ => beginInline_answers hm.value_fits begin) fun _ => ?_
    refine .ite (fun _ => .within (beginUrl_total m.get begin)) fun _ => ?_
    exact .ite (fun _ => beginMetaUrl_answers hm begin ownerKeyPoint) fun _ => .within (refuseImage_total _)

/-- The content of an authorised message is as short as the message. -/
theorem authorised_answers {β : Type} (hm : Held fuel m) (ownerKeyPoint : Option Bytes) (peer : PeerAuthority) (expectedCt : Bytes)
    (deviceGuid : Option Bytes) {f : BmoAuthResult × Option Bytes → Run (Ledger BmoSession) Unit β}
    (hf : ∀ auth inner, (inner.getD m.value).length ≤ sliceMax → (inner.getD m.value).length < fuel → Answers (f (auth, inner))) :
    Answers (checkBmoAuthorization Γ m.value ownerKeyPoint peer expectedCt deviceGuid >>= f) := by
  intro c
  refine Answers.bindAt (checkBmoAuthorization_answers m.value ownerKeyPoint peer expectedCt deviceGuid c) fun x c' h => ?_
  obtain ⟨auth, inner⟩ := x
  obtain ⟨hauth, -⟩ :=
    ofOutcome_ok_iff.1 ((checkBmoAuthorization_erases m.value ownerKeyPoint peer expectedCt deviceGuid).ok h)
  have hle := checkBmoAuthorization_length_le hauth
  exact hf auth inner (hle.trans hm.value_fits) (hle.trans_lt hm.value_lt) c'

/-- A begin message is answered. -/
theorem imageBegin_answers (hm : Held fuel m) (ownerKeyPoint : Option Bytes) (peer : PeerAuthority) (deviceGuid : Option Bytes) :
    Answers (imageBegin Γ fuel ownerKeyPoint peer deviceGuid m) := by
  refine authorised_answers hm ownerKeyPoint peer bmoContentTypeImageBegin deviceGuid fun auth inner hfits hlt => ?_
  refine .ite (fun _ => .within (refuseImage_total _)) fun _ => .bind (.within (.modifyS _)) fun _ => ?_
  refine .bind (.attempt (.decode (imageBeginRun_tame hfits) hlt)) fun o => ?_
  cases o with
  | none => exact .bind (.within (.modifyS _)) fun _ => .pure none
  | some begin => exact deliver_answers hm ownerKeyPoint begin

/-- The data of a chunk are taken out of it, or it is refused. -/
theorem chunkData_answers {value : Bytes} (hfits : value.length ≤ sliceMax) :
    Answers (chunkData value : Run (Ledger σ) Unit _) := by
  have htame : Tame value.length value.length (value.length + 1) 0 0 (Dec.readBytes value) := readBytes_tame hfits
  refine .ite (fun _ => .bind (.attempt (.decode htame (Nat.lt_succ_self _))) fun o => ?_) fun _ => .pure value
  cases o with
  | none => exact .pure value
  | some inner => exact .pure inner

/-- A chunk is answered. -/
theorem imageData_answers (hm : Held fuel m) : Answers (imageData m) := by
  refine .bind (.within .getS) fun session => .ite (fun _ => .pure none) fun _ => .bind (chunkData_answers hm.value_fits) fun chunk => ?_
  refine .bind (.note_word 63 _) fun _ => .bind (.note_word 32 _) fun _ => .bind (.note_word 64 _) fun _ => ?_
  exact .bind (.within (.modifyS _)) fun _ => .pure none

/-- An end message is answered. -/
theorem imageEnd_answers (hm : Held fuel m) : Answers (imageEnd Γ fuel m) := by
  refine .bind (.within .getS) fun session => .ite (fun _ => .pure _) fun _ => .ite (fun _ => .within (refuseImage_total _)) fun _ => ?_
  refine .bind (.attempt ?_) fun endHash => .within (finishInline_total endHash)
  exact .ite (fun _ => .fail ()) fun _ => .decode (imageEndHashRun_tame hm.value_fits) hm.value_lt

/-- A message that sets parameters is answered. -/
theorem setParameters_answers (hm : Held fuel m) (ownerKeyPoint : Option Bytes) (peer : PeerAuthority) (deviceGuid : Option Bytes) :
    Answers (setParameters Γ ownerKeyPoint peer deviceGuid m) := by
  refine authorised_answers hm ownerKeyPoint peer bmoContentTypeSet deviceGuid fun auth inner hfits _ => ?_
  refine .ite (fun _ => .bind (.within (.modifyS _)) fun _ => .pure _) fun _ => ?_
  have htame := bmoSetRun_tame (n := (inner.getD m.value).length) (k := (inner.getD m.value).length + 1) hfits
  refine .bind (.otherwise ?_ _) fun text => .pure _
  exact .bind (.decode htame (Nat.lt_succ_self _)) fun params => .pure _

/-- Processing a message answers for every entry it makes. -/
theorem processBmoMessage_answers (hm : Held fuel m) (ownerKeyPoint : Option Bytes) (peer : PeerAuthority)
    (deviceGuid : Option Bytes) : Answers (processBmoMessage Γ fuel ownerKeyPoint peer deviceGuid m) := by
  refine .ite (fun _ => imageBegin_answers hm ownerKeyPoint peer deviceGuid) fun _ => .ite (fun _ => imageData_answers hm) fun _ => ?_
  refine .ite (fun _ => imageEnd_answers hm) fun _ => ?_
  exact .ite (fun _ => setParameters_answers hm ownerKeyPoint peer deviceGuid) fun _ => .pure none

end Metered

end FdoUefi
