import FdoUefi.Lemmas.VoucherFetch
import FdoUefi.Theorems.To2

/-!
# How many voucher entries are fetched

The announced number of entries is cut to eight bits, and the index of a request is pushed as one byte. So an honest Owner's
voucher is fetched exactly when it has at most 24 entries, and the list that is verified has the announced length exactly when
that is below 256.
-/

namespace FdoUefi

open Prog Prog.Run Cbor

/-- The loop, told to fetch `count` entries, sends well-formed requests for `0 .. N - 1`, where `N` is the number of entries of
the voucher, and hands over exactly its entries. -/
def FetchesVoucher (w : World) (args : To2Args) (token : Option Bytes) (count : Nat) (ovEntries : List Bytes) (s : To2State) :
    Prop :=
  ∃ t events, fetchOvEntries w args token count 0 s = (.ok ovEntries, t) ∧ t.trace = s.trace ++ events ∧
    List.Forall₂ (fun e i => ∃ body answer, e = entryRequest args token body answer ∧ IsEntryRequest body i) events
      (List.range ovEntries.length)

namespace Aux

variable {w : World} {args : To2Args} {token : Option Bytes} {s : To2State} {ovEntries : List Bytes}

/-- The requests of a run that got through, when their indices are below 24. -/
theorem requests_wellFormed {events : List To2Event} (h : EntriesFetched args token 0 events ovEntries)
    (hshort : ovEntries.length ≤ 24) :
    List.Forall₂ (fun e i => ∃ body answer, e = entryRequest args token body answer ∧ IsEntryRequest body i) events
      (List.range ovEntries.length) := by
  refine List.forall₂_iff_get.2 ⟨by rw [List.length_range, h.length_eq], fun i hi hi' => ?_⟩
  rw [List.length_range] at hi'
  obtain ⟨answer, heq⟩ := h.requests (List.getElem?_eq_getElem hi)
  rw [Nat.zero_add] at heq
  refine ⟨_, answer, heq, ?_⟩
  simp only [List.get_eq_getElem, List.getElem_range]
  exact buildTo2GetOvNextEntry_request (by omega)

/-- From an honest Owner a voucher is fetched exactly if it has at most 24 entries. -/
theorem fetchesVoucher_iff (hw : HonestOwner w args token ovEntries) :
    FetchesVoucher w args token (ovEntries.length % 2 ^ 8) ovEntries s ↔ ovEntries.length ≤ 24 := by
  constructor
  · rintro ⟨t, events, hrun, htrace, hreq⟩
    obtain ⟨events', htrace', hfetched, hcount⟩ := Aux.fetchOvEntries_ok hrun
    obtain rfl : events = events' := List.append_cancel_left (htrace.symm.trans htrace')
    by_contra hlong
    have hlen := hfetched.length_eq
    -- The request for index 24 was sent, and it is not an array.
    obtain ⟨_, hget⟩ := List.forall₂_iff_get.1 hreq
    obtain ⟨body, answer, heq, hbody⟩ := hget 24 (by omega) (by rw [List.length_range]; omega)
    obtain ⟨answer', heq'⟩ := hfetched.requests (List.getElem?_eq_getElem (show 24 < events.length by omega))
    have hsame := heq.symm.trans heq'
    simp only [entryRequest, To2Event.post.injEq, Nat.zero_add, true_and] at hsame
    rw [hsame.1] at hbody
    exact buildTo2GetOvNextEntry_24 _ hbody
  · intro hshort
    have hdrop : ovEntries.drop 0 = ovEntries := List.drop_zero
    obtain ⟨t, hrun⟩ := fetchOvEntries_honest hw hdrop (by omega) s
    obtain ⟨events, htrace, hfetched, -⟩ := Aux.fetchOvEntries_ok hrun
    rw [Nat.mod_eq_of_lt (by omega)]
    exact ⟨t, events, hrun, htrace, requests_wellFormed hfetched hshort⟩

/-- In a handshake that came back as many entries were verified as announced, below 256. -/
theorem handshake_announced {Γ : Ctx} {fuel : Nat} {session : To2Session} {t : To2State}
    (h : handshake Γ fuel w args s = (.ok session, t)) :
    ∃ token body ovResp payload proveOv ovEntries,
      .post (messageUrl args.ownerUrl msgTo2ProveDevice) msgTo2ProveDevice body token (some ovResp) ∈ t.trace ∧
      Dec.eval (extractCosePayload fuel ovResp.body) = .ok payload ∧
      Dec.eval (parseProveOvHdrPayload fuel payload) = .ok proveOv ∧
      verifyVoucher Γ proveOv.ovHeader proveOv.hmacRaw proveOv.hmac args.hmacKeyHandle args.guid ovEntries =
        .ok session.peer.ownerKey ∧
      ∀ n, payload.length ≤ sliceMax → Announces payload n → (ovEntries.length = n ↔ n < 256) := by
  obtain ⟨past, htrace, hproven⟩ := Aux.handshake_ok h
  cases hproven with
  | @intro sugar kexRandom nonce signature shx sek helloResp ovResp ecdhKey ecdhKey2 hello proveOv entryEvents ovEntries peer
      hhello hkey hnonce hfetched hcount hshown =>
    have hparsed := hshown.parsed
    simp only [readProveOvHdr, Outcome.bind_ok_iff] at hparsed
    obtain ⟨payload, hpayload, hproveOv⟩ := hparsed
    refine ⟨hello.sessionToken, buildTo2ProveDeviceFromParts buildCoseProtectedHeader
      (proveDeviceEat Γ args hello (buildXa ecdhKey.publicX ecdhKey.publicY kexRandom) nonce) signature, ovResp, payload,
      proveOv, ovEntries, ?_, hpayload, hproveOv, hshown.voucher, fun n hfits hn => ?_⟩
    · rw [htrace]
      simp [proveDeviceEvents]
    · have hnum := numOvEntries_eq hfits hn hproveOv
      rw [hcount, hnum]
      omega

end Aux

/-- An honest Owner's voucher is fetched, with well-formed requests for its indices, exactly when it has at most 24 entries. And
in every run whose voucher was accepted, the list that was verified has the announced length exactly when that is below 256. -/
theorem voucher_fetched_iff (Γ : Ctx) (fuel : Nat) (w : World) (args : To2Args) (s : To2State) :
    (∀ payload proveOv token ovEntries, payload.length ≤ sliceMax → Announces payload ovEntries.length →
      Dec.eval (parseProveOvHdrPayload fuel payload) = .ok proveOv → HonestOwner w args token ovEntries →
        (FetchesVoucher w args token proveOv.numOvEntries ovEntries s ↔ ovEntries.length ≤ 24)) ∧
    ∀ session t, handshake Γ fuel w args s = (.ok session, t) →
      ∃ token body ovResp payload proveOv ovEntries,
        .post (messageUrl args.ownerUrl msgTo2ProveDevice) msgTo2ProveDevice body token (some ovResp) ∈ t.trace ∧
        Dec.eval (extractCosePayload fuel ovResp.body) = .ok payload ∧
        Dec.eval (parseProveOvHdrPayload fuel payload) = .ok proveOv ∧
        verifyVoucher Γ proveOv.ovHeader proveOv.hmacRaw proveOv.hmac args.hmacKeyHandle args.guid ovEntries =
          .ok session.peer.ownerKey ∧
        ∀ n, payload.length ≤ sliceMax → Announces payload n → (ovEntries.length = n ↔ n < 256) := by
  refine ⟨?_, fun session t h => Aux.handshake_announced h⟩
  intro payload proveOv token ovEntries hfits hannounced hparsed hw
  rw [numOvEntries_eq hfits hannounced hparsed]
  exact Aux.fetchesVoucher_iff hw

/-! ## Samples -/

/-- An Owner who reads the index of a request off its last byte, and answers it with that entry of the sample voucher. -/
def sampleEntryWorld : World :=
  { sampleWorld with
    post := fun _ _ _ body _ =>
      some ⟨if body.getLast? = some 0 then Enc.array 2 ++ Enc.uint 0 ++ Enc.bytes sampleEntry0
        else Enc.array 2 ++ Enc.uint 1 ++ Enc.bytes sampleEntry1, none, none⟩ }

namespace Aux

/-- The last byte of an unsigned integer's head is the low byte of its argument. -/
theorem uint_getLast {h : Head} (hm : h.IsMajor 0) : h.bytes.getLast? = some (UInt8.ofNat h.arg) := by
  have hmaj := major_eq h.initial
  have hadd := additional_eq h.initial
  have hdef := h.defined
  have hlen := h.tail_length
  unfold Head.IsMajor at hm
  rcases List.eq_nil_or_concat h.tail with hnil | ⟨t, b, htail⟩
  · -- Without argument bytes the argument is the initial byte itself.
    have hshort : additional h.initial < 24 := by
      by_contra hlong
      have hpos := extLen_pos (by omega) (by omega : additional h.initial < 28)
      rw [hnil, List.length_nil] at hlen
      omega
    have harg : h.arg = h.initial.toNat := by
      rw [Head.arg, argVal, if_pos hshort]
      omega
    rw [Head.bytes, hnil, harg, UInt8.ofNat_toNat]
    rfl
  · have hlong : ¬additional h.initial < 24 := by
      intro hshort
      rw [htail, List.concat_eq_append, List.length_append, List.length_singleton, extLen_of_lt hshort] at hlen
      omega
    have harg : h.arg = beNat t * 256 + b.toNat := by
      rw [Head.arg, argVal, if_neg hlong, htail, List.concat_eq_append, beNat_append_one]
    have hbyte : UInt8.ofNat (beNat t * 256 + b.toNat) = b := by
      apply UInt8.toNat_inj.1
      have := b.toNat_lt
      rw [UInt8.toNat_ofNat']
      omega
    rw [Head.bytes, htail, harg, hbyte, List.concat_eq_append, ← List.cons_append, List.getLast?_append]
    rfl

/-- The last byte of a request is the low byte of its index. -/
theorem isEntryRequest_getLast {body : Bytes} {i : Nat} (h : IsEntryRequest body i) : body.getLast? = some (UInt8.ofNat i) := by
  obtain ⟨x, ⟨ah, -, -, -, hbody, -⟩, ih, hint, rfl⟩ := h
  have hmajor : ih.IsMajor 0 := by
    rcases hint with hint | hint
    · exact hint.1
    · omega
  have harg : ih.arg = i := by
    rcases hint with hint | hint
    · exact_mod_cast hint.2.symm
    · omega
  have hlast : ih.bytes.getLast? = some (UInt8.ofNat ih.arg) := uint_getLast hmajor
  rw [hbody, List.flatten_cons, List.flatten_nil, List.append_nil, List.getLast?_append, hlast, harg, Option.some_or]

/-- The sample Owner is honest. -/
theorem sampleEntryWorld_honest : HonestOwner sampleEntryWorld sampleTo2Args none [sampleEntry0, sampleEntry1] := by
  intro past i entry body hentry hreq
  have hlast := isEntryRequest_getLast hreq
  have hlen : i < 2 := (List.getElem?_eq_some_iff.1 hentry).1
  obtain rfl | rfl : i = 0 ∨ i = 1 := by omega
  · obtain rfl : sampleEntry0 = entry := Option.some.inj hentry
    refine ⟨_, rfl, by simp, ?_, ?_⟩
    · simp only [hlast]
      decide +kernel
    · simp only [hlast]
      exact isEntryReply_enc (by decide) (by decide +kernel)
  · obtain rfl : sampleEntry1 = entry := Option.some.inj hentry
    have hne : (some (UInt8.ofNat 1) = some (0 : UInt8)) ↔ False := by decide
    refine ⟨_, rfl, by simp, ?_, ?_⟩
    · simp only [hlast, hne, if_false]
      decide +kernel
    · simp only [hlast, hne, if_false]
      exact isEntryReply_enc (by decide) (by decide +kernel)

/-- The handshake of a run that ended well. -/
theorem handshake_of_performTo2 {Γ : Ctx} {fuel : Nat} {w : World} {args : To2Args} {s : To2State}
    (h : (performTo2 Γ fuel w args s).1 = .ok ()) : ∃ session t, handshake Γ fuel w args s = (.ok session, t) := by
  obtain ⟨session, t, hok, -⟩ := bind_fst_ok_iff.1 h
  exact ⟨session, t, hok⟩

end Aux

/-- The two entries of the sample voucher are fetched from an honest Owner. And in the run that ends with a boot, the payload of
the response to ProveDevice is the one whose voucher was verified, and the entries verified are as many as it announces, when
these are fewer than 256. -/
theorem sampleVoucher_fetched :
    (∃ proveOv, Dec.eval (parseProveOvHdrPayload 8 sampleProveOvHdr) = .ok proveOv ∧
      FetchesVoucher sampleEntryWorld sampleTo2Args none proveOv.numOvEntries [sampleEntry0, sampleEntry1] To2State.new) ∧
    ∃ session t token body ovResp payload proveOv ovEntries,
      handshake sampleTo2Ctx 8 sampleWorld sampleTo2Args To2State.new = (.ok session, t) ∧
      .post (messageUrl sampleTo2Args.ownerUrl msgTo2ProveDevice) msgTo2ProveDevice body token (some ovResp) ∈ t.trace ∧
      Dec.eval (extractCosePayload 8 ovResp.body) = .ok payload ∧
      Dec.eval (parseProveOvHdrPayload 8 payload) = .ok proveOv ∧
      verifyVoucher sampleTo2Ctx proveOv.ovHeader proveOv.hmacRaw proveOv.hmac sampleTo2Args.hmacKeyHandle sampleTo2Args.guid
        ovEntries = .ok session.peer.ownerKey ∧
      ∀ n, payload.length ≤ sliceMax → Announces payload n → (ovEntries.length = n ↔ n < 256) := by
  have hparsed : Outcome.okWith (fun p => p.numOvEntries == 2) (Dec.eval (parseProveOvHdrPayload 8 sampleProveOvHdr)) = true := by
    decide +kernel
  obtain ⟨proveOv, hproveOv, -⟩ := Outcome.okWith_iff.1 hparsed
  have hboots : (performTo2 sampleTo2Ctx 8 sampleWorld sampleTo2Args To2State.new).1 = .ok () := by decide +kernel
  obtain ⟨session, t, hok⟩ := Aux.handshake_of_performTo2 hboots
  obtain ⟨hfetch, -⟩ := voucher_fetched_iff sampleTo2Ctx 8 sampleEntryWorld sampleTo2Args To2State.new
  obtain ⟨-, hverified⟩ := voucher_fetched_iff sampleTo2Ctx 8 sampleWorld sampleTo2Args To2State.new
  have hannounced : Announces sampleProveOvHdr 2 := by
    rw [sampleProveOvHdr]
    simp only [List.append_assoc]
    simp only [← List.append_assoc (Enc.array 8)]
    simp only [← List.append_assoc (Enc.array 8 ++ Enc.bytes sampleOvHeader)]
    exact announces_enc (by decide +kernel) (by decide)
  refine ⟨⟨proveOv, hproveOv, (hfetch _ proveOv _ [sampleEntry0, sampleEntry1] (by decide +kernel) hannounced hproveOv
    Aux.sampleEntryWorld_honest).2 (by decide)⟩, ?_⟩
  obtain ⟨token, body, ovResp, payload, proveOv', ovEntries, hrest⟩ := hverified _ _ hok
  exact ⟨session, t, token, body, ovResp, payload, proveOv', ovEntries, hok, hrest⟩

/-- The payload of the sample run, with 258 announced entries. -/
def sampleProveOvHdr258 : Bytes :=
  Enc.array 8 ++ Enc.bytes sampleOvHeader ++ Enc.uint 258 ++ (sampleHmacRaw ++ Enc.bytes (sampleRandom 2) ++
    Enc.bytes sampleXb ++ Enc.uint 65535 ++ sampleOwnerPubKey ++ Enc.null)

def sampleProveOvHdr258Signature : Bytes := beBytes 64
  0xf462e6c8d92bf96ba05473b8f67bd17c3bd4d3b5a09ef500fe4a4080e9cecc8c01ca3847eb921b975ea23577aad85c6aaf3d68fe1a58df64b146d12b95318221

def sampleCtx258 : Ctx :=
  sampleTo2Ctx.extend [sampleSigned aadTagProveOvHdr sampleProveOvHdr258 sampleProveOvHdr258Signature] []

def sampleResponse258 (msgType : Nat) (body : Bytes) : Bytes :=
  if msgType = msgTo2ProveDevice then sampleSign1 sampleProveOvHdr258 sampleProveOvHdr258Signature
  else sampleResponse msgType body

/-- The Owner of the sample voucher, who announces 258 entries instead of its two. -/
def sampleWorld258 : World :=
  { sampleWorld with
    post := fun _ _ msgType body _ => some ⟨sampleResponse258 msgType body, some (utf8 "token"), some (msgType + 1)⟩ }

/-- An Owner announces 258 entries, and TO2 goes on after it has verified two. Of a voucher with 25 entries, the last one is asked
for with something that is not an array. -/
theorem voucher_cut_short :
    (∃ proveOv, Announces sampleProveOvHdr258 258 ∧
      Dec.eval (parseProveOvHdrPayload 8 sampleProveOvHdr258) = .ok proveOv ∧ proveOv.numOvEntries = 2 ∧
      (performTo2 sampleCtx258 8 sampleWorld258 sampleTo2Args To2State.new).1 = .ok () ∧
      ((performTo2 sampleCtx258 8 sampleWorld258 sampleTo2Args To2State.new).2.trace.filter
        (· matches .post _ 84 _ _ _)).length = 2) ∧
    ¬IsEntryRequest (buildTo2GetOvNextEntry 24) 24 := by
  refine ⟨?_, buildTo2GetOvNextEntry_24 24⟩
  have hparsed : Outcome.okWith (fun p => p.numOvEntries == 2) (Dec.eval (parseProveOvHdrPayload 8 sampleProveOvHdr258)) = true := by
    decide +kernel
  obtain ⟨proveOv, hproveOv, htwo⟩ := Outcome.okWith_iff.1 hparsed
  have hrun : (performTo2 sampleCtx258 8 sampleWorld258 sampleTo2Args To2State.new).1 = .ok () ∧
      ((performTo2 sampleCtx258 8 sampleWorld258 sampleTo2Args To2State.new).2.trace.filter
        (· matches .post _ 84 _ _ _)).length = 2 := by decide +kernel
  exact ⟨proveOv, announces_enc (by decide +kernel) (by decide), hproveOv, beq_iff_eq.1 htwo, hrun⟩

end FdoUefi
