import FdoUefi.Lemmas.WireDevice
import FdoUefi.Lemmas.TpmParsers

/-!
# One submission, over bytes and over values

The client's bytes for a command are read by the TPM as that command, and what it parses out of the buffer is what the TPM answered.
So a submission over bytes ends as the submission of the value does, and so does the loop that retries it.
-/

namespace FdoUefi

open Prog Prog.Run Marshal

/-! ## Commands -/

/-- The bytes the client builds for a command. -/
def TpmCommand.bytes : TpmCommand → Bytes
  | .flushContext handle => buildFlushContextCmd handle
  | .createPrimary .signing => buildCreatePrimarySigningCmd
  | .createPrimary .hmac => buildCreatePrimaryHmacCmd
  | .evictControl object persistent => buildEvictControlCmd object persistent
  | .hmac key _ data => buildHmacCmd key data
  | .sign key digest => buildSignCmd key digest
  | .nvReadPublic index => buildNvReadPublicCmd index
  | .nvRead index size => buildNvReadCmd index size 0
  | .nvUndefineSpace index => buildNvUndefineSpaceCmd index
  | .nvDefineSpace index size attributes => buildNvDefineSpaceCmd index size.toNat attributes
  | .nvWrite index _ data => buildNvWriteCmd index data

/-- The longest data that the client can read back: with a header, two sizes and a session they fill its buffer of 1024 bytes. -/
def readableMax : Nat := 1003

/-- The arguments are ones the client can have: handles of 32 bits, data of a size that fits in 16 bits, and an index that is small
enough to be read back. -/
def TpmCommand.Sendable : TpmCommand → Prop
  | .flushContext handle => handle < 2 ^ 32
  | .createPrimary _ => True
  | .evictControl object persistent => object < 2 ^ 32 ∧ persistent < 2 ^ 32
  | .hmac key size data | .nvWrite key size data => key < 2 ^ 32 ∧ data.length < 2 ^ 16 ∧ size = data.length.toUInt16
  | .sign key digest => key < 2 ^ 32 ∧ digest.length < 2 ^ 16
  | .nvReadPublic index => index < 2 ^ 32
  | .nvRead index size => index < 2 ^ 32 ∧ size < 2 ^ 16
  | .nvUndefineSpace index => index < 2 ^ 32
  | .nvDefineSpace index size attributes => index < 2 ^ 32 ∧ attributes < 2 ^ 32 ∧ size.toNat ≤ readableMax

namespace WireCallsAux

/-- The command for a signing key asks for its template. -/
theorem signing_bytes : buildCreatePrimarySigningCmd = (WireCommand.createPrimary (KeyTemplate.area .signing [] [])).bytes :=
  TpmLayoutAux.buildCreatePrimarySigningCmd_eq

/-- The command for an HMAC key asks for its template. -/
theorem hmac_bytes : buildCreatePrimaryHmacCmd = (WireCommand.createPrimary (KeyTemplate.area .hmac [] [])).bytes :=
  TpmLayoutAux.buildCreatePrimaryHmacCmd_eq

/-- A number below 2^32 goes through 32 bits. -/
theorem toNat_toUInt32 {n : Nat} (h : n < 2 ^ 32) : n.toUInt32.toNat = n := UInt32.toNat_ofNat_of_lt h

/-- A number below 2^16 goes through 16 bits. -/
theorem toNat_toUInt16 {n : Nat} (h : n < 2 ^ 16) : n.toUInt16.toNat = n := UInt16.toNat_ofNat_of_lt h

/-- The TPM finds the command in the bytes that the client builds for it. -/
theorem readCommand_of {w : WireCommand} {c : TpmCommand} (hsmall : w.payload < 2 ^ 16) (hbytes : c.bytes = w.bytes)
    (hcommand : w.command? = some c) : readCommand c.bytes = some c := by
  rw [readCommand, hbytes, TpmLayoutAux.whole_bytes_of_small hsmall, Option.bind_some, hcommand]

/-- The TPM reads a command that can be sent as that command. -/
theorem readCommand_bytes {c : TpmCommand} (h : c.Sendable) : readCommand c.bytes = some c := by
  cases c with
  | flushContext handle =>
    have hhandle := toNat_toUInt32 h
    exact readCommand_of (w := .flushContext handle.toUInt32) (Nat.two_pow_pos 16)
      (by rw [TpmCommand.bytes, WireCommand.bytes, hhandle]) (by rw [WireCommand.command?, hhandle])
  | createPrimary template =>
    cases template with
    | signing => exact readCommand_of (w := .createPrimary (KeyTemplate.area .signing [] [])) (by decide) signing_bytes (by decide)
    | hmac => exact readCommand_of (w := .createPrimary (KeyTemplate.area .hmac [] [])) (by decide) hmac_bytes (by decide)
  | evictControl object persistent =>
    have hobject := toNat_toUInt32 h.1
    have hpersistent := toNat_toUInt32 h.2
    exact readCommand_of (w := .evictControl object.toUInt32 persistent.toUInt32) (Nat.two_pow_pos 16)
      (by rw [TpmCommand.bytes, WireCommand.bytes, hobject, hpersistent]) (by rw [WireCommand.command?, hobject, hpersistent])
  | hmac key size data =>
    obtain ⟨hkey, hdata, rfl⟩ := h
    have hkey' := toNat_toUInt32 hkey
    exact readCommand_of (w := .hmac key.toUInt32 data) hdata (by rw [TpmCommand.bytes, WireCommand.bytes, hkey'])
      (by rw [WireCommand.command?, hkey'])
  | sign key digest =>
    have hkey := toNat_toUInt32 h.1
    exact readCommand_of (w := .sign key.toUInt32 digest) h.2 (by rw [TpmCommand.bytes, WireCommand.bytes, hkey])
      (by rw [WireCommand.command?, hkey])
  | nvReadPublic index =>
    have hindex := toNat_toUInt32 h
    exact readCommand_of (w := .nvReadPublic index.toUInt32) (Nat.two_pow_pos 16)
      (by rw [TpmCommand.bytes, WireCommand.bytes, hindex]) (by rw [WireCommand.command?, hindex])
  | nvRead index size =>
    have hindex := toNat_toUInt32 h.1
    have hsize := toNat_toUInt16 h.2
    exact readCommand_of (w := .nvRead index.toUInt32 size.toUInt16 0) (Nat.two_pow_pos 16)
      (by rw [TpmCommand.bytes, WireCommand.bytes, hindex, hsize]; rfl) (by rw [WireCommand.command?, if_pos rfl, hindex, hsize])
  | nvUndefineSpace index =>
    have hindex := toNat_toUInt32 h
    exact readCommand_of (w := .nvUndefineSpace index.toUInt32) (Nat.two_pow_pos 16)
      (by rw [TpmCommand.bytes, WireCommand.bytes, hindex]) (by rw [WireCommand.command?, hindex])
  | nvDefineSpace index size attributes =>
    have hindex := toNat_toUInt32 h.1
    have hattributes := toNat_toUInt32 h.2.1
    exact readCommand_of (w := .nvDefineSpace index.toUInt32 attributes.toUInt32 size) (Nat.two_pow_pos 16)
      (by rw [TpmCommand.bytes, WireCommand.bytes, hindex, hattributes]) (by rw [WireCommand.command?, hindex, hattributes])
  | nvWrite index size data =>
    obtain ⟨hindex, hdata, rfl⟩ := h
    have hindex' := toNat_toUInt32 hindex
    exact readCommand_of (w := .nvWrite index.toUInt32 data) hdata (by rw [TpmCommand.bytes, WireCommand.bytes, hindex'])
      (by rw [WireCommand.command?, hindex'])

/-! ## What the TPM does -/

/-- Every index is small enough to be read back. -/
def Held (t : Tpm) : Prop := ∀ index i, t.nv index = some i → i.data.length ≤ readableMax

/-- What a command that the TPM runs is answered with. -/
def Answers (D : TpmDevice) (t : Tpm) : TpmCommand → TpmResponse → Prop
  | .createPrimary template, r =>
    ∃ x y, D.publicPoint ⟨template, D.seed⟩ = (x, y) ∧ r = .created (D.handle t.submissions) (some (x, y))
  | .hmac _ _ data, r => ∃ k, r = .digest (some (D.hmac k data))
  | .sign _ digest, r => ∃ k x y, D.sign t.submissions k digest = (x, y) ∧ r = .signature (some (x, y))
  | .nvReadPublic index, r => ∃ i, t.nv index = some i ∧ r = .size (some i.data.length)
  | .nvRead index size, r => ∃ i, t.nv index = some i ∧ r = .data (some (i.data.take size))
  | _, r => r = .done

/-- What becomes of a command: a response code and nothing else, or an answer that leaves every index small enough. -/
inductive Executed (D : TpmDevice) (t : Tpm) (c : TpmCommand) : Except Nat TpmResponse × Tpm → Prop where
  | refused {code : Nat} (h : code ≠ 0 ∧ code < 2 ^ 32) : Executed D t c (.error code, t)
  | answered {r : TpmResponse} {u : Tpm} (h : Answers D t c r) (held : c.Sendable → Held t → Held u) : Executed D t c (.ok r, u)

/-- An index that is small enough may be put into a TPM whose indices are. -/
theorem held_update {t u : Tpm} {index : Nat} {x : Option NvIndex} (hnv : u.nv = Function.update t.nv index x)
    (hx : ∀ i, x = some i → i.data.length ≤ readableMax) (h : Held t) : Held u := by
  intro index' i hi
  rw [hnv, Function.update_apply] at hi
  split at hi
  · exact hx i hi
  · exact h index' i hi

/-- What a command can do, and what it answers. -/
theorem execute_cases (D : TpmDevice) (t : Tpm) (c : TpmCommand) : Executed D t c (t.execute D c) := by
  cases c with
  | flushContext handle =>
    simp only [Tpm.execute]
    split_ifs
    · exact .answered rfl fun _ h => h
    · exact .refused (by decide)
  | createPrimary template =>
    simp only [Tpm.execute]
    split_ifs
    · exact .answered ⟨_, _, rfl, rfl⟩ fun _ h => h
    · exact .refused (by decide)
  | evictControl object persistent =>
    by_cases hop : object = persistent
    · simp only [Tpm.execute, if_pos hop]
      split_ifs
      · exact .answered rfl fun _ h => h
      · exact .refused (by decide)
    · simp only [Tpm.execute, if_neg hop]
      cases t.transient object with
      | none => exact .refused (by decide)
      | some k =>
        cases t.persistent persistent with
        | none => exact .answered rfl fun _ h => h
        | some _ => exact .refused (by decide)
  | hmac handle size data =>
    simp only [Tpm.execute]
    cases t.key handle with
    | none => exact .refused (by decide)
    | some k =>
      dsimp only
      split_ifs
      · exact .refused (by decide)
      · exact .refused (by decide)
      · exact .answered ⟨k, rfl⟩ fun _ h => h
  | sign handle digest =>
    simp only [Tpm.execute]
    cases t.key handle with
    | none => exact .refused (by decide)
    | some k =>
      dsimp only
      split_ifs
      · exact .refused (by decide)
      · exact .answered ⟨k, _, _, rfl, rfl⟩ fun _ h => h
  | nvReadPublic index =>
    simp only [Tpm.execute]
    cases hn : t.nv index with
    | none => exact .refused (by decide)
    | some i => exact .answered ⟨i, hn, rfl⟩ fun _ h => h
  | nvRead index size =>
    simp only [Tpm.execute]
    cases hn : t.nv index with
    | none => exact .refused (by decide)
    | some i =>
      dsimp only
      split_ifs
      · exact .refused (by decide)
      · exact .refused (by decide)
      · exact .answered ⟨i, hn, rfl⟩ fun _ h => h
  | nvUndefineSpace index =>
    simp only [Tpm.execute]
    split_ifs
    · exact .answered rfl fun _ h => held_update rfl (fun i hi => by cases hi) h
    · exact .refused (by decide)
  | nvDefineSpace index size attributes =>
    simp only [Tpm.execute]
    split_ifs
    · exact .refused (by decide)
    · refine .answered rfl fun hs h => held_update rfl (fun i hi => ?_) h
      cases hi
      exact (List.length_replicate).trans_le hs.2.2
  | nvWrite index size data =>
    simp only [Tpm.execute]
    cases hn : t.nv index with
    | none => exact .refused (by decide)
    | some i =>
      dsimp only
      split_ifs with hsize hroom
      · exact .refused (by decide)
      · refine .answered rfl fun _ h => held_update rfl (fun j hj => ?_) h
        cases hj
        have hi := h index i hn
        change (data ++ i.data.drop data.length).length ≤ readableMax
        rw [List.length_append, List.length_drop]
        omega
      · exact .refused (by decide)

/-! ## Responses -/

/-- The length of a response. -/
@[simp] theorem reply_length (tag rc : Nat) (body : Bytes) : (reply tag rc body).length = 10 + body.length := by
  simp [reply]
  omega

/-- The length of what stands behind the code. -/
@[simp] theorem withSession_length (handle params : Bytes) : (withSession handle params).length = handle.length + params.length + 9 := by
  simp [withSession]
  omega

/-- The smallest buffer that the client has for the response to a command. -/
def bufferFor : TpmCommand → Nat
  | .flushContext _ => 32
  | .evictControl .. | .nvUndefineSpace _ | .nvDefineSpace .. | .nvWrite .. => 64
  | .hmac .. | .sign .. => 256
  | .createPrimary _ | .nvReadPublic _ => 512
  | .nvRead .. => 1024

/-- The public area of a key has at most 120 bytes. -/
theorem area_length_le (template : KeyTemplate) {x y : Bytes} (hx : x.length ≤ 32) (hy : y.length ≤ 32) :
    (publicLayout.write (template.area x y)).length ≤ 120 := by
  cases template with
  | signing =>
    simp [KeyTemplate.area, publicLayout, PublicArea.type, schemeLayout, EccScheme.alg, deviceKeyAuthPolicySha256]
    omega
  | hmac =>
    simp [KeyTemplate.area, publicLayout, PublicArea.type]
    omega

/-- Every response fits in the buffer for it. -/
theorem respond_length_le (W : WireDevice) {t : Tpm} {c : TpmCommand} {r : TpmResponse} (hheld : Held t)
    (h : Answers W.toTpmDevice t c r) : (W.respond t c r).length ≤ bufferFor c := by
  have hdetails := W.details_le t.submissions
  cases c with
  | createPrimary template =>
    obtain ⟨x, y, hxy, rfl⟩ := h
    obtain ⟨hx, hy⟩ := W.publicPoint_le _ x y hxy
    have harea := area_length_le template hx hy
    simp [WireDevice.respond, bufferFor]
    omega
  | hmac key size data =>
    obtain ⟨k, rfl⟩ := h
    have hvalue := W.hmac_le k data
    simp [WireDevice.respond, bufferFor]
    omega
  | sign key digest =>
    obtain ⟨k, x, y, hxy, rfl⟩ := h
    obtain ⟨hx, hy⟩ := W.sign_le _ k digest x y hxy
    simp [WireDevice.respond, bufferFor]
    omega
  | nvReadPublic index =>
    obtain ⟨i, -, rfl⟩ := h
    simp [WireDevice.respond, bufferFor, WireDevice.nvPublic]
    omega
  | nvRead index size =>
    obtain ⟨i, hi, rfl⟩ := h
    have hsize := hheld index i hi
    rw [readableMax] at hsize
    simp [WireDevice.respond, bufferFor]
    omega
  | _ =>
    cases h
    simp [WireDevice.respond, bufferFor]

/-- A response in a buffer stands at its start. -/
theorem at_of_buffer {n : Nat} {response b : Bytes} (h : WireDevice.buffer n response = some b) : At b 0 response := by
  unfold WireDevice.buffer at h
  split at h
  next =>
    cases h
    exact at_zero_iff.2 ⟨_, rfl⟩
  next => cases h

/-- The code of a response, and what follows it. -/
theorem at_reply {n tag rc : Nat} {body b : Bytes} (h : WireDevice.buffer n (reply tag rc body) = some b) :
    At b 6 (beBytes 4 rc) ∧ At b 10 body := by
  have hat := at_of_buffer h
  unfold reply at hat
  obtain ⟨hcode, hbody⟩ := at_append_iff.1 hat
  obtain ⟨-, hcode⟩ := at_append_iff.1 hcode
  simp only [List.length_append, beBytes_length, Nat.zero_add, Nat.reduceAdd] at hcode hbody
  exact ⟨hcode, hbody⟩

/-- The handle and the parameters of a response with a session. -/
theorem at_withSession {n tag rc : Nat} {handle params b : Bytes}
    (h : WireDevice.buffer n (reply tag rc (withSession handle params)) = some b) :
    At b 10 handle ∧ At b (14 + handle.length) params := by
  have hbody := (at_reply h).2
  unfold withSession at hbody
  obtain ⟨hparams, -⟩ := at_append_iff.1 hbody
  obtain ⟨hhandle, hparams⟩ := at_append_iff.1 hparams
  obtain ⟨hhandle, -⟩ := at_append_iff.1 hhandle
  rw [List.length_append, beBytes_length, show 10 + (handle.length + 4) = 14 + handle.length by omega] at hparams
  exact ⟨hhandle, hparams⟩

/-! ## Submissions -/

/-- The buffer holds the response of a TPM that has answered the command with `r`. -/
def Holds (W : WireDevice) (c : TpmCommand) (n : Nat) (b : Bytes) (r : TpmResponse) : Prop :=
  ∃ t, Held t ∧ Answers W.toTpmDevice t c r ∧ WireDevice.buffer n (W.respond t c r) = some b

/-- What the client gets over bytes, for what it gets over values. -/
inductive Received (W : WireDevice) (c : TpmCommand) (n : Nat) : Option Bytes → Submitted → Prop where
  | failed : Received W c n none .failed
  | refused {b : Bytes} {code : Nat} (h : code ≠ 0 ∧ code < 2 ^ 32) (hb : WireDevice.buffer n (reply 0x8001 code []) = some b) :
      Received W c n (some b) (.rc code)
  | answered {b : Bytes} {r : TpmResponse} (h : Holds W c n b r) : Received W c n (some b) (.response r)

/-- The same TPM, whose indices are small enough to be read back. -/
def Same (t u : Tpm) : Prop := t = u ∧ Held t

variable {W : WireDevice} {c : TpmCommand} {n : Nat}

/-- A response that is short enough goes into the buffer. -/
theorem buffer_of_le {response : Bytes} (h : response.length ≤ n) : ∃ b, WireDevice.buffer n response = some b :=
  ⟨_, if_pos h⟩

/-- There is always room for a code. -/
theorem ten_le_bufferFor (c : TpmCommand) : 10 ≤ bufferFor c := by cases c <;> simp [bufferFor]

/-- A refusal is received as its code. -/
theorem received_refused {code : Nat} (hn : bufferFor c ≤ n) (h : code ≠ 0 ∧ code < 2 ^ 32) :
    Received W c n (WireDevice.buffer n (reply 0x8001 code [])) (.rc code) := by
  have hlen : (reply 0x8001 code []).length ≤ n := by
    rw [reply_length]
    exact (ten_le_bufferFor c).trans hn
  obtain ⟨b, hb⟩ := buffer_of_le hlen
  rw [hb]
  exact .refused h hb

/-- A response is received as it was written. -/
theorem received_answered {t : Tpm} {r : TpmResponse} (hn : bufferFor c ≤ n) (hheld : Held t) (h : Answers W.toTpmDevice t c r) :
    Received W c n (WireDevice.buffer n (W.respond t c r)) (.response r) := by
  obtain ⟨b, hb⟩ := buffer_of_le ((respond_length_le W hheld h).trans hn)
  rw [hb]
  exact .answered ⟨t, hheld, h, hb⟩

/-- What a command that is run is answered with, and what it leaves of the TPM. -/
theorem received_executed {t : Tpm} (hc : c.Sendable) (hn : bufferFor c ≤ n) (hheld : Held t) :
    Received W c n (WireDevice.buffer n (W.executeBytes t c.bytes).1) (.ofResult (t.execute W.toTpmDevice c).1) ∧
      (W.executeBytes t c.bytes).2 = (t.execute W.toTpmDevice c).2 ∧ Held (t.execute W.toTpmDevice c).2 := by
  have hcases := execute_cases W.toTpmDevice t c
  rw [WireDevice.executeBytes, readCommand_bytes hc]
  dsimp only
  generalize t.execute W.toTpmDevice c = ran at hcases ⊢
  cases hcases with
  | refused h => exact ⟨received_refused hn h, rfl, hheld⟩
  | answered h held => exact ⟨received_answered hn hheld h, rfl, held hc hheld⟩

/-- A submission of the bytes of a command ends as the submission of the command. -/
theorem submitCommand_simulates {ε δ : Type} {E : ε → δ → Prop} (hc : c.Sendable) (hn : bufferFor c ≤ n) :
    Simulates Same E (Received W c n) (W.tcg.submitCommand c.bytes n : Run Tpm ε _) (submitCommand W.toTpmDevice c) := by
  rintro t _ ⟨rfl, hheld⟩
  obtain ⟨hreceived, hstate, hheld'⟩ := received_executed (W := W) hc hn hheld
  have hanswer := W.answer_ne_garbled t.submissions
  have hrefused := W.answer_refused_lt t.submissions
  change Outcome.Agree E _ (.ok (W.submit c.bytes n t).1) (submitCommand W.toTpmDevice c t).1 ∧
    Same (W.submit c.bytes n t).2 (submitCommand W.toTpmDevice c t).2
  rw [WireDevice.submit, submitCommand]
  dsimp only
  rw [hstate]
  cases hans : W.answer t.submissions with
  | run => exact ⟨.ok hreceived, rfl, hheld'⟩
  | garbled => exact absurd hans hanswer
  | refused rc h => exact ⟨.ok (received_refused hn ⟨h, hrefused rc h hans⟩), rfl, hheld⟩
  | lost ran =>
    cases ran with
    | true => exact ⟨.ok .failed, rfl, hheld'⟩
    | false => exact ⟨.ok .failed, rfl, hheld⟩

/-- A response code is read out of the buffer. -/
theorem unpack_code {rc : Nat} {body b : Bytes} {tag : Nat} (hrc : rc < 2 ^ 32) (h : WireDevice.buffer n (reply tag rc body) = some b) :
    10 ≤ b.length ∧ unpackAt b 6 10 = .ok rc := by
  have hat := (at_reply h).1
  have hend := hat.end_le
  rw [beBytes_length] at hend
  exact ⟨hend, (TpmParsersAux.unpackAt_ok_iff_word (k := 4)).2 ⟨hrc, hat⟩⟩

/-- Every answer has the response code zero. -/
theorem respond_eq_reply (W : WireDevice) (t : Tpm) (c : TpmCommand) (r : TpmResponse) :
    ∃ tag body, W.respond t c r = reply tag 0 body := by
  unfold WireDevice.respond
  split <;> exact ⟨_, _, rfl⟩

/-- A response that is held has the code 0. -/
theorem unpack_answered {b : Bytes} {r : TpmResponse} (h : Holds W c n b r) : 10 ≤ b.length ∧ unpackAt b 6 10 = .ok 0 := by
  obtain ⟨t, -, -, hb⟩ := h
  obtain ⟨tag, body, hreply⟩ := respond_eq_reply W t c r
  rw [hreply] at hb
  exact unpack_code (by decide) hb

/-- The retries of the two clients run alike. -/
theorem submitLoop_simulates (hc : c.Sendable) (hn : bufferFor c ≤ n) (k : Nat) :
    Simulates Same Eq (Holds W c n) (W.tcg.submitLoop c.bytes n k) (submitLoop W.toTpmDevice c k) := by
  induction k with
  | zero => exact .fail rfl
  | succ k ih =>
    refine (submitCommand_simulates hc hn).bind fun o s h => ?_
    cases h with
    | failed => exact ih
    | @refused b code hcode hb =>
      obtain ⟨hlen, hunpack⟩ := unpack_code hcode.2 hb
      dsimp only
      rw [ensure_of_true _ hlen, pure_bind, TpmParsersAux.parsed_ok hunpack, pure_bind, if_pos hcode.1]
      exact .ite Iff.rfl (fun _ => ih) fun _ => .fail rfl
    | @answered b r hr =>
      obtain ⟨hlen, hunpack⟩ := unpack_answered hr
      dsimp only
      rw [ensure_of_true _ hlen, pure_bind, TpmParsersAux.parsed_ok hunpack, pure_bind, if_neg (by decide), if_neg (by decide)]
      exact .pure hr

/-- The submissions of the two clients run alike. -/
theorem tpmSubmit_simulates (hc : c.Sendable) (hn : bufferFor c ≤ n) :
    Simulates Same Eq (Holds W c n) (W.tcg.tpmSubmit c.bytes n) (tpmSubmit W.toTpmDevice c) :=
  (submitLoop_simulates hc hn tpmRetryMax).mapErr fun _ _ _ => rfl

/-- The submissions whose result is ignored run alike. -/
theorem bestEffort_simulates (hc : c.Sendable) (hn : bufferFor c ≤ n) :
    Simulates Same Eq Eq (W.tcg.bestEffort c.bytes n : Run Tpm Unit Unit) (bestEffort W.toTpmDevice c) :=
  (submitCommand_simulates (E := Eq) hc hn).bind fun _ _ _ => .pure rfl

/-- Opening the TPM runs alike. -/
theorem openTcg_simulates : Simulates Same Eq Eq W.tcg.openTcg (openTcg W.toTpmDevice) := by
  rintro t _ ⟨rfl, hheld⟩
  change Outcome.Agree Eq Eq (if decide (W.answer t.submissions = .run) then .ok () else .err ()) _ ∧ Same _ _
  by_cases hans : W.answer t.submissions = .run
  · rw [openTcg]
    dsimp only
    rw [if_pos (decide_eq_true hans), if_pos hans]
    exact ⟨.ok rfl, rfl, hheld⟩
  · rw [openTcg]
    dsimp only
    rw [if_neg (by simpa using hans), if_neg hans]
    exact ⟨.err rfl, rfl, hheld⟩

/-! ## What is parsed out of the buffer -/

/-- A sized string that stands somewhere is found there. -/
theorem sized_of_at {b u : Bytes} {p : Nat} (hu : u.length ≤ 32) (h : At b p ((sized 2).write u)) :
    TpmParsersAux.Sized b p u (p + 2 + u.length) := ⟨by omega, h, rfl⟩

/-- An HMAC is read from its response. -/
theorem holds_hmac {key : Nat} {size : UInt16} {data b : Bytes} {r : TpmResponse} (h : Holds W (.hmac key size data) n b r) :
    ∃ value, r.digest? = some value ∧ parseHmacResponse b = .ok value := by
  obtain ⟨t, -, ⟨k, rfl⟩, hb⟩ := h
  have hvalue := sized_of_at (W.hmac_le k data) (at_withSession hb).2
  exact ⟨W.hmac k data, rfl, (parseHmacResponse_exact.ok_iff _ _).2 ⟨(at_reply hb).1, _, hvalue⟩⟩

/-- The halves of a signature are read from its response. -/
theorem holds_sign {key : Nat} {digest b : Bytes} {res : TpmResponse} (h : Holds W (.sign key digest) n b res) :
    ∃ rs, res.signature? = some rs ∧ parseSignResponse b = .ok rs := by
  obtain ⟨t, -, ⟨k, r, s, hrs, rfl⟩, hb⟩ := h
  obtain ⟨hr, hs⟩ := W.sign_le _ k digest r s hrs
  obtain ⟨hparams, hs'⟩ := at_append_iff.1 (at_withSession hb).2
  obtain ⟨-, hr'⟩ := at_append_iff.1 hparams
  have hr'' := sized_of_at hr hr'
  refine ⟨(r, s), rfl, (parseSignResponse_exact.ok_iff _ _).2 ⟨(at_reply hb).1, _, _, hr'', sized_of_at hs ?_⟩⟩
  convert hs' using 1
  simp
  omega

/-- A size that is answered has 16 bits. -/
theorem answered_nvReadPublic {index : Nat} {b : Bytes} {t : Tpm} {r : TpmResponse} (hn : bufferFor (.nvReadPublic index) ≤ n)
    (h : Answers W.toTpmDevice t (.nvReadPublic index) r) (hb : WireDevice.buffer n (W.respond t (.nvReadPublic index) r) = some b) :
    ∃ size, size < 2 ^ 16 ∧ r.size? = some size ∧ parseNvReadPublicResponse b = .ok size := by
  obtain ⟨i, -, rfl⟩ := h
  have hlen := WireDevice.buffer_length hb
  obtain ⟨hsized, -⟩ := at_append_iff.1 (at_reply hb).2
  obtain ⟨-, hpublic⟩ := at_append_iff.1 hsized
  obtain ⟨-, hsize⟩ := at_append_iff.1 hpublic
  simp only [beBytes_length, List.length_append, List.length_cons, List.length_nil, Nat.reduceAdd] at hsize
  rw [bufferFor] at hn
  refine ⟨i.data.length, i.small, rfl, (parseNvReadPublicResponse_exact.ok_iff _ _).2 ⟨by omega, (at_reply hb).1, i.small, hsize⟩⟩

/-- The size of an index is read from its response. -/
theorem holds_nvReadPublic {index : Nat} {b : Bytes} {r : TpmResponse} (hn : bufferFor (.nvReadPublic index) ≤ n)
    (h : Holds W (.nvReadPublic index) n b r) :
    ∃ size, size < 2 ^ 16 ∧ r.size? = some size ∧ parseNvReadPublicResponse b = .ok size := by
  obtain ⟨t, -, hanswers, hb⟩ := h
  exact answered_nvReadPublic hn hanswers hb

/-- The data of an index are read from its response. -/
theorem holds_nvRead {index size : Nat} {b : Bytes} {r : TpmResponse} (h : Holds W (.nvRead index size) n b r) :
    ∃ data, r.data? = some data ∧ parseNvReadResponse b = .ok data := by
  obtain ⟨t, -, ⟨i, -, rfl⟩, hb⟩ := h
  have hi := i.small
  have hlen : (i.data.take size).length < 2 ^ 16 := by
    rw [List.length_take]
    omega
  exact ⟨i.data.take size, rfl, (parseNvReadResponse_exact.ok_iff _ _).2 ⟨(at_reply hb).1, _, hlen, (at_withSession hb).2, rfl⟩⟩

/-- The handle of a new key. -/
theorem holds_handle {template : KeyTemplate} {b : Bytes} {r : TpmResponse} (h : Holds W (.createPrimary template) n b r) :
    ∃ handle, handle < 2 ^ 32 ∧ r.handle? = some handle ∧ 14 ≤ b.length ∧ unpackAt b 10 14 = .ok handle := by
  obtain ⟨t, -, ⟨x, y, hxy, rfl⟩, hb⟩ := h
  have hhandle := (at_withSession hb).1
  have hend := hhandle.end_le
  rw [beBytes_length] at hend
  have hlt := W.handle_lt t.submissions
  exact ⟨W.handle t.submissions, hlt, rfl, hend, (TpmParsersAux.unpackAt_ok_iff_word (k := 4)).2 ⟨hlt, hhandle⟩⟩

/-- The handle and the point of a new signing key. -/
theorem holds_primaryKey {b : Bytes} {r : TpmResponse} (h : Holds W (.createPrimary .signing) n b r) :
    ∃ key, key.1 < 2 ^ 32 ∧ r.primaryKey? = some key ∧ parseCreatePrimaryResponse b = .ok key := by
  obtain ⟨t, -, ⟨x, y, hxy, rfl⟩, hb⟩ := h
  obtain ⟨hx, hy⟩ := W.publicPoint_le _ x y hxy
  have hlt := W.handle_lt t.submissions
  obtain ⟨hhandle, hparams⟩ := at_withSession hb
  rw [beBytes_length] at hparams
  obtain ⟨hsized, -⟩ := at_append_iff.1 hparams
  have hend := hsized.end_le
  obtain ⟨hsize, harea⟩ := at_append_iff.1 hsized
  have hlen := area_length_le .signing hx hy
  rw [within_write, List.length_append, beBytes_length] at hend
  rw [beBytes_length] at harea
  rw [Nat.zero_add] at hsize
  change At b 20 (beBytes 2 0x23 ++ ([0x00, 0x0B] ++ (beBytes 4 fdoKeyAttributes ++ ((beBytes 2 32 ++ deviceKeyAuthPolicySha256) ++
    ([0x00, 0x10] ++ ((beBytes 2 0x18 ++ beBytes 2 0x0B) ++ ([0x00, 0x03, 0x00, 0x10] ++ ((sized 2).write x ++ (sized 2).write y)))))))) at harea
  simp only [at_append_iff] at harea
  obtain ⟨-, -, -, ⟨hpolicy, -⟩, -, -, -, hx', hy'⟩ := harea
  have hx'' := sized_of_at (p := 40 + 32) hx hx'
  have hy'' : At b (40 + 32 + 2 + x.length) ((sized 2).write y) := by
    have hxlen : ((sized 2).write x).length = 2 + x.length := by simp
    rw [hxlen, ← Nat.add_assoc] at hy'
    exact hy'
  refine ⟨(W.handle t.submissions, x, y), hlt, rfl, (parseCreatePrimaryResponse_exact.ok_iff _ _).2 ⟨(at_reply hb).1, hlt, hhandle, ?_⟩⟩
  refine ⟨⟨_, by omega, hsize, by omega⟩, 32, by decide, hpolicy, _, _, hx'', sized_of_at hy hy''⟩

end WireCallsAux

end FdoUefi
