import FdoUefi.Lemmas.TpmParsers

/-!
# Random numbers from the TPM

`tpm_get_random` puts a number together out of several responses. Whatever the firmware and the TPM do, it asks a bounded number of
times, it never panics, and what it returns are the bytes of the responses, in their order.
-/

namespace FdoUefi

open Prog Prog.Run TpmParsersAux

/-! ## What has been asked and answered -/

/-- A submitted command and what came back. -/
abbrev Exchange : Type := Bytes × Option Bytes

/-- The same protocol, which keeps a record of the commands and their responses. -/
def Tcg.recording {σ : Type} (T : Tcg σ) : Tcg (σ × List Exchange) where
  opens s := ((T.opens s.1).1, ((T.opens s.1).2, s.2))
  submit cmd respSize s := ((T.submit cmd respSize s.1).1, ((T.submit cmd respSize s.1).2, s.2 ++ [(cmd, (T.submit cmd respSize s.1).1)]))
  submit_length cmd respSize s response h := T.submit_length cmd respSize s.1 response h

/-- The bytes a response brings: those behind their size, when its code is zero. -/
def Exchange.drawn (e : Exchange) : Bytes :=
  match e.2 with
  | none => []
  | some b => if beNat ((b.drop 6).take 4) = 0 then (b.drop 12).take (beNat ((b.drop 10).take 2)) else []

namespace TpmRandomAux

variable {σ : Type} {T : Tcg σ} {cmd : Bytes} {n : Nat}

/-- A submission is recorded with its response. -/
theorem submitCommand_recording {ε : Type} (T : Tcg σ) (cmd : Bytes) (n : Nat) (s : σ) (log : List Exchange) :
    (T.recording.submitCommand cmd n : Run _ ε _) (s, log) =
      (.ok (T.submit cmd n s).1, ((T.submit cmd n s).2, log ++ [(cmd, (T.submit cmd n s).1)])) := rfl

/-- What a response code is, and that it was not zero. -/
theorem unpack_code {b : Bytes} (h : 10 ≤ b.length) : unpackAt b 6 10 = .ok (beNat ((b.drop 6).take 4)) := by
  rw [unpackAt, cutAt, range?, if_pos ⟨by decide, h⟩]
  rfl

/-- How the loop that submits a command ends, for what it has exchanged: with a response whose code is zero, behind exchanges that
brought nothing, or with an error. -/
def Ended (cmd : Bytes) (n : Nat) (new : List Exchange) : Outcome Nat Bytes → Prop
  | .ok b => b.length = n ∧ beNat ((b.drop 6).take 4) = 0 ∧ ∃ idle, new = idle ++ [(cmd, some b)] ∧ idle.flatMap Exchange.drawn = []
  | .err _ => True
  | .panic | .hang => False

/-- An exchange that brought nothing may stand before the others. -/
theorem Ended.cons {e : Exchange} {new : List Exchange} {o : Outcome Nat Bytes} (h : Ended cmd n new o) (he : e.drawn = []) :
    Ended cmd n (e :: new) o := by
  cases o with
  | ok b =>
    obtain ⟨hlen, hcode, idle, rfl, hidle⟩ := h
    exact ⟨hlen, hcode, e :: idle, rfl, by rw [List.flatMap_cons, he, hidle, List.append_nil]⟩
  | err _ => trivial
  | panic => exact h
  | hang => exact h

/-- The retries come to an end, and all submit the same command. -/
theorem submitLoop_ends (cmd : Bytes) (hn : 10 ≤ n) (k : Nat) (s : σ) (log : List Exchange) :
    ∃ new, new.length ≤ k ∧ (∀ e ∈ new, e.1 = cmd) ∧ (T.recording.submitLoop cmd n k (s, log)).2.2 = log ++ new ∧
      Ended cmd n new (T.recording.submitLoop cmd n k (s, log)).1 := by
  induction k generalizing s log with
  | zero => exact ⟨[], le_rfl, by simp, (List.append_nil log).symm, trivial⟩
  | succ k ih =>
    rw [Tcg.submitLoop, bind_of_ok (submitCommand_recording T cmd n s log)]
    -- one more exchange that brings nothing, and the rest of the loop
    have again {e : Exchange} (hcmd : e.1 = cmd) (he : e.drawn = []) (u : σ) :
        ∃ new, new.length ≤ k + 1 ∧ (∀ e ∈ new, e.1 = cmd) ∧ (T.recording.submitLoop cmd n k (u, log ++ [e])).2.2 = log ++ new ∧
          Ended cmd n new (T.recording.submitLoop cmd n k (u, log ++ [e])).1 := by
      obtain ⟨new, hlen, hall, hlog, hended⟩ := ih u (log ++ [e])
      refine ⟨e :: new, Nat.succ_le_succ hlen, ?_, by rw [hlog, List.append_assoc]; rfl, hended.cons he⟩
      rintro e' (_ | ⟨_, he'⟩)
      · exact hcmd
      · exact hall e' he'
    cases hsub : (T.submit cmd n s).1 with
    | none => exact again rfl rfl _
    | some b =>
      have hlen : b.length = n := T.submit_length cmd n s b hsub
      dsimp only
      rw [ensure_of_true _ (hlen ▸ hn), pure_bind, parsed_ok (unpack_code (hlen ▸ hn)), pure_bind]
      by_cases hretry : beNat ((b.drop 6).take 4) = rcRetry
      · rw [if_pos hretry]
        refine again rfl ?_ _
        change (if beNat ((b.drop 6).take 4) = 0 then _ else _) = _
        rw [hretry]
        rfl
      · rw [if_neg hretry]
        by_cases hcode : beNat ((b.drop 6).take 4) = 0
        · rw [if_neg (not_not.2 hcode)]
          exact ⟨[(cmd, some b)], by simp, by simp, rfl, hlen, hcode, [], rfl, rfl⟩
        · rw [if_pos hcode]
          exact ⟨[(cmd, some b)], by simp, by simp, rfl, trivial⟩

/-- The same, for a caller that does not look at the error. -/
theorem tpmSubmit_ends (cmd : Bytes) (hn : 10 ≤ n) (s : σ) (log : List Exchange) :
    ∃ new, new.length ≤ tpmRetryMax ∧ (∀ e ∈ new, e.1 = cmd) ∧ ∃ u,
      (T.recording.tpmSubmit cmd n (s, log) = (.err (), (u, log ++ new)) ∨
        ∃ b, T.recording.tpmSubmit cmd n (s, log) = (.ok b, (u, log ++ new)) ∧ Ended cmd n new (.ok b)) := by
  obtain ⟨new, hlen, hall, hlog, hended⟩ := submitLoop_ends (T := T) cmd hn tpmRetryMax s log
  refine ⟨new, hlen, hall, ?_⟩
  simp only [Tcg.tpmSubmit, Tcg.tpmSubmitWithRetry, mapErr]
  rcases hrun : T.recording.submitLoop cmd n tpmRetryMax (s, log) with ⟨_ | _ | _ | _, u, log'⟩
  · rw [hrun] at hlog hended
    obtain rfl : log' = log ++ new := hlog
    exact ⟨u, .inr ⟨_, rfl, hended⟩⟩
  · rw [hrun] at hlog
    obtain rfl : log' = log ++ new := hlog
    exact ⟨u, .inl rfl⟩
  · rw [hrun] at hended
    exact hended.elim
  · rw [hrun] at hended
    exact hended.elim

/-- The command asks for some bytes, and not for more than a digest has. -/
def AsksRandom (e : Exchange) : Prop := ∃ want, 1 ≤ want ∧ want ≤ 32 ∧ e.1 = buildGetRandomCmd want

/-- A good response brings the bytes it announces. -/
theorem drawn_of_code {b : Bytes} (hcode : beNat ((b.drop 6).take 4) = 0) :
    Exchange.drawn (cmd, some b) = (b.drop 12).take (beNat ((b.drop 10).take 2)) := if_pos hcode

/-- The loop comes to an end and asks for random bytes only. -/
theorem randomLoop_ends (len m : Nat) (out : Bytes) (s : σ) (log : List Exchange) :
    ∃ new, new.length ≤ tpmRetryMax * m ∧ (∀ e ∈ new, AsksRandom e) ∧ ∃ u,
      (T.recording.randomLoop len m out (s, log) = (.err (), (u, log ++ new)) ∨
        T.recording.randomLoop len m out (s, log) = (.ok (out ++ new.flatMap Exchange.drawn), (u, log ++ new)) ∧
          len ≤ (out ++ new.flatMap Exchange.drawn).length) := by
  induction m generalizing out s log with
  | zero =>
    refine ⟨[], le_rfl, by simp, s, ?_⟩
    rw [Tcg.randomLoop]
    split
    next => exact .inl (by rw [List.append_nil]; rfl)
    next hlen => exact .inr ⟨by simp only [List.flatMap_nil, List.append_nil]; rfl, by simpa using hlen⟩
  | succ m ih =>
    rw [Tcg.randomLoop]
    split
    next hlen =>
      obtain ⟨new, hcount, hall, u, hends⟩ := tpmSubmit_ends (T := T) (n := 256)
        (buildGetRandomCmd (min (len - out.length) 32)) (by decide) s log
      have hasks : ∀ e ∈ new, AsksRandom e := by
        intro e he
        exact ⟨min (len - out.length) 32, by omega, Nat.min_le_right _ _, hall e he⟩
      have hcount' : new.length ≤ tpmRetryMax * (m + 1) := by
        rw [Nat.mul_succ]
        omega
      rcases hends with herr | ⟨b, hb, hended⟩
      · exact ⟨new, hcount', hasks, u, .inl (bind_of_err herr)⟩
      dsimp only
      rw [bind_of_ok hb]
      obtain ⟨hblen, hcode, idle, hidle, hnone⟩ := hended
      have hsize : unpackAt b 10 12 = .ok (beNat ((b.drop 10).take 2)) := by
        rw [unpackAt, cutAt, range?, if_pos ⟨by decide, by omega⟩]
        rfl
      rw [ensure_of_true _ (by omega : 12 ≤ b.length), pure_bind, parsed_ok hsize, pure_bind]
      by_cases hbad : beNat ((b.drop 10).take 2) = 0 ∨ b.length < 12 + beNat ((b.drop 10).take 2)
      · rw [ensure_of_false _ (not_not.2 hbad)]
        exact ⟨new, hcount', hasks, u, .inl rfl⟩
      have hdrawn : cutAt b 12 (12 + beNat ((b.drop 10).take 2)) = .ok ((b.drop 12).take (beNat ((b.drop 10).take 2))) := by
        rw [cutAt, range?, if_pos ⟨by omega, by omega⟩, Nat.add_sub_cancel_left]
      rw [ensure_of_true _ hbad, pure_bind, parsed_ok hdrawn, pure_bind]
      have hbrought : new.flatMap Exchange.drawn = (b.drop 12).take (beNat ((b.drop 10).take 2)) := by
        rw [hidle, List.flatMap_append, hnone, List.nil_append, List.flatMap_singleton, drawn_of_code hcode]
      obtain ⟨new', hcount'', hasks', u', hends'⟩ := ih (out ++ (b.drop 12).take (beNat ((b.drop 10).take 2))) u (log ++ new)
      refine ⟨new ++ new', ?_, ?_, u', ?_⟩
      · rw [List.length_append, Nat.mul_succ]
        omega
      · intro e he
        rcases List.mem_append.1 he with he | he
        · exact hasks e he
        · exact hasks' e he
      · rw [← List.append_assoc, List.flatMap_append, hbrought, ← List.append_assoc]
        exact hends'
    next hlen =>
      refine ⟨[], Nat.zero_le _, by simp, s, .inr ⟨?_, by simpa using hlen⟩⟩
      simp only [List.flatMap_nil, List.append_nil]
      rfl

/-! ## A TPM that gives what it is asked for -/

/-- The TPM answers every request at once with as many bytes as it was asked for. -/
structure Generous (T : Tcg σ) : Prop where
  opens : ∀ s, (T.opens s).1 = true
  gives : ∀ s want, 1 ≤ want → want ≤ 32 → ∃ b, (T.submit (buildGetRandomCmd want) 256 s).1 = some b ∧
    beNat ((b.drop 6).take 4) = 0 ∧ beNat ((b.drop 10).take 2) = want

/-- A generous TPM gives what it is asked for. -/
theorem tpmSubmit_generous (hT : Generous T) (s : σ) (want : Nat) (h1 : 1 ≤ want) (h32 : want ≤ 32) :
    ∃ b u, T.tpmSubmit (buildGetRandomCmd want) 256 s = (.ok b, u) ∧ b.length = 256 ∧ beNat ((b.drop 10).take 2) = want := by
  obtain ⟨b, hb, hcode, hsize⟩ := hT.gives s want h1 h32
  have hlen : b.length = 256 := T.submit_length _ _ s b hb
  refine ⟨b, (T.submit (buildGetRandomCmd want) 256 s).2, ?_, hlen, hsize⟩
  have hfirst : (T.submitCommand (buildGetRandomCmd want) 256 : Run σ Nat _) s =
      (.ok (some b), (T.submit (buildGetRandomCmd want) 256 s).2) := by rw [← hb]; rfl
  have hloop : T.tpmSubmitWithRetry (buildGetRandomCmd want) 256 s = (.ok b, (T.submit (buildGetRandomCmd want) 256 s).2) := by
    rw [Tcg.tpmSubmitWithRetry, tpmRetryMax, Tcg.submitLoop, bind_of_ok hfirst]
    dsimp only
    rw [ensure_of_true _ (by omega : 10 ≤ b.length), pure_bind, parsed_ok (unpack_code (by omega)), pure_bind, hcode,
      if_neg (by decide), if_neg (by decide)]
    rfl
  simp only [Tcg.tpmSubmit, mapErr, hloop]

/-- Each of the `m` requests that are left brings at most 32 bytes. -/
theorem randomLoop_generous (hT : Generous T) (len m : Nat) (out : Bytes) (s : σ) :
    (∃ out' u, T.randomLoop len m out s = (.ok out', u)) ↔ len ≤ out.length + 32 * m := by
  induction m generalizing out s with
  | zero =>
    rw [Tcg.randomLoop]
    split
    next hlen =>
      constructor
      · rintro ⟨out', u, h⟩
        cases h
      · intro h
        omega
    next hlen => exact ⟨fun _ => by omega, fun _ => ⟨out, s, rfl⟩⟩
  | succ m ih =>
    rw [Tcg.randomLoop]
    split
    next hlen =>
      obtain ⟨b, u, hb, hblen, hsize⟩ := tpmSubmit_generous hT s (min (len - out.length) 32) (by omega) (by omega)
      dsimp only
      rw [bind_of_ok hb]
      have hunpack : unpackAt b 10 12 = .ok (min (len - out.length) 32) := by
        rw [← hsize, unpackAt, cutAt, range?, if_pos ⟨by decide, by omega⟩]
        rfl
      have hgood : ¬(min (len - out.length) 32 = 0 ∨ b.length < 12 + min (len - out.length) 32) := by omega
      have hdrawn : cutAt b 12 (12 + min (len - out.length) 32) = .ok ((b.drop 12).take (min (len - out.length) 32)) := by
        rw [cutAt, range?, if_pos ⟨by omega, by omega⟩, Nat.add_sub_cancel_left]
      rw [ensure_of_true _ (by omega : 12 ≤ b.length), pure_bind, parsed_ok hunpack, pure_bind, ensure_of_true _ hgood, pure_bind,
        parsed_ok hdrawn, pure_bind, ih, List.length_append, List.length_take, List.length_drop]
      omega
    next hlen => exact ⟨fun _ => by omega, fun _ => ⟨out, s, rfl⟩⟩

end TpmRandomAux

open TpmRandomAux

/-- `tpm_get_random` returns or fails, after at most 80 submissions that each ask for 1 to 32 bytes. What it returns has the length
that was asked for and is the start of what the responses brought, one behind the other. -/
theorem tpmGetRandom_ends {σ : Type} (T : Tcg σ) (len : Nat) (s : σ) :
    ∃ exchanges u, exchanges.length ≤ 80 ∧ (∀ e ∈ exchanges, AsksRandom e) ∧
      (T.recording.tpmGetRandom len (s, []) = (.err (), (u, exchanges)) ∨
        T.recording.tpmGetRandom len (s, []) = (.ok ((exchanges.flatMap Exchange.drawn).take len), (u, exchanges)) ∧
          ((exchanges.flatMap Exchange.drawn).take len).length = len) := by
  rw [Tcg.tpmGetRandom]
  cases hopen : (T.opens s).1 with
  | false =>
    have herr : T.recording.openTcg (s, []) = (.err (), ((T.opens s).2, [])) := by
      simp [Tcg.openTcg, Tcg.recording, hopen]
    exact ⟨[], (T.opens s).2, Nat.zero_le _, by simp, .inl (bind_of_err herr)⟩
  | true =>
    have hok : T.recording.openTcg (s, []) = (.ok (), ((T.opens s).2, [])) := by
      simp [Tcg.openTcg, Tcg.recording, hopen]
    obtain ⟨new, hcount, hasks, u, hends⟩ := randomLoop_ends (T := T) len Tcg.randomGuard [] (T.opens s).2 []
    refine ⟨new, u, hcount, hasks, ?_⟩
    rw [bind_of_ok hok]
    simp only [List.nil_append] at hends
    rcases hends with herr | ⟨hok', hlen⟩
    · exact .inl (bind_of_err herr)
    · refine .inr ⟨?_, List.length_take_of_le hlen⟩
      rw [bind_of_ok hok']
      rfl

/-- A TPM that gives what it is asked for gives up to 512 bytes, and no number of more bytes is ever put together. -/
theorem tpmGetRandom_generous_iff {σ : Type} (T : Tcg σ) (hT : Generous T) (len : Nat) (s : σ) :
    (∃ out u, T.tpmGetRandom len s = (.ok out, u)) ↔ len ≤ 512 := by
  have hopen : T.openTcg s = (.ok (), (T.opens s).2) := by simp [Tcg.openTcg, hT.opens]
  have hloop := randomLoop_generous hT len Tcg.randomGuard [] (T.opens s).2
  rw [show [].length + 32 * Tcg.randomGuard = 512 from rfl] at hloop
  rw [← hloop, Tcg.tpmGetRandom, bind_of_ok hopen]
  constructor
  · rintro ⟨out, u, h⟩
    obtain ⟨out', u', hout, -⟩ := bind_ok_iff.1 h
    exact ⟨out', u', hout⟩
  · rintro ⟨out', u, h⟩
    exact ⟨out'.take len, u, by rw [bind_of_ok h]; rfl⟩

/-- A TPM whose random bytes are all 0xAB. -/
def constantTpm : Tcg Unit where
  opens _ := (true, ())
  submit cmd respSize _ := (some ((packU16 tpm2StNoSessions ++ packU32 0 ++ packU32 0 ++ cmd.drop 10 ++ List.replicate respSize 0xAB).take respSize), ())
  submit_length cmd respSize _ response h := by
    cases h
    rw [List.length_take, List.length_append, List.length_replicate]
    omega

/-- The constant TPM is generous. -/
theorem constantTpm_generous : Generous constantTpm where
  opens _ := rfl
  gives _ want _ h32 := by
    have hpack : packU16 want = [0, UInt8.ofNat want] := by
      rw [packU16, beBytes, beBytes, beBytes, Nat.mul_zero, Nat.shiftRight_zero,
        show want >>> (8 * 1) = 0 from Nat.shiftRight_eq_zero want 8 (by omega)]
      rfl
    refine ⟨_, rfl, ?_, ?_⟩
    · rw [buildGetRandomCmd, finishCmd, hpack]
      rfl
    · rw [buildGetRandomCmd, finishCmd, hpack]
      change beNat [0, UInt8.ofNat want] = want
      have hwant : want < 256 := by omega
      rw [beNat_cons, beNat_cons, beNat_nil, UInt8.toNat_ofNat', Nat.mod_eq_of_lt hwant]
      simp

/-- The constant TPM gives 16 bytes. -/
theorem constantTpm_gives : (∃ out u, constantTpm.tpmGetRandom 16 () = (.ok out, u)) ↔ 16 ≤ 512 :=
  tpmGetRandom_generous_iff constantTpm constantTpm_generous 16 ()

end FdoUefi
