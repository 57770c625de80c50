import FdoUefi.Lib.Yields
import FdoUefi.Lemmas.RoundTrip
import FdoUefi.Lemmas.SigStructure
import FdoUefi.Theorems.To2

/-!
# The cipher suite that ProveDevice20 names

The Owner offers cipher suites in HelloDeviceAck20. The device names the first of them, cut to eight bits, in the payload that it
signs, and encrypts with A256GCM whatever was offered.
-/

namespace FdoUefi

open Prog Prog.Run Cbor

/-- The integer at the cursor, if there is one. The cursor stays. -/
def Dec.peekInt (d : Bytes) : Dec.R (Option Int) where
  run c := (.ok (Dec.readInt d c).1.toOption, c)

/-- The cipher suites that a HelloDeviceAck20 offers, as its parser comes to them: it reads the first and steps over the others. -/
def offeredSuites (fuel : Nat) (data : Bytes) : Dec.R (List Int) := do
  let arrLen ← Dec.readArrayLen data
  ensure (arrLen = 8) (cborErr "not a HelloDeviceAck20")
  let _capabilityFlags ← Dec.readBytes data
  Dec.skipValue data fuel
  Dec.skipValue data fuel
  let _maxOwnerMsgSize ← Dec.readUint data
  let kexLen ← Dec.readArrayLen data
  let _kexSuites ← collectN kexLen (Dec.readText data)
  let cipherLen ← Dec.readArrayLen data
  if cipherLen = 0 then return []
  else
    let first ← Dec.readInt data
    let others ← collectN (cipherLen - 1) (do
      let suite ← Dec.peekInt data
      Dec.skipValue data fuel
      return suite)
    return first :: others.reduceOption

/-- A256GCM, the suite of `cose_encrypt0_a256gcm`. -/
def a256gcm : Int := 3

/-- A payload is an array of five items whose second one is read as the suite `s`. -/
def NamesSuite (payload : Bytes) (s : Int) : Prop :=
  ∃ xs x, IsArray Head.Rfc payload xs ∧ xs.length = 5 ∧ xs[1]? = some x ∧ Dec.eval (Dec.readInt x) = .ok s

/-- Whatever the key and the random bytes of the TPM are, the payload of ProveDevice20 names a suite that the Owner has offered,
and the one that the device encrypts with. -/
def SuiteAgreed (Γ : Ctx) (hello : To2Hello) (offered : List Int) : Prop :=
  ∀ publicX publicY random nonce : Bytes, publicX.length = 32 → publicY.length = 32 → random.length = 16 → nonce.length = 16 →
    ∃ s ∈ offered, s = a256gcm ∧
      NamesSuite (buildTo2ProveDevicePayload kexSuite20 hello.ack.cipherSuite (buildXa publicX publicY random) nonce
        (Γ.sha256 hello.raw)) s

namespace Aux

/-! ## The offer -/

/-- What is stepped over can be looked at on the way. -/
theorem collectN_peekInt {fuel n : Nat} {data : Bytes} {c c' : Cur} (h : repeatN n (Dec.skipValue data fuel) c = (.ok (), c')) :
    ∃ others, collectN n (do
      let suite ← Dec.peekInt data
      Dec.skipValue data fuel
      return suite : Dec.R (Option Int)) c = (.ok others, c') := by
  induction n generalizing c with
  | zero =>
    obtain rfl := repeatN_zero_ok_iff.1 h
    exact ⟨[], rfl⟩
  | succ n ih =>
    obtain ⟨c₁, hskip, hrest⟩ := repeatN_succ_ok_iff.1 h
    obtain ⟨others, hothers⟩ := ih hrest
    refine ⟨(Dec.readInt data c).1.toOption :: others, ?_⟩
    have hpeek : Dec.peekInt data c = (.ok (Dec.readInt data c).1.toOption, c) := rfl
    have hone : (do
        let suite ← Dec.peekInt data
        Dec.skipValue data fuel
        return suite : Dec.R (Option Int)) c = (.ok (Dec.readInt data c).1.toOption, c₁) := by
      rw [bind_of_ok hpeek, bind_of_ok hskip, pure_apply]
    rw [collectN, bind_of_ok hone, bind_of_ok hothers, pure_apply]

/-- The acknowledgement of FDO 1.1 has no hash, and its type is given as 0. -/
theorem parseTo2HelloDeviceAck5_noHash (fuel : Nat) (data : Bytes) :
    Yields (parseTo2HelloDeviceAck5 fuel data) fun ack => ack.hashPrevType = 0 := by
  unfold parseTo2HelloDeviceAck5
  refine Yields.next fun first => Yields.ite (fun _ => ?_) fun _ => ?_
  · exact Yields.next fun code => Yields.next fun previous => Yields.next fun text => Yields.fail
  · unfold parseTo2HelloDeviceAckV11
    refine Yields.next fun nonce => Yields.next fun _ => Yields.next fun _ => Yields.next fun size => ?_
    exact Yields.next fun suite => Yields.next fun _ => Yields.pure rfl

/-- An acknowledgement of FDO 2.0 that is accepted offers a list of suites, and the one that is taken is the first of them. -/
theorem offeredSuites_of_ack {Γ : Ctx} {fuel : Nat} {data : Bytes} {ack : To2HelloDeviceAck}
    (hparse : Dec.eval (parseTo2HelloDeviceAck Γ fuel data) = .ok ack) (htype : ack.hashPrevType = hashTypeSha256) :
    ∃ suites, Dec.eval (offeredSuites fuel data) = .ok suites ∧ ack.cipherSuite = asI8 (suites.headD 0) := by
  unfold Dec.eval parseTo2HelloDeviceAck at hparse
  obtain ⟨arrLen, c₁, hlen, hparse⟩ := bind_fst_ok_iff.1 hparse
  by_cases h5 : arrLen = 5
  · rw [if_pos h5] at hparse
    have h0 : ack.hashPrevType = 0 := (parseTo2HelloDeviceAck5_noHash fuel data).fst hparse
    rw [h0] at htype
    cases htype
  · rw [if_neg h5] at hparse
    unfold parseTo2HelloDeviceAck8 at hparse
    obtain ⟨_, c₁, hens, r₁⟩ := bind_fst_ok_iff.1 hparse
    obtain ⟨caps, c₂, hcaps, r₂⟩ := bind_fst_ok_iff.1 r₁
    obtain ⟨_, c₃, hvendor, r₃⟩ := bind_fst_ok_iff.1 r₂
    obtain ⟨_, c₄, hguid, r₄⟩ := bind_fst_ok_iff.1 r₃
    obtain ⟨size, c₅, hsize, r₅⟩ := bind_fst_ok_iff.1 r₄
    obtain ⟨kexLen, c₆, hkexLen, r₆⟩ := bind_fst_ok_iff.1 r₅
    obtain ⟨kex, c₇, hkex, r₇⟩ := bind_fst_ok_iff.1 r₆
    obtain ⟨_, c₈, hselect, r₈⟩ := bind_fst_ok_iff.1 r₇
    obtain ⟨cipherLen, c₉, hcipherLen, r₉⟩ := bind_fst_ok_iff.1 r₈
    obtain ⟨suite, c₁₀, hsuite, r₁₀⟩ := bind_fst_ok_iff.1 r₉
    obtain ⟨_, c₁₁, hskip, r₁₁⟩ := bind_fst_ok_iff.1 r₁₀
    obtain ⟨nonce, c₁₂, -, r₁₂⟩ := bind_fst_ok_iff.1 r₁₁
    obtain ⟨hashLen, c₁₃, -, r₁₃⟩ := bind_fst_ok_iff.1 r₁₂
    obtain ⟨type, c₁₄, -, r₁₄⟩ := bind_fst_ok_iff.1 r₁₃
    obtain ⟨prev, c₁₅, -, hresult⟩ := bind_fst_ok_iff.1 r₁₄
    obtain ⟨h8, rfl⟩ := ensure_ok_iff.1 hens
    obtain rfl := Outcome.ok.inj hresult
    obtain ⟨-, rfl⟩ := ofOutcome_ok_iff.1 hselect
    dsimp only
    unfold Dec.eval offeredSuites
    rw [bind_of_ok hlen, ensure_of_true _ h8, bind_of_ok (pure_apply () _), bind_of_ok hcaps, bind_of_ok hvendor, bind_of_ok hguid,
      bind_of_ok hsize, bind_of_ok hkexLen, bind_of_ok hkex, bind_of_ok hcipherLen]
    by_cases h0 : cipherLen = 0
    · rw [if_neg (by omega)] at hsuite
      obtain ⟨rfl, -⟩ := pure_ok_iff.1 hsuite
      rw [if_pos h0]
      exact ⟨[], rfl, rfl⟩
    · rw [if_pos (by omega)] at hsuite
      obtain ⟨others, hothers⟩ := collectN_peekInt hskip
      rw [if_neg h0, bind_of_ok hsuite, bind_of_ok hothers]
      exact ⟨suite :: others.reduceOption, rfl, rfl⟩

/-! ## The payload -/

/-- A string that the encoder writes is one item, if its length fits the head. -/
theorem encStr_item {m : Nat} (hm : m = 2 ∨ m = 3) {s : Bytes} (hs : s.length < 2 ^ 16) :
    Item Head.Rfc (Enc.head m s.length ++ s) := by
  obtain ⟨hd, hb, hmaj, harg, h26⟩ := encHead_head (m := m) (n := s.length) (by omega)
  rw [hb]
  have hrfc : hd.Rfc := Head.rfc_of_major_lt hmaj (by omega) (by omega)
  refine Item.str hd s hrfc ?_ (by rw [harg, Nat.mod_eq_of_lt hs])
  rcases hm with rfl | rfl
  · exact .inl hmaj
  · exact .inr hmaj

/-- The name of the suite is an item. -/
theorem kexSuite20_item : Item Head.Rfc (Enc.text kexSuite20) := encStr_item (.inr rfl) (by decide)

/-- What the second item is read as shows the byte that was pushed for it: with the key at hand no longer head gives this value. -/
theorem byte_of_names {c : UInt8} {rest : Bytes}
    (h : NamesSuite ([0x85] ++ (Enc.text kexSuite20 ++ ([c] ++ (0x58 :: 86 :: 0 :: 32 :: 0 :: 0 :: 0 :: 0 :: rest)))) a256gcm) :
    c = 3 := by
  obtain ⟨xs, x, ⟨hd, -, hm, -, heq, hitems⟩, -, hx, hread⟩ := h
  obtain ⟨-, hflat⟩ := Head.append_inj (h := ⟨0x85, [], by decide, .inl (by decide)⟩) heq
  rcases xs with _ | ⟨x₀, _ | ⟨x₁, tl⟩⟩
  · cases hx
  · cases hx
  obtain rfl : x₁ = x := Option.some.inj hx
  rw [List.flatten_cons, List.flatten_cons] at hflat
  obtain ⟨-, hflat⟩ := Items.append_inj kexSuite20_item (hitems x₀ (by simp)) hflat
  obtain ⟨k, r, hrfc, rfl, -⟩ := Item.exists_head (hitems x₁ (by simp))
  rw [List.append_assoc, Head.bytes, List.cons_append, List.cons_append, List.nil_append, List.cons.injEq] at hflat
  obtain ⟨rfl, htail⟩ := hflat
  have hcut : k.tail = (0x58 :: 86 :: 0 :: 32 :: 0 :: 0 :: 0 :: 0 :: rest).take (extLen (additional k.initial)) := by
    rw [htail, ← k.tail_length, List.take_left]
  have hat : At (k.bytes ++ r) 0 k.bytes := at_zero_iff.2 ⟨r, rfl⟩
  have hfits : 0 + k.bytes.length < wordSize := by
    rw [k.bytes_length]
    have hext : extLen (additional k.initial) ≤ 8 := by
      unfold extLen
      split <;> omega
    unfold wordSize
    omega
  have hvalue : k.IsMajor 0 ∧ a256gcm = asI32 k.arg ∨ k.IsMajor 1 ∧ a256gcm = -1 - asI32 k.arg :=
    readInt_of_head (c := Cur.start) hat hrfc.1 hfits (eq_of_fst hread)
  have h28 := hrfc.1
  by_cases h24 : additional k.initial < 24
  · have hcast : asI32 k.arg = additional k.initial := by
      rw [Head.arg, argVal, if_pos h24]
      exact asI32_of_range (by omega) (by omega)
    rw [hcast] at hvalue
    unfold a256gcm at hvalue
    rcases hvalue with ⟨hm0, hv⟩ | ⟨-, hv⟩
    · have hadd : additional k.initial = 3 := by omega
      exact initial_ext (c := 3) hm0 (hadd.trans (by decide))
    · omega
  · -- With one to eight argument bytes the value starts with the bytes 0x58 and 86 of the key's head.
    rw [Head.arg, argVal, if_neg h24, hcut] at hvalue
    have hneither : ∀ n, n = 1 ∨ n = 2 ∨ n = 4 ∨ n = 8 → let v := asI32 (beNat ([0x58, 86, 0, 32, 0, 0, 0, 0].take n))
        a256gcm ≠ v ∧ a256gcm ≠ -1 - v := by
      rintro n (rfl | rfl | rfl | rfl) <;> decide
    exfalso
    rcases (by omega : additional k.initial = 24 ∨ additional k.initial = 25 ∨ additional k.initial = 26 ∨
      additional k.initial = 27) with ha | ha | ha | ha <;> rw [ha] at hvalue
    · exact hvalue.elim (fun h => (hneither 1 (by simp)).1 h.2) fun h => (hneither 1 (by simp)).2 h.2
    · exact hvalue.elim (fun h => (hneither 2 (by simp)).1 h.2) fun h => (hneither 2 (by simp)).2 h.2
    · exact hvalue.elim (fun h => (hneither 4 (by simp)).1 h.2) fun h => (hneither 4 (by simp)).2 h.2
    · exact hvalue.elim (fun h => (hneither 8 (by simp)).1 h.2) fun h => (hneither 8 (by simp)).2 h.2

/-- The payload, item by item. -/
theorem payload_eq (cipherSuite : Int) (xa nonce hash : Bytes) :
    buildTo2ProveDevicePayload kexSuite20 cipherSuite xa nonce hash =
      [0x85] ++ [Enc.text kexSuite20, [UInt8.ofNat (cipherSuite % 256).toNat], Enc.bytes xa, Enc.bytes nonce,
        Enc.array 2 ++ Enc.negInt (-16) ++ Enc.bytes hash].flatten := by
  have harray : Enc.array 5 = [0x85] := rfl
  simp [buildTo2ProveDevicePayload, harray]

/-- A hash with its algorithm is an item. -/
theorem hash_item {hash : Bytes} (hhash : hash.length = 32) :
    Item Head.Rfc (Enc.array 2 ++ Enc.negInt (-16) ++ Enc.bytes hash) := by
  have halg : Item Head.Rfc [0x2f] :=
    Item.int ⟨0x2f, [], by decide, .inl (by decide)⟩ (Head.rfc_of_major_lt (by decide : major 0x2f = 1) (by decide) (by decide))
      (.inr (by decide : major 0x2f = 1))
  have hdigest : Item Head.Rfc (Enc.bytes hash) := encStr_item (.inl rfl) (by omega)
  have htwo : Items Head.Rfc (argVal (additional 0x82) [] + 0) ([0x2f] ++ Enc.bytes hash) := halg.append hdigest
  exact Items.array ⟨0x82, [], by decide, .inl (by decide)⟩
    (Head.rfc_of_major_lt (by decide : major 0x82 = 4) (by decide) (by decide)) (by decide : major 0x82 = 4) htwo

/-- With A256GCM the payload is well formed and names that suite. -/
theorem names_a256gcm {xa nonce hash : Bytes} (hxa : xa.length = 86) (hnonce : nonce.length = 16) (hhash : hash.length = 32) :
    NamesSuite (buildTo2ProveDevicePayload kexSuite20 a256gcm xa nonce hash) a256gcm := by
  have hsuite : Item Head.Rfc [3] :=
    Item.int ⟨3, [], by decide, .inl (by decide)⟩ (Head.rfc_of_major_lt (by decide : major 3 = 0) (by decide) (by decide))
      (.inl (by decide : major 3 = 0))
  refine ⟨[Enc.text kexSuite20, [3], Enc.bytes xa, Enc.bytes nonce, Enc.array 2 ++ Enc.negInt (-16) ++ Enc.bytes hash], [3],
    ⟨⟨0x85, [], by decide, .inl (by decide)⟩, Head.rfc_of_major_lt (by decide : major 0x85 = 4) (by decide) (by decide),
      (by decide : major 0x85 = 4), (by decide : argVal (additional 0x85) [] = 5), payload_eq a256gcm xa nonce hash, ?_⟩,
    rfl, rfl, by decide⟩
  intro x hx
  simp only [List.mem_cons, List.not_mem_nil, or_false] at hx
  rcases hx with rfl | rfl | rfl | rfl | rfl
  · exact kexSuite20_item
  · exact hsuite
  · exact encStr_item (.inl rfl) (by omega)
  · exact encStr_item (.inl rfl) (by omega)
  · exact hash_item hhash

/-- The device's part of the key exchange has 86 bytes. -/
theorem buildXa_length {publicX publicY random : Bytes} (hx : publicX.length = 32) (hy : publicY.length = 32)
    (hr : random.length = 16) : (buildXa publicX publicY random).length = 86 := by
  simp [buildXa, kexField, beBytes_length, hx, hy, hr]

/-- What is cut to eight bits is a number of eight bits. -/
theorem asI8_bounds (x : Int) : -128 ≤ asI8 x ∧ asI8 x < 128 := by
  unfold asI8
  exact ⟨Int.le_bmod (by decide), Int.bmod_lt (by decide)⟩

end Aux

/-- Every run of TO2 that goes on after HelloDeviceAck20 has an offer before it. The payload of ProveDevice20 names a suite of the
offer, and the one that is used, exactly when the first suite is 3 modulo 256 and 3 is offered. -/
theorem proveDevice_suite_iff {Γ : Ctx} {fuel : Nat} {w : World} {args : To2Args} {s t : To2State} {hello : To2Hello}
    (hrun : performTo2Hello Γ fuel w args s = (.ok hello, t)) (hsha : (Γ.sha256 hello.raw).length = 32) :
    ∃ suites, Dec.eval (offeredSuites fuel hello.raw) = .ok suites ∧
      (SuiteAgreed Γ hello suites ↔ asI8 (suites.headD 0) = a256gcm ∧ a256gcm ∈ suites) := by
  obtain ⟨sugar, resp, -, -, hraw, hparse, hhash⟩ := Aux.performTo2Hello_ok hrun
  obtain ⟨_, htype, -⟩ := Outcome.bind_ok_iff.1 hhash
  rw [← hraw] at hparse
  obtain ⟨suites, hoffer, hsuite⟩ := Aux.offeredSuites_of_ack hparse (Outcome.ensure_ok_iff.1 htype)
  refine ⟨suites, hoffer, fun hagreed => ?_, fun ⟨hfirst, hmem⟩ => ?_⟩
  · have hzero : (List.replicate 32 (0 : UInt8)).length = 32 := rfl
    have hzero' : (List.replicate 16 (0 : UInt8)).length = 16 := rfl
    obtain ⟨s, hmem, rfl, hnames⟩ := hagreed _ _ _ _ hzero hzero hzero' hzero'
    refine ⟨?_, hmem⟩
    rw [Aux.payload_eq] at hnames
    have hbyte : UInt8.ofNat (hello.ack.cipherSuite % 256).toNat = 3 := Aux.byte_of_names hnames
    have hbounds := Aux.asI8_bounds (suites.headD 0)
    rw [hsuite] at hbyte
    have hnat := congrArg UInt8.toNat hbyte
    simp only [UInt8.toNat_ofNat', UInt8.reduceToNat] at hnat
    unfold a256gcm
    omega
  · intro publicX publicY random nonce hx hy hr hn
    refine ⟨a256gcm, hmem, rfl, ?_⟩
    rw [hsuite, hfirst]
    exact Aux.names_a256gcm (Aux.buildXa_length hx hy hr) hn hsha

/-- The Owner of the sample voucher offers A256GCM and the payload names it. -/
theorem sampleRun_suiteAgreed :
    ∃ hello, (performTo2Hello sampleTo2Ctx 8 sampleWorld sampleTo2Args To2State.new).1 = .ok hello ∧
      Dec.eval (offeredSuites 8 hello.raw) = .ok [a256gcm] ∧ SuiteAgreed sampleTo2Ctx hello [a256gcm] := by
  have hrun : Outcome.okWith (fun hello : To2Hello => Dec.eval (offeredSuites 8 hello.raw) = .ok [a256gcm] ∧
      (sampleTo2Ctx.sha256 hello.raw).length = 32)
      (performTo2Hello sampleTo2Ctx 8 sampleWorld sampleTo2Args To2State.new).1 = true := by decide +kernel
  obtain ⟨hello, hok, hcond⟩ := Outcome.okWith_iff.1 hrun
  obtain ⟨hoffer, hsha⟩ := of_decide_eq_true hcond
  obtain ⟨suites, hsuites, hiff⟩ := proveDevice_suite_iff (eq_of_fst hok) hsha
  obtain rfl : [a256gcm] = suites := Outcome.ok.inj (hoffer.symm.trans hsuites)
  exact ⟨hello, hok, hoffer, hiff.2 ⟨rfl, by simp⟩⟩

/-- The same acknowledgement with A128GCM, 1, as the only suite. -/
def sampleHelloAck128 : Bytes :=
  Enc.array 8 ++ Enc.bytes [capb0SupFdo20] ++ Enc.array 0 ++ Enc.bytes sampleGuid ++ Enc.uint 65535 ++ Enc.array 1 ++
    Enc.text kexSuite20 ++ Enc.array 1 ++ Enc.uint 1 ++ Enc.bytes (sampleRandom 4) ++ Enc.array 2 ++ Enc.negInt (-16) ++
    Enc.bytes sampleProbeHash

def sampleWorld128 : World :=
  { sampleWorld with
    post := fun _ _ msgType body _ =>
      some ⟨if msgType = msgTo2HelloDeviceProbe then sampleHelloAck128 else sampleResponse msgType body, some (utf8 "token"),
        some (msgType + 1)⟩ }

/-- TO2 goes on and sends ProveDevice20, although A256GCM was not offered. -/
theorem sampleRun128_not_agreed :
    ∃ hello, (performTo2Hello sampleTo2Ctx 8 sampleWorld128 sampleTo2Args To2State.new).1 = .ok hello ∧
      Dec.eval (offeredSuites 8 hello.raw) = .ok [1] ∧ ¬SuiteAgreed sampleTo2Ctx hello [1] ∧
      (performTo2 sampleTo2Ctx 8 sampleWorld128 sampleTo2Args To2State.new).2.trace.any (fun
        | .post _ msgType _ _ _ => msgType == msgTo2ProveDevice
        | _ => false) = true := by
  have hrun : Outcome.okWith (fun hello : To2Hello => Dec.eval (offeredSuites 8 hello.raw) = .ok [1])
      (performTo2Hello sampleTo2Ctx 8 sampleWorld128 sampleTo2Args To2State.new).1 = true := by decide +kernel
  obtain ⟨hello, hok, hoffer⟩ := Outcome.okWith_iff.1 hrun
  refine ⟨hello, hok, of_decide_eq_true hoffer, fun hagreed => ?_, by decide +kernel⟩
  have hzero : (List.replicate 32 (0 : UInt8)).length = 32 := rfl
  have hzero' : (List.replicate 16 (0 : UInt8)).length = 16 := rfl
  obtain ⟨s, hmem, rfl, -⟩ := hagreed _ _ _ _ hzero hzero hzero' hzero'
  exact absurd hmem (by decide)

end FdoUefi
