import FdoUefi.Lemmas.TpmParsers
import FdoUefi.Lib.Total

/-!
# What the client reads out of a response

A TPM, or whatever stands in its place, may answer with any bytes. The parsers of the responses return for all of them, but for one:
`tpm_read_public` reads the scheme of a key behind an authorization policy whose size it has not checked.
-/

namespace FdoUefi

open Prog Outcome TpmParsersAux

/-- The parsers of the responses return for all bytes, and a value exactly for the layout it asks for. -/
theorem tpm_parsers_exact :
    ParsesExactly parseNvReadPublicResponse NvPublicLayout ∧ ParsesExactly parseNvReadResponse DataLayout ∧
      ParsesExactly parseHmacResponse DataLayout ∧ ParsesExactly parseEcdhZgenResponse SecretLayout ∧
        ParsesExactly parseSignResponse SignatureLayout ∧ ParsesExactly parseCreatePrimaryResponse KeyLayout :=
  ⟨parseNvReadPublicResponse_exact, parseNvReadResponse_exact, parseHmacResponse_exact, parseEcdhZgenResponse_exact,
    parseSignResponse_exact, parseCreatePrimaryResponse_exact⟩

/-! ## The public area of a key -/

/-- What `tpm_read_public` has checked before it reads the scheme: the size of the response, a public area of `area` bytes inside of
the buffer, the type of the key, and a policy said to have `policy` bytes. -/
structure EccHeader (response : Bytes) (area policy : Nat) : Prop where
  size : ∃ n, 14 ≤ n ∧ n < 2 ^ 32 ∧ At response 2 (beBytes 4 n)
  area : area < 2 ^ 16 ∧ At response 10 (beBytes 2 area) ∧ 12 + area ≤ response.length ∧ 14 ≤ area
  type : At response 12 (beBytes 2 tpm2AlgEcc)
  policy : policy < 2 ^ 16 ∧ At response 20 (beBytes 2 policy)

/-- The point of a key whose scheme is `scheme`: the null scheme has no hash. -/
def PointLayout (xy : Bytes × Bytes) (response : Bytes) : Prop :=
  ∃ area policy, EccHeader response area policy ∧ ∃ scheme < 2 ^ 16, At response (24 + policy) (beBytes 2 scheme) ∧
    ∃ p q, Sized response ((if scheme ≠ tpm2AlgNull then 32 else 30) + policy) xy.1 p ∧ Sized response p xy.2 q ∧ q ≤ 12 + area

/-- Behind the scheme nothing panics. -/
theorem readPoint_returns {response : Bytes} {area pos : Nat} (h : 12 + area ≤ response.length) :
    (do
      let (x, pos') ← sizedUpTo response (12 + area) pos
      let (y, _) ← sizedUpTo response (12 + area) pos'
      return (x, y) : Outcome Unit (Bytes × Bytes)).Returns :=
  bind_returns (sizedUpTo_returns h) fun _ _ => bind_returns (sizedUpTo_returns h) fun _ _ => trivial

/-- `tpm_read_public` panics exactly when the policy is said to reach so far that the scheme would stand beyond the buffer. -/
theorem parseReadPublicResponse_panic_iff (response : Bytes) :
    parseReadPublicResponse response = .panic ↔
      response.length < 6 ∨ ∃ area policy, EccHeader response area policy ∧ response.length < 26 + policy := by
  unfold parseReadPublicResponse
  constructor
  · intro h
    rcases bind_panic_iff.1 h with hsize | ⟨n, hn, h⟩
    · have hrange := unpackAt_panic_iff.1 hsize
      left
      omega
    obtain ⟨hmin, h⟩ := ensure_bind_panic_iff.1 h
    obtain ⟨hlen, h⟩ := ensure_bind_panic_iff.1 h
    rcases bind_panic_iff.1 h with harea | ⟨area, harea, h⟩
    · exact absurd ⟨by decide, hlen⟩ (unpackAt_panic_iff.1 harea)
    obtain ⟨hinside, h⟩ := ensure_bind_panic_iff.1 h
    rcases bind_panic_iff.1 h with htype | ⟨type, htype, h⟩
    · exact absurd ⟨by decide, by omega⟩ (unpackAt_panic_iff.1 htype)
    obtain ⟨hlen', h⟩ := ensure_bind_panic_iff.1 h
    rcases bind_panic_iff.1 h with hpolicy | ⟨policy, hpolicy, h⟩
    · exact absurd ⟨by decide, hlen'⟩ (unpackAt_panic_iff.1 hpolicy)
    obtain ⟨hecc, h⟩ := ensure_bind_panic_iff.1 h
    rcases bind_panic_iff.1 h with hscheme | ⟨scheme, -, h⟩
    · right
      have hsize := (unpackAt_ok_iff_word (k := 4)).1 hn
      have harea' := (unpackAt_ok_iff_word (k := 2)).1 harea
      have htype' := (unpackAt_ok_iff_word (k := 2)).1 htype
      have hpolicy' := (unpackAt_ok_iff_word (k := 2)).1 hpolicy
      have hrange := unpackAt_panic_iff.1 hscheme
      exact ⟨area, policy, ⟨⟨n, hmin, hsize⟩, ⟨harea'.1, harea'.2, hinside⟩, hecc ▸ htype'.2, hpolicy'⟩, by omega⟩
    · exact absurd h (ne_panic (readPoint_returns hinside.1))
  · rintro (hshort | ⟨area, policy, header, hbeyond⟩)
    · exact bind_panic_iff.2 (.inl (unpackAt_panic_iff.2 (by omega)))
    obtain ⟨⟨n, hmin, hsize⟩, ⟨harea, harea', hinside, h14⟩, htype, hpolicy⟩ := header
    refine bind_panic_iff.2 (.inr ⟨n, (unpackAt_ok_iff_word (k := 4)).2 hsize, ?_⟩)
    refine ensure_bind_panic_iff.2 ⟨hmin, ensure_bind_panic_iff.2 ⟨by omega, ?_⟩⟩
    refine bind_panic_iff.2 (.inr ⟨area, (unpackAt_ok_iff_word (k := 2)).2 ⟨harea, harea'⟩, ?_⟩)
    refine ensure_bind_panic_iff.2 ⟨⟨hinside, h14⟩, ?_⟩
    refine bind_panic_iff.2 (.inr ⟨tpm2AlgEcc, (unpackAt_ok_iff_word (k := 2)).2 ⟨by decide, htype⟩, ?_⟩)
    refine ensure_bind_panic_iff.2 ⟨by omega, ?_⟩
    refine bind_panic_iff.2 (.inr ⟨policy, (unpackAt_ok_iff_word (k := 2)).2 hpolicy, ?_⟩)
    refine ensure_bind_panic_iff.2 ⟨rfl, ?_⟩
    exact bind_panic_iff.2 (.inl (unpackAt_panic_iff.2 (by omega)))

/-- Where it returns a point, the response has one in the layout that its scheme asks for. -/
theorem parseReadPublicResponse_ok_iff (response : Bytes) (xy : Bytes × Bytes) :
    parseReadPublicResponse response = .ok xy ↔ PointLayout xy response := by
  unfold parseReadPublicResponse
  constructor
  · intro h
    obtain ⟨n, hn, h⟩ := bind_ok_iff.1 h
    obtain ⟨_, hmin, h⟩ := bind_ok_iff.1 h
    obtain ⟨_, -, h⟩ := bind_ok_iff.1 h
    obtain ⟨area, harea, h⟩ := bind_ok_iff.1 h
    obtain ⟨_, hinside, h⟩ := bind_ok_iff.1 h
    obtain ⟨type, htype, h⟩ := bind_ok_iff.1 h
    obtain ⟨_, -, h⟩ := bind_ok_iff.1 h
    obtain ⟨policy, hpolicy, h⟩ := bind_ok_iff.1 h
    obtain ⟨_, hecc, h⟩ := bind_ok_iff.1 h
    obtain ⟨scheme, hscheme, h⟩ := bind_ok_iff.1 h
    obtain ⟨⟨x, p⟩, hx, h⟩ := bind_ok_iff.1 h
    obtain ⟨⟨y, q⟩, hy, h⟩ := bind_ok_iff.1 h
    cases pure_ok_iff.1 h
    obtain rfl := ensure_ok_iff.1 hecc
    have harea' := (unpackAt_ok_iff_word (k := 2)).1 harea
    have hheader : EccHeader response area policy :=
      ⟨⟨n, ensure_ok_iff.1 hmin, (unpackAt_ok_iff_word (k := 4)).1 hn⟩, ⟨harea'.1, harea'.2, ensure_ok_iff.1 hinside⟩,
        ((unpackAt_ok_iff_word (k := 2)).1 htype).2, (unpackAt_ok_iff_word (k := 2)).1 hpolicy⟩
    rw [show 26 + policy = 24 + policy + 2 by omega] at hscheme
    obtain ⟨hscheme, hscheme'⟩ := unpackAt_ok_iff_word.1 hscheme
    refine ⟨area, policy, hheader, scheme, hscheme, hscheme', p, q, ?_, (sizedUpTo_ok_iff.1 hy).1, (sizedUpTo_ok_iff.1 hy).2⟩
    rw [ite_add]
    exact (sizedUpTo_ok_iff.1 hx).1
  · rintro ⟨area, policy, header, scheme, hscheme, hscheme', p, q, hx, hy, hq⟩
    obtain ⟨⟨n, hmin, hsize⟩, ⟨harea, harea', hinside, h14⟩, htype, hpolicy⟩ := header
    have hp : p ≤ 12 + area := by
      have hq' := hy.2.2
      omega
    rw [ite_add] at hx
    refine bind_ok_iff.2 ⟨n, (unpackAt_ok_iff_word (k := 4)).2 hsize, bind_ok_iff.2 ⟨(), ensure_ok_iff.2 hmin, ?_⟩⟩
    refine bind_ok_iff.2 ⟨(), ensure_ok_iff.2 (by omega), ?_⟩
    refine bind_ok_iff.2 ⟨area, (unpackAt_ok_iff_word (k := 2)).2 ⟨harea, harea'⟩, ?_⟩
    refine bind_ok_iff.2 ⟨(), ensure_ok_iff.2 ⟨hinside, h14⟩, ?_⟩
    refine bind_ok_iff.2 ⟨tpm2AlgEcc, (unpackAt_ok_iff_word (k := 2)).2 ⟨by decide, htype⟩, ?_⟩
    refine bind_ok_iff.2 ⟨(), ensure_ok_iff.2 (by omega), ?_⟩
    refine bind_ok_iff.2 ⟨policy, (unpackAt_ok_iff_word (k := 2)).2 hpolicy, bind_ok_iff.2 ⟨(), ensure_ok_iff.2 rfl, ?_⟩⟩
    refine bind_ok_iff.2 ⟨scheme, ?_, ?_⟩
    · rw [show 26 + policy = 24 + policy + 2 by omega]
      exact unpackAt_ok_iff_word.2 ⟨hscheme, hscheme'⟩
    refine bind_ok_iff.2 ⟨(xy.1, p), sizedUpTo_ok_iff.2 ⟨hx, hp⟩, ?_⟩
    exact bind_ok_iff.2 ⟨(xy.2, q), sizedUpTo_ok_iff.2 ⟨hy, hq⟩, rfl⟩

/-- Reading a point from a response returns, or it panics. -/
theorem parseReadPublicResponse_ne_hang (response : Bytes) : parseReadPublicResponse response ≠ .hang := by
  refine bind_ne_hang unpackAt_ne_hang fun size => bind_ne_hang ensure_ne_hang fun _ => ?_
  refine bind_ne_hang ensure_ne_hang fun _ => bind_ne_hang unpackAt_ne_hang fun area => ?_
  refine bind_ne_hang ensure_ne_hang fun _ => bind_ne_hang unpackAt_ne_hang fun type => ?_
  refine bind_ne_hang ensure_ne_hang fun _ => bind_ne_hang unpackAt_ne_hang fun policy => ?_
  refine bind_ne_hang ensure_ne_hang fun _ => bind_ne_hang unpackAt_ne_hang fun scheme => ?_
  exact bind_ne_hang sizedUpTo_ne_hang fun x => bind_ne_hang sizedUpTo_ne_hang fun y => by nofun

/-- What becomes of the response to TPM2_ReadPublic, whatever it is: a panic, the point in it, or `None`. -/
theorem parseReadPublicResponse_outcome (response : Bytes) :
    (parseReadPublicResponse response = .panic ↔
      response.length < 6 ∨ ∃ area policy, EccHeader response area policy ∧ response.length < 26 + policy) ∧
    (∀ xy, parseReadPublicResponse response = .ok xy ↔ PointLayout xy response) ∧
    (parseReadPublicResponse response = .err () ↔
      ¬(response.length < 6 ∨ ∃ area policy, EccHeader response area policy ∧ response.length < 26 + policy) ∧
        ∀ xy, ¬PointLayout xy response) := by
  refine ⟨parseReadPublicResponse_panic_iff response, parseReadPublicResponse_ok_iff response, ?_⟩
  rw [← parseReadPublicResponse_panic_iff]
  simp only [← parseReadPublicResponse_ok_iff]
  have hhang := parseReadPublicResponse_ne_hang response
  cases h : parseReadPublicResponse response with
  | ok xy => simp
  | err e => simp
  | panic => simp
  | hang => exact absurd h hhang

/-! ## Against every TPM -/

/-- The size of the point that a peer sends is checked before it is cut out. -/
theorem parsePeerKey_returns (peerKeyFdo : Bytes) : (Tcg.parsePeerKey peerKeyFdo).Returns := by
  refine bind_returns ensure_returns fun _ hmin => ?_
  have hmin' := ensure_ok_iff.1 hmin
  refine bind_returns (unpackAt_returns (by decide) (by omega)) fun xLen _ => bind_returns ensure_returns fun _ hx => ?_
  have hx' := ensure_ok_iff.1 hx
  refine bind_returns (cutAt_returns (by omega) (by omega)) fun x _ => ?_
  refine bind_returns (unpackAt_returns (by omega) (by omega)) fun yLen _ => bind_returns ensure_returns fun _ hy => ?_
  exact bind_returns (cutAt_returns (by omega) (ensure_ok_iff.1 hy)) fun _ _ => trivial

section Total

variable {σ : Type} {T : Tcg σ}

/-- Parsing a response comes back if the parser does. -/
theorem parsed_total {ε α : Type} {o : Outcome Unit α} {e : ε} (h : o.Returns) : Total (Tcg.parsed o e : Run σ ε α) :=
  .mapErr (fun _ => h) _

/-- Opening the TPM comes back. -/
theorem openTcg_total : Total T.openTcg := by
  intro s
  change (if (T.opens s).1 then Outcome.ok () else Outcome.err () : Outcome Unit Unit).Returns
  split <;> trivial

/-- A buffer that is long enough for a response code is all that the loop needs. -/
theorem submitLoop_total {cmd : Bytes} {n : Nat} (k : Nat) : Total (T.submitLoop cmd n k) := by
  induction k with
  | zero => exact .fail _
  | succ k ih =>
    refine .bind (fun _ => trivial) fun response => ?_
    cases response with
    | none => exact ih
    | some b =>
      intro s
      refine Run.bind_returns Run.ensure_returns fun _ t hlen => ?_
      have hcode : (unpackAt b 6 10).Returns := unpackAt_returns (by decide) (Run.ensure_ok_iff.1 hlen).1
      refine Total.bind (parsed_total hcode) (fun rc => ?_) t
      exact .ite (fun _ => ih) fun _ => .ite (fun _ => .fail _) fun _ => .pure _

/-- Submitting a command comes back. -/
theorem tpmSubmit_total {cmd : Bytes} {n : Nat} : Total (T.tpmSubmit cmd n) := .mapErr (submitLoop_total _) _

/-- Submitting a command whose result is ignored comes back. -/
theorem bestEffort_total {ε : Type} {cmd : Bytes} {n : Nat} : Total (T.bestEffort cmd n : Run σ ε Unit) :=
  .bind (fun _ => trivial) fun _ => .pure ()

/-- Making a key persistent, or flushing it, comes back. -/
theorem persistOrFlush_total {handle persistentHandle : Nat} : Total (T.persistOrFlush handle persistentHandle) := by
  refine .bind tpmSubmit_total.attempt fun r => ?_
  cases r with
  | some _ => exact .pure ()
  | none => exact .bind bestEffort_total fun _ => .fail _

/-- An HMAC, or a flush, comes back. -/
theorem hmacOrFlush_total {handle : Nat} {data : Bytes} : Total (T.hmacOrFlush handle data) := by
  refine .bind (Total.bind tpmSubmit_total fun b => parsed_total (parseHmacResponse_exact.returns b)).attempt fun r => ?_
  cases r with
  | some value => exact .pure value
  | none => exact .bind bestEffort_total fun _ => .fail _

/-- Defining an index comes back. -/
theorem defineSpace_total {nvIndex size attributes : Nat} : Total (T.defineSpace nvIndex size attributes) := by
  refine .bind (submitLoop_total _).caught fun r => ?_
  cases r with
  | ok _ => exact .pure ()
  | error code => exact .ensure

end Total

/-- The functions of the client come back. -/
structure ClientReturns {σ : Type} (T : Tcg σ) : Prop where
  createEcdhKey : Total T.tpmCreateEcdhKey
  ecdhComputeSecret : ∀ key x y, Total (T.tpmEcdhComputeSecret key x y)
  ecdhDerive : ∀ key peer, Total (T.tpmEcdhDerive key peer)
  flushContext : ∀ handle, Total (T.tpmFlushContext handle)
  createSigningKey : ∀ persistent, Total (T.tpmCreateAndPersistSigningKey persistent)
  createHmac : ∀ data persistent, Total (T.tpmCreateHmacAndPersist data persistent)
  hmac : ∀ key data, Total (T.tpmHmac key data)
  signEcdsa : ∀ key digest, Total (T.tpmSignEcdsa key digest)
  signWithPersistent : ∀ key digest, Total (T.tpmSignWithPersistent key digest)
  evictControl : ∀ transient persistent, Total (T.tpmEvictControl transient persistent)
  nvRead : ∀ index, Total (T.tpmNvRead index)
  nvWrite : ∀ index data attributes, Total (T.tpmNvWrite index data attributes)
  nvWriteInPlace : ∀ index data, Total (T.tpmNvWriteInPlace index data)

/-- Whatever the firmware and the TPM do, the client comes back from each of its functions. -/
theorem tcg_clientReturns {σ : Type} (T : Tcg σ) : ClientReturns T := by
  have hcompute : ∀ key x y, Total (T.tpmEcdhComputeSecret key x y) := fun key x y =>
    openTcg_total.bind fun _ => tpmSubmit_total.bind fun b => parsed_total (parseEcdhZgenResponse_exact.returns b)
  have hsign : ∀ b, (parseSignResponse b).Returns := parseSignResponse_exact.returns
  constructor
  case createEcdhKey =>
    exact openTcg_total.bind fun _ => tpmSubmit_total.bind fun b => parsed_total (parseCreatePrimaryResponse_exact.returns b)
  case ecdhComputeSecret => exact hcompute
  case ecdhDerive => exact fun key peer => (parsed_total (parsePeerKey_returns peer)).bind fun xy => hcompute key xy.1 xy.2
  case flushContext => exact fun handle => (openTcg_total.bind fun _ => bestEffort_total).ignored
  case createSigningKey =>
    intro persistent
    refine openTcg_total.bind fun _ => bestEffort_total.bind fun _ => tpmSubmit_total.bind fun b => ?_
    exact (parsed_total (parseCreatePrimaryResponse_exact.returns b)).bind fun key => persistOrFlush_total.bind fun _ => .pure _
  case createHmac =>
    intro data persistent
    refine openTcg_total.bind fun _ => bestEffort_total.bind fun _ => tpmSubmit_total.bind fun b => ?_
    intro s
    refine Run.bind_returns Run.ensure_returns fun _ t hlen => ?_
    have hhandle : (unpackAt b 10 14).Returns := unpackAt_returns (by decide) (Run.ensure_ok_iff.1 hlen).1
    refine Total.bind (parsed_total hhandle) (fun handle => ?_) t
    exact hmacOrFlush_total.bind fun value => persistOrFlush_total.ignored.bind fun _ => .pure _
  case hmac =>
    exact fun key data => openTcg_total.bind fun _ => tpmSubmit_total.bind fun b => parsed_total (parseHmacResponse_exact.returns b)
  case signEcdsa =>
    exact fun key digest => openTcg_total.bind fun _ => tpmSubmit_total.bind fun b => (parsed_total (hsign b)).bind fun rs => .pure _
  case signWithPersistent =>
    exact fun key digest => openTcg_total.bind fun _ => tpmSubmit_total.bind fun b => (parsed_total (hsign b)).bind fun rs => .pure _
  case evictControl => exact fun transient persistent => openTcg_total.bind fun _ => tpmSubmit_total.bind fun _ => .pure ()
  case nvRead =>
    intro index
    refine openTcg_total.bind fun _ => tpmSubmit_total.bind fun b => ?_
    refine (parsed_total (parseNvReadPublicResponse_exact.returns b)).bind fun size => tpmSubmit_total.bind fun b' => ?_
    exact parsed_total (parseNvReadResponse_exact.returns b')
  case nvWrite =>
    intro index data attributes
    refine openTcg_total.bind fun _ => bestEffort_total.bind fun _ => defineSpace_total.bind fun _ => ?_
    exact tpmSubmit_total.bind fun _ => .pure ()
  case nvWriteInPlace => exact fun index data => openTcg_total.bind fun _ => tpmSubmit_total.bind fun _ => .pure ()

/-- What is submitted with success has a response code. -/
theorem submitLoop_ok_length {σ : Type} {T : Tcg σ} {cmd b : Bytes} {n : Nat} (k : Nat) {s u : σ}
    (h : T.submitLoop cmd n k s = (.ok b, u)) : 10 ≤ b.length := by
  induction k generalizing s with
  | zero => nomatch h
  | succ k ih =>
    obtain ⟨response, t, -, h⟩ := Run.bind_ok_iff.1 h
    cases response with
    | none => exact ih h
    | some r =>
      obtain ⟨_, t₁, hlen, h⟩ := Run.bind_ok_iff.1 h
      obtain ⟨rc, t₂, -, h⟩ := Run.bind_ok_iff.1 h
      split_ifs at h
      · exact ih h
      · nomatch h
      · obtain ⟨rfl, -⟩ := Run.pure_ok_iff.1 h
        exact (Run.ensure_ok_iff.1 hlen).1

/-- `tpm_read_public` comes back, unless the response is that of an ECC key with a policy that reaches so far that the scheme
would stand beyond the buffer. -/
theorem tpmReadPublic_returns_iff {σ : Type} (T : Tcg σ) (handle : Nat) (s : σ) :
    (T.tpmReadPublic handle s).1.Returns ↔
      ∀ response u, (T.openTcg >>= fun _ => T.tpmSubmit (buildReadPublicCmd handle) 512) s = (.ok response, u) →
        ¬∃ area policy, EccHeader response area policy ∧ response.length < 26 + policy := by
  have hsubmit : Total (T.openTcg >>= fun _ => T.tpmSubmit (buildReadPublicCmd handle) 512) := openTcg_total.bind fun _ => tpmSubmit_total
  have hparse : ∀ response u, (Tcg.parsed (parseReadPublicResponse response) () u : Outcome Unit (Bytes × Bytes) × σ).1.Returns ↔
      parseReadPublicResponse response ≠ .panic := by
    intro response u
    have hhang := parseReadPublicResponse_ne_hang response
    cases h : parseReadPublicResponse response with
    | ok xy => exact ⟨fun _ => by nofun, fun _ => trivial⟩
    | err e => exact ⟨fun _ => by nofun, fun _ => trivial⟩
    | panic => exact ⟨fun hret => hret.elim, fun hne => absurd rfl hne⟩
    | hang => exact absurd h hhang
  unfold Tcg.tpmReadPublic
  rw [← bind_assoc, Prog.bind_returns_iff, and_iff_right (hsubmit s)]
  refine forall_congr' fun response => forall_congr' fun u => imp_congr_right fun hok => ?_
  obtain ⟨_, t, -, hok⟩ := Run.bind_ok_iff.1 hok
  have hlen : 10 ≤ response.length := submitLoop_ok_length tpmRetryMax (Run.mapErr_ok_iff.1 hok)
  rw [hparse, Ne, parseReadPublicResponse_panic_iff, or_iff_right (by omega)]

end FdoUefi
