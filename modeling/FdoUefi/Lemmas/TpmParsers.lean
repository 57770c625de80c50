import FdoUefi.TpmWire
import FdoUefi.Lib.Marshal

/-!
# What the parsers of TPM responses accept

Each step of a parser reads at a fixed place, so it returns a value exactly when the bytes of that value stand there. A length that
has been checked first makes the read behind it one that cannot panic.
-/

namespace FdoUefi

open Prog Outcome

namespace TpmParsersAux

variable {response u : Bytes} {a b p q n min : Nat}

/-! ## Reading at a place -/

/-- A piece is cut out exactly where it stands. -/
theorem cutAt_ok_iff : cutAt response a b = .ok u ↔ At response a u ∧ b = a + u.length := by
  rw [← range?_eq_some_iff_at, cutAt]
  cases range? response a b with
  | some v => rw [Outcome.ok.injEq, Option.some.injEq]
  | none =>
    constructor
    · intro h
      cases h
    · intro h
      cases h

/-- A number is unpacked exactly where its bytes stand. -/
theorem unpackAt_ok_iff : unpackAt response a b = .ok n ↔ ∃ u, At response a u ∧ b = a + u.length ∧ n = beNat u := by
  unfold unpackAt
  rw [bind_ok_iff]
  constructor
  · rintro ⟨u, hu, hn⟩
    obtain ⟨hat, hb⟩ := cutAt_ok_iff.1 hu
    exact ⟨u, hat, hb, pure_ok_iff.1 hn⟩
  · rintro ⟨u, hat, hb, hn⟩
    exact ⟨u, cutAt_ok_iff.2 ⟨hat, hb⟩, pure_ok_iff.2 hn⟩

/-- A number of `k` bytes. -/
theorem unpackAt_ok_iff_word {k : Nat} : unpackAt response a (a + k) = .ok n ↔ n < 256 ^ k ∧ At response a (beBytes k n) := by
  rw [unpackAt_ok_iff]
  constructor
  · rintro ⟨u, hat, hk, rfl⟩
    obtain rfl := Nat.add_left_cancel hk
    exact ⟨beNat_lt u, (beBytes_beNat rfl).symm ▸ hat⟩
  · rintro ⟨hlt, hat⟩
    exact ⟨_, hat, by rw [beBytes_length], (beNat_beBytes hlt).symm⟩

/-- A piece within the response is cut out. -/
theorem cutAt_returns (hab : a ≤ b) (hb : b ≤ response.length) : (cutAt response a b).Returns := by
  rw [cutAt, range?, if_pos ⟨hab, hb⟩]
  trivial

/-- A number within the response is unpacked. -/
theorem unpackAt_returns (hab : a ≤ b) (hb : b ≤ response.length) : (unpackAt response a b).Returns :=
  bind_returns (cutAt_returns hab hb) fun _ _ => trivial

/-- Outside of it there is a panic, and only there. -/
theorem unpackAt_panic_iff : (unpackAt response a b : Outcome Unit Nat) = .panic ↔ ¬(a ≤ b ∧ b ≤ response.length) := by
  constructor
  · intro h hab
    have hret := unpackAt_returns hab.1 hab.2
    rw [h] at hret
    exact hret
  · intro h
    rw [unpackAt, cutAt, range?, if_neg h]
    rfl

/-! ## Panics -/

/-- A sequence panics in its first part or in the second one. -/
theorem bind_panic_iff {α β : Type} {o : Outcome Unit α} {f : α → Outcome Unit β} :
    o >>= f = .panic ↔ o = .panic ∨ ∃ v, o = .ok v ∧ f v = .panic := by
  cases o with
  | ok v => simp [Bind.bind, andThen]
  | err e => simp [Bind.bind, andThen]
  | panic => simp [Bind.bind, andThen]
  | hang => simp [Bind.bind, andThen]

/-- What comes back does not panic. -/
theorem ne_panic {α : Type} {o : Outcome Unit α} (h : o.Returns) : o ≠ .panic := by
  rintro rfl
  exact h

/-- Behind a check a program panics when the check holds and the rest panics. -/
theorem ensure_bind_panic_iff {α : Type} {c : Prop} [Decidable c] {e : Unit} {f : Unit → Outcome Unit α} :
    Outcome.ensure c e >>= f = .panic ↔ c ∧ f () = .panic := by
  rw [bind_panic_iff]
  constructor
  · rintro (h | ⟨_, hc, h⟩)
    · exact absurd h (ne_panic ensure_returns)
    · exact ⟨ensure_ok_iff.1 hc, h⟩
  · rintro ⟨hc, h⟩
    exact .inr ⟨(), ensure_ok_iff.2 hc, h⟩

/-- A sequence does not hang when its parts do not. -/
theorem bind_ne_hang {α β : Type} {o : Outcome Unit α} {f : α → Outcome Unit β} (ho : o ≠ .hang) (hf : ∀ v, f v ≠ .hang) :
    o >>= f ≠ .hang := by
  cases o with
  | ok v => exact hf v
  | err e => nofun
  | panic => nofun
  | hang => exact absurd rfl ho

/-- A check does not hang. -/
theorem ensure_ne_hang {c : Prop} [Decidable c] {e : Unit} : (Outcome.ensure c e : Outcome Unit Unit) ≠ .hang := by
  unfold Outcome.ensure
  split <;> nofun

/-- Cutting out a piece does not hang. -/
theorem cutAt_ne_hang : cutAt response a b ≠ .hang := by
  unfold cutAt
  cases range? response a b <;> nofun

/-- Unpacking a number does not hang. -/
theorem unpackAt_ne_hang : (unpackAt response a b : Outcome Unit Nat) ≠ .hang := bind_ne_hang cutAt_ne_hang fun _ => by nofun

/-! ## The parts of a response -/

/-- A response passes if it is long enough and has the code 0. -/
theorem checkResponse_ok_iff {t : Unit} : checkResponse response min = .ok t ↔ min ≤ response.length ∧ At response 6 (beBytes 4 0) := by
  unfold checkResponse
  constructor
  · intro h
    obtain ⟨_, hmin, h⟩ := bind_ok_iff.1 h
    obtain ⟨rc, hrc, h⟩ := bind_ok_iff.1 h
    obtain rfl := ensure_ok_iff.1 h
    exact ⟨ensure_ok_iff.1 hmin, (unpackAt_ok_iff_word.1 hrc).2⟩
  · rintro ⟨hmin, hat⟩
    refine bind_ok_iff.2 ⟨(), ensure_ok_iff.2 hmin, bind_ok_iff.2 ⟨0, ?_, ensure_ok_iff.2 rfl⟩⟩
    exact (unpackAt_ok_iff_word (k := 4)).2 ⟨by decide, hat⟩

/-- The check comes back if it asks for ten bytes. -/
theorem checkResponse_returns (h : 10 ≤ min) : (checkResponse response min).Returns := by
  refine bind_returns ensure_returns fun _ hmin => bind_returns (unpackAt_returns (by decide) ?_) fun _ _ => ensure_returns
  exact h.trans (ensure_ok_iff.1 hmin)

/-- Bytes behind their size. -/
def Sized (response : Bytes) (p : Nat) (u : Bytes) (q : Nat) : Prop :=
  u.length < 2 ^ 16 ∧ At response p ((Marshal.sized 2).write u) ∧ q = p + 2 + u.length

/-- Bytes behind their size that end before `stop`. -/
theorem sizedUpTo_ok_iff {stop : Nat} : sizedUpTo response stop p = .ok (u, q) ↔ Sized response p u q ∧ q ≤ stop := by
  unfold sizedUpTo Sized
  constructor
  · intro h
    obtain ⟨_, hmin, h⟩ := bind_ok_iff.1 h
    obtain ⟨size, hsize, h⟩ := bind_ok_iff.1 h
    obtain ⟨_, hend, h⟩ := bind_ok_iff.1 h
    obtain ⟨v, hv, h⟩ := bind_ok_iff.1 h
    obtain ⟨hlt, hat⟩ := unpackAt_ok_iff_word.1 hsize
    obtain ⟨hv, hlen⟩ := cutAt_ok_iff.1 hv
    obtain rfl := Nat.add_left_cancel hlen
    cases pure_ok_iff.1 h
    refine ⟨⟨hlt, at_append_iff.2 ⟨hat, ?_⟩, rfl⟩, ensure_ok_iff.1 hend⟩
    rwa [beBytes_length]
  · rintro ⟨⟨hlt, hat, rfl⟩, hend⟩
    obtain ⟨hsize, hu⟩ := at_append_iff.1 hat
    rw [beBytes_length] at hu
    refine bind_ok_iff.2 ⟨(), ensure_ok_iff.2 (by omega), ?_⟩
    refine bind_ok_iff.2 ⟨u.length, unpackAt_ok_iff_word.2 ⟨hlt, hsize⟩, ?_⟩
    refine bind_ok_iff.2 ⟨(), ensure_ok_iff.2 hend, ?_⟩
    exact bind_ok_iff.2 ⟨u, cutAt_ok_iff.2 ⟨hu, rfl⟩, rfl⟩

/-- A sized string before a place within the response comes back. -/
theorem sizedUpTo_returns {stop : Nat} (hstop : stop ≤ response.length) : (sizedUpTo response stop p).Returns := by
  refine bind_returns ensure_returns fun _ hmin => ?_
  have hmin' := ensure_ok_iff.1 hmin
  refine bind_returns (unpackAt_returns (by omega) (hmin'.trans hstop)) fun size _ => ?_
  refine bind_returns ensure_returns fun _ hend => ?_
  have hend' := ensure_ok_iff.1 hend
  exact bind_returns (cutAt_returns (by omega) (hend'.trans hstop)) fun _ _ => trivial

/-- A sized string before a place within the response does not hang. -/
theorem sizedUpTo_ne_hang {stop : Nat} : sizedUpTo response stop p ≠ .hang := by
  refine bind_ne_hang ensure_ne_hang fun _ => bind_ne_hang unpackAt_ne_hang fun size => ?_
  exact bind_ne_hang ensure_ne_hang fun _ => bind_ne_hang cutAt_ne_hang fun _ => by nofun

/-- A sized string ends within the response. -/
theorem Sized.end_le (h : Sized response p u q) : q ≤ response.length := by
  obtain ⟨-, hat, rfl⟩ := h
  have hend := hat.end_le
  rw [Marshal.sized_write, List.length_append, beBytes_length] at hend
  omega

/-- A sized string is read exactly where it stands. -/
theorem sizedAt_ok_iff : sizedAt response p = .ok (u, q) ↔ Sized response p u q := by
  change sizedUpTo response response.length p = _ ↔ _
  rw [sizedUpTo_ok_iff]
  exact and_iff_left_of_imp Sized.end_le

/-- Reading a sized string comes back. -/
theorem sizedAt_returns : (sizedAt response p).Returns := sizedUpTo_returns le_rfl

/-- What has been parsed is returned. -/
theorem parsed_ok {σ ε α : Type} {o : Outcome Unit α} {v : α} {e : ε} (h : o = .ok v) :
    (Tcg.parsed o e : Run σ ε α) = pure v := by
  rw [h]
  rfl

end TpmParsersAux

open TpmParsersAux

/-- A parser that returns for all bytes, and a value exactly for the bytes that are laid out as the value asks for. -/
structure ParsesExactly {α : Type} (parse : Bytes → Outcome Unit α) (layout : α → Bytes → Prop) : Prop where
  returns : ∀ response, (parse response).Returns
  ok_iff : ∀ response a, parse response = .ok a ↔ layout a response

/-! ## The layouts of responses -/

/-- The response code is zero. -/
def Succeeded (response : Bytes) : Prop := At response 6 (beBytes 4 0)

/-- The size of an index, in the place it has behind an empty policy. -/
def NvPublicLayout (size : Nat) (response : Bytes) : Prop :=
  28 ≤ response.length ∧ Succeeded response ∧ size < 2 ^ 16 ∧ At response 24 (beBytes 2 size)

/-- Bytes behind their size, behind the size of all parameters. -/
def DataLayout (data : Bytes) (response : Bytes) : Prop := Succeeded response ∧ ∃ q, Sized response 14 data q

/-- A shared secret, behind the size of its point. -/
def SecretLayout (secret : Bytes) (response : Bytes) : Prop := Succeeded response ∧ ∃ q, Sized response 16 secret q

/-- The two numbers of a signature, behind its algorithms. -/
def SignatureLayout (rs : Bytes × Bytes) (response : Bytes) : Prop :=
  Succeeded response ∧ ∃ p q, Sized response 18 rs.1 p ∧ Sized response p rs.2 q

/-- The handle and the point of a key with a policy of `policy` bytes and a scheme that has a hash. -/
def KeyLayout (key : Nat × Bytes × Bytes) (response : Bytes) : Prop :=
  Succeeded response ∧ key.1 < 2 ^ 32 ∧ At response 10 (beBytes 4 key.1) ∧
    (∃ size < 2 ^ 16, At response 18 (beBytes 2 size) ∧ 20 + size ≤ response.length) ∧
    ∃ policy < 2 ^ 16, At response 28 (beBytes 2 policy) ∧
      ∃ p q, Sized response (40 + policy) key.2.1 p ∧ Sized response p key.2.2 q

/-! ## The parsers -/

/-- NV_ReadPublic is parsed as the size in its layout. -/
theorem parseNvReadPublicResponse_exact : ParsesExactly parseNvReadPublicResponse NvPublicLayout where
  returns response := by
    refine bind_returns (checkResponse_returns le_rfl) fun _ _ => bind_returns ensure_returns fun _ hlen => ?_
    exact unpackAt_returns (by decide) ((by decide : 26 ≤ 28).trans (ensure_ok_iff.1 hlen))
  ok_iff response size := by
    constructor
    · intro h
      obtain ⟨_, hcheck, h⟩ := bind_ok_iff.1 h
      obtain ⟨_, hlen, h⟩ := bind_ok_iff.1 h
      exact ⟨ensure_ok_iff.1 hlen, (checkResponse_ok_iff.1 hcheck).2, (unpackAt_ok_iff_word (k := 2)).1 h⟩
    · rintro ⟨hlen, hcode, hsize⟩
      refine bind_ok_iff.2 ⟨(), checkResponse_ok_iff.2 ⟨by omega, hcode⟩, ?_⟩
      exact bind_ok_iff.2 ⟨(), ensure_ok_iff.2 hlen, (unpackAt_ok_iff_word (k := 2)).2 hsize⟩

/-- NV_Read is parsed as the data. -/
theorem parseNvReadResponse_exact : ParsesExactly parseNvReadResponse DataLayout where
  returns response := by
    refine bind_returns (checkResponse_returns le_rfl) fun _ _ => bind_returns ensure_returns fun _ _ => ?_
    exact bind_returns sizedAt_returns fun _ _ => trivial
  ok_iff response data := by
    constructor
    · intro h
      obtain ⟨_, hcheck, h⟩ := bind_ok_iff.1 h
      obtain ⟨_, _, h⟩ := bind_ok_iff.1 h
      obtain ⟨⟨u, q⟩, hu, h⟩ := bind_ok_iff.1 h
      cases pure_ok_iff.1 h
      exact ⟨(checkResponse_ok_iff.1 hcheck).2, q, sizedAt_ok_iff.1 hu⟩
    · rintro ⟨hcode, q, hdata⟩
      have hend := hdata.end_le
      have hq := hdata.2.2
      refine bind_ok_iff.2 ⟨(), checkResponse_ok_iff.2 ⟨by omega, hcode⟩, bind_ok_iff.2 ⟨(), ensure_ok_iff.2 (by omega), ?_⟩⟩
      exact bind_ok_iff.2 ⟨(data, q), sizedAt_ok_iff.2 hdata, rfl⟩

/-- HMAC is parsed as the value. -/
theorem parseHmacResponse_exact : ParsesExactly parseHmacResponse DataLayout where
  returns response := by
    refine bind_returns (checkResponse_returns (by decide)) fun _ _ => ?_
    exact bind_returns sizedAt_returns fun _ _ => trivial
  ok_iff response value := by
    constructor
    · intro h
      obtain ⟨_, hcheck, h⟩ := bind_ok_iff.1 h
      obtain ⟨⟨u, q⟩, hu, h⟩ := bind_ok_iff.1 h
      cases pure_ok_iff.1 h
      exact ⟨(checkResponse_ok_iff.1 hcheck).2, q, sizedAt_ok_iff.1 hu⟩
    · rintro ⟨hcode, q, hvalue⟩
      have hend := hvalue.end_le
      have hq := hvalue.2.2
      refine bind_ok_iff.2 ⟨(), checkResponse_ok_iff.2 ⟨by omega, hcode⟩, ?_⟩
      exact bind_ok_iff.2 ⟨(value, q), sizedAt_ok_iff.2 hvalue, rfl⟩

/-- ECDH_ZGen is parsed as the shared coordinate. -/
theorem parseEcdhZgenResponse_exact : ParsesExactly parseEcdhZgenResponse SecretLayout where
  returns response := by
    refine bind_returns (checkResponse_returns (by decide)) fun _ _ => bind_returns ensure_returns fun _ _ => ?_
    exact bind_returns sizedAt_returns fun _ _ => trivial
  ok_iff response secret := by
    constructor
    · intro h
      obtain ⟨_, hcheck, h⟩ := bind_ok_iff.1 h
      obtain ⟨_, _, h⟩ := bind_ok_iff.1 h
      obtain ⟨⟨u, q⟩, hu, h⟩ := bind_ok_iff.1 h
      cases pure_ok_iff.1 h
      exact ⟨(checkResponse_ok_iff.1 hcheck).2, q, sizedAt_ok_iff.1 hu⟩
    · rintro ⟨hcode, q, hsecret⟩
      have hend := hsecret.end_le
      have hq := hsecret.2.2
      refine bind_ok_iff.2 ⟨(), checkResponse_ok_iff.2 ⟨by omega, hcode⟩, bind_ok_iff.2 ⟨(), ensure_ok_iff.2 (by omega), ?_⟩⟩
      exact bind_ok_iff.2 ⟨(secret, q), sizedAt_ok_iff.2 hsecret, rfl⟩

/-- Sign is parsed as the two halves. -/
theorem parseSignResponse_exact : ParsesExactly parseSignResponse SignatureLayout where
  returns response := by
    refine bind_returns (checkResponse_returns (by decide)) fun _ _ => bind_returns ensure_returns fun _ _ => ?_
    refine bind_returns ensure_returns fun _ _ => bind_returns sizedAt_returns fun _ _ => ?_
    exact bind_returns sizedAt_returns fun _ _ => trivial
  ok_iff response rs := by
    constructor
    · intro h
      obtain ⟨_, hcheck, h⟩ := bind_ok_iff.1 h
      obtain ⟨_, _, h⟩ := bind_ok_iff.1 h
      obtain ⟨_, _, h⟩ := bind_ok_iff.1 h
      obtain ⟨⟨r, p⟩, hr, h⟩ := bind_ok_iff.1 h
      obtain ⟨⟨s, q⟩, hs, h⟩ := bind_ok_iff.1 h
      cases pure_ok_iff.1 h
      exact ⟨(checkResponse_ok_iff.1 hcheck).2, p, q, sizedAt_ok_iff.1 hr, sizedAt_ok_iff.1 hs⟩
    · rintro ⟨hcode, p, q, hr, hs⟩
      have hend := hr.end_le
      have hp := hr.2.2
      refine bind_ok_iff.2 ⟨(), checkResponse_ok_iff.2 ⟨by omega, hcode⟩, bind_ok_iff.2 ⟨(), ensure_ok_iff.2 (by omega), ?_⟩⟩
      refine bind_ok_iff.2 ⟨(), ensure_ok_iff.2 (by omega), bind_ok_iff.2 ⟨(rs.1, p), sizedAt_ok_iff.2 hr, ?_⟩⟩
      exact bind_ok_iff.2 ⟨(rs.2, q), sizedAt_ok_iff.2 hs, rfl⟩

/-- CreatePrimary is parsed as the handle and the point. -/
theorem parseCreatePrimaryResponse_exact : ParsesExactly parseCreatePrimaryResponse KeyLayout where
  returns response := by
    refine bind_returns (checkResponse_returns (by decide)) fun _ hcheck => ?_
    refine bind_returns (unpackAt_returns (by decide) (checkResponse_ok_iff.1 hcheck).1) fun _ _ => ?_
    refine bind_returns ensure_returns fun _ hlen => bind_returns (unpackAt_returns (by decide) (ensure_ok_iff.1 hlen)) fun _ _ => ?_
    refine bind_returns ensure_returns fun _ _ => bind_returns ensure_returns fun _ hlen' => ?_
    refine bind_returns (unpackAt_returns (by decide) (ensure_ok_iff.1 hlen')) fun _ _ => ?_
    exact bind_returns sizedAt_returns fun _ _ => bind_returns sizedAt_returns fun _ _ => trivial
  ok_iff response key := by
    constructor
    · intro h
      obtain ⟨_, hcheck, h⟩ := bind_ok_iff.1 h
      obtain ⟨handle, hhandle, h⟩ := bind_ok_iff.1 h
      obtain ⟨_, _, h⟩ := bind_ok_iff.1 h
      obtain ⟨size, hsize, h⟩ := bind_ok_iff.1 h
      obtain ⟨_, hpublic, h⟩ := bind_ok_iff.1 h
      obtain ⟨_, _, h⟩ := bind_ok_iff.1 h
      obtain ⟨policy, hpolicy, h⟩ := bind_ok_iff.1 h
      obtain ⟨⟨x, p⟩, hx, h⟩ := bind_ok_iff.1 h
      obtain ⟨⟨y, q⟩, hy, h⟩ := bind_ok_iff.1 h
      cases pure_ok_iff.1 h
      obtain ⟨hhandle, hhandle'⟩ := (unpackAt_ok_iff_word (k := 4)).1 hhandle
      obtain ⟨hsize, hsize'⟩ := (unpackAt_ok_iff_word (k := 2)).1 hsize
      obtain ⟨hpolicy, hpolicy'⟩ := (unpackAt_ok_iff_word (k := 2)).1 hpolicy
      refine ⟨(checkResponse_ok_iff.1 hcheck).2, hhandle, hhandle', ⟨size, hsize, hsize', ensure_ok_iff.1 hpublic⟩, ?_⟩
      refine ⟨policy, hpolicy, hpolicy', p, q, ?_, sizedAt_ok_iff.1 hy⟩
      rw [show 40 + policy = 30 + policy + 10 by omega]
      exact sizedAt_ok_iff.1 hx
    · rintro ⟨hcode, hhandle, hhandle', ⟨size, hsize, hsize', hpublic⟩, policy, hpolicy, hpolicy', p, q, hx, hy⟩
      have hend := hx.end_le
      have hp := hx.2.2
      rw [show 40 + policy = 30 + policy + 10 by omega] at hx
      refine bind_ok_iff.2 ⟨(), checkResponse_ok_iff.2 ⟨by omega, hcode⟩, ?_⟩
      refine bind_ok_iff.2 ⟨key.1, (unpackAt_ok_iff_word (k := 4)).2 ⟨hhandle, hhandle'⟩, ?_⟩
      refine bind_ok_iff.2 ⟨(), ensure_ok_iff.2 (by omega), ?_⟩
      refine bind_ok_iff.2 ⟨size, (unpackAt_ok_iff_word (k := 2)).2 ⟨hsize, hsize'⟩, ?_⟩
      refine bind_ok_iff.2 ⟨(), ensure_ok_iff.2 hpublic, bind_ok_iff.2 ⟨(), ensure_ok_iff.2 (by omega), ?_⟩⟩
      refine bind_ok_iff.2 ⟨policy, (unpackAt_ok_iff_word (k := 2)).2 ⟨hpolicy, hpolicy'⟩, ?_⟩
      refine bind_ok_iff.2 ⟨(key.2.1, p), sizedAt_ok_iff.2 hx, ?_⟩
      exact bind_ok_iff.2 ⟨(key.2.2, q), sizedAt_ok_iff.2 hy, rfl⟩

end FdoUefi
