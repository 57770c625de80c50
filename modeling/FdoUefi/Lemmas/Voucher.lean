import FdoUefi.Voucher
import FdoUefi.Lib.HashChain
import FdoUefi.Lemmas.Envelope

/-!
# Vouchers: what an accepted entry is

`EntryVerifies` states what the loop of `verify_voucher` checks of one entry, without the order of the checks and without the
errors; the loop accepts a list of entries exactly when there are keys that lead through it (`verifyEntries_ok_iff`).
-/

namespace FdoUefi

open Prog Prog.Run Cbor

/-- The entry is signed by `key`, carries the hash of the bytes `prev` before it and of the header, and passes on `next`. -/
def EntryVerifies (Γ : Ctx) (header : OvHeaderInfo) (key prev entry next : Bytes) : Prop :=
  ∃ s1 payload, parseCoseSign1 entry = .ok s1 ∧ hasDelegateHeader s1.unprotectedHeader = .ok false ∧
    verifySign1 Γ s1 (domainAad aadTagOvEntry header.protver) key = true ∧
    parseOvEntryPayload Γ s1.payload = .ok payload ∧
    payload.hashPrevAlg = hashAlgSha256 ∧ payload.hashHdrAlg = hashAlgSha256 ∧
    payload.hashHdr = Γ.sha256 (header.guid ++ header.deviceInfo) ∧ payload.hashPrev = Γ.sha256 prev ∧
    payload.pubKeyPoint = next

/-- An entry is accepted exactly if it verifies. -/
theorem verifyEntry_ok_iff {Γ : Ctx} {header : OvHeaderInfo} {i : Nat} {key prev entry next : Bytes} :
    verifyEntry Γ header i key (Γ.sha256 prev) entry = .ok next ↔ EntryVerifies Γ header key prev entry next := by
  simp only [verifyEntry, Outcome.bind_ok_iff, Outcome.ensure_ok_iff, Outcome.pure_ok_iff, Outcome.noneAs_ok_iff]
  constructor
  · rintro ⟨s1, hs1, _, hdel, _, rfl, _, hsig, payload, hpay, _, hpa, _, hha, _, hhdr, _, hprev, rfl⟩
    exact ⟨s1, payload, hs1, hdel, hsig, hpay, hpa, hha, hhdr, hprev, rfl⟩
  · rintro ⟨s1, payload, hs1, hdel, hsig, hpay, hpa, hha, hhdr, hprev, rfl⟩
    exact ⟨s1, hs1, false, hdel, (), rfl, (), hsig, payload, hpay, (), hpa, (), hha, (), hhdr, (), hprev, rfl⟩

/-- The keys `ks` lead through the entries: the first one is `key`, the last one `last`, and each entry is verified by the key
at its index, after the bytes at its index in `first :: entries`, and passes on the next key. -/
structure KeySequence (Γ : Ctx) (header : OvHeaderInfo) (first : Bytes) (entries : List Bytes) (key last : Bytes)
    (ks : List Bytes) : Prop where
  length : ks.length = entries.length + 1
  head : ks[0]? = some key
  tail : ks[entries.length]? = some last
  step : ∀ i prev entry, (first :: entries)[i]? = some prev → entries[i]? = some entry →
    ∃ k k', ks[i]? = some k ∧ ks[i + 1]? = some k' ∧ EntryVerifies Γ header k prev entry k'

/-- The loop accepts the entries exactly when a sequence of keys leads through them. -/
theorem verifyEntries_ok_iff {Γ : Ctx} {header : OvHeaderInfo} {i : Nat} {first key last : Bytes} {entries : List Bytes} :
    verifyEntries Γ header i key (Γ.sha256 first) entries = .ok last ↔
      ∃ ks, KeySequence Γ header first entries key last ks := by
  induction entries generalizing i first key with
  | nil =>
    rw [verifyEntries, Outcome.pure_ok_iff]
    constructor
    · rintro rfl
      exact ⟨[last], rfl, rfl, rfl, fun i prev entry _ he => by simp at he⟩
    · rintro ⟨ks, -, h0, hl, -⟩
      rw [List.length_nil, h0, Option.some.injEq] at hl
      exact hl.symm
  | cons e es ih =>
    rw [verifyEntries, Outcome.bind_ok_iff]
    constructor
    · rintro ⟨next, hn, hr⟩
      obtain ⟨ks, hks⟩ := ih.1 hr
      refine ⟨key :: ks, by rw [List.length_cons, hks.length, List.length_cons], rfl, ?_, ?_⟩
      · rw [List.length_cons, List.getElem?_cons_succ]
        exact hks.tail
      · intro j prev entry hprev hentry
        cases j with
        | zero =>
          rw [List.getElem?_cons_zero, Option.some.injEq] at hprev hentry
          subst hprev
          subst hentry
          exact ⟨key, next, rfl, hks.head, verifyEntry_ok_iff.1 hn⟩
        | succ j =>
          rw [List.getElem?_cons_succ] at hprev hentry
          exact hks.step j prev entry hprev hentry
    · rintro ⟨ks, hks⟩
      obtain ⟨k, k', hk, hk', he⟩ := hks.step 0 first e rfl rfl
      obtain rfl : key = k := Option.some.inj (hks.head.symm.trans hk)
      refine ⟨k', verifyEntry_ok_iff.2 he, ih.2 ⟨ks.tail, ?_, ?_, ?_, ?_⟩⟩
      · rw [List.length_tail, hks.length, List.length_cons]
        rfl
      · rw [List.getElem?_tail]
        exact hk'
      · rw [List.getElem?_tail]
        exact hks.tail
      · intro j prev entry hprev hentry
        obtain ⟨k₁, k₂, h1, h2, h3⟩ := hks.step (j + 1) prev entry hprev hentry
        exact ⟨k₁, k₂, by rwa [List.getElem?_tail], by rwa [List.getElem?_tail], h3⟩

/-- What `verify_voucher` checks before and after it looks at the entries. -/
theorem verifyVoucher_ok_iff {Γ : Ctx} {hdr hmacRaw hmacValue guid last : Bytes} {handle : Nat} {entries : List Bytes} :
    verifyVoucher Γ hdr hmacRaw hmacValue handle guid entries = .ok last ↔
      ∃ header, parseOvHeader Γ hdr = .ok header ∧ header.guid = guid ∧ Γ.tpmHmac handle hdr = some hmacValue ∧
        verifyEntries Γ header 0 header.mfgKeyPoint (Γ.sha256 (hdr ++ hmacRaw)) entries = .ok last := by
  simp only [verifyVoucher, Outcome.bind_ok_iff, Outcome.ensure_ok_iff]
  cases hmac : Γ.tpmHmac handle hdr with
  | none => simp
  | some computed =>
    constructor
    · rintro ⟨header, hh, _, hg, h⟩
      obtain ⟨_, hc, hr⟩ := Outcome.bind_ok_iff.1 h
      exact ⟨header, hh, hg, by rw [Outcome.ensure_ok_iff.1 hc], hr⟩
    · rintro ⟨header, hh, hg, hc, hr⟩
      exact ⟨header, hh, (), hg, Outcome.bind_ok_iff.2 ⟨(), Outcome.ensure_ok_iff.2 (Option.some.inj hc), hr⟩⟩

/-! ## The chain of hashes -/

/-- `entry` is an envelope that carries the hash of `prev` as that of its predecessor. -/
def NamesPrev (Γ : Ctx) (prev entry : Bytes) : Prop :=
  ∃ s1 payload, parseCoseSign1 entry = .ok s1 ∧ parseOvEntryPayload Γ s1.payload = .ok payload ∧
    payload.hashPrev = Γ.sha256 prev

/-- An entry that verifies names the one before it by its hash. -/
theorem EntryVerifies.namesPrev {Γ : Ctx} {header : OvHeaderInfo} {key prev entry next : Bytes}
    (h : EntryVerifies Γ header key prev entry next) : NamesPrev Γ prev entry := by
  obtain ⟨s1, payload, hs1, -, -, hpay, -, -, -, hprev, -⟩ := h
  exact ⟨s1, payload, hs1, hpay, hprev⟩

/-- Two predecessors of one entry have the same hash. -/
theorem NamesPrev.sha256_eq {Γ : Ctx} {a b entry : Bytes} (ha : NamesPrev Γ a entry) (hb : NamesPrev Γ b entry) :
    Γ.sha256 a = Γ.sha256 b := by
  obtain ⟨s1, payload, hs1, hpay, hprev⟩ := ha
  obtain ⟨s1', payload', hs1', hpay', hprev'⟩ := hb
  rw [hs1, Outcome.ok.injEq] at hs1'
  subst hs1'
  rw [hpay, Outcome.ok.injEq] at hpay'
  subst hpay'
  rw [← hprev, ← hprev']

/-- Accepted entries are chained by their hashes, from the bytes before the first. -/
theorem verifyEntries_isChain {Γ : Ctx} {header : OvHeaderInfo} {i : Nat} {first key last : Bytes} {entries : List Bytes}
    (h : verifyEntries Γ header i key (Γ.sha256 first) entries = .ok last) :
    (first :: entries).IsChain (NamesPrev Γ) := by
  induction entries generalizing i first key with
  | nil => exact List.isChain_singleton first
  | cons e es ih =>
    rw [verifyEntries, Outcome.bind_ok_iff] at h
    obtain ⟨next, hn, hr⟩ := h
    exact .cons_cons (verifyEntry_ok_iff.1 hn).namesPrev (ih hr)

/-- Every accepted entry is an envelope. -/
theorem verifyEntries_sign1 {Γ : Ctx} {header : OvHeaderInfo} {i : Nat} {first key last : Bytes} {entries : List Bytes}
    (h : verifyEntries Γ header i key (Γ.sha256 first) entries = .ok last) :
    ∀ e ∈ entries, ∃ s1, parseCoseSign1 e = .ok s1 := by
  obtain ⟨ks, hks⟩ := verifyEntries_ok_iff.1 h
  intro e he
  obtain ⟨j, hj⟩ := List.getElem?_of_mem he
  have hlt : j < (first :: entries).length := by
    rw [List.length_cons]
    exact Nat.lt_succ_of_lt (List.getElem?_eq_some_iff.1 hj).1
  obtain ⟨k, k', -, -, s1, payload, hs1, -⟩ := hks.step j _ e (List.getElem?_eq_getElem hlt) hj
  exact ⟨s1, hs1⟩

/-- The entries before a point are accepted without those after it. -/
theorem verifyEntries_prefix {Γ : Ctx} {header : OvHeaderInfo} {i : Nat} {key hash last : Bytes} {es fs : List Bytes}
    (h : verifyEntries Γ header i key hash (es ++ fs) = .ok last) : ∃ k, verifyEntries Γ header i key hash es = .ok k := by
  induction es generalizing i key hash with
  | nil => exact ⟨key, rfl⟩
  | cons e es ih =>
    rw [List.cons_append, verifyEntries, Outcome.bind_ok_iff] at h
    obtain ⟨next, hn, hr⟩ := h
    obtain ⟨k, hk⟩ := ih hr
    exact ⟨k, by rw [verifyEntries]; exact Outcome.bind_ok_iff.2 ⟨next, hn, hk⟩⟩

/-- Naming an error changes no value. -/
theorem okOr_ok_iff {α ε : Type} {m : Run Nat Unit α} {e : ε} {p q : Nat} {a : α} :
    okOr m e p = (.ok a, q) ↔ m p = (.ok a, q) := mapErr_ok_iff

/-- A voucher header starts with the head of an array of at least five elements. -/
theorem parseOvHeader_head {Γ : Ctx} {hdr : Bytes} {header : OvHeaderInfo} (h : parseOvHeader Γ hdr = .ok header) :
    ∃ k : Head, k.IsMajor 4 ∧ 5 ≤ k.arg ∧ At hdr 0 k.bytes := by
  obtain ⟨b, p, hb, h⟩ := bind_fst_ok_iff.1 h
  obtain ⟨_, _, he4, h⟩ := bind_fst_ok_iff.1 h
  obtain ⟨n, q, hn, h⟩ := bind_fst_ok_iff.1 h
  obtain ⟨_, _, he5, h⟩ := bind_fst_ok_iff.1 h
  obtain ⟨hm, rfl⟩ := ensure_ok_iff.1 he4
  obtain ⟨h5, rfl⟩ := ensure_ok_iff.1 he5
  obtain ⟨k, rfl, -, hat, rfl, -⟩ := cborHead_ok (okOr_ok_iff.1 hb) (okOr_ok_iff.1 hn)
  exact ⟨k, hm, h5, hat⟩

/-- What starts with a voucher header is no envelope: a header is an array of at least five elements, an envelope one of four,
and the head of an item does not depend on what follows. -/
theorem ovHeader_append_not_sign1 {Γ : Ctx} {hdr rest : Bytes} {header : OvHeaderInfo} {s1 : CoseSign1}
    (h : parseOvHeader Γ hdr = .ok header) : parseCoseSign1 (hdr ++ rest) ≠ .ok s1 := by
  intro hs
  obtain ⟨k, hm, h5, hat⟩ := parseOvHeader_head h
  have hk : At (hdr ++ rest) 0 k.bytes := hat.append_right rest
  obtain ⟨pre, pl, sg, post, hd, ⟨t, ah, ph, ht, ham, ha4, -, -, rfl⟩, -⟩ := parseCoseSign1_ok hs
  have hall : At (hdr ++ rest) 0 (t ++ (ah.bytes ++ (ph.bytes ++ s1.protectedHeader)) ++
      (s1.unprotectedHeader ++ (pl ++ sg))) := at_zero_iff.2 ⟨post, hd⟩
  obtain ⟨htat, hrest⟩ := at_append_iff.1 (at_append_iff.1 hall).1
  rcases ht with rfl | ⟨th, htm, -, rfl⟩
  · have haat := (at_append_iff.1 hrest).1
    rw [Head.unique hk haat] at h5
    omega
  · rw [Head.unique hk htat] at hm
    unfold Head.IsMajor at hm htm
    omega

end FdoUefi
