import FdoUefi.Lemmas.Dns
import FdoUefi.Lib.Total
import FdoUefi.Resolver
import Mathlib.Data.List.DropRight
import Mathlib.Data.List.Nodup

/-!
# What the resolver asks and what it remembers

Over every network: a call comes back after at most eight queries, each with an id of its own, and an address it gives is one that a
chain of aliases from the host name leads to. Over every run of the resolver: the cache holds the last sixteen addresses that were
found so, no host name twice.
-/

namespace FdoUefi

open Prog Prog.Run

/-- From a query id and a name on, at most `depth` queries are sent, each with the next id: the first for the name, every other one
for the target of the CNAME record in the response before it. The last response has an A record, or there is no address. -/
inductive Chase (dnsServer : Bytes) : Nat → Nat → Bytes → List DnsExchange → Option Bytes → Prop where
  | spent (txId : Nat) (name : Bytes) : Chase dnsServer 0 txId name [] none
  | lost (depth txId : Nat) (name : Bytes) :
      Chase dnsServer (depth + 1) txId name [⟨buildDnsQuery name txId, dnsServer, none⟩] none
  | address {depth txId : Nat} {name response ip : Bytes} (hip : parseDnsResponse response txId = .ok ip) :
      Chase dnsServer (depth + 1) txId name [⟨buildDnsQuery name txId, dnsServer, some response⟩] (some ip)
  | neither {depth txId : Nat} {name response : Bytes} (hip : parseDnsResponse response txId = .err ())
      (htarget : extractCnameTarget response txId = .err ()) :
      Chase dnsServer (depth + 1) txId name [⟨buildDnsQuery name txId, dnsServer, some response⟩] none
  | aliased {depth txId : Nat} {name response target : Bytes} {rest : List DnsExchange} {r : Option Bytes}
      (hip : parseDnsResponse response txId = .err ()) (htarget : extractCnameTarget response txId = .ok target)
      (hrest : Chase dnsServer depth ((txId + 1) % 2 ^ 16) target rest r) :
      Chase dnsServer (depth + 1) txId name (⟨buildDnsQuery name txId, dnsServer, some response⟩ :: rest) r

/-- Queries were sent: their ids have been used, and they are in the trace. -/
def DnsState.asked (s : DnsState) (new : List DnsExchange) : DnsState :=
  { s with txId := (s.txId + new.length) % 2 ^ 16, exchanges := s.exchanges ++ new }

/-- What is returned for an address, or for none. -/
def addressOrNone : Option Bytes → Outcome Unit Bytes
  | some ip => .ok ip
  | none => .err ()

/-- What a call does: a literal address and a cached name cost nothing; any other name is asked for, and remembered when there is
an address. -/
inductive Resolves (s : DnsState) (hostname : Bytes) : Option Bytes → DnsState → Prop where
  | literal {ip : Bytes} (hip : dottedQuad hostname = some ip) : Resolves s hostname (some ip) s
  | cached {entry : DnsCacheEntry} (hname : dottedQuad hostname = none) (hentry : entry ∈ s.cache)
      (hhost : entry.hostname = hostname) : Resolves s hostname (some entry.ip) s
  | unserved (hname : dottedQuad hostname = none) (hmiss : ∀ entry ∈ s.cache, entry.hostname ≠ hostname)
      (hserver : s.dnsServer = none) : Resolves s hostname none s
  | failed {dnsServer : Bytes} {new : List DnsExchange} (hname : dottedQuad hostname = none)
      (hmiss : ∀ entry ∈ s.cache, entry.hostname ≠ hostname) (hserver : s.dnsServer = some dnsServer)
      (hchase : Chase dnsServer maxCnameDepth s.txId hostname new none) : Resolves s hostname none (s.asked new)
  | found {dnsServer ip : Bytes} {new : List DnsExchange} (hname : dottedQuad hostname = none)
      (hmiss : ∀ entry ∈ s.cache, entry.hostname ≠ hostname) (hserver : s.dnsServer = some dnsServer)
      (hchase : Chase dnsServer maxCnameDepth s.txId hostname new (some ip)) :
      Resolves s hostname (some ip) (remember ⟨hostname, ip⟩ (s.asked new))

/-! ## Runs -/

/-- A call of the resolver. -/
inductive ResolverCall where
  | dnsResolve (hostname : Bytes)
  | setDnsServer (ip : Bytes)

/-- The state after a call. -/
def ResolverCall.after (net : DnsNet) : ResolverCall → DnsState → DnsState
  | .dnsResolve hostname, s => (FdoUefi.dnsResolve net hostname s).2
  | .setDnsServer ip, s => (FdoUefi.setDnsServer ip s).2

/-- The state after a number of calls. -/
def afterCalls (net : DnsNet) (calls : List ResolverCall) (s : DnsState) : DnsState :=
  calls.foldl (fun s call => call.after net s) s

/-- An address that was found, and how. -/
structure DnsFinding where
  hostname : Bytes
  ip : Bytes
  dnsServer : Bytes
  txId : Nat
  exchanges : List DnsExchange

def DnsFinding.entry (f : DnsFinding) : DnsCacheEntry := ⟨f.hostname, f.ip⟩

/-- The queries lead from the host name, which is no literal address, to the address. -/
def DnsFinding.Sound (f : DnsFinding) : Prop :=
  dottedQuad f.hostname = none ∧ Chase f.dnsServer maxCnameDepth f.txId f.hostname f.exchanges (some f.ip)

/-- What a call of the resolver finds: a call that returns an address for which it has asked finds that address, by the queries that it
has sent. -/
def ResolverCall.found (net : DnsNet) (s : DnsState) : ResolverCall → Option DnsFinding
  | .dnsResolve hostname =>
    let new := (FdoUefi.dnsResolve net hostname s).2.exchanges.drop s.exchanges.length
    if new = [] then none
    else (FdoUefi.dnsResolve net hostname s).1.toOption.bind fun ip =>
      s.dnsServer.map fun dnsServer => ⟨hostname, ip, dnsServer, s.txId, new⟩
  | .setDnsServer _ => none

/-- The findings of a number of calls, oldest first. -/
def findings (net : DnsNet) : List ResolverCall → DnsState → List DnsFinding
  | [], _ => []
  | call :: calls, s => (call.found net s).toList ++ findings net calls (call.after net s)

/-- What holds of the resolver, with all that was ever found, oldest first. -/
structure ResolverInv (s : DnsState) (history : List DnsFinding) : Prop where
  cache : s.cache = (history.map DnsFinding.entry).rtake maxCacheEntries
  nodup : (s.cache.map DnsCacheEntry.hostname).Nodup
  sound : ∀ f ∈ history, f.Sound
  asked : (history.flatMap DnsFinding.exchanges).Sublist s.exchanges
  txId : s.txId = (1 + s.exchanges.length) % 2 ^ 16
  ids : ∀ i (h : i < s.exchanges.length), ∃ name, s.exchanges[i].query = buildDnsQuery name ((1 + i) % 2 ^ 16)

namespace ResolverAux

variable {net : DnsNet} {dnsServer hostname name : Bytes} {s t : DnsState} {depth : Nat}

/-- Asking nothing changes nothing. -/
@[simp] theorem asked_nil (h : s.txId < 2 ^ 16) : s.asked [] = s := by
  rw [DnsState.asked, List.length_nil, Nat.add_zero, Nat.mod_eq_of_lt h, List.append_nil]

/-- The last ID has 16 bits. -/
theorem asked_txId_lt (new : List DnsExchange) : (s.asked new).txId < 2 ^ 16 := Nat.mod_lt _ (by decide)

/-- One query more. -/
theorem asked_cons (e : DnsExchange) (new : List DnsExchange) : (s.asked [e]).asked new = s.asked (e :: new) := by
  simp only [DnsState.asked, List.length_cons, List.length_nil, Nat.zero_add, Nat.mod_add_mod, List.append_assoc,
    List.singleton_append, Nat.add_assoc, Nat.add_comm 1]

/-- The chase ends, as it is described, whatever the network answers. -/
theorem chaseCnames_spec (net : DnsNet) (dnsServer : Bytes) (depth : Nat) (name : Bytes) (hs : s.txId < 2 ^ 16) :
    ∃ new r, Chase dnsServer depth s.txId name new r ∧
      chaseCnames net dnsServer depth name s = (addressOrNone r, s.asked new) := by
  induction depth generalizing name s with
  | zero => exact ⟨[], none, .spent _ _, by rw [asked_nil hs]; rfl⟩
  | succ depth ih =>
    have hid : nextTxId s = (.ok s.txId, { s with txId := (s.txId + 1) % 2 ^ 16 }) := rfl
    have hquery : udp4DnsQuery net (buildDnsQuery name s.txId) dnsServer { s with txId := (s.txId + 1) % 2 ^ 16 } =
        (.ok (net s.exchanges (buildDnsQuery name s.txId) dnsServer),
          s.asked [⟨buildDnsQuery name s.txId, dnsServer, net s.exchanges (buildDnsQuery name s.txId) dnsServer⟩]) := rfl
    rw [chaseCnames, bind_of_ok hid, bind_of_ok hquery]
    cases net s.exchanges (buildDnsQuery name s.txId) dnsServer with
    | none => exact ⟨_, none, .lost depth s.txId name, rfl⟩
    | some response =>
      dsimp only
      cases hip : parseDnsResponse response s.txId with
      | ok ip =>
        rw [bind_of_ok (attempt_of_ok (ofOutcome_ok_iff.2 ⟨rfl, rfl⟩))]
        exact ⟨_, some ip, .address hip, rfl⟩
      | err e =>
        rw [bind_of_ok (attempt_ok_iff.2 (.inr ⟨rfl, e, rfl⟩))]
        dsimp only
        cases htarget : extractCnameTarget response s.txId with
        | ok target =>
          rw [bind_of_ok (ofOutcome_ok_iff.2 ⟨rfl, rfl⟩)]
          have hlt := asked_txId_lt (s := s) [⟨buildDnsQuery name s.txId, dnsServer, some response⟩]
          obtain ⟨new, r, hchase, hrun⟩ := @ih _ target hlt
          exact ⟨_ :: new, r, .aliased hip htarget hchase, by rw [hrun, asked_cons]⟩
        | err e' => exact ⟨_, none, .neither hip htarget, rfl⟩
        | panic => exact ((htarget ▸ Aux.extractCnameTarget_returns response s.txId).elim)
        | hang => exact ((htarget ▸ Aux.extractCnameTarget_returns response s.txId).elim)
      | panic => exact ((hip ▸ Aux.parseDnsResponse_returns response s.txId).elim)
      | hang => exact ((hip ▸ Aux.parseDnsResponse_returns response s.txId).elim)

/-- No more queries are sent than the depth allows. -/
theorem chase_length {txId : Nat} {new : List DnsExchange} {r : Option Bytes} (h : Chase dnsServer depth txId name new r) :
    new.length ≤ depth := by
  induction h with
  | spent => exact le_rfl
  | lost => simp
  | address => simp
  | neither => simp
  | aliased _ _ _ ih => exact Nat.succ_le_succ ih

/-- The queries of a chase have consecutive ids. -/
theorem chase_ids {txId : Nat} {new : List DnsExchange} {r : Option Bytes} (h : Chase dnsServer depth txId name new r)
    (htx : txId < 2 ^ 16) (i : Nat) (hi : i < new.length) :
    ∃ name, new[i].query = buildDnsQuery name ((txId + i) % 2 ^ 16) := by
  induction h generalizing i with
  | spent => simp at hi
  | lost depth txId name =>
    obtain rfl : i = 0 := by simpa using hi
    exact ⟨name, by rw [Nat.add_zero, Nat.mod_eq_of_lt htx]; rfl⟩
  | @address depth txId name =>
    obtain rfl : i = 0 := by simpa using hi
    exact ⟨name, by rw [Nat.add_zero, Nat.mod_eq_of_lt htx]; rfl⟩
  | @neither depth txId name =>
    obtain rfl : i = 0 := by simpa using hi
    exact ⟨name, by rw [Nat.add_zero, Nat.mod_eq_of_lt htx]; rfl⟩
  | @aliased depth txId name response target rest r _ _ _ ih =>
    cases i with
    | zero => exact ⟨name, by rw [Nat.add_zero, Nat.mod_eq_of_lt htx]; rfl⟩
    | succ i =>
      obtain ⟨name', hname'⟩ := ih (Nat.mod_lt _ (by decide)) i (by simpa using hi)
      refine ⟨name', ?_⟩
      rw [List.getElem_cons_succ, hname', Nat.mod_add_mod, Nat.add_assoc, Nat.add_comm 1]

/-! ## A call -/

/-- An address is a dotted quad. -/
theorem isIpv4Address_iff : isIpv4Address hostname = true ↔ ∃ ip, dottedQuad hostname = some ip := by
  unfold isIpv4Address dottedQuad
  rcases hostname.splitOn 0x2E with _ | ⟨a, _ | ⟨b, _ | ⟨c, _ | ⟨d, _ | ⟨e, rest⟩⟩⟩⟩⟩
  · simp
  · simp
  · simp
  · simp
  · simp [Option.isSome_iff_exists, Option.bind_eq_some_iff]
  · simp

/-- A call does what is described, whatever the network answers. -/
theorem dnsResolve_resolves (net : DnsNet) (hostname : Bytes) (hs : s.txId < 2 ^ 16) :
    ∃ answer t, Resolves s hostname answer t ∧ dnsResolve net hostname s = (addressOrNone answer, t) := by
  unfold dnsResolve
  split
  next hlit =>
    obtain ⟨ip, hip⟩ := isIpv4Address_iff.1 hlit
    rw [hip]
    exact ⟨some ip, s, .literal hip, rfl⟩
  next hlit =>
    have hname : dottedQuad hostname = none := by
      cases h : dottedQuad hostname with
      | none => rfl
      | some ip => exact absurd (isIpv4Address_iff.2 ⟨ip, h⟩) hlit
    rw [bind_of_ok (getS_apply s)]
    cases hfind : s.cache.find? fun entry => entry.hostname = hostname with
    | some entry =>
      have hhost : entry.hostname = hostname := by simpa using List.find?_some hfind
      exact ⟨some entry.ip, s, .cached hname (List.mem_of_find?_eq_some hfind) hhost, rfl⟩
    | none =>
      have hmiss : ∀ entry ∈ s.cache, entry.hostname ≠ hostname := by simpa using List.find?_eq_none.1 hfind
      dsimp only
      cases hserver : s.dnsServer with
      | none => exact ⟨none, s, .unserved hname hmiss hserver, rfl⟩
      | some dnsServer =>
        rw [bind_of_ok (orFail_ok_iff.2 ⟨rfl, rfl⟩)]
        obtain ⟨new, r, hchase, hrun⟩ := chaseCnames_spec net dnsServer maxCnameDepth hostname hs
        cases r with
        | none => exact ⟨none, _, .failed hname hmiss hserver hchase, bind_of_err hrun⟩
        | some ip => exact ⟨some ip, _, .found hname hmiss hserver hchase, bind_of_ok hrun⟩

/-! ## The cache over a run -/

/-- Among the last `n + 1`, a new entry takes the place of the oldest. -/
theorem rtake_concat_tail {α : Type} (n : Nat) (x : α) (l : List α) :
    (if n + 1 ≤ (l.rtake (n + 1)).length then (l.rtake (n + 1)).tail else l.rtake (n + 1)) ++ [x] =
      (l ++ [x]).rtake (n + 1) := by
  rw [List.rtake_concat_succ]
  congr 1
  simp only [List.rtake, List.length_drop, List.tail_drop]
  split
  · congr 1
    omega
  · rw [show l.length - (n + 1) = 0 by omega, show l.length - n = 0 by omega]

variable {history : List DnsFinding}

/-- Queries that found nothing change nothing but the id of the next one. -/
theorem asked_inv {new : List DnsExchange} (hs : ResolverInv s history)
    (hids : ∀ i (h : i < new.length), ∃ name, new[i].query = buildDnsQuery name ((s.txId + i) % 2 ^ 16)) :
    ResolverInv (s.asked new) history where
  cache := hs.cache
  nodup := hs.nodup
  sound := hs.sound
  asked := hs.asked.trans (List.sublist_append_left _ _)
  txId := by simp only [DnsState.asked, hs.txId, List.length_append, Nat.mod_add_mod, Nat.add_assoc]
  ids i h := by
    simp only [DnsState.asked, List.length_append] at h
    by_cases hi : i < s.exchanges.length
    · obtain ⟨name, hname⟩ := hs.ids i hi
      exact ⟨name, by simpa only [DnsState.asked, List.getElem_append_left hi] using hname⟩
    · have hle : s.exchanges.length ≤ i := Nat.le_of_not_lt hi
      obtain ⟨name, hname⟩ := hids (i - s.exchanges.length) (by omega)
      refine ⟨name, ?_⟩
      simp only [DnsState.asked, List.getElem_append_right hle, hname, hs.txId, Nat.mod_add_mod]
      congr 2
      omega

/-- A new finding, of a host name that was not in the cache. -/
theorem remember_inv {f : DnsFinding} (hs : ResolverInv s history) (hf : f.Sound)
    (hmiss : ∀ entry ∈ s.cache, entry.hostname ≠ f.hostname)
    (hids : ∀ i (h : i < f.exchanges.length), ∃ name, f.exchanges[i].query = buildDnsQuery name ((s.txId + i) % 2 ^ 16)) :
    ResolverInv (remember f.entry (s.asked f.exchanges)) (history ++ [f]) where
  cache := by
    have hcache : (s.asked f.exchanges).cache = (history.map DnsFinding.entry).rtake maxCacheEntries := hs.cache
    rw [remember, hcache, List.map_append, List.map_singleton]
    exact rtake_concat_tail 15 f.entry (history.map DnsFinding.entry)
  nodup := by
    have hkept : ((if maxCacheEntries ≤ s.cache.length then s.cache.tail else s.cache).map DnsCacheEntry.hostname).Nodup ∧
        ∀ entry ∈ if maxCacheEntries ≤ s.cache.length then s.cache.tail else s.cache, entry.hostname ≠ f.hostname := by
      split
      · exact ⟨by rw [List.map_tail]; exact hs.nodup.tail, fun entry h => hmiss entry (List.mem_of_mem_tail h)⟩
      · exact ⟨hs.nodup, hmiss⟩
    simp only [remember, DnsState.asked, List.map_append, List.map_singleton]
    refine List.nodup_append.2 ⟨hkept.1, List.pairwise_singleton _ _, ?_⟩
    intro a ha b hb
    obtain ⟨entry, hentry, rfl⟩ := List.mem_map.1 ha
    obtain rfl : b = f.hostname := List.mem_singleton.1 hb
    exact hkept.2 entry hentry
  sound := by
    intro g hg
    rcases List.mem_append.1 hg with hg | hg
    · exact hs.sound g hg
    · obtain rfl : g = f := List.mem_singleton.1 hg
      exact hf
  asked := by
    rw [List.flatMap_append, List.flatMap_singleton]
    exact hs.asked.append (List.Sublist.refl _)
  txId := (asked_inv hs hids).txId
  ids := (asked_inv hs hids).ids

/-- A resolver that has done nothing has found nothing. -/
theorem new_inv : ResolverInv .new [] where
  cache := rfl
  nodup := List.nodup_nil
  sound := by simp
  asked := List.Sublist.refl _
  txId := rfl
  ids i h := absurd h (Nat.not_lt_zero i)

/-- A chase that ends with an address has asked. -/
theorem chase_some_ne_nil {txId : Nat} {new : List DnsExchange} {ip : Bytes} (h : Chase dnsServer depth txId name new (some ip)) :
    new ≠ [] := by
  cases h with
  | address => simp
  | aliased => simp

/-- A call that sends nothing finds nothing. -/
theorem found_of_unasked {answer : Option Bytes} (hrun : dnsResolve net hostname s = (addressOrNone answer, s)) :
    (ResolverCall.dnsResolve hostname).found net s = none := by
  simp only [ResolverCall.found, hrun, List.drop_length, if_pos]

/-- A call without an address finds nothing either. -/
theorem found_of_none (hrun : dnsResolve net hostname s = (addressOrNone none, t)) :
    (ResolverCall.dnsResolve hostname).found net s = none := by
  simp only [ResolverCall.found, hrun, addressOrNone]
  split <;> rfl

/-- An address for which queries were sent is what the call finds. -/
theorem found_of_some {ip : Bytes} {new : List DnsExchange} (hserver : s.dnsServer = some dnsServer) (hnew : new ≠ [])
    (hrun : dnsResolve net hostname s = (addressOrNone (some ip), remember ⟨hostname, ip⟩ (s.asked new))) :
    (ResolverCall.dnsResolve hostname).found net s = some ⟨hostname, ip, dnsServer, s.txId, new⟩ := by
  have hdrop : (remember ⟨hostname, ip⟩ (s.asked new)).exchanges.drop s.exchanges.length = new := List.drop_left
  simp only [ResolverCall.found, hrun, hdrop, if_neg hnew, hserver]
  rfl

/-- A call keeps the invariant, with what it finds. -/
theorem call_inv (net : DnsNet) (call : ResolverCall) (hs : ResolverInv s history) :
    ResolverInv (call.after net s) (history ++ (call.found net s).toList) := by
  have hlt : s.txId < 2 ^ 16 := hs.txId ▸ Nat.mod_lt _ (by decide)
  cases call with
  | setDnsServer ip =>
    change ResolverInv _ (history ++ [])
    rw [List.append_nil]
    exact ⟨hs.cache, hs.nodup, hs.sound, hs.asked, hs.txId, hs.ids⟩
  | dnsResolve hostname =>
    obtain ⟨answer, t, hcall, hrun⟩ := dnsResolve_resolves net hostname hlt
    have hafter : (ResolverCall.dnsResolve hostname).after net s = t := congrArg Prod.snd hrun
    rw [hafter]
    cases hcall with
    | literal | cached | unserved =>
      rw [found_of_unasked hrun, Option.toList_none, List.append_nil]
      exact hs
    | failed _ _ _ hchase =>
      rw [found_of_none hrun, Option.toList_none, List.append_nil]
      exact asked_inv hs (chase_ids hchase hlt)
    | @found dnsServer ip new hname hmiss hserver hchase =>
      rw [found_of_some hserver (chase_some_ne_nil hchase) hrun, Option.toList_some]
      exact remember_inv (f := ⟨hostname, ip, dnsServer, s.txId, new⟩) hs ⟨hname, hchase⟩ hmiss (chase_ids hchase hlt)

/-- The invariant is kept by a run, whose findings come behind those before it. -/
theorem afterCalls_inv (net : DnsNet) (calls : List ResolverCall) (hs : ResolverInv s history) :
    ResolverInv (afterCalls net calls s) (history ++ findings net calls s) := by
  induction calls generalizing s history with
  | nil => rwa [findings, List.append_nil]
  | cons call calls ih =>
    rw [findings, ← List.append_assoc]
    exact ih (call_inv net call hs)

/-- The invariant holds after every run from an empty resolver. -/
theorem afterCalls_new_inv (net : DnsNet) (calls : List ResolverCall) :
    ResolverInv (afterCalls net calls .new) (findings net calls .new) := afterCalls_inv net calls new_inv

/-- A literal address costs no query. -/
theorem dnsResolve_of_literal {ip : Bytes} (hip : dottedQuad hostname = some ip) : dnsResolve net hostname s = (.ok ip, s) := by
  rw [dnsResolve, if_pos (isIpv4Address_iff.2 ⟨ip, hip⟩), hip]
  rfl

/-- A host name in the cache costs none either. -/
theorem dnsResolve_of_cached (hs : ResolverInv s history) {entry : DnsCacheEntry} (hentry : entry ∈ s.cache) :
    dnsResolve net entry.hostname s = (.ok entry.ip, s) := by
  have hfound : entry ∈ (history.map DnsFinding.entry).rtake maxCacheEntries := hs.cache ▸ hentry
  obtain ⟨f, hf, rfl⟩ := List.mem_map.1 (List.mem_of_mem_drop hfound)
  have hlit : ¬isIpv4Address f.entry.hostname = true := by
    intro h
    obtain ⟨ip, hip⟩ := isIpv4Address_iff.1 h
    rw [show f.entry.hostname = f.hostname from rfl, (hs.sound f hf).1] at hip
    nomatch hip
  have hfind : ∃ e, s.cache.find? (fun e => e.hostname = f.entry.hostname) = some e := by
    rw [← Option.isSome_iff_exists, List.find?_isSome]
    exact ⟨f.entry, hentry, by simp⟩
  obtain ⟨e, he⟩ := hfind
  have hhost : e.hostname = f.entry.hostname := by simpa using List.find?_some he
  obtain rfl : e = f.entry := List.inj_on_of_nodup_map hs.nodup (List.mem_of_find?_eq_some he) hentry hhost
  rw [dnsResolve, if_neg hlit, bind_of_ok (getS_apply s), he]
  rfl

end ResolverAux

open ResolverAux

/-- Whatever the network answers, after any calls of the resolver: the cache is the last sixteen addresses that these calls have found,
oldest first and with no host name twice, each address by queries that were sent and lead from its host name to it; and the queries, in
the order in which they were sent, have the ids from 1 on. -/
theorem resolver_inv (net : DnsNet) (calls : List ResolverCall) :
    ResolverInv (afterCalls net calls .new) (findings net calls .new) := afterCalls_new_inv net calls

/-- A call after any others comes back, with the address or without one, and does just what is described: at most eight queries are
sent, none for a literal address or for a host name that has one in the cache. A call behind it for a name in the cache, as for the one
that was just found, gives the address that is remembered and asks for nothing. -/
theorem dnsResolve_returns (net : DnsNet) (calls : List ResolverCall) (hostname : Bytes) :
    ∃ answer t new, dnsResolve net hostname (afterCalls net calls .new) = (addressOrNone answer, t) ∧
      Resolves (afterCalls net calls .new) hostname answer t ∧
      t.exchanges = (afterCalls net calls .new).exchanges ++ new ∧ new.length ≤ maxCnameDepth ∧
      ∀ entry ∈ t.cache, dnsResolve net entry.hostname t = (.ok entry.ip, t) := by
  have hinv := afterCalls_new_inv net calls
  have hlt : (afterCalls net calls .new).txId < 2 ^ 16 := hinv.txId ▸ Nat.mod_lt _ (by decide)
  obtain ⟨answer, t, hcall, hrun⟩ := dnsResolve_resolves net hostname hlt
  have hnew : ∃ new, t.exchanges = (afterCalls net calls .new).exchanges ++ new ∧ new.length ≤ maxCnameDepth := by
    cases hcall with
    | literal => exact ⟨[], (List.append_nil _).symm, Nat.zero_le _⟩
    | cached => exact ⟨[], (List.append_nil _).symm, Nat.zero_le _⟩
    | unserved => exact ⟨[], (List.append_nil _).symm, Nat.zero_le _⟩
    | failed _ _ _ hchase => exact ⟨_, rfl, chase_length hchase⟩
    | found _ _ _ hchase => exact ⟨_, rfl, chase_length hchase⟩
  obtain ⟨new, hnew, hlen⟩ := hnew
  have hkept := call_inv net (.dnsResolve hostname) hinv
  rw [show (ResolverCall.dnsResolve hostname).after net (afterCalls net calls .new) = t from congrArg Prod.snd hrun] at hkept
  exact ⟨answer, t, new, hrun, hcall, hnew, hlen, fun entry hentry => dnsResolve_of_cached hkept hentry⟩

/-- The place of a URL after any calls: what its host resolves to, literal or not, with its port and its path. -/
theorem parseUrl_ok_iff (net : DnsNet) (calls : List ResolverCall) (url ip path : Bytes) (port : Nat) (t : DnsState) :
    parseUrl net url (afterCalls net calls .new) = (.ok (ip, port, path), t) ↔
      ∃ host, splitUrl url = some (host, port, path) ∧ dnsResolve net host (afterCalls net calls .new) = (.ok ip, t) := by
  generalize afterCalls net calls .new = s
  unfold parseUrl
  cases hsplit : splitUrl url with
  | none =>
    rw [bind_of_err (e := ()) (t := s) rfl]
    simp
  | some place =>
    obtain ⟨host, port', path'⟩ := place
    rw [bind_of_ok (orFail_ok_iff.2 ⟨rfl, rfl⟩)]
    dsimp only
    cases hip : dottedQuad host with
    | some a =>
      have hresolve : dnsResolve net host s = (.ok a, s) := dnsResolve_of_literal hip
      constructor
      · intro h
        obtain ⟨heq, rfl⟩ := pure_ok_iff.1 h
        cases heq
        exact ⟨host, rfl, hresolve⟩
      · rintro ⟨host', heq, hrun⟩
        cases heq
        rw [hresolve] at hrun
        cases hrun
        rfl
    | none =>
      constructor
      · intro h
        obtain ⟨ip', u, hrun, hret⟩ := bind_ok_iff.1 h
        obtain ⟨heq, rfl⟩ := pure_ok_iff.1 hret
        cases heq
        exact ⟨host, rfl, hrun⟩
      · rintro ⟨host', heq, hrun⟩
        cases heq
        exact bind_of_ok hrun

end FdoUefi
