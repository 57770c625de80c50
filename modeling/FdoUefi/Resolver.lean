import FdoUefi.Dns
import FdoUefi.Tcp4

/-!
# The DNS resolver (`dns_resolve` of `dns.rs`, `parse_url` of `tcp4_http.rs`)

The resolver keeps the address of the DNS server, the id of the next query and a cache. A query goes through the network, which
may answer it with everything that was asked before in view (`DnsNet`): a server that lies and a network that loses packets are
networks. What was asked and answered is the trace of the resolver.
-/

namespace FdoUefi

open Prog Prog.Run

/-- `MAX_CNAME_DEPTH` -/
def maxCnameDepth : Nat := 8

/-- `MAX_CACHE_ENTRIES` -/
def maxCacheEntries : Nat := 16

structure DnsCacheEntry where
  hostname : Bytes
  ip : Bytes
  deriving DecidableEq, Repr

/-- A query to a server, and the response, if one came. -/
structure DnsExchange where
  query : Bytes
  dnsServer : Bytes
  response : Option Bytes
  deriving DecidableEq, Repr

/-- `udp4_dns_query`. It sends the query through one UDP4 handle after the other, with the same id, until a response comes: whatever it
sends so is one exchange. -/
abbrev DnsNet : Type := List DnsExchange → Bytes → Bytes → Option Bytes

/-- `DNS_SERVER`, `DNS_TX_ID`, of 16 bits, and `DNS_CACHE`, oldest entry first, with the trace. -/
structure DnsState where
  dnsServer : Option Bytes
  txId : Nat
  cache : List DnsCacheEntry
  exchanges : List DnsExchange
  deriving DecidableEq, Repr

def DnsState.new : DnsState where
  dnsServer := none
  txId := 1
  cache := []
  exchanges := []

/-- A part of the resolver, which fails with `None`. -/
abbrev Resolver (α : Type) : Type := Run DnsState Unit α

/-! ## Addresses -/

/-- Four decimal numbers of eight bits with dots between them. -/
def dottedQuad (s : Bytes) : Option Bytes :=
  match s.splitOn 0x2E with
  | [a, b, c, d] => do
    let a ← parseUnsigned 8 a
    let b ← parseUnsigned 8 b
    let c ← parseUnsigned 8 c
    let d ← parseUnsigned 8 d
    return [UInt8.ofNat a, UInt8.ofNat b, UInt8.ofNat c, UInt8.ofNat d]
  | _ => none

def isIpv4Address (s : Bytes) : Bool :=
  (s.splitOn 0x2E).length = 4 && (s.splitOn 0x2E).all fun p => (parseUnsigned 8 p).isSome

/-! ## Queries -/

/-- `set_dns_server` -/
def setDnsServer (ip : Bytes) : Resolver Unit := modifyS fun s => { s with dnsServer := some ip }

/-- `DNS_TX_ID.fetch_add(1)` -/
def nextTxId : Resolver Nat where
  run s := (.ok s.txId, { s with txId := (s.txId + 1) % 2 ^ 16 })

def udp4DnsQuery (net : DnsNet) (query dnsServer : Bytes) : Resolver (Option Bytes) where
  run s :=
    let response := net s.exchanges query dnsServer
    (.ok response, { s with exchanges := s.exchanges ++ [⟨query, dnsServer, response⟩] })

/-- Ask for a name, and then for what it is an alias of, at most `depth` times. -/
def chaseCnames (net : DnsNet) (dnsServer : Bytes) : Nat → Bytes → Resolver Bytes
  | 0, _ => fail ()
  | depth + 1, currentName => do
    let txId ← nextTxId
    match ← udp4DnsQuery net (buildDnsQuery currentName txId) dnsServer with
    | none => fail ()
    | some response =>
      match ← attempt (ofOutcome (parseDnsResponse response txId) : Resolver Bytes) with
      | some addr => return addr
      | none =>
        let cnameTarget ← ofOutcome (extractCnameTarget response txId)
        chaseCnames net dnsServer depth cnameTarget

/-- A new entry takes the place of the oldest, when the cache is full. -/
def remember (entry : DnsCacheEntry) (s : DnsState) : DnsState :=
  { s with cache := (if maxCacheEntries ≤ s.cache.length then s.cache.tail else s.cache) ++ [entry] }

def dnsResolve (net : DnsNet) (hostname : Bytes) : Resolver Bytes :=
  if isIpv4Address hostname = true then orFail (dottedQuad hostname) ()
  else do
    let s ← getS
    match s.cache.find? fun entry => entry.hostname = hostname with
    | some entry => return entry.ip
    | none =>
      let dnsServer ← orFail s.dnsServer ()
      let ip ← chaseCnames net dnsServer maxCnameDepth hostname
      modifyS (remember ⟨hostname, ip⟩)
      return ip

/-! ## URLs -/

def httpScheme : Bytes := utf8 "http://"

/-- `rest.find('/')`: what is before the first slash, and the path from there on, or `/`. -/
def splitPath (rest : Bytes) : Bytes × Bytes :=
  match rest.span (· ≠ 0x2F) with
  | (hostport, []) => (hostport, [0x2F])
  | (hostport, path) => (hostport, path)

/-- `hostport.rfind(':')`: the host and the port behind the last colon, or 80. -/
def splitPort (hostport : Bytes) : Option (Bytes × Nat) :=
  match hostport.reverse.span (· ≠ 0x3A) with
  | (_, []) => some (hostport, 80)
  | (revPort, _ :: revHost) => (parseUnsigned 16 revPort.reverse).map fun port => (revHost.reverse, port)

/-- `url.strip_prefix("http://")` -/
def stripScheme (url : Bytes) : Option Bytes :=
  if httpScheme.isPrefixOf url = true then some (url.drop httpScheme.length) else none

/-- The host, the port and the path of a URL. -/
def splitUrl (url : Bytes) : Option (Bytes × Nat × Bytes) := do
  let rest ← stripScheme url
  let (hostport, path) := splitPath rest
  let (host, port) ← splitPort hostport
  return (host, port, path)

/-- The address, the port and the path of a URL. -/
def parseUrl (net : DnsNet) (url : Bytes) : Resolver (Bytes × Nat × Bytes) := do
  let (host, port, path) ← orFail (splitUrl url) ()
  match dottedQuad host with
  | some ip => return (ip, port, path)
  | none =>
    let ip ← dnsResolve net host
    return (ip, port, path)

end FdoUefi
