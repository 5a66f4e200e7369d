import R2Apps.WebDnsMessages
import R2Apps.WebTcpPorts

/-! Name resolution in the browser's stack, `web/net_r2.cpp`: one query at a time on
the wire, a rotating cache of eight results, and callers who ask until there is
one. What the kernel, the link and the connection to the name server answer is the
environment's. -/
namespace R2Apps.WebDns
open PrefixRoutes WebDnsMessages
open WebTcpPorts (noNetwork)

def hostCap : Nat := 128 -- Url::HOST_CAP
def tcpCap : Nat := 1024 -- sizeof(dnsTcpBuf_)
abbrev cacheSize : Nat := 8

instance : NeZero cacheSize := Nat.instNeZeroSucc
def arpRetryMs : UInt64 := 50

section Literals

def isDigit (b : UInt8) : Bool := 48 ≤ b && b ≤ 57

def digitLoop : Nat → Nat → Bytes → Option (Nat × Bytes)
  | v, _, [] => some (v, [])
  | v, digits, b :: s =>
    if isDigit b then
      if digits + 1 > 3 then none else digitLoop (v * 10 + (b.toNat - 48)) (digits + 1) s
    else some (v, b :: s)

def octet (s : Bytes) : Option (UInt8 × Bytes) := do
  if (s.head?.map isDigit).getD false = false then none
  let (v, s) ← digitLoop 0 0 s
  if v > 255 then none else some (UInt8.ofNat v, s)

def period : Bytes → Option Bytes
  | [] => none
  | b :: s => if b = dot then some s else none

/-- `parseIPv4` of `url.cpp`, its four turns one after another. -/
def parseIPv4 (s : Bytes) : Option Ip4 := do
  let (a, s) ← octet s
  let (b, s) ← octet (← period s)
  let (c, s) ← octet (← period s)
  let (d, s) ← octet (← period s)
  if s = [] then some (dotted a b c d) else none

def localhost : Bytes := [108, 111, 99, 97, 108, 104, 111, 115, 116]
def loopback : Ip4 := dotted 127 0 0 1

end Literals

inductive Phase where
  | idle
  | udp1
  | udp2
  | tcp
  | done
  | failed
deriving DecidableEq

structure Entry where
  host : Bytes
  ip : Ip4
  error : Option String
  expires : UInt64

/-- A query that went out: its id, the host it was begun for and its bytes. -/
structure Query where
  id : UInt16
  host : Bytes
  message : Bytes
deriving DecidableEq

/-- What there is to remember of a run. -/
inductive Note where
  | asked (q : Query)
  | heard (m : Bytes)
  | failed (id : UInt16) (host : Bytes) (why : String)
  | published (id : UInt16) (host : Bytes) (now : UInt64)
deriving DecidableEq

/-- The resolver's part of `Stack`. `past` is no data of the source: the newest note
comes first. -/
structure Dns where
  portLocal : Nat
  phase : Phase
  host : Bytes
  id : UInt16
  sentAt : UInt64
  phaseAt : UInt64
  answer : Ip4
  conn : Option Nat
  query : Bytes -- the whole of dnsQuery_
  queryLen : Nat
  tcp : Bytes -- what dnsTcpBuf_ holds
  err : Option String
  cache : Fin cacheSize → Entry
  next : Fin cacheSize
  sent : Bool
  past : List Note

def noIp : Ip4 := dotted 0 0 0 0

def start (portLocal : Nat) : Dns where
  portLocal := portLocal
  phase := .idle
  host := []
  id := 0
  sentAt := 0
  phaseAt := 0
  answer := noIp
  conn := none
  query := List.replicate queryCap 0
  queryLen := 0
  tcp := []
  err := none
  cache := fun _ => ⟨[], noIp, none, 0⟩
  next := 0
  sent := false
  past := []

/-- A string in an array of `cap` bytes. -/
def scopy (cap : Nat) (s : Bytes) : Bytes := s.take (cap - 1)

def overwrite (buf bytes : Bytes) : Bytes := bytes ++ buf.drop bytes.length

section Asking_

/-- What `sendIp` says, false while the next hop's MAC is unknown, and the clock. -/
structure Sending where
  leaves : Bool
  clock : UInt64

def Dns.dnsSendUdp (d : Dns) (s : Sending) : Dns := { d with sent := s.leaves, sentAt := s.clock }

/-- `dnsBuild` with the two readings of the time stamp counter. Of a name that it
refuses, the labels before the bad one stay in the buffer. -/
def Dns.dnsBuild (d : Dns) (host : Bytes) (first second : UInt64) : Dns × Bool :=
  let id := (first ^^^ (second >>> 16)).toUInt16
  let (q, whole) := putLabels host.length host (header id)
  if whole then
    ({ d with
        id := id
        query := overwrite d.query (q ++ trailer)
        queryLen := q.length + trailer.length }, true)
  else ({ d with id := id, query := overwrite d.query q }, false)

/-- A call of `resolve`: the host as a C string, what `bringUp` says, the clock. -/
structure Ask where
  host : Bytes
  network : Bool
  now : UInt64
  first : UInt64
  second : UInt64
  sending : Sending

/-- What `resolve` returns: 0, 1 with an address, or -1 with the text of `lastError`. -/
inductive Reply where
  | pending
  | address (ip : Ip4)
  | failure (text : String)
deriving DecidableEq

def notValid : String := "not a valid host name"
def lookupFailed : String := "lookup failed"

/-- A result goes into the cache under the host that was asked, whoever calls. -/
def Dns.publish (d : Dns) (now : UInt64) : Dns :=
  if d.phase = .done ∨ d.phase = .failed then
    let error := if d.phase = .failed then some (d.err.getD lookupFailed) else none
    let e : Entry := ⟨scopy hostCap d.host, d.answer, error, now + if error.isSome then 3000 else 60000⟩
    { d with
      cache := fun i => if i = d.next then e else d.cache i
      next := d.next + 1
      phase := .idle
      past := .published d.id d.host now :: d.past }
  else d

def Dns.lookup (d : Dns) (host : Bytes) (now : UInt64) : Option Entry :=
  ((List.finRange cacheSize).map d.cache).find? fun e => e.host ≠ [] ∧ now < e.expires ∧ e.host = host

def Dns.begins (d : Dns) (c : Ask) : Dns × Reply :=
  let (d, whole) := { d with host := scopy hostCap c.host }.dnsBuild c.host c.first c.second
  if whole then
    let q : Query := ⟨d.id, c.host, d.query.take d.queryLen⟩
    ({ d with
        err := none
        phase := .udp1
        phaseAt := c.now
        past := .asked q :: d.past }.dnsSendUdp c.sending,
      .pending)
  else (d, .failure notValid)

def Entry.reply (e : Entry) : Reply :=
  match e.error with
  | some why => .failure why
  | none => .address e.ip

def Dns.resolve (d : Dns) (c : Ask) : Dns × Reply :=
  if c.network = false then (d, .failure noNetwork)
  else match parseIPv4 c.host with
    | some ip => (d, .address ip)
    | none =>
      if c.host = localhost then (d, .address loopback)
      else
        let d := d.publish c.now
        match d.lookup c.host c.now with
        | some e => (d, e.reply)
        | none =>
          -- one query at a time: another host waits
          if d.phase ≠ .idle then (d, .pending) else d.begins c

end Asking_

section Listening

/-- `dnsErr_ = why; dnsPhase_ = DNS_FAILED`. -/
def Dns.fail (d : Dns) (why : String) : Dns :=
  { d with err := some why, phase := .failed, past := .failed d.id d.host why :: d.past }

theorem read_isSome (id : UInt16) (m : Bytes) : (read id m).isSome = true := by
  obtain ⟨r, is, -⟩ := read_reads id m
  rw [is]
  rfl

def Dns.dnsParse (d : Dns) (m : Bytes) : Dns × Bool :=
  let d := { d with past := .heard m :: d.past }
  match (read d.id m).get (read_isSome d.id m) with
  | .notOurs => (d, false)
  | .failed why => (d.fail why, true)
  | .done ip => ({ d with answer := ip, phase := .done }, true)

/-- `get16` of a place that was checked to be there. -/
def word (p : Bytes) (i : Nat) : Nat := 256 * (p.getD i 0).toNat + (p.getD (i + 1) 0).toNat

def Dns.onUdp (d : Dns) (p : Bytes) : Dns :=
  if p.length < 8 then d
  else if word p 2 ≠ d.portLocal ∨ word p 0 ≠ 53 then d
  else if d.phase ≠ .udp1 ∧ d.phase ≠ .udp2 then d
  else
    let len := if word p 4 < 8 ∨ word p 4 > p.length then p.length else word p 4
    (d.dnsParse ((p.drop 8).take (len - 8))).1

def unreachable_ : String := "could not reach the name server"
def nonsense : String := "the name server's answer did not make sense"
def silent : String := "the name server did not answer"

/-- A call of `poll`: the UDP datagrams for this machine that it takes in, then the
clock and what `dnsStep` is told: by `sendIp`, by `connect`, by `recv`, which hands
over as much as there is room for, and by `status`, failed or closed by the peer. -/
structure Polling where
  network : Bool
  datagrams : List Bytes
  now : UInt64
  sending : Sending
  connected : Option Nat
  bytes : Bytes
  over_ : Bool

/-- A message that is whole is taken; until then there are two reasons to give up. -/
def Dns.dnsTcpTurn (d : Dns) (p : Polling) : Dns :=
  if 2 ≤ d.tcp.length ∧ 2 + word d.tcp 0 ≤ d.tcp.length then
    let (d, ours) := d.dnsParse ((d.tcp.drop 2).take (word d.tcp 0))
    if ours then d else d.fail nonsense
  else if p.over_ ∨ p.now - d.sentAt > 6000 then d.fail silent
  else d

def Dns.dnsTcp (d : Dns) (p : Polling) : Dns :=
  let d := { d with tcp := d.tcp ++ p.bytes.take (tcpCap - d.tcp.length) }.dnsTcpTurn p
  if d.phase ≠ .tcp then { d with conn := none } else d

def Dns.dnsStep (d : Dns) (p : Polling) : Dns :=
  match d.phase with
  | .udp1 =>
    if p.now - d.phaseAt > 1500 then
      { d with phase := .udp2, phaseAt := p.now }.dnsSendUdp p.sending
    else if d.sent = false ∧ p.now - d.sentAt ≥ arpRetryMs then d.dnsSendUdp p.sending
    else d
  | .udp2 =>
    if p.now - d.phaseAt > 1500 then
      let d := { d with conn := p.connected, tcp := [], sentAt := p.now }
      if p.connected = none then d.fail unreachable_ else { d with phase := .tcp }
    else if d.sent = false ∧ p.now - d.sentAt ≥ arpRetryMs then d.dnsSendUdp p.sending
    else d
  | .tcp => d.dnsTcp p
  | _ => d

def Dns.poll (d : Dns) (p : Polling) : Dns :=
  if p.network then (p.datagrams.foldl Dns.onUdp d).dnsStep p else d

end Listening

/-! ## Runs -/

inductive Event where
  | ask (c : Ask)
  | poll (p : Polling)

def Dns.step (d : Dns) : Event → Dns
  | .ask c => (d.resolve c).1
  | .poll p => d.poll p

def Dns.run (d : Dns) (events : List Event) : Dns := events.foldl Dns.step d

end R2Apps.WebDns
