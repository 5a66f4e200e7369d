import R2Apps.FifoRings
import R2Apps.PrefixRoutes
import R2Apps.SerialNumbers

/-! The TCP client of the browser's stack: `memento-hello/web/net_r2.cpp` from the
connection table up to the segments it hands to `segment`. What ARP knows is an
answer of the environment (`known`), as is the clock. -/
namespace R2Apps.WebTcp
open R2Apps.FifoRings R2Apps.PrefixRoutes

abbrev Bytes := List UInt8

def tcpHdr : Nat := 20
def mssIn : Nat := 1460
def rxCap : Nat := 32768
def rxWindow : Nat := 16 * mssIn
def txCap : Nat := 4096
def segMax : Nat := 1024
def rtoInitial : UInt64 := 600
def rtoMax : UInt64 := 4000
def maxRetries : Nat := 6
def finWaitMs : UInt64 := 3000
def arpRetryMs : UInt64 := 50
def arpGiveUpMs : UInt64 := 5000

def flagFin : UInt8 := 0x01
def flagSyn : UInt8 := 0x02
def flagRst : UInt8 := 0x04
def flagPsh : UInt8 := 0x08
def flagAck : UInt8 := 0x10

def seqLt (a b : UInt32) : Bool := (a - b).toInt32 < 0
def seqLe (a b : UInt32) : Bool := (a - b).toInt32 ≤ 0

inductive TcpState where
  | free
  | synSent
  | established
  | closeWait -- the peer has sent FIN
  | finWait -- we closed; waiting for the peer to finish
deriving DecidableEq

/-- A segment as it was handed to `segment`. -/
structure Sent where
  flags : UInt8
  seq : UInt32
  ack : UInt32
  wnd : Nat
  data : Bytes
deriving DecidableEq

/-- What happened on a connection, for the statements: its initial sequence number
and the peer's, the peer's whole stream, what went out, what `send` accepted, what
was stored in the ring, what `recv` returned, and the ACK numbers heard. -/
structure Past where
  iss : UInt32
  irs : UInt32
  stream : Bytes
  sent : List Sent
  accepted : Bytes
  stored : Bytes
  got : Bytes
  heard : List UInt32

structure Tcp where
  state : TcpState
  failed : Bool
  err : Option String
  rip : Ip4
  rport : UInt16
  lport : UInt16
  sndUna : UInt32
  sndNxt : UInt32
  rcvNxt : UInt32
  peerMss : Nat
  tx : Bytes -- the first txLen bytes of the buffer
  inflight : Nat -- bytes of tx sent and not yet acknowledged
  pendFin : Bool -- pendFlags, which is only ever F_FIN
  finQueued : Bool
  finAcked : Bool
  peerFin : Bool
  sentAt : UInt64
  rto : UInt64
  retries : Nat
  arpWait : Bool -- the last try never left
  arpSince : UInt64
  rx : Fifo UInt8 rxCap
  advWnd : Nat
  gapAt : UInt32
  gapTime : UInt64
  closeBy : UInt64
  past : Past

theorem rx_begins : 0 < rxCap := by decide

def emptyRing : Fifo UInt8 rxCap where
  cells := fun _ => 0
  head := 0
  count := 0
  head_lt := rx_begins
  count_le := Nat.zero_le _

def noPast : Past :=
  { iss := 0, irs := 0, stream := [], sent := [], accepted := [], stored := [], got := [], heard := [] }

/-- `Tcp{}`. -/
def blank : Tcp where
  state := .free
  failed := false
  err := none
  rip := dotted 0 0 0 0
  rport := 0
  lport := 0
  sndUna := 0
  sndNxt := 0
  rcvNxt := 0
  peerMss := 0
  tx := []
  inflight := 0
  pendFin := false
  finQueued := false
  finAcked := false
  peerFin := false
  sentAt := 0
  rto := 0
  retries := 0
  arpWait := false
  arpSince := 0
  rx := emptyRing
  advWnd := 0
  gapAt := 0
  gapTime := 0
  closeBy := 0
  past := noPast

def freeConn (c : Tcp) : Tcp := { blank with past := c.past }

section Sending

/-- The window is what is left of the receive buffer, and it is remembered. -/
def window (c : Tcp) : Nat := min (rxCap - c.rx.count) rxWindow

def sendSeg (c : Tcp) (flags : UInt8) (seq : UInt32) (data : Bytes) : Tcp :=
  { c with
    advWnd := window c
    past := { c.past with sent := c.past.sent ++ [⟨flags, seq, c.rcvNxt, window c, data⟩] } }

def noteSent (c : Tcp) (sent : Bool) (now : UInt64) : Tcp :=
  if sent then { c with arpWait := false, sentAt := now }
  else if c.arpWait then { c with sentAt := now - c.rto + arpRetryMs }
  else { c with arpWait := true, arpSince := now, sentAt := now - c.rto + arpRetryMs }

def pumpData (c : Tcp) (now : UInt64) (known : Bool) : Tcp :=
  let n := min c.tx.length (min c.peerMss segMax)
  let c := sendSeg { c with inflight := n } (flagAck ||| flagPsh) c.sndUna (c.tx.take n)
  noteSent { c with sndNxt := c.sndUna + UInt32.ofNat n, retries := 0, rto := rtoInitial } known now

def pumpFin (c : Tcp) (now : UInt64) : Tcp :=
  let c := sendSeg { c with pendFin := true } (flagFin ||| flagAck) c.sndUna []
  { c with sndNxt := c.sndUna + 1, sentAt := now, retries := 0, rto := rtoInitial }

/-- Sends the next thing that is waiting, when nothing is in flight. -/
def pump (c : Tcp) (now : UInt64) (known : Bool) : Tcp :=
  if c.inflight ≠ 0 ∨ c.pendFin = true ∨ c.state = .synSent ∨ c.failed = true then c
  else if c.tx ≠ [] then pumpData c now known
  else if c.finQueued = true ∧ c.finAcked = false ∧ c.state = .finWait then pumpFin c now
  else c

/-- What a timer finds: whether the next hop's MAC is known, and the counts that
go into the error text. -/
structure Look where
  known : Bool
  asked : Nat
  replies : Nat
  driver : Bool

def arpError (look : Look) : String :=
  "no ARP answer (asked " ++ toString look.asked ++ ", replies heard " ++ toString look.replies ++
    if look.driver then ", as driver)" else ")"

/-- The segment in flight once more. -/
def resend (c : Tcp) : Tcp :=
  if c.state = .synSent then sendSeg c flagSyn c.sndUna []
  else if c.pendFin then sendSeg c (flagFin ||| flagAck) c.sndUna []
  else sendSeg c (flagAck ||| flagPsh) c.sndUna (c.tx.take c.inflight)

def giveUp (c : Tcp) (why : String) : Tcp :=
  if c.state = .finWait then freeConn c else { c with failed := true, err := some why }

def backOff (c : Tcp) : Tcp := { c with rto := if c.rto * 2 > rtoMax then rtoMax else c.rto * 2 }

def timeout (c : Tcp) (now : UInt64) (look : Look) : Tcp :=
  if c.arpWait then
    if now - c.arpSince ≥ arpGiveUpMs then giveUp c (arpError look)
    else noteSent (resend c) look.known now
  else if c.retries + 1 > maxRetries then
    giveUp { c with retries := c.retries + 1 }
      (if c.state = .synSent then "no answer from the server" else "the connection timed out")
  else noteSent (resend (backOff { c with retries := c.retries + 1 })) look.known now

def tick (c : Tcp) (now : UInt64) (look : Look) : Tcp :=
  if c.state = .finWait ∧ now > c.closeBy then freeConn c
  else if c.failed then c
  else if (c.inflight ≠ 0 ∨ c.pendFin = true ∨ c.state = .synSent) ∧ now - c.sentAt ≥ c.rto then
    timeout c now look
  else pump c now look.known

def ackNow (c : Tcp) : Tcp := sendSeg c flagAck c.sndNxt []

/-- Three at once, but only once per hole and round trip. -/
def signalGap (c : Tcp) (now : UInt64) : Tcp :=
  let marked := { c with gapAt := c.rcvNxt, gapTime := now }
  if c.gapAt = c.rcvNxt ∧ now - c.gapTime < 300 then ackNow marked
  else ackNow (ackNow (ackNow marked))

end Sending

section Receiving

structure Segment where
  flags : UInt8
  seq : UInt32
  ack : UInt32
  options : Bytes
  data : Bytes
deriving DecidableEq

/-- The peer's MSS, if it said. -/
def mssOption : Nat → Bytes → Nat → Nat
  | 0, _, mss => mss
  | fuel + 1, options, mss =>
    match options with
    | kind :: len :: rest =>
      if kind = 0 then mss
      else if kind = 1 then mssOption fuel (len :: rest) mss
      else if len.toNat < 2 ∨ options.length < len.toNat then mss
      else
        mssOption fuel (options.drop len.toNat)
          (if kind = 2 ∧ len = 4 then (rest.getD 0 0).toNat * 256 + (rest.getD 1 0).toNat else mss)
    | _ => mss

def onRst (c : Tcp) : Tcp :=
  if c.state = .finWait then freeConn c
  else { c with
    failed := true
    err := some (if c.state = .synSent then "connection refused" else "connection reset by the server") }

/-- SYN-SENT. An ACK of something else is reset, and the SYN goes again at once. -/
def onSynSent (c : Tcp) (s : Segment) (now : UInt64) (known : Bool) : Tcp :=
  if s.flags &&& flagAck ≠ 0 ∧ s.ack ≠ c.sndUna + 1 then { c with sentAt := now - c.rto + arpRetryMs }
  else if s.flags &&& (flagSyn ||| flagAck) ≠ flagSyn ||| flagAck then c
  else
    let opened := { c with
      rcvNxt := s.seq + 1, sndUna := s.ack, sndNxt := s.ack, state := .established,
      peerMss := mssOption s.options.length s.options 536 }
    pump (ackNow opened) now known

def onAck (c : Tcp) (ack : UInt32) : Tcp :=
  if seqLt c.sndUna ack && seqLe ack c.sndNxt then
    let acked := (ack - c.sndUna).toNat
    if c.pendFin then
      if ack = c.sndNxt then { c with pendFin := false, finAcked := true, sndUna := ack } else c
    else if acked ≤ c.inflight then
      { c with
        tx := c.tx.drop acked, inflight := c.inflight - acked, sndUna := ack, retries := 0,
        rto := rtoInitial }
    else c
  else c

/-- The part of `data` that is next and fits. -/
def wanted (c : Tcp) (seq : UInt32) (data : Bytes) : Bytes :=
  (data.drop (c.rcvNxt - seq).toNat).take (rxCap - c.rx.count)

theorem wanted_room (c : Tcp) (seq : UInt32) (data : Bytes) :
    c.rx.count + (wanted c seq data).length ≤ rxCap := by
  have bound := c.rx.count_le
  rw [wanted, List.length_take]
  omega

def store (c : Tcp) (seq : UInt32) (data : Bytes) : Tcp :=
  let bytes := wanted c seq data
  { c with
    rx := c.rx.fill (wanted c seq data) (wanted_room c seq data)
    rcvNxt := c.rcvNxt + UInt32.ofNat bytes.length
    past := { c.past with stored := c.past.stored ++ bytes } }

def onData (c : Tcp) (seq : UInt32) (data : Bytes) (now : UInt64) : Tcp :=
  if data = [] then c
  else if c.peerFin = true ∨ c.state = .finWait then c -- nothing more is wanted
  else if seq = c.rcvNxt ∨
      (seqLt seq c.rcvNxt = true ∧ seqLt c.rcvNxt (seq + UInt32.ofNat data.length) = true) then
    ackNow (store c seq data)
  else if seqLt c.rcvNxt seq then signalGap c now
  else ackNow c -- an old duplicate

def onFin (c : Tcp) (last : UInt32) (now : UInt64) : Tcp :=
  if last = c.rcvNxt then
    let taken := ackNow { c with rcvNxt := c.rcvNxt + 1, peerFin := true }
    if taken.state = .established then { taken with state := .closeWait } else taken
  else if seqLt c.rcvNxt last then signalGap c now
  else c

def finish (c : Tcp) (now : UInt64) (known : Bool) : Tcp :=
  if c.state = .finWait ∧ c.finAcked = true ∧ c.peerFin = true then freeConn c else pump c now known

def onSynchronized (c : Tcp) (s : Segment) (now : UInt64) (known : Bool) : Tcp :=
  let c := if s.flags &&& flagAck ≠ 0 then onAck c s.ack else c
  let c := onData c s.seq s.data now
  let c := if s.flags &&& flagFin ≠ 0 then onFin c (s.seq + UInt32.ofNat s.data.length) now else c
  finish c now known

def hear (c : Tcp) (s : Segment) : Tcp :=
  if s.flags &&& flagAck ≠ 0 then { c with past := { c.past with heard := c.past.heard ++ [s.ack] } } else c

/-- `onTcp` once the connection is found. -/
def onSegment (c : Tcp) (s : Segment) (now : UInt64) (known : Bool) : Tcp :=
  if s.flags &&& flagRst ≠ 0 then onRst (hear c s)
  else if c.state = .synSent then onSynSent (hear c s) s now known
  else onSynchronized (hear c s) s now known

end Receiving

section Calls

/-- A new connection; `peer` is its place in the statements, with the stack's own
initial sequence number and what the peer will say. -/
def openConn (rip : Ip4) (rport lport : UInt16) (peer : Past) (now : UInt64) (known : Bool) : Tcp :=
  let c := { blank with
    lport := lport, rip := rip, rport := rport, state := .synSent, sndUna := peer.iss, sndNxt := peer.iss,
    peerMss := 536, rto := rtoInitial, past := peer }
  let c := sendSeg c flagSyn c.sndUna []
  noteSent { c with sndNxt := c.sndUna + 1 } known now

def send (c : Tcp) (data : Bytes) (now : UInt64) (known : Bool) : Tcp × Nat :=
  if c.failed = true ∨ (c.state ≠ .established ∧ c.state ≠ .closeWait ∧ c.state ≠ .synSent) then (c, 0)
  else
    let taken := data.take (txCap - c.tx.length)
    (pump { c with tx := c.tx ++ taken, past := { c.past with accepted := c.past.accepted ++ taken } } now
      known, taken.length)

def takeOut (c : Tcp) (n : Nat) : Tcp :=
  let rest := c.rx.discard n
  { c with
    rx := if rest.count = 0 then rest.clear else rest
    past := { c.past with got := c.past.got ++ c.rx.copyOut n } }

def recv (c : Tcp) (n : Nat) : Tcp × Bytes :=
  if c.rx.count = 0 then (c, [])
  else
    let n := min n c.rx.count
    let read := takeOut c n
    -- once reading has reopened a real part of the window, the peer hears of it
    if read.failed = false ∧ read.state = .established ∧ read.advWnd + mssIn ≤ window read then
      (ackNow read, c.rx.copyOut n)
    else (read, c.rx.copyOut n)

def close (c : Tcp) (now later : UInt64) (known : Bool) : Tcp :=
  if c.state = .free then c
  else if c.failed then freeConn c
  else if c.state = .synSent then freeConn (sendSeg c flagRst c.sndUna [])
  else
    pump { c with
      state := .finWait, finQueued := true, rx := { c.rx with count := 0, count_le := Nat.zero_le _ },
      closeBy := now + finWaitMs } later known

end Calls

section Table

def maxConns : Nat := 6

structure Stack where
  ip : Ip4
  conns : Fin maxConns → Tcp

def get16 (p : Bytes) (i : Nat) : UInt16 := (p.getD i 0).toUInt16 <<< 8 ||| (p.getD (i + 1) 0).toUInt16

def get32 (p : Bytes) (i : Nat) : UInt32 :=
  (p.getD i 0).toUInt32 <<< 24 ||| (p.getD (i + 1) 0).toUInt32 <<< 16 ||| (p.getD
    (i + 2) 0).toUInt32 <<< 8 |||
    (p.getD (i + 3) 0).toUInt32

/-- The ports and the segment of a TCP payload. -/
def decode (p : Bytes) : Option (UInt16 × UInt16 × Segment) :=
  if p.length < tcpHdr then none
  else
    let hl := (p.getD 12 0).toNat / 16 * 4
    if hl < tcpHdr ∨ p.length < hl then none
    else some (get16 p 0, get16 p 2,
      { flags := p.getD 13 0, seq := get32 p 4, ack := get32 p 8,
        options := (p.take hl).drop tcpHdr, data := p.drop hl })

/-- The last connection of the table that the segment is for. -/
def Stack.route (s : Stack) (src : Ip4) (sport dport : UInt16) : Option (Fin maxConns) :=
  (List.finRange maxConns).reverse.find? fun h =>
    (s.conns h).state ≠ .free && (s.conns h).lport == dport && (s.conns h).rport == sport &&
      (s.conns h).rip == src

/-- A free slot, or else the first closing connection's. -/
def Stack.allocConn (s : Stack) : Option (Fin maxConns) :=
  ((List.finRange maxConns).find? fun h => (s.conns h).state = .free) <|>
    (List.finRange maxConns).find? fun h => (s.conns h).state = .finWait

def Stack.set (s : Stack) (h : Fin maxConns) (c : Tcp) : Stack :=
  { s with conns := fun k => if k = h then c else s.conns k }

def Stack.onTcp (s : Stack) (src : Ip4) (p : Bytes) (now : UInt64) (known : Bool) : Stack :=
  match decode p with
  | none => s
  | some (sport, dport, seg) =>
    match s.route src sport dport with
    | none => s
    | some h => s.set h (onSegment (s.conns h) seg now known)

/-- `lport` is what `allocPort` finds, `memory` what the heap answers. -/
def Stack.connect (s : Stack) (ip : Ip4) (port : UInt16) (lport : Option UInt16) (memory : Bool) (peer : Past)
    (now : UInt64) (known : Bool) : Stack :=
  match s.allocConn with
  | none => s
  | some h =>
    match lport with
    | none => s.set h (freeConn (s.conns h))
    | some lport =>
      if memory then s.set h (openConn (if first ip = 127 then s.ip else ip) port lport peer now known)
      else s.set h (freeConn (s.conns h))

def Stack.tickAll (s : Stack) (now : UInt64) (look : Look) : Stack :=
  { s with conns := fun h => if (s.conns h).state = .free then s.conns h else tick (s.conns h) now look }

inductive Op where
  | connect (ip : Ip4) (port : UInt16) (lport : Option UInt16) (memory : Bool) (iss irs : UInt32)
      (stream : Bytes) (now : UInt64) (known : Bool)
  | frame (src : Ip4) (p : Bytes) (now : UInt64) (known : Bool)
  | ticks (now : UInt64) (look : Look)
  | send (h : Fin maxConns) (data : Bytes) (now : UInt64) (known : Bool)
  | recv (h : Fin maxConns) (n : Nat)
  | close (h : Fin maxConns) (now later : UInt64) (known : Bool)

def step (s : Stack) : Op → Stack
  | .connect ip port lport memory iss irs stream now known =>
    s.connect ip port lport memory { noPast with iss := iss, irs := irs, stream := stream } now known
  | .frame src p now known => s.onTcp src p now known
  | .ticks now look => s.tickAll now look
  | .send h data now known => s.set h (send (s.conns h) data now known).1
  | .recv h n => s.set h (recv (s.conns h) n).1
  | .close h now later known => s.set h (close (s.conns h) now later known)

end Table
end R2Apps.WebTcp
