import R2Apps.BufferPrefixes
import R2Apps.RntpTransactions
import R2Apps.TntServer

/-! The serve loop of `c/rntp/main.c` over the socket layer. Slot 0 is the listener; slot `i` of the
pool has its stream and its peer of the export. A segment begins a connection in the slot `beginsIn`, or
has a SYN-ACK repeated in the slot `repeatsIn`.

A pass sets the time, takes up to 32 segments and visits each slot: those are the events, here in any
order. A peer's MSS, which the pool does not keep, and what `get_ticks` gives are parameters of a
visit. The only buffer that is ever installed for slot `i` is the one of stream `i`, so the socket
receives into it as long as the table has an entry for it. Text for the console is left out. -/
namespace R2Apps.RntpServing
open ByteMemory BufferPrefixes RntpProtocol RntpExport TcpSockets
open TntServer (pool beginsIn repeatsIn)

def retransmitMs : UInt64 := 250
def leaseTimeout : UInt64 := 10000
def tcpRxBytes : Nat := 32768

structure Stream where
  rx : Memory := fun _ => 0
  tx : Memory := fun _ => 0
  receiveInstalled : Bool := false
  rxLen : UInt32 := 0
  txLen : UInt32 := 0
  txPos : UInt32 := 0
  flight : UInt32 := 0
  flightSeq : UInt32 := 0
  sentAt : UInt64 := 0
  activity : UInt64 := 0
  closeAfter : Bool := false

/-- `started` is not in the source: for each connection its slot and whether it started blank. -/
structure Server where
  net : Net
  exported : RntpTransactions.Export
  streams : Nat → Stream := fun _ => {}
  started : List (Nat × Bool) := []

/-- What a visit reads from outside; `taken k` is `get_ticks` where `k` more bytes may be taken. -/
structure Ticks where
  now : UInt64
  taken : Nat → UInt64
  mss : UInt32

section Steps
variable (kernel : Nat → Bool)

def Server.setStream (s : Server) (i : Nat) (st : Stream) : Server :=
  { s with streams := Function.update s.streams i st }

def Server.release (s : Server) (i : Nat) : Server :=
  { s with exported := RntpTransactions.step s.exported (.release i) }

def reset (s : Server) (i : Nat) : Server :=
  let sock := s.net.sockets i
  let net :=
    if sock.used && sock.state == .established then sendTcpPacket kernel s.net i 0 (flagRst ||| flagAck)
    else s.net
  ({ s.release sock.id with net := freeSocket net i }).setStream sock.id {}

/-! ## Sending -/

/-- Cumulative ACKs advance a bounded send window. -/
def acknowledge (sock : Socket) (st : Stream) (now : UInt64) : Stream :=
  let acked := sock.txAcked - st.flightSeq
  if st.flight ≠ 0 ∧ acked ≤ st.flight ∧ acked ≠ 0 then
    { st with
      txPos := st.txPos + acked, flightSeq := st.flightSeq + acked, flight :=
        st.flight - acked, sentAt := now }
  else st

def replayFrom (mss : UInt32) (i : Nat) (flight : UInt32) : Nat → Net → UInt32 → Net
  | 0, net, _ => net
  | fuel + 1, net, pos =>
      if pos < flight then
        let amount := min (flight - pos) mss
        replayFrom mss i flight fuel (sendTcpPacket kernel net i amount.toNat flagAck) (pos + amount)
      else net

def replay (t : Ticks) (i : Nat) (net : Net) (st : Stream) : Net × Stream :=
  if st.flight ≠ 0 ∧ t.now - st.sentAt ≥ retransmitMs then
    let next := (net.sockets i).seqNum
    let net := net.set i { net.sockets i with seqNum := st.flightSeq }
    let net := replayFrom kernel t.mss i st.flight st.flight.toNat net 0
    (net.set i { net.sockets i with seqNum := next }, { st with sentAt := t.now })
  else (net, st)

/-- No acknowledgment is waited for between these segments. -/
def bursts (t : Ticks) (i : Nat) : Nat → Net → Stream → Net × Stream
  | 0, net, st => (net, st)
  | burst + 1, net, st =>
      let window := (net.sockets i).peerWindow.toUInt32
      if st.txPos + st.flight < st.txLen ∧ st.flight < window then
        let amount := min (min (st.txLen - st.txPos - st.flight) t.mss) (window - st.flight)
        let st :=
          if st.flight = 0 then { st with flightSeq := (net.sockets i).seqNum, sentAt := t.now } else st
        let (net, sent) := tcpWrite kernel net i amount.toNat
        if sent = 0 then (net, st) else bursts t i burst net { st with flight := st.flight + sent }
      else (net, st)

def probe (t : Ticks) (i : Nat) (net : Net) (st : Stream) : Net × Stream :=
  if st.flight = 0 ∧ st.txPos < st.txLen ∧ (net.sockets i).peerWindow = 0 ∧
    t.now - st.sentAt ≥ retransmitMs then
    (sendTcpPacket kernel net i 0 flagAck, { st with sentAt := t.now })
  else (net, st)

def transmit (t : Ticks) (s : Server) (i : Nat) : Server :=
  let (net, st) := replay kernel t i s.net (acknowledge (s.net.sockets i) (s.streams i) t.now)
  let (net, st) := bursts kernel t i 8 net st
  let (net, st) := probe kernel t i net st
  if st.txLen ≠ 0 ∧ st.txPos = st.txLen ∧ st.flight = 0 then
    let s := { s with net := net }.setStream i { st with txLen := 0, txPos := 0 }
    if st.closeAfter then reset kernel s i else s
  else { s with net := net }.setStream i st

def outgoing (st : Stream) (length : UInt32) (now : UInt64) : Stream :=
  { st with txLen := length, txPos := 0, flight := 0, activity := now }

/-! ## Receiving -/

inductive Incoming where
  | malformed | partly | whole
deriving DecidableEq

/-- The length of the message in `rx`, as far as it is known. -/
def messageLength (st : Stream) : Option UInt32 :=
  if st.rxLen ≥ UInt32.ofNat headerBytes then
    (rntpDecode st.rx).map fun header => UInt32.ofNat (headerBytes + header.length)
  else some (UInt32.ofNat headerBytes)

/-- Every turn that goes on has taken a byte. -/
def takeIncoming (t : Ticks) (i : Nat) : Nat → Server → Server × Incoming
  | 0, s => (s, .partly)
  | fuel + 1, s =>
      let st := s.streams i
      let sock := s.net.sockets i
      match messageLength st with
      | none => (s, .malformed)
      | some need =>
          if st.rxLen = need then (s, .whole)
          else if sock.rx.isEmpty then (s, .partly)
          else
            let take := min (need - st.rxLen).toNat sock.rx.length
            let st := { st with
              rx := put st.rx st.rxLen.toNat (sock.rx.take take)
              rxLen := st.rxLen + UInt32.ofNat take
              activity := t.taken fuel }
            let net := s.net.set i { sock with rx := sock.rx.drop take }
            takeIncoming t i fuel ({ s with net := sendTcpPacket kernel net i 0 flagAck }.setStream i st)

def incoming (t : Ticks) (s : Server) (i : Nat) : Server × Incoming :=
  takeIncoming kernel t i ((s.net.sockets i).rx.length + 1) s

def refusal (request response : Option RntpHeader) : Bool :=
  response.any fun r => r.status ≠ statusOk ∧ ¬(request.any (fun q => q.op = opLock) ∧ r.status = statusBusy)

def answerRequest (t : Ticks) (s : Server) (i : Nat) : Server :=
  let st := s.streams i
  let handled := rntpSessionsHandle s.exported.sessions i st.rx st.tx
  let s := { s with exported := RntpTransactions.step s.exported (.handle i st.rx st.tx) }
  let st := { st with tx := handled.reply }
  if handled.count = 0 then reset kernel (s.setStream i st) i
  else
    let st := { st with rxLen := 0, closeAfter := refusal (rntpDecode st.rx) (rntpDecode st.tx) }
    transmit kernel t (s.setStream i (outgoing st (UInt32.ofNat handled.count) t.now)) i

/-! ## One slot of a pass -/

def exchange (t : Ticks) (s : Server) (i : Nat) : Server :=
  let st := s.streams i
  let st := if st.activity = 0 then { st with activity := t.now } else st
  let s := s.setStream i st
  if (s.net.sockets i).state ≠ .established ∨ t.now - st.activity ≥ leaseTimeout then reset kernel s i
  else
    let s := transmit kernel t s i
    if !(s.net.sockets i).used ∨ (s.streams i).txLen ≠ 0 then s
    else
      match incoming kernel t s i with
      | (s, .malformed) => reset kernel s i
      | (s, .partly) => s
      | (s, .whole) => answerRequest kernel t s i

def visit (t : Ticks) (s : Server) (i : Nat) : Server :=
  if i = 0 then s
  else if !(s.net.sockets i).used then (s.release i).setStream i {}
  else if !(s.streams i).receiveInstalled then
    match tcpSetReceiveBuffer s.net i (some tcpRxBytes) with
    | (net, true) =>
        let s := { s with net := sendTcpPacket kernel net i 0 flagAck }
        exchange kernel t (s.setStream i { s.streams i with receiveInstalled := true }) i
    | (net, false) => reset kernel { s with net := net } i
  else exchange kernel t s i

/-! ## Segments -/

/-- The socket layer can replace a socket before the next pass. -/
def releaseReplaced (s : Server) (i : Nat) : Server :=
  if (s.streams i).receiveInstalled ∧
      (!(s.net.sockets i).used ∨ (ownSlot s.net.storage i).isNone) then
    (s.release i).setStream i {}
  else s

/-- The slot in which another connection starts. A SYN that is answered again starts one if its client
dials `anew`, and none if it is an earlier SYN sent again. The segment does not say which: `tcp_connect`
gives every SYN the sequence number 0. -/
def startsIn (net : Net) (t : Segment) (anew : Bool) : Option Nat :=
  (beginsIn net t).or ((repeatsIn net t).filter fun _ => anew)

/-- Nothing of peer `i` is in the export: no mode, no lock, and no writes that nobody else answers for. -/
def Absent (sessions : RntpSessions) (i : Nat) : Prop :=
  sessions.peers i = .absent ∧ sessions.legacy ≠ some i ∧ sessions.locked ≠ some i ∧
    (sessions.modified = true → sessions.locked ≠ none)

instance (sessions : RntpSessions) (i : Nat) : Decidable (Absent sessions i) := by
  unfold Absent
  infer_instance

def Blank (s : Server) (i : Nat) : Prop :=
  Absent s.exported.sessions i ∧ (s.streams i).rxLen = 0 ∧ (s.streams i).txLen = 0

instance (s : Server) (i : Nat) : Decidable (Blank s i) := by
  unfold Blank
  infer_instance

def onPacket (s : Server) (t : Segment) (anew : Bool) : Server :=
  let starts := startsIn s.net t anew
  let s := { s with net := onTcpPacket kernel s.net pool t }
  let s := pool.foldl releaseReplaced s
  { s with started := s.started ++ starts.toList.map fun i => (i, decide (Blank s i)) }

inductive Event where
  | time (secs : UInt32)
  | packet (t : Segment) (anew : Bool)
  | visit (i : Nat) (t : Ticks)

def step (s : Server) : Event → Server
  | .time secs => { s with net := netSetTime s.net secs }
  | .packet t anew => onPacket kernel s t anew
  | .visit i t => if i < maxSockets then visit kernel t s i else s

def run (s : Server) (events : List Event) : Server := events.foldl (step kernel) s

end Steps

/-- `serve` before its loop: the listener has slot 0. -/
def serving (sessions : RntpSessions) (image : Memory) (port : UInt16) : Server where
  net := listen (bind (socketTcp4 {} pool).1 0 port) 0
  exported := ⟨sessions, image⟩

end R2Apps.RntpServing
