import Mathlib.Logic.Function.Basic
import Mathlib.Data.List.Basic
import Mathlib.Tactic.Ring

/-! The socket layer of `libcr2/net.c`. A socket is named by its address; a pool
is the list of the addresses of its `MAX_SOCKETS` slots, and the table of
application receive buffers is shared by all pools. `rx` is the first `rx_len`
bytes of whichever buffer the socket receives into.

`kernel k` says whether the k-th attempt to build and hand over a segment goes
through. `log` is not in the source: it records what happens to a socket, in
order, so that a run can be talked about. Left out: `tx_buffer` and `tx_len`,
which are only ever cleared, and the peer's MSS, which none of these functions
reads. -/
namespace R2Apps.TcpSockets

def maxSockets : Nat := 8
def rxBufferSize : Nat := 1024
def tcpMaxPayload : Nat := 1460
def finWaitTimeoutSecs : UInt32 := 5

def flagFin : UInt8 := 0x01
def flagSyn : UInt8 := 0x02
def flagRst : UInt8 := 0x04
def flagAck : UInt8 := 0x10

inductive SocketState where
  | closed | listening | synSent | established | finWait | closeWait
  deriving DecidableEq, Repr

def SocketState.synchronised : SocketState → Bool
  | .established | .finWait | .closeWait => true
  | _ => false

structure Socket where
  id : Nat := 0
  state : SocketState := .closed
  localPort : UInt16 := 0
  remotePort : UInt16 := 0
  localIp : UInt32 := 0
  remoteIp : UInt32 := 0
  rx : List UInt8 := []
  used : Bool := false
  seqNum : UInt32 := 0
  ackNum : UInt32 := 0
  txAcked : UInt32 := 0
  peerWindow : UInt16 := 0
  lastActivity : UInt32 := 0

/-- A TCP segment as `on_tcp_packet` gets it: the decoded header fields, and
`packet`, whose first `headerLen` bytes are the header itself. -/
structure Segment where
  srcIp : UInt32
  dstIp : UInt32
  sourcePort : UInt16
  destPort : UInt16
  seqNum : UInt32
  ackNum : UInt32
  headerLen : Nat
  flags : UInt8
  windowSize : UInt16
  packet : List UInt8

def Segment.has (t : Segment) (flag : UInt8) : Bool := t.flags &&& flag != 0

def Segment.data (t : Segment) : List UInt8 := t.packet.drop t.headerLen

def Segment.dataLen (t : Segment) : UInt32 := UInt32.ofNat t.data.length

/-- A segment that is sent, with the socket's state, capacity and unread bytes then. -/
structure Sent where
  state : SocketState
  seqNum : UInt32
  ackNum : UInt32
  window : UInt16
  length : Nat
  flags : UInt8
  capacity : Nat
  rxLen : Nat
  deriving DecidableEq

inductive Event where
  /-- the slot is taken or set up: nothing has been sent from it -/
  | cleared
  /-- a segment arrives on an open connection, with this ACK flag and number -/
  | heard (ack : Bool) (number : UInt32)
  /-- a SYN or SYN-ACK with this sequence number begins a connection -/
  | opened (irs : UInt32)
  /-- a SYN on a connection on which nothing has flowed is answered again -/
  | repeated (irs : UInt32)
  /-- data is appended to so many unread bytes in a buffer of this capacity -/
  | stored (bytes : List UInt8) (rxLen capacity : Nat)
  /-- a FIN that stands at this sequence number is acknowledged -/
  | finished (position : UInt32)
  | returned (bytes : List UInt8)
  | sent (segment : Sent)
  deriving DecidableEq

structure Net where
  sockets : Nat → Socket := fun _ => {}
  storage : List (Option (Nat × Nat)) := List.replicate maxSockets none
  now : UInt32 := 0
  log : List (Nat × Event) := []
  attempts : Nat := 0

def Net.set (net : Net) (a : Nat) (s : Socket) : Net :=
  { net with sockets := Function.update net.sockets a s }

def Net.note (net : Net) (a : Nat) (event : Event) : Net :=
  { net with log := net.log ++ [(a, event)] }

def receiveCapacity (net : Net) (a : Nat) : Nat :=
  match net.storage.find? fun e => e.any fun p => p.1 == a with
  | some (some entry) => entry.2
  | _ => rxBufferSize

def ownSlot (storage : List (Option (Nat × Nat))) (a : Nat) : Option Nat :=
  storage.findIdx? fun e => e.any fun p => p.1 == a

/-- The slot `tcp_set_receive_buffer` picks: the socket's own, else the last free one. -/
def storageSlot (storage : List (Option (Nat × Nat))) (a : Nat) : Option Nat :=
  match ownSlot storage a with
  | some i => some i
  | none =>
      (List.range storage.length).reverse.find? fun i => storage[i]?.any Option.isNone

/-- `tcp_set_receive_buffer`: `none` is a null buffer, which takes the socket
back to its own `rx_buffer`. The bytes already received move along. -/
def tcpSetReceiveBuffer (net : Net) (a : Nat) (buffer : Option Nat) : Net × Bool :=
  let held := (net.sockets a).rx.length
  match buffer with
  | none =>
      if held > rxBufferSize then (net, false)
      else match ownSlot net.storage a with
        | some i => ({ net with storage := net.storage.set i none }, true)
        | none => (net, true)
  | some capacity =>
      if capacity = 0 ∨ capacity > 65535 ∨ capacity < held then (net, false)
      else match storageSlot net.storage a with
        | none => (net, false)
        | some i => ({ net with storage := net.storage.set i (some (a, capacity)) }, true)

def freeSocket (net : Net) (a : Nat) : Net :=
  let net := net.set a { net.sockets a with used := false, state := .closed, rx := [] }
  (tcpSetReceiveBuffer net a none).1

def socketClaim (net : Net) (a i : Nat) : Net :=
  let net := net.set a { net.sockets a with used := true, id := i, rx := [] }
  let net := (tcpSetReceiveBuffer net a none).1
  let net := net.note a .cleared
  net.set a { net.sockets a with txAcked := 0, peerWindow := 0, lastActivity := net.now }

def firstSlot (pool : List Nat) (p : Nat → Bool) : Option (Nat × Nat) :=
  (pool.findIdx? p).bind fun i => (pool[i]?).map fun a => (i, a)

/-- A free slot, else one that is only waiting for the peer to finish a close. -/
def allocSocket (net : Net) (pool : List Nat) : Option (Net × Nat) :=
  match firstSlot pool fun a => !(net.sockets a).used with
  | some (i, a) => some (socketClaim net a i, a)
  | none =>
      match firstSlot pool fun a =>
          (net.sockets a).used && (net.sockets a).state == .finWait with
      | some (i, a) =>
          let net := net.set a { net.sockets a with state := .closed }
          some (socketClaim net a i, a)
      | none => none

def sendTcpPacket (kernel : Nat → Bool) (net : Net) (a : Nat) (len : Nat) (flags : UInt8) : Net :=
  let s := net.sockets a
  let capacity := receiveCapacity net a
  let window := UInt16.ofNat (capacity - min s.rx.length capacity)
  let out := kernel net.attempts && decide (len ≤ tcpMaxPayload)
  let net := { net with attempts := net.attempts + 1 }
  if !out then net
  else
    let net := net.note a (.sent ⟨s.state, s.seqNum, s.ackNum, window, len, flags, capacity, s.rx.length⟩)
    let step := UInt32.ofNat len + if flags &&& (flagSyn ||| flagFin) != 0 then 1 else 0
    net.set a { s with seqNum := s.seqNum + step }

def findConn (net : Net) (pool : List Nat) (t : Segment) (skip : Nat) : Option Nat :=
  pool.find? fun a =>
    let s := net.sockets a
    s.used && a != skip && s.state != .listening &&
      s.localPort == t.destPort && s.remotePort == t.sourcePort && s.remoteIp == t.srcIp

inductive Branch where
  | listenSyn | synSentReset | challenge | synAck | finWait | opened
  deriving DecidableEq

/-- One turn of the loop over the pool; `none` goes on to the next socket. -/
def classify (s : Socket) (t : Segment) : Option Branch :=
  let peer := s.remoteIp == t.srcIp && s.remotePort == t.sourcePort
  if !s.used || s.localPort != t.destPort then none
  else if s.state == .listening && t.has flagSyn then some .listenSyn
  else if s.state == .synSent && t.has flagRst then some .synSentReset
  else if s.state == .synSent && t.has flagAck && !t.has flagSyn && peer then some .challenge
  else if s.state == .synSent && t.has flagSyn && t.has flagAck && peer then some .synAck
  else if !peer then none
  else if s.state == .finWait then some .finWait
  else if s.state == .established || s.state == .closeWait then some .opened
  else none

def route (net : Net) (pool : List Nat) (t : Segment) : Option (Nat × Branch) :=
  pool.findSome? fun a => (classify (net.sockets a) t).map fun branch => (a, branch)

/-- Nothing has flowed on the connection yet: its SYN-ACK may just be repeated. -/
def untouched (s : Socket) : Bool :=
  s.state == .established && decide (s.seqNum ≤ 1) && s.rx.isEmpty

def repeatSynAck (kernel : Nat → Bool) (net : Net) (d : Nat) (t : Segment) : Net :=
  let net := net.set d { net.sockets d with ackNum := t.seqNum + 1, seqNum := 0 }
  let net := net.note d (.repeated t.seqNum)
  let net := sendTcpPacket kernel net d 0 (flagSyn ||| flagAck)
  net.set d { net.sockets d with seqNum := 1, lastActivity := net.now }

/-- Begins a connection in a slot of its own. A pool without one answers with a
reset from a scratch socket, which changes nothing here. -/
def openPassive (kernel : Nat → Bool) (net : Net) (pool : List Nat) (t : Segment) : Net :=
  match allocSocket net pool with
  | none => { net with attempts := net.attempts + 1 }
  | some (net, c) =>
      let net := net.set c { net.sockets c with
        remoteIp := t.srcIp, localIp := t.dstIp
        localPort := t.destPort, remotePort := t.sourcePort
        state := .established, seqNum := 0, ackNum := t.seqNum + 1
        txAcked := 0, peerWindow := t.windowSize }
      let net := net.note c (.opened t.seqNum)
      let net := sendTcpPacket kernel net c 0 (flagSyn ||| flagAck)
      net.set c { net.sockets c with seqNum := 1, lastActivity := net.now }

def onListenSyn (kernel : Nat → Bool) (net : Net) (pool : List Nat) (listener : Nat)
    (t : Segment) : Net :=
  match findConn net pool t listener with
  | some d =>
      if untouched (net.sockets d) then repeatSynAck kernel net d t
      else openPassive kernel (freeSocket net d) pool t
  | none => openPassive kernel net pool t

def onChallenge (kernel : Nat → Bool) (net : Net) (a : Nat) (t : Segment) : Net :=
  let net := net.set a { net.sockets a with seqNum := t.ackNum, ackNum := 0 }
  let net := sendTcpPacket kernel net a 0 flagRst
  let net := net.set a { net.sockets a with seqNum := 0 }
  let net := sendTcpPacket kernel net a 0 flagSyn
  net.set a { net.sockets a with seqNum := 1, lastActivity := net.now }

def onSynAck (kernel : Nat → Bool) (net : Net) (a : Nat) (t : Segment) : Net :=
  let net := net.set a { net.sockets a with
    localIp := t.dstIp, ackNum := t.seqNum + 1, txAcked := t.ackNum
    peerWindow := t.windowSize, state := .established, lastActivity := net.now }
  let net := (net.note a (.opened t.seqNum)).note a (.heard true t.ackNum)
  sendTcpPacket kernel net a 0 flagAck

def onFinWait (kernel : Nat → Bool) (net : Net) (a : Nat) (t : Segment) : Net :=
  if t.has flagRst then freeSocket net a
  else
    let net := net.note a (.heard (t.has flagAck) t.ackNum)
    let net := net.set a { net.sockets a with lastActivity := net.now }
    if t.has flagFin then
      let net := net.set a { net.sockets a with ackNum := t.seqNum + t.dataLen + 1 }
      let net := net.note a (.finished (t.seqNum + t.dataLen))
      let net := sendTcpPacket kernel net a 0 flagAck
      freeSocket net a
    else net

def noteAck (net : Net) (a : Nat) (t : Segment) : Net :=
  let net := net.note a (.heard (t.has flagAck) t.ackNum)
  let s := { net.sockets a with lastActivity := net.now, peerWindow := t.windowSize }
  let fresh := t.has flagAck && decide (0 < (t.ackNum - s.txAcked).toInt32) &&
    decide (t.ackNum - s.txAcked ≤ s.seqNum - s.txAcked)
  net.set a (if fresh then { s with txAcked := t.ackNum } else s)

/-- `uint32_t space`: what is left of the receive buffer. -/
def receiveSpace (net : Net) (a : Nat) : Nat :=
  (receiveCapacity net a + 2 ^ 32 - (net.sockets a).rx.length) % 2 ^ 32

/-- In-order data is appended as far as it fits and acknowledged that far; any
data is answered with an ACK. -/
def takeData (kernel : Nat → Bool) (net : Net) (a : Nat) (t : Segment) : Net :=
  if t.data.isEmpty then net
  else
    let s := net.sockets a
    let net :=
      if t.seqNum = s.ackNum then
        let taken := t.data.take (receiveSpace net a)
        let capacity := receiveCapacity net a
        let net := net.set a { s with
          rx := s.rx ++ taken, ackNum := t.seqNum + UInt32.ofNat taken.length }
        net.note a (.stored taken s.rx.length capacity)
      else net
    sendTcpPacket kernel net a 0 flagAck

def takeFin (kernel : Nat → Bool) (net : Net) (a : Nat) (t : Segment) : Net :=
  if t.has flagFin then
    let net := net.set a { net.sockets a with ackNum := t.seqNum + t.dataLen + 1 }
    let net := net.note a (.finished (t.seqNum + t.dataLen))
    let net := sendTcpPacket kernel net a 0 flagAck
    if (net.sockets a).rx.isEmpty then freeSocket net a
    else net.set a { net.sockets a with state := .closeWait }
  else net

def onOpened (kernel : Nat → Bool) (net : Net) (a : Nat) (t : Segment) : Net :=
  if t.has flagRst then freeSocket net a
  else takeFin kernel (takeData kernel (noteAck net a t) a t) a t

def onTcpPacket (kernel : Nat → Bool) (net : Net) (pool : List Nat) (t : Segment) : Net :=
  match route net pool t with
  | none => net
  | some (a, .listenSyn) => onListenSyn kernel net pool a t
  | some (a, .synSentReset) => freeSocket net a
  | some (a, .challenge) => onChallenge kernel net a t
  | some (a, .synAck) => onSynAck kernel net a t
  | some (a, .finWait) => onFinWait kernel net a t
  | some (a, .opened) => onOpened kernel net a t

/-- Returns the bytes copied into the caller's buffer; whatever did not fit into
`maxlen` is gone with `rx_len = 0`. -/
def tcpRead (kernel : Nat → Bool) (net : Net) (a : Nat) (maxlen : Nat) : Net × List UInt8 :=
  let s := net.sockets a
  let wasFull := s.rx.length == receiveCapacity net a
  let bytes := s.rx.take maxlen
  let net := (net.set a { s with rx := [] }).note a (.returned bytes)
  if !bytes.isEmpty && wasFull && (s.state == .established || s.state == .closeWait) then
    (sendTcpPacket kernel net a 0 flagAck, bytes)
  else (net, bytes)

def tcpWrite (kernel : Nat → Bool) (net : Net) (a : Nat) (len : Nat) : Net × UInt32 :=
  let before := (net.sockets a).seqNum
  let net := sendTcpPacket kernel net a len flagAck
  let sent := (net.sockets a).seqNum - before
  if sent = 0 then (net, 0)
  else (net.set a { net.sockets a with lastActivity := net.now }, sent)

def tcpClose (kernel : Nat → Bool) (net : Net) (a : Nat) : Net :=
  match (net.sockets a).state with
  | .established | .closeWait =>
      let net := sendTcpPacket kernel net a 0 (flagFin ||| flagAck)
      net.set a { net.sockets a with state := .finWait, lastActivity := net.now }
  | .finWait => net
  | .synSent => freeSocket (sendTcpPacket kernel net a 0 flagRst) a
  | _ => freeSocket net a

def tcpConnect (kernel : Nat → Bool) (net : Net) (pool : List Nat) (remoteIp : UInt32)
    (remotePort localPort : UInt16) (localIp : UInt32) : Net × Option Nat :=
  match allocSocket net pool with
  | none => (net, none)
  | some (net, a) =>
      let net := net.set a { net.sockets a with
        remoteIp := remoteIp, localIp := localIp, remotePort := remotePort
        localPort := localPort, seqNum := 0, ackNum := 0, state := .synSent }
      let net := sendTcpPacket kernel net a 0 flagSyn
      (net.set a { net.sockets a with seqNum := 1 }, some a)

def socketTcp4 (net : Net) (pool : List Nat) : Net × Option Nat :=
  match allocSocket net pool with
  | none => (net, none)
  | some (net, a) => (net.set a { net.sockets a with state := .closed }, some a)

def bind (net : Net) (a : Nat) (port : UInt16) : Net :=
  net.set a { net.sockets a with localPort := port }

def listen (net : Net) (a : Nat) : Net := net.set a { net.sockets a with state := .listening }

def reapOne (kernel : Nat → Bool) (idleSecs : UInt32) (protect : Nat → Bool) (net : Net)
    (i a : Nat) : Net × Bool :=
  let s := net.sockets a
  let idle := if net.now ≥ s.lastActivity then net.now - s.lastActivity else 0
  if !s.used || s.state == .listening || protect i then (net, false)
  else if s.state == .finWait then
    if idle ≥ finWaitTimeoutSecs then (freeSocket net a, true) else (net, false)
  else if idle < idleSecs then (net, false)
  else if s.state == .established || s.state == .closeWait then
    (freeSocket (sendTcpPacket kernel net a 0 flagRst) a, true)
  else (freeSocket net a, true)

def socketReap (kernel : Nat → Bool) (net : Net) (pool : List Nat) (idleSecs : UInt32)
    (protect : Nat → Bool) : Net × UInt8 :=
  if net.now = 0 then (net, 0)
  else pool.zipIdx.foldl (fun acc e =>
    let (net, freed) := reapOne kernel idleSecs protect acc.1 e.2 e.1
    (net, if freed then acc.2 + 1 else acc.2)) (net, 0)

def netSetTime (net : Net) (secs : UInt32) : Net := { net with now := secs }

/-- One slot's turn of `socket_pool_init`; the addresses are left as they are. -/
def initOne (net : Net) (i a : Nat) : Net :=
  let net := net.set a { net.sockets a with
    used := false, state := .closed, id := i, localPort := 0, remotePort := 0, rx := [] }
  let net := (tcpSetReceiveBuffer net a none).1
  let net := net.note a .cleared
  net.set a { net.sockets a with
    seqNum := 0, ackNum := 0, txAcked := 0, peerWindow := 0, lastActivity := 0 }

def socketPoolInit (net : Net) (pool : List Nat) : Net :=
  pool.zipIdx.foldl (fun net e => initOne net e.2 e.1) net

end R2Apps.TcpSockets
