import R2Apps.TcpSending
import R2Apps.TntSessions

/-! The main loop of `tnt/main.c`, with the packet pump of `tnt/xfer.c` that its
commands run. The pool is the slots 0 to 7 and a socket's id is its slot.

`World` decides what the code is not told of here: whether a segment goes out, what
`SESSION.CFG` holds at each look at it, the prompts, and what a command does, which
is a list of `Action`s. A command may take any action at any time; what the code
checks before an action is checked here. Left out: the driver, which hands over
whole segments, and what only times a transfer (windows, acknowledgements, clocks).

`log` and `clash` are not in the source: the first records what happens to the
connections in their slots; the second, whether a SYN began or repeated a connection
in a slot whose session was active. -/
namespace R2Apps.TntServer
open TntAuth TntSessions TcpSockets TcpSending
open WireBytes (ascii)

def bindPort : UInt16 := 23
def outCap : Nat := 1024

def pool : List Nat := List.range maxSockets

/-- The connections begun in the slot so far, and so the number of the last one. -/
def lives (net : Net) (a : Nat) : Nat :=
  net.log.countP fun e => e.1 == a && match e.2 with | .opened _ => true | _ => false

inductive Action where
  /-- text for the session, gathered in `out_buf` -/
  | put (text : Bytes)
  | flush
  | pump (packet : Option Segment)
  /-- `cancelled`: a key typed into the session -/
  | cancel
  | openData (port : UInt16)
  | pickClient
  | dropRequest
  | seek (seq : UInt32)
  | sendData (len : Nat)
  | closeData
  | resendFin
  | freeData
  | abortData
  | endData
  /-- `xfer_send_buffer`: the session itself is the peer -/
  | watchSelf
  | stream (bytes : Bytes)
  | unwatch

structure Command where
  actions : List Action
  quits : Bool

structure World where
  kernel : Nat → Bool
  file : Nat → Bytes
  prompt : Nat → Bytes
  command : Nat → Command

structure Peer where
  conn : Nat
  ip : UInt32
  rport : UInt16
  lport : UInt16
  reset : Bool := false
  /-- `peer_gone` was seen: the transfer no longer touches the connection -/
  gone : Bool := false

inductive Event where
  | greeted (slot life : Nat) (required : Bool)
  | typed (slot life : Nat) (byte : UInt8) (file : Bytes)
  | came (slot life : Nat) (outcome : Outcome)
  /-- what is written into a slot while it has its `life`-th connection; each byte
  with the connection it is meant for -/
  | wrote (slot life : Nat) (bytes : List (Nat × UInt8))
  deriving DecidableEq

structure Server where
  net : Net
  sessions : Nat → Session := fun _ => {}
  outBuf : List (Nat × UInt8) := []
  outSock : Option Nat := none
  listener : Option (Nat × UInt16) := none
  peer : Option Peer := none
  calls : Nat := 0
  log : List Event := []
  clash : Bool := false

def Server.note (s : Server) (event : Event) : Server := { s with log := s.log ++ [event] }

def Server.setSession (s : Server) (a : Nat) (sess : Session) : Server :=
  { s with sessions := Function.update s.sessions a sess }

section Steps
variable (w : World)

/-! Output. -/

def write (s : Server) (a : Nat) (bytes : List (Nat × UInt8)) : Server :=
  { s with net := (tcpWrite w.kernel s.net a bytes.length).1 }.note (.wrote a (lives s.net a) bytes)

def say (a life : Nat) (s : Server) (text : Bytes) : Server := write w s a (text.map (life, ·))

def shellFlush (s : Server) : Server :=
  let s := match s.outSock with
    | some a => if s.outBuf.isEmpty then s else write w s a s.outBuf
    | none => s
  { s with outBuf := [] }

def outByte (s : Server) (x : Nat × UInt8) : Server :=
  let s := if s.outBuf.length = outCap then shellFlush w s else s
  { s with outBuf := s.outBuf ++ [x] }

def out (a life : Nat) (s : Server) (text : Bytes) : Server :=
  let s := if s.outSock ≠ some a then { shellFlush w s with outSock := some a } else s
  (text.map (life, ·)).foldl (outByte w) s

def shellPrompt (a life : Nat) (s : Server) : Server :=
  out w a life { s with calls := s.calls + 1 } (w.prompt s.calls)

/-! Packets. -/

/-- The slot in which the segment begins a connection. -/
def beginsIn (net : Net) (t : Segment) : Option Nat :=
  match route net pool t with
  | some (l, .listenSyn) =>
      match findConn net pool t l with
      | some d => if untouched (net.sockets d) then none else slotTaken (freeSocket net d) pool
      | none => slotTaken net pool
  | _ => none

/-- The slot in which the segment has its SYN-ACK repeated, as nothing has flowed there yet. -/
def repeatsIn (net : Net) (t : Segment) : Option Nat :=
  match route net pool t with
  | some (l, .listenSyn) => (findConn net pool t l).filter fun d => untouched (net.sockets d)
  | _ => none

-- A SYN that is answered again may be another connection's of the same client.
def onPacket (s : Server) (t : Segment) : Server :=
  { s with
    net := onTcpPacket w.kernel s.net pool t
    clash := s.clash || ((beginsIn s.net t).or (repeatsIn s.net t)).any fun a => (s.sessions a).active }

def isPeer (p : Peer) (t : Segment) : Bool :=
  t.destPort == p.lport && t.sourcePort == p.rport && t.srcIp == p.ip

/-- A FIN of the peer's that `pump` keeps for itself. -/
def ownFin (net : Net) (p : Peer) (t : Segment) : Bool :=
  isPeer p t && t.has flagFin &&
    ((net.sockets p.conn).state == .established || (net.sockets p.conn).state == .closeWait)

def answerFin (s : Server) (p : Peer) (t : Segment) : Server :=
  let c := s.net.sockets p.conn
  if !c.used then s
  else if t.seqNum + t.dataLen = c.ackNum then
    let net := s.net.set p.conn { c with ackNum := c.ackNum + 1, state := .closeWait }
    { s with net := sendTcpPacket w.kernel net p.conn 0 flagAck }
  else if t.seqNum + t.dataLen + 1 = c.ackNum then
    { s with net := sendTcpPacket w.kernel s.net p.conn 0 flagAck }
  else s

def peerGone (net : Net) (p : Peer) : Bool :=
  let c := net.sockets p.conn
  p.reset || !c.used || c.remotePort != p.rport || c.remoteIp != p.ip

/-- `pump`, and the look at the peer that follows it in every loop. -/
def pump (s : Server) (packet : Option Segment) : Server :=
  match packet, s.peer with
  | none, none => s
  | none, some p => { s with peer := some { p with gone := p.gone || peerGone s.net p } }
  | some t, none => onPacket w s t
  | some t, some p =>
      let p := { p with reset := p.reset || (isPeer p t && t.has flagRst) }
      let s :=
        if ownFin s.net p t then
          answerFin w (onPacket w s { t with flags := t.flags &&& (~~~flagFin) }) p t
        else onPacket w s t
      { s with peer := some { p with gone := p.gone || peerGone s.net p } }

/-! Commands. -/

def setSocket (s : Server) (a : Nat) (sock : Socket) : Server := { s with net := s.net.set a sock }

def abortConn (net : Net) (a : Nat) : Net :=
  if (net.sockets a).used then
    freeSocket (sendTcpPacket w.kernel net a 0 (flagRst ||| flagAck)) a
  else net

/-- Turns away whoever else is on the data port, and frees the listener. -/
def endData (net : Net) (listener : Nat) (port : UInt16) (conn : Option Nat) : Net :=
  let net := pool.foldl (fun net a =>
    let c := net.sockets a
    if c.used && a != listener && conn != some a && c.localPort == port && c.state != .finWait then
      abortConn w net a
    else net) net
  freeSocket net listener

def onData (s : Server) (f : Net → Nat → Net) : Server :=
  match s.peer with
  | some p => if p.gone then s else { s with net := f s.net p.conn }
  | none => s

def perform (a life : Nat) (s : Server) : Action → Server
  | .put text => out w a life s text
  | .flush => shellFlush w s
  | .pump packet => pump w s packet
  | .cancel =>
      let c := s.net.sockets a
      if c.used && !c.rx.isEmpty then setSocket s a { c with rx := [] } else s
  | .openData port =>
      if port = 0 ∨ port = bindPort then s
      else match socketTcp4 s.net pool with
        | (net, none) => { s with net := net }
        | (net, some l) =>
            { s with net := listen (bind net l port) l, listener := some (l, port), peer := none }
  | .pickClient =>
      match s.listener with
      | none => s
      | some (l, port) =>
          match pool.find? fun i =>
              let c := s.net.sockets i
              c.used && i != l && c.localPort == port && c.state == .established with
          | none => s
          | some i =>
              let c := s.net.sockets i
              { s with peer := some { conn := i, ip := c.remoteIp, rport := c.remotePort, lport := port } }
  | .dropRequest => onData s fun net c => net.set c { net.sockets c with rx := [] }
  | .seek seq => onData s fun net c => net.set c { net.sockets c with seqNum := seq }
  | .sendData len => onData s fun net c => (tcpWrite w.kernel net c len).1
  | .closeData => onData s fun net c => tcpClose w.kernel net c
  | .resendFin => onData s fun net c => sendTcpPacket w.kernel net c 0 (flagFin ||| flagAck)
  | .freeData => onData s freeSocket
  | .abortData => onData s (abortConn w)
  | .endData =>
      match s.listener with
      | none => s
      | some (l, port) =>
          { s with net := endData w s.net l port (s.peer.map (·.conn)), listener := none, peer := none }
  | .watchSelf =>
      let c := s.net.sockets a
      { s with peer := some { conn := a, ip := c.remoteIp, rport := c.remotePort, lport := c.localPort } }
  | .stream bytes =>
      match s.peer with
      | some p => if p.conn = a ∧ !p.gone then say w a life s bytes else s
      | none => s
  | .unwatch => { s with peer := none }

/-- `shell_dispatch`: returns whether the connection is to be closed. -/
def shellDispatch (a life : Nat) (s : Server) : Server × Bool :=
  let command := w.command s.calls
  (command.actions.foldl (perform w a life) { s with calls := s.calls + 1 }, command.quits)

/-! The main loop. -/

def feedByte (a life : Nat) (s : Server) (b : UInt8) : Server × Bool :=
  let file := w.file s.calls
  let (sess, effect) := takeByte (authCheck file) (s.sessions a) b
  let s := { s with calls := s.calls + 1 }.setSession a sess
  let s := { s with log := s.log ++ .typed a life b file :: (effect.outcome.map (.came a life)).toList }
  let s := effect.writes.foldl (say w a life) s
  match effect.outcome with
  | none => (s, false)
  | some (.tried _ _ true) => (shellFlush w (shellPrompt w a life s), false)
  | some (.tried _ _ false) => (s, effect.quits sess)
  | some (.dispatched _) =>
      let (s, quit) := shellDispatch w a life s
      if quit then (shellFlush w s, true) else (shellFlush w (shellPrompt w a life s), false)

def hangUp (a : Nat) (s : Server) : Server :=
  { s with net := tcpClose w.kernel s.net a }.setSession a { s.sessions a with active := false }

def feed (a life : Nat) : Server → Bytes → Server
  | s, [] => s
  | s, b :: rest =>
      match feedByte w a life s b with
      | (s, true) => hangUp w a s
      | (s, false) => feed a life s rest

def banner : Bytes := ascii "\r\ntnt - rou2exOS telnet service\r\nType 'help' for commands.\r\n\r\n"

def loginPrompt : Bytes :=
  ascii "Memento is logged in: its login and password, please.\r\n\r\nlogin: "

def greet (s : Server) (i : Nat) : Server :=
  let life := lives s.net i
  let required := authRequired (w.file s.calls) (w.file (s.calls + 1)) (w.file (s.calls + 2))
  let s := ({ s with calls := s.calls + 3 }.setSession i (greeted required (s.sessions i))).note
    (.greeted i life required)
  let s := out w i life s banner
  if required then say w i life (shellFlush w s) loginPrompt
  else shellFlush w (shellPrompt w i life s)

def scanSlot (s : Server) (i : Nat) : Server :=
  let c := s.net.sockets i
  if c.used && c.state == .established && c.localPort == bindPort then
    if (s.sessions i).active then s else greet w s i
  else if !c.used && (s.sessions i).active then
    s.setSession i { s.sessions i with active := false, line := [] }
  else s

def accept (net : Net) : Option Nat :=
  pool.find? fun a =>
    let c := net.sockets a
    c.used && a != 0 && c.localPort == (net.sockets 0).localPort &&
      (c.state == .established || c.state == .closeWait) && !c.rx.isEmpty

def takeInput (s : Server) : Server :=
  match accept s.net with
  | none => s
  | some a =>
      if (s.sessions a).active then
        let (net, bytes) := tcpRead w.kernel s.net a rxBufferSize
        feed w a (lives s.net a) { s with net := net } bytes
      else s

def pass (s : Server) (packet : Option Segment) : Server :=
  let s := match packet with
    | some t => onPacket w s t
    | none => s
  takeInput w (pool.foldl (scanSlot w) s)

/-- The listening socket in slot 0. -/
def start : Server := { net := listen (bind (socketClaim {} 0 0) 0 bindPort) 0 }

def run (packets : List (Option Segment)) : Server := packets.foldl (pass w) start

end Steps

end R2Apps.TntServer
