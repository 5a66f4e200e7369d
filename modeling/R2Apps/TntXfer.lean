import R2Apps.Crc32
import R2Apps.SerialNumbers
import R2Apps.TcpSockets

/-! The sending side of tnt's `get` and `read`: `tnt/xfer.c` from the stream up to
`send_stream`, over the socket layer of libcr2. One turn of `send_stream`'s loop takes
at most one segment. The kernel's answers, the disk's, the segments and the clock are
the environment's. -/
namespace R2Apps.TntXfer
open R2Apps.TcpSockets R2Apps.Crc32

abbrev Bytes := List UInt8

def segSize : Nat := 1024
def cwndMax : Nat := 16
def cacheCap : Nat := 8192
def rtoMin : UInt64 := 250
def rtoMax : UInt64 := 2000
def stallMs : UInt64 := 15000
def finTries : Nat := 5

def crc32Update (crc : UInt32) (p : Bytes) : UInt32 := ~~~p.foldl feedByte (~~~crc)

section Stream

inductive Source where
  | file (content : Bytes)
  | memory (content : Bytes)

def Source.content : Source → Bytes
  | .file content => content
  | .memory content => content

/-- One call of `send_stream`: what is sent, where, and what the caller said of the size. -/
structure Job where
  head : Bytes
  source : Source
  size : Option Nat
  keepOpen : Bool
  pool : List Nat
  session : Nat
  conn : Nat

def Job.stream (job : Job) : Bytes := job.head ++ job.source.content

/-- One aligned block of the file; `cache_len` is the length of `bytes`. -/
structure Disk where
  off : Nat
  bytes : Bytes
  valid : Bool
  readError : Bool
  reads : Nat

variable (disk : Nat → Bool)

/-- `read_file_at`: the k-th read goes through or not, and is short at the end. -/
def readFileAt (content : Bytes) (k off len : Nat) : Option Bytes :=
  if disk k then some ((content.drop off).take len) else none

def Disk.load (d : Disk) (content : Bytes) (f : Nat) : Disk :=
  let off := f - f % cacheCap
  match readFileAt disk content d.reads off cacheCap with
  | some bytes => { d with off := off, bytes := bytes, valid := true, reads := d.reads + 1 }
  | none => { d with off := off, bytes := [], valid := true, readError := true, reads := d.reads + 1 }

/-- The block that holds `f`, read when it is not the one at hand. -/
def Disk.seek (d : Disk) (content : Bytes) (f : Nat) : Disk :=
  if d.valid = false ∨ f < d.off ∨ f ≥ d.off + d.bytes.length then d.load disk content f else d

/-- The loop of `stream_copy` over the blocks; each turn but the last copies a byte at
least, so `fuel` is the bytes still wanted. -/
def copyBlocks (content : Bytes) : Nat → Disk → Nat → Nat → Bytes → Disk × Bytes
  | 0, d, _, _, got => (d, got)
  | fuel + 1, d, f, want, got =>
    if want = 0 then (d, got)
    else
      let d := d.seek disk content f
      if f ≥ d.off + d.bytes.length then (d, got) -- end of file
      else
        let k := min (d.off + d.bytes.length - f) want
        copyBlocks content fuel d (f + k) (want - k) (got ++ (d.bytes.drop (f - d.off)).take k)

def streamCopy (job : Job) (d : Disk) (off len : Nat) : Disk × Bytes :=
  let front := (job.head.drop off).take len
  let f := off + front.length - job.head.length
  match job.source with
  | .memory content => (d, front ++ (content.drop f).take (len - front.length))
  | .file content => copyBlocks disk content (len - front.length) d f (len - front.length) front

end Stream

section Peer

/-- What the peer of the data connection has told us. `heard` is for the statements:
the ACK numbers of its segments. -/
structure Peer where
  ip : UInt32
  rport : UInt16
  lport : UInt16
  base : UInt32
  acked : Nat
  hi : Nat
  window : UInt16
  dup : Nat
  progress : Bool
  reset : Bool
  fin : Bool
  heard : List UInt32

def Peer.sends (p : Peer) (t : Segment) : Bool :=
  t.destPort == p.lport && t.sourcePort == p.rport && t.srcIp == p.ip

def swap16 (w : UInt16) : UInt16 := w <<< 8 ||| w >>> 8

def Peer.onAck (p : Peer) (t : Segment) : Peer :=
  let d := (t.ackNum - p.base).toInt32
  if (UInt32.ofNat p.acked).toInt32 < d ∧ d ≤ (UInt32.ofNat p.hi).toInt32 then
    { p with acked := (t.ackNum - p.base).toNat, dup := 0, progress := true }
  else if d = (UInt32.ofNat p.acked).toInt32 ∧ t.data.isEmpty ∧ !t.has flagSyn ∧ !t.has flagFin then
    { p with dup := if p.dup < 255 then p.dup + 1 else p.dup }
  else p

def Peer.watch (p : Peer) (t : Segment) : Peer :=
  let p := if t.has flagRst then { p with reset := true } else p
  if t.has flagAck then
    -- parse_tcp_packet has already put the window into host order
    { p with window := swap16 t.windowSize, heard := p.heard ++ [t.ackNum] }.onAck t
  else p

end Peer

section Transfer

inductive Status where
  | ok
  | cancelled
  | stalled
  | reset
  | readError
deriving DecidableEq

inductive Phase where
  | sending
  | closing (tries : Nat) -- our FIN is out
  | returned (status : Status)
deriving DecidableEq

/-- `send_stream` between two turns. `total` is `none` while it is not known;
`stopped` is `status == XFER_CANCELLED`. `wrote` is for the statements: what was
given to `write`, and the socket's sequence number then. -/
structure Xfer where
  net : Net
  peer : Peer
  disk : Disk
  total : Option Nat
  next : Nat
  crcOff : Nat
  cwnd : Nat
  rto : UInt64
  recovering : Bool
  mark : UInt64
  lastProgress : UInt64
  stopped : Bool
  bytes : Nat
  crc32 : UInt32
  resent : Nat
  phase : Phase
  wrote : List (UInt32 × Bytes)

variable (kernel : Nat → Bool) (disk : Nat → Bool) (job : Job)

def Xfer.conn (x : Xfer) : Socket := x.net.sockets job.conn

/-- A FIN that the TCP layer does not get to see. -/
def ownFin (x : Xfer) (t : Segment) : Bool :=
  x.peer.sends t && t.has flagFin && ((x.conn job).state == .established || (x.conn job).state == .closeWait)

def answerFin (x : Xfer) (t : Segment) : Xfer :=
  if (x.conn job).used then
    if t.seqNum + t.dataLen = (x.conn job).ackNum then
      let net := x.net.set job.conn { x.conn job with ackNum := (x.conn job).ackNum + 1, state := .closeWait }
      { x with net := sendTcpPacket kernel net job.conn 0 flagAck, peer := { x.peer with fin := true } }
    else if t.seqNum + t.dataLen + 1 = (x.conn job).ackNum then
      { x with net := sendTcpPacket kernel x.net job.conn 0 flagAck } -- our ACK of it was lost
    else x
  else x

def pump (x : Xfer) (arrival : Option Segment) : Xfer :=
  match arrival with
  | none => x
  | some t =>
    let own := ownFin job x t
    let seen := if x.peer.sends t then x.peer.watch t else x.peer
    let shown := if own then { t with flags := t.flags &&& ~~~flagFin } else t
    let x := { x with peer := seen, net := onTcpPacket kernel x.net job.pool shown }
    if own then answerFin kernel job x t else x

def peerGone (x : Xfer) : Bool :=
  x.peer.reset || !(x.conn job).used || (x.conn job).remotePort != x.peer.rport ||
    (x.conn job).remoteIp != x.peer.ip

def keyTyped (x : Xfer) : Bool :=
  let session := x.net.sockets job.session
  session.used && !session.rx.isEmpty

def takeKey (x : Xfer) : Xfer :=
  { x with net := x.net.set job.session { x.net.sockets job.session with rx := [] } }

def abortConn (x : Xfer) : Xfer :=
  if (x.conn job).used then
    { x with net := freeSocket (sendTcpPacket kernel x.net job.conn 0 (flagRst ||| flagAck)) job.conn }
  else x

def Xfer.leave (x : Xfer) (status : Status) : Xfer := { x with phase := .returned status }

def stopHere (x : Xfer) : Xfer :=
  { x with stopped := true, total := some (if x.peer.hi > x.next then x.peer.hi else x.next) }

def onProgress (x : Xfer) (now : UInt64) : Xfer :=
  if x.peer.progress then
    { x with
      peer := { x.peer with progress := false }
      recovering := false
      rto := rtoMin
      mark := now
      lastProgress := now
      cwnd := if x.cwnd < cwndMax then x.cwnd + 1 else x.cwnd
      next := if x.next < x.peer.acked then x.peer.acked else x.next }
  else x

/-- Timeout, or three duplicates: everything past what arrived is sent again. -/
def goBack (x : Xfer) (now : UInt64) : Xfer :=
  if x.next > x.peer.acked ∧ now - x.mark ≥ x.rto then
    { x with
      next := x.peer.acked, cwnd := 1, rto := if x.rto * 2 > rtoMax then rtoMax else x.rto * 2, mark := now,
      recovering := true }
  else if x.peer.dup ≥ 3 ∧ x.recovering = false then
    { x with
      next := x.peer.acked, cwnd := if x.cwnd / 2 ≠ 0 then x.cwnd / 2 else 1, mark := now, recovering := true,
      peer := { x.peer with dup := 0 } }
  else x

def window (x : Xfer) : Nat := min (x.cwnd * segSize) x.peer.window.toNat

/-- Folds the file bytes of `buf` that were not folded in yet. -/
def fold (x : Xfer) (buf : Bytes) : Xfer :=
  if x.next + buf.length > job.head.length ∧ x.next + buf.length - job.head.length > x.crcOff then
    let skip := if x.next > x.crcOff + job.head.length then 0 else x.crcOff + job.head.length - x.next
    { x with
      crc32 := crc32Update x.crc32 (buf.drop skip), crcOff := x.next + buf.length - job.head.length }
  else x

/-- `conn->seq_num` is set, and the buffer written. -/
def writeAt (x : Xfer) (buf : Bytes) : Xfer :=
  let net := x.net.set job.conn { x.conn job with seqNum := x.peer.base + UInt32.ofNat x.next }
  { x with
    net := (tcpWrite kernel net job.conn buf.length).1
    wrote := x.wrote ++ [((net.sockets job.conn).seqNum, buf)] }

def emit (x : Xfer) (buf : Bytes) (now : UInt64) : Xfer :=
  let x := fold job x buf
  let x := { x with
    resent := if x.next < x.peer.hi then x.resent + 1 else x.resent
    mark := if x.next - x.peer.acked = 0 then now else x.mark }
  let x := writeAt kernel job x buf
  { x with
    next := x.next + buf.length
    peer := { x.peer with hi := if x.next + buf.length > x.peer.hi then x.next + buf.length else x.peer.hi } }

def wanted (x : Xfer) : Nat :=
  match x.total with
  | some total => min segSize (total - x.next)
  | none => segSize

def more (x : Xfer) : Bool :=
  match x.total with
  | some total => x.next < total
  | none => true

/-- A short read is the end of the stream. -/
def noteEnd (x : Xfer) (buf : Bytes) : Xfer :=
  if buf.length < wanted x then { x with total := some (x.next + buf.length) } else x

/-- The loop that fills the window; each turn but the last sends a byte at least. -/
def fill (limit : Nat) (now : UInt64) : Nat → Xfer → Xfer
  | 0, x => x
  | fuel + 1, x =>
    if more x then
      if x.next - x.peer.acked ≠ 0 ∧ x.next - x.peer.acked + wanted x > limit then x
      else
        let copy := streamCopy disk job x.disk x.next (wanted x)
        let x := { x with disk := copy.1 }
        if copy.1.readError then x
        else if copy.2 = [] then noteEnd x copy.2
        else fill limit now fuel (emit kernel job (noteEnd x copy.2) copy.2 now)
    else x

/-- `total_known && peer.acked >= total`. -/
def arrived (x : Xfer) : Bool :=
  match x.total with
  | some total => total ≤ x.peer.acked
  | none => false

/-- Behind the loop: the session goes on behind the stream, or the FIN goes out. -/
def finishStream (x : Xfer) (total : Nat) (later : UInt64) : Xfer :=
  let x := { x with bytes := total - job.head.length }
  if job.keepOpen then
    { x with net := x.net.set job.conn { x.conn job with seqNum := x.peer.base + UInt32.ofNat total } }.leave
      (if x.stopped then .cancelled else .ok)
  else
    { x with
      net := tcpClose kernel x.net job.conn
      peer := { x.peer with hi := total + 1 }
      mark := later
      rto := rtoMin
      phase := .closing 0 }

def sendMore (x : Xfer) (now later : UInt64) : Xfer :=
  let x := goBack x now
  let x := fill kernel disk job (window x) now (job.stream.length - x.next + 1) x
  if x.disk.readError then (abortConn kernel job x).leave .readError
  else
    match x.total with
    | some total => if x.next ≥ total ∧ x.peer.acked ≥ total then finishStream kernel job x total later else x
    | none => x

def sendOn (x : Xfer) (now later : UInt64) : Xfer :=
  let x := onProgress x now
  if arrived x then finishStream kernel job x (x.total.getD 0) later
  else if now - x.lastProgress > stallMs then (abortConn kernel job x).leave .stalled
  else sendMore kernel disk job x now later

def sendTurn (x : Xfer) (arrival : Option Segment) (now later : UInt64) : Xfer :=
  let x := pump kernel job x arrival
  if peerGone job x then x.leave .reset
  else if x.stopped = false ∧ keyTyped job x then
    let x := takeKey job x
    if job.keepOpen then sendOn kernel disk job (stopHere x) now later
    else (abortConn kernel job x).leave .cancelled
  else sendOn kernel disk job x now later

def closeTurn (x : Xfer) (tries : Nat) (arrival : Option Segment) (now later : UInt64) : Xfer :=
  let x := pump kernel job x arrival
  let total := x.total.getD 0
  if peerGone job x then x.leave .ok
  else if x.peer.acked = total + 1 then
    (if x.peer.fin then { x with net := freeSocket x.net job.conn } else x).leave .ok
  else if now - x.mark ≥ x.rto then
    let net := x.net.set job.conn { x.conn job with seqNum := x.peer.base + UInt32.ofNat total }
    { x with
      net := sendTcpPacket kernel net job.conn 0 (flagFin ||| flagAck)
      mark := later
      rto := x.rto * 2
      phase := if tries + 1 < finTries then .closing (tries + 1) else .returned .ok }
  else x

def turn (x : Xfer) (arrival : Option Segment) (now later : UInt64) : Xfer :=
  match x.phase with
  | .sending => sendTurn kernel disk job x arrival now later
  | .closing tries => closeTurn kernel job x tries arrival now later
  | .returned _ => x

/-- `send_stream` called: `p` is the peer as `xfer_send` left it. -/
def begin (net : Net) (p : Peer) (reads : Nat) (now : UInt64) : Xfer where
  net := net
  peer := { p with
    base := (net.sockets job.conn).seqNum, acked := 0, hi := 0, dup := 0, progress := false, heard := [] }
  disk := { off := 0, bytes := [], valid := false, readError := false, reads := reads }
  total := job.size.map fun size => job.head.length + size
  next := 0
  crcOff := 0
  cwnd := 2
  rto := rtoMin
  recovering := false
  mark := now
  lastProgress := now
  stopped := false
  bytes := 0
  crc32 := 0
  resent := 0
  phase := .sending
  wrote := []

end Transfer
end R2Apps.TntXfer
