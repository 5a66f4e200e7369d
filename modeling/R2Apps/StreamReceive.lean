import Mathlib.Data.List.Basic
import Mathlib.Tactic.Ring

/-! The receive side of a TCP connection in `r2net/tcp.go` and
`r2net/tcp_receive.go`. Go's `int` is unbounded here: every value it takes is a
buffer length or a difference of two. Left out: what is only sent (segments,
timers, the advertised window), since nothing here reads it back. -/
namespace R2Apps.StreamReceive

def rxCap : Int := 16 * 1024

def flagFIN : UInt8 := 0x01
def flagSYN : UInt8 := 0x02
def flagRST : UInt8 := 0x04
def flagACK : UInt8 := 0x10

/-- Whether `b` comes after `a` in sequence order. -/
def seqLess (a b : UInt32) : Bool := decide ((a - b).toInt32 < 0)

/-- The new part of a segment that starts at or before `expected`, cut to `space`. -/
def tcpPayload (expected seq : UInt32) (data : List UInt8) (space : Int) : List UInt8 :=
  if (seq - expected).toInt32 > 0 then []
  else
    let overlap := expected - seq
    if seq ≠ expected ∧ overlap ≥ UInt32.ofNat data.length then []
    else
      let data := if seq ≠ expected then data.drop overlap.toNat else data
      let space := if space < 0 then 0 else space
      if data.length > space then data.take space.toNat else data

structure TcpSegment where
  seq : UInt32 := 0
  data : List UInt8 := []

structure TcpReorder where
  segments : List TcpSegment := List.replicate 16 {}
  bytes : Int := 0

/-- Whether the slot holds bytes of the range that is about to be stored. -/
def overlaps (expected : UInt32) (distance : Int32) (length : Nat) (segment : TcpSegment) : Bool :=
  let start := (segment.seq - expected).toInt32
  !segment.data.isEmpty && decide (distance < start + Int32.ofNat segment.data.length) &&
    decide (start < distance + Int32.ofNat length)

/-- The last free slot. -/
def freeSlot (segments : List TcpSegment) : Option Nat :=
  (List.range segments.length).reverse.find? fun i => segments[i]?.any fun s => s.data.isEmpty

def TcpReorder.store (q : TcpReorder) (expected seq : UInt32) (data : List UInt8) (window : Int) :
    TcpReorder :=
  let distance := (seq - expected).toInt32
  if distance ≤ 0 ∨ distance.toInt ≥ window then q
  else
    let data :=
      if data.length > window - distance.toInt then data.take (window - distance.toInt).toNat
      else data
    if data.length = 0 ∨ data.length > window - q.bytes then q
    else if q.segments.any (overlaps expected distance data.length) then q
    else match freeSlot q.segments with
      | none => q
      | some i =>
          { segments := q.segments.set i { seq := seq, data := data }
            bytes := q.bytes + data.length }

/-- The scan of `take`: the slots afterwards, the bytes they gave up, and the
data of the first one that had any left. -/
def takeFrom (expected : UInt32) : List TcpSegment → List TcpSegment × Int × List UInt8
  | [] => ([], 0, [])
  | segment :: rest =>
      if segment.data.isEmpty ∨ (segment.seq - expected).toInt32 > 0 then
        let (rest, freed, data) := takeFrom expected rest
        (segment :: rest, freed, data)
      else
        let data := tcpPayload expected segment.seq segment.data segment.data.length
        if data.isEmpty then
          let (rest, freed, data) := takeFrom expected rest
          ({} :: rest, segment.data.length + freed, data)
        else ({} :: rest, segment.data.length, data)

def TcpReorder.take (q : TcpReorder) (expected : UInt32) : TcpReorder × List UInt8 :=
  let (segments, freed, data) := takeFrom expected q.segments
  ({ segments := segments, bytes := q.bytes - freed }, data)

inductive ConnState where
  | synSent | established | closeWait | finWait | closed
  deriving DecidableEq

inductive ConnError where
  | refused | reset | timeout
  deriving DecidableEq

structure Conn where
  state : ConnState := .synSent
  err : Option ConnError := none
  snd : UInt32 := 0
  sndUna : UInt32 := 0
  rcv : UInt32 := 0
  rx : List UInt8 := []
  reorder : TcpReorder := {}
  peerFIN : Bool := false
  received : UInt32 := 0
  gaps : UInt32 := 0
  pending : Option (List UInt8) := none
  pendFlags : UInt8 := 0
  pendSeq : UInt32 := 0

def Conn.receiveWindow (c : Conn) : Int := rxCap - c.rx.length - c.reorder.bytes

def Conn.onAck (c : Conn) (ack : UInt32) : Conn :=
  if seqLess c.snd ack then c
  else
    let c := if seqLess c.sndUna ack then { c with sndUna := ack } else c
    if c.pending = none ∧ c.pendFlags = 0 then c
    else
      let used := UInt32.ofNat (c.pending.getD []).length +
        if c.pendFlags &&& (flagSYN ||| flagFIN) ≠ 0 then 1 else 0
      if !seqLess ack (c.pendSeq + used) then { c with pending := none, pendFlags := 0 } else c

/-- Appends bytes that are next in the stream. -/
def Conn.append (c : Conn) (bytes : List UInt8) : Conn :=
  { c with
    rx := c.rx ++ bytes
    rcv := c.rcv + UInt32.ofNat bytes.length
    received := c.received + UInt32.ofNat bytes.length }

/-- The loop that moves what the queue has next into `rx`. Each turn but the last
empties a slot, so as many turns as there are slots, and one, are enough. -/
def Conn.drain : Nat → Conn → Conn
  | 0, c => c
  | fuel + 1, c =>
      let (reorder, queued) := c.reorder.take c.rcv
      let c := { c with reorder := reorder }
      if queued.isEmpty then c else drain fuel (c.append queued)

def Conn.onData (c : Conn) (seq : UInt32) (data : List UInt8) : Conn :=
  if (seq - c.rcv).toInt32 > 0 then
    { c with
      gaps := c.gaps + 1
      reorder := c.reorder.store c.rcv seq data (rxCap - c.rx.length) }
  else
    let accepted := tcpPayload c.rcv seq data c.receiveWindow
    if accepted.isEmpty then c
    else (c.append accepted).drain (c.reorder.segments.length + 1)

def Conn.onFIN (c : Conn) (seq : UInt32) (dataLen : Nat) : Conn :=
  if seq + UInt32.ofNat dataLen ≠ c.rcv then c
  else
    let c := { c with peerFIN := true, rcv := c.rcv + 1 }
    if c.state = .established then { c with state := .closeWait } else c

def Conn.onSegment (c : Conn) (flags : UInt8) (seq ack : UInt32) (data : List UInt8) : Conn :=
  if flags &&& flagRST ≠ 0 then
    { c with
      err := some (if c.state = .synSent then .refused else .reset)
      state := .closed
      pending := none }
  else match c.state with
    | .synSent =>
        if flags &&& flagACK ≠ 0 ∧ ack ≠ c.snd then c
        else if flags &&& flagSYN = 0 ∨ flags &&& flagACK = 0 then c
        else { c with
          rcv := seq + 1, sndUna := ack, pending := none, pendFlags := 0
          state := .established }
    | .established | .closeWait | .finWait =>
        let c := if flags &&& flagACK ≠ 0 then c.onAck ack else c
        let c := if data.length > 0 then c.onData seq data else c
        let c := if flags &&& flagFIN ≠ 0 then c.onFIN seq data.length else c
        if c.state = .finWait ∧ c.pending = none ∧ c.peerFIN then { c with state := .closed } else c
    | .closed => c

/-- What `Read` takes out of `rx` once it has stopped waiting: up to the size of
the caller's buffer. A read that ends in an error takes nothing. -/
def Conn.read (c : Conn) (size : Nat) : Conn × List UInt8 :=
  ({ c with rx := c.rx.drop size }, c.rx.take size)

end R2Apps.StreamReceive
