import R2Apps.GoSlices
import R2Apps.StreamReceive

/-! The sending side of `r2net/tcp.go` over the receiving side of a connection: `transmit`, `tick`,
`Write` from one wait to the next, and `Close`. Segments and ticks come in during the waits; what ends
a wait with an error, the deadline or a check of the caller, is up to the environment. Left out: the
window probes, which leave nothing behind that is read here. -/
namespace R2Apps.StreamSockets
open StreamReceive GoSlices

abbrev Bytes := List UInt8

def flagPSH : UInt8 := 0x08
def maxSendMSS : Nat := 1024
def defaultPeerMSS : Nat := 536
def initialRTO : UInt64 := 400
def maxRTO : UInt64 := 3200
def maxRetries : Nat := 5

/-- The loop over the options; each turn takes a byte at least. -/
def peerMSSFrom : Nat → Bytes → Nat
  | left + 1, kind :: rest =>
      if kind = 0 then defaultPeerMSS
      else if kind = 1 then peerMSSFrom left rest
      else
        let n := (at_ rest 0).toNat
        if rest = [] ∨ n < 2 ∨ n > (kind :: rest).length then defaultPeerMSS
        else
          let mss := join (at_ rest 1) (at_ rest 2)
          if kind = 2 ∧ n = 4 ∧ mss > 0 then mss else peerMSSFrom left (rest.drop (n - 1))
  | _, _ => defaultPeerMSS

def tcpPeerMSS (options : Bytes) : Nat := peerMSSFrom options.length options

structure Socket where
  conn : Conn := {}
  peerMSS : Nat := 0
  sentAt : UInt64 := 0
  rto : UInt64 := initialRTO
  retries : Nat := 0

inductive WriteError where
  | conn (e : ConnError)
  | closed
  | waiting
  | link
deriving DecidableEq

def usable (c : Conn) : Option WriteError :=
  match c.err with
  | some e => some (.conn e)
  | none => if c.state = .established ∨ c.state = .closeWait then none else some .closed

/-- Sends a segment, and remembers it when it takes sequence numbers. -/
def Socket.transmit (s : Socket) (flags : UInt8) (data : Option Bytes) (now : UInt64) (sends : Bool) :
    Socket × Bool :=
  if sends then
    let used := UInt32.ofNat (data.getD []).length + if flags &&& (flagSYN ||| flagFIN) ≠ 0 then 1 else 0
    if used = 0 then (s, true)
    else
      ({ s with
          conn := { s.conn with
            snd := s.conn.snd + used
            pending := data
            pendFlags := flags
            pendSeq := s.conn.snd }
          sentAt := now
          retries := 0
          rto := initialRTO }, true)
  else (s, false)

/-- The segment sent again is the pending one; nothing else of the connection changes. -/
def Socket.tick (s : Socket) (now : UInt64) : Socket :=
  if s.conn.pending = none ∧ s.conn.pendFlags = 0 then s
  else if s.conn.state = .closed ∨ now < s.sentAt + s.rto then s
  else if s.retries ≥ maxRetries then
    { s with conn := { s.conn with err := some .timeout, state := .closed, pending := none } }
  else { s with retries := s.retries + 1, rto := min (s.rto * 2) maxRTO, sentAt := now }

def Socket.onTCP (s : Socket) (flags : UInt8) (seq ack : UInt32) (options data : Bytes) : Socket :=
  { s with
    peerMSS :=
      if s.conn.state = .synSent ∧ flags &&& (flagSYN ||| flagACK) = flagSYN ||| flagACK ∧
        ack = s.conn.snd then
        tcpPeerMSS options
      else s.peerMSS
    conn := s.conn.onSegment flags seq ack data }

def Socket.drop (s : Socket) : Socket :=
  { s with
    conn := { s.conn with state := .closed, pending := none, pendFlags := 0, rx := [], reorder := {} } }

/-- `Close` up to its wait: whether it waits for the peer, or is done. -/
def Socket.close (s : Socket) (now : UInt64) (sends : Bool) : Socket × Bool :=
  match s.conn.state with
  | .established | .closeWait =>
      match ({ s with conn := { s.conn with pending := none } }).transmit (flagFIN ||| flagACK) none
          now sends with
      | (s, false) => (s.drop, false)
      | (s, true) => ({ s with conn := { s.conn with state := .finWait } }, true)
  | .synSent => ((s.transmit flagRST none now sends).1.drop, false)
  | .finWait | .closed => (s.drop, false)

/-- The most that `Write` puts into one segment. -/
def Socket.limit (s : Socket) : Nat :=
  min (if s.peerMSS = 0 then defaultPeerMSS else s.peerMSS) maxSendMSS

/-- A `Write` in its wait: the one before a segment, or the last one. -/
structure Writer where
  b : Bytes
  sent : Nat := 0
  last : Bool := false
  entry : UInt32
  /-- How many segments with new data had been sent by then. -/
  mark : Nat

inductive Phase where
  | idle
  | writing (w : Writer)
  | returned (w : Writer) (err : Option WriteError)
  | closing

def atTop (c : Conn) (w : Writer) : Phase :=
  if w.sent < w.b.length then
    match usable c with
    | some e => .returned w (some e)
    | none => .writing { w with last := false }
  else .writing { w with last := true }

/-- A connection and its caller. The last three fields are a history that nothing reads. -/
structure System where
  sock : Socket
  phase : Phase := .idle
  /-- The data of the segments with new data, one after another. -/
  stream : List Bytes := []
  /-- How many sequence numbers the peer has acknowledged since the handshake. -/
  acked : Nat := 0
  /-- Whether a segment with `ack = snd` has come since `Close`. -/
  finAcked : Bool := false

def System.conn (s : System) : Conn := s.sock.conn

def System.busy (s : System) : Bool :=
  match s.phase with
  | .idle | .returned _ _ => false
  | .writing _ | .closing => true

def System.turn (s : System) (w : Writer) (now : UInt64) (sends : Bool) : System :=
  if s.conn.pending = none ∨ s.conn.state = .closed then
    match usable s.conn with
    | some e => { s with phase := .returned w (some e) }
    | none =>
        if w.last then { s with phase := .returned w none }
        else
          let n := min (w.b.length - w.sent) s.sock.limit
          let data := (w.b.drop w.sent).take n
          match s.sock.transmit (flagACK ||| flagPSH) (some data) now sends with
          | (_, false) => { s with phase := .returned w (some .link) }
          | (sock, true) =>
              { s with
                sock := sock
                stream := s.stream ++ [data]
                phase := atTop sock.conn { w with sent := w.sent + n } }
  else s

inductive Event where
  | segment (flags : UInt8) (seq ack : UInt32) (options data : Bytes)
  | tick (now : UInt64)
  | write (b : Bytes)
  | turn (now : UInt64) (sends : Bool)
  | giveUp
  | read (size : Nat)
  | close (now : UInt64) (sends : Bool)
  | drop

def isReset (flags : UInt8) : Bool := flags &&& flagRST ≠ 0
def isAck (flags : UInt8) : Bool := flags &&& flagACK ≠ 0
def isFin (flags : UInt8) : Bool := flags &&& flagFIN ≠ 0

def System.segment (s : System) (flags : UInt8) (seq ack : UInt32) (options data : Bytes) : System :=
  let sock := s.sock.onTCP flags seq ack options data
  { s with
    sock := sock
    acked := if s.conn.state = .synSent then s.acked else s.acked + (sock.conn.sndUna - s.conn.sndUna).toNat
    finAcked := s.finAcked ||
      decide (s.conn.state = .finWait ∧ isReset flags = false ∧ isAck flags = true ∧ ack = s.conn.snd) }

/-- What cannot happen in a phase changes nothing. -/
def System.step (s : System) : Event → System
  | .segment flags seq ack options data => s.segment flags seq ack options data
  | .tick now => { s with sock := s.sock.tick now }
  | .write b =>
      if s.busy then s
      else { s with phase := atTop s.conn { b := b, entry := s.conn.snd, mark := s.stream.length } }
  | .turn now sends =>
      match s.phase with
      | .writing w => s.turn w now sends
      | _ => s
  | .giveUp =>
      match s.phase with
      | .writing w => { s with phase := .returned w (some .waiting) }
      | _ => s
  | .read size => if s.busy then s else { s with sock := { s.sock with conn := (s.conn.read size).1 } }
  | .close now sends =>
      if s.busy then s
      else
        let (sock, waits) := s.sock.close now sends
        { s with sock := sock, phase := if waits then .closing else .idle }
  | .drop =>
      match s.phase with
      | .closing => { s with sock := s.sock.drop, phase := .idle }
      | _ => s

def System.run (s : System) (events : List Event) : System := events.foldl System.step s

def dialled (isn : UInt32) (now : UInt64) : System where
  sock := (Socket.transmit { conn := { snd := isn, sndUna := isn } } flagSYN none now true).1

theorem close_cases (s : Socket) (now : UInt64) (sends : Bool) :
    (s.close now sends).1.peerMSS = s.peerMSS ∧
      ((s.close now sends).1.conn = { s.conn with
          state := .closed, pending := none, pendFlags := 0, rx := [], reorder := {} } ∧
        (s.close now sends).2 = false ∨
      (s.conn.state = .established ∨ s.conn.state = .closeWait) ∧ (s.close now sends).2 = true ∧
        (s.close now sends).1.conn = { s.conn with
          state := .finWait, pending := none, snd := s.conn.snd + 1, pendFlags := flagFIN ||| flagACK
          pendSeq := s.conn.snd }) := by
  unfold Socket.close
  cases s.conn.state <;> cases sends
  all_goals
    refine ⟨rfl, ?_⟩
    first | exact .inl ⟨rfl, rfl⟩ | exact .inr ⟨.inl rfl, rfl, rfl⟩ | exact .inr ⟨.inr rfl, rfl, rfl⟩

/-! ## What a segment does to the sending side -/

structure SameSending (c c' : Conn) : Prop where
  snd : c'.snd = c.snd
  sndUna : c'.sndUna = c.sndUna
  pending : c'.pending = c.pending
  pendFlags : c'.pendFlags = c.pendFlags
  pendSeq : c'.pendSeq = c.pendSeq
  err : c'.err = c.err

theorem SameSending.refl (c : Conn) : SameSending c c := ⟨rfl, rfl, rfl, rfl, rfl, rfl⟩

theorem SameSending.trans {a b c : Conn} (ab : SameSending a b) (bc : SameSending b c) : SameSending a c :=
  ⟨bc.snd.trans ab.snd, bc.sndUna.trans ab.sndUna, bc.pending.trans ab.pending,
    bc.pendFlags.trans ab.pendFlags,
    bc.pendSeq.trans ab.pendSeq, bc.err.trans ab.err⟩

theorem drain_sending (fuel : Nat) (c : Conn) :
    SameSending c (c.drain fuel) ∧ (c.drain fuel).state = c.state ∧ (c.drain fuel).peerFIN = c.peerFIN := by
  induction fuel generalizing c with
  | zero => exact ⟨.refl c, rfl, rfl⟩
  | succ fuel ih =>
      simp only [Conn.drain]
      split
      · exact ⟨⟨rfl, rfl, rfl, rfl, rfl, rfl⟩, rfl, rfl⟩
      · have took : SameSending c
            (({ c with reorder := (c.reorder.take c.rcv).1 } : Conn).append (c.reorder.take c.rcv).2) :=
          ⟨rfl, rfl, rfl, rfl, rfl, rfl⟩
        obtain ⟨same, state, fin⟩ := ih _
        exact ⟨took.trans same, state, fin⟩

theorem onData_sending (c : Conn) (seq : UInt32) (data : Bytes) :
    SameSending c (c.onData seq data) ∧ (c.onData seq data).state = c.state ∧
      (c.onData seq data).peerFIN = c.peerFIN := by
  simp only [Conn.onData]
  split
  · exact ⟨⟨rfl, rfl, rfl, rfl, rfl, rfl⟩, rfl, rfl⟩
  · split
    · exact ⟨.refl c, rfl, rfl⟩
    · have took : SameSending c (c.append (tcpPayload c.rcv seq data c.receiveWindow)) :=
        ⟨rfl, rfl, rfl, rfl, rfl, rfl⟩
      obtain ⟨same, state, fin⟩ := drain_sending (c.reorder.segments.length + 1)
        (c.append (tcpPayload c.rcv seq data c.receiveWindow))
      exact ⟨took.trans same, state, fin⟩

/-- An acknowledgement of what has been sent, up to the end of the segment that is outstanding. -/
def clears (c : Conn) (ack : UInt32) : Bool :=
  !seqLess c.snd ack && !seqLess ack (c.pendSeq + (UInt32.ofNat (c.pending.getD []).length +
    if c.pendFlags &&& (flagSYN ||| flagFIN) ≠ 0 then 1 else 0))

def advances (c : Conn) (ack : UInt32) : Bool := !seqLess c.snd ack && seqLess c.sndUna ack

theorem onAck_eq (c : Conn) (ack : UInt32) :
    c.onAck ack = { c with
      sndUna := if advances c ack then ack else c.sndUna
      pending := if clears c ack then none else c.pending
      pendFlags := if clears c ack then 0 else c.pendFlags } := by
  obtain ⟨state, err, snd, sndUna, rcv, rx, reorder, peerFIN, received, gaps, pending, pendFlags,
    pendSeq⟩ := c
  unfold Conn.onAck advances clears
  simp only [ne_eq, ite_not]
  -- an acknowledgement of something that was never sent is left alone
  cases future : seqLess snd ack with
  | true => simp
  | false =>
      cases new : seqLess sndUna ack <;> simp only [if_true, if_false, Bool.false_eq_true]
      all_goals
        generalize UInt32.ofNat (pending.getD []).length +
          (if pendFlags &&& (flagSYN ||| flagFIN) = 0 then 0 else 1) = used
        by_cases nothing : pending = none ∧ pendFlags = 0
        · obtain ⟨rfl, rfl⟩ := nothing
          simp
        · cases covered : seqLess ack (pendSeq + used) <;> simp [nothing]

def acknowledged (c : Conn) (flags : UInt8) (ack : UInt32) : Conn := if isAck flags then c.onAck ack else c

/-- Whether a segment brings the peer's FIN, right behind the bytes taken so far and its own. -/
def finDue (c : Conn) (flags : UInt8) (seq : UInt32) (data : Bytes) : Bool :=
  isFin flags && decide (seq + UInt32.ofNat data.length =
    (if data.length > 0 then c.onData seq data else c).rcv)

/-- Past the handshake: everything but a reset. -/
structure Received (c : Conn) (flags : UInt8) (seq ack : UInt32) (data : Bytes) (c' : Conn) : Prop where
  same : SameSending (acknowledged c flags ack) c'
  peerFIN : c'.peerFIN = (c.peerFIN || finDue (acknowledged c flags ack) flags seq data)
  state : c'.state =
    if c.state = .finWait ∧ (acknowledged c flags ack).pending = none ∧ c'.peerFIN = true then .closed
    else if c.state = .established ∧ finDue (acknowledged c flags ack) flags seq data then .closeWait
    else c.state

theorem acknowledged_state (c : Conn) (flags : UInt8) (ack : UInt32) :
    (acknowledged c flags ack).state = c.state ∧ (acknowledged c flags ack).peerFIN = c.peerFIN := by
  unfold acknowledged
  split
  · rw [onAck_eq]
    exact ⟨rfl, rfl⟩
  · exact ⟨rfl, rfl⟩

theorem onSegment_steps {c : Conn} {flags : UInt8} (seq ack : UInt32) (data : Bytes)
    (kept : isReset flags = false) (dialled : c.state ≠ .synSent) (open_ : c.state ≠ .closed) :
    c.onSegment flags seq ack data =
      let c1 := acknowledged c flags ack
      let c2 := if data.length > 0 then c1.onData seq data else c1
      let c3 := if flags &&& flagFIN ≠ 0 then c2.onFIN seq data.length else c2
      if c3.state = .finWait ∧ c3.pending = none ∧ c3.peerFIN then { c3 with state := .closed } else c3 := by
  have noReset : ¬ flags &&& flagRST ≠ 0 := by simpa [isReset] using kept
  have branch : acknowledged c flags ack = if flags &&& flagACK ≠ 0 then c.onAck ack else c := by
    simp [acknowledged, isAck]
  rw [branch, Conn.onSegment, if_neg noReset]
  cases state : c.state with
  | synSent => exact absurd state dialled
  | closed => exact absurd state open_
  | established => rfl
  | closeWait => rfl
  | finWait => rfl

theorem onFIN_due {c : Conn} {flags : UInt8} {seq : UInt32} {length : Nat} {due : Bool}
    (is : due = (isFin flags && decide (seq + UInt32.ofNat length = c.rcv))) :
    SameSending c (if flags &&& flagFIN ≠ 0 then c.onFIN seq length else c) ∧
      (if flags &&& flagFIN ≠ 0 then c.onFIN seq length else c).state =
        (if c.state = .established ∧ due then .closeWait else c.state) ∧
      (if flags &&& flagFIN ≠ 0 then c.onFIN seq length else c).peerFIN = (c.peerFIN || due) := by
  rw [is]
  split
  · next fin =>
    have flag : isFin flags = true := by simpa [isFin] using fin
    rw [flag, Bool.true_and]
    simp only [Conn.onFIN]
    split
    · next early => exact ⟨.refl c, by simp [early], by simp [early]⟩
    · next at_ =>
      rw [ne_eq, not_not] at at_
      split
      · next open_ => exact ⟨⟨rfl, rfl, rfl, rfl, rfl, rfl⟩, by simp [at_, open_], by simp [at_]⟩
      · next other => exact ⟨⟨rfl, rfl, rfl, rfl, rfl, rfl⟩, by simp [other], by simp [at_]⟩
  · next none_ =>
    have flag : isFin flags = false := by simpa [isFin] using none_
    exact ⟨.refl c, by simp [flag], by simp [flag]⟩

theorem onSegment_received {c : Conn} {flags : UInt8} (seq ack : UInt32) (data : Bytes)
    (kept : isReset flags = false) (dialled : c.state ≠ .synSent) (open_ : c.state ≠ .closed) :
    Received c flags seq ack data (c.onSegment flags seq ack data) := by
  have ackState := acknowledged_state c flags ack
  rw [onSegment_steps seq ack data kept dialled open_]
  dsimp only
  generalize behind : acknowledged c flags ack = c1 at ackState ⊢
  obtain ⟨sameData, stateData, finData⟩ :
    SameSending c1 (if data.length > 0 then c1.onData seq data else c1) ∧
      (if data.length > 0 then c1.onData seq data else c1).state = c1.state ∧
      (if data.length > 0 then c1.onData seq data else c1).peerFIN = c1.peerFIN := by
    split
    · exact onData_sending c1 seq data
    · exact ⟨.refl c1, rfl, rfl⟩
  have due : finDue c1 flags seq data = (isFin flags && decide (seq + UInt32.ofNat data.length =
      (if data.length > 0 then c1.onData seq data else c1).rcv)) := rfl
  generalize (if data.length > 0 then c1.onData seq data else c1) = c2 at sameData stateData finData due ⊢
  obtain ⟨same, state, fin⟩ := onFIN_due due
  generalize (if flags &&& flagFIN ≠ 0 then c2.onFIN seq data.length else c2) = c3 at same state fin ⊢
  have whole := sameData.trans same
  have taken : c3.peerFIN = (c.peerFIN || finDue c1 flags seq data) := by rw [fin, finData, ackState.2]
  rw [stateData, ackState.1] at state
  subst behind
  split
  · next closes =>
    obtain ⟨waits, nothing, done⟩ := closes
    have was : c.state = .finWait := by
      rw [state] at waits
      split at waits
      · cases waits
      · exact waits
    refine ⟨⟨whole.snd, whole.sndUna, whole.pending, whole.pendFlags, whole.pendSeq, whole.err⟩, taken, ?_⟩
    rw [if_pos ⟨was, whole.pending.symm.trans nothing, done⟩]
  · next open_ =>
    refine ⟨whole, taken, ?_⟩
    rw [state]
    split
    · next half =>
      rw [if_neg (by rw [half.1]; simp)]
    · next same_ =>
      rw [if_neg same_] at state
      rw [if_neg]
      rintro ⟨was, nothing, done⟩
      exact open_ ⟨state.trans was, whole.pending.trans nothing, done⟩

theorem onSegment_reset (c : Conn) {flags : UInt8} (seq ack : UInt32) (data : Bytes)
    (reset : isReset flags = true) :
    ∃ e, c.onSegment flags seq ack data = { c with err := some e, state := .closed, pending := none } := by
  have flag : flags &&& flagRST ≠ 0 := by simpa [isReset] using reset
  rw [Conn.onSegment, if_pos flag]
  exact ⟨_, rfl⟩

theorem onSegment_closed {c : Conn} {flags : UInt8} (seq ack : UInt32) (data : Bytes)
    (kept : isReset flags = false) (closed : c.state = .closed) : c.onSegment flags seq ack data = c := by
  have flag : ¬ flags &&& flagRST ≠ 0 := by simpa [isReset] using kept
  rw [Conn.onSegment, if_neg flag, closed]

theorem onSegment_synSent {c : Conn} {flags : UInt8} (seq ack : UInt32) (data : Bytes)
    (kept : isReset flags = false) (waits : c.state = .synSent) :
    c.onSegment flags seq ack data = c ∨
      ack = c.snd ∧ c.onSegment flags seq ack data = { c with
        rcv := seq + 1, sndUna := ack, pending := none, pendFlags := 0, state := .established } := by
  have flag : ¬ flags &&& flagRST ≠ 0 := by simpa [isReset] using kept
  rw [Conn.onSegment, if_neg flag, waits]
  dsimp only
  split
  · exact .inl rfl
  · next other =>
    split
    · exact .inl rfl
    · next both =>
      refine .inr ⟨?_, rfl⟩
      by_contra elsewhere
      exact other ⟨fun none_ => both (.inr none_), elsewhere⟩

end R2Apps.StreamSockets
