import R2Apps.RntpIsolation
import R2Apps.TcpSending

/-! How `rntp/main.c` sends a frame over libcr2's TCP: `transmit` and `outgoing` on one connection, with the
bytes of its segments. The daemon builds its segments itself (`tcp_set_local_packet_crafting`) and
offers an MSS
of `TCP_MAX_PAYLOAD`, so that every segment no longer than that goes out. Segments without data take
no sequence
number and are left out. -/
namespace R2Apps.RntpTransport
open ByteMemory BufferPrefixes SerialNumbers RntpProtocol TcpSockets
open RntpServing (Stream retransmitMs acknowledge outgoing)

/-- A segment with data. The last field is not in the source: where the data stand in all that was
ever sent. -/
structure DataSegment where
  seq : UInt32
  data : List UInt8
  position : Nat

/-- A connection and what it has sent. `base` is not in the source: the bytes of the frames before
this one. -/
structure Conn where
  sock : Socket
  st : Stream := {}
  netNow : UInt32 := 0
  base : Nat := 0
  sent : List DataSegment := []

/-- What `tcp_peer_mss` gives when the peer's SYN offered this MSS. -/
def tcpPeerMss (offered : UInt16) : UInt32 :=
  min (if offered = 0 then 536 else offered.toUInt32) (UInt32.ofNat tcpMaxPayload)

section Sending

/-- `send_tcp_packet` of `len` bytes at `st->tx + offset`. -/
def sendData (c : Conn) (offset len : Nat) : Conn :=
  if len ≤ tcpMaxPayload then
    { c with
      sock := { c.sock with seqNum := c.sock.seqNum + UInt32.ofNat len }
      sent := c.sent ++ [⟨c.sock.seqNum, bytesAt c.st.tx offset len, c.base + offset⟩] }
  else c

def write (c : Conn) (offset len : Nat) : Conn × UInt32 :=
  let before := c.sock.seqNum
  let c := sendData c offset len
  let sent := c.sock.seqNum - before
  if sent = 0 then (c, 0) else ({ c with sock := { c.sock with lastActivity := c.netNow } }, sent)

def replayFrom (mss : UInt32) : Nat → Conn → UInt32 → Conn
  | 0, c, _ => c
  | fuel + 1, c, pos =>
      if pos < c.st.flight then
        let amount := min (c.st.flight - pos) mss
        replayFrom mss fuel (sendData c (c.st.txPos + pos).toNat amount.toNat) (pos + amount)
      else c

/-- Lost segments replay the outstanding sequence range. -/
def replay (now : UInt64) (mss : UInt32) (c : Conn) : Conn :=
  if c.st.flight ≠ 0 ∧ now - c.st.sentAt ≥ retransmitMs then
    let next := c.sock.seqNum
    let c := replayFrom mss c.st.flight.toNat { c with sock := { c.sock with seqNum := c.st.flightSeq } } 0
    { c with sock := { c.sock with seqNum := next }, st := { c.st with sentAt := now } }
  else c

/-- No acknowledgment is waited for between these segments. -/
def bursts (now : UInt64) (mss : UInt32) : Nat → Conn → Conn
  | 0, c => c
  | burst + 1, c =>
      let window := c.sock.peerWindow.toUInt32
      if c.st.txPos + c.st.flight < c.st.txLen ∧ c.st.flight < window then
        let amount := min (min (c.st.txLen - c.st.txPos - c.st.flight) mss) (window - c.st.flight)
        let c :=
          if c.st.flight = 0 then { c with
            st := { c.st with flightSeq := c.sock.seqNum, sentAt := now } } else c
        let (c, sent) := write c (c.st.txPos + c.st.flight).toNat amount.toNat
        if sent = 0 then c else bursts now mss burst { c with
          st := { c.st with flight := c.st.flight + sent } }
      else c

/-- An ACK asks a peer with a closed window for news. -/
def probe (now : UInt64) (c : Conn) : Conn :=
  if c.st.flight = 0 ∧ c.st.txPos < c.st.txLen ∧ c.sock.peerWindow = 0 ∧ now - c.st.sentAt ≥ retransmitMs then
    { c with st := { c.st with sentAt := now } }
  else c

def reset (c : Conn) : Conn :=
  { c with sock := { c.sock with used := false, state := .closed, rx := [] }, st := {} }

def release (c : Conn) : Conn :=
  if c.st.txLen ≠ 0 ∧ c.st.txPos = c.st.txLen ∧ c.st.flight = 0 then
    let done := { c with st := { c.st with txLen := 0, txPos := 0 }, base := c.base + c.st.txLen.toNat }
    if c.st.closeAfter then reset done else done
  else c

def transmit (now : UInt64) (offered : UInt16) (c : Conn) : Conn :=
  let mss := min (tcpPeerMss offered) (UInt32.ofNat tcpMaxPayload)
  let c := replay now mss { c with st := acknowledge c.sock c.st now }
  release (probe now (bursts now mss 8 c))

end Sending

/-! What happens to a connection: the program has a frame to send, a segment of the peer arrives,
`transmit` is
called. The last two fields are not in the source: all bytes there ever were to send, and the acknowledgements
that arrived, each with the number of bytes sent by then. -/
section Runs

structure Traffic where
  conn : Conn
  stream : List UInt8 := []
  acks : List (UInt32 × Nat) := []

inductive Event where
  | frame (bytes : List UInt8) (closing : Bool) (now : UInt64)
  | segment (t : Segment)
  | tick (now : UInt64) (offered : UInt16)

/-- The peer's window and cumulative acknowledgement, as the established path of `on_tcp_packet`
takes them. -/
def noteAck (sock : Socket) (t : Segment) (netNow : UInt32) : Socket :=
  let s := { sock with lastActivity := netNow, peerWindow := t.windowSize }
  if t.has flagAck && decide (0 < (t.ackNum - s.txAcked).toInt32) &&
      decide (t.ackNum - s.txAcked ≤ s.seqNum - s.txAcked) then
    { s with txAcked := t.ackNum }
  else s

def reached (c : Conn) : Nat := c.base + c.st.txPos.toNat + c.st.flight.toNat

/-- The program has one frame at a time: it writes the next one into `tx` when `tx_len` is 0. -/
def load (x : Traffic) (bytes : List UInt8) (closing : Bool) (now : UInt64) : Traffic :=
  let st := { x.conn.st with tx := put x.conn.st.tx 0 bytes, closeAfter := closing }
  { x with
    conn := { x.conn with st := outgoing st (UInt32.ofNat bytes.length) now }
    stream := x.stream ++ bytes }

def step (x : Traffic) (e : Event) : Traffic :=
  if !x.conn.sock.used then x
  else match e with
    | .frame bytes closing now =>
        if x.conn.st.txLen = 0 ∧ bytes.length ≤ frameBytes then load x bytes closing now else x
    | .segment t =>
        { x with
          conn := { x.conn with sock := noteAck x.conn.sock t x.conn.netNow }
          acks := if t.has flagAck then x.acks ++ [(t.ackNum, reached x.conn)] else x.acks }
    | .tick now offered => { x with conn := transmit now offered x.conn }

def run (x : Traffic) (events : List Event) : Traffic := events.foldl step x

end Runs

section Accounting

/-- A segment carries the bytes of the stream from its position on, under that position's number. -/
structure Numbered (first : UInt32) (stream : List UInt8) (s : DataSegment) : Prop where
  seq : s.seq = serial first s.position
  data : s.data = (stream.drop s.position).take s.data.length
  inside : s.position + s.data.length ≤ stream.length

/-- The peer has acknowledged the first `count` bytes, after they had been sent. -/
def Acked (first : UInt32) (acks : List (UInt32 × Nat)) (count : Nat) : Prop :=
  ∃ ack ∈ acks, ∃ q, count ≤ q ∧ q ≤ ack.2 ∧ ack.1 = serial first q

/-- `tx_acked` is the number of a byte in flight, or of the next one, that was acknowledged. -/
def Settled (first : UInt32) (acks : List (UInt32 × Nat)) (c : Conn) : Prop :=
  ∃ q, c.sock.txAcked = serial first q ∧ c.base + c.st.txPos.toNat ≤ q ∧ q ≤ reached c ∧
    (q = 0 ∨ Acked first acks q)

/-- Nothing has been acknowledged yet, and `tx_acked` is not the number of a byte of the first frame. -/
def Outside (first : UInt32) (c : Conn) : Prop :=
  c.base = 0 ∧ c.st.txPos = 0 ∧ frameBytes < (c.sock.txAcked - first).toNat

/-- `tx` holds the stream's last frame. -/
structure Loaded (stream : List UInt8) (c : Conn) : Prop where
  fits : c.st.txPos.toNat + c.st.flight.toNat ≤ c.st.txLen.toNat
  small : c.st.txLen.toNat ≤ frameBytes
  frame : stream.drop c.base = bytesAt c.st.tx 0 c.st.txLen.toNat
  based : c.base ≤ stream.length

/-- What is sent needs no condition; what is taken for acknowledged depends on how the connection began. -/
structure Inv (clear : Prop) (first : UInt32) (stream : List UInt8) (acks : List (UInt32 × Nat))
    (c : Conn) : Prop
    extends Loaded stream c where
  seq : c.sock.seqNum = serial first (reached c)
  flying : c.st.flight ≠ 0 → c.st.flightSeq = serial first (c.base + c.st.txPos.toNat)
  sent : ∀ s ∈ c.sent, Numbered first stream s
  covered : ∀ p < reached c, ∃ s ∈ c.sent, s.position ≤ p ∧ p < s.position + s.data.length
  acked : clear → Settled first acks c ∨ Outside first c

variable {clear : Prop} {first : UInt32} {stream : List UInt8} {acks : List (UInt32 × Nat)} {c : Conn}

theorem Loaded.length (held : Loaded stream c) : stream.length = c.base + c.st.txLen.toNat := by
  have rest := congrArg List.length held.frame
  rw [List.length_drop, bytesAt_length] at rest
  have based := held.based
  omega

theorem frameBytes_eq : frameBytes = 16684 := rfl

theorem sum_toNat {a b : UInt32} (small : a.toNat + b.toNat ≤ frameBytes) :
    (a + b).toNat = a.toNat + b.toNat := by
  rw [frameBytes_eq] at small
  rw [UInt32.toNat_add]
  omega

theorem sendData_eq {len : Nat} (offset : Nat) (short : len ≤ tcpMaxPayload) :
    sendData c offset len = { c with
      sock := { c.sock with seqNum := c.sock.seqNum + UInt32.ofNat len }
      sent := c.sent ++ [⟨c.sock.seqNum, bytesAt c.st.tx offset len, c.base + offset⟩] } := if_pos short

theorem numbered_here (held : Loaded stream c) {offset len : Nat} {seq : UInt32}
    (inside : offset + len ≤ c.st.txLen.toNat) (seq_ : seq = serial first (c.base + offset)) :
    Numbered first stream ⟨seq, bytesAt c.st.tx offset len, c.base + offset⟩ := by
  have length := held.length
  refine ⟨seq_, ?_, ?_⟩
  · rw [bytesAt_length, ← List.drop_drop, held.frame, bytesAt_drop, bytesAt_take _ _ (by omega)]
  · rw [bytesAt_length]
    dsimp only
    omega

theorem serial_zero (first : UInt32) : serial first 0 = first := UInt32.add_zero first

theorem serial_next (first : UInt32) (position : Nat) (count : UInt32) :
    serial first position + count = serial first (position + count.toNat) := by
  rw [serial_add, UInt32.ofNat_toNat]

theorem acknowledge_inv (inv : Inv clear first stream acks c) (now : UInt64) :
    Inv clear first stream acks { c with st := acknowledge c.sock c.st now } := by
  unfold acknowledge
  dsimp only
  split
  case isFalse => exact inv
  case isTrue fresh =>
    obtain ⟨some_, few, -⟩ := fresh
    have flying := inv.flying some_
    have few := UInt32.le_iff_toNat_le.mp few
    have fits := inv.fits
    have small := inv.small
    generalize amount : c.sock.txAcked - c.st.flightSeq = acked at few ⊢
    have moved : (c.st.txPos + acked).toNat = c.st.txPos.toNat + acked.toNat := sum_toNat (by omega)
    have left_ : (c.st.flight - acked).toNat = c.st.flight.toNat - acked.toNat :=
      UInt32.toNat_sub_of_le _ _ (UInt32.le_iff_toNat_le.mpr few)
    have same : reached { c with st := { c.st with
        txPos := c.st.txPos + acked, flightSeq := c.st.flightSeq + acked, flight := c.st.flight - acked,
        sentAt := now } } = reached c := by
      unfold reached
      dsimp only
      rw [moved, left_]
      omega
    refine { fits := ?_, small := small, frame := inv.frame, based := inv.based, seq := same ▸ inv.seq
             flying := ?_, sent := inv.sent, covered := same ▸ inv.covered, acked := ?_ }
    · dsimp only
      rw [moved, left_]
      omega
    · intro _
      dsimp only
      rw [flying, serial_next, moved, Nat.add_assoc]
    · intro began
      rcases inv.acked began with ⟨q, number, from_, upto, told⟩ | ⟨base, pos, apart⟩
      · have count : acked.toNat = q - (c.base + c.st.txPos.toNat) := by
          rw [← amount, number, flying]
          apply toNat_behind first from_
          unfold reached at upto
          rw [frameBytes_eq] at small
          omega
        refine .inl ⟨q, number, ?_, same ▸ upto, told⟩
        dsimp only
        rw [moved]
        omega
      · -- nothing of the first frame can have that number
        rw [base, pos, UInt32.toNat_zero, Nat.add_zero, serial_zero] at flying
        rw [← amount, flying] at few
        omega

theorem replayFrom_numbered (first : UInt32) (stream : List UInt8) {mss : UInt32}
    (short : mss.toNat ≤ tcpMaxPayload)
    (fuel : Nat) :
    ∀ (c : Conn) (pos : UInt32), Loaded stream c → pos.toNat ≤ c.st.flight.toNat →
      c.sock.seqNum = serial first (c.base + c.st.txPos.toNat + pos.toNat) →
      (∀ s ∈ c.sent, Numbered first stream s) →
      ∃ seq sent, replayFrom mss fuel c pos = { c with sock := { c.sock with seqNum := seq }, sent := sent } ∧
        (∀ s ∈ sent, Numbered first stream s) ∧ ∀ s ∈ c.sent, s ∈ sent := by
  induction fuel with
  | zero => exact fun c pos _ _ _ numbered => ⟨c.sock.seqNum, c.sent, rfl, numbered, fun _ => id⟩
  | succ fuel ih =>
      intro c pos held inside seq numbered
      unfold replayFrom
      by_cases more : pos < c.st.flight
      · rw [if_pos more]
        have fits := held.fits
        have small := held.small
        have rest : (c.st.flight - pos).toNat = c.st.flight.toNat - pos.toNat :=
          UInt32.toNat_sub_of_le _ _ (UInt32.le_iff_toNat_le.mpr inside)
        dsimp only
        generalize amount : min (c.st.flight - pos) mss = count
        have count_le : count.toNat ≤ c.st.flight.toNat - pos.toNat ∧ count.toNat ≤ tcpMaxPayload := by
          rw [← amount, UInt32.toNat_min, rest]
          omega
        have offset : (c.st.txPos + pos).toNat = c.st.txPos.toNat + pos.toNat := sum_toNat (by omega)
        have next : (pos + count).toNat = pos.toNat + count.toNat := sum_toNat (by omega)
        have here : Numbered first stream
          ⟨c.sock.seqNum, bytesAt c.st.tx (c.st.txPos.toNat + pos.toNat) count.toNat,
            c.base + (c.st.txPos.toNat + pos.toNat)⟩ :=
          numbered_here held (by omega) (by rw [seq, Nat.add_assoc])
        rw [sendData_eq _ count_le.2, UInt32.ofNat_toNat, offset]
        have later : ∀ s ∈ c.sent ++
          [⟨c.sock.seqNum, bytesAt c.st.tx (c.st.txPos.toNat + pos.toNat) count.toNat,
            c.base + (c.st.txPos.toNat + pos.toNat)⟩], Numbered first stream s := by
          intro s member
          rcases List.mem_append.mp member with old | new
          · exact numbered s old
          · exact List.mem_singleton.mp new ▸ here
        obtain ⟨seq', sent', same, all, kept⟩ := ih { c with
            sock := { c.sock with seqNum := c.sock.seqNum + count }
            sent := c.sent ++ [⟨c.sock.seqNum, bytesAt c.st.tx (c.st.txPos.toNat + pos.toNat) count.toNat,
              c.base + (c.st.txPos.toNat + pos.toNat)⟩] }
          (pos + count) ⟨held.fits, held.small, held.frame, held.based⟩
          (by dsimp only; omega)
          (by dsimp only; rw [seq, serial_next, next, Nat.add_assoc _ pos.toNat]) later
        exact ⟨seq', sent', same, all, fun s old => kept s (List.mem_append_left _ old)⟩
      · rw [if_neg more]
        exact ⟨c.sock.seqNum, c.sent, rfl, numbered, fun _ => id⟩

theorem replay_inv (inv : Inv clear first stream acks c) {mss : UInt32}
    (short : mss.toNat ≤ tcpMaxPayload) (now : UInt64) :
    Inv clear first stream acks (replay now mss c) := by
  unfold replay
  split
  case isFalse => exact inv
  case isTrue late =>
    have flying := inv.flying late.1
    obtain ⟨seq, sent, same, numbered, kept⟩ := replayFrom_numbered first stream short
      c.st.flight.toNat { c with sock := { c.sock with seqNum := c.st.flightSeq } } 0
      ⟨inv.fits, inv.small, inv.frame, inv.based⟩ (Nat.zero_le _) flying inv.sent
    dsimp only
    rw [same]
    exact { fits := inv.fits, small := inv.small, frame := inv.frame, based := inv.based, seq := inv.seq
            flying := inv.flying, sent := numbered, acked := inv.acked
            covered := fun p below => by
              obtain ⟨s, old, place⟩ := inv.covered p below
              exact ⟨s, kept s old, place⟩ }

theorem advance_inv (inv : Inv clear first stream acks c) {count : UInt32} (sentAt : UInt64)
    (activity : UInt32)
    (inside : c.st.txPos.toNat + c.st.flight.toNat + count.toNat ≤ c.st.txLen.toNat) :
    Inv clear first stream acks { c with
      sock := { c.sock with seqNum := c.sock.seqNum + count, lastActivity := activity }
      st := { c.st with
        flightSeq := if c.st.flight = 0 then c.sock.seqNum else c.st.flightSeq
        sentAt := sentAt, flight := c.st.flight + count }
      sent := c.sent ++ [⟨c.sock.seqNum, bytesAt c.st.tx (c.st.txPos.toNat + c.st.flight.toNat) count.toNat,
        c.base + (c.st.txPos.toNat + c.st.flight.toNat)⟩] } := by
  have small := inv.small
  have more : (c.st.flight + count).toNat = c.st.flight.toNat + count.toNat := sum_toNat (by omega)
  have here : c.sock.seqNum = serial first (c.base + (c.st.txPos.toNat + c.st.flight.toNat)) := by
    rw [inv.seq, reached, Nat.add_assoc]
  have next : reached { c with
      sock := { c.sock with seqNum := c.sock.seqNum + count, lastActivity := activity }
      st := { c.st with
        flightSeq := if c.st.flight = 0 then c.sock.seqNum else c.st.flightSeq
        sentAt := sentAt, flight := c.st.flight + count }
      sent := c.sent ++ [⟨c.sock.seqNum, bytesAt c.st.tx (c.st.txPos.toNat + c.st.flight.toNat) count.toNat,
        c.base + (c.st.txPos.toNat + c.st.flight.toNat)⟩] } = reached c + count.toNat := by
    unfold reached
    dsimp only
    rw [more, Nat.add_assoc _ c.st.flight.toNat]
  refine { fits := ?_, small := small, frame := inv.frame, based := inv.based, seq := ?_
           flying := ?_, sent := ?_, covered := ?_, acked := ?_ }
  · dsimp only
    rw [more]
    omega
  · rw [next]
    dsimp only
    rw [inv.seq, serial_next]
  · intro _
    dsimp only
    by_cases idle : c.st.flight = 0
    · rw [if_pos idle, inv.seq, reached, idle]
      rfl
    · rw [if_neg idle]
      exact inv.flying idle
  · intro s member
    rcases List.mem_append.mp member with old | new
    · exact inv.sent s old
    · rw [List.mem_singleton.mp new]
      exact numbered_here inv.toLoaded inside here
  · intro p below
    rw [next] at below
    by_cases old : p < reached c
    · obtain ⟨s, member, place⟩ := inv.covered p old
      exact ⟨s, List.mem_append_left _ member, place⟩
    · refine ⟨_, List.mem_append_right _ (List.mem_singleton_self _), ?_⟩
      rw [bytesAt_length]
      unfold reached at old below
      dsimp only
      omega
  · refine fun began => (inv.acked began).imp_left ?_
    rintro ⟨q, number, from_, upto, told⟩
    refine ⟨q, number, from_, ?_, told⟩
    rw [next]
    omega

theorem write_eq {offset : Nat} {count : UInt32} (short : count.toNat ≤ tcpMaxPayload) :
    write c offset count.toNat =
      if count = 0 then (sendData c offset count.toNat, 0)
      else ({ sendData c offset count.toNat with
        sock := { (sendData c offset count.toNat).sock with lastActivity := c.netNow } }, count) := by
  have moved : (sendData c offset count.toNat).sock.seqNum - c.sock.seqNum = count := by
    rw [sendData_eq offset short, UInt32.ofNat_toNat]
    dsimp only
    rw [UInt32.add_comm, UInt32.add_sub_cancel]
  have clock : (sendData c offset count.toNat).netNow = c.netNow := by rw [sendData_eq offset short]
  simp only [write, moved, clock]

theorem bursts_inv {mss : UInt32} (short : mss.toNat ≤ tcpMaxPayload) (now : UInt64) (burst : Nat)
    (inv : Inv clear first stream acks c) : Inv clear first stream acks (bursts now mss burst c) := by
  induction burst generalizing c with
  | zero => exact inv
  | succ burst ih =>
      unfold bursts
      dsimp only
      split
      case isFalse => exact inv
      case isTrue open_ =>
        obtain ⟨more, -⟩ := open_
        have fits := inv.fits
        have small := inv.small
        have at_ : (c.st.txPos + c.st.flight).toNat = c.st.txPos.toNat + c.st.flight.toNat :=
          sum_toNat (by omega)
        have below := UInt32.lt_iff_toNat_lt.mp more
        rw [at_] at below
        generalize amount : min (min (c.st.txLen - c.st.txPos - c.st.flight) mss)
          (c.sock.peerWindow.toUInt32 - c.st.flight) = count
        have left_ : (c.st.txLen - c.st.txPos - c.st.flight).toNat =
            c.st.txLen.toNat - c.st.txPos.toNat - c.st.flight.toNat := by
          rw [UInt32.toNat_sub_of_le, UInt32.toNat_sub_of_le]
          · exact UInt32.le_iff_toNat_le.mpr (by omega)
          · rw [UInt32.le_iff_toNat_le, UInt32.toNat_sub_of_le _ _ (UInt32.le_iff_toNat_le.mpr (by omega))]
            omega
        have bounds : count.toNat ≤ c.st.txLen.toNat - c.st.txPos.toNat - c.st.flight.toNat ∧
            count.toNat ≤ tcpMaxPayload := by
          rw [← amount, UInt32.toNat_min, UInt32.toNat_min, left_]
          omega
        have inside : c.st.txPos.toNat + c.st.flight.toNat + count.toNat ≤ c.st.txLen.toNat := by omega
        have started : (if c.st.flight = 0 then
              { c with st := { c.st with flightSeq := c.sock.seqNum, sentAt := now } } else c) =
            { c with st := { c.st with
              flightSeq := if c.st.flight = 0 then c.sock.seqNum else c.st.flightSeq
              sentAt := if c.st.flight = 0 then now else c.st.sentAt } } := by
          split <;> rfl
        rw [started, write_eq bounds.2]
        dsimp only
        rw [sendData_eq _ bounds.2, UInt32.ofNat_toNat, at_]
        have advanced := fun activity =>
          advance_inv inv (if c.st.flight = 0 then now else c.st.sentAt) activity inside
        by_cases none_ : count = 0
        · rw [if_pos none_]
          have still := advanced c.sock.lastActivity
          simp only [none_, UInt32.add_zero, eq_self, if_true] at still ⊢
          exact still
        · rw [if_neg none_]
          dsimp only
          rw [if_neg none_]
          exact ih (advanced c.netNow)

theorem probe_inv (inv : Inv clear first stream acks c) (now : UInt64) :
    Inv clear first stream acks (probe now c) := by
  unfold probe
  split
  · exact { fits := inv.fits, small := inv.small, frame := inv.frame, based := inv.based, seq := inv.seq
            flying := inv.flying, sent := inv.sent, covered := inv.covered, acked := inv.acked }
  · exact inv

theorem release_inv (inv : Inv clear first stream acks c) : Inv clear first stream acks (release c) := by
  unfold release
  split
  case isFalse => exact inv
  case isTrue done =>
    obtain ⟨some_, whole, idle⟩ := done
    have length := inv.length
    have reached_ : reached c = c.base + c.st.txLen.toNat := by
      rw [reached, whole, idle]
      rfl
    have frame : stream.drop (c.base + c.st.txLen.toNat) = [] := List.drop_eq_nil_of_le (by omega)
    -- the frame's bytes are all behind the connection now
    have next : ∀ (sock : Socket) (st : Stream), sock.seqNum = c.sock.seqNum → sock.txAcked = c.sock.txAcked →
        st.txPos = 0 → st.txLen = 0 → st.flight = 0 → Inv clear first stream acks { c with
          sock := sock, st := st, base := c.base + c.st.txLen.toNat } := by
      intro sock st seq acked pos len flight
      have same : reached { c with sock := sock, st := st, base := c.base + c.st.txLen.toNat } =
          reached c := by
        rw [reached_, reached, pos, flight]
        rfl
      refine { fits := ?_, small := ?_, frame := ?_, based := ?_, seq := ?_, flying := ?_, sent := inv.sent
               covered := same ▸ inv.covered, acked := ?_ }
      · dsimp only
        rw [pos, len, flight]
        decide
      · dsimp only
        rw [len]
        decide
      · dsimp only
        rw [len, frame]
        rfl
      · exact Nat.le_of_eq length.symm
      · rw [same]
        exact seq.trans inv.seq
      · exact fun flies => absurd flight flies
      · intro began
        rcases inv.acked began with ⟨q, number, from_, upto, told⟩ | ⟨-, pos', -⟩
        · refine .inl ⟨q, acked.trans number, ?_, same ▸ upto, told⟩
          dsimp only
          rw [pos, ← whole]
          exact from_
        · exact absurd (whole.symm.trans pos') some_
    dsimp only
    split
    · exact next _ _ rfl rfl rfl rfl rfl
    · exact next _ _ rfl rfl rfl rfl idle

theorem transmit_inv (inv : Inv clear first stream acks c) (now : UInt64) (offered : UInt16) :
    Inv clear first stream acks (transmit now offered c) := by
  have short : (min (tcpPeerMss offered) (UInt32.ofNat tcpMaxPayload)).toNat ≤ tcpMaxPayload := by
    rw [UInt32.toNat_min]
    exact Nat.min_le_right _ _
  exact release_inv (probe_inv (bursts_inv short now 8 (replay_inv (acknowledge_inv inv now) short now)) now)

theorem Acked.more {count : Nat} (acked : Acked first acks count) (later : List (UInt32 × Nat)) :
    Acked first (acks ++ later) count := by
  obtain ⟨ack, member, rest⟩ := acked
  exact ⟨ack, List.mem_append_left later member, rest⟩

theorem taken_ack (inv : Inv clear first stream acks c) (began : clear) {ack : UInt32}
    (within : ack - c.sock.txAcked ≤ c.sock.seqNum - c.sock.txAcked) :
    (∃ q, ack = serial first q ∧ c.base + c.st.txPos.toNat ≤ q ∧ q ≤ reached c) ∨
      c.base = 0 ∧ c.st.txPos = 0 ∧ frameBytes < (ack - first).toNat := by
  have within := UInt32.le_iff_toNat_le.mp within
  have fits := inv.fits
  have small := inv.small
  rw [frameBytes_eq] at small
  rcases inv.acked began with ⟨q, number, from_, upto, -⟩ | ⟨base, pos, apart⟩
  · left
    have ahead : (c.sock.seqNum - c.sock.txAcked).toNat = reached c - q := by
      rw [inv.seq, number]
      apply toNat_behind first upto
      unfold reached
      omega
    refine ⟨q + (ack - c.sock.txAcked).toNat, ?_, by omega, by omega⟩
    rw [← serial_next, ← number]
    grind
  · have window : reached c = c.st.flight.toNat := by
      rw [reached, base, pos]
      exact Nat.zero_add _
    have seq : (c.sock.seqNum - first).toNat = c.st.flight.toNat := by
      have gap := toNat_behind first (Nat.zero_le (reached c)) (by omega)
      rw [serial_zero, ← inv.seq, window] at gap
      exact gap
    have shift : ∀ a : UInt32, a - c.sock.txAcked = (a - first) - (c.sock.txAcked - first) := by
      intro a
      grind
    rw [shift ack, shift c.sock.seqNum, UInt32.toNat_sub (ack - first),
      UInt32.toNat_sub (c.sock.seqNum - first),
      seq] at within
    have range := (c.sock.txAcked - first).toNat_lt
    have range' := (ack - first).toNat_lt
    rw [frameBytes_eq] at apart
    by_cases far : frameBytes < (ack - first).toNat
    · exact .inr ⟨base, pos, far⟩
    · left
      rw [frameBytes_eq] at far
      refine ⟨(ack - first).toNat, ?_, ?_, ?_⟩
      · rw [serial, UInt32.ofNat_toNat]
        grind
      · rw [base, pos]
        exact Nat.zero_le _
      · rw [window]
        omega

theorem noteAck_inv (inv : Inv clear first stream acks c) (t : Segment) :
    Inv clear first stream (if t.has flagAck then acks ++ [(t.ackNum, reached c)] else acks)
      { c with sock := noteAck c.sock t c.netNow } := by
  have later : clear →
      Settled first (if t.has flagAck then acks ++ [(t.ackNum, reached c)] else acks) c ∨
        Outside first c := by
    refine fun began => (inv.acked began).imp_left ?_
    rintro ⟨q, number, from_, upto, told⟩
    refine ⟨q, number, from_, upto, told.imp_right fun acked => ?_⟩
    split
    · exact acked.more _
    · exact acked
  have recorded : t.has flagAck = true → (t.ackNum, reached c) ∈
      (if t.has flagAck then acks ++ [(t.ackNum, reached c)] else acks) := by
    intro flag
    rw [if_pos flag]
    exact List.mem_append_right acks (List.mem_singleton_self _)
  generalize (if t.has flagAck then acks ++ [(t.ackNum, reached c)] else acks) = records at later recorded ⊢
  unfold noteAck
  dsimp only
  split
  case isFalse =>
    exact { fits := inv.fits, small := inv.small, frame := inv.frame, based := inv.based, seq := inv.seq
            flying := inv.flying, sent := inv.sent, covered := inv.covered, acked := later }
  case isTrue fresh =>
    simp only [Bool.and_eq_true, decide_eq_true_eq] at fresh
    obtain ⟨⟨flag, -⟩, within⟩ := fresh
    refine { fits := inv.fits, small := inv.small, frame := inv.frame, based := inv.based, seq := inv.seq
             flying := inv.flying, sent := inv.sent, covered := inv.covered, acked := ?_ }
    intro began
    rcases taken_ack inv began within with ⟨q, number, from_, upto⟩ | outside
    · exact .inl ⟨q, number, from_, upto, .inr ⟨_, recorded flag, q, Nat.le_refl q, upto, number⟩⟩
    · exact .inr outside

theorem Numbered.more {s : DataSegment} (numbered : Numbered first stream s) (bytes : List UInt8) :
    Numbered first (stream ++ bytes) s := by
  have inside := numbered.inside
  refine ⟨numbered.seq, ?_, ?_⟩
  · have data := numbered.data
    rw [List.drop_append_of_le_length (by omega),
      List.take_append_of_le_length (by rw [List.length_drop]; omega)]
    exact data
  · rw [List.length_append]
    omega

theorem load_inv {x : Traffic} (inv : Inv clear first x.stream x.acks x.conn) {bytes : List UInt8}
    (idle : x.conn.st.txLen = 0) (small : bytes.length ≤ frameBytes) (closing : Bool) (now : UInt64) :
    Inv clear first (load x bytes closing now).stream (load x bytes closing now).acks
      (load x bytes closing now).conn := by
  have fits := inv.fits
  have length := inv.length
  rw [idle, UInt32.toNat_zero] at fits length
  have pos : x.conn.st.txPos.toNat = 0 := by omega
  have flight : x.conn.st.flight.toNat = 0 := by omega
  have count : (UInt32.ofNat bytes.length).toNat = bytes.length := by
    rw [frameBytes_eq] at small
    exact UInt32.toNat_ofNat_of_lt' (Nat.lt_of_le_of_lt small (by decide))
  have same : reached (load x bytes closing now).conn = reached x.conn := by
    rw [reached, reached, pos, flight]
    rfl
  refine { fits := ?_, small := ?_, frame := ?_, based := ?_, seq := same ▸ inv.seq, flying := ?_, sent := ?_
           covered := same ▸ inv.covered, acked := ?_ }
  · exact Nat.zero_le _
  · exact count ▸ small
  · change (x.stream ++ bytes).drop x.conn.base =
      bytesAt (put x.conn.st.tx 0 bytes) 0 (UInt32.ofNat bytes.length).toNat
    have whole := bytesAt_put_end x.conn.st.tx bytes 0
    rw [Nat.zero_add] at whole
    rw [count, whole, List.drop_append_of_le_length inv.based, List.drop_eq_nil_of_le (by omega)]
    rfl
  · change x.conn.base ≤ (x.stream ++ bytes).length
    rw [List.length_append]
    omega
  · exact fun flies => absurd rfl flies
  · exact fun s member => (inv.sent s member).more bytes
  · intro began
    rcases inv.acked began with ⟨q, number, from_, upto, told⟩ | ⟨base, -, apart⟩
    · refine .inl ⟨q, number, ?_, same ▸ upto, told⟩
      rw [pos] at from_
      exact from_
    · exact .inr ⟨base, rfl, apart⟩

theorem step_inv {x : Traffic} (inv : Inv clear first x.stream x.acks x.conn) (e : Event) :
    Inv clear first (step x e).stream (step x e).acks (step x e).conn := by
  unfold step
  split
  · exact inv
  cases e with
  | frame bytes closing now =>
      dsimp only
      split
      case isTrue fine => exact load_inv inv fine.1 fine.2 closing now
      case isFalse => exact inv
  | segment t => exact noteAck_inv inv t
  | tick now offered =>
      dsimp only
      exact transmit_inv inv now offered

theorem run_inv {x : Traffic} (inv : Inv clear first x.stream x.acks x.conn) (events : List Event) :
    Inv clear first (run x events).stream (run x events).acks (run x events).conn := by
  induction events generalizing x with
  | nil => exact inv
  | cons e rest ih => exact ih (step_inv inv e)

end Accounting

/-! What holds in every state of a run. -/
section Guarantees

/-- Whatever is in flight is the next part of the frame in `tx`, and every byte has one number, always. -/
structure Carried (first : UInt32) (x : Traffic) : Prop where
  flight : x.conn.st.flight ≠ 0 →
    x.conn.st.flightSeq = serial first (x.conn.base + x.conn.st.txPos.toNat) ∧
      x.conn.st.flightSeq + x.conn.st.flight = x.conn.sock.seqNum
  inside : x.conn.st.txPos.toNat + x.conn.st.flight.toNat ≤ x.conn.st.txLen.toNat
  bytes : bytesAt x.conn.st.tx x.conn.st.txPos.toNat x.conn.st.flight.toNat =
    (x.stream.drop (x.conn.base + x.conn.st.txPos.toNat)).take x.conn.st.flight.toNat
  sent : ∀ s ∈ x.conn.sent, Numbered first x.stream s
  covered : ∀ p < reached x.conn, ∃ s ∈ x.conn.sent, s.position ≤ p ∧ p < s.position + s.data.length

/-- No byte is behind the connection, and so no frame is released, before it was acknowledged. -/
def Released (first : UInt32) (x : Traffic) : Prop :=
  0 < x.conn.base + x.conn.st.txPos.toNat → Acked first x.acks (x.conn.base + x.conn.st.txPos.toNat)

variable {clear : Prop} {first : UInt32} {x : Traffic}

theorem Inv.carried (inv : Inv clear first x.stream x.acks x.conn) : Carried first x := by
  have fits := inv.fits
  refine ⟨fun flies => ⟨inv.flying flies, ?_⟩, fits, ?_, inv.sent, inv.covered⟩
  · rw [inv.flying flies, serial_next, inv.seq]
    rfl
  · rw [← List.drop_drop, inv.frame, bytesAt_drop, bytesAt_take _ _ (by omega)]

theorem Inv.released (inv : Inv clear first x.stream x.acks x.conn) (began : clear) : Released first x := by
  intro some_
  rcases inv.acked began with ⟨q, number, from_, upto, told⟩ | ⟨base, pos, -⟩
  · rcases told with zero | ⟨ack, member, q', above, sent, same⟩
    · omega
    · exact ⟨ack, member, q', Nat.le_trans from_ above, sent, same⟩
  · rw [base, pos] at some_
    exact absurd some_ (by decide)

end Guarantees

/-! The sockets that RNTP begins with, and the segments of `on_tcp_packet`. -/
section Sockets
open TcpSending TcpDelivery

/-- Nothing but the SYN is acknowledged, or nothing that a first frame could have in its place. -/
def Clear (sock : Socket) : Prop :=
  sock.txAcked = sock.seqNum ∨ frameBytes < (sock.txAcked - sock.seqNum).toNat

def start (sock : Socket) (st : Stream) (netNow : UInt32) : Traffic := { conn := { sock, st, netNow } }

theorem start_inv (sock : Socket) {st : Stream} (netNow : UInt32)
    (idle : st.txLen = 0 ∧ st.txPos = 0 ∧ st.flight = 0) :
    Inv (Clear sock) sock.seqNum [] [] (start sock st netNow).conn := by
  obtain ⟨len, pos, flight⟩ := idle
  have none_ : reached (start sock st netNow).conn = 0 := by
    simp only [reached, start, pos, flight]
    rfl
  refine { fits := ?_, small := ?_, frame := ?_, based := Nat.le_refl 0, seq := ?_, flying := ?_, sent := ?_
           covered := ?_, acked := ?_ }
  · simp only [start, len, pos, flight]
    decide
  · simp only [start, len]
    decide
  · simp only [start, len]
    rfl
  · rw [none_, serial_zero]
    rfl
  · exact fun flies => absurd flight flies
  · exact fun s member => absurd member List.not_mem_nil
  · intro p below
    rw [none_] at below
    exact absurd below (Nat.not_lt_zero p)
  · rintro (same | apart)
    · refine .inl ⟨0, ?_, ?_, Nat.zero_le _, .inl rfl⟩
      · rw [serial_zero]
        exact same
      · simp only [start, pos]
        decide
    · exact .inr ⟨rfl, pos, apart⟩

variable {kernel : Nat → Bool} {net : Net} {pool : List Nat}

theorem accepted_clear {net' : Net} {a : Nat} (t : Segment) (got : allocSocket net pool = some (net', a)) :
    Clear ((openPassive kernel net pool t).sockets a) := by
  simp only [openPassive, got]
  simp only [Net.set, Net.note, Function.update_self, send_self]
  right
  change frameBytes < ((0 : UInt32) - 1).toNat
  decide

theorem dialled_clear {a : Nat} (t : Segment) :
    Clear ((onSynAck kernel net a t).sockets a) ↔
      t.ackNum = (net.sockets a).seqNum ∨ frameBytes < (t.ackNum - (net.sockets a).seqNum).toNat := by
  have bare : advance kernel net.attempts 0 flagAck = 0 := advance_bare kernel net.attempts (by decide)
  simp only [onSynAck, send_self, Clear, Net.set, Net.note, Function.update_self, bare, UInt32.add_zero]

theorem bare_unseen (kernel : Nat → Bool) (net : Net) (a : Nat) :
    (sendTcpPacket kernel net a 0 flagAck).sockets = net.sockets := by
  have bare : advance kernel net.attempts 0 flagAck = 0 := advance_bare kernel net.attempts (by decide)
  rw [send_sockets, bare, UInt32.add_zero]
  exact Function.update_eq_self a net.sockets

theorem reset_unseen (kernel : Nat → Bool) (net : Net) (a : Nat) :
    (sendTcpPacket kernel net a 0 (flagRst ||| flagAck)).sockets = net.sockets := by
  have bare : advance kernel net.attempts 0 (flagRst ||| flagAck) = 0 :=
    advance_bare kernel net.attempts (by decide)
  rw [send_sockets, bare, UInt32.add_zero]
  exact Function.update_eq_self a net.sockets

theorem opened_noteAck {a : Nat} {t : Segment} (going : t.has flagRst = false)
    (open_ : t.has flagFin = false) :
    ((onOpened kernel net a t).sockets a).seqNum = (noteAck (net.sockets a) t net.now).seqNum ∧
      ((onOpened kernel net a t).sockets a).txAcked = (noteAck (net.sockets a) t net.now).txAcked ∧
      ((onOpened kernel net a t).sockets a).peerWindow = (noteAck (net.sockets a) t net.now).peerWindow := by
  have noted : (TcpSockets.noteAck net a t).sockets a = noteAck (net.sockets a) t net.now := by
    simp only [TcpSockets.noteAck, noteAck, Net.set, Net.note, Function.update_self]
    rfl
  have taken : ∀ net' : Net, ((takeData kernel net' a t).sockets a).seqNum = (net'.sockets a).seqNum ∧
      ((takeData kernel net' a t).sockets a).txAcked = (net'.sockets a).txAcked ∧
      ((takeData kernel net' a t).sockets a).peerWindow = (net'.sockets a).peerWindow := by
    intro net'
    simp only [takeData]
    split
    · exact ⟨rfl, rfl, rfl⟩
    · rw [bare_unseen]
      split
      · simp only [Net.note, Net.set, Function.update_self, and_self]
      · exact ⟨rfl, rfl, rfl⟩
  simp only [onOpened, going, takeFin, open_, Bool.false_eq_true, if_false, ← noted]
  exact taken _

end Sockets

/-! The serve loop's own `transmit`, when every segment goes out, does the same to the socket and
the stream. -/
section Serving
open TcpHistory TcpSending TcpDelivery RntpServing RntpIsolation

/-- Slot `i` of the server is this connection. -/
structure Mirrors (i : Nat) (net : Net) (st : Stream) (c : Conn) : Prop where
  sock : net.sockets i = c.sock
  stream : st = c.st
  clock : net.now = c.netNow

variable {i : Nat} {net : Net} {st : Stream} {c : Conn}

theorem send_mirrors (same : Mirrors i net st c) (offset : Nat) {len : Nat} (short : len ≤ tcpMaxPayload) :
    Mirrors i (sendTcpPacket everySend net i len flagAck) st (sendData c offset len) := by
  have moved : advance everySend net.attempts len flagAck = UInt32.ofNat len := by
    simp only [advance, everySend, short, decide_true, Bool.and_self, if_true]
    rw [if_neg (by decide), UInt32.add_zero]
  rw [sendData_eq offset short]
  refine ⟨?_, same.stream, ?_⟩
  · rw [send_self, moved, same.sock]
  · have still : (sendTcpPacket everySend net i len flagAck).now = net.now := by
      simp only [sendTcpPacket]
      split <;> rfl
    exact still.trans same.clock

theorem replayFrom_mirrors {mss : UInt32} (short : mss.toNat ≤ tcpMaxPayload) (fuel : Nat) :
    ∀ {net : Net} {c : Conn} (pos : UInt32), Mirrors i net st c →
      Mirrors i (RntpServing.replayFrom everySend mss i st.flight fuel net pos) st
        (replayFrom mss fuel c pos) := by
  induction fuel with
  | zero => exact fun _ same => same
  | succ fuel ih =>
      intro net c pos same
      have flight : c.st.flight = st.flight := by rw [same.stream]
      unfold RntpServing.replayFrom RntpTransport.replayFrom
      rw [flight]
      by_cases more : pos < st.flight
      · rw [if_pos more, if_pos more]
        have amount : (min (st.flight - pos) mss).toNat ≤ tcpMaxPayload := by
          rw [UInt32.toNat_min]
          omega
        exact ih _ (send_mirrors same _ amount)
      · rw [if_neg more, if_neg more]
        exact same

theorem replay_mirrors (t : Ticks) (short : t.mss.toNat ≤ tcpMaxPayload) (same : Mirrors i net st c) :
    Mirrors i (RntpServing.replay everySend t i net st).1 (RntpServing.replay everySend t i net st).2
      (replay t.now t.mss c) := by
  obtain ⟨sock, stream, clock⟩ := same
  subst stream
  unfold RntpServing.replay RntpTransport.replay
  by_cases late : c.st.flight ≠ 0 ∧ t.now - c.st.sentAt ≥ retransmitMs
  · rw [if_pos late, if_pos late]
    have set_ : Mirrors i (net.set i { net.sockets i with seqNum := c.st.flightSeq }) c.st
        { c with sock := { c.sock with seqNum := c.st.flightSeq } } :=
      ⟨by rw [set_same, sock], rfl, clock⟩
    obtain ⟨sock', stream', clock'⟩ := replayFrom_mirrors short c.st.flight.toNat 0 set_
    refine ⟨?_, ?_, clock'⟩
    · dsimp only
      rw [set_same, sock', sock]
    · dsimp only
      rw [← stream']
  · rw [if_neg late, if_neg late]
    exact ⟨sock, rfl, clock⟩

theorem write_mirrors (same : Mirrors i net st c) (offset : Nat) {len : Nat} (short : len ≤ tcpMaxPayload) :
    Mirrors i (tcpWrite everySend net i len).1 st (write c offset len).1 ∧
      (tcpWrite everySend net i len).2 = (write c offset len).2 := by
  obtain ⟨sock, stream, clock⟩ := send_mirrors same offset short
  have before := same.sock
  unfold tcpWrite write
  dsimp only
  rw [sock, before]
  split
  · exact ⟨⟨sock, stream, clock⟩, rfl⟩
  · refine ⟨⟨?_, stream, clock⟩, rfl⟩
    dsimp only
    rw [set_same, clock, sendData_eq offset short]

theorem bursts_mirrors (t : Ticks) (short : t.mss.toNat ≤ tcpMaxPayload) (burst : Nat) :
    ∀ {net : Net} {st : Stream} {c : Conn}, Mirrors i net st c →
      Mirrors i (RntpServing.bursts everySend t i burst net st).1
        (RntpServing.bursts everySend t i burst net st).2
        (bursts t.now t.mss burst c) := by
  induction burst with
  | zero => exact fun same => same
  | succ burst ih =>
      intro net st c same
      obtain ⟨sock, stream, clock⟩ := same
      subst stream
      unfold RntpServing.bursts RntpTransport.bursts
      rw [sock]
      dsimp only
      by_cases open_ : c.st.txPos + c.st.flight < c.st.txLen ∧ c.st.flight < c.sock.peerWindow.toUInt32
      · rw [if_pos open_, if_pos open_]
        generalize amount : min (min (c.st.txLen - c.st.txPos - c.st.flight) t.mss)
          (c.sock.peerWindow.toUInt32 - c.st.flight) = count
        have bound : count.toNat ≤ tcpMaxPayload := by
          rw [← amount, UInt32.toNat_min, UInt32.toNat_min]
          omega
        have begun : Mirrors i net (if c.st.flight = 0 then
              { c.st with flightSeq := c.sock.seqNum, sentAt := t.now } else c.st)
            (if c.st.flight = 0 then
              { c with st := { c.st with flightSeq := c.sock.seqNum, sentAt := t.now } } else c) := by
          split
          · exact ⟨sock, rfl, clock⟩
          · exact ⟨sock, rfl, clock⟩
        generalize (if c.st.flight = 0 then
              { c.st with flightSeq := c.sock.seqNum, sentAt := t.now } else c.st) = st₁ at begun ⊢
        generalize (if c.st.flight = 0 then
              { c with st := { c.st with flightSeq := c.sock.seqNum, sentAt := t.now } } else c) =
                c₁ at begun ⊢
        obtain ⟨written, told⟩ := write_mirrors begun (c₁.st.txPos + c₁.st.flight).toNat bound
        have streams := begun.stream
        rw [told]
        split
        · exact written
        · apply ih
          refine ⟨written.sock, ?_, written.clock⟩
          dsimp only
          rw [written.stream]
      · rw [if_neg open_, if_neg open_]
        exact ⟨sock, rfl, clock⟩

theorem probe_mirrors (t : Ticks) (same : Mirrors i net st c) :
    Mirrors i (RntpServing.probe everySend t i net st).1 (RntpServing.probe everySend t i net st).2
      (probe t.now c) := by
  obtain ⟨sock, stream, clock⟩ := same
  subst stream
  unfold RntpServing.probe RntpTransport.probe
  rw [sock]
  split
  · refine ⟨(congrFun (bare_unseen everySend net i) i).trans sock, rfl, ?_⟩
    have still : (sendTcpPacket everySend net i 0 flagAck).now = net.now := by
      simp only [sendTcpPacket]
      split <;> rfl
    exact still.trans clock
  · exact ⟨sock, rfl, clock⟩

theorem transmit_mirrors {s : Server} {offered : UInt16} (t : Ticks) (mss : t.mss = tcpPeerMss offered)
    (id : (s.net.sockets i).id = i) (same : Mirrors i s.net (s.streams i) c) :
    (RntpServing.transmit everySend t s i).net.sockets i = (transmit t.now offered c).sock ∧
      (RntpServing.transmit everySend t s i).streams i = (transmit t.now offered c).st := by
  have cap : min (tcpPeerMss offered) (UInt32.ofNat tcpMaxPayload) = t.mss := by
    rw [mss, ← UInt32.toNat_inj, tcpPeerMss, UInt32.toNat_min, UInt32.toNat_min]
    omega
  have short : t.mss.toNat ≤ tcpMaxPayload := by
    rw [← cap, UInt32.toNat_min]
    exact Nat.min_le_right _ _
  have first : Mirrors i s.net (acknowledge (s.net.sockets i) (s.streams i) t.now)
      { c with st := acknowledge c.sock c.st t.now } := by
    refine ⟨same.sock, ?_, same.clock⟩
    rw [same.sock, same.stream]
  have last := probe_mirrors t (bursts_mirrors t short 8 (replay_mirrors t short first))
  unfold RntpServing.transmit RntpTransport.transmit
  dsimp only
  rw [cap]
  obtain ⟨steady, -⟩ := replay_steady everySend (i := i) t s.net
    (acknowledge (s.net.sockets i) (s.streams i) t.now)
  generalize RntpServing.replay everySend t i s.net (acknowledge (s.net.sockets i) (s.streams i) t.now) =
    replayed
    at last steady ⊢
  obtain ⟨steady', -⟩ := bursts_steady everySend (i := i) t 8 replayed.1 replayed.2
  generalize RntpServing.bursts everySend t i 8 replayed.1 replayed.2 = burst at last steady' ⊢
  obtain ⟨steady'', -⟩ := probe_steady everySend (i := i) t burst.1 burst.2
  generalize RntpServing.probe everySend t i burst.1 burst.2 = probed at last steady'' ⊢
  have slot : (probed.1.sockets i).id = i := (((steady.trans steady').trans steady'').id i).trans id
  generalize probe t.now _ = c' at last ⊢
  obtain ⟨sock, stream, clock⟩ := last
  unfold RntpTransport.release
  rw [stream]
  split
  · dsimp only
    split
    · -- the reset's own segment has no data
      unfold RntpServing.reset RntpTransport.reset
      dsimp only [Server.setStream, Server.release]
      rw [slot]
      refine ⟨?_, Function.update_self ..⟩
      rw [free_self]
      split
      · rw [reset_unseen, sock]
      · rw [sock]
    · exact ⟨sock, Function.update_self ..⟩
  · exact ⟨sock, Function.update_self ..⟩

end Serving
end R2Apps.RntpTransport
