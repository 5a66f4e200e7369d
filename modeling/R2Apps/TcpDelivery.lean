import R2Apps.TcpHistory

/-! Runs of the socket layer, and what its acknowledgements and its reads
promise: an acknowledgement covers the bytes that were appended to the receive
buffer and no others, and the application gets every one of them. -/
namespace R2Apps.TcpDelivery
open TcpSockets TcpHistory

inductive Op where
  | init (pool : List Nat)
  | socket (pool : List Nat)
  | bind (a : Nat) (port : UInt16)
  | listen (a : Nat)
  | connect (pool : List Nat) (remoteIp : UInt32) (remotePort localPort : UInt16) (localIp : UInt32)
  | packet (pool : List Nat) (t : Segment)
  | read (a maxlen : Nat)
  | write (a len : Nat)
  | close (a : Nat)
  | setBuffer (a : Nat) (buffer : Option Nat)
  | reap (pool : List Nat) (idleSecs : UInt32) (protect : Nat → Bool)
  | time (secs : UInt32)

def step (kernel : Nat → Bool) (net : Net) : Op → Net
  | .init pool => socketPoolInit net pool
  | .socket pool => (socketTcp4 net pool).1
  | .bind a port => TcpSockets.bind net a port
  | .listen a => TcpSockets.listen net a
  | .connect pool ip port localPort localIp => (tcpConnect kernel net pool ip port localPort localIp).1
  | .packet pool t => onTcpPacket kernel net pool t
  | .read a maxlen => (tcpRead kernel net a maxlen).1
  | .write a len => (tcpWrite kernel net a len).1
  | .close a => tcpClose kernel net a
  | .setBuffer a buffer => (tcpSetReceiveBuffer net a buffer).1
  | .reap pool idleSecs protect => (socketReap kernel net pool idleSecs protect).1
  | .time secs => netSetTime net secs

def run (kernel : Nat → Bool) (net : Net) (ops : List Op) : Net := ops.foldl (step kernel) net

/-- Every step of the run meets the condition in the state it is taken in. -/
def meets (kernel : Nat → Bool) (ok : Net → Op → Bool) : Net → List Op → Bool
  | _, [] => true
  | net, op :: rest => ok net op && meets kernel ok (step kernel net op) rest

/-- The three transitions `Stable` leaves open, as one step can take them. -/
def Fits (P : Core → Life → Prop) (kernel : Nat → Bool) (net : Net) : Op → Prop
  | .packet pool t =>
      match route net pool t with
      | some (a, .listenSyn) => ∀ d, findConn net pool t a = some d →
          untouched (net.sockets d) = true →
          MayRepeat P (core (net.sockets d)) (life net.log d) t.seqNum
      | some (a, .finWait) => t.has flagRst = false → t.has flagFin = true →
          MayFinish P (core (net.sockets a)) (life net.log a) t
      | some (a, .opened) => t.has flagRst = false → t.has flagFin = true →
          MayFinish P (core ((takeData kernel (noteAck net a t) a t).sockets a))
            (life (takeData kernel (noteAck net a t) a t).log a) t
      | _ => True
  | .read a maxlen =>
      MayReturn P (core (net.sockets a)) (life net.log a) ((net.sockets a).rx.take maxlen)
  | _ => True

section Steps
variable {P : Core → Life → Prop} {net : Net}

theorem inv_packet (stable : Stable P) (inv : Inv P net) (kernel : Nat → Bool) {pool : List Nat}
    {t : Segment} (fits : Fits P kernel net (.packet pool t)) :
    Inv P (onTcpPacket kernel net pool t) := by
  simp only [onTcpPacket]
  simp only [Fits] at fits
  cases routed : route net pool t with
  | none => exact inv
  | some entry =>
      obtain ⟨a, branch⟩ := entry
      rw [routed] at fits
      obtain ⟨used, state⟩ := classify_state (route_classify routed)
      cases branch with
      | listenSyn => exact inv_listenSyn stable inv kernel pool t fits
      | synSentReset => exact inv_free stable inv
      | challenge => exact inv_challenge stable inv kernel t state
      | synAck => exact inv_synAck stable inv kernel t used state
      | finWait => exact inv_finWait stable inv kernel t fits
      | opened =>
          refine inv_opened stable inv kernel t ?_ fits
          rcases state with state | state
          · rw [state]
            rfl
          · rw [state]
            rfl

theorem inv_step (stable : Stable P) (zero : ∀ {c l}, P c l → c.state = .closed →
      P { c with ackNum := 0 } l) (inv : Inv P net) (kernel : Nat → Bool) {op : Op}
    (fits : Fits P kernel net op) : Inv P (step kernel net op) := by
  cases op with
  | init pool =>
      simp only [step, socketPoolInit]
      generalize pool.zipIdx = slots
      clear fits
      induction slots generalizing net with
      | nil => exact inv
      | cons slot rest ih => exact ih (inv_initOne (a := slot.1) stable inv zero slot.2)
  | socket pool => exact inv_socket stable inv pool
  | bind a port => exact inv_set _ inv (inv a)
  | listen a => exact inv_set _ inv (stable.parked .listening (inv a) (Or.inr rfl))
  | connect pool ip port localPort localIp =>
      exact inv_connect stable inv kernel pool ip port localPort localIp
  | packet pool t => exact inv_packet stable inv kernel fits
  | read a maxlen => exact inv_read stable inv kernel maxlen fits
  | write a len => exact inv_write stable inv kernel len
  | close a => exact inv_close stable inv kernel
  | setBuffer a buffer => exact inv_buffer inv buffer
  | reap pool idleSecs protect => exact inv_reap stable inv kernel pool idleSecs protect
  | time secs => exact inv

theorem inv_run (stable : Stable P) (zero : ∀ {c l}, P c l → c.state = .closed →
      P { c with ackNum := 0 } l) (kernel : Nat → Bool) (ok : Net → Op → Bool)
    (allowed : ∀ net op, Inv P net → ok net op = true → Fits P kernel net op) (inv : Inv P net)
    {ops : List Op} (met : meets kernel ok net ops = true) : Inv P (run kernel net ops) := by
  induction ops generalizing net with
  | nil => exact inv
  | cons op rest ih =>
      simp only [meets, Bool.and_eq_true] at met
      exact ih (inv_step stable zero inv kernel (allowed net op inv met.1)) met.2

end Steps

/-! Reading. -/

structure Delivered (c : Core) (l : Life) : Prop where
  whole : c.state.synchronised = true → l.returned ++ c.rx = l.appended
  dialling : c.state = .synSent → c.rx = []
  idle : c.used = false → c.state.synchronised = false

theorem delivered_stable : Stable Delivered where
  idle inv := inv.idle
  sent _ inv _ _ := ⟨inv.whole, inv.dialling, inv.idle⟩
  freed _ := ⟨by simp [SocketState.synchronised], by simp, by simp [SocketState.synchronised]⟩
  claimed _ idle := ⟨by simp [idle], by simp, by simp⟩
  parked st _ which := by
    rcases which with rfl | rfl
    · exact ⟨by simp [SocketState.synchronised], by simp, by simp [SocketState.synchronised]⟩
    · exact ⟨by simp [SocketState.synchronised], by simp, by simp [SocketState.synchronised]⟩
  dialled _ _ empty := ⟨by simp [SocketState.synchronised], fun _ => empty,
    by simp [SocketState.synchronised]⟩
  opened _ _ used empty := ⟨by simp [Life.after, empty], by simp, by simp [used]⟩
  answered inv := inv.dialling
  moved st inv open_ still := by
    refine ⟨fun _ => inv.whole open_, ?_, ?_⟩
    · intro dialling
      rw [show st = .synSent from dialling] at still
      exact absurd still (by decide)
    · intro unused
      exact absurd (inv.idle unused) (by simp [open_])
  stored bytes _ _ inv open_ := by
    refine ⟨fun _ => ?_, ?_, inv.idle⟩
    · rw [Life.after, ← inv.whole open_]
      exact (List.append_assoc _ _ _).symm
    · intro dialling
      rw [show _ = SocketState.synSent from dialling] at open_
      exact absurd open_ (by decide)

/-- A read takes everything the buffer holds. -/
def readsAll (net : Net) : Op → Bool
  | .read a maxlen => decide ((net.sockets a).rx.length ≤ maxlen)
  | _ => true

theorem delivered_fits (kernel : Nat → Bool) (net : Net) (op : Op) (inv : Inv Delivered net)
    (all : readsAll net op = true) : Fits Delivered kernel net op := by
  have finish (c : Core) (l : Life) (t : Segment) (here : Delivered c l) :
      MayFinish Delivered c l t := ⟨here.whole, here.dialling, here.idle⟩
  cases op with
  | packet pool t =>
      simp only [Fits]
      split
      · intro d _ _
        exact ⟨(inv d).whole, (inv d).dialling, (inv d).idle⟩
      · intro _ _
        exact finish _ _ t (inv _)
      · rename_i a routed
        intro _ _
        have acked := inv_noteAck (a := a) inv t
        obtain ⟨_, state⟩ := classify_state (route_classify routed)
        have open_ : ((noteAck net a t).sockets a).state.synchronised = true := by
          rw [show ((noteAck net a t).sockets a).state = (net.sockets a).state from
            congrArg Core.state (noteAck_core t)]
          rcases state with state | state
          · rw [state]
            rfl
          · rw [state]
            rfl
        exact finish _ _ t (inv_takeData delivered_stable acked kernel t open_ a)
      · trivial
  | read a maxlen =>
      have short : (net.sockets a).rx.length ≤ maxlen := by simpa [readsAll] using all
      refine ⟨fun open_ => ?_, fun _ => rfl, (inv a).idle⟩
      rw [List.take_of_length_le short, List.append_nil]
      exact (inv a).whole open_
  | _ => trivial

theorem delivered_start : Inv Delivered {} :=
  fun _ => ⟨by simp [core, SocketState.synchronised], fun _ => rfl,
    fun _ => by simp [core, SocketState.synchronised]⟩

theorem delivered_zero {c : Core} {l : Life} (inv : Delivered c l) (_ : c.state = .closed) :
    Delivered { c with ackNum := 0 } l := ⟨inv.whole, inv.dialling, inv.idle⟩

/-- In a run whose reads all have room for the whole buffer, what the reads of a
connection returned and what its buffer holds is what was appended to it. -/
theorem reads_return_every_appended_byte (kernel : Nat → Bool) (ops : List Op)
    (all : meets kernel readsAll {} ops = true) (a : Nat)
    (open_ : ((run kernel {} ops).sockets a).state.synchronised = true) :
    (life (run kernel {} ops).log a).returned ++ ((run kernel {} ops).sockets a).rx =
      (life (run kernel {} ops).log a).appended :=
  (inv_run delivered_stable delivered_zero kernel readsAll (delivered_fits kernel) delivered_start
    all a).whole open_

/-! A server on port 23 and a peer that sends it three bytes. -/

def everySend : Nat → Bool := fun _ => true

def fromPeer (seqNum : UInt32) (flags : UInt8) (data : List UInt8) : Segment where
  srcIp := 0x0a030401
  dstIp := 0x0a030402
  sourcePort := 40000
  destPort := 23
  seqNum := seqNum
  ackNum := 1
  headerLen := 20
  flags := flags
  windowSize := 4096
  packet := List.replicate 20 0 ++ data

def greeted : List Op :=
  [.init [0, 1], .socket [0, 1], .bind 0 23, .listen 0, .packet [0, 1] (fromPeer 100 flagSyn []),
    .packet [0, 1] (fromPeer 101 flagAck [72, 73, 74])]

def readBack : List Op := greeted ++ [.read 1 64]

theorem short_exchange_returns_every_byte :
    (life (run everySend {} readBack).log 1).returned ++ ((run everySend {} readBack).sockets 1).rx =
      [72, 73, 74] := by
  rw [reads_return_every_appended_byte everySend readBack (by decide) 1 (by decide)]
  decide

/-- A read of one byte drops the other two, which were acknowledged. -/
theorem short_read_drops_acknowledged_bytes :
    ¬ ∀ (kernel : Nat → Bool) (ops : List Op) (a : Nat),
        ((run kernel {} ops).sockets a).state.synchronised = true →
        (life (run kernel {} ops).log a).returned ++ ((run kernel {} ops).sockets a).rx =
          (life (run kernel {} ops).log a).appended := by
  intro claimed
  have lost := claimed everySend (greeted ++ [.read 1 1]) 1 (by decide)
  exact absurd lost (by decide)

/-! Acknowledging. -/

structure Acknowledged (c : Core) (l : Life) : Prop where
  honest : l.honest = true
  covers : c.state.synchronised = true → c.ackNum = l.ack
  dialling : c.state = .synSent → c.rx = []
  idle : c.used = false → c.state.synchronised = false

theorem after_honest {l : Life} {e : Event} (honest : l.honest = true) (allowed : l.allows e = true) :
    (l.after e).honest = true := by
  cases e <;> simp [Life.after, honest, allowed]

theorem next_stored (l : Life) (bytes : List UInt8) (rxLen capacity : Nat) :
    (l.after (.stored bytes rxLen capacity)).next = l.next + UInt32.ofNat bytes.length := by
  simp only [Life.after, Life.next, List.length_append, UInt32.ofNat_add]
  exact (UInt32.add_assoc _ _ _).symm

theorem ack_stored (l : Life) (bytes : List UInt8) (rxLen capacity : Nat) :
    (l.after (.stored bytes rxLen capacity)).ack = l.ack + UInt32.ofNat bytes.length := by
  have same : (l.after (.stored bytes rxLen capacity)).fin = l.fin := rfl
  rw [Life.ack, Life.ack, next_stored, same, UInt32.add_assoc, UInt32.add_assoc,
    UInt32.add_comm (UInt32.ofNat _)]

theorem acknowledged_stable : Stable Acknowledged where
  idle inv := inv.idle
  sent {c l} seg inv state ack := by
    refine ⟨after_honest inv.honest ?_, inv.covers, inv.dialling, inv.idle⟩
    simp only [Life.allows, Bool.or_eq_true, Bool.not_eq_true', beq_iff_eq, state, ack]
    by_cases open_ : c.state.synchronised = true
    · exact Or.inr (inv.covers open_)
    · exact Or.inl (by simpa using open_)
  freed inv := ⟨inv.honest, by simp [SocketState.synchronised], by simp,
    by simp [SocketState.synchronised]⟩
  claimed inv idle := ⟨inv.honest, by simp [idle], by simp, by simp⟩
  parked st inv which := by
    rcases which with rfl | rfl
    · exact ⟨inv.honest, by simp [SocketState.synchronised], by simp,
        by simp [SocketState.synchronised]⟩
    · exact ⟨inv.honest, by simp [SocketState.synchronised], by simp,
        by simp [SocketState.synchronised]⟩
  dialled _ inv empty := ⟨inv.honest, by simp [SocketState.synchronised], fun _ => empty,
    by simp [SocketState.synchronised]⟩
  opened _ inv used _ := ⟨after_honest inv.honest rfl, by simp [Life.after, Life.ack, Life.next],
    by simp, by simp [used]⟩
  answered inv := inv.dialling
  moved st inv open_ still := by
    refine ⟨inv.honest, fun _ => inv.covers open_, ?_, ?_⟩
    · intro dialling
      rw [show st = .synSent from dialling] at still
      exact absurd still (by decide)
    · intro unused
      exact absurd (inv.idle unused) (by simp [open_])
  stored bytes _ _ inv open_ := by
    refine ⟨after_honest inv.honest rfl, fun _ => ?_, ?_, inv.idle⟩
    · rw [ack_stored, ← inv.covers open_]
    · intro dialling
      rw [show _ = SocketState.synSent from dialling] at open_
      exact absurd open_ (by decide)

/-- A FIN stands right after the bytes appended so far. -/
def finFollows (net : Net) (a : Nat) (t : Segment) : Bool :=
  t.seqNum + t.dataLen == (life net.log a).next

/-- The segment's own data is the next to be appended, and there is room for all of it. -/
def dataFits (net : Net) (a : Nat) (t : Segment) : Bool :=
  !(life net.log a).fin && !t.data.isEmpty && t.seqNum == (net.sockets a).ackNum &&
    decide (t.data.length ≤ receiveSpace net a)

/-- Nothing was appended to the connection a repeated SYN finds. -/
def nothingAppended (net : Net) (d : Nat) : Bool :=
  (life net.log d).appended.isEmpty && !(life net.log d).fin

/-- A FIN comes after bytes that were all appended, or brings the missing ones
along; a SYN is answered again only before any data. -/
def inOrder (net : Net) : Op → Bool
  | .packet pool t =>
      match route net pool t with
      | some (a, .listenSyn) =>
          match findConn net pool t a with
          | some d => !untouched (net.sockets d) || nothingAppended net d
          | none => true
      | some (a, .finWait) => t.has flagRst || !t.has flagFin || finFollows net a t
      | some (a, .opened) =>
          t.has flagRst || !t.has flagFin ||
            (finFollows net a t && (t.data.isEmpty || t.seqNum != (net.sockets a).ackNum)) ||
            dataFits net a t
      | _ => true
  | _ => true

theorem may_finish {c : Core} {l : Life} {t : Segment} (inv : Acknowledged c l)
    (follows : t.seqNum + t.dataLen = l.next) : MayFinish Acknowledged c l t := by
  refine ⟨after_honest inv.honest (by simp [Life.allows, follows]), fun _ => ?_, inv.dialling,
    inv.idle⟩
  simp only [follows, Life.after, Life.ack, Life.next, ↓reduceIte]

theorem may_repeat {c : Core} {l : Life} {irs : UInt32} (inv : Acknowledged c l)
    (nothing : l.appended = []) (noFin : l.fin = false) : MayRepeat Acknowledged c l irs := by
  refine ⟨after_honest inv.honest rfl, fun _ => ?_, inv.dialling, inv.idle⟩
  simp [Life.after, Life.ack, Life.next, nothing, noFin]

theorem life_send {kernel : Nat → Bool} {net : Net} {a len : Nat} {flags : UInt8} :
    (life (sendTcpPacket kernel net a len flags).log a).next = (life net.log a).next := by
  simp only [sendTcpPacket]
  split
  · rfl
  · simp [Life.after, Life.next]

theorem noteAck_life (net : Net) (a : Nat) (t : Segment) (b : Nat) :
    life (noteAck net a t).log b = life net.log b :=
  life_heard net a (t.has flagAck) t.ackNum b

theorem takeData_next (kernel : Nat → Bool) (net : Net) (a : Nat) (t : Segment) :
    (life (takeData kernel net a t).log a).next =
      if t.data.isEmpty = true ∨ t.seqNum ≠ (net.sockets a).ackNum then (life net.log a).next
      else (life net.log a).next + UInt32.ofNat (t.data.take (receiveSpace net a)).length := by
  simp only [takeData]
  by_cases empty : t.data.isEmpty = true
  · simp [empty]
  · simp only [empty, Bool.false_eq_true, ↓reduceIte, false_or, life_send]
    by_cases same : t.seqNum = (net.sockets a).ackNum
    · simp only [same, ↓reduceIte, ne_eq, not_true_eq_false]
      rw [note_log, life_snoc, if_pos rfl, next_stored]
      rfl
    · simp only [same, ↓reduceIte, ne_eq, not_false_eq_true]

theorem acknowledged_fits (kernel : Nat → Bool) (net : Net) (op : Op)
    (inv : Inv Acknowledged net) (ordered : inOrder net op = true) :
    Fits Acknowledged kernel net op := by
  cases op with
  | packet pool t =>
      simp only [Fits]
      simp only [inOrder] at ordered
      split
      · rename_i a routed
        intro d found fresh
        simp only [routed, found, fresh, Bool.not_true, Bool.false_or, nothingAppended,
          Bool.and_eq_true, List.isEmpty_iff, Bool.not_eq_true'] at ordered
        exact may_repeat (inv d) ordered.1 ordered.2
      · rename_i a routed
        intro noReset fin
        simp only [routed, noReset, fin, Bool.not_true, Bool.false_or, finFollows,
          beq_iff_eq] at ordered
        exact may_finish (inv a) ordered
      · rename_i a routed
        intro noReset fin
        obtain ⟨_, state⟩ := classify_state (route_classify routed)
        have synced : (net.sockets a).state.synchronised = true := by
          rcases state with state | state
          · rw [state]
            rfl
          · rw [state]
            rfl
        have coreSame : core ((noteAck net a t).sockets a) = core (net.sockets a) := noteAck_core t
        have ackSame : ((noteAck net a t).sockets a).ackNum = (net.sockets a).ackNum :=
          congrArg Core.ackNum coreSame
        have open_ : ((noteAck net a t).sockets a).state.synchronised = true := by
          rw [show ((noteAck net a t).sockets a).state = (net.sockets a).state from
            congrArg Core.state coreSame]
          exact synced
        have stored := inv_takeData acknowledged_stable (inv_noteAck (a := a) inv t) kernel t open_
        refine may_finish (stored a) ?_
        rw [takeData_next, ackSame, noteAck_life]
        have roomSame : receiveSpace (noteAck net a t) a = receiveSpace net a := by
          have rxSame : ((noteAck net a t).sockets a).rx = (net.sockets a).rx :=
            congrArg Core.rx coreSame
          simp only [receiveSpace, rxSame]
          rfl
        simp only [routed, noReset, fin, Bool.not_true, Bool.false_or, Bool.or_eq_true,
          Bool.and_eq_true, finFollows, dataFits, beq_iff_eq, bne_iff_ne, decide_eq_true_eq,
          Bool.not_eq_true'] at ordered
        rcases ordered with ⟨follows, kept⟩ | ⟨⟨⟨noFin, some_⟩, next⟩, room⟩
        · rw [if_pos kept]
          exact follows
        · have covers := (inv a).covers synced
          have taken : t.data.take (receiveSpace net a) = t.data := List.take_of_length_le room
          rw [if_neg (by simp [some_, next]), roomSame, taken, next]
          rw [show (net.sockets a).ackNum = (life net.log a).ack from covers, Life.ack, noFin]
          simp [Segment.dataLen]
      · trivial
  | read a maxlen => exact ⟨after_honest (inv a).honest rfl, (inv a).covers, fun _ => rfl, (inv a).idle⟩
  | _ => trivial

theorem acknowledged_start : Inv Acknowledged {} :=
  fun _ => ⟨rfl, by simp [core, SocketState.synchronised], fun _ => rfl,
    fun _ => by simp [core, SocketState.synchronised]⟩

theorem acknowledged_zero {c : Core} {l : Life} (inv : Acknowledged c l) (closed : c.state = .closed) :
    Acknowledged { c with ackNum := 0 } l :=
  ⟨inv.honest, by simp [closed, SocketState.synchronised], inv.dialling, inv.idle⟩

def closed : List Op := greeted ++ [.packet [0, 1] (fromPeer 104 (flagFin ||| flagAck) [75])]

end R2Apps.TcpDelivery
