import Mathlib.Data.List.Basic
import R2Apps.TcpSending

/-! Passive opens: what a SYN makes of a pool with a listening socket. The loop
of `on_tcp_packet` frees and claims slots of the pool it walks, yet no two used
sockets get the same local port, remote address and remote port, and a SYN that
reaches a listener is answered once: with a SYN-ACK, or with a reset when every
slot is taken. -/
namespace R2Apps.TcpPassiveOpens
open TcpSockets TcpHistory TcpDelivery TcpSending

/-! ## Keys that are held once -/

section Keys
variable {α κ : Type} {keys keys' : α → Option κ} {pool : List α}

/-- No key is held by two of the pool. -/
def HeldOnce (keys : α → Option κ) (pool : List α) : Prop :=
  ∀ a ∈ pool, ∀ b ∈ pool, ∀ k, keys a = some k → keys b = some k → a = b

theorem HeldOnce.fewer (once : HeldOnce keys pool) (fewer : ∀ a k, keys' a = some k → keys a = some k) :
    HeldOnce keys' pool :=
  fun a ha b hb k first second => once a ha b hb k (fewer a k first) (fewer b k second)

theorem HeldOnce.given (once : HeldOnce keys pool) {c : α} {k : κ} (given : keys' c = some k)
    (others : ∀ a, a ≠ c → keys' a = keys a) (new : ∀ a ∈ pool, keys a ≠ some k) : HeldOnce keys' pool := by
  intro a ha b hb x first second
  by_cases here : a = c
  · by_cases there : b = c
    · rw [here, there]
    · rw [here, given] at first
      rw [others b there, ← first] at second
      exact absurd second (new b hb)
  · rw [others a here] at first
    by_cases there : b = c
    · rw [there, given] at second
      rw [← second] at first
      exact absurd first (new a ha)
    · rw [others b there] at second
      exact once a ha b hb x first second

theorem findSome?_first {β : Type} {f : α → Option β} {before after : List α} {x : α} {y : β}
    (earlier : ∀ z ∈ before, f z = none ∨ f z = some y) (here : f x = some y) :
    (before ++ x :: after).findSome? f = some y := by
  induction before with
  | nil => simp [here]
  | cons z rest ih =>
      have later := ih fun w member => earlier w (List.mem_cons_of_mem _ member)
      rcases earlier z List.mem_cons_self with none_ | same
      · rw [List.cons_append, List.findSome?_cons, none_]
        exact later
      · rw [List.cons_append, List.findSome?_cons, same]

end Keys

/-! ## Segments as they leave -/

/-- A segment with the addresses that `send_tcp_packet` puts on it. -/
structure Packet where
  srcIp : UInt32
  dstIp : UInt32
  srcPort : UInt16
  dstPort : UInt16
  seqNum : UInt32
  ackNum : UInt32
  window : UInt16
  length : Nat
  flags : UInt8
  deriving DecidableEq

def packetOf (s : Socket) (capacity len : Nat) (flags : UInt8) : Packet where
  srcIp := s.localIp
  dstIp := s.remoteIp
  srcPort := s.localPort
  dstPort := s.remotePort
  seqNum := s.seqNum
  ackNum := s.ackNum
  window := UInt16.ofNat (capacity - min s.rx.length capacity)
  length := len
  flags := flags

/-- What the attempt puts on the wire: nothing when it does not go through. -/
def handOver (kernel : Nat → Bool) (attempts : Nat) (s : Socket) (capacity len : Nat) (flags : UInt8) :
    List Packet :=
  if kernel attempts && decide (len ≤ tcpMaxPayload) then [packetOf s capacity len flags] else []

abbrev Answer := Net × List Packet

/-- `send_tcp_packet`, with what it sends. -/
def sendAnswer (kernel : Nat → Bool) (net : Net) (a len : Nat) (flags : UInt8) : Answer :=
  (sendTcpPacket kernel net a len flags,
    handOver kernel net.attempts (net.sockets a) (receiveCapacity net a) len flags)

/-- The scratch socket is on the stack, so no application buffer is registered for it. -/
def sendReset (kernel : Nat → Bool) (net : Net) (t : Segment) : Answer :=
  let tmp : Socket := {
    localIp := t.dstIp, remoteIp := t.srcIp
    localPort := t.destPort, remotePort := t.sourcePort
    seqNum := 0, ackNum := t.seqNum + 1, rx := [], state := .closed }
  ({ net with attempts := net.attempts + 1 },
    handOver kernel net.attempts tmp rxBufferSize 0 (flagRst ||| flagAck))

def repeatAnswer (kernel : Nat → Bool) (net : Net) (d : Nat) (t : Segment) : Answer :=
  let net := net.set d { net.sockets d with ackNum := t.seqNum + 1, seqNum := 0 }
  let net := net.note d (.repeated t.seqNum)
  let sent := sendAnswer kernel net d 0 (flagSyn ||| flagAck)
  (sent.1.set d { sent.1.sockets d with seqNum := 1, lastActivity := sent.1.now }, sent.2)

def openAnswer (kernel : Nat → Bool) (net : Net) (pool : List Nat) (t : Segment) : Answer :=
  match allocSocket net pool with
  | none => sendReset kernel net t
  | some (net, c) =>
      let net := net.set c { net.sockets c with
        remoteIp := t.srcIp, localIp := t.dstIp
        localPort := t.destPort, remotePort := t.sourcePort
        state := .established, seqNum := 0, ackNum := t.seqNum + 1
        txAcked := 0, peerWindow := t.windowSize }
      let net := net.note c (.opened t.seqNum)
      let sent := sendAnswer kernel net c 0 (flagSyn ||| flagAck)
      (sent.1.set c { sent.1.sockets c with seqNum := 1, lastActivity := sent.1.now }, sent.2)

def listenAnswer (kernel : Nat → Bool) (net : Net) (pool : List Nat) (listener : Nat) (t : Segment) :
    Answer :=
  match findConn net pool t listener with
  | some d =>
      if untouched (net.sockets d) then repeatAnswer kernel net d t
      else openAnswer kernel (freeSocket net d) pool t
  | none => openAnswer kernel net pool t

/-- What `on_tcp_packet` makes of a segment that a listener takes. -/
def synAnswer (kernel : Nat → Bool) (net : Net) (pool : List Nat) (t : Segment) : Option Answer :=
  match route net pool t with
  | some (l, .listenSyn) => some (listenAnswer kernel net pool l t)
  | _ => none

theorem openAnswer_net (kernel : Nat → Bool) (net : Net) (pool : List Nat) (t : Segment) :
    (openAnswer kernel net pool t).1 = openPassive kernel net pool t := by
  unfold openAnswer openPassive
  cases allocSocket net pool with
  | none => rfl
  | some result => rfl

theorem listenAnswer_net (kernel : Nat → Bool) (net : Net) (pool : List Nat) (l : Nat) (t : Segment) :
    (listenAnswer kernel net pool l t).1 = onListenSyn kernel net pool l t := by
  unfold listenAnswer onListenSyn
  cases findConn net pool t l with
  | none => exact openAnswer_net kernel net pool t
  | some d =>
      dsimp only
      by_cases fresh : untouched (net.sockets d) = true
      · rw [if_pos fresh, if_pos fresh]
        rfl
      · rw [if_neg fresh, if_neg fresh]
        exact openAnswer_net kernel (freeSocket net d) pool t

theorem synAnswer_net (kernel : Nat → Bool) {net : Net} {pool : List Nat} {t : Segment} {l : Nat}
    (routed : route net pool t = some (l, .listenSyn)) :
    synAnswer kernel net pool t = some (listenAnswer kernel net pool l t) ∧
      (listenAnswer kernel net pool l t).1 = onTcpPacket kernel net pool t := by
  constructor
  · rw [synAnswer, routed]
  · rw [onTcpPacket, routed]
    exact listenAnswer_net kernel net pool l t

/-! ## Connections -/

structure Tuple where
  localPort : UInt16
  remoteIp : UInt32
  remotePort : UInt16
  deriving DecidableEq

/-- The tuple of a used socket that does not listen. -/
def connection (s : Socket) : Option Tuple :=
  if s.used = true ∧ s.state ≠ .listening then some ⟨s.localPort, s.remoteIp, s.remotePort⟩ else none

/-- The tuple a segment is for. -/
def tupleFor (t : Segment) : Tuple := ⟨t.destPort, t.srcIp, t.sourcePort⟩

def Listening (s : Socket) : Prop := s.used = true ∧ s.state = .listening

def OnePerTuple (net : Net) (pool : List Nat) : Prop := HeldOnce (fun a => connection (net.sockets a)) pool

theorem connection_some {s : Socket} {k : Tuple} :
    connection s = some k ↔ s.used = true ∧ s.state ≠ .listening ∧
      ⟨s.localPort, s.remoteIp, s.remotePort⟩ = k := by
  unfold connection
  by_cases open_ : s.used = true ∧ s.state ≠ .listening
  · rw [if_pos open_, Option.some.injEq]
    exact ⟨fun same => ⟨open_.1, open_.2, same⟩, fun all => all.2.2⟩
  · rw [if_neg open_]
    exact ⟨fun none_ => absurd none_ (Option.some_ne_none k).symm, fun all => absurd ⟨all.1, all.2.1⟩ open_⟩

theorem listening_connects {s : Socket} (listening : Listening s) (k : Tuple) : connection s ≠ some k :=
  fun connected => (connection_some.mp connected).2.1 listening.2

/-- A socket after a step that begins no connection and listens to no port anew. -/
structure Kept (s s' : Socket) : Prop where
  connection : ∀ k, connection s' = some k → connection s = some k
  listening : Listening s' → Listening s

def AllKept (net net' : Net) : Prop := ∀ a, Kept (net.sockets a) (net'.sockets a)

theorem Kept.refl (s : Socket) : Kept s s := ⟨fun _ => id, id⟩

theorem Kept.trans {s s' s'' : Socket} (first : Kept s s') (second : Kept s' s'') : Kept s s'' :=
  ⟨fun k connected => first.connection k (second.connection k connected),
    fun listening => first.listening (second.listening listening)⟩

theorem kept_same {s s' : Socket} (used : s'.used = s.used) (state : s'.state = s.state)
    (ports : s'.localPort = s.localPort ∧ s'.remotePort = s.remotePort) (peer : s'.remoteIp = s.remoteIp) :
    Kept s s' := by
  constructor
  · intro k
    rw [connection_some, connection_some, used, state, ports.1, ports.2, peer]
    exact id
  · intro listening
    rw [Listening, used, state] at listening
    exact listening

theorem kept_moved {s s' : Socket} (used : s'.used = s.used) (before : s.state ≠ .listening)
    (after : s'.state ≠ .listening) (ports : s'.localPort = s.localPort ∧ s'.remotePort = s.remotePort)
    (peer : s'.remoteIp = s.remoteIp) : Kept s s' := by
  constructor
  · intro k
    rw [connection_some, connection_some, used, ports.1, ports.2, peer]
    exact fun connected => ⟨connected.1, before, connected.2.2⟩
  · exact fun listening => absurd listening.2 after

theorem kept_unused {s s' : Socket} (unused : s'.used = false) : Kept s s' := by
  constructor
  · intro k connected
    rw [connection_some, unused] at connected
    exact absurd connected.1 Bool.false_ne_true
  · intro listening
    rw [Listening, unused] at listening
    exact absurd listening.1 Bool.false_ne_true

section Steps
variable {net net' : Net} {a : Nat} {kernel : Nat → Bool}

theorem AllKept.trans {net'' : Net} (first : AllKept net net') (second : AllKept net' net'') :
    AllKept net net'' :=
  fun a => (first a).trans (second a)

theorem kept_only (others : ∀ b, b ≠ a → net'.sockets b = net.sockets b)
    (here : Kept (net.sockets a) (net'.sockets a)) : AllKept net net' := by
  intro b
  by_cases hit : b = a
  · rw [hit]
    exact here
  · rw [others b hit]
    exact Kept.refl _

theorem kept_set {s : Socket} (here : Kept (net.sockets a) s) : AllKept net (net.set a s) :=
  kept_only (fun _ apart => set_other net s apart) (by rwa [set_same])

theorem kept_note (a : Nat) (e : Event) : AllKept net (net.note a e) := fun _ => Kept.refl _

theorem kept_send (kernel : Nat → Bool) (a len : Nat) (flags : UInt8) :
    AllKept net (sendTcpPacket kernel net a len flags) := by
  refine kept_only (fun _ apart => send_other kernel net len flags apart) ?_
  rw [send_self]
  exact kept_same rfl rfl ⟨rfl, rfl⟩ rfl

theorem kept_free : AllKept net (freeSocket net a) := by
  refine kept_only (fun _ apart => free_other net apart) ?_
  rw [free_self]
  exact kept_unused rfl

theorem kept_repeat (t : Segment) : AllKept net (repeatSynAck kernel net a t) := by
  refine kept_only (a := a) ?_ ?_
  · intro b apart
    simp [repeatSynAck, set_other _ _ apart, send_other _ _ _ _ apart]
  · apply kept_same <;> simp [repeatSynAck, send_self]

theorem kept_challenge (t : Segment) : AllKept net (onChallenge kernel net a t) := by
  refine kept_only (a := a) ?_ ?_
  · intro b apart
    simp [onChallenge, set_other _ _ apart, send_other _ _ _ _ apart]
  · apply kept_same <;> simp [onChallenge, send_self]

theorem kept_synAck (t : Segment) (dialling : (net.sockets a).state = .synSent) :
    AllKept net (onSynAck kernel net a t) := by
  have open_ : AllKept net (net.set a { net.sockets a with
      localIp := t.dstIp, ackNum := t.seqNum + 1, txAcked := t.ackNum
      peerWindow := t.windowSize, state := .established, lastActivity := net.now }) :=
    kept_set (kept_moved rfl (by simp [dialling]) (by simp) ⟨rfl, rfl⟩ rfl)
  have noted := (open_.trans (kept_note a (.opened t.seqNum))).trans (kept_note a (.heard true t.ackNum))
  exact noted.trans (kept_send kernel a 0 flagAck)

theorem kept_finWait (t : Segment) : AllKept net (onFinWait kernel net a t) := by
  unfold onFinWait
  have stamped : AllKept net ((net.note a (.heard (t.has flagAck) t.ackNum)).set a
      { net.sockets a with lastActivity := net.now }) :=
    (kept_note a _).trans (kept_set (kept_same rfl rfl ⟨rfl, rfl⟩ rfl))
  split
  · exact kept_free
  · split
    · refine AllKept.trans ?_ kept_free
      refine AllKept.trans ?_ (kept_send kernel a 0 flagAck)
      exact stamped.trans (kept_set (kept_same rfl rfl ⟨rfl, rfl⟩ rfl))
    · exact stamped

theorem kept_noteAck (t : Segment) : AllKept net (noteAck net a t) := by
  refine kept_set ?_
  split
  · exact kept_same rfl rfl ⟨rfl, rfl⟩ rfl
  · exact kept_same rfl rfl ⟨rfl, rfl⟩ rfl

theorem kept_takeData (t : Segment) : AllKept net (takeData kernel net a t) := by
  unfold takeData
  split
  · exact fun b => Kept.refl _
  · refine AllKept.trans ?_ (kept_send kernel a 0 flagAck)
    split
    · exact kept_set (kept_same rfl rfl ⟨rfl, rfl⟩ rfl)
    · exact fun b => Kept.refl _

theorem kept_takeFin (t : Segment) (open_ : (net.sockets a).state ≠ .listening) :
    AllKept net (takeFin kernel net a t) := by
  unfold takeFin
  split
  · have finished : AllKept net (net.set a { net.sockets a with ackNum := t.seqNum + t.dataLen + 1 }) :=
      kept_set (kept_same rfl rfl ⟨rfl, rfl⟩ rfl)
    have acked := (finished.trans (kept_note a (.finished (t.seqNum + t.dataLen)))).trans
      (kept_send kernel a 0 flagAck)
    dsimp only
    split
    · exact acked.trans kept_free
    · refine acked.trans (kept_set (kept_moved rfl ?_ (by simp) ⟨rfl, rfl⟩ rfl))
      rw [send_self, note_sockets, set_same]
      exact open_
  · exact fun b => Kept.refl _

theorem kept_opened (t : Segment) (open_ : (net.sockets a).state ≠ .listening) :
    AllKept net (onOpened kernel net a t) := by
  unfold onOpened
  split
  · exact kept_free
  · refine ((kept_noteAck t).trans (kept_takeData t)).trans (kept_takeFin t ?_)
    have same : ((takeData kernel (noteAck net a t) a t).sockets a).state =
        ((noteAck net a t).sockets a).state :=
      takeData_core kernel t
    have noted : ((noteAck net a t).sockets a).state = (net.sockets a).state :=
      congrArg Core.state (noteAck_core t)
    rw [same, noted]
    exact open_

theorem kept_read (maxlen : Nat) : AllKept net (tcpRead kernel net a maxlen).1 := by
  unfold tcpRead
  have drained : AllKept net ((net.set a { net.sockets a with rx := [] }).note a
      (.returned ((net.sockets a).rx.take maxlen))) := kept_set (kept_same rfl rfl ⟨rfl, rfl⟩ rfl)
  dsimp only
  split
  · exact drained.trans (kept_send kernel a 0 flagAck)
  · exact drained

theorem kept_write (len : Nat) : AllKept net (tcpWrite kernel net a len).1 := by
  unfold tcpWrite
  dsimp only
  split
  · exact kept_send kernel a len flagAck
  · exact (kept_send kernel a len flagAck).trans (kept_set (kept_same rfl rfl ⟨rfl, rfl⟩ rfl))

theorem kept_close : AllKept net (tcpClose kernel net a) := by
  -- a FIN leaves the socket in its slot, out of a state that is not listening
  have ends (open_ : (net.sockets a).state ≠ .listening) (now : UInt32) :
      AllKept net ((sendTcpPacket kernel net a 0 (flagFin ||| flagAck)).set a
        { (sendTcpPacket kernel net a 0 (flagFin ||| flagAck)).sockets a with
          state := .finWait, lastActivity := now }) := by
    refine (kept_send kernel a 0 (flagFin ||| flagAck)).trans
      (kept_set (kept_moved rfl ?_ (by simp) ⟨rfl, rfl⟩ rfl))
    rw [send_self]
    exact open_
  unfold tcpClose
  cases state : (net.sockets a).state with
  | closed => exact kept_free
  | listening => exact kept_free
  | synSent => exact (kept_send kernel a 0 flagRst).trans kept_free
  | established => exact ends (by rw [state]; decide) _
  | finWait => exact fun b => Kept.refl _
  | closeWait => exact ends (by rw [state]; decide) _

theorem kept_reapOne (idleSecs : UInt32) (protect : Nat → Bool) (i : Nat) :
    AllKept net (reapOne kernel idleSecs protect net i a).1 := by
  unfold reapOne
  dsimp only
  generalize (if net.now ≥ (net.sockets a).lastActivity then _ else _ : UInt32) = idle
  split
  · exact fun b => Kept.refl _
  split
  · split
    · exact kept_free
    · exact fun b => Kept.refl _
  split
  · exact fun b => Kept.refl _
  split
  · exact (kept_send kernel a 0 flagRst).trans kept_free
  · exact kept_free

theorem kept_reap (pool : List Nat) (idleSecs : UInt32) (protect : Nat → Bool) :
    AllKept net (socketReap kernel net pool idleSecs protect).1 := by
  unfold socketReap
  split
  case isTrue => exact fun b => Kept.refl _
  case isFalse ticking =>
    clear ticking
    generalize pool.zipIdx = slots
    generalize (0 : UInt8) = freed
    induction slots generalizing net freed with
    | nil => exact fun b => Kept.refl _
    | cons slot rest ih => exact (kept_reapOne (a := slot.1) idleSecs protect slot.2).trans (ih _)

/-! ## A SYN that reaches a listener -/

variable {pool : List Nat} {t : Segment} {l : Nat}

theorem findConn_some {d : Nat} (found : findConn net pool t l = some d) :
    d ∈ pool ∧ connection (net.sockets d) = some (tupleFor t) := by
  have holds := List.find?_some found
  simp only [Bool.and_eq_true, beq_iff_eq, bne_iff_ne, ne_eq] at holds
  obtain ⟨⟨⟨⟨⟨used, _⟩, open_⟩, port⟩, peerPort⟩, peer⟩ := holds
  refine ⟨List.mem_of_find?_eq_some found, connection_some.mpr ⟨used, open_, ?_⟩⟩
  rw [port, peer, peerPort, tupleFor]

theorem findConn_none (none_ : findConn net pool t l = none) (listening : Listening (net.sockets l)) :
    ∀ a ∈ pool, connection (net.sockets a) ≠ some (tupleFor t) := by
  intro a member connected
  have fails := List.find?_eq_none.mp none_ a member
  have other : a ≠ l := by
    rintro rfl
    exact listening_connects listening _ connected
  obtain ⟨used, open_, same⟩ := connection_some.mp connected
  simp only [tupleFor, Tuple.mk.injEq] at same
  exact fails (by simp [used, open_, same, other])

theorem firstSlot_none {p : Nat → Bool} (none_ : firstSlot pool p = none) : ∀ a ∈ pool, p a = false := by
  intro a member
  by_contra holds
  rw [Bool.not_eq_false] at holds
  cases found : pool.findIdx? p with
  | none => exact absurd (List.findIdx?_eq_none_iff.mp found a member) (by simp [holds])
  | some i =>
      have inside := (List.findIdx?_eq_some_iff_getElem.mp found).1
      simp [firstSlot, found, List.getElem?_eq_getElem inside] at none_

theorem firstSlot_mem {p : Nat → Bool} {i b : Nat} (found : firstSlot pool p = some (i, b)) : b ∈ pool := by
  simp only [firstSlot, Option.bind_eq_some_iff, Option.map_eq_some_iff, Prod.mk.injEq] at found
  obtain ⟨j, _, c, entry, _, rfl⟩ := found
  exact List.mem_of_getElem? entry

/-- A slot that `alloc_socket` may take. -/
def Reclaimable (s : Socket) : Prop := s.used = false ∨ s.state = .finWait

theorem alloc_none : allocSocket net pool = none ↔ ∀ a ∈ pool, ¬Reclaimable (net.sockets a) := by
  unfold allocSocket
  constructor
  · intro full a member may
    split at full
    · exact absurd full (Option.some_ne_none _)
    · rename_i nothing
      have used : (net.sockets a).used = true := by simpa using firstSlot_none nothing a member
      split at full
      · exact absurd full (Option.some_ne_none _)
      · rename_i none_
        have kept := firstSlot_none none_ a member
        rw [used, Bool.true_and, beq_eq_false_iff_ne] at kept
        rcases may with unused | closing
        · exact absurd (used.symm.trans unused) Bool.noConfusion
        · exact kept closing
  · intro full
    split
    · rename_i i a found
      have free : (net.sockets a).used = false := by simpa using firstSlot_holds found
      exact absurd (.inl free) (full a (firstSlot_mem found))
    · split
      · rename_i i a found
        have closing := firstSlot_holds found
        rw [Bool.and_eq_true, beq_iff_eq] at closing
        exact absurd (.inr closing.2) (full a (firstSlot_mem found))
      · rfl

theorem buffer_attempts (net : Net) (a : Nat) (buffer : Option Nat) :
    (tcpSetReceiveBuffer net a buffer).1.attempts = net.attempts := by
  cases buffer <;> simp only [tcpSetReceiveBuffer] <;> repeat' split
  all_goals rfl

theorem free_attempts (net : Net) (a : Nat) : (freeSocket net a).attempts = net.attempts :=
  buffer_attempts _ _ none

theorem claim_fields (net : Net) (a i : Nat) : ((socketClaim net a i).sockets a).used = true ∧
    (socketClaim net a i).attempts = net.attempts := by
  constructor
  · simp [socketClaim, buffer_sockets]
  · exact buffer_attempts _ _ none

theorem alloc_some {net1 : Net} {c : Nat} (got : allocSocket net pool = some (net1, c)) :
    c ∈ pool ∧ (net1.sockets c).used = true ∧ net1.attempts = net.attempts ∧
      ∀ b, b ≠ c → net1.sockets b = net.sockets b := by
  obtain ⟨_, _, _, others⟩ := alloc_taken got
  unfold allocSocket at got
  split at got
  · rename_i i b found
    cases got
    obtain ⟨used, attempts⟩ := claim_fields net c i
    exact ⟨firstSlot_mem found, used, attempts, others⟩
  · split at got
    · rename_i i b found
      cases got
      obtain ⟨used, attempts⟩ := claim_fields (net.set c { net.sockets c with state := .closed }) c i
      exact ⟨firstSlot_mem found, used, attempts, others⟩
    · exact absurd got (Option.some_ne_none _).symm

/-- The segment answers a SYN: it goes back where that came from, from the port
it was for, and acknowledges it with its own first sequence number. -/
structure Answers (p : Packet) (t : Segment) (flags : UInt8) : Prop where
  back : p.dstIp = t.srcIp ∧ p.dstPort = t.sourcePort
  port : p.srcPort = t.destPort
  numbers : p.seqNum = 0 ∧ p.ackNum = t.seqNum + 1
  bare : p.length = 0 ∧ p.flags = flags

/-- The SYN-ACK is from a socket of the tuple. -/
def SynAcked (net : Net) (pool : List Nat) (t : Segment) (p : Packet) : Prop :=
  Answers p t (flagSyn ||| flagAck) ∧
    ∃ c ∈ pool, connection (net.sockets c) = some (tupleFor t) ∧ p.srcIp = (net.sockets c).localIp

/-- What one attempt to send `p` puts on the wire. -/
def sentOnce (kernel : Nat → Bool) (net : Net) (p : Packet) : List Packet :=
  if kernel net.attempts then [p] else []

theorem sentOnce_free (kernel : Nat → Bool) (net : Net) (a : Nat) (p : Packet) :
    sentOnce kernel (freeSocket net a) p = sentOnce kernel net p := by
  rw [sentOnce, free_attempts, sentOnce]

theorem handOver_bare (kernel : Nat → Bool) (net : Net) (s : Socket) (capacity : Nat) (flags : UInt8) :
    handOver kernel net.attempts s capacity 0 flags = sentOnce kernel net (packetOf s capacity 0 flags) := by
  simp [handOver, sentOnce]

theorem repeat_acked {d : Nat} (member : d ∈ pool) (same : connection (net.sockets d) = some (tupleFor t)) :
    ∃ p, (repeatAnswer kernel net d t).2 = sentOnce kernel net p ∧
      SynAcked (repeatSynAck kernel net d t) pool t p := by
  obtain ⟨used, open_, tuple⟩ := connection_some.mp same
  simp only [tupleFor, Tuple.mk.injEq] at tuple
  refine ⟨_, handOver_bare kernel net _ _ _, ⟨?_, ?_, ?_, ⟨rfl, rfl⟩⟩, d, member, ?_, ?_⟩
  · simp [packetOf, tuple]
  · simp [packetOf, tuple]
  · simp [packetOf]
  · rw [connection_some]
    simpa [repeatSynAck, send_self, tupleFor, tuple, used] using open_
  · simp [packetOf, repeatSynAck, send_self]

theorem open_acked {net1 : Net} {c : Nat} (got : allocSocket net pool = some (net1, c)) :
    ∃ p, (openAnswer kernel net pool t).2 = sentOnce kernel net p ∧
      SynAcked (openPassive kernel net pool t) pool t p := by
  obtain ⟨member, used, attempts, _⟩ := alloc_some got
  unfold openAnswer openPassive
  rw [got]
  have once : sentOnce kernel net1 = sentOnce kernel net := by
    unfold sentOnce
    rw [attempts]
  refine ⟨_, (handOver_bare kernel net1 _ _ _).trans (congrFun once _), ⟨?_, ?_, ?_, ⟨rfl, rfl⟩⟩, c,
    member, ?_, ?_⟩
  · simp [packetOf]
  · simp [packetOf]
  · simp [packetOf]
  · rw [connection_some]
    simp [send_self, tupleFor, used]
  · simp [packetOf, send_self]

theorem open_one (one : OnePerTuple net pool)
    (new : ∀ a ∈ pool, connection (net.sockets a) ≠ some (tupleFor t)) :
    OnePerTuple (openPassive kernel net pool t) pool := by
  unfold openPassive
  cases got : allocSocket net pool with
  | none => exact one
  | some result =>
      obtain ⟨net1, c⟩ := result
      obtain ⟨_, used, _, others⟩ := alloc_some got
      refine HeldOnce.given one (c := c) (k := tupleFor t) ?_ ?_ new
      · rw [connection_some]
        simp [send_self, tupleFor, used]
      · intro b apart
        simp [set_other _ _ apart, send_other _ _ _ _ apart, others b apart]

theorem open_listeners {b : Nat} (listening : Listening ((openPassive kernel net pool t).sockets b)) :
    Listening (net.sockets b) := by
  unfold openPassive at listening
  cases got : allocSocket net pool with
  | none =>
      rw [got] at listening
      exact listening
  | some result =>
      obtain ⟨net1, c⟩ := result
      obtain ⟨_, _, _, others⟩ := alloc_some got
      rw [got] at listening
      by_cases here : b = c
      · rw [here] at listening
        simp [Listening, send_self] at listening
      · simpa [set_other _ _ here, send_other _ _ _ _ here, others b here] using listening

theorem free_new (one : OnePerTuple net pool) {d : Nat} (member : d ∈ pool)
    (same : connection (net.sockets d) = some (tupleFor t)) :
    ∀ a ∈ pool, connection ((freeSocket net d).sockets a) ≠ some (tupleFor t) := by
  intro a here connected
  obtain rfl := one a here d member _ ((kept_free a).connection _ connected) same
  rw [free_self, connection_some] at connected
  exact absurd connected.1 Bool.false_ne_true

theorem listenSyn_one (one : OnePerTuple net pool) (listening : Listening (net.sockets l)) :
    OnePerTuple (onListenSyn kernel net pool l t) pool := by
  unfold onListenSyn
  cases found : findConn net pool t l with
  | none => exact open_one one (findConn_none found listening)
  | some d =>
      obtain ⟨member, same⟩ := findConn_some found
      dsimp only
      split
      · exact one.fewer fun a => (kept_repeat t a).connection
      · exact open_one (one.fewer fun a => (kept_free a).connection) (free_new one member same)

theorem listenSyn_listeners {b : Nat} (listening : Listening ((onListenSyn kernel net pool l t).sockets b)) :
    Listening (net.sockets b) := by
  unfold onListenSyn at listening
  cases found : findConn net pool t l with
  | none =>
      rw [found] at listening
      exact open_listeners listening
  | some d =>
      rw [found] at listening
      dsimp only at listening
      split at listening
      · exact (kept_repeat t b).listening listening
      · exact (kept_free b).listening (open_listeners listening)

/-- No slot is free or may be given up for the SYN. -/
def Full (net : Net) (pool : List Nat) (t : Segment) : Prop :=
  ∀ a ∈ pool, ¬Reclaimable (net.sockets a) ∧ connection (net.sockets a) ≠ some (tupleFor t)

theorem listen_acked (kernel : Nat → Bool) (room : ¬Full net pool t) (listening : Listening (net.sockets l)) :
    ∃ p, (listenAnswer kernel net pool l t).2 = sentOnce kernel net p ∧
      SynAcked (onListenSyn kernel net pool l t) pool t p := by
  unfold listenAnswer onListenSyn
  cases found : findConn net pool t l with
  | none =>
      have nobody := findConn_none found listening
      cases got : allocSocket net pool with
      | none => exact absurd (fun a member => ⟨alloc_none.mp got a member, nobody a member⟩) room
      | some result => exact open_acked got
  | some d =>
      obtain ⟨member, same⟩ := findConn_some found
      dsimp only
      by_cases fresh : untouched (net.sockets d) = true
      · rw [if_pos fresh, if_pos fresh]
        exact repeat_acked member same
      · rw [if_neg fresh, if_neg fresh]
        cases got : allocSocket (freeSocket net d) pool with
        | none =>
            -- the slot that was just freed is there to be taken
            have freed : Reclaimable ((freeSocket net d).sockets d) := .inl (by rw [free_self])
            exact absurd freed (alloc_none.mp got d member)
        | some result =>
            obtain ⟨p, sent, acked⟩ := open_acked got
            rw [sentOnce_free] at sent
            exact ⟨p, sent, acked⟩

theorem listen_refused (kernel : Nat → Bool) (l : Nat) (full : Full net pool t) :
    ∃ p, (listenAnswer kernel net pool l t).2 = sentOnce kernel net p ∧
      Answers p t (flagRst ||| flagAck) ∧ p.srcIp = t.dstIp ∧
      (onListenSyn kernel net pool l t).sockets = net.sockets := by
  unfold listenAnswer onListenSyn
  cases found : findConn net pool t l with
  | some d =>
      obtain ⟨member, same⟩ := findConn_some found
      exact absurd same (full d member).2
  | none =>
      have none_ := alloc_none.mpr fun a member => (full a member).1
      dsimp only
      unfold openAnswer openPassive
      rw [none_]
      exact ⟨_, handOver_bare kernel net _ _ _, ⟨⟨rfl, rfl⟩, rfl, ⟨rfl, rfl⟩, ⟨rfl, rfl⟩⟩, rfl, rfl⟩

end Steps

/-! ## Runs of one pool -/

/-- What a run of the pool is made of: its segments, and what the application
does with sockets that are there. -/
def onPool (pool : List Nat) : Op → Prop
  | .packet other _ => other = pool
  | .reap .. | .read .. | .write .. | .close .. | .setBuffer .. | .time .. => True
  | .init .. | .socket .. | .bind .. | .listen .. | .connect .. => False

/-- One connection for a tuple, and no listener but `l`. -/
structure Sole (pool : List Nat) (l : Nat) (net : Net) : Prop where
  one : OnePerTuple net pool
  listener : ∀ a ∈ pool, Listening (net.sockets a) → a = l

section Runs
variable {net : Net} {pool : List Nat} {l : Nat} {kernel : Nat → Bool}

theorem Sole.kept {net' : Net} (sole : Sole pool l net) (kept : AllKept net net') : Sole pool l net' :=
  ⟨sole.one.fewer fun a => (kept a).connection,
    fun a member listening => sole.listener a member ((kept a).listening listening)⟩

theorem sole_packet (sole : Sole pool l net) (t : Segment) : Sole pool l (onTcpPacket kernel net pool t) := by
  unfold onTcpPacket
  cases routed : route net pool t with
  | none => exact sole
  | some entry =>
      obtain ⟨a, branch⟩ := entry
      obtain ⟨used, state⟩ := classify_state (route_classify routed)
      cases branch with
      | listenSyn =>
          exact ⟨listenSyn_one sole.one ⟨used, state⟩,
            fun b member listening => sole.listener b member (listenSyn_listeners listening)⟩
      | synSentReset => exact sole.kept kept_free
      | challenge => exact sole.kept (kept_challenge t)
      | synAck => exact sole.kept (kept_synAck t state)
      | finWait => exact sole.kept (kept_finWait t)
      | opened =>
          refine sole.kept (kept_opened t ?_)
          rcases state with state | state
          · simp [state]
          · simp [state]

theorem sole_step (sole : Sole pool l net) {op : Op} (here : onPool pool op) :
    Sole pool l (step kernel net op) := by
  cases op with
  | packet other t =>
      obtain rfl : other = pool := here
      exact sole_packet sole t
  | read a maxlen => exact sole.kept (kept_read maxlen)
  | write a len => exact sole.kept (kept_write len)
  | close a => exact sole.kept kept_close
  | setBuffer a buffer =>
      refine sole.kept fun b => ?_
      rw [step, (buffer_sockets net a buffer).1]
      exact Kept.refl _
  | reap other idleSecs protect => exact sole.kept (kept_reap other idleSecs protect)
  | time secs => exact sole.kept fun b => Kept.refl _
  | init _ => exact here.elim
  | socket _ => exact here.elim
  | bind _ _ => exact here.elim
  | listen _ => exact here.elim
  | connect _ _ _ _ _ => exact here.elim

theorem sole_run (kernel : Nat → Bool) (sole : Sole pool l net) {ops : List Op}
    (here : ∀ op ∈ ops, onPool pool op) :
    Sole pool l (run kernel net ops) := by
  induction ops generalizing net with
  | nil => exact sole
  | cons op rest ih =>
      exact ih (sole_step sole (here op List.mem_cons_self)) fun o later =>
        here o (List.mem_cons_of_mem _ later)

/-- The listener stands in a lower slot than the connections of its port. -/
def Below (net : Net) (pool : List Nat) (l : Nat) : Prop :=
  ∃ i, pool[i]? = some l ∧ ∀ (j a : Nat) (k : Tuple), pool[j]? = some a →
    connection (net.sockets a) = some k →
    k.localPort = (net.sockets l).localPort → i < j

theorem below_first (first : pool.head? = some l) (listening : Listening (net.sockets l)) :
    Below net pool l := by
  cases pool with
  | nil => cases first
  | cons a rest =>
      cases first
      refine ⟨0, rfl, ?_⟩
      intro j b k there connected _
      cases j with
      | zero =>
          cases there
          exact absurd connected (listening_connects listening k)
      | succ j => exact Nat.succ_pos j

theorem init_unused (net : Net) (pool : List Nat) :
    ∀ a ∈ pool, ((socketPoolInit net pool).sockets a).used = false := by
  have swept : ∀ (slots : List (Nat × Nat)) (net : Net) (a : Nat),
      a ∈ slots.map Prod.fst ∨ (net.sockets a).used = false →
      ((slots.foldl (fun net e => initOne net e.2 e.1) net).sockets a).used = false := by
    intro slots
    induction slots with
    | nil => exact fun net a unused => unused.resolve_left (List.not_mem_nil)
    | cons slot rest ih =>
        intro net a unused
        refine ih _ a ?_
        by_cases here : a = slot.1
        · right
          simp [here, initOne, buffer_sockets]
        · rw [List.map_cons, List.mem_cons] at unused
          rcases unused with (same | later) | before
          · exact absurd same here
          · exact .inl later
          · right
            simpa [initOne, buffer_sockets, set_other _ _ here] using before
  intro a member
  refine swept _ _ a (.inl ?_)
  rwa [List.zipIdx_map_fst]

/-- The pool as a server opens it: its first socket listens, and there is no other. -/
def serving (net : Net) (pool : List Nat) (l : Nat) (port : UInt16) : Net :=
  TcpSockets.listen (TcpSockets.bind (socketTcp4 (socketPoolInit net pool) pool).1 l port) l

theorem serving_sole (net : Net) (l : Nat) (rest : List Nat) (port : UInt16) :
    Sole (l :: rest) l (serving net (l :: rest) l port) ∧
      Listening ((serving net (l :: rest) l port).sockets l) ∧
      ((serving net (l :: rest) l port).sockets l).localPort = port := by
  have unused := init_unused net (l :: rest)
  unfold serving
  generalize socketPoolInit net (l :: rest) = empty at unused ⊢
  have free := unused l List.mem_cons_self
  have first : firstSlot (l :: rest) (fun a => !(empty.sockets a).used) = some (0, l) := by
    simp [firstSlot, List.findIdx?_cons, free]
  have got : allocSocket empty (l :: rest) = some (socketClaim empty l 0, l) := by
    rw [allocSocket, first]
  obtain ⟨_, used, _, others⟩ := alloc_some got
  generalize result : TcpSockets.listen (TcpSockets.bind (socketTcp4 empty (l :: rest)).1 l port) l = net'
  have alone : ∀ a ∈ l :: rest, a ≠ l → (net'.sockets a).used = false := by
    intro a member apart
    rw [← result]
    simpa [TcpSockets.listen, TcpSockets.bind, socketTcp4, got, set_other _ _ apart, others a apart] using
      unused a member
  have here : Listening (net'.sockets l) := by
    rw [← result]
    simp [Listening, TcpSockets.listen, TcpSockets.bind, socketTcp4, got, used]
  have ported : (net'.sockets l).localPort = port := by
    rw [← result]
    simp [TcpSockets.listen, TcpSockets.bind, socketTcp4, got]
  refine ⟨⟨?_, ?_⟩, here, ported⟩
  · intro a member b _ k connected _
    by_cases same : a = l
    · rw [same] at connected
      exact absurd connected (listening_connects here k)
    · have idle := alone a member same
      exact absurd ((connection_some.mp connected).1.symm.trans idle) Bool.noConfusion
  · intro a member listening
    by_contra apart
    exact absurd (listening.1.symm.trans (alone a member apart)) Bool.noConfusion

theorem route_listener (sole : Sole pool l net) (listening : Listening (net.sockets l))
    (below : Below net pool l)
    {t : Segment} (port : (net.sockets l).localPort = t.destPort) (syn : t.has flagSyn = true) :
    route net pool t = some (l, .listenSyn) := by
  have taken : classify (net.sockets l) t = some .listenSyn := by
    simp [classify, listening.1, listening.2, port, syn]
  obtain ⟨i, at_, lower⟩ := below
  have split_ : pool = pool.take i ++ l :: pool.drop (i + 1) := by
    obtain ⟨inside, same⟩ := List.getElem?_eq_some_iff.mp at_
    rw [← same]
    simp
  unfold route
  rw [split_]
  refine findSome?_first ?_ (by rw [taken]; rfl)
  intro a earlier
  obtain ⟨j, small, there⟩ := List.mem_take_iff_getElem.mp earlier
  have place : pool[j]? = some a := List.getElem?_eq_some_iff.mpr ⟨by omega, there⟩
  by_cases passed : (net.sockets a).used = true ∧ (net.sockets a).localPort = t.destPort
  · by_cases hears : (net.sockets a).state = .listening
    · obtain rfl := sole.listener a (List.mem_of_getElem? place) ⟨passed.1, hears⟩
      exact .inr (by rw [taken]; rfl)
    · -- a connection of the port would stand before the listener
      have connected := connection_some.mpr ⟨passed.1, hears, rfl⟩
      have later := lower j a _ place connected (passed.2.trans port.symm)
      omega
  · left
    have skipped : classify (net.sockets a) t = none := by
      unfold classify
      dsimp only
      rw [if_pos]
      by_cases used : (net.sockets a).used = true
      · simpa [used] using fun same => passed ⟨used, same⟩
      · simp [used]
    rw [skipped]
    rfl

/-- In every run of a pool no tuple has two connections. Where the listener
stands below the connections of its port, a SYN for it is answered by one
segment: a SYN-ACK from a socket of the SYN's tuple, or, when no slot is free or
may be given up, a reset, which leaves the sockets as they are. -/
theorem passive_opens (kernel : Nat → Bool) {start : Net} {pool : List Nat} {l : Nat}
    (sole : Sole pool l start)
    {ops : List Op} (here : ∀ op ∈ ops, onPool pool op) :
    OnePerTuple (run kernel start ops) pool ∧
      ∀ t, Listening ((run kernel start ops).sockets l) →
        ((run kernel start ops).sockets l).localPort = t.destPort → t.has flagSyn = true →
        Below (run kernel start ops) pool l →
        ∃ p, synAnswer kernel (run kernel start ops) pool t =
            some (onTcpPacket kernel (run kernel start ops) pool t,
              sentOnce kernel (run kernel start ops) p) ∧
          (¬Full (run kernel start ops) pool t →
            SynAcked (onTcpPacket kernel (run kernel start ops) pool t) pool t p) ∧
          (Full (run kernel start ops) pool t → Answers p t (flagRst ||| flagAck) ∧ p.srcIp = t.dstIp ∧
            (onTcpPacket kernel (run kernel start ops) pool t).sockets = (run kernel start ops).sockets) := by
  have reached := sole_run kernel sole here
  generalize run kernel start ops = net at reached ⊢
  refine ⟨reached.one, fun t listening port syn below => ?_⟩
  have routed := route_listener reached listening below port syn
  obtain ⟨answer, same⟩ := synAnswer_net kernel routed
  have whole : listenAnswer kernel net pool l t =
      ((listenAnswer kernel net pool l t).1, (listenAnswer kernel net pool l t).2) := rfl
  rw [answer, whole, same]
  rw [listenAnswer_net] at same
  by_cases full : Full net pool t
  · obtain ⟨p, sent, refused⟩ := listen_refused kernel l full
    rw [same] at refused
    exact ⟨p, by rw [sent], fun room => absurd full room, fun _ => refused⟩
  · obtain ⟨p, sent, acked⟩ := listen_acked kernel full listening
    rw [same] at acked
    exact ⟨p, by rw [sent], fun _ => acked, fun none_ => absurd none_ full⟩

end Runs

/-! A peer whose SYN comes again, and a pool with no slot left but the one it has. -/

def synFrom (peerPort : UInt16) : Segment where
  srcIp := 0x0a030409
  dstIp := 0x0a030402
  sourcePort := peerPort
  destPort := 80
  seqNum := 700
  ackNum := 0
  headerLen := 20
  flags := flagSyn
  windowSize := 4096
  packet := List.replicate 20 0

def visited : Net := run everySend (serving {} [0, 1] 0 80) [.packet [0, 1] (synFrom 4000)]

theorem repeated_syn_answered :
    OnePerTuple visited [0, 1] ∧ ∃ p, synAnswer everySend visited [0, 1] (synFrom 4000) =
    some (onTcpPacket everySend visited [0, 1] (synFrom 4000), [p]) := by
  have here : ∀ op ∈ [Op.packet [0, 1] (synFrom 4000)], onPool [0, 1] op := by
    intro op member
    obtain rfl := List.mem_singleton.mp member
    rfl
  obtain ⟨one, answered⟩ := passive_opens everySend (serving_sole {} 0 [1] 80).1 here
  have listening : Listening (visited.sockets 0) := by
    unfold Listening
    decide
  obtain ⟨p, answer, _⟩ :=
    answered (synFrom 4000) listening (by decide) (by decide) (below_first rfl listening)
  exact ⟨one, p, answer⟩

end R2Apps.TcpPassiveOpens
