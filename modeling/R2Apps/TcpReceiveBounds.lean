import Mathlib.Logic.Relation
import R2Apps.BufferPrefixes
import R2Apps.SlotTables
import R2Apps.TcpSending

/-! How far the receive buffers fill. A call of the socket layer is a sequence of
moves: it edits other fields of a socket, empties its receive buffer, appends to
it, rebinds it or sends a segment. Each move keeps the number of unread bytes
within the capacity of the buffer in use, so the states a call passes through
keep it too, and with it what each segment advertises and where each append
lands.

The table of application buffers is modelled in `TcpSockets` without its data
pointers. `Wiring` adds them and the memory behind them. -/
namespace R2Apps.TcpReceiveBounds
open ByteMemory BufferPrefixes SlotTables TcpSockets TcpHistory TcpDelivery TcpSending

inductive Move (kernel : Nat → Bool) : Net → Net → Prop
  | edited (net : Net) (a : Nat) (s : Socket) (same : s.rx = (net.sockets a).rx) :
      Move kernel net (net.set a s)
  | emptied (net : Net) (a : Nat) (s : Socket) (empty : s.rx = []) : Move kernel net (net.set a s)
  | appended (net : Net) (a : Nat) (s : Socket) (data : List UInt8)
      (more : s.rx = (net.sockets a).rx ++ data.take (receiveSpace net a)) :
      Move kernel net ((net.set a s).note a
        (.stored (data.take (receiveSpace net a)) (net.sockets a).rx.length (receiveCapacity net a)))
  | rebound (net : Net) (a : Nat) (buffer : Option Nat) :
      Move kernel net (tcpSetReceiveBuffer net a buffer).1
  | sent (net : Net) (a len : Nat) (flags : UInt8) :
      Move kernel net (sendTcpPacket kernel net a len flags)
  | noted (net : Net) (a : Nat) (e : Event) (quiet : ∀ segment, e ≠ .sent segment)
      (empty : ∀ bytes rxLen capacity, e ≠ .stored bytes rxLen capacity) : Move kernel net (net.note a e)
  | timed (net : Net) (secs : UInt32) : Move kernel net (netSetTime net secs)
  | attempted (net : Net) : Move kernel net { net with attempts := net.attempts + 1 }

def Moves (kernel : Nat → Bool) : Net → Net → Prop := Relation.ReflTransGen (Move kernel)

/-! The bound. -/

structure Bounded (net : Net) : Prop where
  once : Once net.storage
  small : ∀ i a capacity, Holds net.storage i a capacity → capacity ≤ 65535
  within : ∀ a, (net.sockets a).rx.length ≤ receiveCapacity net a

theorem ownSlot_eq (storage : List (Option (Nat × Nat))) (a : Nat) :
    ownSlot storage a = storage.findIdx? (isKey a) := rfl

theorem capacity_held {net : Net} {i a capacity : Nat} (once : Once net.storage)
    (held : Holds net.storage i a capacity) : receiveCapacity net a = capacity := by
  have found : net.storage.find? (isKey a) = some (some (a, capacity)) := find_of_holds once held
  simp only [receiveCapacity]
  rw [show (fun e : Option (Nat × Nat) => e.any fun p => p.1 == a) = isKey a from rfl, found]

theorem capacity_own {net : Net} {a : Nat} (absent : ∀ i capacity, ¬ Holds net.storage i a capacity) :
    receiveCapacity net a = rxBufferSize := by
  have found : net.storage.find? (isKey a) = none := find_of_absent absent
  simp only [receiveCapacity]
  rw [show (fun e : Option (Nat × Nat) => e.any fun p => p.1 == a) = isKey a from rfl, found]

theorem capacity_cases {net : Net} (once : Once net.storage) (a : Nat) :
    (∃ i, Holds net.storage i a (receiveCapacity net a)) ∨
      (∀ i capacity, ¬ Holds net.storage i a capacity) ∧ receiveCapacity net a = rxBufferSize := by
  by_cases some_ : ∃ i capacity, Holds net.storage i a capacity
  · obtain ⟨i, capacity, held⟩ := some_
    left
    rw [capacity_held once held]
    exact ⟨i, held⟩
  · right
    have absent : ∀ i capacity, ¬ Holds net.storage i a capacity := by
      intro i capacity held
      exact some_ ⟨i, capacity, held⟩
    exact ⟨absent, capacity_own absent⟩

theorem capacity_small {net : Net} (bounded : Bounded net) (a : Nat) :
    receiveCapacity net a ≤ 65535 := by
  rcases capacity_cases bounded.once a with ⟨i, held⟩ | ⟨_, own⟩
  · exact bounded.small i a _ held
  · rw [own]
    decide

theorem capacity_same {net net' : Net} (same : net'.storage = net.storage) (a : Nat) :
    receiveCapacity net' a = receiveCapacity net a := by
  simp only [receiveCapacity, same]

theorem bounded_congr {net net' : Net} (bounded : Bounded net) (table : net'.storage = net.storage)
    (unread : ∀ a, (net'.sockets a).rx.length ≤ (net.sockets a).rx.length) : Bounded net' := by
  constructor
  · rw [table]
    exact bounded.once
  · rw [table]
    exact bounded.small
  · intro a
    rw [capacity_same table]
    exact Nat.le_trans (unread a) (bounded.within a)

theorem receiveSpace_exact {net : Net} (bounded : Bounded net) (a : Nat) :
    receiveSpace net a + (net.sockets a).rx.length = receiveCapacity net a := by
  have within := bounded.within a
  have small := capacity_small bounded a
  simp only [receiveSpace]
  omega

theorem storageSlot_cases {storage : List (Option (Nat × Nat))} {a i : Nat} (once : Once storage)
    (picked : storageSlot storage a = some i) :
    (∀ j capacity, Holds storage j a capacity → j = i) ∧ i < storage.length ∧
      ∀ b capacity, Holds storage i b capacity → b = a := by
  simp only [storageSlot] at picked
  cases own : ownSlot storage a with
  | some j =>
      simp only [own, Option.some.injEq] at picked
      subst picked
      obtain ⟨capacity, held⟩ := findIdx_holds (ownSlot_eq storage a ▸ own)
      refine ⟨fun j' capacity' held' => once j' j a capacity' capacity held' held, ?_, ?_⟩
      · exact (List.getElem?_eq_some_iff.mp held).1
      · intro b capacity' held'
        have same := held.symm.trans held'
        simp only [Option.some.injEq, Prod.mk.injEq] at same
        exact same.1.symm
  | none =>
      simp only [own] at picked
      have free := List.find?_some picked
      cases entry : storage[i]? with
      | none => simp [entry] at free
      | some slot =>
          simp only [entry, Option.any_some, Option.isNone_iff_eq_none] at free
          subst free
          refine ⟨fun j capacity held =>
            absurd held (findIdx_absent (ownSlot_eq storage a ▸ own) j capacity), ?_, ?_⟩
          · exact (List.getElem?_eq_some_iff.mp entry).1
          · intro b capacity held
            exact absurd (held.symm.trans entry) (by simp)

theorem capacity_congr {net net' : Net} {b : Nat} (once : Once net.storage) (once' : Once net'.storage)
    (same : ∀ j capacity, Holds net'.storage j b capacity ↔ Holds net.storage j b capacity) :
    receiveCapacity net' b = receiveCapacity net b := by
  rcases capacity_cases once b with ⟨i, held⟩ | ⟨absent, own⟩
  · exact capacity_held once' ((same i _).mpr held)
  · rw [own]
    exact capacity_own fun i capacity held => absent i capacity ((same i capacity).mp held)

theorem bounded_slot {net : Net} {a i : Nat} {entry : Option (Nat × Nat)} (bounded : Bounded net)
    (mine : ∀ b capacity, Holds net.storage i b capacity → b = a)
    (keyed : ∀ b capacity, entry = some (b, capacity) → b = a ∧ capacity ≤ 65535)
    (once' : Once (net.storage.set i entry))
    (room : (net.sockets a).rx.length ≤
      receiveCapacity { net with storage := net.storage.set i entry } a) :
    Bounded { net with storage := net.storage.set i entry } := by
  have others {b} (apart : b ≠ a) : ∀ j capacity,
      Holds (net.storage.set i entry) j b capacity ↔ Holds net.storage j b capacity :=
    holds_set_other (fun capacity held => apart (mine b capacity held))
      fun capacity put => apart (keyed b capacity put).1
  constructor
  · exact once'
  · intro j b capacity held
    by_cases hit : j = i
    · subst hit
      exact (keyed b capacity (holds_set_self held)).2
    · exact bounded.small j b capacity ((holds_set_ne hit).mp held)
  · intro b
    by_cases hit : b = a
    · subst hit
      exact room
    · rw [capacity_congr bounded.once once' (others hit)]
      exact bounded.within b

theorem cleared_absent {storage : List (Option (Nat × Nat))} {a i capacity : Nat} (once : Once storage)
    (held : Holds storage i a capacity) (j other : Nat) : ¬ Holds (storage.set i none) j a other := by
  intro still
  by_cases hit : j = i
  · subst hit
    exact absurd (holds_set_self still) (by simp)
  · exact hit (once j i a other capacity ((holds_set_ne hit).mp still) held)

theorem bounded_rebound {net : Net} (bounded : Bounded net) (a : Nat) (buffer : Option Nat) :
    Bounded (tcpSetReceiveBuffer net a buffer).1 := by
  cases buffer with
  | none =>
      simp only [tcpSetReceiveBuffer]
      by_cases many : (net.sockets a).rx.length > rxBufferSize
      · simp only [many, if_true]
        exact bounded
      · simp only [many, if_false]
        cases own : ownSlot net.storage a with
        | none => exact bounded
        | some i =>
            obtain ⟨capacity, held⟩ := findIdx_holds (ownSlot_eq net.storage a ▸ own)
            apply bounded_slot (a := a) bounded
            · intro b capacity' held'
              have same := held.symm.trans held'
              simp only [Option.some.injEq, Prod.mk.injEq] at same
              exact same.1.symm
            · intro b capacity' put
              exact absurd put (by simp)
            · exact once_clear bounded.once i
            · rw [capacity_own (cleared_absent bounded.once held)]
              exact Nat.le_of_not_gt many
  | some capacity =>
      simp only [tcpSetReceiveBuffer]
      by_cases bad : capacity = 0 ∨ capacity > 65535 ∨ capacity < (net.sockets a).rx.length
      · simp only [bad, if_true]
        exact bounded
      · simp only [bad, if_false]
        cases picked : storageSlot net.storage a with
        | none => exact bounded
        | some i =>
            obtain ⟨own, inside, mine⟩ := storageSlot_cases bounded.once picked
            have once' : Once (net.storage.set i (some (a, capacity))) :=
              once_put bounded.once own
            apply bounded_slot (a := a) bounded mine
            · intro b capacity' put
              simp only [Option.some.injEq, Prod.mk.injEq] at put
              omega
            · exact once'
            · rw [capacity_held once' (holds_put inside)]
              omega

theorem send_rx (kernel : Nat → Bool) (net : Net) (a len : Nat) (flags : UInt8) (b : Nat) :
    ((sendTcpPacket kernel net a len flags).sockets b).rx = (net.sockets b).rx := by
  by_cases hit : b = a
  · subst hit
    rw [send_self]
  · rw [send_other kernel net len flags hit]

theorem send_storage (kernel : Nat → Bool) (net : Net) (a len : Nat) (flags : UInt8) :
    (sendTcpPacket kernel net a len flags).storage = net.storage := by
  simp only [sendTcpPacket]
  split <;> rfl

theorem bounded_set {net : Net} {a : Nat} {s : Socket} (bounded : Bounded net)
    (room : s.rx.length ≤ receiveCapacity net a) : Bounded (net.set a s) := by
  constructor
  · exact bounded.once
  · exact bounded.small
  · intro b
    rw [show receiveCapacity (net.set a s) b = receiveCapacity net b from rfl]
    by_cases hit : b = a
    · subst hit
      rw [set_same]
      exact room
    · rw [set_other net s hit]
      exact bounded.within b

theorem bounded_note {net : Net} (bounded : Bounded net) (a : Nat) (e : Event) :
    Bounded (net.note a e) :=
  ⟨bounded.once, bounded.small, bounded.within⟩

theorem appended_fits {net : Net} (bounded : Bounded net) (a : Nat) (data : List UInt8) :
    (net.sockets a).rx.length + (data.take (receiveSpace net a)).length ≤ receiveCapacity net a := by
  have exact_ := receiveSpace_exact bounded a
  have short := List.length_take_le (receiveSpace net a) data
  omega

theorem bounded_move {kernel : Nat → Bool} {net net' : Net} (bounded : Bounded net)
    (move : Move kernel net net') : Bounded net' := by
  cases move with
  | edited a s same =>
      apply bounded_set bounded
      rw [same]
      exact bounded.within a
  | emptied a s empty =>
      apply bounded_set bounded
      simp [empty]
  | appended a s data more =>
      apply bounded_note
      apply bounded_set bounded
      rw [more, List.length_append]
      exact appended_fits bounded a data
  | rebound a buffer => exact bounded_rebound bounded a buffer
  | sent a len flags =>
      apply bounded_congr bounded (send_storage kernel net a len flags)
      intro b
      rw [send_rx]
  | noted a e quiet empty => exact bounded_note bounded a e
  | timed secs => exact ⟨bounded.once, bounded.small, bounded.within⟩
  | attempted => exact ⟨bounded.once, bounded.small, bounded.within⟩

theorem bounded_start : Bounded {} := by
  have nothing (i a capacity : Nat) : ¬ Holds ({} : Net).storage i a capacity := by
    intro held
    have member := List.mem_of_getElem? held
    exact absurd (List.eq_of_mem_replicate member) (by simp)
  constructor
  · intro i j a capacity capacity' held _
    exact absurd held (nothing i a capacity)
  · intro i a capacity held
    exact absurd held (nothing i a capacity)
  · intro a
    exact Nat.zero_le _

theorem bounded_moves {kernel : Nat → Bool} {net net' : Net} (bounded : Bounded net)
    (moves : Moves kernel net net') : Bounded net' := by
  induction moves with
  | refl => exact bounded
  | tail _ move ih => exact bounded_move ih move

/-! What the log says of the buffers. -/

/-- A segment advertises what is left of the buffer, and bytes are stored only
where the buffer has room for them. -/
def Allowed : Event → Prop
  | .sent segment =>
      segment.rxLen ≤ segment.capacity ∧ segment.window.toNat = segment.capacity - segment.rxLen
  | .stored bytes rxLen capacity => rxLen + bytes.length ≤ capacity
  | _ => True

theorem window_exact {net : Net} (bounded : Bounded net) (a : Nat) :
    (UInt16.ofNat (receiveCapacity net a -
      min (net.sockets a).rx.length (receiveCapacity net a))).toNat =
        receiveCapacity net a - (net.sockets a).rx.length := by
  have small := capacity_small bounded a
  rw [Nat.min_eq_left (bounded.within a), UInt16.toNat_ofNat']
  exact Nat.mod_eq_of_lt (by omega)

theorem move_log {kernel : Nat → Bool} {net net' : Net} (bounded : Bounded net)
    (move : Move kernel net net') :
    net'.log = net.log ∨ ∃ a e, net'.log = net.log ++ [(a, e)] ∧ Allowed e := by
  cases move with
  | edited a s same => exact Or.inl rfl
  | emptied a s empty => exact Or.inl rfl
  | appended a s data more => exact Or.inr ⟨a, _, rfl, appended_fits bounded a data⟩
  | rebound a buffer => exact Or.inl (buffer_sockets net a buffer).2
  | sent a len flags =>
      simp only [sendTcpPacket]
      split
      · exact Or.inl rfl
      · exact Or.inr ⟨a, _, rfl, bounded.within a, window_exact bounded a⟩
  | noted a e quiet empty =>
      refine Or.inr ⟨a, e, rfl, ?_⟩
      cases e with
      | sent segment => exact absurd rfl (quiet segment)
      | stored bytes rxLen capacity => exact absurd rfl (empty bytes rxLen capacity)
      | _ => trivial
  | timed secs => exact Or.inl rfl
  | attempted => exact Or.inl rfl

theorem log_allowed {kernel : Nat → Bool} {net : Net} (moves : Moves kernel {} net) :
    ∀ p ∈ net.log, Allowed p.2 := by
  induction moves with
  | refl => exact fun p member => absurd member List.not_mem_nil
  | @tail net net' reached move ih =>
      intro p member
      rcases move_log (bounded_moves bounded_start reached) move with same | ⟨a, e, longer, allowed⟩
      · exact ih p (same ▸ member)
      · rw [longer] at member
        rcases List.mem_append.mp member with old | new
        · exact ih p old
        · rw [List.mem_singleton.mp new]
          exact allowed

/-! The functions of the socket layer as sequences of moves. -/

section Calls
variable {kernel : Nat → Bool} {start net : Net} {a : Nat}

theorem moves_edit (moves : Moves kernel start net) {s : Socket} (same : s.rx = (net.sockets a).rx) :
    Moves kernel start (net.set a s) :=
  moves.tail (Move.edited net a s same)

theorem moves_empty (moves : Moves kernel start net) {s : Socket} (empty : s.rx = []) :
    Moves kernel start (net.set a s) :=
  moves.tail (Move.emptied net a s empty)

theorem moves_send (moves : Moves kernel start net) (len : Nat) (flags : UInt8) :
    Moves kernel start (sendTcpPacket kernel net a len flags) :=
  moves.tail (Move.sent net a len flags)

theorem moves_note (moves : Moves kernel start net) {e : Event} (quiet : ∀ segment, e ≠ .sent segment)
    (empty : ∀ bytes rxLen capacity, e ≠ .stored bytes rxLen capacity) : Moves kernel start (net.note a e) :=
  moves.tail (Move.noted net a e quiet empty)

theorem moves_free (moves : Moves kernel start net) : Moves kernel start (freeSocket net a) :=
  (moves_empty moves rfl).tail (Move.rebound _ a none)

theorem moves_claim (moves : Moves kernel start net) (i : Nat) :
    Moves kernel start (socketClaim net a i) := by
  refine moves_edit ?_ rfl
  refine moves_note ?_ (by simp) (by simp)
  exact (moves_empty moves rfl).tail (Move.rebound _ a none)

theorem moves_alloc (moves : Moves kernel start net) {pool : List Nat} {net' : Net} {c : Nat}
    (got : allocSocket net pool = some (net', c)) : Moves kernel start net' := by
  simp only [allocSocket] at got
  split at got
  · cases got
    exact moves_claim moves _
  · split at got
    · cases got
      apply moves_claim
      exact moves_edit moves rfl
    · exact absurd got (by simp)

theorem moves_openPassive (moves : Moves kernel start net) (pool : List Nat) (t : Segment) :
    Moves kernel start (openPassive kernel net pool t) := by
  simp only [openPassive]
  cases got : allocSocket net pool with
  | none => exact moves.tail (Move.attempted net)
  | some result =>
      obtain ⟨net', c⟩ := result
      refine moves_edit ?_ rfl
      apply moves_send
      refine moves_note ?_ (by simp) (by simp)
      exact moves_edit (moves_alloc moves got) rfl

theorem moves_repeat (moves : Moves kernel start net) (t : Segment) :
    Moves kernel start (repeatSynAck kernel net a t) := by
  refine moves_edit ?_ rfl
  apply moves_send
  refine moves_note ?_ (by simp) (by simp)
  exact moves_edit moves rfl

theorem moves_listenSyn (moves : Moves kernel start net) (pool : List Nat) (t : Segment) :
    Moves kernel start (onListenSyn kernel net pool a t) := by
  simp only [onListenSyn]
  cases findConn net pool t a with
  | none => exact moves_openPassive moves pool t
  | some d =>
      by_cases fresh : untouched (net.sockets d) = true
      · simp only [fresh, if_true]
        exact moves_repeat moves t
      · simp only [fresh, Bool.false_eq_true, if_false]
        exact moves_openPassive (moves_free moves) pool t

theorem moves_challenge (moves : Moves kernel start net) (t : Segment) :
    Moves kernel start (onChallenge kernel net a t) := by
  refine moves_edit ?_ rfl
  apply moves_send
  refine moves_edit ?_ rfl
  apply moves_send
  exact moves_edit moves rfl

theorem moves_synAck (moves : Moves kernel start net) (t : Segment) :
    Moves kernel start (onSynAck kernel net a t) := by
  apply moves_send
  refine moves_note ?_ (by simp) (by simp)
  refine moves_note ?_ (by simp) (by simp)
  exact moves_edit moves rfl

theorem moves_finWait (moves : Moves kernel start net) (t : Segment) :
    Moves kernel start (onFinWait kernel net a t) := by
  simp only [onFinWait]
  split
  · exact moves_free moves
  · have heard : Moves kernel start (net.note a (.heard (t.has flagAck) t.ackNum)) :=
      moves_note moves (by simp) (by simp)
    split
    · apply moves_free
      apply moves_send
      refine moves_note ?_ (by simp) (by simp)
      refine moves_edit ?_ rfl
      exact moves_edit heard rfl
    · exact moves_edit heard rfl

theorem moves_noteAck (moves : Moves kernel start net) (t : Segment) :
    Moves kernel start (noteAck net a t) := by
  have heard : Moves kernel start (net.note a (.heard (t.has flagAck) t.ackNum)) :=
    moves_note moves (by simp) (by simp)
  apply moves_edit heard
  split <;> rfl

theorem moves_takeData (moves : Moves kernel start net) (t : Segment) :
    Moves kernel start (takeData kernel net a t) := by
  simp only [takeData]
  split
  · exact moves
  · apply moves_send
    split
    · exact moves.tail (Move.appended net a _ t.data rfl)
    · exact moves

theorem moves_takeFin (moves : Moves kernel start net) (t : Segment) :
    Moves kernel start (takeFin kernel net a t) := by
  simp only [takeFin]
  split
  · have acked : Moves kernel start (sendTcpPacket kernel ((net.set a { net.sockets a with
        ackNum := t.seqNum + t.dataLen + 1 }).note a (.finished (t.seqNum + t.dataLen))) a 0
          flagAck) := by
      apply moves_send
      refine moves_note ?_ (by simp) (by simp)
      exact moves_edit moves rfl
    split
    · exact moves_free acked
    · exact moves_edit acked rfl
  · exact moves

theorem moves_opened (moves : Moves kernel start net) (t : Segment) :
    Moves kernel start (onOpened kernel net a t) := by
  simp only [onOpened]
  split
  · exact moves_free moves
  · exact moves_takeFin (moves_takeData (moves_noteAck moves t) t) t

theorem moves_packet (moves : Moves kernel start net) (pool : List Nat) (t : Segment) :
    Moves kernel start (onTcpPacket kernel net pool t) := by
  simp only [onTcpPacket]
  cases route net pool t with
  | none => exact moves
  | some entry =>
      obtain ⟨a, branch⟩ := entry
      cases branch with
      | listenSyn => exact moves_listenSyn moves pool t
      | synSentReset => exact moves_free moves
      | challenge => exact moves_challenge moves t
      | synAck => exact moves_synAck moves t
      | finWait => exact moves_finWait moves t
      | opened => exact moves_opened moves t

theorem moves_read (moves : Moves kernel start net) (maxlen : Nat) :
    Moves kernel start (tcpRead kernel net a maxlen).1 := by
  have drained : Moves kernel start ((net.set a { net.sockets a with rx := [] }).note a
      (.returned ((net.sockets a).rx.take maxlen))) := by
    refine moves_note ?_ (by simp) (by simp)
    exact moves_empty moves rfl
  simp only [tcpRead]
  split
  · exact moves_send drained 0 flagAck
  · exact drained

theorem moves_write (moves : Moves kernel start net) (len : Nat) :
    Moves kernel start (tcpWrite kernel net a len).1 := by
  have sent := moves_send (a := a) moves len flagAck
  simp only [tcpWrite]
  split
  · exact sent
  · exact moves_edit sent rfl

theorem moves_close (moves : Moves kernel start net) : Moves kernel start (tcpClose kernel net a) := by
  have ended := moves_send (a := a) moves 0 (flagFin ||| flagAck)
  simp only [tcpClose]
  cases (net.sockets a).state with
  | closed => exact moves_free moves
  | listening => exact moves_free moves
  | synSent => exact moves_free (moves_send moves 0 flagRst)
  | established => exact moves_edit ended rfl
  | finWait => exact moves
  | closeWait => exact moves_edit ended rfl

theorem moves_connect (moves : Moves kernel start net) (pool : List Nat) (remoteIp : UInt32)
    (remotePort localPort : UInt16) (localIp : UInt32) :
    Moves kernel start (tcpConnect kernel net pool remoteIp remotePort localPort localIp).1 := by
  simp only [tcpConnect]
  cases got : allocSocket net pool with
  | none => exact moves
  | some result =>
      obtain ⟨net', c⟩ := result
      refine moves_edit ?_ rfl
      apply moves_send
      exact moves_edit (moves_alloc moves got) rfl

theorem moves_socket (moves : Moves kernel start net) (pool : List Nat) :
    Moves kernel start (socketTcp4 net pool).1 := by
  simp only [socketTcp4]
  cases got : allocSocket net pool with
  | none => exact moves
  | some result => exact moves_edit (moves_alloc moves got) rfl

theorem moves_reapOne (moves : Moves kernel start net) (idleSecs : UInt32) (protect : Nat → Bool)
    (i : Nat) : Moves kernel start (reapOne kernel idleSecs protect net i a).1 := by
  simp only [reapOne]
  generalize (if net.now ≥ (net.sockets a).lastActivity then _ else _ : UInt32) = idle
  split
  · exact moves
  split
  · split
    · exact moves_free moves
    · exact moves
  split
  · exact moves
  split
  · exact moves_free (moves_send moves 0 flagRst)
  · exact moves_free moves

theorem moves_reap (moves : Moves kernel start net) (pool : List Nat) (idleSecs : UInt32)
    (protect : Nat → Bool) : Moves kernel start (socketReap kernel net pool idleSecs protect).1 := by
  simp only [socketReap]
  split
  case isTrue => exact moves
  case isFalse ticking =>
    clear ticking
    generalize pool.zipIdx = slots
    generalize (0 : UInt8) = freed
    induction slots generalizing net freed with
    | nil => exact moves
    | cons slot rest ih => exact ih (moves_reapOne (a := slot.1) moves idleSecs protect slot.2) _

theorem moves_init (moves : Moves kernel start net) (pool : List Nat) :
    Moves kernel start (socketPoolInit net pool) := by
  simp only [socketPoolInit]
  generalize pool.zipIdx = slots
  induction slots generalizing net with
  | nil => exact moves
  | cons slot rest ih =>
      apply ih
      refine moves_edit ?_ rfl
      refine moves_note ?_ (by simp) (by simp)
      exact (moves_empty moves rfl).tail (Move.rebound _ slot.1 none)

theorem moves_step (moves : Moves kernel start net) (op : Op) :
    Moves kernel start (step kernel net op) := by
  cases op with
  | init pool => exact moves_init moves pool
  | socket pool => exact moves_socket moves pool
  | bind a port => exact moves_edit moves rfl
  | listen a => exact moves_edit moves rfl
  | connect pool ip port localPort localIp => exact moves_connect moves pool ip port localPort localIp
  | packet pool t => exact moves_packet moves pool t
  | read a maxlen => exact moves_read moves maxlen
  | write a len => exact moves_write moves len
  | close a => exact moves_close moves
  | setBuffer a buffer => exact moves.tail (Move.rebound net a buffer)
  | reap pool idleSecs protect => exact moves_reap moves pool idleSecs protect
  | time secs => exact moves.tail (Move.timed net secs)

theorem moves_run (moves : Moves kernel start net) (ops : List Op) :
    Moves kernel start (run kernel net ops) := by
  induction ops generalizing net with
  | nil => exact moves
  | cons op rest ih => exact ih (moves_step moves op)

end Calls

/-! The bytes behind the table. -/

/-- A socket's own `rx_buffer`, or a buffer of the application. -/
inductive Place where
  | own (a : Nat)
  | app (n : Nat)
  deriving DecidableEq

/-- `receive_storage[i].data` for each slot, and the contents of the buffers. -/
structure Wiring where
  data : Nat → Place
  bytes : Place → Memory

def tcpReceiveData (net : Net) (w : Wiring) (a : Nat) : Place :=
  match ownSlot net.storage a with
  | some i => w.data i
  | none => .own a

/-- `memcpy` from the start of one buffer to the start of another. -/
def copyBuffer (bytes : Place → Memory) (target source : Place) (count : Nat) : Place → Memory :=
  Function.update bytes target (put (bytes target) 0 (bytesAt (bytes source) 0 count))

/-- `tcp_set_receive_buffer` with its pointers and copies. -/
def setReceiveBuffer (net : Net) (w : Wiring) (a : Nat) (buffer : Option (Place × Nat)) :
    (Net × Wiring) × Bool :=
  let held := (net.sockets a).rx.length
  match buffer with
  | none =>
      if held > rxBufferSize then ((net, w), false)
      else match ownSlot net.storage a with
        | some i =>
            (({ net with storage := net.storage.set i none },
              { w with bytes := copyBuffer w.bytes (.own a) (w.data i) held }), true)
        | none => ((net, w), true)
  | some (place, capacity) =>
      if capacity = 0 ∨ capacity > 65535 ∨ capacity < held then ((net, w), false)
      else match storageSlot net.storage a with
        | none => ((net, w), false)
        | some i =>
            let old := tcpReceiveData net w a
            let bytes := if old ≠ place then copyBuffer w.bytes place old held else w.bytes
            (({ net with storage := net.storage.set i (some (a, capacity)) },
              ⟨Function.update w.data i place, bytes⟩), true)

/-- The copy loop of `on_tcp_packet`. -/
def storeData (net : Net) (w : Wiring) (a : Nat) (data : List UInt8) : Wiring :=
  let received := tcpReceiveData net w a
  let taken := data.take (receiveSpace net a)
  ⟨w.data, Function.update w.bytes received
    (put (w.bytes received) (net.sockets a).rx.length taken)⟩

/-- The first `rx_len` bytes of the buffer in use. -/
def unread (net : Net) (w : Wiring) (a : Nat) : List UInt8 :=
  bytesAt (w.bytes (tcpReceiveData net w a)) 0 (net.sockets a).rx.length

theorem setReceiveBuffer_net (net : Net) (w : Wiring) (a : Nat) (buffer : Option (Place × Nat)) :
    ((setReceiveBuffer net w a buffer).1.1, (setReceiveBuffer net w a buffer).2) =
      tcpSetReceiveBuffer net a (buffer.map Prod.snd) := by
  cases buffer with
  | none =>
      simp only [setReceiveBuffer, tcpSetReceiveBuffer, Option.map_none]
      split
      · rfl
      · cases ownSlot net.storage a <;> rfl
  | some pair =>
      simp only [setReceiveBuffer, tcpSetReceiveBuffer, Option.map_some]
      split
      · rfl
      · cases storageSlot net.storage a <;> rfl

theorem copyBuffer_prefix (bytes : Place → Memory) (target source : Place) (count : Nat) :
    bytesAt (copyBuffer bytes target source count target) 0 count = bytesAt (bytes source) 0 count := by
  apply List.map_congr_left
  intro i member
  have inside := List.mem_range.mp member
  simp only [copyBuffer, Function.update_self]
  rw [put_inside (Nat.zero_le _) (by simpa using inside), bytesAt_getD _ _ (by simpa using inside)]
  simp

theorem copyBuffer_writes {bytes : Place → Memory} {target source : Place} {count : Nat} {p : Place}
    {i : Nat} (changed : copyBuffer bytes target source count p i ≠ bytes p i) :
    p = target ∧ i < count := by
  by_cases hit : p = target
  · subst hit
    refine ⟨rfl, ?_⟩
    by_contra beyond
    apply changed
    rw [copyBuffer, Function.update_self, put_outside (by simp; omega)]
  · exact absurd (congrFun (Function.update_of_ne hit _ _) i) changed

theorem receiveData_put {net : Net} {w : Wiring} {a i capacity : Nat} {place : Place}
    {bytes : Place → Memory} (once : Once (net.storage.set i (some (a, capacity))))
    (inside : i < net.storage.length) :
    tcpReceiveData { net with storage := net.storage.set i (some (a, capacity)) }
      ⟨Function.update w.data i place, bytes⟩ a = place := by
  have own : ownSlot (net.storage.set i (some (a, capacity))) a = some i :=
    findIdx_of_holds once (holds_put inside)
  simp [tcpReceiveData, own]

theorem receiveData_clear {net : Net} {w : Wiring} {a i capacity : Nat} (once : Once net.storage)
    (held : Holds net.storage i a capacity) :
    tcpReceiveData { net with storage := net.storage.set i none } w a = .own a := by
  have own : ownSlot (net.storage.set i none) a = none := by
    cases found : ownSlot (net.storage.set i none) a with
    | none => rfl
    | some j =>
        obtain ⟨other, still⟩ := findIdx_holds (ownSlot_eq _ a ▸ found)
        exact absurd still (cleared_absent once held j other)
  simp [tcpReceiveData, own]

/-- The socket has the unread bytes it had, and at most as many bytes of memory
as they are have changed, in the buffer it now receives into. -/
structure Keeps (net : Net) (w : Wiring) (a : Nat) (after : Net × Wiring) : Prop where
  same : unread after.1 after.2 a = unread net w a
  writes : ∀ p i, after.2.bytes p i ≠ w.bytes p i →
    p = tcpReceiveData after.1 after.2 a ∧ i < (net.sockets a).rx.length

theorem setReceiveBuffer_keeps {net : Net} (bounded : Bounded net) (w : Wiring) (a : Nat)
    (buffer : Option (Place × Nat)) : Keeps net w a (setReceiveBuffer net w a buffer).1 := by
  have stays : Keeps net w a (net, w) := ⟨rfl, fun p i changed => absurd rfl changed⟩
  cases buffer with
  | none =>
      simp only [setReceiveBuffer]
      by_cases many : (net.sockets a).rx.length > rxBufferSize
      · simp only [many, if_true]
        exact stays
      · simp only [many, if_false]
        cases own : ownSlot net.storage a with
        | none => exact stays
        -- back to the socket's own buffer
        | some i =>
            obtain ⟨capacity, held⟩ := findIdx_holds (ownSlot_eq net.storage a ▸ own)
            have old : tcpReceiveData net w a = w.data i := by simp [tcpReceiveData, own]
            constructor
            · simp only [unread, receiveData_clear bounded.once held, old]
              exact copyBuffer_prefix w.bytes _ _ _
            · intro p j changed
              rw [receiveData_clear bounded.once held]
              exact copyBuffer_writes changed
  | some pair =>
      obtain ⟨place, capacity⟩ := pair
      simp only [setReceiveBuffer]
      by_cases bad : capacity = 0 ∨ capacity > 65535 ∨ capacity < (net.sockets a).rx.length
      · simp only [bad, if_true]
        exact stays
      · simp only [bad, if_false]
        cases picked : storageSlot net.storage a with
        | none => exact stays
        | some i =>
            obtain ⟨mine, inside, _⟩ := storageSlot_cases bounded.once picked
            have once' : Once (net.storage.set i (some (a, capacity))) := once_put bounded.once mine
            -- the same buffer with another capacity: nothing is copied
            by_cases same : tcpReceiveData net w a = place
            · constructor
              · simp only [unread, receiveData_put once' inside, same, ne_eq, not_true_eq_false,
                  if_false]
              · intro p j changed
                simp only [same, ne_eq, not_true_eq_false, if_false] at changed
            · constructor
              · simp only [unread, receiveData_put once' inside, same, ne_eq, not_false_eq_true,
                  if_true]
                exact copyBuffer_prefix w.bytes _ _ _
              · intro p j changed
                simp only [ne_eq, same, not_false_eq_true, if_true] at changed
                rw [receiveData_put once' inside]
                exact copyBuffer_writes changed

theorem storeData_inside {net : Net} (bounded : Bounded net) (w : Wiring) (a : Nat) (data : List UInt8)
    {p : Place} {i : Nat} (changed : (storeData net w a data).bytes p i ≠ w.bytes p i) :
    p = tcpReceiveData net w a ∧ (net.sockets a).rx.length ≤ i ∧ i < receiveCapacity net a := by
  simp only [storeData] at changed
  by_cases hit : p = tcpReceiveData net w a
  · subst hit
    rw [Function.update_self] at changed
    have fits := appended_fits bounded a data
    refine ⟨rfl, ?_⟩
    by_contra outside
    exact changed (put_outside (by omega))
  · exact absurd (congrFun (Function.update_of_ne hit _ _) i) changed

/-- In every run, at every socket: the unread bytes fit into the buffer in use,
so that `space` is what is left of it; every segment of the run advertised the
capacity less the unread bytes it was sent with, and every append fitted; and
whatever the memory behind the table is, an append writes only inside the buffer
in use and rebinding keeps the unread bytes. -/
theorem receive_buffers_bounded (kernel : Nat → Bool) (ops : List Op) (a : Nat) :
    let net := run kernel {} ops
    (net.sockets a).rx.length ≤ receiveCapacity net a ∧
    receiveSpace net a + (net.sockets a).rx.length = receiveCapacity net a ∧
    (∀ e, (a, e) ∈ net.log → Allowed e) ∧
    (∀ w data p i, (storeData net w a data).bytes p i ≠ w.bytes p i →
      p = tcpReceiveData net w a ∧ (net.sockets a).rx.length ≤ i ∧ i < receiveCapacity net a) ∧
    ∀ w buffer, ((setReceiveBuffer net w a buffer).1.1, (setReceiveBuffer net w a buffer).2) =
        tcpSetReceiveBuffer net a (buffer.map Prod.snd) ∧
      Keeps net w a (setReceiveBuffer net w a buffer).1 := by
  have moves : Moves kernel {} (run kernel {} ops) := moves_run Relation.ReflTransGen.refl ops
  have bounded := bounded_moves bounded_start moves
  refine ⟨bounded.within a, receiveSpace_exact bounded a, ?_, ?_, ?_⟩
  · intro e logged
    exact log_allowed moves (a, e) logged
  · intro w data p i changed
    exact storeData_inside bounded w a data changed
  · intro w buffer
    exact ⟨setReceiveBuffer_net _ w a buffer, setReceiveBuffer_keeps bounded w a buffer⟩

end R2Apps.TcpReceiveBounds
