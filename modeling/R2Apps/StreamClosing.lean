import R2Apps.SerialNumbers
import R2Apps.StreamSockets

/-! When a connection in `FinWait` closes. `Close` sends its FIN with no data, so `pending` is `none`
from the start and the test in `onSegment` that is meant to see the FIN acknowledged passes at once:
what is left is whether the peer's FIN has been taken. -/
namespace R2Apps.StreamClosing
open StreamReceive StreamSockets

/-- A segment other than a reset moves the connection from `FinWait` to `Closed`. -/
def ClosedBy (s : System) (e : Event) : Prop :=
  (∃ flags seq ack options data, e = .segment flags seq ack options data ∧ isReset flags = false) ∧
    s.conn.state = .finWait ∧ (s.step e).conn.state = .closed

/-- Both halves are over: the peer's FIN was taken, and an acknowledgement of ours was received. -/
def BothDone (s : System) : Prop := s.conn.peerFIN = true ∧ s.finAcked = true

/-- Every such closing in a run finds both halves over. -/
def ClosesOrderly (s : System) (events : List Event) : Prop :=
  ∀ pre e post, events = pre ++ e :: post → ClosedBy (s.run pre) e → BothDone ((s.run pre).step e)

/-- In `FinWait`, the peer's FIN has not been taken before our own is acknowledged: a segment that
finds it taken, or brings it, comes after the acknowledgement or is it. -/
def InTime (s : System) : Event → Prop
  | .segment flags seq ack _ data =>
      s.conn.state = .finWait → isReset flags = false →
        (s.conn.peerFIN || finDue s.conn flags seq data) = true →
        s.finAcked = true ∨ isAck flags = true ∧ ack = s.conn.snd
  | _ => True

/-! ## What is due does not depend on the sending side -/

section Due
variable {c c' : Conn} (same : c'.rx = c.rx ∧ c'.rcv = c.rcv ∧ c'.reorder = c.reorder)

include same

theorem drain_rcv (fuel : Nat) : (c'.drain fuel).rcv = (c.drain fuel).rcv := by
  induction fuel generalizing c c' with
  | zero => exact same.2.1
  | succ fuel ih =>
      obtain ⟨rx, rcv, reorder⟩ := same
      simp only [Conn.drain, rcv, reorder]
      split
      · rfl
      · apply ih
        simp only [Conn.append, rx]
        exact ⟨trivial, trivial, trivial⟩

theorem onData_rcv (seq : UInt32) (data : Bytes) : (c'.onData seq data).rcv = (c.onData seq data).rcv := by
  obtain ⟨rx, rcv, reorder⟩ := same
  have window : c'.receiveWindow = c.receiveWindow := by
    rw [Conn.receiveWindow, rx, reorder, Conn.receiveWindow]
  simp only [Conn.onData, window, rx, rcv, reorder]
  by_cases gap : (seq - c.rcv).toInt32 > 0
  · rw [if_pos gap, if_pos gap]
  · rw [if_neg gap, if_neg gap]
    by_cases none_ : (tcpPayload c.rcv seq data c.receiveWindow).isEmpty
    · rw [if_pos none_, if_pos none_]
      exact rcv
    · rw [if_neg none_, if_neg none_]
      apply drain_rcv
      simp only [Conn.append, rx, rcv, reorder]
      exact ⟨trivial, trivial, trivial⟩

theorem finDue_congr (flags : UInt8) (seq : UInt32) (data : Bytes) :
    finDue c' flags seq data = finDue c flags seq data := by
  unfold finDue
  split
  · rw [onData_rcv same]
  · rw [same.2.1]

end Due

theorem finDue_acknowledged (c : Conn) (flags : UInt8) (seq ack : UInt32) (data : Bytes) :
    finDue (acknowledged c flags ack) flags seq data = finDue c flags seq data := by
  apply finDue_congr
  unfold acknowledged
  split
  · rw [onAck_eq]
    exact ⟨rfl, rfl, rfl⟩
  · exact ⟨rfl, rfl, rfl⟩

/-! ## The FIN that is outstanding -/

theorem seqLess_irrefl (a : UInt32) : seqLess a a = false := by
  simp [seqLess]

theorem eq_of_not_less {a b : UInt32} (ab : seqLess a b = false) (ba : seqLess b a = false) : a = b := by
  have zero : Int32.toInt 0 = 0 := rfl
  simp only [seqLess, decide_eq_false_iff_not, Int32.lt_iff_toInt_lt, SerialNumbers.toInt_toInt32, zero,
    UInt32.toNat_sub] at ab ba
  apply UInt32.toNat_inj.mp
  have small := a.toNat_lt
  have small' := b.toNat_lt
  split at ab <;> split at ba <;> omega

structure Outstanding (s : System) : Prop where
  early : s.conn.state ≠ .finWait → s.conn.state ≠ .closed → s.finAcked = false
  nothing : s.conn.state = .finWait → s.conn.pending = none
  flags : s.conn.state = .finWait → s.conn.pendFlags = if s.finAcked then 0 else flagFIN ||| flagACK
  seq : s.conn.state = .finWait → s.conn.pendSeq + 1 = s.conn.snd

theorem transmit_state {s : Socket} (flags : UInt8) (data : Option Bytes) (now : UInt64) (sends : Bool) :
    (s.transmit flags data now sends).1.conn.state = s.conn.state := by
  simp only [Socket.transmit]
  repeat' split
  all_goals rfl

theorem clears_fin {c : Conn} (ack : UInt32) (nothing : c.pending = none)
    (flags : c.pendFlags = flagFIN ||| flagACK) (seq : c.pendSeq + 1 = c.snd) :
    clears c ack = decide (ack = c.snd) := by
  have end_ : c.pendSeq + (UInt32.ofNat (c.pending.getD []).length +
      if c.pendFlags &&& (flagSYN ||| flagFIN) ≠ 0 then 1 else 0) = c.snd := by
    rw [nothing, flags, ← seq]
    rfl
  unfold clears
  rw [end_]
  by_cases same : ack = c.snd
  · simp [same, seqLess_irrefl]
  · rw [decide_eq_false same, Bool.and_eq_false_iff, Bool.not_eq_false', Bool.not_eq_false']
    by_contra neither
    rw [not_or, Bool.not_eq_true, Bool.not_eq_true] at neither
    exact same (eq_of_not_less neither.2 neither.1)

theorem acknowledged_fin {s : System} (out : Outstanding s) (waits : s.conn.state = .finWait) (flags : UInt8)
    (ack : UInt32) :
    (acknowledged s.conn flags ack).pending = none ∧
      (acknowledged s.conn flags ack).pendFlags =
        if s.finAcked || decide (isAck flags = true ∧ ack = s.conn.snd) then 0 else flagFIN ||| flagACK := by
  have nothing := out.nothing waits
  have held := out.flags waits
  unfold acknowledged
  split
  · next is =>
    rw [onAck_eq]
    constructor
    · simp only [nothing]
      split <;> rfl
    · cases done : s.finAcked with
      | true =>
          rw [done] at held
          simp only [held]
          split <;> rfl
      | false =>
          rw [done] at held
          rw [clears_fin ack nothing held (out.seq waits)]
          simp only [held, is]
          by_cases same : ack = s.conn.snd <;> simp [same]
  · next is =>
    refine ⟨nothing, ?_⟩
    rw [held]
    simp [is]

theorem outstanding_elsewhere {s : System} (elsewhere : s.conn.state ≠ .finWait)
    (early : s.conn.state ≠ .closed → s.finAcked = false) : Outstanding s :=
  ⟨fun _ => early, fun waits => absurd waits elsewhere, fun waits => absurd waits elsewhere,
    fun waits => absurd waits elsewhere⟩

theorem segment_outstanding {s : System} (out : Outstanding s) (flags : UInt8) (seq ack : UInt32)
    (options data : Bytes) : Outstanding (s.segment flags seq ack options data) := by
  have conn : (s.segment flags seq ack options data).conn = s.conn.onSegment flags seq ack data := rfl
  have history : (s.segment flags seq ack options data).finAcked = (s.finAcked ||
      decide (s.conn.state = .finWait ∧ isReset flags = false ∧ isAck flags = true ∧ ack = s.conn.snd)) := rfl
  cases reset : isReset flags with
  | true =>
      obtain ⟨e, closed⟩ := onSegment_reset s.conn seq ack data reset
      apply outstanding_elsewhere
      · rw [conn, closed]
        simp
      · rw [conn, closed]
        exact fun open_ => absurd rfl open_
  | false =>
      cases state : s.conn.state with
      | synSent =>
          have same : (s.segment flags seq ack options data).finAcked = false := by
            rw [history, out.early (by simp [state]) (by simp [state])]
            simp [state]
          apply outstanding_elsewhere _ fun _ => same
          rw [conn]
          rcases onSegment_synSent seq ack data reset state with still | ⟨-, open_⟩
          · rw [still, state]
            simp
          · rw [open_]
            simp
      | closed =>
          have same := onSegment_closed seq ack data reset state
          apply outstanding_elsewhere
          · rw [conn, same, state]
            simp
          · rw [conn, same]
            exact fun open_ => absurd state open_
      | established | closeWait =>
          have r := (onSegment_received (c := s.conn) seq ack data reset (by simp [state])
            (by simp [state])).state
          apply outstanding_elsewhere
          · rw [conn, r, state]
            split
            · simp
            · split <;> simp
          · intro _
            rw [history, out.early (by simp [state]) (by simp [state])]
            simp [state]
      | finWait =>
          -- after `Close` the FIN is the one segment that can be pending
          have r := onSegment_received (c := s.conn) seq ack data reset (by simp [state]) (by simp [state])
          obtain ⟨nothing, flag⟩ := acknowledged_fin out state flags ack
          have seqs : (acknowledged s.conn flags ack).pendSeq + 1 = (acknowledged s.conn flags ack).snd := by
            unfold acknowledged
            split
            · rw [onAck_eq]
              exact out.seq state
            · exact out.seq state
          refine ⟨?_, ?_, ?_, ?_⟩
          · intro notWait open_
            rw [conn, r.state] at notWait open_
            rw [state] at notWait open_
            split at open_
            · exact absurd rfl open_
            · next still =>
              rw [if_neg still] at notWait
              exact absurd rfl notWait
          · intro _
            rw [conn, r.same.pending, nothing]
          · intro _
            rw [conn, r.same.pendFlags, flag, history]
            simp [state, reset]
          · intro _
            rw [conn, r.same.pendSeq, r.same.snd, seqs]

theorem tick_outstanding {s : System} (out : Outstanding s) (now : UInt64) :
    Outstanding (s.step (.tick now)) := by
  simp only [System.step, Socket.tick]
  split
  · exact out
  · split
    · exact out
    · split
      · exact outstanding_elsewhere (by simp [System.conn]) fun open_ => absurd rfl open_
      · exact ⟨out.early, out.nothing, out.flags, out.seq⟩

theorem turn_outstanding {s : System} (out : Outstanding s) (w : Writer) (now : UInt64) (sends : Bool) :
    Outstanding (s.turn w now sends) := by
  unfold System.turn
  split
  · cases refused : usable s.conn with
    | some e => exact ⟨out.early, out.nothing, out.flags, out.seq⟩
    | none =>
        have open_ : s.conn.state = .established ∨ s.conn.state = .closeWait := by
          unfold usable at refused
          split at refused
          · cases refused
          · split at refused
            · assumption
            · cases refused
        dsimp only
        split
        · exact ⟨out.early, out.nothing, out.flags, out.seq⟩
        · split
          · exact ⟨out.early, out.nothing, out.flags, out.seq⟩
          · next sock sent =>
            have state : sock.conn.state = s.conn.state :=
              (congrArg (·.1.conn.state) sent).symm.trans (transmit_state _ _ _ _)
            apply outstanding_elsewhere
            · dsimp only [System.conn]
              rw [state]
              rcases open_ with open_ | open_ <;> simp [open_]
            · intro _
              exact out.early (by rcases open_ with open_ | open_ <;> simp [open_])
                (by rcases open_ with open_ | open_ <;> simp [open_])
  · exact out

theorem step_outstanding {s : System} (out : Outstanding s) (e : Event) : Outstanding (s.step e) := by
  cases e with
  | segment flags seq ack options data => exact segment_outstanding out flags seq ack options data
  | tick now => exact tick_outstanding out now
  | write b =>
      simp only [System.step]
      split
      · exact out
      · exact ⟨out.early, out.nothing, out.flags, out.seq⟩
  | turn now sends =>
      simp only [System.step]
      split
      · exact turn_outstanding out _ now sends
      · exact out
  | giveUp =>
      simp only [System.step]
      split
      · exact ⟨out.early, out.nothing, out.flags, out.seq⟩
      · exact out
  | read size =>
      simp only [System.step]
      split
      · exact out
      · exact ⟨out.early, out.nothing, out.flags, out.seq⟩
  | close now sends =>
      simp only [System.step]
      split
      · exact out
      · obtain ⟨-, ⟨conn, -⟩ | ⟨open_, -, conn⟩⟩ := close_cases s.sock now sends
        · have closed : (s.sock.close now sends).1.conn.state = .closed := by rw [conn]
          exact outstanding_elsewhere (by simp [System.conn, closed]) fun other => absurd closed other
        · have fresh : s.finAcked = false :=
            out.early (by rcases open_ with open_ | open_ <;> simp [System.conn, open_])
              (by rcases open_ with open_ | open_ <;> simp [System.conn, open_])
          refine ⟨fun _ _ => fresh, ?_, ?_, ?_⟩
          · exact fun _ => by simp [System.conn, conn]
          · exact fun _ => by simp [System.conn, conn, fresh]
          · exact fun _ => by simp [System.conn, conn]
  | drop =>
      simp only [System.step]
      split
      · exact outstanding_elsewhere (by simp [System.conn, Socket.drop]) fun open_ => absurd rfl open_
      · exact out

theorem run_outstanding {s : System} (out : Outstanding s) (events : List Event) :
    Outstanding (s.run events) := by
  induction events generalizing s with
  | nil => exact out
  | cons e rest ih => exact ih (step_outstanding out e)

theorem dialled_outstanding (isn : UInt32) (now : UInt64) : Outstanding (dialled isn now) :=
  outstanding_elsewhere (by simp [dialled, System.conn, transmit_state]) fun _ => rfl

theorem segment_closes {s : System} (out : Outstanding s) (waits : s.conn.state = .finWait) {flags : UInt8}
    (kept : isReset flags = false) (seq ack : UInt32) (options data : Bytes) :
    ((s.segment flags seq ack options data).conn.state = .closed ↔
        (s.conn.peerFIN || finDue s.conn flags seq data) = true) ∧
      (s.segment flags seq ack options data).conn.peerFIN =
        (s.conn.peerFIN || finDue s.conn flags seq data) := by
  have conn : (s.segment flags seq ack options data).conn = s.conn.onSegment flags seq ack data := rfl
  have r := onSegment_received (c := s.conn) seq ack data kept (by simp [waits]) (by simp [waits])
  have taken := r.peerFIN
  rw [finDue_acknowledged] at taken
  rw [conn, r.state, taken]
  refine ⟨?_, rfl⟩
  simp only [waits, (acknowledged_fin out waits flags ack).1, true_and]
  by_cases due : (s.conn.peerFIN || finDue s.conn flags seq data) = true <;> simp [due]

theorem closed_by_iff {s : System} (out : Outstanding s) (e : Event) :
    (ClosedBy s e → BothDone (s.step e)) ↔ InTime s e := by
  cases e with
  | segment flags seq ack options data =>
      have history : (s.segment flags seq ack options data).finAcked = (s.finAcked ||
          decide (s.conn.state = .finWait ∧ isReset flags = false ∧ isAck flags = true ∧
            ack = s.conn.snd)) := rfl
      constructor
      · intro orderly waits kept due
        obtain ⟨closes, -⟩ := segment_closes out waits kept seq ack options data
        obtain ⟨-, done⟩ := orderly ⟨⟨flags, seq, ack, options, data, rfl, kept⟩, waits, closes.mpr due⟩
        change (s.segment flags seq ack options data).finAcked = true at done
        rw [history] at done
        simpa [waits, kept] using done
      · rintro inTime ⟨⟨_, _, _, _, _, same, kept⟩, waits, closed⟩
        cases same
        obtain ⟨closes, taken⟩ := segment_closes out waits kept seq ack options data
        have due := closes.mp closed
        refine ⟨taken.trans due, ?_⟩
        change (s.segment flags seq ack options data).finAcked = true
        rw [history]
        simpa [waits, kept] using inTime waits kept due
  | _ => exact ⟨fun _ => trivial, by rintro - ⟨⟨_, _, _, _, _, ⟨⟩, -⟩, -⟩⟩

/-- In every run: the connection closes only after the peer's FIN and the acknowledgement of its own,
if and only if every segment is in time. -/
theorem closes_orderly_iff (isn : UInt32) (now : UInt64) (events : List Event) :
    ClosesOrderly (dialled isn now) events ↔
      ∀ pre e post, events = pre ++ e :: post → InTime ((dialled isn now).run pre) e := by
  have held (pre : List Event) : Outstanding ((dialled isn now).run pre) :=
    run_outstanding (dialled_outstanding isn now) pre
  constructor
  · exact fun orderly pre e post split => (closed_by_iff (held pre) e).mp (orderly pre e post split)
  · exact fun inTime pre e post split => (closed_by_iff (held pre) e).mpr (inTime pre e post split)

/-- The peer closes first, and after `Close` repeats an acknowledgement of what came before the FIN. -/
def repeatedAck : List Event :=
  [.segment (flagSYN ||| flagACK) 100 1 [] [], .segment (flagFIN ||| flagACK) 101 1 [] [], .close 5 true,
    .segment flagACK 102 1 [] []]

theorem fin_not_acknowledged : ¬ ClosesOrderly (dialled 0 0) repeatedAck := by
  intro orderly
  have done := orderly (repeatedAck.take 3) (.segment flagACK 102 1 [] []) [] rfl
    ⟨⟨flagACK, 102, 1, [], [], rfl, rfl⟩, by decide, by decide⟩
  exact absurd done.2 (by decide)

end R2Apps.StreamClosing
