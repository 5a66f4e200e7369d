import R2Apps.WebTcpReceiving

/-! The browser's TCP over whole runs: from the empty table on, whatever is called and
whatever the network does to the peer's segments, every connection in use has both of
its halves in order. -/
namespace R2Apps.WebTcpDelivery
open R2Apps.FifoRings R2Apps.PrefixRoutes R2Apps.SerialNumbers R2Apps.WebTcp R2Apps.WebTcpSending
  R2Apps.WebTcpReceiving

theorem recv_returned (c : Tcp) (n : Nat) : (recv c n).1.past.got = c.past.got ++ (recv c n).2 := by
  simp only [recv]
  split
  · rw [List.append_nil]
  · split <;> rfl

theorem send_accepted (c : Tcp) (data : Bytes) (now : UInt64) (known : Bool) :
    (send c data now known).1.past.accepted = c.past.accepted ++ data.take (send c data now known).2 := by
  simp only [send]
  split
  · rw [List.take_zero, List.append_nil]
  · have same (d : Tcp) : (pump d now known).past.accepted = d.past.accepted := by
      simp only [pump]
      split
      · rfl
      · split
        · simp only [pumpData, noteSent_sent, sendSeg]
        · split <;> rfl
    rw [same, List.length_take, ← List.take_eq_take_min]

section Table

/-- A frame is the peer's own when its segment is, on the connection it is for. -/
def Genuine (s : Stack) : Op → Prop
  | .frame src p _ _ => ∀ sport dport seg, decode p = some (sport, dport, seg) →
      ∀ h, s.route src sport dport = some h → seg.flags &&& flagRst = 0 → FromPeer (s.conns h) seg
  | _ => True

inductive Reach : Stack → Prop where
  | boot (ip : Ip4) : Reach { ip := ip, conns := fun _ => blank }
  | step {s : Stack} (op : Op) : Reach s → Genuine s op → Reach (step s op)

def InOrder (c : Tcp) : Prop := Orderly c ∧ Attentive c

def Stack.InOrder (s : Stack) : Prop := ∀ h, WebTcpDelivery.InOrder (s.conns h)

variable {s : Stack}

theorem freeConn_inOrder {c : Tcp} (good : InOrder c) : InOrder (freeConn c) :=
  ⟨good.1.freeConn, freeConn_attentive⟩

theorem set_inOrder (good : Stack.InOrder s) {h : Fin maxConns} {c : Tcp} (new : InOrder c) :
    Stack.InOrder (s.set h c) := by
  intro k
  simp only [Stack.set]
  split
  · exact new
  · exact good k

theorem route_used {src : Ip4} {sport dport : UInt16} {h : Fin maxConns}
    (found : s.route src sport dport = some h) :
    (s.conns h).state ≠ .free := by
  have matched := List.find?_some found
  simp only [Bool.and_eq_true] at matched
  exact of_decide_eq_true matched.1.1.1

theorem onTcp_inOrder (good : Stack.InOrder s) {src : Ip4} {p : Bytes} {now : UInt64} {known : Bool}
    (genuine : Genuine s (.frame src p now known)) : Stack.InOrder (s.onTcp src p now known) := by
  simp only [Stack.onTcp]
  split
  · exact good
  · rename_i sport dport seg decoded
    split
    · exact good
    · rename_i h found
      have used := route_used found
      apply set_inOrder good
      constructor
      · exact onSegment_orderly (good h).1 seg used now known
      · exact onSegment_attentive (good h).2 used (genuine sport dport seg decoded h found) now known

theorem connect_inOrder (good : Stack.InOrder s) (ip : Ip4) (port : UInt16) (lport : Option UInt16)
    (memory : Bool)
    (iss irs : UInt32) (stream : Bytes) (now : UInt64) (known : Bool) :
    Stack.InOrder
      (s.connect ip port lport memory { noPast with
        iss := iss, irs := irs, stream := stream } now known) := by
  simp only [Stack.connect]
  split
  · exact good
  · split
    · exact set_inOrder good (freeConn_inOrder (good _))
    · split
      · apply set_inOrder good
        constructor
        · exact openConn_orderly _ _ _ _ rfl rfl now known
        · exact openConn_attentive _ _ _ _ rfl rfl now known
      · exact set_inOrder good (freeConn_inOrder (good _))

theorem step_inOrder (good : Stack.InOrder s) (op : Op) (genuine : Genuine s op) :
    Stack.InOrder (step s op) := by
  cases op with
  | connect ip port lport memory iss irs stream now known =>
      exact connect_inOrder good ip port lport memory iss irs stream now known
  | frame src p now known => exact onTcp_inOrder good genuine
  | ticks now look =>
      intro h
      simp only [step, Stack.tickAll]
      split
      · exact good h
      · rename_i used
        exact ⟨tick_orderly (good h).1 now look used, tick_attentive (good h).2 now look⟩
  | send h data now known =>
      exact set_inOrder good
        ⟨send_orderly (good h).1 data now known, send_attentive (good h).2 data now known⟩
  | recv h n => exact set_inOrder good ⟨recv_orderly (good h).1 n, recv_attentive (good h).2 n⟩
  | close h now later known =>
      exact set_inOrder good
        ⟨close_orderly (good h).1 now later known, close_attentive (good h).2 now later known⟩

theorem reach_inOrder (run : Reach s) : Stack.InOrder s := by
  induction run with
  | boot ip =>
      intro h
      refine ⟨⟨?_, fun used => absurd rfl used⟩, fun used => absurd rfl used⟩
      intro x member
      cases member
  | step op run genuine ih => exact step_inOrder ih op genuine

end Table

/-- The receiving half, said of the calls: of the peer's stream the first `n` bytes
have been stored. Until `close` they are what `recv` returned and then the ring; after
it what was not read is gone. -/
structure Received (c : Tcp) (n : Nat) : Prop where
  within : n ≤ c.past.stream.length
  stored : c.past.stored = c.past.stream.take n
  next : c.state ≠ .synSent → c.rcvNxt = serial (c.past.irs + 1) (n + if c.peerFin then 1 else 0)
  ended : c.peerFin = true → n = c.past.stream.length
  unread : c.state ≠ .finWait → c.past.got ++ c.rx.contents = c.past.stream.take n
  closed : c.state = .finWait → c.rx.contents = [] ∧ c.past.got <+: c.past.stream.take n
  ring : c.rx.count ≤ 32768

theorem Receiving.received {c : Tcp} (receiving : Receiving c) : Received c c.past.stored.length := by
  have stored := List.prefix_iff_eq_take.mp receiving.begins
  constructor
  · exact receiving.begins.length_le
  · exact stored
  · exact receiving.next
  · exact fun fin => congrArg List.length (receiving.ended fin)
  · intro open_
    rw [← receiving.unread open_]
    exact stored
  · intro close
    obtain ⟨none, begins⟩ := receiving.dropped close
    rw [← stored]
    exact ⟨c.rx.contents_nil none, begins⟩
  · exact c.rx.count_le

theorem streams_kept (s : Stack) (run : Reach s) (h : Fin maxConns) (used : (s.conns h).state ≠ .free) :
    (∃ n, Received (s.conns h) n) ∧ (∃ done, Sending (s.conns h) done) ∧ Logged (s.conns h) := by
  obtain ⟨orderly, attentive⟩ := reach_inOrder run h
  exact ⟨⟨_, Receiving.received (attentive used)⟩, orderly.sending used, orderly.logged⟩

section Runs

theorem table_begins : 0 < maxConns := by decide

def slot : Fin maxConns := ⟨0, table_begins⟩

def server : Ip4 := dotted 10 0 0 2

/-- A segment to the first connection's port, with no options. -/
def frameOf (flags : UInt8) (seq ack : UInt8) (data : Bytes) : Bytes :=
  [0, 80, 156, 64, 0, 0, 0, seq, 0, 0, 0, ack, 80, flags, 1, 0, 0, 0, 0, 0] ++ data

def dial : Op := .connect server 80 (some 40000) true 100 7 [72, 105] 0 true
def answer : Op := .frame server (frameOf 0x12 7 101 []) 10 true
def greeting : Op := .frame server (frameOf 0x18 8 101 [72, 105]) 20 true

def booted : Stack := { ip := dotted 10 0 0 15, conns := fun _ => blank }
def dialled : Stack := step booted dial
def answered : Stack := step dialled answer
def greeted : Stack := step answered greeting

theorem dialled_reach : Reach dialled := .step dial (.boot _) trivial

theorem answered_reach : Reach answered := by
  refine .step answer dialled_reach ?_
  intro sport dport seg decoded h found _
  have place : dialled.route server 80 40000 = some slot := by decide
  have parts : decode (frameOf 0x12 7 101 []) = some (80, 40000, ⟨0x12, 7, 101, [], []⟩) := by decide
  rw [parts] at decoded
  cases decoded
  rw [place] at found
  cases found
  have dialling : (dialled.conns slot).state = .synSent := by decide
  have start : (dialled.conns slot).past.irs = 7 := by decide
  exact ⟨fun _ _ _ => start.symm, fun other => absurd dialling other⟩

theorem greeted_reach : Reach greeted := by
  refine .step greeting answered_reach ?_
  intro sport dport seg decoded h found _
  have place : answered.route server 80 40000 = some slot := by decide
  have parts : decode (frameOf 0x18 8 101 [72, 105]) = some (80, 40000, ⟨0x18, 8, 101, [], [72, 105]⟩) := by
    decide
  rw [parts] at decoded
  cases decoded
  rw [place] at found
  cases found
  have established : (answered.conns slot).state = .established := by decide
  have start : (answered.conns slot).past.irs = 7 := by decide
  have stream : (answered.conns slot).past.stream = [72, 105] := by decide
  have none : reached (answered.conns slot) = 0 := by decide
  constructor
  · intro synSent
    rw [established] at synSent
    cases synSent
  · intro _ _
    rw [start, stream, none]
    exact ⟨0, by decide⟩

/-- One byte read, one still in the ring. -/
theorem streams_kept_greeting :
    ((step greeted (.recv slot 1)).conns slot).past.got = [72] ∧
      (∃ n, Received ((step greeted (.recv slot 1)).conns slot) n) ∧
      (∃ done, Sending ((step greeted (.recv slot 1)).conns slot) done) ∧
      Logged ((step greeted (.recv slot 1)).conns slot) :=
  ⟨by decide, streams_kept _ (.step (.recv slot 1) greeted_reach trivial) slot (by decide)⟩

/-- A connection closed with bytes unread: they are thrown away, `rcvNxt` stays. -/
theorem close_discards : ∃ s, Reach s ∧ ∃ h, (s.conns h).state ≠ .free ∧ (s.conns h).failed = false ∧
    ¬∃ n, n ≤ (s.conns h).past.stream.length ∧
      (s.conns h).past.got ++ (s.conns h).rx.contents = (s.conns h).past.stream.take n ∧
      (s.conns h).rcvNxt = serial ((s.conns h).past.irs + 1) (n + if (s.conns h).peerFin then 1 else 0) := by
  refine ⟨step greeted (.close slot 30 30 true), .step _ greeted_reach trivial, slot, ?_, ?_, ?_⟩
  · decide
  · decide
  · have stream : ((step greeted (.close slot 30 30 true)).conns slot).past.stream = [72, 105] := by decide
    rintro ⟨n, within, bytes, next⟩
    rw [stream] at within bytes
    have none : n = 0 := by
      have nothing : ((step greeted (.close slot 30 30 true)).conns slot).past.got ++
          ((step greeted (.close slot 30 30 true)).conns slot).rx.contents = [] := by decide
      rw [nothing] at bytes
      have lengths := congrArg List.length bytes
      rw [List.length_take] at lengths
      simp only [List.length_nil, List.length_cons] at lengths
      omega
    rw [none] at next
    revert next
    decide

end Runs

end R2Apps.WebTcpDelivery
