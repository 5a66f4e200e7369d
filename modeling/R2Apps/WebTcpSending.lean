import R2Apps.WebTcp

/-! The sending half of the browser's TCP: what `tx` holds, under which numbers its
bytes go out, and when the FIN does. -/
namespace R2Apps.WebTcpSending
open R2Apps.FifoRings R2Apps.SerialNumbers R2Apps.WebTcp

/-- The bytes and the FIN of a segment carry the numbers they always carry: byte `k`
of what `send` accepted has the number of the SYN plus `k + 1`, and the FIN follows
the last byte once an ACK of that byte was heard and nothing is left in the buffer. -/
structure Numbered (c : Tcp) (x : Sent) : Prop where
  data : x.data ≠ [] → ∃ k, x.seq = serial c.past.iss (1 + k) ∧
    x.data = (c.past.accepted.drop k).take x.data.length
  fin : x.flags &&& flagFin ≠ 0 →
    x.seq = serial c.past.iss (1 + c.past.accepted.length) ∧ x.seq ∈ c.past.heard ∧ c.tx = [] ∧
      (c.state = .finWait ∨ c.state = .free)

def Logged (c : Tcp) : Prop := ∀ x ∈ c.past.sent, Numbered c x

/-- How far beyond the SYN `sndUna` is. -/
def unaAt (c : Tcp) (done : Bytes) : Nat :=
  if c.state = .synSent then 0 else 1 + done.length + if c.finAcked then 1 else 0

/-- The state of the sending half; `done` is what has been acknowledged. -/
structure Sending (c : Tcp) (done : Bytes) : Prop where
  queue : c.past.accepted = done ++ c.tx
  una : c.sndUna = serial c.past.iss (unaAt c done)
  next : c.sndNxt = if c.state = .synSent ∨ c.pendFin = true then c.sndUna + 1
    else c.sndUna + UInt32.ofNat c.inflight
  inside : c.inflight ≤ c.tx.length
  room : c.tx.length ≤ txCap
  syn : c.state = .synSent → done = [] ∧ c.inflight = 0 ∧ c.pendFin = false ∧ c.finAcked = false
  pend : c.pendFin = true → c.tx = [] ∧ c.finAcked = false ∧ c.state = .finWait
  acked : c.finAcked = true → c.tx = [] ∧ c.state = .finWait
  heard : c.state ≠ .synSent → c.sndUna ∈ c.past.heard

/-- The fields of the sending half. -/
def half (c : Tcp) :=
  (c.state, c.sndUna, c.sndNxt, c.tx, c.inflight, c.pendFin, c.finAcked, c.past.iss,
    c.past.accepted, c.past.heard)

section Congruence
variable {c c' : Tcp} {done : Bytes}

theorem Sending.congr (sending : Sending c done) (same : half c' = half c) : Sending c' done := by
  simp only [half, Prod.mk.injEq] at same
  obtain ⟨state, una, next, tx, inflight, pend, acked, iss, accepted, heard⟩ := same
  obtain ⟨queue, una', next', inside, room, syn, pend', acked', heard'⟩ := sending
  constructor
  · rw [accepted, tx, queue]
  · rw [una, iss, unaAt, state, acked]
    exact una'
  · rw [next, state, pend, una, inflight]
    exact next'
  · rw [inflight, tx]
    exact inside
  · rw [tx]
    exact room
  · rw [state, inflight, pend, acked]
    exact syn
  · rw [pend, tx, acked, state]
    exact pend'
  · rw [acked, tx, state]
    exact acked'
  · rw [state, una, heard]
    exact heard'

/-- What was sent stays numbered while `send` accepts more and more ACKs are heard; once
the connection is closed nothing more is accepted. -/
theorem Logged.grow (logged : Logged c) (iss : c'.past.iss = c.past.iss) (sent : c'.past.sent = c.past.sent)
    (accepted : c.past.accepted <+: c'.past.accepted) (heard : c.past.heard ⊆ c'.past.heard)
    (closing : c.state = .finWait ∨ c.state = .free → c'.past.accepted = c.past.accepted ∧
      (c.tx = [] → c'.tx = []) ∧ (c'.state = .finWait ∨ c'.state = .free)) : Logged c' := by
  intro x member
  rw [sent] at member
  obtain ⟨data, fin⟩ := logged x member
  constructor
  · intro some_data
    obtain ⟨k, seq, slice⟩ := data some_data
    obtain ⟨more, grown⟩ := accepted
    have inside : x.data.length ≤ (c.past.accepted.drop k).length := by
      have lengths := congrArg List.length slice
      rw [List.length_take] at lengths
      omega
    have nonempty := List.length_pos_iff.mpr some_data
    have early : k ≤ c.past.accepted.length := by
      rw [List.length_drop] at inside
      omega
    refine ⟨k, by rw [iss, seq], ?_⟩
    rw [← grown, List.drop_append_of_le_length early, List.take_append_of_le_length inside]
    exact slice
  · intro flag
    obtain ⟨seq, known, empty, closed⟩ := fin flag
    obtain ⟨same, drained, still⟩ := closing closed
    exact ⟨by rw [iss, same, seq], heard known, drained empty, still⟩

theorem Logged.congr (logged : Logged c) (same : half c' = half c) (sent : c'.past.sent = c.past.sent) :
    Logged c' := by
  simp only [half, Prod.mk.injEq] at same
  obtain ⟨state, -, -, tx, -, -, -, iss, accepted, heard⟩ := same
  apply logged.grow iss sent
  · exact ⟨[], by rw [List.append_nil, accepted]⟩
  · rw [heard]
    exact List.Subset.refl _
  · intro closed
    exact ⟨accepted, fun empty => by rwa [tx], by rwa [state]⟩

theorem Logged.keep (logged : Logged c) (past : c'.past = c.past)
    (closing : c.state = .finWait ∨ c.state = .free →
      (c.tx = [] → c'.tx = []) ∧ (c'.state = .finWait ∨ c'.state = .free)) : Logged c' := by
  apply logged.grow
  · rw [past]
  · rw [past]
  · exact ⟨[], by rw [List.append_nil, past]⟩
  · rw [past]
    exact List.Subset.refl _
  · intro closed
    exact ⟨congrArg Past.accepted past, closing closed⟩

theorem Logged.sendSeg (logged : Logged c) {flags : UInt8} {seq : UInt32} {data : Bytes}
    (new : Numbered c ⟨flags, seq, c.rcvNxt, window c, data⟩) : Logged (sendSeg c flags seq data) := by
  intro x member
  rcases List.mem_append.mp member with old | last
  · obtain ⟨data, fin⟩ := logged x old
    exact ⟨data, fin⟩
  · obtain rfl := List.mem_singleton.mp last
    exact ⟨new.data, new.fin⟩

theorem Logged.bare (logged : Logged c) {flags : UInt8} (noFin : flags &&& flagFin = 0) (seq : UInt32) :
    Logged (WebTcp.sendSeg c flags seq []) :=
  logged.sendSeg ⟨fun some_data => absurd rfl some_data, fun fin => absurd noFin fin⟩

theorem Logged.ackNow (logged : Logged c) : Logged (WebTcp.ackNow c) := logged.bare (by decide) _

theorem signalGap_half (now : UInt64) : half (signalGap c now) = half c := by
  simp only [signalGap]
  split <;> rfl

theorem Logged.signalGap (logged : Logged c) (now : UInt64) : Logged (WebTcp.signalGap c now) := by
  have marked : Logged { c with gapAt := c.rcvNxt, gapTime := now } := logged.congr rfl rfl
  simp only [WebTcp.signalGap]
  split
  · exact marked.ackNow
  · exact marked.ackNow.ackNow.ackNow

theorem noteSent_half (sent : Bool) (now : UInt64) : half (noteSent c sent now) = half c := by
  simp only [noteSent]
  split
  · rfl
  · split <;> rfl

theorem noteSent_sent (sent : Bool) (now : UInt64) : (noteSent c sent now).past = c.past := by
  simp only [noteSent]
  split
  · rfl
  · split <;> rfl

theorem freeConn_logged (logged : Logged c) : Logged (freeConn c) :=
  logged.keep rfl fun _ => ⟨fun _ => rfl, .inr rfl⟩

end Congruence

/-- A slot's sending half is in order. -/
structure Orderly (c : Tcp) : Prop where
  logged : Logged c
  sending : c.state ≠ .free → ∃ done, Sending c done

section Steps
variable {c : Tcp} {done : Bytes}

theorem Orderly.freeConn (orderly : Orderly c) : Orderly (WebTcp.freeConn c) :=
  ⟨freeConn_logged orderly.logged, fun used => absurd rfl used⟩

theorem Orderly.congr {c' : Tcp} (orderly : Orderly c) (same : half c' = half c)
    (sent : c'.past.sent = c.past.sent) :
    Orderly c' := by
  refine ⟨orderly.logged.congr same sent, fun used => ?_⟩
  have state : c'.state = c.state := congrArg Prod.fst same
  obtain ⟨done, sending⟩ := orderly.sending (state ▸ used)
  exact ⟨done, sending.congr same⟩

theorem Orderly.ackNow (orderly : Orderly c) : Orderly (WebTcp.ackNow c) :=
  ⟨orderly.logged.ackNow, fun used => (orderly.sending used).imp fun _ sending => sending.congr rfl⟩

theorem Orderly.signalGap (orderly : Orderly c) (now : UInt64) : Orderly (WebTcp.signalGap c now) := by
  have state : (WebTcp.signalGap c now).state = c.state := congrArg Prod.fst (signalGap_half now)
  refine ⟨orderly.logged.signalGap now, fun used => ?_⟩
  obtain ⟨done, sending⟩ := orderly.sending (state ▸ used)
  exact ⟨done, sending.congr (signalGap_half now)⟩

theorem Orderly.noteSent (orderly : Orderly c) (sent : Bool) (now : UInt64) :
    Orderly (WebTcp.noteSent c sent now) :=
  orderly.congr (noteSent_half sent now) (congrArg Past.sent (noteSent_sent sent now))

theorem front_numbered (sending : Sending c done) (dialled : c.state ≠ .synSent) {n : Nat}
    (within : n ≤ c.tx.length) {flags : UInt8} (noFin : flags &&& flagFin = 0) :
    Numbered c ⟨flags, c.sndUna, c.rcvNxt, window c, c.tx.take n⟩ := by
  constructor
  · intro some_data
    have unacked : c.finAcked = false := by
      by_contra fin
      have empty := (sending.acked (Bool.not_eq_false _ ▸ fin)).1
      simp [empty] at some_data
    refine ⟨done.length, ?_, ?_⟩
    · simp only [sending.una, unaAt, dialled, unacked, if_false, Bool.false_eq_true, Nat.add_zero]
    · have length : (c.tx.take n).length = n := by
        rw [List.length_take]
        omega
      simp only [length, sending.queue, List.drop_left]
  · intro fin
    exact absurd noFin fin

theorem fin_numbered (sending : Sending c done) (empty : c.tx = []) (unacked : c.finAcked = false)
    (closed : c.state = .finWait) (flags : UInt8) : Numbered c ⟨flags, c.sndUna, c.rcvNxt, window c, []⟩ := by
  have dialled : c.state ≠ .synSent := by
    rw [closed]
    decide
  have all := sending.queue
  rw [empty, List.append_nil] at all
  refine ⟨fun some_data => absurd rfl some_data, fun _ => ⟨?_, sending.heard dialled, empty, .inl closed⟩⟩
  simp only [sending.una, unaAt, dialled, unacked, if_false, Bool.false_eq_true, Nat.add_zero, all]

theorem pumpData_orderly (orderly : Orderly c) (now : UInt64) (known : Bool) (open_ : c.pendFin = false)
    (dialled : c.state ≠ .synSent) (used : c.state ≠ .free) :
    Orderly (pumpData c now known) := by
  obtain ⟨logged, sends⟩ := orderly
  obtain ⟨done, sending⟩ := sends used
  obtain ⟨n, amount⟩ : ∃ n, min c.tx.length (min c.peerMss segMax) = n := ⟨_, rfl⟩
  have within : n ≤ c.tx.length := by omega
  simp only [pumpData, amount]
  apply Orderly.noteSent
  have noFin : (flagAck ||| flagPsh) &&& flagFin = 0 := by decide
  have numbered := front_numbered sending dialled within noFin
  constructor
  · intro x member
    rcases List.mem_append.mp member with old | last
    · obtain ⟨data, fin⟩ := logged x old
      exact ⟨data, fin⟩
    · obtain rfl := List.mem_singleton.mp last
      exact ⟨numbered.data, numbered.fin⟩
  · intro _
    obtain ⟨queue, una, next, inside, room, syn, pend, acked, heard⟩ := sending
    refine ⟨done, queue, una, ?_, within, room, ?_, ?_, acked, heard⟩
    · simp [sendSeg, dialled, open_]
    · intro synSent
      exact absurd synSent dialled
    · intro fin
      exact absurd (open_.symm.trans fin) Bool.false_ne_true

theorem pumpFin_orderly (orderly : Orderly c) (now : UInt64) (empty : c.tx = [])
    (unacked : c.finAcked = false)
    (closed : c.state = .finWait) : Orderly (pumpFin c now) := by
  obtain ⟨logged, sends⟩ := orderly
  have used : c.state ≠ .free := by
    rw [closed]
    decide
  obtain ⟨done, sending⟩ := sends used
  have numbered := fin_numbered sending empty unacked closed (flagFin ||| flagAck)
  constructor
  · intro x member
    rcases List.mem_append.mp member with old | last
    · obtain ⟨data, fin⟩ := logged x old
      exact ⟨data, fin⟩
    · obtain rfl := List.mem_singleton.mp last
      exact ⟨numbered.data, numbered.fin⟩
  · intro _
    obtain ⟨queue, una, next, inside, room, syn, pend, acked, heard⟩ := sending
    refine ⟨done, queue, una, ?_, inside, room, ?_, fun _ => ⟨empty, unacked, closed⟩, acked, heard⟩
    · simp [pumpFin, sendSeg]
    · intro synSent
      rw [show (pumpFin c now).state = c.state from rfl, closed] at synSent
      cases synSent

theorem pump_orderly (orderly : Orderly c) (now : UInt64) (known : Bool) (used : c.state ≠ .free) :
    Orderly (pump c now known) := by
  simp only [pump]
  split
  · exact orderly
  · rename_i ready
    simp only [not_or, not_not, Bool.not_eq_true] at ready
    obtain ⟨-, open_, dialled, -⟩ := ready
    split
    · exact pumpData_orderly orderly now known open_ dialled used
    · rename_i empty
      split
      · rename_i closing
        exact pumpFin_orderly orderly now (not_not.mp empty) closing.2.1 closing.2.2
      · exact orderly

theorem resend_orderly (orderly : Orderly c) (used : c.state ≠ .free) : Orderly (resend c) := by
  obtain ⟨done, sending⟩ := orderly.sending used
  have same : half (resend c) = half c := by
    simp only [resend]
    split
    · rfl
    · split <;> rfl
  refine ⟨?_, fun _ => ⟨done, sending.congr same⟩⟩
  simp only [resend]
  split
  · exact orderly.logged.bare (by decide) _
  · rename_i dialled
    split
    · rename_i pend
      obtain ⟨empty, unacked, closed⟩ := sending.pend pend
      exact orderly.logged.sendSeg (fin_numbered sending empty unacked closed _)
    · exact orderly.logged.sendSeg (front_numbered sending dialled sending.inside (by decide))

theorem giveUp_orderly (orderly : Orderly c) (why : String) : Orderly (giveUp c why) := by
  simp only [giveUp]
  split
  · exact orderly.freeConn
  · exact orderly.congr rfl rfl

theorem timeout_orderly (orderly : Orderly c) (now : UInt64) (look : Look) (used : c.state ≠ .free) :
    Orderly (timeout c now look) := by
  simp only [timeout]
  split
  · split
    · exact giveUp_orderly orderly _
    · exact (resend_orderly orderly used).noteSent _ _
  · split
    · have counted : Orderly { c with retries := c.retries + 1 } := orderly.congr rfl rfl
      exact giveUp_orderly counted _
    · have backed : Orderly (backOff { c with retries := c.retries + 1 }) := orderly.congr rfl rfl
      exact (resend_orderly backed used).noteSent _ _

theorem tick_orderly (orderly : Orderly c) (now : UInt64) (look : Look) (used : c.state ≠ .free) :
    Orderly (tick c now look) := by
  simp only [tick]
  split
  · exact orderly.freeConn
  · split
    · exact orderly
    · split
      · exact timeout_orderly orderly now look used
      · exact pump_orderly orderly now look.known used

theorem hear_state (s : Segment) : (hear c s).state = c.state := by
  simp only [hear]
  split <;> rfl

theorem hear_orderly (orderly : Orderly c) (s : Segment) : Orderly (hear c s) := by
  simp only [hear]
  split
  · obtain ⟨logged, sends⟩ := orderly
    have more : c.past.heard ⊆ c.past.heard ++ [s.ack] := List.subset_append_left _ _
    constructor
    · exact logged.grow rfl rfl (List.prefix_refl _) more fun closed => ⟨rfl, id, closed⟩
    · intro used
      obtain ⟨done, sending⟩ := sends used
      obtain ⟨queue, una, next, inside, room, syn, pend, acked, heard⟩ := sending
      exact ⟨done, queue, una, next, inside, room, syn, pend, acked, fun dialled => more (heard dialled)⟩
  · exact orderly

theorem hear_mem (s : Segment) (flag : s.flags &&& flagAck ≠ 0) : s.ack ∈ (hear c s).past.heard := by
  simp [hear, flag]

theorem ack_fin (sending : Sending c done) (pend : c.pendFin = true) (heard : c.sndNxt ∈ c.past.heard) :
    Sending { c with pendFin := false, finAcked := true, sndUna := c.sndNxt } done := by
  obtain ⟨empty, unacked, closed⟩ := sending.pend pend
  have dialled : c.state ≠ .synSent := by
    rw [closed]
    decide
  have none : c.inflight = 0 := by
    have inside := sending.inside
    rw [empty] at inside
    exact Nat.le_zero.mp inside
  have next := sending.next
  rw [if_pos (Or.inr pend)] at next
  constructor
  · exact sending.queue
  · have una := sending.una
    simp only [unaAt, dialled, unacked, if_false, Bool.false_eq_true, Nat.add_zero] at una
    simp only [unaAt, dialled, if_false, if_true, next, una, serial_succ]
  · simp [dialled, none]
  · exact sending.inside
  · exact sending.room
  · exact fun synSent => absurd synSent dialled
  · exact fun off => absurd off Bool.false_ne_true
  · exact fun _ => ⟨empty, closed⟩
  · exact fun _ => heard

theorem ack_data (sending : Sending c done) (dialled : c.state ≠ .synSent)
    (open_ : c.pendFin = false) {n : Nat}
    (within : n ≤ c.inflight) (heard : c.sndUna + UInt32.ofNat n ∈ c.past.heard) :
    Sending { c with
      tx := c.tx.drop n, inflight := c.inflight - n, sndUna := c.sndUna + UInt32.ofNat n, retries := 0,
      rto := rtoInitial } (done ++ c.tx.take n) := by
  have inside := sending.inside
  constructor
  · show c.past.accepted = done ++ c.tx.take n ++ c.tx.drop n
    rw [List.append_assoc, List.take_append_drop, sending.queue]
  · have length : (done ++ c.tx.take n).length = done.length + n := by
      rw [List.length_append, List.length_take]
      omega
    have place : unaAt { c with
        tx := c.tx.drop n, inflight := c.inflight - n, sndUna := c.sndUna + UInt32.ofNat n, retries := 0,
        rto := rtoInitial } (done ++ c.tx.take n) = unaAt c done + n := by
      simp only [unaAt, dialled, if_false, length]
      omega
    rw [place, serial_add, ← sending.una]
  · have next := sending.next
    rw [if_neg (by simp [dialled, open_])] at next
    have whole : c.inflight = n + (c.inflight - n) := by omega
    simp only [dialled, open_, Bool.false_eq_true, or_self, if_false]
    rw [next, UInt32.add_assoc, ← UInt32.ofNat_add, ← whole]
  · rw [List.length_drop]
    exact Nat.sub_le_sub_right inside n
  · rw [List.length_drop]
    exact (Nat.sub_le _ _).trans sending.room
  · exact fun synSent => absurd synSent dialled
  · exact fun pend => absurd (open_.symm.trans pend) Bool.false_ne_true
  · intro acked
    obtain ⟨empty, closed⟩ := sending.acked acked
    exact ⟨by rw [empty, List.drop_nil], closed⟩
  · exact fun _ => heard

theorem onAck_orderly (orderly : Orderly c) (ack : UInt32) (dialled : c.state ≠ .synSent)
    (heard : ack ∈ c.past.heard) : Orderly (onAck c ack) := by
  simp only [onAck]
  split
  · split
    · rename_i pend
      split
      · rename_i whole
        refine ⟨orderly.logged.keep rfl fun closed => ⟨id, closed⟩, fun used => ?_⟩
        obtain ⟨done, sending⟩ := orderly.sending used
        subst whole
        exact ⟨done, ack_fin sending pend heard⟩
      · exact orderly
    · rename_i pend
      split
      · rename_i within
        have drained (empty : c.tx = []) : c.tx.drop (ack - c.sndUna).toNat = [] := by
          rw [empty, List.drop_nil]
        refine ⟨orderly.logged.keep rfl fun closed => ⟨drained, closed⟩, fun used => ?_⟩
        obtain ⟨done, sending⟩ := orderly.sending used
        have back : c.sndUna + UInt32.ofNat (ack - c.sndUna).toNat = ack := by
          rw [UInt32.ofNat_toNat]
          grind
        have moved := ack_data sending dialled (Bool.not_eq_true _ ▸ pend) within (by rwa [back])
        rw [back] at moved
        exact ⟨_, moved⟩
      · exact orderly
  · exact orderly

theorem onAck_state (ack : UInt32) : (onAck c ack).state = c.state := by
  simp only [onAck]
  split
  · split
    · split <;> rfl
    · split <;> rfl
  · rfl

theorem onRst_orderly (orderly : Orderly c) : Orderly (onRst c) := by
  simp only [onRst]
  split
  · exact orderly.freeConn
  · exact orderly.congr rfl rfl

theorem synAck_ack {flags : UInt8} (both : flags &&& (flagSyn ||| flagAck) = flagSyn ||| flagAck) :
    flags &&& flagAck ≠ 0 := by
  intro none
  have masked : flags &&& (flagSyn ||| flagAck) &&& flagAck = (flagSyn ||| flagAck) &&& flagAck := by
    rw [both]
  rw [UInt8.and_assoc, show (flagSyn ||| flagAck) &&& flagAck = flagAck from rfl, none] at masked
  exact absurd masked (by decide)

theorem opened_sending (sending : Sending c done) (dialling : c.state = .synSent) (ack : UInt32)
    (next : ack = c.sndUna + 1) (heard : ack ∈ c.past.heard) (rcvNxt : UInt32) (peerMss : Nat) :
    Sending { c with
      rcvNxt := rcvNxt, sndUna := ack, sndNxt := ack, state := .established, peerMss := peerMss }
      done := by
  obtain ⟨nothing, idle, open_, unacked⟩ := sending.syn dialling
  constructor
  · exact sending.queue
  · have una := sending.una
    simp only [unaAt, dialling, if_true] at una
    have place : serial c.past.iss (1 + 0 + 0) = ack := by rw [next, una, ← serial_succ]
    simp [unaAt, unacked, nothing, place]
  · simp [open_, idle]
  · exact sending.inside
  · exact sending.room
  · exact fun synSent => absurd synSent (show TcpState.established ≠ .synSent by decide)
  · exact fun pend => absurd (open_.symm.trans pend) Bool.false_ne_true
  · exact fun acked => absurd (unacked.symm.trans acked) Bool.false_ne_true
  · exact fun _ => heard

theorem onSynSent_orderly (orderly : Orderly c) (dialling : c.state = .synSent) (s : Segment)
    (heard : s.flags &&& flagAck ≠ 0 → s.ack ∈ c.past.heard) (now : UInt64) (known : Bool) :
    Orderly (onSynSent c s now known) := by
  simp only [onSynSent]
  split
  · exact orderly.congr rfl rfl
  · rename_i answers
    split
    · exact orderly
    · rename_i both
      have flag := synAck_ack (not_not.mp both)
      have next : s.ack = c.sndUna + 1 := by
        by_contra other
        exact answers ⟨flag, other⟩
      have unclosed : ¬(c.state = .finWait ∨ c.state = .free) := by
        rw [dialling]
        decide
      have opened : Orderly { c with
          rcvNxt := s.seq + 1, sndUna := s.ack, sndNxt := s.ack, state := .established,
          peerMss := mssOption s.options.length s.options 536 } := by
        constructor
        · exact orderly.logged.keep rfl fun closed => absurd closed unclosed
        · intro _
          obtain ⟨done, sending⟩ := orderly.sending fun free => unclosed (.inr free)
          exact ⟨done, opened_sending sending dialling s.ack next (heard flag) _ _⟩
      exact pump_orderly opened.ackNow now known (show TcpState.established ≠ .free by decide)

theorem onData_half (seq : UInt32) (data : Bytes) (now : UInt64) : half (onData c seq data now) = half c := by
  simp only [onData]
  split
  · rfl
  · split
    · rfl
    · split
      · rfl
      · split
        · exact signalGap_half now
        · rfl

theorem store_orderly (orderly : Orderly c) (seq : UInt32) (data : Bytes) : Orderly (store c seq data) :=
  orderly.congr rfl rfl

theorem onData_orderly (orderly : Orderly c) (seq : UInt32) (data : Bytes) (now : UInt64) :
    Orderly (onData c seq data now) := by
  simp only [onData]
  split
  · exact orderly
  · split
    · exact orderly
    · split
      · exact (store_orderly orderly seq data).ackNow
      · split
        · exact orderly.signalGap now
        · exact orderly.ackNow

theorem closeWait_orderly (orderly : Orderly c) (open_ : c.state = .established) :
    Orderly { c with state := .closeWait } := by
  have closed : ¬(c.state = .finWait ∨ c.state = .free) := by
    rw [open_]
    decide
  constructor
  · exact orderly.logged.keep rfl fun other => absurd other closed
  · intro _
    obtain ⟨done, sending⟩ := orderly.sending (by rw [open_]; decide)
    obtain ⟨queue, una, next, inside, room, -, pend, acked, heard⟩ := sending
    simp only [unaAt, open_, reduceCtorEq, if_false] at una
    simp only [open_, reduceCtorEq, false_or] at next
    refine ⟨done, queue, ?_, ?_, inside, room, ?_, ?_, ?_, ?_⟩
    · simpa only [unaAt, reduceCtorEq, if_false] using una
    · simpa only [reduceCtorEq, false_or] using next
    · intro synSent
      exact absurd synSent (show TcpState.closeWait ≠ .synSent by decide)
    · intro fin
      exact absurd (.inl (pend fin).2.2) closed
    · intro fin
      exact absurd (.inl (acked fin).2) closed
    · intro _
      exact heard (by rw [open_]; decide)

theorem onFin_orderly (orderly : Orderly c) (last : UInt32) (now : UInt64) : Orderly (onFin c last now) := by
  simp only [onFin]
  split
  · have moved : Orderly { c with rcvNxt := c.rcvNxt + 1, peerFin := true } := orderly.congr rfl rfl
    split
    · rename_i open_
      exact closeWait_orderly moved.ackNow open_
    · exact moved.ackNow
  · split
    · exact orderly.signalGap now
    · exact orderly

theorem onFin_used (last : UInt32) (now : UInt64) (used : c.state ≠ .free) :
    (onFin c last now).state ≠ .free := by
  simp only [onFin]
  split
  · split
    · exact (show TcpState.closeWait ≠ .free by decide)
    · exact used
  · split
    · rw [show (signalGap c now).state = c.state from congrArg Prod.fst (signalGap_half now)]
      exact used
    · exact used

theorem finish_orderly (orderly : Orderly c) (now : UInt64) (known : Bool) (used : c.state ≠ .free) :
    Orderly (finish c now known) := by
  simp only [finish]
  split
  · exact orderly.freeConn
  · exact pump_orderly orderly now known used

theorem onSynchronized_orderly (orderly : Orderly c) (s : Segment) (dialled : c.state ≠ .synSent)
    (used : c.state ≠ .free) (heard : s.flags &&& flagAck ≠ 0 → s.ack ∈ c.past.heard) (now : UInt64)
    (known : Bool) :
    Orderly (onSynchronized c s now known) := by
  simp only [onSynchronized]
  obtain ⟨a, acked⟩ : ∃ a, (if s.flags &&& flagAck ≠ 0 then onAck c s.ack else c) = a := ⟨_, rfl⟩
  have afterAck : Orderly a ∧ a.state = c.state := by
    rw [← acked]
    split
    · rename_i flag
      exact ⟨onAck_orderly orderly s.ack dialled (heard flag), onAck_state s.ack⟩
    · exact ⟨orderly, rfl⟩
  rw [acked]
  have afterData := onData_orderly afterAck.1 s.seq s.data now
  have dataUsed : (onData a s.seq s.data now).state ≠ .free := by
    rw [show (onData a s.seq s.data now).state =
      a.state from congrArg Prod.fst (onData_half s.seq s.data now),
      afterAck.2]
    exact used
  split
  · exact finish_orderly (onFin_orderly afterData _ now) now known (onFin_used _ now dataUsed)
  · exact finish_orderly afterData now known dataUsed

theorem onSegment_orderly (orderly : Orderly c) (s : Segment) (used : c.state ≠ .free)
    (now : UInt64) (known : Bool) :
    Orderly (onSegment c s now known) := by
  have heard := hear_orderly orderly s
  simp only [onSegment]
  split
  · exact onRst_orderly heard
  · split
    · rename_i dialling
      exact onSynSent_orderly heard ((hear_state s).trans dialling) s (hear_mem s) now known
    · rename_i dialled
      rw [← hear_state s] at dialled used
      exact onSynchronized_orderly heard s dialled used (hear_mem s) now known

theorem openConn_orderly (rip : PrefixRoutes.Ip4) (rport lport : UInt16) (peer : Past)
    (fresh : peer.accepted = [])
    (unsent : peer.sent = []) (now : UInt64) (known : Bool) :
    Orderly (openConn rip rport lport peer now known) := by
  simp only [openConn]
  apply Orderly.noteSent
  constructor
  · intro x member
    simp only [sendSeg, unsent, List.nil_append, List.mem_singleton] at member
    obtain rfl := member
    have noFin : flagSyn &&& flagFin = 0 := by decide
    exact ⟨fun some_data => absurd rfl some_data, fun fin => absurd noFin fin⟩
  · intro _
    refine ⟨[], ?_, ?_, rfl, Nat.le_refl _, Nat.zero_le _, fun _ => ⟨rfl, rfl, rfl, rfl⟩, ?_, ?_, ?_⟩
    · simpa [sendSeg, blank] using fresh
    · simp [sendSeg, blank, unaAt, serial]
    · exact fun pend => absurd pend Bool.false_ne_true
    · exact fun acked => absurd acked Bool.false_ne_true
    · exact fun dialled => absurd rfl dialled

theorem send_orderly (orderly : Orderly c) (data : Bytes) (now : UInt64) (known : Bool) :
    Orderly (send c data now known).1 := by
  simp only [send]
  split
  · exact orderly
  · rename_i allowed
    have open_ : ¬(c.state = .finWait ∨ c.state = .free) := by
      intro closed
      rcases closed with closed | closed <;> exact allowed (.inr (by simp [closed]))
    have used : c.state ≠ .free := fun free => open_ (.inr free)
    refine pump_orderly ?_ now known used
    constructor
    · exact orderly.logged.grow rfl rfl (List.prefix_append _ _) (List.Subset.refl _) fun closed =>
        absurd closed open_
    · intro _
      obtain ⟨done, sending⟩ := orderly.sending used
      obtain ⟨queue, una, next, inside, room, syn, pend, acked, heard⟩ := sending
      refine ⟨done, ?_, una, next, ?_, ?_, syn, ?_, ?_, heard⟩
      · rw [queue, List.append_assoc]
      · simp only [List.length_append]
        omega
      · simp only [List.length_append, List.length_take]
        omega
      · intro fin
        exact absurd (.inl (pend fin).2.2) open_
      · intro fin
        exact absurd (.inl (acked fin).2) open_

theorem recv_orderly (orderly : Orderly c) (n : Nat) : Orderly (recv c n).1 := by
  have read (k : Nat) : Orderly (takeOut c k) := orderly.congr rfl rfl
  simp only [recv]
  split
  · exact orderly
  · split
    · exact (read _).ackNow
    · exact read _

theorem close_orderly (orderly : Orderly c) (now later : UInt64) (known : Bool) :
    Orderly (close c now later known) := by
  simp only [close]
  split
  · exact orderly
  · rename_i used
    split
    · exact orderly.freeConn
    · split
      · exact ⟨freeConn_logged (orderly.logged.bare (by decide) _), fun other => absurd rfl other⟩
      · rename_i dialled
        refine pump_orderly ?_ later known (show TcpState.finWait ≠ .free by decide)
        constructor
        · exact orderly.logged.keep rfl fun _ => ⟨id, .inl rfl⟩
        · intro _
          obtain ⟨done, sending⟩ := orderly.sending used
          obtain ⟨queue, una, next, inside, room, -, pend, acked, heard⟩ := sending
          simp only [unaAt, dialled, if_false] at una
          simp only [dialled, false_or] at next
          refine ⟨done, queue, ?_, ?_, inside, room, ?_, ?_, ?_, fun _ => heard dialled⟩
          · simpa only [unaAt, reduceCtorEq, if_false] using una
          · simpa only [reduceCtorEq, false_or] using next
          · intro synSent
            exact absurd synSent (show TcpState.finWait ≠ .synSent by decide)
          · intro fin
            exact ⟨(pend fin).1, (pend fin).2.1, rfl⟩
          · intro fin
            exact ⟨(acked fin).1, rfl⟩

end Steps
end R2Apps.WebTcpSending
