import R2Apps.WebTcpSending

/-! The receiving half of the browser's TCP: the ring holds the next bytes of what the
peer says, and `rcvNxt` is behind the last of them. -/
namespace R2Apps.WebTcpReceiving
open R2Apps.FifoRings R2Apps.SerialNumbers R2Apps.WebTcp

/-- How much of the peer's stream has been taken; its FIN counts one. -/
def reached (c : Tcp) : Nat := c.past.stored.length + if c.peerFin then 1 else 0

/-- The state of the receiving half. -/
structure Receiving (c : Tcp) : Prop where
  next : c.state ≠ .synSent → c.rcvNxt = serial (c.past.irs + 1) (reached c)
  begins : c.past.stored <+: c.past.stream
  ended : c.peerFin = true → c.past.stored = c.past.stream
  unread : c.state ≠ .finWait → c.past.stored = c.past.got ++ c.rx.contents
  dropped : c.state = .finWait → c.rx.count = 0 ∧ c.past.got <+: c.past.stored
  dialling : c.state = .synSent → c.past.stored = [] ∧ c.peerFin = false

/-- A segment of the peer's, over any path: where it carries data or the FIN they lie
where they lie in its stream, and nearer than half the numbers to what is next. Its SYN
carries neither. -/
structure FromPeer (c : Tcp) (s : Segment) : Prop where
  syn : c.state = .synSent → s.flags &&& (flagSyn ||| flagAck) = flagSyn ||| flagAck → s.ack = c.sndUna + 1 →
    s.seq = c.past.irs
  slice : c.state ≠ .synSent → s.data ≠ [] ∨ s.flags &&& flagFin ≠ 0 →
    ∃ o, s.seq = serial (c.past.irs + 1) o ∧ s.data = (c.past.stream.drop o).take s.data.length ∧
      o + s.data.length ≤ c.past.stream.length ∧
      (s.flags &&& flagFin ≠ 0 → o + s.data.length = c.past.stream.length) ∧
      reached c < o + 2 ^ 31 ∧ o + s.data.length < reached c + 2 ^ 31

/-- The fields of the receiving half. -/
def ear (c : Tcp) :=
  (c.state, c.rcvNxt, c.peerFin, c.rx, c.past.irs, c.past.stream, c.past.stored, c.past.got)

/-- A slot's receiving half is in order. -/
def Attentive (c : Tcp) : Prop := c.state ≠ .free → Receiving c

section Congruence
variable {c c' : Tcp}

theorem ear_state (same : ear c' = ear c) : c'.state = c.state := congrArg Prod.fst same

theorem reached_congr (same : ear c' = ear c) : reached c' = reached c := by
  simp only [ear, Prod.mk.injEq] at same
  obtain ⟨-, -, peerFin, -, -, -, stored, -⟩ := same
  rw [reached, reached, peerFin, stored]

theorem Receiving.congr (receiving : Receiving c) (same : ear c' = ear c) : Receiving c' := by
  simp only [ear, Prod.mk.injEq] at same
  obtain ⟨state, rcvNxt, peerFin, rx, irs, stream, stored, got⟩ := same
  obtain ⟨next, begins, ended, unread, dropped, dialling⟩ := receiving
  constructor
  · rw [state, rcvNxt, irs, reached, stored, peerFin]
    exact next
  · rw [stored, stream]
    exact begins
  · rw [peerFin, stored, stream]
    exact ended
  · rw [state, stored, got, rx]
    exact unread
  · rw [state, rx, got, stored]
    exact dropped
  · rw [state, stored, peerFin]
    exact dialling

theorem Attentive.congr (attentive : Attentive c) (same : ear c' = ear c) : Attentive c' := by
  intro used
  rw [ear_state same] at used
  exact (attentive used).congr same

theorem freeConn_attentive : Attentive (freeConn c) := fun used => absurd rfl used

theorem noteSent_ear (sent : Bool) (now : UInt64) : ear (noteSent c sent now) = ear c := by
  simp only [noteSent]
  split
  · rfl
  · split <;> rfl

theorem signalGap_ear (now : UInt64) : ear (signalGap c now) = ear c := by
  simp only [signalGap]
  split <;> rfl

theorem pump_ear (now : UInt64) (known : Bool) : ear (pump c now known) = ear c := by
  simp only [pump]
  split
  · rfl
  · split
    · exact noteSent_ear known now
    · split <;> rfl

theorem resend_ear : ear (resend c) = ear c := by
  simp only [resend]
  split
  · rfl
  · split <;> rfl

theorem hear_ear (s : Segment) : ear (hear c s) = ear c := by
  simp only [hear]
  split <;> rfl

theorem onAck_ear (ack : UInt32) : ear (onAck c ack) = ear c := by
  simp only [onAck]
  split
  · split
    · split <;> rfl
    · split <;> rfl
  · rfl

theorem giveUp_attentive (attentive : Attentive c) (why : String) : Attentive (giveUp c why) := by
  simp only [giveUp]
  split
  · exact freeConn_attentive
  · exact attentive.congr rfl

theorem timeout_attentive (attentive : Attentive c) (now : UInt64) (look : Look) :
    Attentive (timeout c now look) := by
  simp only [timeout]
  split
  · split
    · exact giveUp_attentive attentive _
    · exact (attentive.congr resend_ear).congr (noteSent_ear _ now)
  · split
    · have counted : Attentive { c with retries := c.retries + 1 } := attentive.congr rfl
      exact giveUp_attentive counted _
    · have backed : Attentive (backOff { c with retries := c.retries + 1 }) := attentive.congr rfl
      exact (backed.congr resend_ear).congr (noteSent_ear _ now)

theorem tick_attentive (attentive : Attentive c) (now : UInt64) (look : Look) :
    Attentive (tick c now look) := by
  simp only [tick]
  split
  · exact freeConn_attentive
  · split
    · exact attentive
    · split
      · exact timeout_attentive attentive now look
      · exact attentive.congr (pump_ear now look.known)

theorem onRst_attentive (attentive : Attentive c) : Attentive (onRst c) := by
  simp only [onRst]
  split
  · exact freeConn_attentive
  · exact attentive.congr rfl

end Congruence

section Steps
variable {c : Tcp}

theorem wanted_next {seq : UInt32} {data : Bytes} {o : Nat}
    (next : c.rcvNxt = serial (c.past.irs + 1) (reached c))
    (place : seq = serial (c.past.irs + 1) o) (slice : data = (c.past.stream.drop o).take data.length)
    (behind : o ≤ reached c) (near : reached c < o + 2 ^ 32) :
    ∃ n, wanted c seq data = (c.past.stream.drop (reached c)).take n := by
  have skip : (c.rcvNxt - seq).toNat = reached c - o := by
    rw [next, place, toNat_behind _ behind near]
  refine ⟨min (rxCap - c.rx.count) (data.length - (reached c - o)), ?_⟩
  have whole : o + (reached c - o) = reached c := by omega
  rw [wanted, skip, slice, List.drop_take, List.drop_drop, whole, List.take_take, ← slice]

theorem begins_append {stored stream : Bytes} (begins : stored <+: stream) (n : Nat) :
    stored ++ (stream.drop stored.length).take n <+: stream := by
  obtain ⟨rest, rfl⟩ := begins
  rw [List.drop_left, List.prefix_append_right_inj]
  exact List.take_prefix n rest

theorem store_receiving {seq : UInt32} {data : Bytes} {o : Nat} (receiving : Receiving c)
    (dialled : c.state ≠ .synSent) (open_ : c.state ≠ .finWait) (more : c.peerFin = false)
    (place : seq = serial (c.past.irs + 1) o) (slice : data = (c.past.stream.drop o).take data.length)
    (behind : o ≤ reached c) (near : reached c < o + 2 ^ 32) : Receiving (store c seq data) := by
  have next := receiving.next dialled
  have here : reached c = c.past.stored.length := by simp [reached, more]
  obtain ⟨n, bytes⟩ := wanted_next next place slice behind near
  rw [here] at bytes
  constructor
  · intro _
    show c.rcvNxt + UInt32.ofNat (wanted c seq data).length = _
    have sum : reached (store c seq data) = reached c + (wanted c seq data).length := by
      simp [reached, store, more]
    rw [next, sum, serial_add]
    rfl
  · show c.past.stored ++ wanted c seq data <+: c.past.stream
    rw [bytes]
    exact begins_append receiving.begins n
  · exact fun fin => absurd (more.symm.trans fin) Bool.false_ne_true
  · intro _
    show c.past.stored ++ wanted c seq data = c.past.got ++ (c.rx.fill _ _).contents
    rw [Fifo.fill_contents, receiving.unread open_, List.append_assoc]
  · exact fun closed => absurd closed open_
  · exact fun synSent => absurd synSent dialled

theorem onData_receiving {s : Segment} (receiving : Receiving c) (dialled : c.state ≠ .synSent)
    (peer : FromPeer c s) (now : UInt64) :
    Receiving (onData c s.seq s.data now) ∧ reached c ≤ reached (onData c s.seq s.data now) := by
  simp only [onData]
  split
  · exact ⟨receiving, Nat.le_refl _⟩
  · rename_i some_data
    split
    · exact ⟨receiving, Nat.le_refl _⟩
    · rename_i wanting
      simp only [not_or, Bool.not_eq_true] at wanting
      split
      · rename_i due
        obtain ⟨o, place, slice, -, -, lower, upper⟩ := peer.slice dialled (.inl some_data)
        have behind : o ≤ reached c := by
          rcases due with same | ⟨before, -⟩
          · rw [place, receiving.next dialled] at same
            exact Nat.le_of_eq ((serial_eq_iff _ (by omega) (by omega)).mp same)
          · simp only [seqLt, decide_eq_true_eq, Int32.lt_iff_toInt_lt, place, receiving.next dialled]
              at before
            rw [toInt_distance _ (by omega) (by omega) (by omega)] at before
            have zero : Int32.toInt 0 = 0 := rfl
            omega
        have stored := store_receiving receiving dialled wanting.2 wanting.1 place slice behind (by omega)
        refine ⟨stored.congr rfl, ?_⟩
        show c.past.stored.length + _ ≤ (c.past.stored ++ _).length + _
        rw [List.length_append]
        exact Nat.add_le_add_right (Nat.le_add_right _ _) _
      · split
        · exact ⟨receiving.congr (signalGap_ear now), Nat.le_of_eq (reached_congr (signalGap_ear now)).symm⟩
        · exact ⟨receiving.congr rfl, Nat.le_refl _⟩

theorem fin_receiving (receiving : Receiving c) (dialled : c.state ≠ .synSent) {last : Nat}
    (place : c.rcvNxt = serial (c.past.irs + 1) last) (ends : last = c.past.stream.length)
    (above : last < reached c + 2 ^ 32) :
    Receiving { c with rcvNxt := c.rcvNxt + 1, peerFin := true } ∧ c.peerFin = false := by
  have bound := receiving.begins.length_le
  have extra : reached c ≤ c.past.stored.length + 1 := by
    rw [reached]
    split <;> omega
  have here : last = reached c := by
    rw [receiving.next dialled] at place
    exact ((serial_eq_iff _ (by omega) above).mp place).symm
  have more : c.peerFin = false := by
    by_contra fin
    have full := receiving.ended (Bool.not_eq_false _ ▸ fin)
    rw [reached, if_pos (Bool.not_eq_false _ ▸ fin), full] at here
    omega
  have all : c.past.stored = c.past.stream := by
    rw [reached, more, ends] at here
    exact receiving.begins.eq_of_length (by simpa using here.symm)
  refine ⟨?_, more⟩
  constructor
  · intro _
    show c.rcvNxt + 1 = serial (c.past.irs + 1) (c.past.stored.length + 1)
    rw [receiving.next dialled, serial_succ, reached, more]
    rfl
  · exact receiving.begins
  · exact fun _ => all
  · exact receiving.unread
  · exact receiving.dropped
  · exact fun synSent => absurd synSent dialled

theorem closeWait_receiving (receiving : Receiving c) (open_ : c.state = .established) :
    Receiving { c with state := .closeWait } := by
  obtain ⟨next, begins, ended, unread, -, -⟩ := receiving
  constructor
  · exact fun _ => next (by rw [open_]; decide)
  · exact begins
  · exact ended
  · exact fun _ => unread (by rw [open_]; decide)
  · exact fun closed => absurd closed (show TcpState.closeWait ≠ .finWait by decide)
  · exact fun synSent => absurd synSent (show TcpState.closeWait ≠ .synSent by decide)

theorem onFin_receiving {last : Nat} (receiving : Receiving c) (dialled : c.state ≠ .synSent)
    (ends : last = c.past.stream.length) (above : last < reached c + 2 ^ 32) (now : UInt64) :
    Receiving (onFin c (serial (c.past.irs + 1) last) now) := by
  simp only [onFin]
  split
  · rename_i due
    have taken := (fin_receiving receiving dialled due.symm ends above).1
    split
    · rename_i open_
      exact closeWait_receiving (taken.congr rfl) open_
    · exact taken.congr rfl
  · split
    · exact receiving.congr (signalGap_ear now)
    · exact receiving

theorem finish_attentive (receiving : Receiving c) (now : UInt64) (known : Bool) :
    Attentive (finish c now known) := by
  simp only [finish]
  split
  · exact freeConn_attentive
  · exact fun _ => receiving.congr (pump_ear now known)

theorem onData_kept (seq : UInt32) (data : Bytes) (now : UInt64) :
    (onData c seq data now).state = c.state ∧ (onData c seq data now).past.irs = c.past.irs ∧
      (onData c seq data now).past.stream = c.past.stream := by
  simp only [onData]
  split
  · exact ⟨rfl, rfl, rfl⟩
  · split
    · exact ⟨rfl, rfl, rfl⟩
    · split
      · exact ⟨rfl, rfl, rfl⟩
      · split
        · have same := signalGap_ear (c := c) now
          simp only [ear, Prod.mk.injEq] at same
          exact ⟨same.1, same.2.2.2.2.1, same.2.2.2.2.2.1⟩
        · exact ⟨rfl, rfl, rfl⟩

theorem FromPeer.congr {c' : Tcp} {s : Segment} (peer : FromPeer c s) (same : ear c' = ear c)
    (una : c'.state = .synSent → c'.sndUna = c.sndUna) : FromPeer c' s := by
  have progress := reached_congr same
  simp only [ear, Prod.mk.injEq] at same
  obtain ⟨state, -, -, -, irs, stream, -, -⟩ := same
  obtain ⟨syn, slice⟩ := peer
  constructor
  · intro dialling both next
    rw [una dialling] at next
    rw [irs]
    exact syn (state ▸ dialling) both next
  · rw [state, irs, stream, progress]
    exact slice

theorem onSynchronized_attentive {s : Segment} (receiving : Receiving c) (dialled : c.state ≠ .synSent)
    (peer : FromPeer c s) (now : UInt64) (known : Bool) : Attentive (onSynchronized c s now known) := by
  simp only [onSynchronized]
  obtain ⟨a, acked⟩ : ∃ a, (if s.flags &&& flagAck ≠ 0 then onAck c s.ack else c) = a := ⟨_, rfl⟩
  have same : ear a = ear c := by
    rw [← acked]
    split
    · exact onAck_ear s.ack
    · rfl
  rw [acked]
  have state := ear_state same
  have stillDialled : a.state ≠ .synSent := by rwa [state]
  have stillPeer : FromPeer a s := peer.congr same fun synSent => absurd synSent stillDialled
  obtain ⟨afterData, further⟩ := onData_receiving (receiving.congr same) stillDialled stillPeer now
  obtain ⟨dataState, dataIrs, dataStream⟩ := onData_kept (c := a) s.seq s.data now
  split
  · rename_i fin
    obtain ⟨o, place, -, -, ends, -, upper⟩ := stillPeer.slice stillDialled (.inr fin)
    have last : s.seq + UInt32.ofNat s.data.length =
        serial ((onData a s.seq s.data now).past.irs + 1) (o + s.data.length) := by
      rw [dataIrs, place, serial_add]
    rw [last]
    apply finish_attentive
    apply onFin_receiving afterData
    · rwa [dataState]
    · rw [dataStream]
      exact ends fin
    · omega
  · exact finish_attentive afterData now known

theorem onSynSent_attentive {s : Segment} (receiving : Receiving c) (dialling : c.state = .synSent)
    (peer : FromPeer c s) (now : UInt64) (known : Bool) : Attentive (onSynSent c s now known) := by
  simp only [onSynSent]
  split
  · exact fun _ => receiving.congr rfl
  · rename_i answers
    split
    · exact fun _ => receiving
    · rename_i other
      have both := not_not.mp other
      have next : s.ack = c.sndUna + 1 := by
        by_contra away
        exact answers ⟨WebTcpSending.synAck_ack both, away⟩
      have start := peer.syn dialling both next
      obtain ⟨nothing, more⟩ := receiving.dialling dialling
      intro _
      apply Receiving.congr _ (pump_ear now known)
      constructor
      · intro _
        show s.seq + 1 = serial (c.past.irs + 1) (c.past.stored.length + if c.peerFin then 1 else 0)
        simp [start, nothing, more, serial]
      · exact receiving.begins
      · exact receiving.ended
      · exact fun _ => receiving.unread (by rw [dialling]; decide)
      · exact fun closed => absurd closed (show TcpState.established ≠ .finWait by decide)
      · exact fun synSent => absurd synSent (show TcpState.established ≠ .synSent by decide)

theorem onSegment_attentive {s : Segment} (attentive : Attentive c) (used : c.state ≠ .free)
    (peer : s.flags &&& flagRst = 0 → FromPeer c s) (now : UInt64) (known : Bool) :
    Attentive (onSegment c s now known) := by
  have heard : Receiving (hear c s) := (attentive used).congr (hear_ear s)
  have una : (hear c s).sndUna = c.sndUna := by
    simp only [hear]
    split <;> rfl
  simp only [onSegment]
  split
  · exact onRst_attentive fun _ => heard
  · rename_i noReset
    have stillPeer := (peer (not_not.mp noReset)).congr (hear_ear s) fun _ => una
    split
    · rename_i dialling
      exact onSynSent_attentive heard ((ear_state (hear_ear s)).trans dialling) stillPeer now known
    · rename_i dialled
      rw [← ear_state (hear_ear s)] at dialled
      exact onSynchronized_attentive heard dialled stillPeer now known

theorem openConn_attentive (rip : PrefixRoutes.Ip4) (rport lport : UInt16) (peer : Past)
    (quiet : peer.stored = [])
    (unread : peer.got = []) (now : UInt64) (known : Bool) :
    Attentive (openConn rip rport lport peer now known) := by
  simp only [openConn]
  intro _
  apply Receiving.congr _ (noteSent_ear known now)
  constructor
  · exact fun dialled => absurd rfl dialled
  · show peer.stored <+: peer.stream
    rw [quiet]
    exact List.nil_prefix
  · exact fun fin => absurd fin Bool.false_ne_true
  · intro _
    show peer.stored = peer.got ++ emptyRing.contents
    rw [quiet, unread]
    rfl
  · exact fun closed => absurd closed (show TcpState.synSent ≠ .finWait by decide)
  · exact fun _ => ⟨quiet, rfl⟩

theorem send_attentive (attentive : Attentive c) (data : Bytes) (now : UInt64) (known : Bool) :
    Attentive (send c data now known).1 := by
  simp only [send]
  split
  · exact attentive
  · intro used
    rw [ear_state (pump_ear now known)] at used
    have receiving := attentive used
    exact (receiving.congr rfl).congr (pump_ear now known)

theorem takeOut_contents (n : Nat) : (takeOut c n).rx.contents = c.rx.contents.drop n := by
  simp only [takeOut]
  split
  · rename_i empty
    rw [Fifo.clear_contents, ← c.rx.discard_contents, (c.rx.discard n).contents_nil empty]
  · exact c.rx.discard_contents n

theorem takeOut_receiving (receiving : Receiving c) {n : Nat} (enough : n ≤ c.rx.count)
    (some_data : c.rx.count ≠ 0) :
    Receiving (takeOut c n) := by
  have open_ : c.state ≠ .finWait := fun closed => some_data (receiving.dropped closed).1
  obtain ⟨next, begins, ended, unread, -, dialling⟩ := receiving
  constructor
  · exact next
  · exact begins
  · exact ended
  · intro _
    show c.past.stored = c.past.got ++ c.rx.copyOut n ++ (takeOut c n).rx.contents
    rw [takeOut_contents, c.rx.copyOut_contents n enough, List.append_assoc, List.take_append_drop]
    exact unread open_
  · exact fun closed => absurd closed open_
  · exact dialling

theorem recv_attentive (attentive : Attentive c) (n : Nat) : Attentive (recv c n).1 := by
  simp only [recv]
  split
  · exact attentive
  · rename_i some_data
    have read : Attentive (takeOut c (min n c.rx.count)) :=
      fun used => takeOut_receiving (attentive used) (Nat.min_le_right _ _) some_data
    split
    · exact read.congr rfl
    · exact read

theorem close_attentive (attentive : Attentive c) (now later : UInt64) (known : Bool) :
    Attentive (close c now later known) := by
  simp only [close]
  split
  · exact attentive
  · rename_i used
    split
    · exact freeConn_attentive
    · split
      · exact freeConn_attentive
      · rename_i dialled
        have receiving := attentive used
        intro _
        apply Receiving.congr _ (pump_ear later known)
        constructor
        · exact fun _ => receiving.next dialled
        · exact receiving.begins
        · exact receiving.ended
        · exact fun open_ => absurd rfl open_
        · intro _
          refine ⟨rfl, ?_⟩
          show c.past.got <+: c.past.stored
          by_cases closed : c.state = .finWait
          · exact (receiving.dropped closed).2
          · rw [receiving.unread closed]
            exact List.prefix_append _ _
        · exact fun synSent => absurd synSent (show TcpState.finWait ≠ .synSent by decide)

end Steps
end R2Apps.WebTcpReceiving
