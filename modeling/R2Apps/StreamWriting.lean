import R2Apps.SerialNumbers
import R2Apps.StreamSockets

/-! `Write` of `r2net/tcp.go`: it returns with no error only when the peer has acknowledged all of the
buffer, and what it sends in new segments is the buffer in order, one segment at a time. The invariant
counts sequence numbers from the end of the handshake on, without wrapping. -/
namespace R2Apps.StreamWriting
open SerialNumbers StreamReceive StreamSockets

/-- What is in flight: `extra` is the SYN or the FIN behind the data. -/
structure InFlight (c : Conn) (stream : List Bytes) (acked : Nat) (base : UInt32) (extra : Nat) : Prop where
  snd : c.snd = serial base (stream.flatten.length + extra)
  sndUna : c.sndUna = serial base acked
  reached : acked ≤ stream.flatten.length + extra
  /-- All but the last segment have been acknowledged. -/
  oneLeft : stream.dropLast.flatten.length ≤ acked
  lastShort : ∀ d ∈ stream.getLast?, d.length ≤ maxSendMSS
  control : extra ≤ 1

/-- What is outstanding while data can be sent. -/
structure Open (c : Conn) (stream : List Bytes) (acked : Nat) : Prop where
  clear : c.pending = none → c.pendFlags = 0 ∧ acked = stream.flatten.length
  held : ∀ d, c.pending = some d → c.pendFlags = flagACK ||| flagPSH ∧
    c.pendSeq + UInt32.ofNat d.length = c.snd

structure Sending (s : System) : Prop where
  flight : ∃ base extra, InFlight s.conn s.stream s.acked base extra ∧
    (s.conn.state = .established ∨ s.conn.state = .closeWait → extra = 0)
  handshake : s.conn.state = .synSent → s.stream = [] ∧ s.acked = 0 ∧ s.conn.pending = none
  open_ : s.conn.state = .established ∨ s.conn.state = .closeWait → Open s.conn s.stream s.acked
  sized : ∀ d ∈ s.stream, d ≠ [] ∧ d.length ≤ s.sock.limit

/-! ## Acknowledgements -/

section Acks
variable {c : Conn} {stream : List Bytes} {acked extra : Nat} {base : UInt32}

theorem serial_of (base ack : UInt32) (n : Nat) : ∃ u < 2 ^ 32, ack = serial base (n + u) := by
  refine ⟨(ack - serial base n).toNat, UInt32.toNat_lt _, ?_⟩
  rw [serial_add, UInt32.ofNat_toNat]
  grind

theorem seqLess_serial (base : UInt32) (x y : Nat) :
    seqLess (serial base x) (serial base y) =
      decide (2 ^ 31 ≤ (x % 2 ^ 32 + 2 ^ 32 - y % 2 ^ 32) % 2 ^ 32) := by
  have zero : Int32.toInt 0 = 0 := rfl
  simp only [seqLess, Int32.lt_iff_toInt_lt, toInt_toInt32, toNat_distance, zero, decide_eq_decide]
  split <;> omega

theorem total_split (stream : List Bytes) :
    stream.flatten.length = stream.dropLast.flatten.length + (stream.getLast?.getD []).length := by
  rcases List.eq_nil_or_concat stream with rfl | ⟨rest, d, rfl⟩
  · rfl
  · simp

theorem flight_short (f : InFlight c stream acked base extra) :
    stream.flatten.length + extra ≤ acked + 1025 := by
  have split := total_split stream
  have left := f.oneLeft
  have control := f.control
  have short : (stream.getLast?.getD []).length ≤ 1024 := by
    cases last : stream.getLast? with
    | none => exact Nat.zero_le _
    | some d => exact f.lastShort d last
  omega

theorem ack_moves (f : InFlight c stream acked base extra) (ack : UInt32) :
    ∃ acked', acked ≤ acked' ∧ acked' ≤ stream.flatten.length + extra ∧
      (if advances c ack then ack else c.sndUna) = serial base acked' ∧
      (seqLess c.snd ack = false → seqLess ack c.snd = false → acked' = stream.flatten.length + extra) := by
  have short := flight_short f
  have reached := f.reached
  obtain ⟨u, small, rfl⟩ := serial_of base ack acked
  unfold advances
  rw [f.snd, f.sndUna]
  simp only [seqLess_serial]
  generalize stream.flatten.length + extra = total at short reached ⊢
  split
  · next moved =>
    simp only [Bool.and_eq_true, Bool.not_eq_true', decide_eq_true_eq, decide_eq_false_iff_not] at moved
    refine ⟨acked + u, by omega, by omega, rfl, ?_⟩
    simp only [decide_eq_false_iff_not]
    omega
  · next still =>
    simp only [Bool.and_eq_true, Bool.not_eq_true', decide_eq_true_eq, decide_eq_false_iff_not] at still
    refine ⟨acked, by omega, by omega, rfl, ?_⟩
    simp only [decide_eq_false_iff_not]
    omega

theorem clears_sent (o : Open c stream acked) {d : Bytes} (pending : c.pending = some d) {ack : UInt32}
    (cleared : clears c ack = true) : seqLess c.snd ack = false ∧ seqLess ack c.snd = false := by
  obtain ⟨flags, seq⟩ := o.held d pending
  have end_ : c.pendSeq + (UInt32.ofNat (c.pending.getD []).length +
      if c.pendFlags &&& (flagSYN ||| flagFIN) ≠ 0 then 1 else 0) = c.snd := by
    rw [pending, flags, ← seq]
    exact congrArg (c.pendSeq + ·) (UInt32.add_zero _)
  unfold clears at cleared
  rw [end_] at cleared
  simpa using cleared

theorem acknowledged_flight (f : InFlight c stream acked base extra) (flags : UInt8) (ack : UInt32) :
    ∃ acked', acked' = acked + ((acknowledged c flags ack).sndUna - c.sndUna).toNat ∧
      InFlight (acknowledged c flags ack) stream acked' base extra ∧
      (Open c stream acked → extra = 0 → Open (acknowledged c flags ack) stream acked') := by
  have short := flight_short f
  unfold acknowledged
  split
  · obtain ⟨acked', more, most, moved, done⟩ := ack_moves f ack
    have distance : acked' = acked + ((c.onAck ack).sndUna - c.sndUna).toNat := by
      rw [onAck_eq, f.sndUna]
      dsimp only
      rw [← f.sndUna, moved, f.sndUna, toNat_behind base more (by omega)]
      omega
    refine ⟨acked', distance, ⟨?_, ?_, most, f.oneLeft.trans more, f.lastShort, f.control⟩, ?_⟩
    · rw [onAck_eq]
      exact f.snd
    · rw [onAck_eq]
      exact moved
    · rintro o rfl
      have all : c.pending = none → acked' = stream.flatten.length := by
        intro nothing
        have reached := (o.clear nothing).2
        omega
      rw [onAck_eq]
      constructor
      · dsimp only
        cases cleared : clears c ack with
        | false => exact fun nothing => ⟨(o.clear nothing).1, all nothing⟩
        | true =>
            refine fun _ => ⟨rfl, ?_⟩
            cases pending : c.pending with
            | none => exact all pending
            | some d =>
                obtain ⟨notFuture, notPast⟩ := clears_sent o pending cleared
                exact done notFuture notPast
      · dsimp only
        cases cleared : clears c ack with
        | false => exact o.held
        | true => rintro d ⟨⟩
  · refine ⟨acked, ?_, f, fun o _ => o⟩
    rw [UInt32.sub_self]
    rfl

end Acks

/-! ## Steps -/

section Same
variable {c c' : Conn} {stream : List Bytes} {acked extra : Nat} {base : UInt32} (same : SameSending c c')

include same

theorem same_flight (f : InFlight c stream acked base extra) : InFlight c' stream acked base extra :=
  ⟨same.snd.trans f.snd, same.sndUna.trans f.sndUna, f.reached, f.oneLeft, f.lastShort, f.control⟩

theorem same_open (o : Open c stream acked) : Open c' stream acked := by
  constructor
  · rw [same.pending, same.pendFlags]
    exact o.clear
  · rw [same.pending, same.pendFlags, same.pendSeq, same.snd]
    exact o.held

end Same

theorem sending_shut {s t : System} (sending : Sending s)
    (shut : t.conn.state = .closed ∨ t.conn.state = .finWait)
    (snd : t.conn.snd = s.conn.snd) (sndUna : t.conn.sndUna = s.conn.sndUna) (stream : t.stream = s.stream)
    (acked : t.acked = s.acked)
    (mss : t.sock.peerMSS = s.sock.peerMSS ∨ s.stream = []) : Sending t := by
  obtain ⟨base, extra, f, -⟩ := sending.flight
  have notOpen : ¬ (t.conn.state = .established ∨ t.conn.state = .closeWait) := by
    rcases shut with shut | shut <;> simp [shut]
  refine ⟨⟨base, extra, ?_, fun open_ => absurd open_ notOpen⟩, ?_, fun open_ => absurd open_ notOpen, ?_⟩
  · rw [stream, acked]
    exact ⟨snd.trans f.snd, sndUna.trans f.sndUna, f.reached, f.oneLeft, f.lastShort, f.control⟩
  · intro waits
    rcases shut with shut | shut <;> simp [shut] at waits
  · rcases mss with mss | none_
    · rw [stream, Socket.limit, mss]
      exact sending.sized
    · rw [stream, none_]
      exact fun d member => absurd member List.not_mem_nil

theorem onTCP_mss {s : System} (sending : Sending s) (flags : UInt8) (seq ack : UInt32)
    (options data : Bytes) :
    (s.segment flags seq ack options data).sock.peerMSS = s.sock.peerMSS ∨ s.stream = [] := by
  by_cases waits : s.conn.state = .synSent
  · exact .inr (sending.handshake waits).1
  · exact .inl (if_neg fun both => waits both.1)

theorem received_sending {s : System} (sending : Sending s) {flags : UInt8} (kept : isReset flags = false)
    (dialled : s.conn.state ≠ .synSent) (notClosed : s.conn.state ≠ .closed) (seq ack : UInt32)
    (options data : Bytes) : Sending (s.segment flags seq ack options data) := by
  obtain ⟨base, extra, f, noExtra⟩ := sending.flight
  have r := onSegment_received (c := s.conn) seq ack data kept dialled notClosed
  have conn : (s.segment flags seq ack options data).conn = s.conn.onSegment flags seq ack data := rfl
  have state := r.state
  obtain ⟨acked', distance, f', o'⟩ := acknowledged_flight f flags ack
  have count : (s.segment flags seq ack options data).acked = acked' := by
    refine (if_neg dialled).trans ?_
    rw [distance, ← r.same.sndUna]
    rfl
  have stream : (s.segment flags seq ack options data).stream = s.stream := rfl
  have stillOpen (open_ : (s.conn.onSegment flags seq ack data).state = .established ∨
      (s.conn.onSegment flags seq ack data).state = .closeWait) :
      s.conn.state = .established ∨ s.conn.state = .closeWait := by
    rw [state] at open_
    split at open_
    · simp at open_
    · split at open_
      · next half => exact .inl half.1
      · exact open_
  refine ⟨⟨base, extra, ?_, ?_⟩, ?_, ?_, ?_⟩
  · rw [count]
    exact same_flight r.same f'
  · rw [conn]
    exact fun open_ => noExtra (stillOpen open_)
  · rw [conn, state]
    intro waits
    split at waits
    · cases waits
    · split at waits
      · cases waits
      · exact absurd waits dialled
  · rw [conn, count, stream]
    intro open_
    have was := stillOpen open_
    exact same_open r.same (o' (sending.open_ was) (noExtra was))
  · rw [stream, Socket.limit]
    rcases onTCP_mss sending flags seq ack options data with mss | none_
    · rw [mss]
      exact sending.sized
    · rw [none_]
      exact fun d member => absurd member List.not_mem_nil

theorem segment_sending {s : System} (sending : Sending s) (flags : UInt8) (seq ack : UInt32)
    (options data : Bytes) : Sending (s.segment flags seq ack options data) := by
  have conn : (s.segment flags seq ack options data).conn = s.conn.onSegment flags seq ack data := rfl
  have stream : (s.segment flags seq ack options data).stream = s.stream := rfl
  have count : (s.segment flags seq ack options data).acked = if s.conn.state = .synSent then s.acked
      else s.acked + ((s.segment flags seq ack options data).conn.sndUna - s.conn.sndUna).toNat := rfl
  have zero (u : UInt32) : (u - u).toNat = 0 := by
    rw [UInt32.sub_self]
    rfl
  cases reset : isReset flags with
  | true =>
      obtain ⟨e, closed⟩ := onSegment_reset s.conn seq ack data reset
      rw [conn, closed, zero, Nat.add_zero, ite_self] at count
      refine sending_shut sending ?_ ?_ ?_ stream count (onTCP_mss sending flags seq ack options data)
      all_goals rw [conn, closed]
      exact .inl rfl
  | false =>
      cases state : s.conn.state with
      | closed =>
          have same := onSegment_closed seq ack data reset state
          rw [conn, same, zero, Nat.add_zero, ite_self] at count
          refine sending_shut sending ?_ ?_ ?_ stream count (onTCP_mss sending flags seq ack options data)
          all_goals rw [conn, same]
          exact .inl state
      | synSent =>
          obtain ⟨nothing, unacked, noData⟩ := sending.handshake state
          rw [if_pos state] at count
          rcases onSegment_synSent seq ack data reset state with still | ⟨all, open_⟩
          · obtain ⟨base, extra, f, noExtra⟩ := sending.flight
            refine ⟨⟨base, extra, ?_, ?_⟩, ?_, ?_, ?_⟩
            · rw [conn, still, stream, count]
              exact f
            · rw [conn, still]
              exact noExtra
            · rw [conn, still, stream, count]
              exact sending.handshake
            · rw [conn, still, stream, count]
              exact sending.open_
            · rw [stream, nothing]
              exact fun d member => absurd member List.not_mem_nil
          · refine ⟨⟨s.conn.snd, 0, ?_, fun _ => rfl⟩, ?_, ?_, ?_⟩
            · rw [conn, open_, stream, count, nothing, unacked, all]
              exact ⟨(UInt32.add_zero _).symm, (UInt32.add_zero _).symm, le_rfl, le_rfl,
                by simp, Nat.zero_le _⟩
            · rw [conn, open_]
              rintro ⟨⟩
            · rw [conn, open_, stream, count, nothing, unacked]
              exact fun _ => ⟨fun _ => ⟨rfl, rfl⟩, by rintro d ⟨⟩⟩
            · rw [stream, nothing]
              exact fun d member => absurd member List.not_mem_nil
      | established =>
        exact received_sending sending reset (by simp [state]) (by simp [state]) seq ack options data
      | closeWait =>
        exact received_sending sending reset (by simp [state]) (by simp [state]) seq ack options data
      | finWait =>
        exact received_sending sending reset (by simp [state]) (by simp [state]) seq ack options data

theorem tick_sending {s : System} (sending : Sending s) (now : UInt64) : Sending (s.step (.tick now)) := by
  simp only [System.step, Socket.tick]
  split
  · exact ⟨sending.flight, sending.handshake, sending.open_, sending.sized⟩
  · split
    · exact ⟨sending.flight, sending.handshake, sending.open_, sending.sized⟩
    · split
      · exact sending_shut sending (.inl rfl) rfl rfl rfl rfl (.inl rfl)
      · exact ⟨sending.flight, sending.handshake, sending.open_, sending.sized⟩

/-! ## The caller -/

/-- How far a `Write` has come. -/
structure Progress (s : System) (w : Writer) : Prop where
  inside : w.sent ≤ w.b.length
  mark : w.mark ≤ s.stream.length
  fresh : (s.stream.drop w.mark).flatten = w.b.take w.sent
  snd : s.conn.snd = w.entry + UInt32.ofNat w.sent

/-- All that was sent is acknowledged, and `Write` has sent its buffer. -/
structure Finished (s : System) (w : Writer) : Prop where
  all : w.sent = w.b.length
  sndUna : s.conn.sndUna = s.conn.snd
  acked : s.acked = s.stream.flatten.length

inductive Caller (s : System) : Phase → Prop where
  | idle : Caller s .idle
  | closing : Caller s .closing
  | writing {w : Writer} : Progress s w → (w.last = false → w.sent < w.b.length) →
      (w.last = true → w.sent = w.b.length) → Caller s (.writing w)
  | returned {w : Writer} {err : Option WriteError} : Progress s w → (err = none → Finished s w) →
      Caller s (.returned w err)

theorem atTop_caller {s : System} {w : Writer} (progress : Progress s w) : Caller s (atTop s.conn w) := by
  have inside := progress.inside
  unfold atTop
  split
  · next more =>
    split
    · exact .returned progress (by rintro ⟨⟩)
    · exact .writing ⟨progress.inside, progress.mark, progress.fresh, progress.snd⟩ (fun _ => more)
        (by rintro ⟨⟩)
  · next done =>
    exact .writing ⟨progress.inside, progress.mark, progress.fresh, progress.snd⟩ (by rintro ⟨⟩)
      (fun _ => by dsimp only; omega)

theorem caller_kept {s t : System} {phase : Phase} (caller : Caller s phase) (stream : t.stream = s.stream)
    (snd : t.conn.snd = s.conn.snd)
    (acked : s.conn.sndUna = s.conn.snd → t.conn.sndUna = s.conn.sndUna ∧ t.acked = s.acked) :
    Caller t phase := by
  have kept {w : Writer} (p : Progress s w) : Progress t w :=
    ⟨p.inside, stream ▸ p.mark, stream ▸ p.fresh, snd.trans p.snd⟩
  cases caller with
  | idle => exact .idle
  | closing => exact .closing
  | writing progress more all => exact .writing (kept progress) more all
  | returned progress done =>
      refine .returned (kept progress) fun ok => ?_
      have finished := done ok
      obtain ⟨same, count⟩ := acked finished.sndUna
      exact ⟨finished.all, by rw [same, snd, finished.sndUna], by rw [count, stream, finished.acked]⟩

theorem acknowledged_nothing {c : Conn} (all : c.sndUna = c.snd) (flags : UInt8) (ack : UInt32) :
    (acknowledged c flags ack).sndUna = c.sndUna := by
  unfold acknowledged
  split
  · rw [onAck_eq]
    have still : advances c ack = false := by
      unfold advances
      rw [all]
      cases seqLess c.snd ack <;> rfl
    simp [still]
  · rfl

theorem segment_fields (s : System) (flags : UInt8) (seq ack : UInt32) (options data : Bytes) :
    (s.segment flags seq ack options data).conn.snd = s.conn.snd ∧
      (s.conn.sndUna = s.conn.snd → (s.segment flags seq ack options data).conn.sndUna = s.conn.sndUna) := by
  have conn : (s.segment flags seq ack options data).conn = s.conn.onSegment flags seq ack data := rfl
  rw [conn]
  cases reset : isReset flags with
  | true =>
      obtain ⟨e, closed⟩ := onSegment_reset s.conn seq ack data reset
      rw [closed]
      exact ⟨rfl, fun _ => rfl⟩
  | false =>
      have received (dialled : s.conn.state ≠ .synSent) (open_ : s.conn.state ≠ .closed) :
          (s.conn.onSegment flags seq ack data).snd = s.conn.snd ∧
            (s.conn.sndUna = s.conn.snd → (s.conn.onSegment flags seq ack data).sndUna = s.conn.sndUna) := by
        have same := (onSegment_received (c := s.conn) seq ack data reset dialled open_).same
        have snd : (acknowledged s.conn flags ack).snd = s.conn.snd := by
          unfold acknowledged
          split
          · rw [onAck_eq]
          · rfl
        exact ⟨same.snd.trans snd, fun all => same.sndUna.trans (acknowledged_nothing all flags ack)⟩
      cases state : s.conn.state with
      | closed =>
          rw [onSegment_closed seq ack data reset state]
          exact ⟨rfl, fun _ => rfl⟩
      | synSent =>
          rcases onSegment_synSent seq ack data reset state with still | ⟨all, open_⟩
          · rw [still]
            exact ⟨rfl, fun _ => rfl⟩
          · rw [open_]
            exact ⟨rfl, fun same => all.trans same.symm⟩
      | established => exact received (by simp [state]) (by simp [state])
      | closeWait => exact received (by simp [state]) (by simp [state])
      | finWait => exact received (by simp [state]) (by simp [state])

theorem segment_caller {s : System} (caller : Caller s s.phase) (flags : UInt8) (seq ack : UInt32)
    (options data : Bytes) : Caller (s.segment flags seq ack options data) s.phase := by
  obtain ⟨snd, still⟩ := segment_fields s flags seq ack options data
  refine caller_kept caller rfl snd fun all => ⟨still all, ?_⟩
  have count : (s.segment flags seq ack options data).acked = if s.conn.state = .synSent then s.acked
      else s.acked + ((s.segment flags seq ack options data).conn.sndUna - s.conn.sndUna).toNat := rfl
  have zero : (s.conn.sndUna - s.conn.sndUna).toNat = 0 := by
    rw [UInt32.sub_self]
    rfl
  rw [count, still all, zero, Nat.add_zero, ite_self]

/-! ## One turn of `Write` -/

theorem usable_open {c : Conn} (fine : usable c = none) : c.state = .established ∨ c.state = .closeWait := by
  unfold usable at fine
  split at fine
  · cases fine
  · split at fine
    · assumption
    · cases fine

theorem limit_pos (s : Socket) : 0 < s.limit ∧ s.limit ≤ maxSendMSS := by
  unfold Socket.limit maxSendMSS defaultPeerMSS
  split <;> omega

theorem transmit_data (s : Socket) {data : Bytes} (some_ : data ≠ []) (short : data.length ≤ maxSendMSS)
    (now : UInt64) :
    s.transmit (flagACK ||| flagPSH) (some data) now true =
      ({ s with
          conn := { s.conn with
            snd := s.conn.snd + UInt32.ofNat data.length
            pending := some data
            pendFlags := flagACK ||| flagPSH
            pendSeq := s.conn.snd }
          sentAt := now
          retries := 0
          rto := initialRTO }, true) := by
  have positive := List.length_pos_iff.mpr some_
  unfold maxSendMSS at short
  have used : UInt32.ofNat ((some data).getD []).length +
      (if (flagACK ||| flagPSH) &&& (flagSYN ||| flagFIN) ≠ 0 then 1 else 0) = UInt32.ofNat data.length :=
    UInt32.add_zero _
  have nonzero : ¬ UInt32.ofNat data.length = 0 := by
    intro zero
    have none_ := congrArg UInt32.toNat zero
    rw [UInt32.toNat_ofNat'] at none_
    change data.length % 2 ^ 32 = 0 at none_
    omega
  unfold Socket.transmit
  rw [if_pos rfl, used]
  dsimp only
  rw [if_neg nonzero]

/-- The system behind a new segment of `Write`. -/
def sentNext (s : System) (w : Writer) (now : UInt64) (data : Bytes) : System :=
  let sock := (s.sock.transmit (flagACK ||| flagPSH) (some data) now true).1
  { s with
    sock := sock
    stream := s.stream ++ [data]
    phase := atTop sock.conn { w with sent := w.sent + data.length } }

section Next
variable {s : System} {w : Writer} {data : Bytes} (some_ : data ≠ []) (short : data.length ≤ s.sock.limit)

include some_ short

theorem next_sending (sending : Sending s) (open_ : s.conn.state = .established ∨ s.conn.state = .closeWait)
    (nothing : s.conn.pending = none) (now : UInt64) : Sending (sentNext s w now data) := by
  obtain ⟨base, extra, f, noExtra⟩ := sending.flight
  obtain rfl := noExtra open_
  have small := short.trans (limit_pos s.sock).2
  have clear := (sending.open_ open_).clear nothing
  have conn : (sentNext s w now data).conn = { s.conn with
      snd := s.conn.snd + UInt32.ofNat data.length, pending := some data, pendFlags := flagACK ||| flagPSH
      pendSeq := s.conn.snd } := by
    simp only [sentNext, System.conn, transmit_data s.sock some_ small]
  have mss : (sentNext s w now data).sock.limit = s.sock.limit := by
    simp only [sentNext, Socket.limit, transmit_data s.sock some_ small]
  have stream : (sentNext s w now data).stream = s.stream ++ [data] := rfl
  have total : (s.stream ++ [data]).flatten.length = s.stream.flatten.length + data.length := by simp
  refine ⟨⟨base, 0, ⟨?_, ?_, ?_, ?_, ?_, Nat.zero_le _⟩, fun _ => rfl⟩, ?_, ?_, ?_⟩
  · rw [conn, stream, total]
    dsimp only
    rw [f.snd, Nat.add_zero, Nat.add_zero, serial_add]
  · rw [conn]
    exact f.sndUna
  · have reached := f.reached
    change s.acked ≤ _
    rw [stream, total]
    omega
  · rw [stream, List.dropLast_concat]
    exact clear.2.ge
  · rw [stream, List.getLast?_concat]
    rintro d ⟨⟩
    exact small
  · rw [conn]
    intro waits
    rcases open_ with open_ | open_ <;> simp [open_] at waits
  · intro _
    rw [conn]
    refine ⟨by rintro ⟨⟩, ?_⟩
    rintro d ⟨⟩
    exact ⟨rfl, rfl⟩
  · rw [stream, mss]
    intro d member
    rcases List.mem_append.mp member with old | new
    · exact sending.sized d old
    · obtain rfl := List.mem_singleton.mp new
      exact ⟨some_, short⟩

theorem next_progress (progress : Progress s w) (cut : data = (w.b.drop w.sent).take data.length)
    (now : UInt64) : Progress (sentNext s w now data) { w with sent := w.sent + data.length } := by
  have small := short.trans (limit_pos s.sock).2
  have size : data.length ≤ w.b.length - w.sent := by
    have cutSize := congrArg List.length cut
    rw [List.length_take, List.length_drop] at cutSize
    omega
  have inside := progress.inside
  have stream : (sentNext s w now data).stream = s.stream ++ [data] := rfl
  refine ⟨by dsimp only; omega, ?_, ?_, ?_⟩
  · rw [stream, List.length_append]
    exact Nat.le_add_right_of_le progress.mark
  · rw [stream, List.drop_append_of_le_length progress.mark, List.flatten_append, progress.fresh]
    dsimp only
    rw [List.take_add, ← cut]
    simp
  · simp only [sentNext, System.conn, transmit_data s.sock some_ small]
    change s.conn.snd + _ = _
    rw [progress.snd, UInt32.ofNat_add, UInt32.add_assoc]

end Next

theorem next_piece {s : System} {w : Writer} (more : w.sent < w.b.length) :
    let data := (w.b.drop w.sent).take (min (w.b.length - w.sent) s.sock.limit)
    data ≠ [] ∧ data.length ≤ s.sock.limit ∧ data.length = min (w.b.length - w.sent) s.sock.limit := by
  have positive := (limit_pos s.sock).1
  have size : ((w.b.drop w.sent).take (min (w.b.length - w.sent) s.sock.limit)).length =
      min (w.b.length - w.sent) s.sock.limit := by
    rw [List.length_take, List.length_drop]
    omega
  refine ⟨?_, by omega, size⟩
  intro nothing
  rw [nothing, List.length_nil] at size
  omega

theorem turn_next {s : System} {w : Writer} (ends : s.conn.pending = none ∨ s.conn.state = .closed)
    (fine : usable s.conn = none) (notLast : w.last = false) (more : w.sent < w.b.length) (now : UInt64) :
    s.turn w now true =
      sentNext s w now ((w.b.drop w.sent).take (min (w.b.length - w.sent) s.sock.limit)) := by
  obtain ⟨some_, short, size⟩ := next_piece (s := s) more
  unfold System.turn sentNext
  rw [if_pos ends, fine, notLast]
  dsimp only
  rw [if_neg Bool.false_ne_true, transmit_data s.sock some_ (short.trans (limit_pos s.sock).2) now, size]

theorem turn_good {s : System} {w : Writer} (sending : Sending s) (caller : Caller s (.writing w))
    (here : s.phase = .writing w) (now : UInt64) (sends : Bool) :
    Sending (s.turn w now sends) ∧ Caller (s.turn w now sends) (s.turn w now sends).phase := by
  have whole := caller
  have same (phase : Phase) : Sending { s with phase := phase } :=
    ⟨sending.flight, sending.handshake, sending.open_, sending.sized⟩
  cases caller with
  | writing progress more all =>
      have kept (phase : Phase) : Progress { s with phase := phase } w :=
        ⟨progress.inside, progress.mark, progress.fresh, progress.snd⟩
      by_cases ends : s.conn.pending = none ∨ s.conn.state = .closed
      · cases refused : usable s.conn with
        | some e =>
            simp only [System.turn, if_pos ends, refused]
            exact ⟨same _, .returned (kept _) (by rintro ⟨⟩)⟩
        | none =>
            have open_ := usable_open refused
            have nothing : s.conn.pending = none := by
              refine ends.resolve_right fun closed => ?_
              rcases open_ with open_ | open_ <;> simp [closed] at open_
            have clear := (sending.open_ open_).clear nothing
            cases last : w.last with
            | true =>
                -- the last wait is over and nothing is outstanding
                simp only [System.turn, if_pos ends, refused, last, if_true]
                obtain ⟨base, extra, f, noExtra⟩ := sending.flight
                obtain rfl := noExtra open_
                refine ⟨same _, .returned (kept _) fun _ => ⟨all last, ?_, clear.2⟩⟩
                change s.conn.sndUna = s.conn.snd
                rw [f.snd, f.sndUna, clear.2, Nat.add_zero]
            | false =>
                obtain ⟨some_, short, size⟩ := next_piece (s := s) (more last)
                cases sends with
                | false =>
                    simp only [System.turn, if_pos ends, refused, last, Bool.false_eq_true, if_false,
                      Socket.transmit]
                    exact ⟨same _, .returned (kept _) (by rintro ⟨⟩)⟩
                | true =>
                    rw [turn_next ends refused last (more last)]
                    refine ⟨next_sending some_ short sending open_ nothing now, atTop_caller ?_⟩
                    exact next_progress some_ short progress (congrArg (List.take · _) size.symm) now
      · simp only [System.turn, if_neg ends]
        rw [here]
        exact ⟨sending, whole⟩

theorem close_sending {s : System} (sending : Sending s) (now : UInt64) (sends : Bool) (phase : Phase) :
    Sending { s with sock := (s.sock.close now sends).1, phase := phase } := by
  obtain ⟨mss, ⟨conn, -⟩ | ⟨open_, -, conn⟩⟩ := close_cases s.sock now sends
  · refine sending_shut sending ?_ ?_ ?_ rfl rfl (.inl mss)
    all_goals dsimp only [System.conn]
    all_goals rw [conn]
    exact .inl rfl
  · obtain ⟨base, extra, f, noExtra⟩ := sending.flight
    obtain rfl := noExtra open_
    have reached := f.reached
    refine ⟨⟨base, 1, ⟨?_, ?_, ?_, f.oneLeft, f.lastShort, le_rfl⟩, ?_⟩, ?_, ?_, ?_⟩
    all_goals dsimp only [System.conn, Socket.limit]
    · rw [conn, serial_succ]
      exact congrArg (· + 1) f.snd
    · rw [conn]
      exact f.sndUna
    · omega
    · rw [conn]
      rintro (waits | waits) <;> cases waits
    · rw [conn]
      rintro ⟨⟩
    · rw [conn]
      rintro (waits | waits) <;> cases waits
    · rw [mss]
      exact sending.sized

theorem drop_sending {s : System} (sending : Sending s) (phase : Phase) :
    Sending { s with sock := s.sock.drop, phase := phase } :=
  sending_shut sending (.inl rfl) rfl rfl rfl rfl (.inl rfl)

theorem step_good {s : System} (sending : Sending s) (caller : Caller s s.phase) (e : Event) :
    Sending (s.step e) ∧ Caller (s.step e) (s.step e).phase := by
  have same (phase : Phase) : Sending { s with phase := phase } :=
    ⟨sending.flight, sending.handshake, sending.open_, sending.sized⟩
  cases e with
  | segment flags seq ack options data =>
      exact ⟨segment_sending sending flags seq ack options data,
        segment_caller caller flags seq ack options data⟩
  | tick now =>
      refine ⟨tick_sending sending now, ?_⟩
      have fields : (s.sock.tick now).conn.snd = s.conn.snd ∧
          (s.sock.tick now).conn.sndUna = s.conn.sndUna := by
        unfold Socket.tick
        repeat' split
        all_goals exact ⟨rfl, rfl⟩
      exact caller_kept caller rfl fields.1 fun _ => ⟨fields.2, rfl⟩
  | write b =>
      simp only [System.step]
      split
      · exact ⟨sending, caller⟩
      · refine ⟨same _, atTop_caller ⟨Nat.zero_le _, le_rfl, ?_, (UInt32.add_zero _).symm⟩⟩
        simp
  | turn now sends =>
      simp only [System.step]
      split
      · next w here => exact turn_good sending (here ▸ caller) here now sends
      · exact ⟨sending, caller⟩
  | giveUp =>
      simp only [System.step]
      split
      · next w here =>
        rw [here] at caller
        cases caller with
        | writing progress =>
            exact ⟨same _, .returned ⟨progress.inside, progress.mark, progress.fresh, progress.snd⟩
              (by rintro ⟨⟩)⟩
      · exact ⟨sending, caller⟩
  | read size =>
      simp only [System.step]
      split
      · exact ⟨sending, caller⟩
      · have kept : SameSending s.conn (s.conn.read size).1 := ⟨rfl, rfl, rfl, rfl, rfl, rfl⟩
        obtain ⟨base, extra, f, noExtra⟩ := sending.flight
        exact ⟨⟨⟨base, extra, same_flight kept f, noExtra⟩, sending.handshake,
          fun open_ => same_open kept (sending.open_ open_), sending.sized⟩,
          caller_kept caller rfl rfl fun _ => ⟨rfl, rfl⟩⟩
  | close now sends =>
      simp only [System.step]
      split
      · exact ⟨sending, caller⟩
      · refine ⟨close_sending sending now sends _, ?_⟩
        dsimp only
        split
        · exact .closing
        · exact .idle
  | drop =>
      simp only [System.step]
      split
      · exact ⟨drop_sending sending _, .idle⟩
      · exact ⟨sending, caller⟩

theorem run_good (events : List Event) : ∀ {s : System}, Sending s → Caller s s.phase →
    Sending (s.run events) ∧ Caller (s.run events) (s.run events).phase := by
  induction events with
  | nil => exact fun sending caller => ⟨sending, caller⟩
  | cons e rest ih =>
      intro s sending caller
      obtain ⟨sending, caller⟩ := step_good sending caller e
      exact ih sending caller

theorem dialled_sending (isn : UInt32) (now : UInt64) : Sending (dialled isn now) := by
  refine ⟨⟨isn, 1, ⟨?_, ?_, Nat.zero_le _, le_rfl, ?_, le_rfl⟩, ?_⟩, fun _ => ⟨rfl, rfl, rfl⟩, ?_, ?_⟩
  · rfl
  · exact (UInt32.add_zero _).symm
  · rintro d ⟨⟩
  · rintro (open_ | open_) <;> cases open_
  · rintro (open_ | open_) <;> cases open_
  · exact fun d member => absurd member List.not_mem_nil

/-- In every run: `sndUna` does not pass `snd`; at most one segment of data is not acknowledged, and
none is longer than it may be; what a `Write` has sent in new segments is what it says of its buffer;
and when it returns with no error that is all of it, and the peer has acknowledged it. -/
theorem write_acknowledged (isn : UInt32) (now : UInt64) (events : List Event) :
    let s := (dialled isn now).run events
    seqLess s.conn.snd s.conn.sndUna = false ∧
    s.stream.dropLast.flatten.length ≤ s.acked ∧
    (∀ d ∈ s.stream, d.length ≤ min (if s.sock.peerMSS = 0 then 536 else s.sock.peerMSS) 1024) ∧
    (∀ w, (s.phase = .writing w ∨ ∃ err, s.phase = .returned w err) →
      (s.stream.drop w.mark).flatten = w.b.take w.sent ∧ s.conn.snd = w.entry + UInt32.ofNat w.sent) ∧
    (∀ w, s.phase = .returned w none → w.sent = w.b.length ∧
      s.conn.sndUna = w.entry + UInt32.ofNat w.b.length ∧
      s.acked = (s.stream.take w.mark).flatten.length + w.b.length) := by
  obtain ⟨sending, caller⟩ := run_good events (dialled_sending isn now) .idle
  dsimp only
  generalize (dialled isn now).run events = s at sending caller
  obtain ⟨base, extra, f, -⟩ := sending.flight
  refine ⟨?_, f.oneLeft, fun d member => (sending.sized d member).2, ?_, ?_⟩
  · have short := flight_short f
    have reached := f.reached
    rw [f.snd, f.sndUna, seqLess_serial, decide_eq_false_iff_not]
    omega
  · rintro w (here | ⟨err, here⟩)
    · rw [here] at caller
      cases caller with
      | writing progress => exact ⟨progress.fresh, progress.snd⟩
    · rw [here] at caller
      cases caller with
      | returned progress => exact ⟨progress.fresh, progress.snd⟩
  · intro w here
    rw [here] at caller
    cases caller with
    | returned progress done =>
        have finished := done rfl
        have fresh := congrArg List.length progress.fresh
        rw [finished.all, List.take_length] at fresh
        refine ⟨finished.all, ?_, ?_⟩
        · rw [finished.sndUna, progress.snd, finished.all]
        · rw [finished.acked, ← fresh, ← List.length_append, ← List.flatten_append, List.take_append_drop]

/-- Three bytes against a peer that takes one byte a segment, and asks twice for the second. -/
example : (((dialled 7 0).run [.segment (flagSYN ||| flagACK) 9 8 [2, 4, 0, 1] [], .write [1, 2, 3],
    .turn 0 true,
    .segment flagACK 10 9 [] [], .turn 1 true, .segment flagACK 10 9 [] [], .segment flagACK 10 10 [] [],
    .turn 2 true, .segment flagACK 10 11 [] [], .turn 3 true]).stream) = [[1], [2], [3]] := by decide

end R2Apps.StreamWriting
