import R2Apps.RntpBounds
import R2Apps.RntpTransport

/-! How `incoming` of `rntp/main.c` cuts the peer's bytes into messages, however they arrive. -/
namespace R2Apps.RntpFraming
open ByteMemory BlockImages BufferPrefixes RntpProtocol RntpBounds TcpSockets TcpHistory RntpServing
open RntpTransport (bare_unseen)

/-- A header and as many bytes as it says. -/
def Frame (bytes : List UInt8) : Prop :=
  ∃ h, rntpDecode (received bytes fun _ => 0) = some h ∧ bytes.length = headerBytes + h.length

/-- What has been moved to the stream's own buffer. -/
def held (s : Server) (i : Nat) : List UInt8 := bytesAt (s.streams i).rx 0 (s.streams i).rxLen.toNat

/-- What is still in the socket's. -/
def unread (s : Server) (i : Nat) : List UInt8 := (s.net.sockets i).rx

section Messages
variable {bytes : List UInt8} {st : Stream}

theorem decode_congr {m m' : Memory} (same : PrefixEq headerBytes m m') : rntpDecode m = rntpDecode m' := by
  have byte : ∀ x, x < 40 → m x = m' x := same
  have number : ∀ address count, address + count ≤ 40 →
      rntpGetNumber m address count = rntpGetNumber m' address count :=
    fun address count inside => loadBE_congr m' m address address count fun i below => byte _ (by omega)
  unfold rntpDecode
  rw [byte 0 (by decide), byte 1 (by decide), byte 2 (by decide), byte 3 (by decide), byte 4 (by decide),
    byte 5 (by decide), number 12 4 (by decide), number 6 2 (by decide), number 8 4 (by decide),
    number 16 8 (by decide), number 24 8 (by decide), number 32 8 (by decide)]

theorem Frame.length (frame : Frame bytes) : headerBytes ≤ bytes.length ∧ bytes.length ≤ frameBytes := by
  obtain ⟨h, decoded, length⟩ := frame
  have fits := decoded_fits decoded
  rw [length]
  exact ⟨Nat.le_add_right _ _, Nat.add_le_add_left fits _⟩

theorem messageLength_part (frame : Frame bytes) (part : bytesAt st.rx 0 st.rxLen.toNat <+: bytes) :
    messageLength st = some (if st.rxLen ≥ UInt32.ofNat headerBytes then UInt32.ofNat bytes.length
      else UInt32.ofNat headerBytes) := by
  unfold messageLength
  split
  case isFalse => rfl
  case isTrue long =>
    have long : 40 ≤ st.rxLen.toNat := UInt32.le_iff_toNat_le.mp long
    obtain ⟨h, decoded, length⟩ := frame
    have same : PrefixEq headerBytes st.rx (received bytes fun _ => 0) := by
      intro x below
      have below : x < 40 := below
      have here : x < st.rxLen.toNat := by omega
      have read := bytesAt_getD st.rx 0 here
      obtain ⟨rest, whole⟩ := part
      have inside : x < bytes.length := by
        rw [← whole, List.length_append, bytesAt_length]
        omega
      rw [Nat.zero_add] at read
      rw [received_byte bytes _ inside, ← read, ← whole, List.getD_append _ _ _ _ (by rwa [bytesAt_length])]
    rw [decode_congr same, decoded, Option.map_some, length]

end Messages

section Taking
variable {kernel : Nat → Bool} {i : Nat} {bytes rest : List UInt8} {s : Server}

/-- A turn that goes on moves `take` bytes from the socket to the stream. -/
def took (kernel : Nat → Bool) (s : Server) (i take : Nat) (activity : UInt64) : Server :=
  let st := s.streams i
  let sock := s.net.sockets i
  let net := s.net.set i { sock with rx := sock.rx.drop take }
  ({ s with net := sendTcpPacket kernel net i 0 flagAck } : Server).setStream i { st with
    rx := put st.rx st.rxLen.toNat (sock.rx.take take)
    rxLen := st.rxLen + UInt32.ofNat take
    activity := activity }

theorem took_unread (kernel : Nat → Bool) (s : Server) (i take : Nat) (activity : UInt64) :
    unread (took kernel s i take activity) i = (unread s i).drop take := by
  unfold unread took
  dsimp only [Server.setStream]
  rw [bare_unseen, set_same]

theorem took_held (kernel : Nat → Bool) {take : Nat} (activity : UInt64) (enough : take ≤ (unread s i).length)
    (small : (s.streams i).rxLen.toNat + take ≤ frameBytes) :
    held (took kernel s i take activity) i = held s i ++ (unread s i).take take := by
  have few : (s.streams i).rxLen.toNat + take ≤ 16684 := small
  have count : ((s.streams i).rxLen + UInt32.ofNat take).toNat = (s.streams i).rxLen.toNat + take := by
    have whole : (UInt32.ofNat take).toNat = take :=
      UInt32.toNat_ofNat_of_lt' (Nat.lt_of_le_of_lt (show take ≤ 16684 by omega) (by decide))
    rw [UInt32.toNat_add, whole]
    omega
  have taken : ((unread s i).take take).length = take := by
    rw [List.length_take]
    omega
  unfold held took
  dsimp only [Server.setStream]
  rw [Function.update_self]
  dsimp only
  rw [count]
  have whole := bytesAt_put_end (s.streams i).rx ((unread s i).take take) (s.streams i).rxLen.toNat
  rw [taken] at whole
  exact whole

theorem held_length : (held s i).length = (s.streams i).rxLen.toNat := bytesAt_length _ _ _

theorem takeIncoming_spec (kernel : Nat → Bool) (t : Ticks) (frame : Frame bytes) (fuel : Nat) :
    ∀ s : Server, held s i <+: bytes → held s i ++ unread s i <+: bytes ++ rest → (unread s i).length < fuel →
      held (takeIncoming kernel t i fuel s).1 i ++ unread (takeIncoming kernel t i fuel s).1 i =
          held s i ++ unread s i ∧
        ((takeIncoming kernel t i fuel s).2 = .whole ∧ held (takeIncoming kernel t i fuel s).1 i = bytes ∨
          (takeIncoming kernel t i fuel s).2 = .partly ∧ unread (takeIncoming kernel t i fuel s).1 i = [] ∧
            held (takeIncoming kernel t i fuel s).1 i <+: bytes ∧
            held (takeIncoming kernel t i fuel s).1 i ≠ bytes) := by
  obtain ⟨header, fits⟩ := frame.length
  have header : 40 ≤ bytes.length := header
  have fits : bytes.length ≤ 16684 := fits
  have size : (UInt32.ofNat bytes.length).toNat = bytes.length :=
    UInt32.toNat_ofNat_of_lt' (Nat.lt_of_le_of_lt fits (by decide))
  induction fuel with
  | zero => exact fun s _ _ more => absurd more (Nat.not_lt_zero _)
  | succ fuel ih =>
      intro s part stream more
      have length := held_length (s := s) (i := i)
      have short := part.length_le
      unfold takeIncoming
      dsimp only
      rw [messageLength_part frame part]
      dsimp only
      generalize needed : (if (s.streams i).rxLen ≥ UInt32.ofNat headerBytes then UInt32.ofNat bytes.length
        else UInt32.ofNat headerBytes) = need
      -- the stream has less than it needs, or the whole message
      have needs : (s.streams i).rxLen.toNat ≤ need.toNat ∧ need.toNat ≤ bytes.length ∧
          (need.toNat = (s.streams i).rxLen.toNat ↔ held s i = bytes) := by
        have whole : held s i = bytes ↔ (s.streams i).rxLen.toNat = bytes.length := by
          rw [← length]
          exact ⟨fun same => by rw [same], fun same => part.eq_of_length same⟩
        rw [whole]
        by_cases long : (s.streams i).rxLen ≥ UInt32.ofNat headerBytes
        · rw [if_pos long] at needed
          rw [← needed, size]
          omega
        · rw [if_neg long] at needed
          have below : (s.streams i).rxLen.toNat < 40 :=
            Nat.lt_of_not_le fun at_ => long (UInt32.le_iff_toNat_le.mpr at_)
          have forty : need.toNat = 40 := by rw [← needed]; rfl
          omega
      obtain ⟨above, within, done⟩ := needs
      by_cases whole : (s.streams i).rxLen = need
      · rw [if_pos whole]
        exact ⟨rfl, .inl ⟨rfl, done.mp (by rw [whole])⟩⟩
      · rw [if_neg whole]
        have lacks : need.toNat ≠ (s.streams i).rxLen.toNat :=
          fun same => whole (UInt32.toNat_inj.mp same.symm)
        by_cases empty : (unread s i).isEmpty = true
        · have nothing : (s.net.sockets i).rx.isEmpty = true := empty
          rw [if_pos nothing]
          exact ⟨rfl, .inr ⟨rfl, List.isEmpty_iff.mp empty, part, fun same => lacks (done.mpr same)⟩⟩
        · have something : ¬(s.net.sockets i).rx.isEmpty = true := empty
          rw [if_neg something]
          have gap : (need - (s.streams i).rxLen).toNat = need.toNat - (s.streams i).rxLen.toNat :=
            UInt32.toNat_sub_of_le _ _ (UInt32.le_iff_toNat_le.mpr above)
          rw [gap]
          generalize amount : min (need.toNat - (s.streams i).rxLen.toNat) (s.net.sockets i).rx.length = take
          have has : 0 < (unread s i).length :=
            List.length_pos_iff.mpr fun none_ => empty (by rw [none_]; rfl)
          -- the turn moves a byte at least, and no more than the message lacks
          have bound : 0 < take ∧ take ≤ (unread s i).length ∧
              (s.streams i).rxLen.toNat + take ≤ bytes.length := by
            have same : (unread s i).length = (s.net.sockets i).rx.length := rfl
            omega
          have moved := took_held kernel (t.taken fuel) bound.2.1 (Nat.le_trans bound.2.2 fits)
          have left_ := took_unread kernel s i take (t.taken fuel)
          have same : held (took kernel s i take (t.taken fuel)) i ++
            unread (took kernel s i take (t.taken fuel)) i =
              held s i ++ unread s i := by
            rw [moved, left_, List.append_assoc, List.take_append_drop]
          have next := ih (took kernel s i take (t.taken fuel)) ?_ (same ▸ stream) ?_
          · rw [same] at next
            exact next
          · rw [moved]
            have front : held s i ++ (unread s i).take take <+: bytes ++ rest :=
              List.IsPrefix.trans ((List.prefix_append_right_inj _).mpr (List.take_prefix _ _)) stream
            apply List.prefix_of_prefix_length_le front (List.prefix_append bytes rest)
            rw [List.length_append, length, List.length_take]
            omega
          · rw [left_, List.length_drop]
            omega

end Taking

/-! The program reads: bytes arrive in pieces, and `incoming` is called whenever it likes.
`st->rx_len` is cleared
when a message has been used. -/
section Reading

inductive Reading where
  | arrive (bytes : List UInt8)
  | poll (t : Ticks)

/-- `idle` says that the last call found no whole message. -/
structure Reader where
  server : Server
  frames : List (List UInt8) := []
  failed : Bool := false
  idle : Bool := false

def arrived : List Reading → List UInt8
  | [] => []
  | .arrive bytes :: rest => bytes ++ arrived rest
  | .poll _ :: rest => arrived rest

def poll (kernel : Nat → Bool) (i : Nat) (r : Reader) (t : Ticks) : Reader :=
  match incoming kernel t r.server i with
  | (s, .malformed) => { r with server := s, failed := true }
  | (s, .partly) => { r with server := s, idle := true }
  | (s, .whole) =>
      { r with server := s.setStream i { s.streams i with rxLen := 0 }
               frames := r.frames ++ [held s i], idle := false }

def read (kernel : Nat → Bool) (i : Nat) (r : Reader) : Reading → Reader
  | .arrive bytes =>
      let sock := r.server.net.sockets i
      { r with server := { r.server with net := r.server.net.set i { sock with rx := sock.rx ++ bytes } }
               idle := false }
  | .poll t => poll kernel i r t

def readAll (kernel : Nat → Bool) (i : Nat) (r : Reader) (readings : List Reading) : Reader :=
  readings.foldl (read kernel i) r

variable {kernel : Nat → Bool} {i : Nat} {frames : List (List UInt8)} {so : List UInt8} {r : Reader}

/-- After `n` messages: what is held and unread follows them, and what is held is a part of the next. -/
structure Reads (i : Nat) (frames : List (List UInt8)) (so : List UInt8) (n : Nat) (r : Reader) : Prop where
  range : n ≤ frames.length
  returned : r.frames = frames.take n
  failed : r.failed = false
  bytes : r.frames.flatten ++ (held r.server i ++ unread r.server i) = so
  part : held r.server i <+: ((frames.drop n).head?).getD []
  idle : r.idle = true → unread r.server i = [] ∧ ∀ next ∈ (frames.drop n).head?, held r.server i ≠ next

theorem Reads.rest {n : Nat} (reads : Reads i frames so n r) (valid : so <+: frames.flatten) :
    held r.server i ++ unread r.server i <+: (frames.drop n).flatten := by
  have split_ : frames.flatten = (frames.take n).flatten ++ (frames.drop n).flatten := by
    rw [← List.flatten_append, List.take_append_drop]
  rw [split_, ← reads.bytes, reads.returned] at valid
  exact (List.prefix_append_right_inj _).mp valid

theorem poll_reads (kernel : Nat → Bool) {n : Nat} (all : ∀ f ∈ frames, Frame f)
    (reads : Reads i frames so n r)
    (valid : so <+: frames.flatten) (t : Ticks) : ∃ n, Reads i frames so n (poll kernel i r t) := by
  have rest := reads.rest valid
  have part := reads.part
  unfold poll incoming
  cases after : frames.drop n with
  | nil =>
      -- every message has been returned: nothing is held, and there is nothing to read
      rw [after] at rest part
      have none_ := List.append_eq_nil_iff.mp (List.prefix_nil.mp rest)
      have empty : (r.server.streams i).rxLen.toNat = 0 := by
        rw [← held_length, none_.1]
        rfl
      have zero : (r.server.streams i).rxLen = 0 := UInt32.toNat_inj.mp empty
      have header : messageLength (r.server.streams i) = some (UInt32.ofNat headerBytes) := by
        unfold messageLength
        rw [zero, if_neg (by decide)]
      have quiet : takeIncoming kernel t i ((r.server.net.sockets i).rx.length + 1) r.server =
          (r.server, .partly) := by
        have nothing : (r.server.net.sockets i).rx.isEmpty = true := List.isEmpty_iff.mpr none_.2
        unfold takeIncoming
        dsimp only
        rw [header]
        dsimp only
        rw [if_neg (by rw [zero]; decide), if_pos nothing]
      rw [quiet]
      refine ⟨n, reads.range, reads.returned, reads.failed, reads.bytes, ?_, fun _ => ⟨none_.2, ?_⟩⟩
      · rw [after]
        exact part
      · rw [after]
        exact fun next member => absurd member (Option.not_mem_none next)
  | cons f more =>
      rw [after] at rest part
      have frame : Frame f := all f (List.mem_of_mem_drop (after ▸ List.mem_cons_self ..))
      rw [List.flatten_cons] at rest
      have spec := takeIncoming_spec kernel t frame
        ((r.server.net.sockets i).rx.length + 1) r.server part rest
        (Nat.lt_succ_self _)
      generalize takeIncoming kernel t i ((r.server.net.sockets i).rx.length + 1) r.server = result at spec ⊢
      obtain ⟨s, outcome⟩ := result
      obtain ⟨same, ⟨is, whole⟩ | ⟨is, read, part', short⟩⟩ := spec
      · dsimp only at is whole same ⊢
        subst is
        have here : frames[n]? = some f := by
          rw [← List.head?_drop, after]
          rfl
        have below : n < frames.length := (List.getElem?_eq_some_iff.mp here).1
        have cleared : held (s.setStream i { s.streams i with rxLen := 0 }) i = [] := by
          unfold held
          dsimp only [Server.setStream]
          rw [Function.update_self]
          rfl
        refine ⟨n + 1, below, ?_, reads.failed, ?_, ?_, fun idle => absurd idle Bool.noConfusion⟩
        · dsimp only
          rw [reads.returned, whole, List.take_add_one, here]
          rfl
        · dsimp only
          rw [cleared, List.nil_append, List.flatten_append, List.append_assoc, ← reads.bytes, ← same]
          simp only [List.flatten_cons, List.flatten_nil, List.append_nil]
          rfl
        · dsimp only
          rw [cleared]
          exact List.nil_prefix
      · dsimp only at is read part' short same ⊢
        subst is
        refine ⟨n, reads.range, reads.returned, reads.failed, ?_, ?_, fun _ => ⟨read, ?_⟩⟩
        · dsimp only
          rw [same]
          exact reads.bytes
        · rw [after]
          exact part'
        · rw [after]
          rintro next member
          cases Option.mem_some_iff.mp member
          exact short

theorem arrive_reads {n : Nat} (reads : Reads i frames so n r) (bytes : List UInt8) :
    Reads i frames (so ++ bytes) n (read kernel i r (.arrive bytes)) := by
  have held_ : held (read kernel i r (.arrive bytes)).server i = held r.server i := rfl
  have unread_ : unread (read kernel i r (.arrive bytes)).server i = unread r.server i ++ bytes := by
    unfold unread read
    dsimp only
    rw [set_same]
  refine ⟨reads.range, reads.returned, reads.failed, ?_, reads.part, fun idle => absurd idle Bool.noConfusion⟩
  rw [held_, unread_, ← reads.bytes]
  simp only [read, List.append_assoc]

theorem readAll_reads (kernel : Nat → Bool) {n : Nat} (all : ∀ f ∈ frames, Frame f) (readings : List Reading)
    (reads : Reads i frames so n r) (valid : so ++ arrived readings <+: frames.flatten) :
    ∃ n, Reads i frames (so ++ arrived readings) n (readAll kernel i r readings) := by
  induction readings generalizing so n r with
  | nil =>
      rw [arrived, List.append_nil]
      exact ⟨n, reads⟩
  | cons reading rest ih =>
      cases reading with
      | arrive bytes =>
          rw [arrived, ← List.append_assoc] at valid ⊢
          exact ih (arrive_reads reads bytes) valid
      | poll t =>
          rw [arrived] at valid ⊢
          obtain ⟨n', reads'⟩ := poll_reads kernel all reads
            ((List.prefix_append so (arrived rest)).trans valid) t
          exact ih reads' valid

theorem incoming_frames (kernel : Nat → Bool) (i : Nat) (all : ∀ f ∈ frames, Frame f) {s : Server}
    (empty : held s i = [] ∧ unread s i = []) (readings : List Reading)
    (valid : arrived readings <+: frames.flatten) :
    ∃ n ≤ frames.length, (readAll kernel i ⟨s, [], false, false⟩ readings).frames = frames.take n ∧
      (readAll kernel i ⟨s, [], false, false⟩ readings).failed = false ∧
      (frames.take n).flatten ++ (held (readAll kernel i ⟨s, [], false, false⟩ readings).server i ++
        unread (readAll kernel i ⟨s, [], false, false⟩ readings).server i) = arrived readings ∧
      ((readAll kernel i ⟨s, [], false, false⟩ readings).idle = true →
        ∀ k ≤ frames.length, (frames.take k).flatten.length ≤ (arrived readings).length → k ≤ n) := by
  have start : Reads i frames [] 0 ⟨s, [], false, false⟩ := by
    refine ⟨Nat.zero_le _, rfl, rfl, ?_, ?_, fun idle => absurd idle Bool.noConfusion⟩
    · rw [empty.1, empty.2]
      rfl
    · rw [empty.1]
      exact List.nil_prefix
  obtain ⟨n, reads⟩ := readAll_reads kernel all readings start valid
  rw [List.nil_append] at reads
  generalize readAll kernel i ⟨s, [], false, false⟩ readings = r at reads ⊢
  refine ⟨n, reads.range, reads.returned, reads.failed, ?_, ?_⟩
  · rw [← reads.returned]
    exact reads.bytes
  · intro idle k inside enough
    obtain ⟨read, short⟩ := reads.idle idle
    apply Nat.le_of_not_lt
    intro beyond
    -- the next message would be held in part only, yet all of it has arrived
    cases after : frames.drop n with
    | nil => exact absurd (List.drop_eq_nil_iff.mp after) (by omega)
    | cons f more =>
        have part := reads.part
        rw [after] at part short
        have strict : (held r.server i).length < f.length :=
          Nat.lt_of_le_of_ne part.length_le fun same => short f rfl (part.eq_of_length same)
        have here : frames[n]? = some f := by
          rw [← List.head?_drop, after]
          rfl
        have front : frames.take (n + 1) <+: frames.take k := List.take_prefix_take_left beyond
        have length := (List.IsPrefix.flatten front).length_le
        rw [List.take_add_one, here, List.flatten_append, List.length_append] at length
        have total := congrArg List.length reads.bytes
        rw [reads.returned, read, List.append_nil, List.length_append] at total
        simp only [Option.toList_some, List.flatten_cons, List.flatten_nil, List.append_nil] at length
        omega

end Reading

section Guarantees
open RntpTransport (Carried Released Acked Clear Traffic)
open TcpSending (dialled synAckOf)
open TcpDelivery (everySend)

/-- In every run of a connection whose beginning is clear, both halves of the stream keep the frames. -/
theorem frames_carried (sock : Socket) (st : Stream) (netNow : UInt32)
    (idle : st.txLen = 0 ∧ st.txPos = 0 ∧ st.flight = 0) (clear : Clear sock)
    (events : List RntpTransport.Event) :
    (Carried sock.seqNum (RntpTransport.run (RntpTransport.start sock st netNow) events) ∧
      Released sock.seqNum (RntpTransport.run (RntpTransport.start sock st netNow) events)) ∧
    (∀ (kernel : Nat → Bool) (net net' : Net) (pool : List Nat) (a : Nat) (t : Segment),
      allocSocket net pool = some (net', a) → Clear ((openPassive kernel net pool t).sockets a)) ∧
    (∀ (kernel : Nat → Bool) (net : Net) (a : Nat) (t : Segment),
      Clear ((onSynAck kernel net a t).sockets a) ↔
      t.ackNum = (net.sockets a).seqNum ∨ frameBytes < (t.ackNum - (net.sockets a).seqNum).toNat) ∧
    ∀ (kernel : Nat → Bool) (i : Nat) (frames : List (List UInt8)) (s : Server) (readings : List Reading),
      (∀ f ∈ frames, Frame f) → held s i = [] ∧ unread s i = [] → arrived readings <+: frames.flatten →
      ∃ n ≤ frames.length, (readAll kernel i ⟨s, [], false, false⟩ readings).frames = frames.take n ∧
        (readAll kernel i ⟨s, [], false, false⟩ readings).failed = false ∧
        (frames.take n).flatten ++ (held (readAll kernel i ⟨s, [], false, false⟩ readings).server i ++
          unread (readAll kernel i ⟨s, [], false, false⟩ readings).server i) = arrived readings ∧
        ((readAll kernel i ⟨s, [], false, false⟩ readings).idle = true →
          ∀ k ≤ frames.length, (frames.take k).flatten.length ≤ (arrived readings).length → k ≤ n) := by
  have inv := RntpTransport.run_inv (x := RntpTransport.start sock st netNow)
    (RntpTransport.start_inv sock netNow idle) events
  refine ⟨⟨inv.carried, inv.released clear⟩, ?_, ?_, ?_⟩
  · exact fun kernel net net' pool a t got => RntpTransport.accepted_clear t got
  · exact fun kernel net a t => RntpTransport.dialled_clear t
  · exact fun kernel i frames s readings all empty valid => incoming_frames kernel i all empty readings valid

def helloFrame : List UInt8 :=
  bytesAt (rntpEncode
    (fun _ => 0) { op := opHello, status := 0, length := 0, id := 1, lba := 0, generation := 0 }) 0 40

/-- The socket of a connection that was dialled, and answered with this acknowledgement. -/
def answered (ackNum : UInt32) : Socket :=
  (TcpDelivery.run everySend {} (dialled ++ [.packet [0, 1] (synAckOf ackNum)])).sockets 0

/-- The HELLO goes out, and `transmit` is called again. -/
def greeting (ackNum : UInt32) (more : List RntpTransport.Event) : Traffic :=
  RntpTransport.run (RntpTransport.start (answered ackNum) {} 0)
    ([.frame helloFrame false 0, .tick 0 1460] ++ more ++ [.tick 0 1460])

theorem hello_acknowledged :
    (greeting 1 [.segment { synAckOf 41 with flags := flagAck }]).conn.base = 40 ∧
      Acked 1 (greeting 1 [.segment { synAckOf 41 with flags := flagAck }]).acks 40 := by
  have base : (greeting 1 [.segment { synAckOf 41 with flags := flagAck }]).conn.base = 40 := by decide
  have pos : (greeting 1 [.segment { synAckOf 41 with flags := flagAck }]).conn.st.txPos.toNat = 0 := by
    decide
  have released := (frames_carried (answered 1) {} 0 ⟨rfl, rfl, rfl⟩ (.inl (by decide))
    ([.frame helloFrame false 0, .tick 0 1460] ++ [.segment { synAckOf 41 with flags := flagAck }] ++
      [.tick 0 1460])).1.2
  have first : (answered 1).seqNum = 1 := by decide
  rw [first] at released
  have acked := released (show 0 < (greeting 1 _).conn.base + _ by rw [base]; exact Nat.succ_pos _)
  change Acked 1 _ ((greeting 1 [.segment { synAckOf 41 with flags := flagAck }]).conn.base +
    (greeting 1 [.segment { synAckOf 41 with flags := flagAck }]).conn.st.txPos.toNat) at acked
  rw [base, pos] at acked
  exact ⟨base, acked⟩

/-- A SYN-ACK that acknowledges forty bytes more than the SYN has the HELLO released unacknowledged. -/
theorem hello_presumed :
    ¬ ∀ (sock : Socket) (events : List RntpTransport.Event),
        Released sock.seqNum (RntpTransport.run (RntpTransport.start sock {} 0) events) := by
  intro claimed
  have released := claimed (answered 41) ([.frame helloFrame false 0, .tick 0 1460] ++ [] ++ [.tick 0 1460])
  have behind : 0 < (greeting 41 []).conn.base + (greeting 41 []).conn.st.txPos.toNat := by decide
  obtain ⟨ack, member, -⟩ := released behind
  have none_ : (greeting 41 []).acks = [] := by decide
  exact absurd (none_ ▸ member : ack ∈ []) List.not_mem_nil

end Guarantees
end R2Apps.RntpFraming
