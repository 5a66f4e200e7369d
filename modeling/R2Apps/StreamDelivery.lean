import R2Apps.SerialNumbers
import R2Apps.StreamReceive

/-! Whatever order, loss, overlap and cut the peer's segments arrive in, what the
connection hands to its reader is a prefix of the peer's stream, and its
acknowledgement number stands right behind that prefix. -/
namespace R2Apps.StreamDelivery
open SerialNumbers StreamReceive

/-- The segment's data is the stream from offset `o` on. -/
structure Slice (S : List UInt8) (o : Nat) (data : List UInt8) : Prop where
  bytes : data = (S.drop o).take data.length
  inside : o + data.length ≤ S.length

section Slices
variable {S : List UInt8} {o : Nat} {data : List UInt8}

theorem slice_drop (slice : Slice S o data) {k : Nat} (within_ : k ≤ data.length) :
    Slice S (o + k) (data.drop k) := by
  obtain ⟨bytes, inside⟩ := slice
  refine ⟨?_, ?_⟩
  · rw [List.length_drop]
    conv_lhs => rw [bytes]
    rw [List.drop_take, List.drop_drop]
  · rw [List.length_drop]
    omega

theorem slice_take (slice : Slice S o data) (k : Nat) : Slice S o (data.take k) := by
  obtain ⟨bytes, inside⟩ := slice
  have shorter : (data.take k).length ≤ data.length := by
    rw [List.length_take]
    omega
  refine ⟨?_, by omega⟩
  conv_lhs => rw [bytes]
  rw [List.take_take, List.length_take]

theorem take_append_slice (slice : Slice S o data) :
    S.take o ++ data = S.take (o + data.length) := by
  rw [List.take_add, ← slice.bytes]

end Slices

section Payload
variable {S : List UInt8} {base : UInt32} {o p : Nat} {data : List UInt8}

theorem payload_none (short : data.length ≤ 2 ^ 31) (above : o ≤ p + 2 ^ 31)
    (below : p ≤ o + 2 ^ 31) (nothing : p < o ∨ o + data.length ≤ p) (space : Int) :
    tcpPayload (serial base p) (serial base o) data space = [] := by
  have ahead := positive_distance base above below
  have equal := serial_eq_iff base (x := o) (y := p) (by omega) (by omega)
  simp only [tcpPayload, gt_iff_lt, ahead, equal, ne_eq, ge_iff_le]
  by_cases early : p < o ∧ o < p + 2 ^ 31
  · rw [if_pos early]
  rw [if_neg early]
  by_cases same : o = p
  · have empty : data = [] := List.eq_nil_of_length_eq_zero (by omega)
    simp [same, empty]
  · have covered : UInt32.ofNat data.length ≤ serial base p - serial base o := by
      rw [UInt32.le_iff_toNat_le, toNat_distance, UInt32.toNat_ofNat']
      omega
    rw [if_pos ⟨same, covered⟩]

theorem payload_some (short : data.length ≤ 2 ^ 31) (due : o ≤ p) (reaches : p < o + data.length)
    (space : Int) :
    tcpPayload (serial base p) (serial base o) data space =
      (data.drop (p - o)).take space.toNat := by
  have above : o ≤ p + 2 ^ 31 := by omega
  have below : p ≤ o + 2 ^ 31 := by omega
  have ahead := positive_distance base above below
  have equal := serial_eq_iff base (x := o) (y := p) (by omega) (by omega)
  have distance := toNat_behind base due (by omega)
  simp only [tcpPayload, gt_iff_lt, ahead, equal, ne_eq, ge_iff_le]
  have notEarly : ¬ (p < o ∧ o < p + 2 ^ 31) := by omega
  have notCovered : ¬ (¬ o = p ∧ UInt32.ofNat data.length ≤ serial base p - serial base o) := by
    rintro ⟨_, covered⟩
    rw [UInt32.le_iff_toNat_le, distance, UInt32.toNat_ofNat'] at covered
    omega
  rw [if_neg notEarly, if_neg notCovered, distance]
  have dropped : (if ¬ o = p then data.drop (p - o) else data) = data.drop (p - o) := by
    by_cases same : o = p
    · simp [same]
    · simp [same]
  rw [dropped]
  by_cases negative : space < 0
  · rw [if_pos negative]
    have zero : space.toNat = 0 := by omega
    rw [zero]
    split
    · rfl
    · rename_i fits
      have empty : data.drop (p - o) = [] := List.eq_nil_of_length_eq_zero (by omega)
      rw [empty]
      rfl
  · rw [if_neg negative]
    split
    · rfl
    · rename_i fits
      exact (List.take_of_length_le (by omega)).symm

end Payload

/-- A queued segment: a slice of the stream that starts behind `low`, no further
than a receive window away. -/
def Queued (S : List UInt8) (base : UInt32) (low : Nat) (segment : TcpSegment) : Prop :=
  ∃ o, segment.seq = serial base o ∧ Slice S o segment.data ∧ low < o ∧ o < low + 16384 ∧
    segment.data.length ≤ 16384

def held (segments : List TcpSegment) : Nat := segments.countP fun s => !s.data.isEmpty

/-- What a scan of the queue for position `p` leaves and gives. -/
structure Taken (S : List UInt8) (base : UInt32) (low p : Nat) (before after : List TcpSegment)
    (data : List UInt8) : Prop where
  queued : ∀ s ∈ after, s.data ≠ [] → Queued S base low s
  length : after.length = before.length
  slice : Slice S p data
  bound : p + data.length ≤ low + 2 ^ 31
  caught : data = [] → ∀ s ∈ after, s.data ≠ [] → Queued S base p s
  fewer : held after + (if data = [] then 0 else 1) ≤ held before

section Take
variable {S : List UInt8} {base : UInt32} {low p : Nat}

theorem held_cons (s : TcpSegment) (rest : List TcpSegment) :
    held (s :: rest) = held rest + if s.data = [] then 0 else 1 := by
  cases data : s.data with
  | nil => simp [held, data]
  | cons b bs => simp [held, data]

theorem taken_keep {s : TcpSegment} {rest after : List TcpSegment} {data : List UInt8}
    (tail : Taken S base low p rest after data) (here : s.data ≠ [] → Queued S base low s)
    (later : s.data ≠ [] → Queued S base p s) :
    Taken S base low p (s :: rest) (s :: after) data := by
  refine ⟨?_, by simp [tail.length], tail.slice, tail.bound, ?_, ?_⟩
  · intro t member
    rcases List.mem_cons.mp member with same | inside
    · rw [same]
      exact here
    · exact tail.queued t inside
  · intro none_ t member
    rcases List.mem_cons.mp member with same | inside
    · rw [same]
      exact later
    · exact tail.caught none_ t inside
  · have fewer := tail.fewer
    rw [held_cons, held_cons]
    omega

theorem taken_clear {s : TcpSegment} {rest after : List TcpSegment} {data : List UInt8}
    (tail : Taken S base low p rest after data) :
    Taken S base low p (s :: rest) ({} :: after) data := by
  have kept := taken_keep (s := {}) tail (fun some_ => absurd rfl some_) (fun some_ => absurd rfl some_)
  refine { kept with length := by simp [tail.length], fewer := ?_ }
  have fewer := tail.fewer
  rw [held_cons, held_cons]
  simp only [↓reduceIte]
  omega

theorem takeFrom_spec (segments : List TcpSegment)
    (queued : ∀ s ∈ segments, s.data ≠ [] → Queued S base low s)
    (lower : low ≤ p) (upper : p ≤ low + 2 ^ 31) (inside : p ≤ S.length) :
    Taken S base low p segments (takeFrom (serial base p) segments).1
      (takeFrom (serial base p) segments).2.2 := by
  induction segments with
  | nil => exact ⟨by simp [takeFrom], rfl, ⟨rfl, inside⟩, upper, by simp [takeFrom], Nat.le_refl _⟩
  | cons s rest ih =>
      have tail := ih fun t member => queued t (List.mem_cons_of_mem s member)
      have here := queued s (by simp)
      rw [takeFrom]
      by_cases idle : s.data.isEmpty = true ∨ (s.seq - serial base p).toInt32 > 0
      · rw [if_pos idle]
        refine taken_keep tail here fun some_ => ?_
        obtain ⟨o, seq, slice, behind, near, short⟩ := here some_
        have ahead := idle.resolve_left (by simpa using some_)
        rw [seq, gt_iff_lt, positive_distance base (by omega) (by omega)] at ahead
        exact ⟨o, seq, slice, ahead.1, by omega, short⟩
      · rw [if_neg idle]
        simp only [not_or, gt_iff_lt, List.isEmpty_iff] at idle
        obtain ⟨o, seq, slice, behind, near, short⟩ := here idle.1
        rw [seq, positive_distance base (by omega) (by omega)] at idle
        rw [seq]
        by_cases reaches : p < o + s.data.length
        · have due : o ≤ p := by omega
          have whole : ((s.data.length : Int)).toNat = s.data.length := rfl
          rw [payload_some (by omega) due reaches, whole,
            List.take_of_length_le (by rw [List.length_drop]; omega)]
          have more : (s.data.drop (p - o)).isEmpty = false := by
            rw [List.isEmpty_eq_false_iff, ne_eq, List.drop_eq_nil_iff]
            omega
          have part := slice_drop slice (k := p - o) (by omega)
          rw [show o + (p - o) = p by omega] at part
          have notNil : s.data.drop (p - o) ≠ [] := by simpa using more
          simp only [more, Bool.false_eq_true, ↓reduceIte]
          refine ⟨?_, by simp, part, ?_, fun none_ => absurd none_ notNil, ?_⟩
          · intro t member some_
            rcases List.mem_cons.mp member with same | old
            · rw [same] at some_
              exact absurd rfl some_
            · exact queued t (List.mem_cons_of_mem s old) some_
          · rw [List.length_drop]
            omega
          · rw [held_cons, held_cons, if_neg notNil, if_neg idle.1]
            simp
        · rw [payload_none (by omega) (by omega) (by omega) (by omega)]
          exact taken_clear tail

end Take

/-- The connection has handed out or holds the first `pos` bytes of the stream. -/
structure Tracks (S : List UInt8) (base : UInt32) (got : List UInt8) (c : Conn) (pos : Nat) :
    Prop where
  bytes : got ++ c.rx = S.take pos
  inside : pos ≤ S.length
  rcv : c.rcv = serial base (pos + if c.peerFIN then 1 else 0)
  fin : c.peerFIN = true → pos = S.length
  queued : ∀ s ∈ c.reorder.segments, s.data ≠ [] → Queued S base pos s

section Steps
variable {S : List UInt8} {base : UInt32} {got : List UInt8} {c : Conn} {pos : Nat}

theorem append_bytes (bytes : got ++ c.rx = S.take pos) {data : List UInt8}
    (slice : Slice S pos data) : got ++ (c.append data).rx = S.take (pos + data.length) := by
  simp only [Conn.append]
  rw [← List.append_assoc, bytes, take_append_slice slice]

theorem drain_tracks {low : Nat} (fuel : Nat) (bytes : got ++ c.rx = S.take pos)
    (inside : pos ≤ S.length) (rcv : c.rcv = serial base pos) (open_ : c.peerFIN = false)
    (queued : ∀ s ∈ c.reorder.segments, s.data ≠ [] → Queued S base low s)
    (lower : low ≤ pos) (upper : pos ≤ low + 2 ^ 31) (enough : held c.reorder.segments < fuel) :
    ∃ pos', pos ≤ pos' ∧ Tracks S base got (c.drain fuel) pos' ∧
      (c.drain fuel).peerFIN = c.peerFIN := by
  induction fuel generalizing c pos with
  | zero => exact absurd enough (Nat.not_lt_zero _)
  | succ fuel ih =>
      have taken := takeFrom_spec c.reorder.segments queued lower upper inside
      rw [← rcv] at taken
      obtain ⟨after, freed, data, scan⟩ :
          ∃ after freed data, takeFrom c.rcv c.reorder.segments = (after, freed, data) :=
        ⟨_, _, _, rfl⟩
      rw [scan] at taken
      simp only [Conn.drain, TcpReorder.take, scan]
      simp only at taken
      by_cases none_ : data = []
      · simp only [none_, List.isEmpty_nil, ↓reduceIte]
        exact ⟨pos, Nat.le_refl _, ⟨bytes, inside, by simpa [open_] using rcv, by simp [open_],
          taken.caught none_⟩, trivial⟩
      · have more : data.isEmpty = false := by simpa using none_
        have fewer := taken.fewer
        rw [if_neg none_] at fewer
        simp only [more, Bool.false_eq_true, ↓reduceIte]
        have next : (c.append data).rcv = serial base (pos + data.length) := by
          rw [serial_add, ← rcv]
          rfl
        obtain ⟨pos', further, tracks, still⟩ :=
          ih (append_bytes (c := { c with reorder := ⟨after, c.reorder.bytes - freed⟩ }) bytes
            taken.slice) taken.slice.inside next open_ taken.queued (by omega) taken.bound
            (by simp only [Conn.append]; omega)
        exact ⟨pos', by omega, tracks, still⟩

theorem store_queued (queued : ∀ s ∈ c.reorder.segments, s.data ≠ [] → Queued S base pos s)
    {o : Nat} {data : List UInt8} (slice : Slice S o data) (above : o ≤ pos + 2 ^ 31)
    (below : pos ≤ o + 2 ^ 31) {window : Int} (narrow : window ≤ 16384) :
    ∀ s ∈ (c.reorder.store (serial base pos) (serial base o) data window).segments, s.data ≠ [] →
      Queued S base pos s := by
  have positive := positive_distance base above below
  simp only [TcpReorder.store]
  split
  · exact queued
  rename_i near
  obtain ⟨ahead, close⟩ := not_or.mp near
  rw [Int32.not_le, positive] at ahead
  rw [toInt_distance base above below ahead.2] at close ⊢
  generalize cutIs : (if (data.length : Int) > window - ((o : Int) - pos) then
    data.take (window - ((o : Int) - pos)).toNat else data) = cut
  have cutSlice : Slice S o cut ∧ cut.length ≤ 16384 := by
    subst cutIs
    split
    · refine ⟨slice_take slice _, ?_⟩
      rw [List.length_take]
      omega
    · exact ⟨slice, by omega⟩
  split
  · exact queued
  split
  · exact queued
  split
  · exact queued
  · intro s member some_
    rcases List.mem_or_eq_of_mem_set member with old | new
    · exact queued s old some_
    · rw [new]
      exact ⟨o, rfl, cutSlice.1, ahead.1, by omega, cutSlice.2⟩

theorem onAck_same (ack : UInt32) : (c.onAck ack).rx = c.rx ∧ (c.onAck ack).rcv = c.rcv ∧
    (c.onAck ack).reorder = c.reorder ∧ (c.onAck ack).peerFIN = c.peerFIN := by
  simp only [Conn.onAck]
  repeat' split
  all_goals exact ⟨rfl, rfl, rfl, rfl⟩

theorem tracks_congr {c' : Conn} (tracks : Tracks S base got c pos)
    (same : c'.rx = c.rx ∧ c'.rcv = c.rcv ∧ c'.reorder = c.reorder ∧ c'.peerFIN = c.peerFIN) :
    Tracks S base got c' pos := by
  obtain ⟨rx, rcv, reorder, fin⟩ := same
  refine ⟨rx ▸ tracks.bytes, tracks.inside, ?_, fin ▸ tracks.fin, reorder ▸ tracks.queued⟩
  rw [rcv, fin]
  exact tracks.rcv

theorem onData_tracks (tracks : Tracks S base got c pos) {o : Nat} {data : List UInt8}
    (slice : Slice S o data) (short : data.length ≤ 2 ^ 31)
    (above : o ≤ pos + (if c.peerFIN then 1 else 0) + 2 ^ 31)
    (below : pos + (if c.peerFIN then 1 else 0) ≤ o + 2 ^ 31) :
    ∃ pos', pos ≤ pos' ∧ Tracks S base got (c.onData (serial base o) data) pos' ∧
      (c.onData (serial base o) data).peerFIN = c.peerFIN := by
  have positive := positive_distance base above below
  cases flag : c.peerFIN with
  | true =>
      -- the stream has ended: nothing a slice of it brings is new
      have ended := tracks.fin flag
      have inside := slice.inside
      simp only [flag, ↓reduceIte] at above below positive
      have rcv : c.rcv = serial base (pos + 1) := by simpa [flag] using tracks.rcv
      have notAhead : ¬ (pos + 1 < o ∧ o < pos + 1 + 2 ^ 31) := by omega
      simp only [Conn.onData, rcv, gt_iff_lt, positive, notAhead, ↓reduceIte]
      rw [payload_none short above below (by omega)]
      exact ⟨pos, Nat.le_refl _, tracks, flag⟩
  | false =>
      simp only [flag, Bool.false_eq_true, ↓reduceIte, Nat.add_zero] at above below positive
      have rcv : c.rcv = serial base pos := by simpa [flag] using tracks.rcv
      simp only [Conn.onData, rcv, gt_iff_lt, positive]
      by_cases ahead : pos < o ∧ o < pos + 2 ^ 31
      · rw [if_pos ahead]
        refine ⟨pos, Nat.le_refl _, ⟨tracks.bytes, tracks.inside, by simp [flag], tracks.fin, ?_⟩, flag⟩
        refine store_queued tracks.queued slice above below ?_
        simp only [rxCap]
        omega
      rw [if_neg ahead]
      by_cases reaches : o ≤ pos ∧ pos < o + data.length
      · rw [payload_some short reaches.1 reaches.2]
        have part := slice_take (slice_drop slice (k := pos - o) (by omega)) c.receiveWindow.toNat
        rw [show o + (pos - o) = pos by omega] at part
        have shorter : ((data.drop (pos - o)).take c.receiveWindow.toNat).length ≤ 2 ^ 31 := by
          rw [List.length_take, List.length_drop]
          omega
        by_cases none_ : (data.drop (pos - o)).take c.receiveWindow.toNat = []
        · simp only [none_, List.isEmpty_nil, ↓reduceIte]
          exact ⟨pos, Nat.le_refl _, tracks, flag⟩
        · have more : ((data.drop (pos - o)).take c.receiveWindow.toNat).isEmpty = false := by
            simpa using none_
          simp only [more, Bool.false_eq_true, ↓reduceIte]
          have count : held c.reorder.segments < c.reorder.segments.length + 1 :=
            Nat.lt_succ_of_le List.countP_le_length
          have next : (c.append ((data.drop (pos - o)).take c.receiveWindow.toNat)).rcv =
              serial base (pos + ((data.drop (pos - o)).take c.receiveWindow.toNat).length) := by
            rw [serial_add, ← rcv]
            rfl
          obtain ⟨pos', further, after, still⟩ := drain_tracks _ (append_bytes tracks.bytes part)
            part.inside next flag tracks.queued (Nat.le_add_right _ _) (by omega) count
          exact ⟨pos', by omega, after, still.trans flag⟩
      · rw [payload_none short above below (by omega)]
        exact ⟨pos, Nat.le_refl _, tracks, flag⟩

theorem onFIN_tracks (tracks : Tracks S base got c pos) {o length : Nat}
    (last : o + length = S.length)
    (near : S.length < pos + (if c.peerFIN then 1 else 0) + 2 ^ 32) :
    Tracks S base got (c.onFIN (serial base o) length) pos := by
  have bound := tracks.inside
  have place : serial base o + UInt32.ofNat length = serial base S.length := by
    rw [← last, serial_add]
  cases flag : c.peerFIN with
  | true =>
      have ended := tracks.fin flag
      have rcv : c.rcv = serial base (pos + 1) := by simpa [flag] using tracks.rcv
      have past : serial base S.length ≠ serial base (pos + 1) := by
        rw [ne_eq, serial_eq_iff base (by omega) (by omega)]
        omega
      rw [Conn.onFIN, place, rcv, if_pos past]
      exact tracks
  | false =>
      simp only [flag, Bool.false_eq_true, ↓reduceIte, Nat.add_zero] at near
      have rcv : c.rcv = serial base pos := by simpa [flag] using tracks.rcv
      have equal := serial_eq_iff base near (by omega)
      rw [Conn.onFIN, place]
      by_cases reached : S.length = pos
      · have due : ¬ serial base S.length ≠ c.rcv := by
          rw [rcv, ne_eq, equal]
          exact not_not.mpr reached
        have done : Tracks S base got { c with peerFIN := true, rcv := c.rcv + 1 } pos :=
          ⟨tracks.bytes, bound, by rw [rcv]; exact (serial_succ base pos).symm,
            fun _ => reached.symm, tracks.queued⟩
        rw [if_neg due]
        simp only
        split
        · exact tracks_congr done ⟨rfl, rfl, rfl, rfl⟩
        · exact done
      · have early : serial base S.length ≠ c.rcv := by
          rw [rcv, ne_eq, equal]
          exact reached
        rw [if_pos early]
        exact tracks

theorem drain_state (fuel : Nat) (c : Conn) : (c.drain fuel).state = c.state := by
  induction fuel generalizing c with
  | zero => rfl
  | succ fuel ih =>
      simp only [Conn.drain]
      split
      · rfl
      · exact ih _

theorem onSegment_dialled (flags : UInt8) (seq ack : UInt32) (data : List UInt8)
    (dialled : c.state ≠ .synSent) : (c.onSegment flags seq ack data).state ≠ .synSent := by
  have ackState : (c.onAck ack).state = c.state := by
    simp only [Conn.onAck]
    repeat' split
    all_goals rfl
  have dataState (d : Conn) : (d.onData seq data).state = d.state := by
    simp only [Conn.onData]
    repeat' split
    · rfl
    · rfl
    · exact drain_state _ _
  have finState (d : Conn) (other : d.state ≠ .synSent) :
      (d.onFIN seq data.length).state ≠ .synSent := by
    simp only [Conn.onFIN]
    repeat' split
    all_goals first | exact other | simp
  have acked : (if flags &&& flagACK ≠ 0 then c.onAck ack else c).state ≠ .synSent := by
    split
    · rw [ackState]
      exact dialled
    · exact dialled
  simp only [Conn.onSegment]
  split
  · simp
  split
  · rename_i synSent
    exact absurd synSent dialled
  all_goals try exact dialled
  all_goals
    generalize (if flags &&& flagACK ≠ 0 then c.onAck ack else c) = c1 at acked
    have stored : (if data.length > 0 then c1.onData seq data else c1).state ≠ .synSent := by
      split
      · rw [dataState]
        exact acked
      · exact acked
    generalize (if data.length > 0 then c1.onData seq data else c1) = c2 at stored
    have finished : (if flags &&& flagFIN ≠ 0 then c2.onFIN seq data.length else c2).state ≠
        .synSent := by
      split
      · exact finState c2 stored
      · exact stored
    generalize (if flags &&& flagFIN ≠ 0 then c2.onFIN seq data.length else c2) = c3 at finished
    split
    · simp
    · exact finished

/-- A segment the peer may send: a slice of its stream, with a FIN only at the end. -/
structure Legitimate (S : List UInt8) (flags : UInt8) (o : Nat) (data : List UInt8) : Prop where
  slice : Slice S o data
  short : data.length < 2 ^ 31
  last : flags &&& flagFIN ≠ 0 → o + data.length = S.length

theorem onSegment_tracks (tracks : Tracks S base got c pos) (dialled : c.state ≠ .synSent)
    {flags : UInt8} {o : Nat} {data : List UInt8} (ack : UInt32)
    (legitimate : Legitimate S flags o data)
    (above : o ≤ pos + (if c.peerFIN then 1 else 0) + 2 ^ 31)
    (below : pos + (if c.peerFIN then 1 else 0) ≤ o + 2 ^ 31) :
    ∃ pos', Tracks S base got (c.onSegment flags (serial base o) ack data) pos' := by
  simp only [Conn.onSegment]
  split
  · exact ⟨pos, tracks_congr tracks ⟨rfl, rfl, rfl, rfl⟩⟩
  have acked : ∃ c1, (if flags &&& flagACK ≠ 0 then c.onAck ack else c) = c1 ∧
      Tracks S base got c1 pos ∧ c1.peerFIN = c.peerFIN := by
    split
    · exact ⟨_, rfl, tracks_congr tracks (onAck_same ack), (onAck_same ack).2.2.2⟩
    · exact ⟨_, rfl, tracks, rfl⟩
  obtain ⟨c1, is1, tracks1, fin1⟩ := acked
  rw [← fin1] at above below
  have stored : ∃ c2 pos', (if data.length > 0 then c1.onData (serial base o) data else c1) = c2 ∧
      pos ≤ pos' ∧ Tracks S base got c2 pos' ∧ c2.peerFIN = c1.peerFIN := by
    split
    · obtain ⟨pos', further, tracks2, fin2⟩ :=
        onData_tracks tracks1 legitimate.slice (Nat.le_of_lt legitimate.short) above below
      exact ⟨_, pos', rfl, further, tracks2, fin2⟩
    · exact ⟨_, pos, rfl, Nat.le_refl _, tracks1, rfl⟩
  obtain ⟨c2, pos', is2, further, tracks2, fin2⟩ := stored
  have finished : ∃ c3, (if flags &&& flagFIN ≠ 0 then c2.onFIN (serial base o) data.length
      else c2) = c3 ∧ Tracks S base got c3 pos' := by
    split
    · rename_i fin
      have last := legitimate.last fin
      have short := legitimate.short
      refine ⟨_, rfl, onFIN_tracks tracks2 last ?_⟩
      rw [fin2]
      omega
    · exact ⟨_, rfl, tracks2⟩
  obtain ⟨c3, is3, tracks3⟩ := finished
  split
  · rename_i synSent
    exact absurd synSent dialled
  all_goals try exact ⟨pos, tracks⟩
  all_goals
    rw [is1, is2, is3]
    split
    · exact ⟨pos', tracks_congr tracks3 ⟨rfl, rfl, rfl, rfl⟩⟩
    · exact ⟨pos', tracks3⟩

end Steps

/-- A run of an established connection whose peer sends the stream `S`: the
connection, and the bytes its reads have returned so far. Segments without data
and FIN, such as plain acknowledgements, may carry any sequence number. -/
inductive Run (S : List UInt8) (irs : UInt32) : Conn → List UInt8 → Prop where
  | start {c : Conn} : c.state = .established → c.rcv = irs + 1 → c.rx = [] → c.reorder = {} →
      c.peerFIN = false → Run S irs c []
  | segment {c : Conn} {got : List UInt8} (flags : UInt8) (ack : UInt32) (o : Nat)
      (data : List UInt8) : Run S irs c got → Legitimate S flags o data →
      o ≤ (got ++ c.rx).length + (if c.peerFIN then 1 else 0) + 2 ^ 31 →
      (got ++ c.rx).length + (if c.peerFIN then 1 else 0) ≤ o + 2 ^ 31 →
      Run S irs (c.onSegment flags (irs + 1 + UInt32.ofNat o) ack data) got
  | bare {c : Conn} {got : List UInt8} (flags : UInt8) (seq ack : UInt32) : Run S irs c got →
      flags &&& flagFIN = 0 → Run S irs (c.onSegment flags seq ack []) got
  | read {c : Conn} {got : List UInt8} (size : Nat) : Run S irs c got →
      Run S irs (c.read size).1 (got ++ (c.read size).2)

section Runs
variable {S : List UInt8} {irs : UInt32} {c : Conn} {got : List UInt8}

theorem bare_tracks {base : UInt32} {pos : Nat} (tracks : Tracks S base got c pos)
    (dialled : c.state ≠ .synSent) (flags : UInt8) (seq ack : UInt32)
    (noFin : flags &&& flagFIN = 0) : Tracks S base got (c.onSegment flags seq ack []) pos := by
  have acked : ∃ c1, (if ¬ flags &&& flagACK = 0 then c.onAck ack else c) = c1 ∧
      Tracks S base got c1 pos := by
    split
    · exact ⟨_, rfl, tracks_congr tracks (onAck_same ack)⟩
    · exact ⟨_, rfl, tracks⟩
  obtain ⟨c1, is1, tracks1⟩ := acked
  simp only [Conn.onSegment, List.length_nil, Nat.lt_irrefl, gt_iff_lt, noFin, ne_eq,
    not_true_eq_false, ↓reduceIte]
  split
  · exact tracks_congr tracks ⟨rfl, rfl, rfl, rfl⟩
  split
  · rename_i synSent
    exact absurd synSent dialled
  all_goals try exact tracks
  all_goals
    rw [is1]
    split
    · exact tracks_congr tracks1 ⟨rfl, rfl, rfl, rfl⟩
    · exact tracks1

theorem run_tracks (run : Run S irs c got) :
    c.state ≠ .synSent ∧ ∃ pos, Tracks S (irs + 1) got c pos := by
  induction run with
  | start established rcv rx reorder fin =>
      refine ⟨by rw [established]; decide, 0, by simp [rx], Nat.zero_le _, ?_, by simp [fin], ?_⟩
      · simp [rcv, fin, serial]
      · intro s member some_
        rw [reorder] at member
        rw [List.eq_of_mem_replicate member] at some_
        exact absurd rfl some_
  | segment flags ack o data _ legitimate above below ih =>
      obtain ⟨dialled, pos, tracks⟩ := ih
      have length := congrArg List.length tracks.bytes
      rw [List.length_take, Nat.min_eq_left tracks.inside] at length
      rw [length] at above below
      exact ⟨onSegment_dialled flags _ ack data dialled,
        onSegment_tracks tracks dialled ack legitimate above below⟩
  | bare flags seq ack _ noFin ih =>
      obtain ⟨dialled, pos, tracks⟩ := ih
      exact ⟨onSegment_dialled flags seq ack [] dialled, pos,
        bare_tracks tracks dialled flags seq ack noFin⟩
  | read size _ ih =>
      obtain ⟨dialled, pos, tracks⟩ := ih
      refine ⟨dialled, pos, ?_, tracks.inside, tracks.rcv, tracks.fin, tracks.queued⟩
      rw [Conn.read, List.append_assoc, List.take_append_drop]
      exact tracks.bytes

/-- The bytes returned by `Read` followed by `rx` are a prefix of the stream, and
`rcv` is the number of the byte after it, or after the FIN once the whole stream
and the FIN were taken. -/
theorem reads_are_prefix_up_to_rcv (run : Run S irs c got) :
    got ++ c.rx = S.take (got ++ c.rx).length ∧ (got ++ c.rx).length ≤ S.length ∧
      c.rcv = irs + 1 + UInt32.ofNat (got ++ c.rx).length + (if c.peerFIN then 1 else 0) ∧
      (c.peerFIN = true → got ++ c.rx = S) := by
  obtain ⟨_, pos, tracks⟩ := run_tracks run
  have length : (got ++ c.rx).length = pos := by
    rw [tracks.bytes, List.length_take]
    exact Nat.min_eq_left tracks.inside
  rw [length]
  refine ⟨tracks.bytes, tracks.inside, ?_, ?_⟩
  · rw [tracks.rcv, serial_add, serial]
    cases c.peerFIN <;> rfl
  · intro fin
    rw [tracks.bytes, tracks.fin fin, List.take_length]

end Runs

/-! Five bytes in two segments, the second one first, and then the FIN again. -/

def fresh : Conn := { state := .established, rcv := 1 }

def swapped : Conn :=
  ((fresh.onSegment (flagACK ||| flagFIN) (1 + UInt32.ofNat 3) 0 [3, 4]).onSegment flagACK
    (1 + UInt32.ofNat 0) 0 [0, 1, 2]).onSegment (flagACK ||| flagFIN) (1 + UInt32.ofNat 3) 0 [3, 4]

theorem swapped_segments_arrive_in_order : ([] ++ swapped.rx) = [0, 1, 2, 3, 4] := by
  have stream (n : Nat) (data : List UInt8) (bytes : data = ([0, 1, 2, 3, 4].drop n).take data.length)
      (inside : n + data.length ≤ 5) : Slice [0, 1, 2, 3, 4] n data := ⟨bytes, inside⟩
  have start : Run [0, 1, 2, 3, 4] 0 fresh [] := Run.start rfl rfl rfl rfl rfl
  have first := Run.segment (flagACK ||| flagFIN) 0 3 [3, 4] start
    ⟨stream 3 [3, 4] rfl (by decide), by decide, fun _ => rfl⟩ (by decide) (by decide)
  have second := Run.segment flagACK 0 0 [0, 1, 2] first
    ⟨stream 0 [0, 1, 2] rfl (by decide), by decide, fun fin => absurd rfl fin⟩ (by decide) (by decide)
  have third := Run.segment (flagACK ||| flagFIN) 0 3 [3, 4] second
    ⟨stream 3 [3, 4] rfl (by decide), by decide, fun _ => rfl⟩ (by decide) (by decide)
  exact (reads_are_prefix_up_to_rcv third).2.2.2 (by decide)

end R2Apps.StreamDelivery
