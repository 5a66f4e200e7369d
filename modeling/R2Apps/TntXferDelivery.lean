import R2Apps.TntXferReading

/-! What `send_stream` does over a whole transfer: where its cursors are, what it
writes, and what is true of the result it returns. -/
namespace R2Apps.TntXferDelivery
open R2Apps.TcpSockets R2Apps.Crc32 R2Apps.SerialNumbers R2Apps.TntXfer R2Apps.TntXferReading

/-- What was written is a slice of the stream, under the number of its first byte. -/
def Slice (job : Job) (base : UInt32) (w : UInt32 × Bytes) : Prop :=
  ∃ o, w.1 = serial base o ∧ w.2 = (job.stream.drop o).take w.2.length ∧ o + w.2.length ≤ job.stream.length

/-- The sending loop between two turns. -/
structure Sending (job : Job) (x : Xfer) : Prop where
  low : x.peer.acked ≤ x.peer.hi
  reach : x.next ≤ x.peer.hi
  high : x.peer.hi ≤ job.stream.length
  caught : x.peer.progress = false → x.peer.acked ≤ x.next
  heard : x.peer.acked = 0 ∨ serial x.peer.base x.peer.acked ∈ x.peer.heard
  known : ∀ t, x.total = some t →
    x.peer.hi ≤ t ∧ t ≤ job.stream.length ∧ (x.stopped = false → t = job.stream.length)
  stopped : x.stopped = true → job.keepOpen = true ∧ x.total ≠ none
  cached : Cached job.source.content x.disk
  folded : x.crcOff = x.peer.hi - job.head.length
  sum : x.crc32 = crc32 (job.source.content.take x.crcOff)
  wrote : ∀ w ∈ x.wrote, Slice job x.peer.base w
  phase : x.phase = .sending

/-- The FIN is out: everything before it has arrived. -/
structure Closing (job : Job) (x : Xfer) : Prop where
  handed : job.keepOpen = false
  total : x.total = some job.stream.length
  hi : x.peer.hi = job.stream.length + 1
  arrived : job.stream.length ≤ x.peer.acked
  low : x.peer.acked ≤ x.peer.hi
  reach : x.next ≤ x.peer.hi
  heard : job.stream.length = 0 ∨ serial x.peer.base job.stream.length ∈ x.peer.heard
  bytes : x.bytes = job.source.content.length
  sum : x.crc32 = crc32 job.source.content
  wrote : ∀ w ∈ x.wrote, Slice job x.peer.base w

/-- The transfer in every phase. -/
structure Delivered (job : Job) (x : Xfer) : Prop where
  wrote : ∀ w ∈ x.wrote, Slice job x.peer.base w
  low : x.peer.acked ≤ x.peer.hi
  reach : x.next ≤ x.peer.hi
  high : x.peer.hi ≤ job.stream.length ∨
    (x.peer.hi = job.stream.length + 1 ∧ job.keepOpen = false ∧
      (x.phase = .returned .ok ∨ ∃ n, x.phase = .closing n))
  ok : x.phase = .returned .ok → job.stream.length ≤ x.peer.acked ∧
    (job.stream.length = 0 ∨ serial x.peer.base job.stream.length ∈ x.peer.heard) ∧
    x.bytes = job.source.content.length ∧ x.crc32 = crc32 job.source.content
  session : job.keepOpen = true → x.phase = .returned .ok ∨ x.phase = .returned .cancelled →
    (x.conn job).seqNum = serial x.peer.base x.peer.hi ∧ x.peer.acked = x.peer.hi

section Pump

/-- What a segment may do to what the peer has told. -/
structure Heeded (p q : Peer) : Prop where
  base : q.base = p.base
  hi : q.hi = p.hi
  heard : p.heard ⊆ q.heard
  acked : (q.acked = p.acked ∧ (q.progress = false → p.progress = false)) ∨
    (p.acked ≤ q.acked ∧ q.acked ≤ p.hi ∧ serial q.base q.acked ∈ q.heard ∧ q.progress = true)

theorem Heeded.refl (p : Peer) : Heeded p p := ⟨rfl, rfl, List.Subset.refl _, .inl ⟨rfl, id⟩⟩

theorem Heeded.trans {p q r : Peer} (first : Heeded p q) (second : Heeded q r) : Heeded p r := by
  obtain ⟨base, hi, heard, acked⟩ := first
  obtain ⟨base', hi', heard', acked'⟩ := second
  refine ⟨base'.trans base, hi'.trans hi, List.Subset.trans heard heard', ?_⟩
  rcases acked' with ⟨still, quiet⟩ | ⟨above, below, told, fresh⟩
  · rcases acked with ⟨still', quiet'⟩ | ⟨above', below', told', fresh'⟩
    · exact .inl ⟨still.trans still', fun none => quiet' (quiet none)⟩
    · refine .inr ⟨still.symm ▸ above', still.symm ▸ below', ?_, ?_⟩
      · rw [base', still]
        exact heard' told'
      · by_contra none
        exact Bool.false_ne_true ((quiet (Bool.not_eq_true _ ▸ none)).symm.trans fresh')
  · refine .inr ⟨?_, hi ▸ below, told, fresh⟩
    rcases acked with ⟨still', -⟩ | ⟨above', -⟩
    · exact still' ▸ above
    · exact above'.trans above

variable {p : Peer}

theorem onAck_heeded (bound : p.hi ≤ 2 ^ 31) (low : p.acked ≤ p.hi) (t : Segment)
    (told : t.ackNum ∈ p.heard) :
    Heeded p (p.onAck t) := by
  simp only [Peer.onAck]
  split
  · rename_i fresh
    obtain ⟨above, below⟩ := fresh
    refine ⟨rfl, rfl, List.Subset.refl _, .inr ?_⟩
    rw [Int32.lt_iff_toInt_lt, toInt_toInt32, toInt_toInt32, UInt32.toNat_ofNat'] at above
    rw [Int32.le_iff_toInt_le, toInt_toInt32, toInt_toInt32, UInt32.toNat_ofNat'] at below
    have range := (t.ackNum - p.base).toNat_lt
    have back : serial p.base (t.ackNum - p.base).toNat = t.ackNum := by
      rw [serial, UInt32.ofNat_toNat]
      grind
    refine ⟨?_, ?_, by rwa [back], rfl⟩
    · show p.acked ≤ (t.ackNum - p.base).toNat
      split at above <;> split at above <;> split at below <;> split at below <;> omega
    · show (t.ackNum - p.base).toNat ≤ p.hi
      split at above <;> split at above <;> split at below <;> split at below <;> omega
  · split
    · exact ⟨rfl, rfl, List.Subset.refl _, .inl ⟨rfl, id⟩⟩
    · exact Heeded.refl p

theorem watch_heeded (bound : p.hi ≤ 2 ^ 31) (low : p.acked ≤ p.hi) (t : Segment) : Heeded p (p.watch t) := by
  obtain ⟨q, reset⟩ : ∃ q, (if t.has flagRst then { p with reset := true } else p) = q := ⟨_, rfl⟩
  have same : q.base = p.base ∧ q.hi = p.hi ∧ q.acked = p.acked ∧ q.heard = p.heard ∧
      q.progress = p.progress := by
    rw [← reset]
    split <;> exact ⟨rfl, rfl, rfl, rfl, rfl⟩
  obtain ⟨base, hi, acked, heard, progress⟩ := same
  simp only [Peer.watch, reset]
  split
  · obtain ⟨base', hi', heard', acked'⟩ := onAck_heeded
      (p := { q with window := swap16 t.windowSize, heard := q.heard ++ [t.ackNum] }) (hi.symm ▸ bound)
      (by rw [acked, hi]; exact low) t (List.mem_append_right _ (List.mem_singleton.mpr rfl))
    constructor
    · exact base'.trans base
    · exact hi'.trans hi
    · rw [← heard]
      exact List.Subset.trans (List.subset_append_left _ _) heard'
    · rcases acked' with ⟨still, quiet⟩ | ⟨above, below, told, fresh⟩
      · exact .inl ⟨still.trans acked, fun none => progress ▸ quiet none⟩
      · exact .inr ⟨acked ▸ above, hi ▸ below, told, fresh⟩
  · exact ⟨base, hi, fun _ member => heard ▸ member, .inl ⟨acked, fun none => progress ▸ none⟩⟩

variable (kernel : Nat → Bool) (job : Job) {x : Xfer}

theorem answerFin_heeded (t : Segment) :
    ∃ net q, answerFin kernel job x t = { x with net := net, peer := q } ∧
    Heeded x.peer q := by
  simp only [answerFin]
  split
  · split
    · exact ⟨_, _, rfl, rfl, rfl, List.Subset.refl _, .inl ⟨rfl, id⟩⟩
    · split
      · exact ⟨_, _, rfl, Heeded.refl _⟩
      · exact ⟨_, _, rfl, Heeded.refl _⟩
  · exact ⟨_, _, rfl, Heeded.refl _⟩

theorem pump_heeded (bound : x.peer.hi ≤ 2 ^ 31) (low : x.peer.acked ≤ x.peer.hi) (arrival : Option Segment) :
    ∃ net q, pump kernel job x arrival = { x with net := net, peer := q } ∧ Heeded x.peer q := by
  cases arrival with
  | none => exact ⟨_, _, rfl, Heeded.refl _⟩
  | some t =>
      have seen : Heeded x.peer (if x.peer.sends t then x.peer.watch t else x.peer) := by
        split
        · exact watch_heeded bound low t
        · exact Heeded.refl _
      cases own : ownFin job x t with
      | true =>
          obtain ⟨net, q, same, after⟩ := answerFin_heeded kernel job (x := { x with
            peer := if x.peer.sends t then x.peer.watch t else x.peer
            net := onTcpPacket kernel x.net job.pool { t with flags := t.flags &&& ~~~flagFin } }) t
          refine ⟨net, q, ?_, seen.trans after⟩
          simp only [pump, own, if_true]
          exact same
      | false =>
          refine ⟨onTcpPacket kernel x.net job.pool t, _, ?_, seen⟩
          simp only [pump, own, Bool.false_eq_true, if_false]

end Pump

/-- The fields of `Sending`. -/
def book (x : Xfer) :=
  (x.peer.base, x.peer.acked, x.peer.hi, x.peer.progress, x.peer.heard, x.disk, x.total, x.next,
    x.crcOff, x.crc32,
    x.stopped, x.wrote, x.phase)

section Loop
variable {job : Job} {x y : Xfer}

theorem Sending.congr (sending : Sending job x) (same : book y = book x) : Sending job y := by
  simp only [book, Prod.mk.injEq] at same
  obtain ⟨base, acked, hi, progress, heard, disk, total, next, crcOff, crc, stopped, wrote, same⟩ := same
  obtain ⟨low, reach, high, caught, told, known, stop, cached, folded, sum, written, phase⟩ := sending
  constructor
  · rwa [acked, hi]
  · rwa [next, hi]
  · rwa [hi]
  · rwa [progress, acked, next]
  · rwa [acked, base, heard]
  · rwa [total, hi, stopped]
  · rwa [stopped, total]
  · rwa [disk]
  · rwa [crcOff, hi]
  · rwa [crc, crcOff]
  · rwa [wrote, base]
  · rwa [same]

theorem Sending.heeded (sending : Sending job x) (net : Net) {q : Peer} (heeded : Heeded x.peer q) :
    Sending job { x with net := net, peer := q } := by
  obtain ⟨base, hi, told, acked⟩ := heeded
  obtain ⟨low, reach, high, caught, heard, known, stop, cached, folded, sum, written, phase⟩ := sending
  constructor
  · show q.acked ≤ q.hi
    rcases acked with ⟨still, -⟩ | ⟨-, below, -, -⟩ <;> omega
  · show x.next ≤ q.hi
    rwa [hi]
  · show q.hi ≤ job.stream.length
    rwa [hi]
  · intro none
    show q.acked ≤ x.next
    rcases acked with ⟨still, quiet⟩ | ⟨-, -, -, fresh⟩
    · rw [still]
      exact caught (quiet none)
    · exact absurd (none.symm.trans fresh) Bool.false_ne_true
  · show q.acked = 0 ∨ serial q.base q.acked ∈ q.heard
    rcases acked with ⟨still, -⟩ | ⟨-, -, fresh, -⟩
    · rw [still, base]
      exact heard.imp id (@told _)
    · exact .inr fresh
  · show ∀ t, x.total = some t → q.hi ≤ t ∧ _
    rwa [hi]
  · exact stop
  · exact cached
  · show x.crcOff = q.hi - _
    rwa [hi]
  · exact sum
  · show ∀ w ∈ x.wrote, Slice job q.base w
    rwa [base]
  · exact phase

theorem stopHere_sending (sending : Sending job x) (keep : job.keepOpen = true) :
    Sending job (stopHere x) := by
  obtain ⟨low, reach, high, caught, heard, -, -, cached, folded, sum, written, phase⟩ := sending
  have top : (if x.peer.hi > x.next then x.peer.hi else x.next) = x.peer.hi := by
    split <;> omega
  refine ⟨low, reach, high, caught, heard, ?_, fun _ => ⟨keep, ?_⟩, cached, folded, sum, written, phase⟩
  · intro t total
    rw [stopHere, top] at total
    obtain rfl := Option.some.inj total
    exact ⟨Nat.le_refl _, high, fun going => absurd going.symm Bool.false_ne_true⟩
  · exact Option.some_ne_none _

theorem onProgress_sending (sending : Sending job x) (now : UInt64) :
    Sending job (onProgress x now) ∧ (onProgress x now).peer.acked ≤ (onProgress x now).next := by
  obtain ⟨low, reach, high, caught, heard, known, stop, cached, folded, sum, written, phase⟩ := sending
  simp only [onProgress]
  split
  · obtain ⟨n, moved⟩ : ∃ n, (if x.next < x.peer.acked then x.peer.acked else x.next) = n := ⟨_, rfl⟩
    have bounds : x.peer.acked ≤ n ∧ n ≤ x.peer.hi := by
      split at moved <;> omega
    rw [moved]
    exact ⟨⟨low, bounds.2, high, fun _ => bounds.1, heard, known, stop, cached, folded, sum,
      written, phase⟩, bounds.1⟩
  · rename_i quiet
    exact ⟨⟨low, reach, high, caught, heard, known, stop, cached, folded, sum, written, phase⟩,
      caught (Bool.not_eq_true _ ▸ quiet)⟩

theorem goBack_sending (sending : Sending job x) (caught : x.peer.acked ≤ x.next) (now : UInt64) :
    Sending job (goBack x now) ∧ (goBack x now).peer.acked ≤ (goBack x now).next := by
  obtain ⟨low, reach, high, -, heard, known, stop, cached, folded, sum, written, phase⟩ := sending
  simp only [goBack]
  split
  · exact ⟨⟨low, low, high, fun _ => Nat.le_refl _, heard, known, stop, cached, folded, sum,
      written, phase⟩, Nat.le_refl _⟩
  · split
    · exact ⟨⟨low, low, high, fun _ => Nat.le_refl _, heard, known, stop, cached, folded, sum,
        written, phase⟩,
        Nat.le_refl _⟩
    · exact ⟨⟨low, reach, high, fun _ => caught, heard, known, stop, cached, folded, sum, written,
        phase⟩, caught⟩

theorem fold_sum {buf : Bytes} (folded : x.crcOff = x.peer.hi - job.head.length)
    (sum : x.crc32 = crc32 (job.source.content.take x.crcOff)) (reach : x.next ≤ x.peer.hi)
    (slice : buf = (job.stream.drop x.next).take buf.length) :
    (fold job x buf).crcOff = max x.peer.hi (x.next + buf.length) - job.head.length ∧
      (fold job x buf).crc32 = crc32 (job.source.content.take (fold job x buf).crcOff) := by
  simp only [fold]
  split
  · rename_i new
    have begun : ¬x.next > x.crcOff + job.head.length := by omega
    have ahead : max x.peer.hi (x.next + buf.length) = x.next + buf.length := by omega
    refine ⟨by rw [ahead], ?_⟩
    rw [if_neg begun]
    have piece : buf.drop (x.crcOff + job.head.length - x.next) =
        (job.source.content.drop x.crcOff).take (x.next + buf.length - job.head.length - x.crcOff) := by
      have place : x.next + (x.crcOff + job.head.length - x.next) = job.head.length + x.crcOff := by omega
      have amount : buf.length - (x.crcOff + job.head.length - x.next) =
          x.next + buf.length - job.head.length - x.crcOff := by omega
      conv_lhs => rw [slice]
      rw [List.drop_take, List.drop_drop, place, amount, Job.stream, ← List.drop_drop, List.drop_left]
    show crc32Update x.crc32 _ = crc32 (job.source.content.take (x.next + buf.length - job.head.length))
    have whole : x.next + buf.length - job.head.length =
        x.crcOff + (x.next + buf.length - job.head.length - x.crcOff) := by omega
    rw [piece, crc32Update, sum, ← crc32_append, ← List.take_add, ← whole]
  · rename_i old
    refine ⟨?_, sum⟩
    rw [folded]
    omega

variable (kernel : Nat → Bool)

/-- A segment as the books show it: the number its first byte has, and where the
cursors are behind it. -/
def posted (job : Job) (x : Xfer) (buf : Bytes) : Xfer :=
  { x with
    next := x.next + buf.length
    peer := { x.peer with hi := max x.peer.hi (x.next + buf.length) }
    crcOff := (fold job x buf).crcOff
    crc32 := (fold job x buf).crc32
    wrote := x.wrote ++ [(serial x.peer.base x.next, buf)] }

theorem emit_book (buf : Bytes) (now : UInt64) :
    book (emit kernel job x buf now) = book (posted job x buf) := by
  have rest : (fold job x buf).next = x.next ∧ (fold job x buf).peer = x.peer ∧
    (fold job x buf).total = x.total ∧
      (fold job x buf).stopped = x.stopped ∧ (fold job x buf).disk = x.disk ∧
        (fold job x buf).wrote = x.wrote ∧
      (fold job x buf).phase = x.phase := by
    simp only [fold]
    split <;> exact ⟨rfl, rfl, rfl, rfl, rfl, rfl, rfl⟩
  obtain ⟨next, peer, total, stopped, disk, wrote, phase⟩ := rest
  have top : (if x.next + buf.length > x.peer.hi then x.next + buf.length else x.peer.hi) =
      max x.peer.hi (x.next + buf.length) := by
    split <;> omega
  simp [book, emit, writeAt, posted, next, peer, total, stopped, disk, wrote, phase, serial, Net.set, top]

theorem emit_sending (sending : Sending job x) (caught : x.peer.acked ≤ x.next) {buf : Bytes}
    (slice : buf = (job.stream.drop x.next).take buf.length)
    (within : x.next + buf.length ≤ job.stream.length)
    (allowed : ∀ t, x.total = some t → x.next + buf.length ≤ t) (now : UInt64) :
    Sending job (emit kernel job x buf now) := by
  apply Sending.congr _ (emit_book kernel buf now)
  obtain ⟨low, reach, high, -, heard, known, stop, cached, folded, sum, written, phase⟩ := sending
  obtain ⟨foldedMore, sumMore⟩ := fold_sum folded sum reach slice
  constructor
  · exact low.trans (Nat.le_max_left _ _)
  · exact Nat.le_max_right _ _
  · exact Nat.max_le.mpr ⟨high, within⟩
  · exact fun _ => caught.trans (Nat.le_add_right _ _)
  · exact heard
  · intro t total
    obtain ⟨above, bound, whole⟩ := known t total
    exact ⟨Nat.max_le.mpr ⟨above, allowed t total⟩, bound, whole⟩
  · exact stop
  · exact cached
  · exact foldedMore
  · exact sumMore
  · intro w member
    rcases List.mem_append.mp member with old | last
    · exact written w old
    · obtain rfl := List.mem_singleton.mp last
      exact ⟨x.next, rfl, slice, within⟩
  · exact phase

/-- What `stream_copy` may have handed out when `wanted` bytes were asked for. -/
def Copied (job : Job) (x : Xfer) (buf : Bytes) : Prop := buf = (job.stream.drop x.next).take (wanted x)

theorem Copied.length {buf : Bytes} (copied : Copied job x buf) :
    buf.length = min (wanted x) (job.stream.length - x.next) := by
  rw [copied, List.length_take, List.length_drop]

theorem noteEnd_kept (buf : Bytes) : (noteEnd x buf).next = x.next ∧ (noteEnd x buf).peer = x.peer := by
  simp only [noteEnd]
  split <;> exact ⟨rfl, rfl⟩

theorem noteEnd_total {buf : Bytes} (going : more x = true) (copied : Copied job x buf) (t : Nat)
    (total : (noteEnd x buf).total = some t) : x.next + buf.length ≤ t := by
  have length := copied.length
  simp only [noteEnd] at total
  split at total
  · exact Nat.le_of_eq (Option.some.inj total)
  · simp only [more, total, decide_eq_true_eq] at going
    simp only [wanted, total] at length
    omega

theorem noteEnd_sending (sending : Sending job x) {buf : Bytes} (copied : Copied job x buf) :
    Sending job (noteEnd x buf) := by
  have length := copied.length
  have ends := sending.reach.trans sending.high
  simp only [noteEnd]
  split
  · rename_i short
    obtain ⟨low, reach, high, caught, heard, known, stop, cached, folded, sum, written, phase⟩ := sending
    have whole : x.next + buf.length = job.stream.length := by omega
    refine ⟨low, reach, high, caught, heard, ?_, ?_, cached, folded, sum, written, phase⟩
    · intro t total
      obtain rfl := Option.some.inj total
      exact ⟨whole ▸ high, Nat.le_of_eq whole, fun _ => whole⟩
    · intro stopped
      exact ⟨(stop stopped).1, Option.some_ne_none _⟩
  · exact sending

theorem sent_sending (sending : Sending job x) (caught : x.peer.acked ≤ x.next)
    (going : more x = true) {buf : Bytes}
    (copied : Copied job x buf) (now : UInt64) : Sending job (emit kernel job (noteEnd x buf) buf now) := by
  have length := copied.length
  have ends := sending.reach.trans sending.high
  obtain ⟨next, peer⟩ := noteEnd_kept (x := x) buf
  apply emit_sending kernel (noteEnd_sending sending copied)
  · rwa [peer, next]
  · have amount : wanted x = buf.length ∨ job.stream.length - x.next ≤ buf.length := by omega
    rw [next]
    rcases amount with whole | short
    · rw [← whole]
      exact copied
    · have rest : (job.stream.drop x.next).length ≤ buf.length := by
        rw [List.length_drop]
        exact short
      have all : (job.stream.drop x.next).length ≤ wanted x := by
        rw [List.length_drop]
        omega
      rw [List.take_of_length_le rest]
      exact copied.trans (List.take_of_length_le all)
  · rw [next]
    omega
  · rw [next]
    exact noteEnd_total going copied

theorem next_of_book (same : book y = book x) : y.next = x.next ∧ y.peer.acked = x.peer.acked := by
  simp only [book, Prod.mk.injEq] at same
  exact ⟨same.2.2.2.2.2.2.2.1, same.2.1⟩

theorem sent_next (job : Job) (x : Xfer) (buf : Bytes) (now : UInt64) :
    (emit kernel job (noteEnd x buf) buf now).next = x.next + buf.length ∧
      (emit kernel job (noteEnd x buf) buf now).peer.acked = x.peer.acked := by
  obtain ⟨next, acked⟩ :=
    next_of_book (emit_book kernel buf now : book (emit kernel job (noteEnd x buf) buf now) = _)
  obtain ⟨kept, peer⟩ := noteEnd_kept (x := x) buf
  constructor
  · rw [next, posted, kept]
  · rw [acked, posted, peer]

/-- Why the loop stops: nothing is left, a read failed, or the window is full. -/
def Settled (limit : Nat) (x : Xfer) : Prop :=
  more x = false ∨ x.disk.readError = true ∨
    (x.next - x.peer.acked ≠ 0 ∧ x.next - x.peer.acked + wanted x > limit)

theorem wanted_pos (going : more x = true) : 0 < wanted x := by
  simp only [more] at going
  simp only [wanted]
  split at going
  · rename_i t total
    simp only [decide_eq_true_eq] at going
    simp only [segSize]
    omega
  · simp only [segSize]
    decide

theorem noteEnd_nil (going : more x = true) : more (noteEnd x []) = false := by
  have positive := wanted_pos going
  simp [noteEnd, positive, more]

theorem fill_spec (disk : Nat → Bool) (limit : Nat) (now : UInt64) (fuel : Nat) (sending : Sending job x)
    (caught : x.peer.acked ≤ x.next) (enough : job.stream.length - x.next < fuel) :
    Sending job (fill kernel disk job limit now fuel x) ∧
      Settled limit (fill kernel disk job limit now fuel x) := by
  induction fuel generalizing x with
  | zero => omega
  | succ fuel ih =>
      simp only [fill]
      split
      · rename_i going
        split
        · rename_i blocked
          exact ⟨sending, .inr (.inr blocked)⟩
        · obtain ⟨copy, copied⟩ : ∃ copy, streamCopy disk job x.disk x.next (wanted x) = copy := ⟨_, rfl⟩
          obtain ⟨cached, bytes⟩ := streamCopy_spec disk sending.cached x.next (wanted x)
          rw [copied] at cached bytes ⊢
          obtain ⟨low, reach, high, caught', heard, known, stop, -, folded, sum, written, phase⟩ := sending
          have read : Sending job { x with disk := copy.1 } :=
            ⟨low, reach, high, caught', heard, known, stop, cached, folded, sum, written, phase⟩
          split
          · rename_i failed
            exact ⟨read, .inr (.inl failed)⟩
          · rename_i clean
            have slice : Copied job { x with disk := copy.1 } copy.2 := bytes (Bool.not_eq_true _ ▸ clean)
            split
            · rename_i nothing
              refine ⟨noteEnd_sending read slice, ?_⟩
              rw [nothing]
              exact .inl (noteEnd_nil going)
            · rename_i some_data
              obtain ⟨next, acked⟩ := sent_next kernel job { x with disk := copy.1 } copy.2 now
              have positive := List.length_pos_iff.mpr some_data
              have length : copy.2.length = min (wanted x) (job.stream.length - x.next) := slice.length
              apply ih (sent_sending kernel read caught going slice now)
              · rw [next, acked]
                exact caught.trans (Nat.le_add_right _ _)
              · rw [next]
                show job.stream.length - (x.next + copy.2.length) < fuel
                omega
      · rename_i nothing
        exact ⟨sending, .inl (Bool.not_eq_true _ ▸ nothing)⟩

end Loop

section Ends
variable {kernel disk : Nat → Bool} {job : Job} {x : Xfer}

theorem Sending.delivered (sending : Sending job x) : Delivered job x where
  wrote := sending.wrote
  low := sending.low
  reach := sending.reach
  high := .inl sending.high
  ok := fun ok => by rw [sending.phase] at ok; cases ok
  session := fun _ ended => by rw [sending.phase] at ended; rcases ended with other | other <;> cases other

theorem Closing.delivered (closing : Closing job x)
    (phase : x.phase = .returned .ok ∨ ∃ n, x.phase = .closing n) : Delivered job x where
  wrote := closing.wrote
  low := closing.low
  reach := closing.reach
  high := .inr ⟨closing.hi, closing.handed, phase⟩
  ok := fun _ => ⟨closing.arrived, closing.heard, closing.bytes, closing.sum⟩
  session := fun keep => absurd (closing.handed.symm.trans keep) Bool.false_ne_true

/-- The invariant of a transfer. -/
def Kept (job : Job) (x : Xfer) : Prop :=
  match x.phase with
  | .sending => Sending job x
  | .closing _ => Closing job x
  | .returned _ => Delivered job x

theorem Kept.delivered (kept : Kept job x) : Delivered job x := by
  cases phase : x.phase with
  | sending =>
      rw [Kept, phase] at kept
      exact kept.delivered
  | closing n =>
      rw [Kept, phase] at kept
      exact kept.delivered (.inr ⟨n, phase⟩)
  | returned status =>
      rwa [Kept, phase] at kept

theorem finishStream_kept (sending : Sending job x) {total : Nat} (known : x.total = some total)
    (arrived : total ≤ x.peer.acked) (later : UInt64) : Kept job (finishStream kernel job x total later) := by
  obtain ⟨low, reach, high, -, heard, bounds, stop, -, folded, sum, written, phase⟩ := sending
  obtain ⟨above, within, whole⟩ := bounds total known
  have all : x.peer.acked = total ∧ x.peer.hi = total := by omega
  have content : job.stream.length - job.head.length = job.source.content.length := by
    rw [Job.stream, List.length_append, Nat.add_sub_cancel_left]
  have heardAll (going : x.stopped = false) :
      job.stream.length = 0 ∨ serial x.peer.base job.stream.length ∈ x.peer.heard := by
    rw [← whole going, ← all.1]
    exact heard
  have sumAll (going : x.stopped = false) : x.crc32 = crc32 job.source.content := by
    rw [sum, folded, all.2, whole going, content, List.take_length]
  simp only [finishStream]
  split
  · rename_i keep
    show Delivered job _
    refine ⟨written, low, reach, .inl high, ?_, ?_⟩
    · intro ok
      have going : x.stopped = false := by
        by_contra stopped
        simp [Xfer.leave, stopped] at ok
      refine ⟨?_, heardAll going, ?_, sumAll going⟩
      · show job.stream.length ≤ x.peer.acked
        rw [← whole going]
        exact arrived
      · show total - job.head.length = _
        rw [whole going, content]
    · intro _ _
      refine ⟨?_, all.1.trans all.2.symm⟩
      simp [Xfer.leave, Xfer.conn, Net.set, serial, all.2]
  · rename_i hand
    have going : x.stopped = false := by
      by_contra stopped
      exact hand (stop (Bool.not_eq_false _ ▸ stopped)).1
    have length := whole going
    show Closing job _
    refine ⟨Bool.not_eq_true _ ▸ hand, ?_, ?_, ?_, ?_, ?_, heardAll going, ?_, sumAll going, written⟩
    · rw [← length]
      exact known
    · show total + 1 = _
      rw [length]
    · exact length ▸ arrived
    · show x.peer.acked ≤ total + 1
      omega
    · show x.next ≤ total + 1
      omega
    · show total - job.head.length = _
      rw [length, content]

theorem abortConn_form (kernel : Nat → Bool) (job : Job) (x : Xfer) :
    ∃ net, abortConn kernel job x = { x with net := net } := by
  simp only [abortConn]
  split
  · exact ⟨_, rfl⟩
  · exact ⟨_, rfl⟩

theorem leave_kept (sending : Sending job x) {status : Status} (early : status ≠ .ok)
    (kept : status = .cancelled → job.keepOpen = false) : Kept job (x.leave status) := by
  show Delivered job _
  refine ⟨sending.wrote, sending.low, sending.reach, .inl sending.high, ?_, ?_⟩
  · intro ok
    exact absurd (Phase.returned.inj ok) early
  · intro keep ended
    rcases ended with ok | cancelled
    · exact absurd (Phase.returned.inj ok) early
    · exact absurd ((kept (Phase.returned.inj cancelled)).symm.trans keep) Bool.false_ne_true

theorem abort_kept (sending : Sending job x) {status : Status} (early : status ≠ .ok)
    (kept : status = .cancelled → job.keepOpen = false) :
    Kept job ((abortConn kernel job x).leave status) := by
  obtain ⟨net, form⟩ := abortConn_form kernel job x
  rw [form]
  have stopped : Sending job { x with net := net } := sending.congr rfl
  exact leave_kept stopped early kept

theorem Sending.kept (sending : Sending job x) : Kept job x := by
  rw [Kept, sending.phase]
  exact sending

theorem sendMore_kept (sending : Sending job x) (caught : x.peer.acked ≤ x.next) (now later : UInt64) :
    Kept job (sendMore kernel disk job x now later) := by
  obtain ⟨back, caughtBack⟩ := goBack_sending sending caught now
  obtain ⟨filled, -⟩ := fill_spec kernel disk (window (goBack x now)) now
    (job.stream.length - (goBack x now).next + 1) back caughtBack (Nat.lt_succ_self _)
  simp only [sendMore]
  split
  · exact abort_kept filled (by decide) fun other => by cases other
  · split
    · rename_i total known
      split
      · rename_i arrived
        exact finishStream_kept filled known arrived.2 later
      · exact filled.kept
    · exact filled.kept

theorem sendOn_kept (sending : Sending job x) (now later : UInt64) :
    Kept job (sendOn kernel disk job x now later) := by
  obtain ⟨onward, caught⟩ := onProgress_sending sending now
  simp only [sendOn]
  split
  · rename_i done
    simp only [arrived] at done
    split at done
    · rename_i total known
      rw [known]
      exact finishStream_kept onward known (of_decide_eq_true done) later
    · cases done
  · split
    · exact abort_kept onward (by decide) fun other => by cases other
    · exact sendMore_kept onward caught now later

theorem sendTurn_kept (short : job.stream.length < 2 ^ 31) (sending : Sending job x)
    (arrival : Option Segment)
    (now later : UInt64) : Kept job (sendTurn kernel disk job x arrival now later) := by
  have bound := sending.high
  obtain ⟨net, q, pumped, heeded⟩ := pump_heeded kernel job (by omega) sending.low arrival
  have after := sending.heeded net heeded
  simp only [sendTurn, pumped]
  split
  · exact leave_kept after (by decide) fun other => by cases other
  · split
    · have taken : Sending job (takeKey job { x with net := net, peer := q }) := after.congr rfl
      split
      · rename_i keep
        exact sendOn_kept (stopHere_sending taken keep) now later
      · rename_i hand
        exact abort_kept taken (by decide) fun _ => Bool.not_eq_true _ ▸ hand
    · exact sendOn_kept after now later

theorem Closing.heeded (closing : Closing job x) (net : Net) {q : Peer} (heeded : Heeded x.peer q) :
    Closing job { x with net := net, peer := q } := by
  obtain ⟨base, hi, told, acked⟩ := heeded
  obtain ⟨handed, total, top, arrived, low, reach, heard, bytes, sum, wrote⟩ := closing
  have range : x.peer.acked ≤ q.acked ∧ q.acked ≤ x.peer.hi := by
    rcases acked with ⟨still, -⟩ | ⟨above, below, -, -⟩ <;> omega
  constructor
  · exact handed
  · exact total
  · exact hi.trans top
  · exact arrived.trans range.1
  · show q.acked ≤ q.hi
    rw [hi]
    exact range.2
  · show x.next ≤ q.hi
    rwa [hi]
  · show _ ∨ serial q.base _ ∈ q.heard
    rw [base]
    exact heard.imp id (@told _)
  · exact bytes
  · exact sum
  · show ∀ w ∈ x.wrote, Slice job q.base w
    rwa [base]

/-- The fields of `Closing`. -/
def tally (x : Xfer) :=
  (x.total, x.peer.base, x.peer.acked, x.peer.hi, x.peer.heard, x.next, x.bytes, x.crc32, x.wrote)

theorem Closing.congr {y : Xfer} (closing : Closing job x) (same : tally y = tally x) : Closing job y := by
  simp only [tally, Prod.mk.injEq] at same
  obtain ⟨total, base, acked, hi, heard, next, bytes, crc, wrote⟩ := same
  obtain ⟨handed, known, top, arrived, low, reach, told, length, sum, written⟩ := closing
  constructor
  · exact handed
  · rwa [total]
  · rwa [hi]
  · rwa [acked]
  · rwa [acked, hi]
  · rwa [next, hi]
  · rwa [base, heard]
  · rwa [bytes]
  · rwa [crc]
  · rwa [wrote, base]

theorem Closing.kept (closing : Closing job x) (phase : x.phase = .returned .ok ∨ ∃ n, x.phase = .closing n) :
    Kept job x := by
  rcases phase with done | ⟨n, waiting⟩
  · rw [Kept, done]
    exact closing.delivered (.inl done)
  · rw [Kept, waiting]
    exact closing

theorem closing_leaves (closing : Closing job x) : Kept job (x.leave .ok) := by
  have left : Closing job (x.leave .ok) := closing.congr rfl
  exact left.kept (.inl rfl)

theorem closeTurn_kept (short : job.stream.length < 2 ^ 31) (closing : Closing job x) {tries : Nat}
    (phase : x.phase = .closing tries) (arrival : Option Segment) (now later : UInt64) :
    Kept job (closeTurn kernel job x tries arrival now later) := by
  have bound := closing.hi
  obtain ⟨net, q, pumped, heeded⟩ := pump_heeded kernel job (by omega) closing.low arrival
  have after := closing.heeded net heeded
  simp only [closeTurn, pumped]
  split
  · exact closing_leaves after
  · split
    · split
      · exact closing_leaves (after.congr rfl)
      · exact closing_leaves after
    · split
      · obtain ⟨p, next⟩ :
            ∃ p, (if tries + 1 < finTries then Phase.closing (tries + 1) else .returned .ok) = p :=
          ⟨_, rfl⟩
        rw [next]
        split at next
        · exact Closing.kept (after.congr rfl) (.inr ⟨tries + 1, next.symm⟩)
        · exact Closing.kept (after.congr rfl) (.inl next.symm)
      · exact after.kept (.inr ⟨tries, phase⟩)

end Ends

section Runs
variable (kernel disk : Nat → Bool) (job : Job)

/-- `send_stream` from its call on, whatever arrives and whatever the clock says. -/
inductive Reach : Xfer → Prop where
  | begin (net : Net) (p : Peer) (reads : Nat) (now : UInt64) : Reach (begin job net p reads now)
  | turn {x : Xfer} (arrival : Option Segment) (now later : UInt64) :
      Reach x → Reach (turn kernel disk job x arrival now later)

/-- What the callers say of the size is the file's. -/
def Sized : Prop := ∀ n, job.size = some n → n = job.source.content.length

variable {kernel disk job}

theorem begin_kept (sized : Sized job) (net : Net) (p : Peer) (reads : Nat) (now : UInt64) :
    Kept job (begin job net p reads now) := by
  apply Sending.kept
  constructor
  · exact Nat.le_refl _
  · exact Nat.le_refl _
  · exact Nat.zero_le _
  · exact fun _ => Nat.le_refl _
  · exact .inl rfl
  · intro t total
    obtain ⟨n, size, rfl⟩ := Option.map_eq_some_iff.mp total
    have whole : job.head.length + n = job.stream.length := by
      rw [sized n size, Job.stream, List.length_append]
    exact ⟨Nat.zero_le _, Nat.le_of_eq whole, fun _ => whole⟩
  · exact fun stopped => absurd stopped Bool.false_ne_true
  · exact fun _ valid => absurd valid Bool.false_ne_true
  · exact (Nat.zero_sub _).symm
  · show 0 = crc32 (job.source.content.take 0)
    rw [List.take_zero, crc32_nil]
  · intro w member
    cases member
  · rfl

theorem turn_kept (short : job.stream.length < 2 ^ 31) {x : Xfer} (kept : Kept job x)
    (arrival : Option Segment)
    (now later : UInt64) : Kept job (turn kernel disk job x arrival now later) := by
  cases phase : x.phase with
  | sending =>
      rw [turn, phase]
      rw [Kept, phase] at kept
      exact sendTurn_kept short kept arrival now later
  | closing tries =>
      rw [turn, phase]
      rw [Kept, phase] at kept
      exact closeTurn_kept short kept phase arrival now later
  | returned status =>
      rw [turn, phase]
      exact kept

theorem reach_kept (sized : Sized job) (short : job.stream.length < 2 ^ 31) {x : Xfer}
    (run : Reach kernel disk job x) : Kept job x := by
  induction run with
  | begin net p reads now => exact begin_kept sized net p reads now
  | turn arrival now later run ih => exact turn_kept short ih arrival now later

theorem transfer_delivers (sized : Sized job) (short : job.stream.length < 2 ^ 31) (x : Xfer)
    (run : Reach kernel disk job x) : Delivered job x :=
  (reach_kept sized short run).delivered

section Download

/-- Two bytes of a file to a client on the port of the data connection. -/
def download : Job where
  head := []
  source := .file [72, 105]
  size := some 2
  keepOpen := false
  pool := [0, 1]
  session := 7
  conn := 1

def client : Socket :=
  { state := .established, localPort := 8023, remotePort := 40000, remoteIp := 5, used := true, seqNum := 1 }

def clientPeer : Peer where
  ip := 5
  rport := 40000
  lport := 8023
  base := 0
  acked := 0
  hi := 0
  window := 1024
  dup := 0
  progress := false
  reset := false
  fin := false
  heard := []

def clientAck (ack : UInt32) : Segment where
  srcIp := 5
  dstIp := 9
  sourcePort := 40000
  destPort := 8023
  seqNum := 1
  ackNum := ack
  headerLen := 20
  flags := flagAck
  windowSize := 1024
  packet := List.replicate 20 0

def always (_ : Nat) : Bool := true

def called : Xfer := begin download { sockets := fun a => if a = 1 then client else {} } clientPeer 0 0

/-- Both bytes out, both acknowledged, the FIN out. -/
def sentAll : Xfer := turn always always download called none 1 1
def closingNow : Xfer := turn always always download sentAll (some (clientAck 3)) 2 2
def closed : Xfer := turn always always download closingNow (some (clientAck 4)) 3 3

theorem download_sized : Sized download := fun _ size => (Option.some.inj size).symm

theorem closingNow_reach : Reach always always download closingNow :=
  .turn _ _ _ (.turn _ _ _ (.begin _ _ _ _))

theorem transfer_delivers_file : closed.phase = .returned .ok ∧ Delivered download closed :=
  ⟨by decide, transfer_delivers download_sized (by decide) closed (.turn _ _ _ closingNow_reach)⟩

/-- The FIN counts one in `hi`. -/
theorem fin_beyond_stream : ∃ (job : Job) (x : Xfer), Sized job ∧ job.stream.length < 2 ^ 31 ∧
    Reach always always job x ∧ ¬x.peer.hi ≤ job.stream.length :=
  ⟨download, closingNow, download_sized, by decide, closingNow_reach, by decide⟩

end Download

end Runs
end R2Apps.TntXferDelivery
