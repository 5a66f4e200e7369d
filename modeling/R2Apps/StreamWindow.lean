import Mathlib.Order.Interval.Finset.Nat
import R2Apps.StreamDelivery
import R2Apps.StreamSockets

/-! The receive queue of `r2net/tcp_receive.go` against the receive window: what is queued lies apart,
behind the first gap and inside the window, so there is always room for the bytes of the gap. Places
are counted from one serial number, from `rcv` between two segments. -/
namespace R2Apps.StreamWindow
open SerialNumbers StreamReceive StreamSockets
open StreamDelivery (held held_cons)

def place (base : UInt32) (s : TcpSegment) : Nat := (s.seq - base).toNat

/-- The segments share no byte of the stream. -/
def Apart (base : UInt32) (s t : TcpSegment) : Prop :=
  s.data ≠ [] → t.data ≠ [] → place base s + s.data.length ≤ place base t ∨
    place base t + t.data.length ≤ place base s

/-- How many bytes the slots hold. -/
def stored : List TcpSegment → Nat
  | [] => 0
  | s :: rest => s.data.length + stored rest

/-- The queue while `rcv` stands `pos` behind `base`. -/
structure Held (base : UInt32) (pos : Nat) (c : Conn) : Prop where
  rcv : c.rcv = serial base pos
  near : pos ≤ c.rx.length
  fits : ∀ s ∈ c.reorder.segments, s.data ≠ [] → place base s + s.data.length + c.rx.length ≤ pos + 16384
  apart : c.reorder.segments.Pairwise (Apart base)
  bytes : c.reorder.bytes = stored c.reorder.segments
  room : c.rx.length + stored c.reorder.segments ≤ 16384

def Ahead (base : UInt32) (pos : Nat) (segments : List TcpSegment) : Prop :=
  ∀ s ∈ segments, s.data ≠ [] → pos < place base s

theorem seq_place (base : UInt32) (s : TcpSegment) : s.seq = serial base (place base s) := by
  simp only [serial, place, UInt32.ofNat_toNat]
  grind

theorem place_lt (base : UInt32) (s : TcpSegment) : place base s < 2 ^ 32 := UInt32.toNat_lt _

theorem apart_symm {base : UInt32} {s t : TcpSegment} (apart : Apart base s t) : Apart base t s :=
  fun there here => (apart here there).symm

theorem apart_empty {base : UInt32} {s : TcpSegment} (t : TcpSegment) (empty : s.data = []) :
    Apart base s t :=
  fun some_ => absurd empty some_

/-! ## Payloads -/

theorem payload_length (expected seq : UInt32) (data : List UInt8) (space : Int) :
    (tcpPayload expected seq data space).length ≤ data.length ∧
      (tcpPayload expected seq data space).length ≤ space.toNat := by
  unfold tcpPayload
  split
  · exact ⟨Nat.zero_le _, Nat.zero_le _⟩
  · dsimp only
    split
    · exact ⟨Nat.zero_le _, Nat.zero_le _⟩
    · have shorter : (if seq ≠ expected then data.drop (expected - seq).toNat else data).length ≤
          data.length := by
        split
        · rw [List.length_drop]
          omega
        · exact le_rfl
      generalize (if seq ≠ expected then data.drop (expected - seq).toNat else data) = rest at shorter ⊢
      have room : (if space < 0 then 0 else space).toNat = space.toNat := by
        split <;> omega
      generalize (if space < 0 then 0 else space) = cut at room ⊢
      split
      · rw [List.length_take, room]
        omega
      · exact ⟨shorter, by omega⟩

theorem payload_next (expected : UInt32) {data : List UInt8} {space : Int}
    (fits : (data.length : Int) ≤ space) :
    tcpPayload expected expected data space = data := by
  unfold tcpPayload
  have zero : ¬ (expected - expected).toInt32 > 0 := by
    rw [UInt32.sub_self]
    decide
  rw [if_neg zero]
  simp only [ne_eq, not_true_eq_false, false_and, if_false]
  rw [if_neg]
  split <;> omega

/-! ## One scan of the queue -/

/-- What a scan for position `p` leaves and gives: a slot is as before or empty. -/
structure Scanned (base : UInt32) (p : Nat) (before after : List TcpSegment) (freed : Int)
    (data : List UInt8) :
    Prop where
  kept : List.Forall₂ (fun s t => t = s ∨ t.data = []) before after
  freed : freed + stored after = stored before
  given : data.length + stored after ≤ stored before
  caught : data = [] → Ahead base p after
  fewer : held after + (if data = [] then 0 else 1) ≤ held before

section Scan
variable {base : UInt32} {p : Nat}

theorem scanned_keep {s : TcpSegment} {rest after : List TcpSegment} {freed : Int} {data : List UInt8}
    (tail : Scanned base p rest after freed data) (ahead : s.data ≠ [] → p < place base s) :
    Scanned base p (s :: rest) (s :: after) freed data := by
  have freed := tail.freed
  have given := tail.given
  have fewer := tail.fewer
  refine ⟨.cons (.inl rfl) tail.kept, ?_, ?_, ?_, ?_⟩
  · simp only [stored, Int.natCast_add]
    omega
  · simp only [stored]
    omega
  · intro none_ t member
    rcases List.mem_cons.mp member with rfl | member
    · exact ahead
    · exact tail.caught none_ t member
  · rw [held_cons, held_cons]
    omega

theorem scanned_clear {s : TcpSegment} {rest after : List TcpSegment} {freed : Int} {data : List UInt8}
    (tail : Scanned base p rest after freed data) :
    Scanned base p (s :: rest) ({} :: after) (s.data.length + freed) data := by
  have freed := tail.freed
  have given := tail.given
  have fewer := tail.fewer
  refine ⟨.cons (.inr rfl) tail.kept, ?_, ?_, ?_, ?_⟩
  · simp only [stored, List.length_nil, Int.natCast_add]
    omega
  · simp only [stored, List.length_nil]
    omega
  · intro none_ t member some_
    rcases List.mem_cons.mp member with rfl | member
    · exact absurd rfl some_
    · exact tail.caught none_ t member some_
  · rw [held_cons, held_cons]
    simp only [if_true]
    omega

theorem kept_refl (segments : List TcpSegment) :
    List.Forall₂ (fun s t : TcpSegment => t = s ∨ t.data = []) segments segments := by
  induction segments with
  | nil => exact .nil
  | cons s rest ih => exact .cons (.inl rfl) ih

theorem takeFrom_scanned (segments : List TcpSegment)
    (near : ∀ s ∈ segments, s.data ≠ [] → place base s ≤ p + 2 ^ 30) (small : p ≤ 2 ^ 30) :
    Scanned base p segments (takeFrom (serial base p) segments).1 (takeFrom (serial base p) segments).2.1
      (takeFrom (serial base p) segments).2.2 := by
  induction segments with
  | nil =>
      refine ⟨.nil, rfl, le_rfl, ?_, le_rfl⟩
      exact fun _ s member => absurd member List.not_mem_nil
  | cons s rest ih =>
      have tail := ih fun t member => near t (List.mem_cons_of_mem s member)
      have here := near s List.mem_cons_self
      rw [takeFrom]
      by_cases idle : s.data.isEmpty = true ∨ (s.seq - serial base p).toInt32 > 0
      · rw [if_pos idle]
        refine scanned_keep tail fun some_ => ?_
        have ahead := idle.resolve_left (by simpa using some_)
        have close := here some_
        rw [seq_place base s, gt_iff_lt, positive_distance base (by omega) (by omega)] at ahead
        exact ahead.1
      · rw [if_neg idle]
        have some_ : s.data ≠ [] := fun nothing => idle (.inl (by simp [nothing]))
        dsimp only
        split
        · exact scanned_clear tail
        · next more =>
          have notNil : tcpPayload (serial base p) s.seq s.data s.data.length ≠ [] := by simpa using more
          refine ⟨.cons (.inr rfl) (kept_refl rest), ?_, ?_, fun none_ => absurd none_ notNil, ?_⟩
          · simp only [stored, List.length_nil, Int.natCast_add]
            omega
          · have size := (payload_length (serial base p) s.seq s.data s.data.length).1
            simp only [stored, List.length_nil]
            omega
          · rw [held_cons, held_cons, if_neg notNil, if_neg some_]
            simp

theorem kept_mem {before after : List TcpSegment}
    (kept : List.Forall₂ (fun s t : TcpSegment => t = s ∨ t.data = []) before after) :
    ∀ t ∈ after, t.data ≠ [] → t ∈ before := by
  induction kept with
  | nil => exact fun t member => absurd member List.not_mem_nil
  | cons same _ ih =>
      intro t member some_
      rcases List.mem_cons.mp member with rfl | member
      · rcases same with rfl | empty
        · exact List.mem_cons_self
        · exact absurd empty some_
      · exact List.mem_cons_of_mem _ (ih t member some_)

theorem kept_apart {before after : List TcpSegment}
    (kept : List.Forall₂ (fun s t : TcpSegment => t = s ∨ t.data = []) before after)
    (apart : before.Pairwise (Apart base)) : after.Pairwise (Apart base) := by
  induction kept with
  | nil => exact .nil
  | cons same rest ih =>
      obtain ⟨head, tail⟩ := List.pairwise_cons.mp apart
      refine List.pairwise_cons.mpr ⟨fun t member => ?_, ih tail⟩
      rcases same with rfl | empty
      · intro here there
        exact head t (kept_mem rest t member there) here there
      · exact apart_empty t empty

end Scan

/-! ## Taking what is next -/

section Drain
variable {base : UInt32} {c : Conn} {pos : Nat}

theorem append_held (h : Held base pos c) {data : List UInt8}
    (room : c.rx.length + data.length + stored c.reorder.segments ≤ 16384) :
    Held base (pos + data.length) (c.append data) := by
  have near := h.near
  refine ⟨?_, ?_, ?_, h.apart, h.bytes, ?_⟩
  · rw [serial_add, ← h.rcv]
    rfl
  · simp only [Conn.append, List.length_append]
    omega
  · intro s member some_
    have fits := h.fits s member some_
    simp only [Conn.append, List.length_append]
    omega
  · simp only [Conn.append, List.length_append]
    exact room

theorem scan_held (h : Held base pos c) {after : List TcpSegment} {freed : Int} {data : List UInt8}
    (scan : Scanned base pos c.reorder.segments after freed data) :
    Held base pos { c with reorder := ⟨after, c.reorder.bytes - freed⟩ } ∧
      c.rx.length + data.length + stored after ≤ 16384 := by
  have bytes := h.bytes
  have room := h.room
  have freed := scan.freed
  have given := scan.given
  refine ⟨⟨h.rcv, h.near, ?_, kept_apart scan.kept h.apart, ?_, ?_⟩, by omega⟩
  · exact fun s member some_ => h.fits s (kept_mem scan.kept s member some_) some_
  · dsimp only
    omega
  · dsimp only
    omega

theorem drain_held (fuel : Nat) (h : Held base pos c) (enough : held c.reorder.segments < fuel) :
    ∃ pos', Held base pos' (c.drain fuel) ∧ Ahead base pos' (c.drain fuel).reorder.segments := by
  induction fuel generalizing c pos with
  | zero => exact absurd enough (Nat.not_lt_zero _)
  | succ fuel ih =>
      have near := h.near
      have room := h.room
      have places (s : TcpSegment) (member : s ∈ c.reorder.segments) (some_ : s.data ≠ []) :
          place base s ≤ pos + 2 ^ 30 := by
        have fits := h.fits s member some_
        omega
      have scan := takeFrom_scanned c.reorder.segments places (by omega)
      rw [← h.rcv] at scan
      obtain ⟨after, freed, data, taken⟩ :
          ∃ after freed data, takeFrom c.rcv c.reorder.segments = (after, freed, data) := ⟨_, _, _, rfl⟩
      rw [taken] at scan
      dsimp only at scan
      obtain ⟨kept, roomFor⟩ := scan_held h scan
      simp only [Conn.drain, TcpReorder.take, taken]
      split
      · next none_ =>
        exact ⟨pos, kept, scan.caught (by simpa using none_)⟩
      · next more =>
        have notNil : data ≠ [] := by simpa using more
        have fewer := scan.fewer
        rw [if_neg notNil] at fewer
        apply ih (append_held kept roomFor)
        simp only [Conn.append]
        omega

end Drain

/-! ## Between two segments -/

/-- The queue of an open connection. -/
structure Window (c : Conn) : Prop where
  bytes : c.reorder.bytes = stored c.reorder.segments
  ahead : ∀ s ∈ c.reorder.segments, s.data ≠ [] → 0 < place c.rcv s
  fits : ∀ s ∈ c.reorder.segments, s.data ≠ [] → place c.rcv s + s.data.length + c.rx.length ≤ 16384
  apart : c.reorder.segments.Pairwise (Apart c.rcv)
  room : c.rx.length + stored c.reorder.segments ≤ 16384

theorem window_held {c : Conn} (w : Window c) : Held c.rcv 0 c :=
  ⟨(UInt32.add_zero _).symm, Nat.zero_le _, fun s member some_ => by
    have fits := w.fits s member some_
    omega, w.apart, w.bytes, w.room⟩

theorem held_window {base : UInt32} {pos : Nat} {c : Conn} (h : Held base pos c)
    (ahead : Ahead base pos c.reorder.segments) : Window c := by
  have near := h.near
  have room := h.room
  have moved (s : TcpSegment) (member : s ∈ c.reorder.segments) (some_ : s.data ≠ []) :
      place base s = pos + place c.rcv s := by
    have behind := ahead s member some_
    have small := place_lt base s
    have same : place c.rcv s = (serial base (place base s) - serial base pos).toNat := by
      rw [place, ← h.rcv, ← seq_place]
    rw [same, toNat_behind base behind.le (by omega)]
    omega
  refine ⟨h.bytes, ?_, ?_, ?_, room⟩
  · intro s member some_
    have behind := ahead s member some_
    have place_ := moved s member some_
    omega
  · intro s member some_
    have fits := h.fits s member some_
    have place_ := moved s member some_
    omega
  · refine h.apart.imp_of_mem fun {s t} memberS memberT apart here there => ?_
    have placeS := moved s memberS here
    have placeT := moved t memberT there
    have apart := apart here there
    omega

theorem append_drain_window {c : Conn} (w : Window c) {data : List UInt8}
    (room : c.rx.length + data.length + stored c.reorder.segments ≤ 16384) :
    Window ((c.append data).drain (c.reorder.segments.length + 1)) := by
  have few : held c.reorder.segments ≤ c.reorder.segments.length := List.countP_le_length
  obtain ⟨pos, after, ahead⟩ := drain_held (c.reorder.segments.length + 1)
    (append_held (window_held w) room) (Nat.lt_succ_of_le few)
  exact held_window after ahead

/-! ## Storing behind the gap -/

theorem stored_set {segments : List TcpSegment} {i : Nat} {old : TcpSegment} (s : TcpSegment)
    (there : segments[i]? = some old) (empty : old.data = []) :
    stored (segments.set i s) = stored segments + s.data.length := by
  induction segments generalizing i with
  | nil => simp at there
  | cons t rest ih =>
      cases i with
      | zero =>
          rw [List.getElem?_cons_zero, Option.some.injEq] at there
          subst there
          simp only [List.set_cons_zero, stored, empty, List.length_nil]
          omega
      | succ i =>
          rw [List.getElem?_cons_succ] at there
          simp only [List.set_cons_succ, stored, ih there]
          omega

theorem apart_set {base : UInt32} {segments : List TcpSegment} (i : Nat) {s : TcpSegment}
    (apart : segments.Pairwise (Apart base)) (clear : ∀ t ∈ segments, Apart base s t) :
    (segments.set i s).Pairwise (Apart base) := by
  induction segments generalizing i with
  | nil => exact .nil
  | cons t rest ih =>
      obtain ⟨head, tail⟩ := List.pairwise_cons.mp apart
      cases i with
      | zero => exact List.pairwise_cons.mpr ⟨fun u member => clear u (List.mem_cons_of_mem t member), tail⟩
      | succ i =>
          refine List.pairwise_cons.mpr
            ⟨fun u member => ?_, ih i tail fun u member => clear u (List.mem_cons_of_mem t member)⟩
          rcases List.mem_or_eq_of_mem_set member with old | rfl
          · exact head u old
          · exact apart_symm (clear t List.mem_cons_self)

theorem freeSlot_empty {segments : List TcpSegment} {i : Nat} (found : freeSlot segments = some i) :
    ∃ old, segments[i]? = some old ∧ old.data = [] := by
  have free := List.find?_some found
  rw [Option.any_eq_true] at free
  obtain ⟨old, there, empty⟩ := free
  exact ⟨old, there, by simpa using empty⟩

theorem end_toInt {base : UInt32} {s : TcpSegment} {n : Nat} (near : place base s < 2 ^ 30)
    (short : n < 2 ^ 30) :
    (s.seq - base).toInt32.toInt = place base s ∧
      ((s.seq - base).toInt32 + Int32.ofNat n).toInt = place base s + n := by
  have start : (s.seq - base).toInt32.toInt = place base s := by
    rw [toInt_toInt32]
    unfold place at near ⊢
    rw [if_pos (by omega)]
  refine ⟨start, ?_⟩
  rw [Int32.toInt_add, start, Int32.toInt_ofNat_of_lt (by omega), Int.bmod_eq_of_le (by omega) (by omega)]

theorem apart_of_free {base : UInt32} {s t : TcpSegment} (nearS : place base s < 2 ^ 30)
    (nearT : t.data ≠ [] → place base t < 2 ^ 30 ∧ t.data.length < 2 ^ 30) (sizeS : s.data.length < 2 ^ 30)
    (free : overlaps base (s.seq - base).toInt32 s.data.length t = false) : Apart base s t := by
  intro _ there
  obtain ⟨nearT, sizeT⟩ := nearT there
  obtain ⟨startS, endS⟩ := end_toInt nearS sizeS
  obtain ⟨startT, endT⟩ := end_toInt nearT sizeT
  have some_ : t.data.isEmpty = false := by simpa using there
  simp only [overlaps, some_, Bool.not_false, Bool.true_and, Bool.and_eq_false_iff, decide_eq_false_iff_not,
    Int32.lt_iff_toInt_lt, startS, endS, startT, endT] at free
  omega

theorem store_window {c : Conn} (w : Window c) (seq : UInt32) (data : List UInt8)
    (behind : (seq - c.rcv).toInt32 > 0) :
    Window { c with
      gaps := c.gaps + 1
      reorder := c.reorder.store c.rcv seq data (rxCap - c.rx.length) } := by
  have kept : Window { c with gaps := c.gaps + 1 } := ⟨w.bytes, w.ahead, w.fits, w.apart, w.room⟩
  have room := w.room
  have bytes := w.bytes
  simp only [TcpReorder.store]
  split
  · exact kept
  next near =>
  obtain ⟨-, close⟩ := not_or.mp near
  generalize cutIs : (if (data.length : Int) > rxCap - c.rx.length - (seq - c.rcv).toInt32.toInt then
    data.take (rxCap - c.rx.length - (seq - c.rcv).toInt32.toInt).toNat else data) = cut
  split
  · exact kept
  next some_ =>
  split
  · exact kept
  next free =>
  split
  · exact kept
  next i found =>
  obtain ⟨old, there, empty⟩ := freeSlot_empty found
  -- the distance is a place, and the segment ends inside the window
  have distance : (seq - c.rcv).toInt32.toInt = place c.rcv { seq := seq, data := cut } ∧
      0 < place c.rcv { seq := seq, data := cut } := by
    have zero : Int32.toInt 0 = 0 := rfl
    rw [gt_iff_lt, Int32.lt_iff_toInt_lt, zero, toInt_toInt32] at behind
    rw [toInt_toInt32]
    have small := (seq - c.rcv).toNat_lt
    dsimp only [place]
    split at behind
    · next low =>
      rw [if_pos low]
      omega
    · omega
  have size : (cut.length : Int) ≤ rxCap - c.rx.length - (seq - c.rcv).toInt32.toInt := by
    subst cutIs
    split
    · rw [List.length_take]
      omega
    · omega
  rw [distance.1] at close size
  unfold rxCap at *
  have clear (t : TcpSegment) (member : t ∈ c.reorder.segments) :
      Apart c.rcv { seq := seq, data := cut } t := by
    apply apart_of_free (by omega) _ (by dsimp only; omega)
    · rw [Bool.not_eq_true, List.any_eq_false] at free
      exact Bool.eq_false_iff.mpr (free t member)
    · intro more
      have fits := w.fits t member more
      omega
  have either {t : TcpSegment} (member : t ∈ c.reorder.segments.set i { seq := seq, data := cut }) :
      t ∈ c.reorder.segments ∨ t = { seq := seq, data := cut } := List.mem_or_eq_of_mem_set member
  refine ⟨?_, ?_, ?_, apart_set i w.apart clear, ?_⟩
  · rw [stored_set _ there empty]
    dsimp only
    omega
  · intro t member more
    rcases either member with before | rfl
    · exact w.ahead t before more
    · exact distance.2
  · intro t member more
    rcases either member with before | rfl
    · exact w.fits t before more
    · dsimp only
      omega
  · rw [stored_set _ there empty]
    dsimp only
    omega

theorem onData_window {c : Conn} (w : Window c) (seq : UInt32) (data : List UInt8) :
    Window (c.onData seq data) := by
  simp only [Conn.onData]
  split
  · next behind => exact store_window w seq data behind
  · split
    · exact w
    · apply append_drain_window w
      have bytes := w.bytes
      have room := w.room
      have size := (payload_length c.rcv seq data c.receiveWindow).2
      unfold Conn.receiveWindow rxCap at size ⊢
      omega

/-! ## The first gap -/

/-- The places of the bytes in the slots. -/
def places (base : UInt32) : List TcpSegment → Finset Nat
  | [] => ∅
  | s :: rest => Finset.Ico (place base s) (place base s + s.data.length) ∪ places base rest

theorem mem_places {base : UInt32} {segments : List TcpSegment} {n : Nat} :
    n ∈ places base segments ↔ ∃ s ∈ segments, place base s ≤ n ∧ n < place base s + s.data.length := by
  induction segments with
  | nil => simp [places]
  | cons s rest ih => simp [places, ih]

theorem stored_card {base : UInt32} {segments : List TcpSegment} (apart : segments.Pairwise (Apart base)) :
    stored segments = (places base segments).card := by
  induction segments with
  | nil => rfl
  | cons s rest ih =>
      obtain ⟨head, tail⟩ := List.pairwise_cons.mp apart
      have disjoint : Disjoint (Finset.Ico (place base s) (place base s + s.data.length))
          (places base rest) := by
        rw [Finset.disjoint_left]
        intro n here there
        rw [Finset.mem_Ico] at here
        obtain ⟨t, member, low, high⟩ := mem_places.mp there
        have apart := head t member (by rintro none_; rw [none_] at here; simp at here; omega)
          (by rintro none_; rw [none_] at high; simp at high; omega)
        omega
      rw [stored, places, Finset.card_union_of_disjoint disjoint, Nat.card_Ico, ih tail]
      omega

theorem stored_le {c : Conn} (w : Window c) {gap : Nat} (inside : gap + c.rx.length ≤ 16384)
    (first : ∀ s ∈ c.reorder.segments, s.data ≠ [] → gap ≤ place c.rcv s) :
    stored c.reorder.segments + gap + c.rx.length ≤ 16384 := by
  have within : places c.rcv c.reorder.segments ⊆ Finset.Ico gap (16384 - c.rx.length) := by
    intro n member
    obtain ⟨s, queued, low, high⟩ := mem_places.mp member
    have some_ : s.data ≠ [] := by
      rintro none_
      rw [none_, List.length_nil] at high
      omega
    have fits := w.fits s queued some_
    have gapBefore := first s queued some_
    rw [Finset.mem_Ico]
    omega
  have card := Finset.card_le_card within
  rw [← stored_card w.apart, Nat.card_Ico] at card
  omega

/-! ## Runs -/

/-- The receiving side is the same. -/
structure SameReceiving (c c' : Conn) : Prop where
  rcv : c'.rcv = c.rcv
  rx : c'.rx = c.rx
  reorder : c'.reorder = c.reorder

theorem window_congr {c c' : Conn} (same : SameReceiving c c') (w : Window c) : Window c' := by
  obtain ⟨rcv, rx, reorder⟩ := same
  constructor <;> rw [reorder]
  · exact w.bytes
  · rw [rcv]
    exact w.ahead
  · rw [rcv, rx]
    exact w.fits
  · rw [rcv]
    exact w.apart
  · rw [rx]
    exact w.room

theorem onSegment_established {c : Conn} {flags : UInt8} (seq ack : UInt32) (data : List UInt8)
    (kept : isReset flags = false) (open_ : c.state = .established)
    (still : (c.onSegment flags seq ack data).state = .established) :
    c.onSegment flags seq ack data =
      if data.length > 0 then (acknowledged c flags ack).onData seq data else acknowledged c flags ack := by
  have noReset : ¬ flags &&& flagRST ≠ 0 := by simpa [isReset] using kept
  have branch : acknowledged c flags ack = if flags &&& flagACK ≠ 0 then c.onAck ack else c := by
    simp [acknowledged, isAck]
  rw [Conn.onSegment, if_neg noReset, open_] at still ⊢
  dsimp only at still ⊢
  rw [← branch] at still ⊢
  generalize (if data.length > 0 then (acknowledged c flags ack).onData seq data
    else acknowledged c flags ack) = c2
    at still ⊢
  have untaken (open_ : (c2.onFIN seq data.length).state = .established) : c2.onFIN seq data.length = c2 := by
    unfold Conn.onFIN at open_ ⊢
    split at open_
    · next early => rw [if_pos early]
    · dsimp only at open_
      split at open_
      · cases open_
      · next notOpen => exact absurd open_ notOpen
  have same (open_ : (if flags &&& flagFIN ≠ 0 then c2.onFIN seq data.length else c2).state = .established) :
      (if flags &&& flagFIN ≠ 0 then c2.onFIN seq data.length else c2) = c2 := by
    split
    · next fin =>
      rw [if_pos fin] at open_
      exact untaken open_
    · rfl
  generalize (if flags &&& flagFIN ≠ 0 then c2.onFIN seq data.length else c2) = c3 at still same ⊢
  by_cases closing : c3.state = .finWait ∧ c3.pending = none ∧ c3.peerFIN = true
  · rw [if_pos closing] at still
    cases still
  · rw [if_neg closing] at still ⊢
    exact same still

structure Receiving (s : System) : Prop where
  handshake : s.conn.state = .synSent → s.conn.rx = [] ∧ s.conn.reorder = {}
  window : s.conn.state = .established → Window s.conn

theorem fresh_window {c : Conn} (rx : c.rx = []) (reorder : c.reorder = {}) : Window c := by
  have empty : ∀ s ∈ c.reorder.segments, s.data = [] := by
    rw [reorder]
    intro s member
    rw [List.eq_of_mem_replicate member]
  refine ⟨?_, fun s member some_ => absurd (empty s member) some_, fun s member some_ =>
    absurd (empty s member) some_,
    ?_, ?_⟩
  · rw [reorder]
    rfl
  · exact List.pairwise_of_forall_mem_list fun s member t _ => apart_empty t (empty s member)
  · rw [rx, reorder]
    decide

theorem segment_receiving {s : System} (r : Receiving s) (flags : UInt8) (seq ack : UInt32)
    (options data : List UInt8) : Receiving (s.segment flags seq ack options data) := by
  have conn : (s.segment flags seq ack options data).conn = s.conn.onSegment flags seq ack data := rfl
  cases reset : isReset flags with
  | true =>
      obtain ⟨e, closed⟩ := onSegment_reset s.conn seq ack data reset
      constructor
      all_goals
        rw [conn, closed]
        rintro ⟨⟩
  | false =>
      have half (dialled : s.conn.state ≠ .synSent) (notOpen : s.conn.state ≠ .established)
          (notClosed : s.conn.state ≠ .closed) : Receiving (s.segment flags seq ack options data) := by
        have after := (onSegment_received (c := s.conn) seq ack data reset dialled notClosed).state
        constructor
        all_goals
          rw [conn, after]
          intro back
          split at back
          · cases back
          · split at back
            · cases back
            · first | exact absurd back dialled | exact absurd back notOpen
      cases state : s.conn.state with
      | synSent =>
          obtain ⟨rx, reorder⟩ := r.handshake state
          rcases onSegment_synSent seq ack data reset state with still | ⟨-, open_⟩
          · constructor
            · rw [conn, still]
              exact r.handshake
            · rw [conn, still]
              exact r.window
          · constructor
            · rw [conn, open_]
              rintro ⟨⟩
            · rw [conn, open_]
              exact fun _ => fresh_window rx reorder
      | closed =>
          constructor
          all_goals rw [conn, onSegment_closed seq ack data reset state]
          · exact r.handshake
          · exact r.window
      | established =>
          constructor
          · intro waits
            rw [conn, (onSegment_received (c := s.conn) seq ack data reset (by simp [state])
              (by simp [state])).state,
              state] at waits
            split at waits
            · cases waits
            · split at waits <;> cases waits
          · intro still
            rw [conn] at still ⊢
            rw [onSegment_established seq ack data reset state still]
            have acked : Window (acknowledged s.conn flags ack) := by
              unfold acknowledged
              split
              · rw [onAck_eq]
                exact window_congr (c := s.conn) ⟨rfl, rfl, rfl⟩ (r.window state)
              · exact r.window state
            split
            · exact onData_window acked seq data
            · exact acked
      | closeWait => exact half (by simp [state]) (by simp [state]) (by simp [state])
      | finWait => exact half (by simp [state]) (by simp [state]) (by simp [state])

theorem receiving_kept {s t : System} (r : Receiving s) (same : SameReceiving s.conn t.conn)
    (state : t.conn.state = s.conn.state ∨ t.conn.state = .closed ∨ t.conn.state = .finWait) :
    Receiving t := by
  constructor
  · intro waits
    rcases state with state | state | state
    · obtain ⟨rx, reorder⟩ := r.handshake (state.symm.trans waits)
      exact ⟨same.rx.trans rx, same.reorder.trans reorder⟩
    · simp [state] at waits
    · simp [state] at waits
  · intro open_
    rcases state with state | state | state
    · exact window_congr same (r.window (state.symm.trans open_))
    · simp [state] at open_
    · simp [state] at open_

theorem closed_receiving {s : System} (shut : s.conn.state = .closed ∨ s.conn.state = .finWait) :
    Receiving s := by
  constructor
  all_goals
    intro open_
    rcases shut with shut | shut <;> simp [shut] at open_

theorem turn_receiving {s : System} (r : Receiving s) (w : Writer) (now : UInt64) (sends : Bool) :
    Receiving (s.turn w now sends) := by
  have sent (flags : UInt8) (data : Option Bytes) :
    SameReceiving s.conn (s.sock.transmit flags data now sends).1.conn ∧
      (s.sock.transmit flags data now sends).1.conn.state = s.conn.state := by
    simp only [Socket.transmit]
    repeat' split
    all_goals exact ⟨⟨rfl, rfl, rfl⟩, rfl⟩
  unfold System.turn
  split
  · cases usable s.conn with
    | some e => exact receiving_kept r ⟨rfl, rfl, rfl⟩ (.inl rfl)
    | none =>
        dsimp only
        split
        · exact receiving_kept r ⟨rfl, rfl, rfl⟩ (.inl rfl)
        · split
          · exact receiving_kept r ⟨rfl, rfl, rfl⟩ (.inl rfl)
          · next sock took =>
            obtain ⟨same, state⟩ := sent (flagACK ||| flagPSH)
              (some ((w.b.drop w.sent).take (min (w.b.length - w.sent) s.sock.limit)))
            rw [took] at same state
            exact receiving_kept r same (.inl state)
  · exact r

theorem step_receiving {s : System} (r : Receiving s) (e : Event) : Receiving (s.step e) := by
  cases e with
  | segment flags seq ack options data => exact segment_receiving r flags seq ack options data
  | tick now =>
      simp only [System.step, Socket.tick]
      split
      · exact receiving_kept r ⟨rfl, rfl, rfl⟩ (.inl rfl)
      · split
        · exact receiving_kept r ⟨rfl, rfl, rfl⟩ (.inl rfl)
        · split
          · exact closed_receiving (.inl rfl)
          · exact receiving_kept r ⟨rfl, rfl, rfl⟩ (.inl rfl)
  | write b =>
      simp only [System.step]
      split
      · exact r
      · exact receiving_kept r ⟨rfl, rfl, rfl⟩ (.inl rfl)
  | turn now sends =>
      simp only [System.step]
      split
      · exact turn_receiving r _ now sends
      · exact r
  | giveUp =>
      simp only [System.step]
      split
      · exact receiving_kept r ⟨rfl, rfl, rfl⟩ (.inl rfl)
      · exact r
  | read size =>
      simp only [System.step]
      split
      · exact r
      · constructor
        · intro waits
          obtain ⟨rx, reorder⟩ := r.handshake waits
          refine ⟨?_, reorder⟩
          change s.conn.rx.drop size = []
          rw [rx, List.drop_nil]
        · intro open_
          have w := r.window open_
          have shorter : (s.conn.rx.drop size).length ≤ s.conn.rx.length := by
            rw [List.length_drop]
            omega
          refine ⟨w.bytes, w.ahead, fun t member some_ => ?_, w.apart, ?_⟩
          · have fits := w.fits t member some_
            change place s.conn.rcv t + t.data.length + (s.conn.rx.drop size).length ≤ 16384
            omega
          · have room := w.room
            change (s.conn.rx.drop size).length + stored s.conn.reorder.segments ≤ 16384
            omega
  | close now sends =>
      simp only [System.step]
      split
      · exact r
      · obtain ⟨-, ⟨conn, -⟩ | ⟨-, -, conn⟩⟩ := close_cases s.sock now sends
        · exact closed_receiving (.inl (by simp [System.conn, conn]))
        · exact closed_receiving (.inr (by simp [System.conn, conn]))
  | drop =>
      simp only [System.step]
      split
      · exact closed_receiving (.inl rfl)
      · exact r

theorem run_receiving {s : System} (r : Receiving s) (events : List Event) : Receiving (s.run events) := by
  induction events generalizing s with
  | nil => exact r
  | cons e rest ih => exact ih (step_receiving r e)

theorem dialled_receiving (isn : UInt32) (now : UInt64) : Receiving (dialled isn now) :=
  ⟨fun _ => ⟨rfl, rfl⟩, by rintro ⟨⟩⟩

/-- In every state of an established connection: the count is right, what is queued lies apart behind
`rcv` and inside the window, and the first gap can be filled. -/
theorem window_holds_gap (isn : UInt32) (now : UInt64) (events : List Event) :
    let c := ((dialled isn now).run events).conn
    c.state = .established →
      c.reorder.bytes = stored c.reorder.segments ∧
      c.reorder.segments.Pairwise (Apart c.rcv) ∧
      (c.rx.length : Int) + c.reorder.bytes ≤ 16 * 1024 ∧
      (∀ s ∈ c.reorder.segments, s.data ≠ [] → 0 < place c.rcv s ∧
        place c.rcv s + s.data.length ≤ 16 * 1024 - c.rx.length) ∧
      (∀ s ∈ c.reorder.segments, s.data ≠ [] →
        (∀ t ∈ c.reorder.segments, t.data ≠ [] → place c.rcv s ≤ place c.rcv t) →
        (place c.rcv s : Int) ≤ c.receiveWindow ∧
        ∀ data, data.length ≤ place c.rcv s → tcpPayload c.rcv c.rcv data c.receiveWindow = data) := by
  intro c open_
  have w : Window c := (run_receiving (dialled_receiving isn now) events).window open_
  have bytes := w.bytes
  have room := w.room
  refine ⟨bytes, w.apart, by omega, ?_, ?_⟩
  · intro s member some_
    have fits := w.fits s member some_
    exact ⟨w.ahead s member some_, by omega⟩
  · intro s member some_ first
    have fits := w.fits s member some_
    have held := stored_le w (by omega) first
    have enough : (place c.rcv s : Int) ≤ c.receiveWindow := by
      unfold Conn.receiveWindow rxCap
      omega
    exact ⟨enough, fun data short => payload_next c.rcv (by omega)⟩

/-- Two bytes behind a gap of three. -/
def gapped : List Event :=
  [.segment (flagSYN ||| flagACK) 100 1 [] [], .segment flagACK 104 1 [] [5, 6]]

theorem gapped_window : ((dialled 0 0).run gapped).conn.reorder.bytes =
    stored ((dialled 0 0).run gapped).conn.reorder.segments ∧
    (((dialled 0 0).run gapped).conn.rx.length : Int) + ((dialled 0 0).run gapped).conn.reorder.bytes ≤
      16 * 1024 :=
  have held := window_holds_gap 0 0 gapped (by decide)
  ⟨held.1, held.2.2.1⟩

end R2Apps.StreamWindow
