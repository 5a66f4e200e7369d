import R2Apps.Rescanning

/-! The two SLIP receivers: `slip_recv` of `c/libcr2/net.c`, which decodes its
raw buffer again at every byte, and the `slipDecoder` of `go/r2net/slip.go`,
which keeps a state. -/
namespace R2Apps.SlipReceivers
open R2Apps.Rescanning

abbrev slipEnd : UInt8 := 0xC0
abbrev slipEsc : UInt8 := 0xDB
abbrev slipEscEnd : UInt8 := 0xDC
abbrev slipEscEsc : UInt8 := 0xDD

/-- `sizeof(slip_temp_buf)`, `sizeof(slip_frame_buf)` and `frameLen`. -/
abbrev frameLen : Nat := 2048

section Libcr2

/-- The loop of `decode_slip` and what it has written to `output`. -/
def decodeLoop (outputLen : Nat) : List UInt8 → Bool → List UInt8 → Int × List UInt8
  | [], _, output => (0, output)
  | b :: rest, escape, output =>
      if b = slipEnd then
        if output.length > 0 then (output.length, output)
        else decodeLoop outputLen rest escape output
      else if b = slipEsc then decodeLoop outputLen rest true output
      else if escape ∧ b ≠ slipEscEnd ∧ b ≠ slipEscEsc then (-1, output)
      else
        let b := if escape then (if b = slipEscEnd then slipEnd else slipEsc) else b
        if output.length ≥ outputLen then (-1, output)
        else decodeLoop outputLen rest false (output ++ [b])

def decodeSlip (input : List UInt8) (outputLen : Nat) : Int × List UInt8 :=
  decodeLoop outputLen input false []

/-- `slip_recv` when the serial line has a byte: the frame it returns, and its raw buffer. -/
def slipRecv (maxlen : Nat) (temp : List UInt8) (value : UInt8) : Option (List UInt8) × List UInt8 :=
  let temp := if temp.length < frameLen then temp ++ [value] else temp
  let (decoded, frame) := decodeSlip temp frameLen
  if decoded > 0 then (some (frame.take (min decoded.toNat maxlen)), [])
  else if decoded < 0 then (none, [])
  else (none, temp)

/-- The frames of a stream, for a caller with a buffer of the frame's size. -/
def slipFrames (temp : List UInt8) (stream : List UInt8) : List (List UInt8) × List UInt8 :=
  events (slipRecv frameLen) temp stream

end Libcr2

section R2net

structure SlipDecoder where
  buf : List UInt8
  escape : Bool
deriving DecidableEq

def SlipDecoder.reset : SlipDecoder := { buf := [], escape := false }

/-- The result, the decoder, and what was copied to `out`. -/
def feed (capacity outLen : Nat) (d : SlipDecoder) (b : UInt8) : Int × SlipDecoder × List UInt8 :=
  let append (d : SlipDecoder) (b : UInt8) : Int × SlipDecoder × List UInt8 :=
    if d.buf.length ≥ capacity ∨ d.buf.length ≥ outLen then (-1, .reset, [])
    else (0, { d with buf := d.buf ++ [b] }, [])
  if b = slipEnd then
    if d.buf.length = 0 then (0, d, [])
    else (((min outLen d.buf.length : Nat) : Int), .reset, d.buf.take outLen)
  else if b = slipEsc then (0, { d with escape := true }, [])
  else if d.escape then
    if b = slipEscEnd then append { d with escape := false } slipEnd
    else if b = slipEscEsc then append { d with escape := false } slipEsc
    else (-1, .reset, [])
  else append d b

/-- One byte for `slipLink.recv`, which returns when a frame is complete. -/
def feedByte (d : SlipDecoder) (b : UInt8) : Option (List UInt8) × SlipDecoder :=
  let (n, d, out) := feed frameLen frameLen d b
  (if n > 0 then some out else none, d)

def decoderFrames (d : SlipDecoder) (stream : List UInt8) : List (List UInt8) × SlipDecoder :=
  events feedByte d stream

end R2net

/-! Both are runs of one scanner. Its events are a frame, or `none` for a framing error. -/
section Scanner

def scan (d : SlipDecoder) (b : UInt8) : SlipDecoder ⊕ Option (List UInt8) :=
  match feed frameLen frameLen d b with
  | (n, next, out) => if n > 0 then .inr (some out) else if n < 0 then .inr none else .inl next

/-- How the scanner takes a byte that is neither END nor ESC. -/
def plain (d : SlipDecoder) (b : UInt8) : SlipDecoder ⊕ Option (List UInt8) :=
  if d.escape ∧ b ≠ slipEscEnd ∧ b ≠ slipEscEsc then .inr none
  else if d.buf.length ≥ frameLen then .inr none
  else .inl ⟨d.buf ++ [if d.escape then (if b = slipEscEnd then slipEnd else slipEsc) else b], false⟩

theorem esc_not_end : slipEsc ≠ slipEnd := by decide

theorem feed_end (d : SlipDecoder) :
    feed frameLen frameLen d slipEnd = if d.buf.length = 0 then (0, d, [])
      else (((min frameLen d.buf.length : Nat) : Int), .reset, d.buf.take frameLen) := by
  rw [feed, if_pos rfl]

theorem feed_esc (d : SlipDecoder) :
    feed frameLen frameLen d slipEsc = (0, { d with escape := true }, []) := by
  rw [feed, if_neg esc_not_end, if_pos rfl]

theorem feed_plain (d : SlipDecoder) (b : UInt8) (notEnd : b ≠ slipEnd) (notEsc : b ≠ slipEsc) :
    feed frameLen frameLen d b = match plain d b with
      | .inl next => (0, next, [])
      | .inr _ => (-1, .reset, []) := by
  rw [feed, if_neg notEnd, if_neg notEsc]
  obtain ⟨buf, escape⟩ := d
  cases escape with
  | false =>
      simp only [plain, or_self, Bool.false_eq_true, false_and, if_false]
      split <;> rfl
  | true =>
      by_cases first : b = slipEscEnd
      · simp only [plain, first, or_self, if_true, ne_eq, not_true_eq_false, false_and, and_false, if_false]
        split <;> rfl
      · by_cases second : b = slipEscEsc
        · have other : slipEscEsc ≠ slipEscEnd := by decide
          simp only [plain, second, other, or_self, if_true, ne_eq, not_true_eq_false, and_false, if_false]
          split <;> rfl
        · simp only [plain, first, second, if_true, ne_eq, not_false_eq_true, and_self, if_false]

theorem copied_pos {buf : List UInt8} (some_ : buf.length ≠ 0) :
    ((min frameLen buf.length : Nat) : Int) > 0 :=
  Int.natCast_pos.mpr (Nat.lt_min.mpr ⟨(by decide : 0 < frameLen), Nat.pos_of_ne_zero some_⟩)

theorem scan_end (d : SlipDecoder) :
    scan d slipEnd = if d.buf.length = 0 then .inl d else .inr (some (d.buf.take frameLen)) := by
  unfold scan
  rw [feed_end]
  by_cases empty : d.buf.length = 0
  · simp only [empty, if_true]
    rfl
  · simp only [empty, if_false, copied_pos empty, if_true]

theorem scan_esc (d : SlipDecoder) : scan d slipEsc = .inl { d with escape := true } := by
  unfold scan
  rw [feed_esc]
  rfl

theorem scan_plain (d : SlipDecoder) (b : UInt8) (notEnd : b ≠ slipEnd) (notEsc : b ≠ slipEsc) :
    scan d b = plain d b := by
  have failures : ∀ event, plain d b = .inr event → event = none := by
    intro event is
    unfold plain at is
    split at is
    · exact (Sum.inr.inj is).symm
    · split at is
      · exact (Sum.inr.inj is).symm
      · contradiction
  unfold scan
  rw [feed_plain d b notEnd notEsc]
  cases is : plain d b with
  | inl next => rfl
  | inr event =>
      rw [failures event is]
      rfl

theorem feedByte_stepped (d : SlipDecoder) (b : UInt8) :
    feedByte d b = ((stepped scan .reset d b).1.bind id, (stepped scan .reset d b).2) := by
  by_cases ending : b = slipEnd
  · subst ending
    unfold feedByte stepped
    rw [scan_end, feed_end]
    by_cases empty : d.buf.length = 0
    · simp only [empty, if_true]
      rfl
    · simp only [empty, if_false, copied_pos empty, if_true]
      rfl
  · by_cases escaping : b = slipEsc
    · subst escaping
      unfold feedByte stepped
      rw [scan_esc, feed_esc]
      rfl
    · unfold feedByte stepped
      have same := scan_plain d b ending escaping
      rw [feed_plain d b ending escaping]
      unfold scan at same
      rw [feed_plain d b ending escaping] at same
      unfold scan
      rw [feed_plain d b ending escaping]
      cases plain d b <;> rfl

theorem decodeLoop_rescan (input : List UInt8) (escape : Bool) (output : List UInt8) :
    match rescan scan ⟨output, escape⟩ input with
    | .inl d => decodeLoop frameLen input escape output = (0, d.buf)
    | .inr (some frame) => ∃ out : List UInt8,
        decodeLoop frameLen input escape output = ((out.length : Int), out) ∧ 0 < out.length ∧
          frame = out.take frameLen
    | .inr none => ∃ out, decodeLoop frameLen input escape output = (-1, out) := by
  induction input generalizing escape output with
  | nil => rfl
  | cons b rest ih =>
      simp only [rescan, decodeLoop]
      by_cases ending : b = slipEnd
      · subst ending
        rw [scan_end, if_pos rfl]
        by_cases empty : output.length = 0
        · simp only [empty, if_true, Nat.lt_irrefl, gt_iff_lt, if_false]
          exact ih escape output
        · simp only [empty, if_false, gt_iff_lt, Nat.pos_of_ne_zero empty, if_true]
          exact ⟨output, rfl, Nat.pos_of_ne_zero empty, rfl⟩
      · rw [if_neg ending]
        by_cases escaping : b = slipEsc
        · subst escaping
          rw [scan_esc, if_pos rfl]
          exact ih true output
        · rw [scan_plain _ _ ending escaping, if_neg escaping]
          unfold plain
          dsimp only
          by_cases wrong : escape = true ∧ b ≠ slipEscEnd ∧ b ≠ slipEscEsc
          · rw [if_pos wrong, if_pos wrong]
            exact ⟨output, rfl⟩
          · rw [if_neg wrong, if_neg wrong]
            by_cases full : output.length ≥ frameLen
            · rw [if_pos full, if_pos full]
              exact ⟨output, rfl⟩
            · rw [if_neg full, if_neg full]
              exact ih false _

theorem slipRecv_buffered (temp : List UInt8) (b : UInt8) :
    slipRecv frameLen temp b =
      ((buffered scan .reset frameLen temp b).1.bind id, (buffered scan .reset frameLen temp b).2) := by
  have decoded := decodeLoop_rescan (kept frameLen temp b) false []
  have raw : (if temp.length < frameLen then temp ++ [b] else temp) = kept frameLen temp b := rfl
  simp only [slipRecv, buffered, decodeSlip, raw]
  cases is : rescan scan .reset (kept frameLen temp b) with
  | inl d =>
      rw [show (⟨[], false⟩ : SlipDecoder) = .reset from rfl, is] at decoded
      simp [decoded]
  | inr event =>
      rw [show (⟨[], false⟩ : SlipDecoder) = .reset from rfl, is] at decoded
      cases event with
      | none =>
          obtain ⟨out, failed⟩ := decoded
          simp [failed]
      | some frame =>
          obtain ⟨out, found, some_, rfl⟩ := decoded
          have count : (out.length : Int) > 0 := Int.natCast_pos.mpr some_
          simp only [found, count, if_true, Int.toNat_natCast]
          have same : out.take (min out.length frameLen) = out.take frameLen := by
            rw [List.take_eq_take_iff]
            omega
          rw [same]
          rfl

theorem slipFrames_events (temp stream : List UInt8) :
    slipFrames temp stream =
      ((events (buffered scan .reset frameLen) temp stream).1.filterMap id,
        (events (buffered scan .reset frameLen) temp stream).2) := by
  rw [slipFrames, ← events_filter]
  congr 1
  funext temp b
  exact slipRecv_buffered temp b

theorem decoderFrames_events (d : SlipDecoder) (stream : List UInt8) :
    decoderFrames d stream =
      ((events (stepped scan .reset) d stream).1.filterMap id,
        (events (stepped scan .reset) d stream).2) := by
  rw [decoderFrames, ← events_filter]
  congr 1
  funext d b
  exact feedByte_stepped d b

end Scanner

/-! The receivers on one stream. -/
section Streams

/-- No byte of the stream arrives when the raw buffer of `slip_recv` is full. -/
def HasRoom (stream : List UInt8) : Prop :=
  ∀ before value after, stream = before ++ value :: after →
    (slipFrames [] before).2.length < frameLen

theorem hasRoom_iff (stream : List UInt8) :
    HasRoom stream ↔ Roomy scan .reset frameLen [] stream := by
  constructor
  · intro room
    by_contra cramped
    obtain ⟨before, value, after, split, -, full⟩ := full_of_not_roomy stream rfl cramped
    have space := room before value after split
    rw [slipFrames_events] at space
    exact absurd space (Nat.not_lt.mpr full)
  · rintro roomy before value after rfl
    rw [slipFrames_events]
    exact ((roomy_append before (value :: after)).mp roomy).2.1

/-- A stray escape before the first data byte makes the decoder lose that byte, so a second frame
is sent after it. -/
def probe : List UInt8 := [slipEnd, 0x41, slipEnd, 0x41, slipEnd]

theorem feedByte_end {d : SlipDecoder} (some_ : d.buf ≠ []) :
    feedByte d slipEnd = (some (d.buf.take frameLen), .reset) := by
  have count : d.buf.length ≠ 0 := fun none => some_ (List.length_eq_zero_iff.mp none)
  simp only [feedByte, feed_end, count, if_false, copied_pos count, if_true]

theorem probe_heard (d : SlipDecoder) : (decoderFrames d probe).1 ≠ [] := by
  obtain ⟨buf, escape⟩ := d
  cases buf with
  | nil => cases escape <;> decide
  | cons first rest =>
      have heard : feedByte ⟨first :: rest, escape⟩ slipEnd = _ := feedByte_end (List.cons_ne_nil _ _)
      simp only [decoderFrames, probe, events, heard, Option.toList_some]
      exact List.cons_ne_nil _ _

/-- As long as there is room the receivers deliver the same frames; once a byte has found none,
`slip_recv` is silent for good. -/
theorem receivers_agree_while_room (stream : List UInt8) :
    (HasRoom stream → (slipFrames [] stream).1 = (decoderFrames .reset stream).1) ∧
    (¬HasRoom stream →
      (slipFrames [] (stream ++ probe)).1 ≠ (decoderFrames .reset (stream ++ probe)).1) := by
  constructor
  · intro room
    obtain ⟨same, -⟩ := buffered_events stream rfl ((hasRoom_iff stream).mp room)
    rw [slipFrames_events, decoderFrames_events, same]
  · intro cramped
    rw [hasRoom_iff] at cramped
    obtain ⟨before, value, after, rfl, roomy, full⟩ := full_of_not_roomy stream rfl cramped
    obtain ⟨same, quiet⟩ := buffered_events before rfl roomy
    have silent : slipFrames (slipFrames [] before).2 (value :: after ++ probe) =
        ([], (slipFrames [] before).2) := by
      rw [slipFrames_events, slipFrames_events, buffered_full _ quiet full]
      rfl
    have together : (slipFrames [] before).1 = (decoderFrames .reset before).1 := by
      rw [slipFrames_events, decoderFrames_events, same]
    have heard := probe_heard (decoderFrames (decoderFrames .reset before).2 (value :: after)).2
    have cut : slipFrames [] (before ++ (value :: after ++ probe)) = _ := events_append _ _ _ _
    have whole : decoderFrames .reset (before ++ (value :: after ++ probe)) = _ := events_append _ _ _ _
    have rest : decoderFrames (decoderFrames .reset before).2 (value :: after ++ probe) = _ :=
      events_append _ _ _ _
    simp only [decoderFrames, slipFrames] at cut whole rest silent together heard
    rw [List.append_assoc, slipFrames, decoderFrames, cut, whole, rest, silent, together]
    intro equal
    have counts := congrArg List.length equal
    have positive := List.length_pos_iff.mpr heard
    simp only [List.append_nil, List.length_append] at counts
    omega

/-- A frame of 2048 bytes fits `slipDecoder`, but its END no longer fits `slip_temp_buf`. -/
def longFrame : List UInt8 := List.replicate frameLen 0x41 ++ [slipEnd]

theorem rescan_replicate (k : Nat) (buf : List UInt8) (fits : buf.length + k ≤ frameLen) :
    rescan scan ⟨buf, false⟩ (List.replicate k 0x41) = .inl ⟨buf ++ List.replicate k 0x41, false⟩ := by
  induction k generalizing buf with
  | zero => simp [rescan]
  | succ k ih =>
      have room : ¬buf.length ≥ frameLen := by omega
      have next : scan ⟨buf, false⟩ 0x41 = .inl ⟨buf ++ [0x41], false⟩ := by
        rw [scan_plain _ _ (by decide) (by decide)]
        simp only [plain, Bool.false_eq_true, false_and, if_false, room]
      rw [List.replicate_succ, rescan, next]
      simp only
      rw [ih (buf ++ [0x41]) (by rw [List.length_append, List.length_singleton]; omega)]
      simp

theorem long_frame_lost : (slipFrames [] longFrame).1 ≠ (decoderFrames .reset longFrame).1 := by
  have quiet : rescan scan .reset (List.replicate frameLen 0x41) =
      .inl ⟨List.replicate frameLen 0x41, false⟩ :=
    rescan_replicate frameLen [] (by simp)
  have roomy : Roomy scan .reset frameLen [] (List.replicate frameLen 0x41) :=
    roomy_of_short _ (by simp)
  have grown : (events (buffered scan .reset frameLen) [] (List.replicate frameLen 0x41)).2 =
      List.replicate frameLen 0x41 := buffered_grows _ ⟨_, quiet⟩ roomy
  obtain ⟨same, -⟩ := buffered_events (List.replicate frameLen 0x41) rfl roomy
  rw [stepped_quiet _ quiet] at same
  have lost : (slipFrames [] longFrame).1 = [] := by
    rw [longFrame, slipFrames_events, events_append, grown, same,
      buffered_full [slipEnd] quiet (by simp)]
    rfl
  have heard : (decoderFrames .reset longFrame).1 = [(List.replicate frameLen 0x41).take frameLen] := by
    have whole : decoderFrames .reset longFrame = _ := events_append _ _ _ _
    have first : decoderFrames .reset (List.replicate frameLen 0x41) =
        ([], ⟨List.replicate frameLen 0x41, false⟩) := by
      rw [decoderFrames_events, stepped_quiet _ quiet]
      rfl
    rw [decoderFrames] at first
    rw [whole, first]
    simp only [events, feedByte_end (d := ⟨List.replicate frameLen 0x41, false⟩) (by simp)]
    rfl
  rw [lost, heard]
  exact (List.cons_ne_nil _ _).symm

end Streams

end R2Apps.SlipReceivers
