import R2Apps.SlipReceivers

/-! What the receivers make of END, an encoded packet and END, after any history. -/
namespace R2Apps.SlipResync
open R2Apps.Rescanning R2Apps.SlipReceivers

/-- RFC 1055, without the END at either side. -/
def encode (p : List UInt8) : List UInt8 :=
  p.flatMap fun b =>
    if b = slipEnd then [slipEsc, slipEscEnd] else if b = slipEsc then [slipEsc, slipEscEsc] else [b]

/-- The packet's first byte is sent as two. -/
def StartsEscaped (p : List UInt8) : Prop := p.head? = some slipEnd ∨ p.head? = some slipEsc

instance (p : List UInt8) : Decidable (StartsEscaped p) := inferInstanceAs (Decidable (_ ∨ _))

section Scanning
variable {buf : List UInt8} {b : UInt8} {p : List UInt8}

theorem scan_byte (escape : Bool) (room : buf.length < frameLen) (special : b = slipEnd ∨ b = slipEsc) :
    rescan scan ⟨buf, escape⟩ [slipEsc, if b = slipEnd then slipEscEnd else slipEscEsc] =
      .inl ⟨buf ++ [b], false⟩ := by
  have space : ¬buf.length ≥ frameLen := Nat.not_le.mpr room
  rw [rescan, scan_esc]
  simp only [rescan]
  rcases special with rfl | rfl
  · rw [if_pos rfl, scan_plain _ _ (by decide) (by decide)]
    simp [plain, space]
  · rw [if_neg (by decide), scan_plain _ _ (by decide) (by decide)]
    have other : slipEscEsc ≠ slipEscEnd := by decide
    simp [plain, space, other]

theorem scan_encoded (escape : Bool) (room : buf.length < frameLen)
    (clean : escape = false ∨ b = slipEnd ∨ b = slipEsc) :
    rescan scan ⟨buf, escape⟩ (encode [b]) = .inl ⟨buf ++ [b], false⟩ := by
  have space : ¬buf.length ≥ frameLen := Nat.not_le.mpr room
  by_cases special : b = slipEnd ∨ b = slipEsc
  · have escaped := scan_byte escape room special
    rcases special with rfl | rfl
    · exact escaped
    · exact escaped
  · obtain rfl : escape = false := clean.resolve_right special
    obtain ⟨notEnd, notEsc⟩ := not_or.mp special
    have alone : encode [b] = [b] := by simp [encode, notEnd, notEsc]
    rw [alone, rescan, scan_plain _ _ notEnd notEsc]
    simp [plain, space, rescan]

theorem encode_cons (b : UInt8) (p : List UInt8) : encode (b :: p) = encode [b] ++ encode p := by
  simp [encode]

theorem rescan_encode (p : List UInt8) (fits : buf.length + p.length ≤ frameLen) :
    rescan scan ⟨buf, false⟩ (encode p) = .inl ⟨buf ++ p, false⟩ := by
  induction p generalizing buf with
  | nil => simp [encode, rescan]
  | cons b p ih =>
      simp only [List.length_cons] at fits
      rw [encode_cons, rescan_append, scan_encoded false (by omega) (Or.inl rfl)]
      simp only
      rw [ih (by rw [List.length_append, List.length_singleton]; omega)]
      simp

theorem rescan_stray (escape : Bool) (starts : escape = true → StartsEscaped p) (some_ : p ≠ [])
    (fits : p.length ≤ frameLen) : rescan scan ⟨[], escape⟩ (encode p) = .inl ⟨p, false⟩ := by
  cases p with
  | nil => contradiction
  | cons b p =>
      simp only [List.length_cons] at fits
      have clean : escape = false ∨ b = slipEnd ∨ b = slipEsc := by
        cases escape with
        | false => exact Or.inl rfl
        | true => simpa [StartsEscaped] using starts rfl
      rw [encode_cons, rescan_append, scan_encoded escape (by decide) clean]
      simp only
      rw [rescan_encode p (by simp only [List.nil_append, List.length_singleton]; omega)]
      rfl

theorem encode_length (p : List UInt8) : p.length ≤ (encode p).length := by
  induction p with
  | nil => simp
  | cons b p ih =>
      have one : 1 ≤ (encode [b]).length := by
        simp only [encode, List.flatMap_cons, List.flatMap_nil, List.append_nil]
        split
        · simp
        · split <;> simp
      rw [encode_cons, List.length_append, List.length_cons]
      omega

end Scanning

/-- The frame that the last byte of a stream completes for a scanner that is stepped. -/
def heard (d : SlipDecoder) (stream : List UInt8) (last : UInt8) : Option (List UInt8) :=
  (stepped scan .reset (events (stepped scan .reset) d stream).2 last).1.bind id

section Stepped
variable {d : SlipDecoder} {p : List UInt8}

theorem stepped_end (some_ : d.buf ≠ []) :
    (stepped scan .reset d slipEnd).1.bind id = some (d.buf.take frameLen) := by
  have count : d.buf.length ≠ 0 := fun none => some_ (List.length_eq_zero_iff.mp none)
  simp only [stepped, scan_end, count, if_false]
  rfl

theorem heard_packet {stream : List UInt8} (last : (events (stepped scan .reset) d stream).2 = ⟨p, false⟩)
    (some_ : p ≠ []) (short : p.length < frameLen) : heard d stream slipEnd = some p := by
  rw [heard, last, stepped_end some_, List.take_of_length_le (Nat.le_of_lt short)]

theorem after_end (d : SlipDecoder) (stream : List UInt8) :
    heard d (slipEnd :: stream) slipEnd = heard (if d.buf = [] then d else .reset) stream slipEnd := by
  by_cases empty : d.buf = []
  · simp only [heard, events, stepped, scan_end, empty, List.length_nil, if_true]
  · have count : d.buf.length ≠ 0 := fun none => empty (List.length_eq_zero_iff.mp none)
    simp only [heard, events, stepped, scan_end, empty, count, if_false]

theorem stray_garbles {b : UInt8} (notEnd : b ≠ slipEnd) (notEsc : b ≠ slipEsc)
    (short : (b :: p).length < frameLen) :
    heard ⟨[], true⟩ (encode (b :: p)) slipEnd ≠ some (b :: p) := by
  simp only [List.length_cons] at short
  have alone : encode (b :: p) = b :: encode p := by
    rw [encode_cons]
    simp [encode, notEnd, notEsc]
  have first : stepped scan .reset ⟨[], true⟩ b =
      (plain ⟨[], true⟩ b).elim (fun next => (none, next)) fun event => (some event, .reset) := by
    rw [stepped, scan_plain _ _ notEnd notEsc]
    cases plain ⟨[], true⟩ b <;> rfl
  by_cases wrong : b ≠ slipEscEnd ∧ b ≠ slipEscEsc
  · -- a framing error: the receiver starts again with the second byte
    have error : stepped scan .reset ⟨[], true⟩ b = (some none, .reset) := by
      rw [first]
      simp [plain, wrong.1, wrong.2]
    have quiet : rescan scan .reset (encode p) = .inl ⟨p, false⟩ :=
      rescan_encode p (by simp only [List.length_nil]; omega)
    have last : (events (stepped scan .reset) ⟨[], true⟩ (encode (b :: p))).2 = ⟨p, false⟩ := by
      rw [alone]
      simp only [events, error, stepped_quiet _ quiet]
    by_cases none : p = []
    · subst none
      rw [heard, last]
      simp [stepped, scan_end]
    · rw [heard_packet last none (by omega)]
      intro same
      have lengths := congrArg List.length (Option.some.inj same)
      simp at lengths
  · -- it completes the escape sequence
    obtain ⟨c, other, becomes⟩ : ∃ c, c ≠ b ∧ plain ⟨[], true⟩ b = .inl ⟨[c], false⟩ := by
      by_cases isEnd : b = slipEscEnd
      · exact ⟨slipEnd, Ne.symm notEnd, by simp [plain, isEnd]⟩
      · have isEsc : b = slipEscEsc := by
          by_contra neither
          exact wrong ⟨isEnd, neither⟩
        exact ⟨slipEsc, Ne.symm notEsc, by subst isEsc; simp [plain, isEnd]⟩
    have quiet : rescan scan ⟨[c], false⟩ (encode p) = .inl ⟨c :: p, false⟩ :=
      rescan_encode p (by simp only [List.length_singleton]; omega)
    have last : (events (stepped scan .reset) ⟨[], true⟩ (encode (b :: p))).2 = ⟨c :: p, false⟩ := by
      rw [alone]
      simp only [events, first, becomes, Sum.elim_inl, stepped_quiet _ quiet]
    rw [heard_packet last (List.cons_ne_nil _ _) (by simp only [List.length_cons]; omega)]
    intro same
    exact other (List.cons.inj (Option.some.inj same)).1

theorem heard_iff (some_ : p ≠ []) (short : p.length < frameLen) :
    heard d (slipEnd :: encode p) slipEnd = some p ↔
      (d.buf = [] → d.escape = true → StartsEscaped p) := by
  rw [after_end]
  obtain ⟨buf, escape⟩ := d
  by_cases empty : buf = []
  · subst empty
    simp only [if_true, forall_const]
    constructor
    · intro delivered pending
      subst pending
      by_contra plain
      cases p with
      | nil => contradiction
      | cons b p =>
          simp only [StartsEscaped, List.head?_cons, Option.some.injEq, not_or] at plain
          exact stray_garbles plain.1 plain.2 short delivered
    · intro starts
      have quiet := rescan_stray escape starts some_ (Nat.le_of_lt short)
      exact heard_packet (by rw [stepped_quiet _ quiet]) some_ short
  · simp only [empty, if_false, false_imp_iff, iff_true]
    have quiet : rescan scan .reset (encode p) = .inl ⟨p, false⟩ :=
      rescan_stray false nofun some_ (Nat.le_of_lt short)
    exact heard_packet (d := .reset) (by rw [stepped_quiet _ quiet]) some_ short

end Stepped

/-- The frame that the last byte completes for a scanner that is run again over its buffer. -/
def recalled (temp : List UInt8) (stream : List UInt8) (last : UInt8) : Option (List UInt8) :=
  (buffered scan .reset frameLen (events (buffered scan .reset frameLen) temp stream).2 last).1.bind id

section Buffered
variable {d : SlipDecoder} {temp p : List UInt8}

theorem packet_quiet (quiet : rescan scan .reset temp = .inl d) (empty : d.buf = [])
    (starts : d.escape = true → StartsEscaped p) (some_ : p ≠ []) (short : p.length < frameLen) :
    rescan scan .reset (temp ++ slipEnd :: encode p) = .inl ⟨p, false⟩ := by
  obtain ⟨buf, escape⟩ := d
  subst empty
  rw [rescan_append, quiet]
  simp only [rescan, scan_end, List.length_nil, if_true]
  exact rescan_stray escape starts some_ (Nat.le_of_lt short)

theorem packet_roomy (quiet : rescan scan .reset temp = .inl d) (room : temp.length < frameLen)
    (short : (encode p).length + 2 ≤ frameLen)
    (space : d.buf = [] → temp.length + (encode p).length + 2 ≤ frameLen) :
    Roomy scan .reset frameLen temp (slipEnd :: encode p ++ [slipEnd]) := by
  by_cases empty : d.buf = []
  · apply roomy_of_short
    have := space empty
    simp only [List.length_append, List.length_cons, List.length_nil]
    omega
  · refine ⟨room, ?_⟩
    have count : d.buf.length ≠ 0 := fun none => empty (List.length_eq_zero_iff.mp none)
    have closed : (buffered scan .reset frameLen temp slipEnd).2 = [] := by
      have again : rescan scan .reset (temp ++ [slipEnd]) = .inr (some (d.buf.take frameLen)) := by
        rw [rescan_append, quiet]
        simp only [rescan, scan_end, count, if_false]
      simp only [buffered, kept, if_pos room, again]
    rw [closed]
    apply roomy_of_short
    simp only [List.append_eq, List.length_append, List.length_nil, List.length_singleton]
    omega

theorem recalled_iff (quiet : rescan scan .reset temp = .inl d) (some_ : p ≠ [])
    (short : (encode p).length + 2 ≤ frameLen) :
    recalled temp (slipEnd :: encode p) slipEnd = some p ↔
      temp.length < frameLen ∧ (d.buf = [] → temp.length + (encode p).length + 2 ≤ frameLen ∧
        (d.escape = true → StartsEscaped p)) := by
  have few : p.length < frameLen := by
    have := encode_length p
    omega
  constructor
  · intro delivered
    have roomy : Roomy scan .reset frameLen temp (slipEnd :: encode p ++ [slipEnd]) := by
      by_contra cramped
      rw [recalled, last_of_cramped _ _ quiet cramped] at delivered
      contradiction
    rw [recalled, last_of_roomy _ _ quiet roomy] at delivered
    have starts := (heard_iff some_ few).mp delivered
    refine ⟨roomy.1, fun empty => ⟨?_, starts empty⟩⟩
    obtain ⟨before, room, -⟩ := (roomy_append (slipEnd :: encode p) [slipEnd]).mp roomy
    rw [buffered_grows _ ⟨_, packet_quiet quiet empty (starts empty) some_ few⟩ before] at room
    simp only [List.length_append, List.length_cons] at room
    omega
  · rintro ⟨room, space⟩
    have roomy := packet_roomy quiet room short fun empty => (space empty).1
    rw [recalled, last_of_roomy _ _ quiet roomy]
    exact (heard_iff some_ few).mpr fun empty => (space empty).2

/-- Nothing but END and ESC has come since the last frame or error. -/
def Idle (temp : List UInt8) : Prop := ∀ b ∈ temp, b = slipEnd ∨ b = slipEsc

instance (temp : List UInt8) : Decidable (Idle temp) := inferInstanceAs (Decidable (∀ b ∈ temp, _))

theorem plain_inl {b : UInt8} {next : SlipDecoder} (is : plain d b = .inl next) : next.buf ≠ [] := by
  unfold plain at is
  split at is
  · contradiction
  · split at is
    · contradiction
    · rw [← Sum.inl.inj is]
      simp

theorem data_stays {e : SlipDecoder} (some_ : d.buf ≠ []) (quiet : rescan scan d temp = .inl e) :
    e.buf ≠ [] := by
  induction temp generalizing d with
  | nil =>
      rw [← Sum.inl.inj quiet]
      exact some_
  | cons b rest ih =>
      rw [rescan] at quiet
      cases found : scan d b with
      | inr event =>
          rw [found] at quiet
          contradiction
      | inl next =>
          rw [found] at quiet
          refine ih ?_ quiet
          by_cases ending : b = slipEnd
          · have count : d.buf.length ≠ 0 := fun none => some_ (List.length_eq_zero_iff.mp none)
            rw [ending, scan_end, if_neg count] at found
            contradiction
          · by_cases escaping : b = slipEsc
            · rw [escaping, scan_esc] at found
              rw [← Sum.inl.inj found]
              exact some_
            · rw [scan_plain d b ending escaping] at found
              exact plain_inl found

theorem idle_state {escape : Bool} (quiet : rescan scan ⟨[], escape⟩ temp = .inl d) :
    (d.buf = [] ↔ Idle temp) ∧ (Idle temp → (d.escape = true ↔ escape = true ∨ slipEsc ∈ temp)) := by
  induction temp generalizing escape with
  | nil =>
      rw [← Sum.inl.inj quiet]
      simp [Idle]
  | cons b rest ih =>
      rw [rescan] at quiet
      by_cases ending : b = slipEnd
      · subst ending
        rw [scan_end] at quiet
        obtain ⟨buf, pending⟩ := ih (by simpa using quiet)
        have same : Idle (slipEnd :: rest) ↔ Idle rest := by simp [Idle]
        rw [same, List.mem_cons]
        refine ⟨buf, fun idle => ?_⟩
        rw [pending idle]
        simp [esc_not_end]
      · by_cases escaping : b = slipEsc
        · subst escaping
          rw [scan_esc] at quiet
          obtain ⟨buf, pending⟩ := ih quiet
          have same : Idle (slipEsc :: rest) ↔ Idle rest := by simp [Idle]
          rw [same]
          refine ⟨buf, fun idle => ?_⟩
          rw [pending idle]
          simp
        · have busy : ¬Idle (b :: rest) := by
            intro idle
            rcases idle b List.mem_cons_self with is | is
            · exact ending is
            · exact escaping is
          rw [scan_plain _ _ ending escaping] at quiet
          cases found : plain ⟨[], escape⟩ b with
          | inr event =>
              rw [found] at quiet
              contradiction
          | inl next =>
              rw [found] at quiet
              exact ⟨iff_of_false (data_stays (plain_inl found) quiet) busy, fun idle => absurd idle busy⟩

end Buffered

/-- After any history, both receivers deliver a packet between two ENDs exactly when `slip_recv` has
room left for it and no escape is pending in front of it, unless its first byte is sent escaped. -/
theorem packet_delivered_iff (history p : List UInt8) (some_ : p ≠ [])
    (short : (encode p).length ≤ 2046) :
    ((slipRecv frameLen (slipFrames [] (history ++ slipEnd :: encode p)).2 slipEnd).1 = some p ∧
      (feedByte (decoderFrames .reset (history ++ slipEnd :: encode p)).2 slipEnd).1 = some p) ↔
    ((slipFrames [] history).2.length < frameLen ∧
      (Idle (slipFrames [] history).2 →
        (slipFrames [] history).2.length + (encode p).length + 2 ≤ frameLen ∧
        (slipEsc ∈ (slipFrames [] history).2 → StartsEscaped p))) ∧
    ((decoderFrames .reset history).2.buf = [] → (decoderFrames .reset history).2.escape = true →
      StartsEscaped p) := by
  have fits : (encode p).length + 2 ≤ frameLen := by
    show _ ≤ 2048
    omega
  have few : p.length < frameLen := by
    have := encode_length p
    omega
  apply and_congr
  · obtain ⟨temp, is⟩ : ∃ temp, (events (buffered scan .reset frameLen) [] history).2 = temp := ⟨_, rfl⟩
    obtain ⟨d, quiet⟩ : ∃ d, rescan scan .reset temp = .inl d := is ▸ buffered_quiet history ⟨_, rfl⟩
    have delivered : (slipRecv frameLen (slipFrames [] (history ++ slipEnd :: encode p)).2 slipEnd).1 =
        recalled temp (slipEnd :: encode p) slipEnd := by
      rw [slipFrames_events, events_append, slipRecv_buffered, is]
      rfl
    obtain ⟨empty, pending⟩ := idle_state quiet
    rw [delivered, recalled_iff quiet some_ fits, slipFrames_events, is, empty]
    refine and_congr_right fun _ => imp_congr_right fun idle => ?_
    rw [pending idle]
    simp
  · have delivered : (feedByte (decoderFrames .reset (history ++ slipEnd :: encode p)).2 slipEnd).1 =
        heard (events (stepped scan .reset) .reset history).2 (slipEnd :: encode p) slipEnd := by
      rw [decoderFrames_events, events_append, feedByte_stepped]
      rfl
    rw [delivered, heard_iff some_ few, decoderFrames_events]

/-- After a frame and a lone END both receivers deliver a packet of two bytes. -/
theorem packet_delivered :
    (slipRecv frameLen (slipFrames [] ([0x20, slipEnd, slipEnd] ++ slipEnd :: encode [0x41, slipEnd])).2
      slipEnd).1 = some [0x41, slipEnd] ∧
    (feedByte (decoderFrames .reset ([0x20, slipEnd, slipEnd] ++ slipEnd :: encode [0x41, slipEnd])).2
      slipEnd).1 = some [0x41, slipEnd] :=
  (packet_delivered_iff [0x20, slipEnd, slipEnd] [0x41, slipEnd] (by decide) (by decide)).mpr
    (by decide +kernel)

/-- A stray escape costs the packet its first byte. -/
theorem stray_escape_garbles :
    (slipRecv frameLen (slipFrames [] ([slipEsc] ++ slipEnd :: encode [0x41, 0x42])).2 slipEnd).1 =
      some [0x42] ∧
    (feedByte (decoderFrames .reset ([slipEsc] ++ slipEnd :: encode [0x41, 0x42])).2 slipEnd).1 =
      some [0x42] := by
  decide

end R2Apps.SlipResync
