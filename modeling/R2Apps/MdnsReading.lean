import R2Apps.MdnsResponder

/-! Reading names and frames of `c/mdnsd/mdns.c` over memory that has an end. The functions here are
those of the source with every read of a message and every write of a name failing outside; that none
fails is that the code stays inside. A message has fewer than 65536 bytes, so that no sum of offsets wraps
around. What `read_name` leaves is what the message says, pointers followed. -/
namespace R2Apps.MdnsReading
open WireBytes MdnsMessages MdnsResponder

/-! ## Memory -/

def slice (msg : Bytes) (off count : Nat) : Option Bytes :=
  if off + count ≤ msg.length then some ((msg.drop off).take count) else none

def read16 (msg : Bytes) (off : Nat) : Option Nat :=
  (slice msg off 2).map fun bytes => bytes.foldl (fun v byte => 256 * v + byte.toNat) 0

/-- What a name is written to has room for `NAME_MAX` bytes. -/
def store (out bytes : Bytes) : Option Bytes :=
  if out.length + bytes.length ≤ nameMax then some (out ++ bytes) else none

/-! ## read_name -/

/-- `past` is the source's `end`, none for its zero. -/
structure NameState where
  off : Nat
  out : Bytes := []
  jumps : Nat := 0
  past : Option Nat := none

inductive Turn where
  | malformed
  | whole (out : Bytes) (past : Nat)
  | on (s : NameState)

/-- One turn of the loop. -/
def nameTurn (msg : Bytes) (s : NameState) : Option Turn :=
  if s.off ≥ msg.length then some .malformed
  else do
    let b ← msg[s.off]?
    if b.toNat &&& 0xc0 = 0xc0 then
      if s.off + 1 ≥ msg.length ∨ s.jumps + 1 > 16 then some .malformed
      else
        let low ← msg[s.off + 1]?
        some (.on { s with
          off := (b.toNat &&& 0x3f) <<< 8 ||| low.toNat
          jumps := s.jumps + 1, past := s.past.or (some (s.off + 2)) })
    else if b.toNat &&& 0xc0 ≠ 0 then some .malformed
    else if s.off + 1 + b.toNat > msg.length ∨ s.out.length + 1 + b.toNat + 1 > nameMax then some .malformed
    else
      let out ← store s.out [b]
      if b.toNat = 0 then some (.whole out (s.past.getD (s.off + 1)))
      else
        let label ← slice msg (s.off + 1) b.toNat
        let out ← store out label
        some (.on { s with off := s.off + 1 + b.toNat, out := out })

/-- So many turns, fewer if the loop is left. -/
def nameTurns (msg : Bytes) : Nat → NameState → Option Turn
  | 0, s => some (.on s)
  | turns + 1, s =>
      (nameTurn msg s).bind fun
        | .on s => nameTurns msg turns s
        | left_ => some left_

/-- The labels of a name in wire format. -/
def labelsFrom : Nat → Bytes → Name
  | 0, _ => []
  | _, [] => []
  | fuel + 1, n :: rest => if n = 0 then [] else rest.take n.toNat :: labelsFrom fuel (rest.drop n.toNat)

def labels (out : Bytes) : Name := labelsFrom out.length out

/-- Fails as well when its turns do not leave the loop. -/
def readNameChecked (msg : Bytes) (off : Nat) : Option (Option (Name × Nat)) :=
  (nameTurns msg (16 + nameMax) { off }).bind fun
    | .malformed => some none
    | .whole out past => some (some (labels out, past))
    | .on _ => none

/-! ## Frames -/

def datagramChecked (m : Mdns) (frame : Bytes) : Option (Option Datagram) :=
  if m.ip = noIp ∨ frame.length < hdrLen + 12 then some none
  else do
    let hi ← frame[12]?
    let lo ← frame[13]?
    if hi ≠ 0x08 ∨ lo ≠ 0x00 then some none
    else
      let first ← frame[14]?
      let total ← read16 frame 16
      let fragment ← read16 frame 20
      let proto ← frame[23]?
      let ihl := first.toNat % 16 * 4
      if first.toNat / 16 ≠ 4 ∨ ihl < 20 ∨ proto ≠ 17 ∨ total < ihl + 8 + 12 ∨ total > frame.length - 14 ∨
          fragment % 0x4000 ≠ 0 then some none
      else
        let src ← slice frame 26 4
        let dst ← slice frame 30 4
        if (dst ≠ groupIp ∧ dst ≠ m.ip) ∨ src = m.ip then some none
        else
          let udp := 14 + ihl
          let sport ← read16 frame udp
          let dport ← read16 frame (udp + 2)
          let ulen ← read16 frame (udp + 4)
          if dport ≠ mdnsPort ∨ ulen < 8 + 12 ∨ ulen > total - ihl then some none
          else
            -- `msg` and `mlen` of the source: nothing before or behind them is read from here on
            let msg ← slice frame (udp + 8) (ulen - 8)
            some (some ⟨src, dst, sport, msg⟩)

def readQuestionsChecked (msg : Bytes) : Nat → Nat → Option (Option (List Asked × Nat))
  | 0, off => some (some ([], off))
  | n + 1, off => do
      match ← readNameChecked msg off with
      | none => some none
      | some (name, p) =>
          if p + 4 > msg.length then some none
          else
            let type ← read16 msg p
            let cls ← read16 msg (p + 2)
            let rest ← readQuestionsChecked msg n (p + 4)
            some (rest.map fun (qs, stop) => (⟨name, type, cls⟩ :: qs, stop))

/-- A query for this host, as far as its reply needs it. -/
structure Query where
  mac : Bytes
  src : Bytes
  dst : Bytes
  sport : Nat
  id : Nat
  questions : List Asked

/-- What `mdns_handle` reads. -/
def heard (m : Mdns) (frame : Bytes) : Option Query :=
  (datagram m frame).bind fun d =>
    if rd16 d.msg 2 &&& 0xf80f ≠ 0 then none
    else (readQuestions d.msg (min (rd16 d.msg 4) maxQuestions) 12).map fun (qs, _) =>
      ⟨(frame.drop 6).take 6, d.src, d.dst, d.sport, rd16 d.msg 0, qs⟩

/-- What `mdns_handle` writes. -/
def reply (m : Mdns) (query : Query) : Mdns × Bytes :=
  let qs := query.questions
  let ans := answersTo m qs
  let legacy := decide (query.sport ≠ mdnsPort)
  let g : Msg := { beginMessage (if legacy then query.id else 0) with legacy := legacy }
  let g := if legacy then qs.foldl putAsked g else g
  if legacy ∧ g.full then (m, [])
  else
    let g : Msg := if legacy then { g with buf := wr16 g.buf 4 qs.length } else g
    let g := writeSet g m ans
    if g.count = 0 then (m, [])
    else
      let g : Msg := { g with buf := wr16 g.buf 6 g.count, count := 0 }
      let g := writeSet g m (additional m ans)
      let g : Msg := { g with buf := wr16 g.buf 10 g.count }
      if legacy ∨ query.dst ≠ groupIp then wrap m g query.mac query.src query.sport
      else wrap m g groupMac groupIp mdnsPort

def heardChecked (m : Mdns) (frame : Bytes) : Option (Option Query) := do
  match ← datagramChecked m frame with
  | none => some none
  | some d =>
      let flags ← read16 d.msg 2
      if flags &&& 0xf80f ≠ 0 then some none
      else
        let asked ← read16 d.msg 4
        let read ← readQuestionsChecked d.msg (min asked maxQuestions) 12
        let id ← read16 d.msg 0
        let mac ← slice frame 6 6
        some (read.map fun (qs, _) => ⟨mac, d.src, d.dst, d.sport, id, qs⟩)

def mdnsHandleChecked (m : Mdns) (frame : Bytes) : Option (Mdns × Bytes) :=
  (heardChecked m frame).map fun query => query.elim (m, []) (reply m)

def mdnsResponseChecked (m : Mdns) (frame : Bytes) : Option (Option (Bytes × Nat × Nat)) := do
  match ← datagramChecked m frame with
  | none => some none
  | some d =>
      let flags ← read16 d.msg 2
      if d.sport ≠ mdnsPort ∨ flags &&& 0xf80f ≠ 0x8000 then some none
      else
        let asked ← read16 d.msg 4
        let answers ← read16 d.msg 6
        let authorities ← read16 d.msg 8
        let additionals ← read16 d.msg 10
        let read ← readQuestionsChecked d.msg asked 12
        some (read.map fun (_, off) => (d.msg, off, answers + authorities + additionals))

/-! ## Records -/

def readDataChecked (msg : Bytes) (r : MdnsRecord) (data rdlen : Nat) : Option (Option MdnsRecord) :=
  if r.type = typePtr then do
    match ← readNameChecked msg data with
    | none => some none
    | some (target, past) => some (if past > data + rdlen then none else some { r with target := target })
  else if r.type = typeSrv then
    if rdlen < 7 then some none
    else do
      let port ← read16 msg (data + 4)
      match ← readNameChecked msg (data + 6) with
      | none => some none
      | some (target, past) =>
          some (if past > data + rdlen then none else some { r with target := target, port := port })
  else if r.type = typeA then
    if rdlen ≠ 4 then some none
    else do
      let ip ← slice msg data 4
      some (some { r with ip := ip })
  else some (some r)

def nextRecordChecked (msg : Bytes) : Nat → Nat → Option (Option (MdnsRecord × Nat × Nat))
  | 0, _ => some none
  | left_ + 1, off => do
      match ← readNameChecked msg off with
      | none => some none
      | some (name, p) =>
          if p + 10 > msg.length then some none
          else
            let type ← read16 msg p
            let cls ← read16 msg (p + 2)
            let high ← read16 msg (p + 4)
            let low ← read16 msg (p + 6)
            let rdlen ← read16 msg (p + 8)
            let stop := p + 10 + rdlen
            if stop > msg.length then some none
            else if cls % classTop ≠ classIn then nextRecordChecked msg left_ stop
            else
              let data ← readDataChecked msg { name, type, ttl := high * 65536 + low } (p + 10) rdlen
              some (data.map fun r => (r, stop, left_))

/-! ## What a name in a message says -/

/-- The name at `off`, as RFC 1035 has it: labels up to the root, or up to a pointer to the rest. -/
inductive Decompresses (msg : Bytes) : Nat → Name → Prop
  | root {off : Nat} : msg[off]? = some 0 → Decompresses msg off []
  | label {off : Nat} {n : UInt8} {label : Label} {name : Name} : msg[off]? = some n → 1 ≤ n.toNat →
    n.toNat < 64 →
      label.length = n.toNat → Stands msg (off + 1) label → Decompresses msg (off + 1 + n.toNat) name →
      Decompresses msg off (label :: name)
  | pointer {off : Nat} {high low : UInt8} {name : Name} : msg[off]? = some high → 192 ≤ high.toNat →
      msg[off + 1]? = some low → Decompresses msg (256 * (high.toNat - 192) + low.toNat) name →
      Decompresses msg off name

/-- Where what stands at `off` of a name ends: behind its root or its first pointer. -/
inductive InPlace (msg : Bytes) : Nat → Nat → Prop
  | root {off : Nat} : msg[off]? = some 0 → InPlace msg off (off + 1)
  | label {off past : Nat} {n : UInt8} : msg[off]? = some n → 1 ≤ n.toNat → n.toNat < 64 →
      InPlace msg (off + 1 + n.toNat) past → InPlace msg off past
  | pointer {off : Nat} {high : UInt8} : msg[off]? = some high → 192 ≤ high.toNat → off + 1 < msg.length →
      InPlace msg off (off + 2)

section Compression
variable {msg : Bytes} {off : Nat}

theorem byte_inside (inside : off < msg.length) : msg[off]? = some (byteAt msg off) := by
  rw [byteAt, List.getD_eq_getElem?_getD, List.getElem?_eq_getElem inside, Option.getD_some]

set_option maxRecDepth 100000 in
theorem pointer_bits : ∀ b < 256, (b &&& 0xc0 = 0xc0 ↔ 192 ≤ b) ∧ (b &&& 0xc0 = 0 ↔ b < 64) := by decide

theorem pointer_target {high low : Nat} (top : 192 ≤ high) (byte : high < 256) (small : low < 256) :
    (high &&& 0x3f) <<< 8 ||| low = 256 * (high - 192) + low := by
  have bits : high &&& 0x3f = high - 192 := by
    rw [Nat.and_two_pow_sub_one_eq_mod high 6]
    omega
  rw [bits, ← Nat.shiftLeft_add_eq_or_of_lt small, Nat.shiftLeft_eq, Nat.mul_comm]

theorem slice_inside {count : Nat} (inside : off + count ≤ msg.length) :
    slice msg off count = some ((msg.drop off).take count) := if_pos inside

theorem readNameFrom_decompresses (fuel : Nat) :
    ∀ (off n jumps : Nat) (past : Option Nat) (out name : Name) (p : Nat),
    readNameFrom msg fuel off n jumps past out = some (name, p) → ∃ rest q, name = out ++ rest ∧
      Decompresses msg off rest ∧ InPlace msg off q ∧ p = past.getD q := by
  induction fuel with
  | zero => rintro off n jumps past out name p ⟨⟩
  | succ fuel ih =>
      intro off n jumps past out name p read
      simp only [readNameFrom] at read
      by_cases outside : off ≥ msg.length
      · rw [if_pos outside] at read
        cases read
      rw [if_neg outside] at read
      have here := byte_inside (Nat.lt_of_not_le outside)
      obtain ⟨isPointer, isLabel⟩ := pointer_bits _ (UInt8.toNat_lt (byteAt msg off))
      by_cases jump : (byteAt msg off).toNat &&& 0xc0 = 0xc0
      · rw [if_pos jump] at read
        by_cases bad : off + 1 ≥ msg.length ∨ jumps + 1 > 16
        · rw [if_pos bad] at read
          cases read
        rw [if_neg bad] at read
        have more : off + 1 < msg.length := Nat.lt_of_not_le fun over_ => bad (Or.inl over_)
        have top := isPointer.mp jump
        obtain ⟨rest, q, whole, meaning, -, rfl⟩ := ih _ _ _ _ _ _ _ read
        rw [pointer_target top (UInt8.toNat_lt _) (UInt8.toNat_lt _)] at meaning
        refine ⟨rest, off + 2, whole, .pointer here top (byte_inside more) meaning,
          .pointer here top more, ?_⟩
        cases past <;> rfl
      rw [if_neg jump] at read
      by_cases unknown : (byteAt msg off).toNat &&& 0xc0 ≠ 0
      · rw [if_pos unknown] at read
        cases read
      rw [if_neg unknown] at read
      have small := isLabel.mp (not_not.mp unknown)
      by_cases long : off + 1 + (byteAt msg off).toNat > msg.length ∨
        n + 1 + (byteAt msg off).toNat + 1 > nameMax
      · rw [if_pos long] at read
        cases read
      rw [if_neg long] at read
      by_cases zero : (byteAt msg off).toNat = 0
      · rw [if_pos zero] at read
        cases read
        rw [UInt8.toNat_inj (b := 0) |>.mp zero] at here
        exact ⟨[], off + 1, (List.append_nil _).symm, .root here, .root here, rfl⟩
      · rw [if_neg zero] at read
        have inside : off + 1 + (byteAt msg off).toNat ≤ msg.length :=
          Nat.le_of_not_lt fun over_ => long (Or.inl over_)
        obtain ⟨rest, q, rfl, meaning, ends, rfl⟩ := ih _ _ _ _ _ _ _ read
        have length : ((msg.drop (off + 1)).take (byteAt msg off).toNat).length = (byteAt msg off).toNat := by
          rw [List.length_take, List.length_drop]
          omega
        refine ⟨_ :: rest, q,
          by rw [List.append_assoc]; rfl, ?_, .label here (Nat.pos_of_ne_zero zero) small ends, rfl⟩
        exact .label here (Nat.pos_of_ne_zero zero) small length (List.take_prefix _ _) meaning

theorem inPlace_bounds {past : Nat} (ends : InPlace msg off past) : off < past ∧ past ≤ msg.length := by
  induction ends with
  | root here => exact ⟨Nat.lt_succ_self _, (List.getElem?_eq_some_iff.mp here).1⟩
  | label _ _ _ _ ih => exact ⟨by omega, ih.2⟩
  | pointer _ _ more => exact ⟨Nat.lt_add_of_pos_right (by decide), more⟩

end Compression

/-! ## Every turn is inside, and there are few -/

section Turns
variable {msg : Bytes} {off : Nat}

theorem read16_inside (inside : off + 2 ≤ msg.length) : read16 msg off = some (rd16 msg off) := by
  have hi : msg[off]? = some (byteAt msg off) := byte_inside (by omega)
  have lo : msg[off + 1]? = some (byteAt msg (off + 1)) := byte_inside (by omega)
  have two : (msg.drop off).take 2 = [byteAt msg off, byteAt msg (off + 1)] := by
    rw [List.drop_eq_getElem_cons (by omega), List.drop_eq_getElem_cons (by omega)]
    rw [List.getElem?_eq_getElem (by omega)] at hi lo
    rw [Option.some.inj hi, Option.some.inj lo]
    rfl
  rw [read16, slice_inside inside, two]
  simp [rd16]

/-- The labels that are in `out` so far. -/
def spelled (name : Name) : Bytes := name.flatMap fun label => UInt8.ofNat label.length :: label

theorem spelled_append (name : Name) (label : Label) :
    spelled (name ++ [label]) = spelled name ++ UInt8.ofNat label.length :: label := by
  simp [spelled]

/-- How `read_name` leaves its loop. -/
def leaves (read : Option (Name × Nat)) : Turn := read.elim .malformed fun e => .whole (wire e.1) e.2

/-- What the loop may still do: pointers to follow and room to fill. -/
def budget (s : NameState) : Nat := 16 - s.jumps + (nameMax - s.out.length)

theorem nameTurns_eq (turns : Nat) : ∀ (fuel : Nat) (s : NameState) (name : Name), s.out = spelled name →
    s.out.length < nameMax → budget s ≤ turns → budget s ≤ fuel →
    nameTurns msg turns s = some (leaves (readNameFrom msg fuel s.off s.out.length s.jumps s.past name)) := by
  induction turns with
  | zero =>
      intro fuel s name _ short enough
      simp only [budget] at enough
      omega
  | succ turns ih =>
      intro fuel s name spells short enough enough'
      obtain ⟨fuel, rfl⟩ : ∃ less, fuel = less + 1 := ⟨fuel - 1, by simp only [budget] at enough'; omega⟩
      simp only [nameTurns, nameTurn, readNameFrom]
      by_cases outside : s.off ≥ msg.length
      · rw [if_pos outside, if_pos outside]
        rfl
      rw [if_neg outside, if_neg outside, byte_inside (Nat.lt_of_not_le outside)]
      simp only [Option.bind_eq_bind, Option.bind_some]
      obtain ⟨-, isLabel⟩ := pointer_bits _ (UInt8.toNat_lt (byteAt msg s.off))
      by_cases jump : (byteAt msg s.off).toNat &&& 0xc0 = 0xc0
      · rw [if_pos jump, if_pos jump]
        by_cases bad : s.off + 1 ≥ msg.length ∨ s.jumps + 1 > 16
        · rw [if_pos bad, if_pos bad]
          rfl
        -- a pointer: one less of the 16
        rw [if_neg bad, if_neg bad, byte_inside (by omega)]
        simp only [Option.bind_some]
        exact ih fuel _ name spells short (by simp only [budget] at *; omega)
          (by simp only [budget] at *; omega)
      rw [if_neg jump, if_neg jump]
      by_cases unknown : (byteAt msg s.off).toNat &&& 0xc0 ≠ 0
      · rw [if_pos unknown, if_pos unknown]
        rfl
      rw [if_neg unknown, if_neg unknown]
      by_cases long : s.off + 1 + (byteAt msg s.off).toNat > msg.length ∨
          s.out.length + 1 + (byteAt msg s.off).toNat + 1 > nameMax
      · rw [if_pos long, if_pos long]
        rfl
      rw [if_neg long, if_neg long]
      rw [not_or, Nat.not_lt, Nat.not_lt] at long
      have room : s.out.length + [byteAt msg s.off].length ≤ nameMax := by
        rw [List.length_singleton]
        omega
      rw [store, if_pos room]
      simp only [Option.bind_some]
      by_cases zero : (byteAt msg s.off).toNat = 0
      · rw [if_pos zero, if_pos zero, UInt8.toNat_inj (b := 0) |>.mp zero, spells]
        rfl
      · rw [if_neg zero, if_neg zero, slice_inside long.1]
        have length : ((msg.drop (s.off + 1)).take (byteAt msg s.off).toNat).length =
            (byteAt msg s.off).toNat := by
          rw [List.length_take, List.length_drop]
          omega
        have fits : (s.out ++ [byteAt msg s.off]).length +
            ((msg.drop (s.off + 1)).take (byteAt msg s.off).toNat).length ≤ nameMax := by
          rw [List.length_append, List.length_singleton, length]
          omega
        simp only [Option.bind_some]
        rw [store, if_pos fits]
        simp only [Option.bind_some]
        -- a label: the name is longer by what was read
        have longer : (s.out ++ [byteAt msg s.off] ++
          (msg.drop (s.off + 1)).take (byteAt msg s.off).toNat).length =
            s.out.length + 1 + (byteAt msg s.off).toNat := by
          rw [List.length_append, List.length_append, List.length_singleton, length]
        have next_ := ih fuel { s with
            off := s.off + 1 + (byteAt msg s.off).toNat
            out := s.out ++ [byteAt msg s.off] ++ (msg.drop (s.off + 1)).take (byteAt msg s.off).toNat }
          (name ++ [(msg.drop (s.off + 1)).take (byteAt msg s.off).toNat])
        dsimp only [budget] at next_ enough enough'
        rw [longer] at next_
        apply next_
        · rw [spelled_append, length, UInt8.ofNat_toNat, spells, List.append_assoc]
          rfl
        · omega
        · omega
        · omega

theorem labelsFrom_wire {name : Name} (ok : NameOk name) : ∀ fuel, (wire name).length ≤ fuel →
    labelsFrom fuel (wire name) = name := by
  induction name with
  | nil =>
      rintro (_ | fuel) enough
      · cases enough
      · rfl
  | cons label rest ih =>
      rintro fuel enough
      obtain ⟨⟨positive, small⟩, later⟩ := nameOk_cons.mp ok
      rw [wire_cons, List.length_append, List.length_cons] at enough
      obtain ⟨fuel, rfl⟩ := Nat.exists_eq_succ_of_ne_zero (by omega : fuel ≠ 0)
      have length : (UInt8.ofNat label.length).toNat = label.length := by
        rw [UInt8.toNat_ofNat']
        simp only [labelMax] at small
        omega
      have some_ : UInt8.ofNat label.length ≠ 0 := by
        intro zero
        rw [zero] at length
        exact absurd positive (by rw [← length]; decide)
      rw [wire_cons, List.cons_append, labelsFrom, if_neg some_, length, List.take_left,
        List.drop_left, ih later _ (by omega)]

theorem labels_wire {name : Name} (ok : NameOk name) : labels (wire name) = name :=
  labelsFrom_wire ok _ (Nat.le_refl _)

theorem nameTurns_start (turns : Nat) (enough : 16 + nameMax ≤ turns) (off : Nat) :
    nameTurns msg turns { off } = some (leaves (readName msg off)) :=
  nameTurns_eq turns (16 + nameMax) { off } [] rfl (Nat.zero_lt_succ _) enough (Nat.le_refl _)

theorem readNameChecked_eq (off : Nat) : readNameChecked msg off = some (readName msg off) := by
  rw [readNameChecked, nameTurns_start _ (Nat.le_refl _)]
  cases read : readName msg off with
  | none => rfl
  | some e =>
      simp only [leaves, Option.elim_some, Option.bind_some, labels_wire (readName_ok read).1]

theorem readQuestionsChecked_eq (n : Nat) :
    ∀ off, readQuestionsChecked msg n off = some (readQuestions msg n off) := by
  induction n with
  | zero => exact fun off => rfl
  | succ n ih =>
      intro off
      simp only [readQuestionsChecked, readQuestions, readNameChecked_eq, Option.bind_eq_bind,
        Option.bind_some]
      cases readName msg off with
      | none => rfl
      | some e =>
          obtain ⟨name, p⟩ := e
          by_cases short : p + 4 > msg.length
          · simp only [if_pos short]
          · simp only [if_neg short, read16_inside (by omega : p + 2 ≤ msg.length),
              read16_inside (by omega : p + 2 + 2 ≤ msg.length), ih, Option.bind_some]

theorem readDataChecked_eq (r : MdnsRecord) {data rdlen : Nat} (inside : data + rdlen ≤ msg.length) :
    readDataChecked msg r data rdlen = some (readData msg r data rdlen) := by
  unfold readDataChecked readData
  by_cases ptr : r.type = typePtr
  · rw [if_pos ptr, if_pos ptr]
    simp only [readNameChecked_eq, Option.bind_eq_bind, Option.bind_some]
    cases readName msg data <;> rfl
  rw [if_neg ptr, if_neg ptr]
  by_cases srv : r.type = typeSrv
  · rw [if_pos srv, if_pos srv]
    by_cases short : rdlen < 7
    · rw [if_pos short, if_pos short]
    · rw [if_neg short, if_neg short]
      simp only [readNameChecked_eq, read16_inside (by omega : data + 4 + 2 ≤ msg.length),
        Option.bind_eq_bind,
        Option.bind_some]
      cases readName msg (data + 6) <;> rfl
  rw [if_neg srv, if_neg srv]
  by_cases a : r.type = typeA
  · rw [if_pos a, if_pos a]
    by_cases four : rdlen ≠ 4
    · rw [if_pos four, if_pos four]
    · rw [if_neg four, if_neg four, slice_inside (by omega : data + 4 ≤ msg.length)]
      rfl
  · rw [if_neg a, if_neg a]

theorem nextRecordChecked_eq (left_ : Nat) :
    ∀ off, nextRecordChecked msg left_ off = some (nextRecord msg left_ off) := by
  induction left_ with
  | zero => exact fun off => rfl
  | succ left_ ih =>
      intro off
      simp only [nextRecordChecked, nextRecord, readNameChecked_eq, Option.bind_eq_bind, Option.bind_some]
      cases readName msg off with
      | none => rfl
      | some e =>
          obtain ⟨name, p⟩ := e
          by_cases short : p + 10 > msg.length
          · simp only [if_pos short, if_pos (Or.inl short)]
          simp only [if_neg short, read16_inside (by omega : p + 2 ≤ msg.length),
            read16_inside (by omega : p + 2 + 2 ≤ msg.length),
              read16_inside (by omega : p + 4 + 2 ≤ msg.length),
            read16_inside (by omega : p + 6 + 2 ≤ msg.length),
              read16_inside (by omega : p + 8 + 2 ≤ msg.length),
            Option.bind_some]
          by_cases long : p + 10 + rd16 msg (p + 8) > msg.length
          · rw [if_pos long, if_pos (Or.inr long)]
          have both : ¬(p + 10 > msg.length ∨ p + 10 + rd16 msg (p + 8) > msg.length) :=
            not_or.mpr ⟨short, long⟩
          rw [if_neg long, if_neg both]
          by_cases other : rd16 msg (p + 2) % classTop ≠ classIn
          · rw [if_pos other, if_pos other, ih]
          · rw [if_neg other, if_neg other, readDataChecked_eq _ (Nat.le_of_not_lt long)]
            rfl

end Turns

/-! ## Whole frames -/

section Frames
variable {m : Mdns} {frame : Bytes}

theorem datagramChecked_eq : datagramChecked m frame = some (datagram m frame) := by
  unfold datagramChecked datagram
  by_cases short : m.ip = noIp ∨ frame.length < hdrLen + 12
  · rw [if_pos short, if_pos (short.imp_right Or.inl)]
  rw [if_neg short]
  rw [not_or, Nat.not_lt] at short
  obtain ⟨live, long⟩ := short
  simp only [hdrLen, Nat.reduceAdd] at long
  simp only [byte_inside (by omega : 12 < frame.length), byte_inside (by omega : 13 < frame.length),
    byte_inside (by omega : 14 < frame.length), byte_inside (by omega : 23 < frame.length),
    read16_inside (by omega : 16 + 2 ≤ frame.length), read16_inside (by omega : 20 + 2 ≤ frame.length),
    slice_inside (by omega : 26 + 4 ≤ frame.length), slice_inside (by omega : 30 + 4 ≤ frame.length),
    Option.bind_eq_bind, Option.bind_some]
  by_cases ethertype : byteAt frame 12 ≠ 0x08 ∨ byteAt frame 13 ≠ 0x00
  · rw [if_pos ethertype, if_pos (Or.inr (Or.inr ethertype))]
  have small : ¬frame.length < hdrLen + 12 := Nat.not_lt.mpr long
  have whole : ¬(m.ip = noIp ∨ frame.length < hdrLen + 12 ∨ byteAt frame 12 ≠ 0x08 ∨
      byteAt frame 13 ≠ 0x00) :=
    not_or.mpr ⟨live, not_or.mpr ⟨small, ethertype⟩⟩
  rw [if_neg ethertype, if_neg whole]
  generalize (byteAt frame 14).toNat % 16 * 4 = ihl
  by_cases header : (byteAt frame 14).toNat / 16 ≠ 4 ∨ ihl < 20 ∨ byteAt frame 23 ≠ 17 ∨
      rd16 frame 16 < ihl + 8 + 12 ∨ rd16 frame 16 > frame.length - 14 ∨ rd16 frame 20 % 0x4000 ≠ 0
  · rw [if_pos header, if_pos header]
  rw [if_neg header, if_neg header]
  have room : 14 + ihl + 20 ≤ frame.length := by omega
  by_cases away : ((frame.drop 30).take 4 ≠ groupIp ∧ (frame.drop 30).take 4 ≠ m.ip) ∨
    (frame.drop 26).take 4 = m.ip
  · rw [if_pos away, if_pos away]
  rw [if_neg away, if_neg away, read16_inside (by omega : 14 + ihl + 2 ≤ frame.length),
    read16_inside (by omega : 14 + ihl + 2 + 2 ≤ frame.length),
      read16_inside (by omega : 14 + ihl + 4 + 2 ≤ frame.length)]
  simp only [Option.bind_some]
  by_cases ports : rd16 frame (14 + ihl + 2) ≠ mdnsPort ∨ rd16 frame (14 + ihl + 4) < 8 + 12 ∨
      rd16 frame (14 + ihl + 4) > rd16 frame 16 - ihl
  · rw [if_pos ports, if_pos ports]
  · rw [if_neg ports, if_neg ports, slice_inside (by omega)]
    rfl

theorem datagram_counts {d : Datagram} (got : datagram m frame = some d) :
    12 ≤ d.msg.length ∧ 54 ≤ frame.length := by
  unfold datagram at got
  dsimp only at got
  by_cases whole : m.ip = noIp ∨ frame.length < hdrLen + 12 ∨ byteAt frame 12 ≠ 0x08 ∨ byteAt frame 13 ≠ 0x00
  · rw [if_pos whole] at got
    cases got
  rw [if_neg whole] at got
  simp only [not_or, Nat.not_lt, hdrLen] at whole
  generalize (byteAt frame 14).toNat % 16 * 4 = ihl at got
  split at got
  · cases got
  · next header =>
    split at got
    · cases got
    · split at got
      · cases got
      · next ports =>
        cases got
        refine ⟨?_, whole.2.1⟩
        rw [List.length_take, List.length_drop]
        omega

theorem mdnsHandle_eq : mdnsHandle m frame = (heard m frame).elim (m, []) (reply m) := by
  unfold mdnsHandle heard
  cases datagram m frame with
  | none => rfl
  | some d =>
      simp only [Option.bind_some]
      by_cases query : rd16 d.msg 2 &&& 0xf80f ≠ 0
      · rw [if_pos query, if_pos query]
        rfl
      · rw [if_neg query, if_neg query]
        cases readQuestions d.msg (min (rd16 d.msg 4) maxQuestions) 12 <;> rfl

theorem heardChecked_eq : heardChecked m frame = some (heard m frame) := by
  unfold heardChecked heard
  rw [datagramChecked_eq]
  simp only [Option.bind_eq_bind, Option.bind_some]
  cases got : datagram m frame with
  | none => rfl
  | some d =>
      obtain ⟨counts, long⟩ := datagram_counts got
      simp only [Option.bind_some, read16_inside (by omega : 2 + 2 ≤ d.msg.length)]
      by_cases query : rd16 d.msg 2 &&& 0xf80f ≠ 0
      · rw [if_pos query, if_pos query]
      · rw [if_neg query, if_neg query, read16_inside (by omega : 4 + 2 ≤ d.msg.length),
          read16_inside (by omega : 0 + 2 ≤ d.msg.length), slice_inside (by omega : 6 + 6 ≤ frame.length)]
        simp only [Option.bind_some, readQuestionsChecked_eq]

theorem mdnsHandleChecked_eq : mdnsHandleChecked m frame = some (mdnsHandle m frame) := by
  rw [mdnsHandleChecked, heardChecked_eq, mdnsHandle_eq, Option.map_some]

theorem mdnsResponseChecked_eq : mdnsResponseChecked m frame = some (mdnsResponse m frame) := by
  unfold mdnsResponseChecked mdnsResponse
  rw [datagramChecked_eq]
  simp only [Option.bind_eq_bind, Option.bind_some]
  cases got : datagram m frame with
  | none => rfl
  | some d =>
      have counts := (datagram_counts got).1
      simp only [Option.bind_some, read16_inside (by omega : 2 + 2 ≤ d.msg.length)]
      by_cases query : d.sport ≠ mdnsPort ∨ rd16 d.msg 2 &&& 0xf80f ≠ 0x8000
      · rw [if_pos query, if_pos query]
      · rw [if_neg query, if_neg query, read16_inside (by omega : 4 + 2 ≤ d.msg.length),
          read16_inside (by omega : 6 + 2 ≤ d.msg.length), read16_inside (by omega : 8 + 2 ≤ d.msg.length),
          read16_inside (by omega : 10 + 2 ≤ d.msg.length)]
        simp only [Option.bind_some, readQuestionsChecked_eq]

/-- The reads of whole frames, of records and of names: all inside, all in so many turns; a name that is
read is what the message says at that place. -/
theorem reads_inside (m : Mdns) (frame : Bytes) :
    mdnsHandleChecked m frame = some (mdnsHandle m frame) ∧
      mdnsResponseChecked m frame = some (mdnsResponse m frame) ∧
      ∀ (msg : Bytes) (off : Nat),
        (∀ left_, nextRecordChecked msg left_ off = some (nextRecord msg left_ off)) ∧
        (∀ turns, 16 + nameMax ≤ turns → nameTurns msg turns { off } = some (leaves (readName msg off))) ∧
        ∀ name past, readName msg off = some (name, past) → NameOk name ∧ (wire name).length ≤ nameMax ∧
          Decompresses msg off name ∧ InPlace msg off past ∧ off < past ∧ past ≤ msg.length := by
  refine ⟨mdnsHandleChecked_eq, mdnsResponseChecked_eq, fun msg off =>
    ⟨fun left_ => nextRecordChecked_eq left_ off,
    fun turns enough => nameTurns_start turns enough off, fun name past read => ?_⟩⟩
  obtain ⟨ok, short⟩ := readName_ok read
  obtain ⟨rest, q, rfl, meaning, ends, rfl⟩ := readNameFrom_decompresses _ _ _ _ _ _ _ _ read
  obtain ⟨more, inside⟩ := inPlace_bounds ends
  exact ⟨ok, (wire_length _).trans_le (Nat.le_of_lt short), meaning, ends, more, inside⟩

end Frames

end R2Apps.MdnsReading
