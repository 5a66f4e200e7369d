import R2Apps.GoSlices

/-! What `r2net` takes in: `parseIPv4` of `ipv4.go`, which `ethLink.recv` of `link.go` and
`Stack.deliver` of `r2net.go` both run over one packet. What the link learns and answers on the
way (its cache, ARP) is left out: nothing here reads it back. -/
namespace R2Apps.Ipv4Intake
open GoSlices

abbrev Bytes := List UInt8

def ipHeaderLen : Nat := 20
def ethHeaderLen : Nat := 14
def frameLen : Nat := 2048

structure IpPacket where
  src : Bytes
  dst : Bytes
  proto : UInt8
  payload : Bytes
deriving DecidableEq

def parseIPv4 (p : Bytes) : Checked (Option IpPacket) := do
  if p.length < ipHeaderLen then return none
  if (← index p 0) >>> 4 ≠ 4 then return none
  let hdrLen := ((← index p 0) &&& 0x0F).toNat * 4
  let total := join (← index p 2) (← index p 3)
  if hdrLen < ipHeaderLen ∨ total < hdrLen ∨ total > p.length then return none
  -- Whether there is an offset. The bit that says more fragments follow is not in the mask.
  if (← index p 6) &&& 0x1F ≠ 0 ∨ (← index p 7) ≠ 0 then return none
  let src ← slice p 12 16
  let dst ← slice p 16 20
  let proto ← index p 9
  let payload ← slice p hdrLen total
  return some { src, dst, proto, payload }

/-- How `recv` ends: nothing was queued (-1), the frame is not passed on (0), or a packet. -/
inductive Received where
  | empty
  | kept
  | up (packet : Bytes)
deriving DecidableEq

/-- `ethLink`: the card's address. -/
structure EthLink where
  mac : Bytes

/-- `frame` is what the kernel has put into `rxFrame`; `buf` is as long as that. -/
def EthLink.recv (l : EthLink) (frame : Bytes) : Checked Received := do
  if frame.length = 0 then return .empty
  if frame.length < ethHeaderLen ∨ frame.length > frameLen then return .kept
  let src ← slice frame 6 12
  -- Frames from our own hardware address are our own, looped back by the host bridge.
  if src = l.mac then return .kept
  match join (← index frame 12) (← index frame 13) with
  | 0x0806 => return .kept
  | 0x0800 =>
      let payload ← slice frame ethHeaderLen frame.length
      match ← parseIPv4 payload with
      | none => return .kept
      | some pkt => return .up ((← slice payload 0 (ipHeaderLen + pkt.payload.length)).take frameLen)
  | _ => return .kept

/-! ## The packet's own words -/

def version (p : Bytes) : Nat := (at_ p 0).toNat / 16
def headerLength (p : Bytes) : Nat := (at_ p 0).toNat % 16 * 4
def totalLength (p : Bytes) : Nat := 256 * (at_ p 2).toNat + (at_ p 3).toNat
def fragmentOffset (p : Bytes) : Nat := 256 * ((at_ p 6).toNat % 32) + (at_ p 7).toNat
def moreFragments (p : Bytes) : Bool := (at_ p 6).toNat / 32 % 2 = 1

/-- A header that fits the buffer and is there to its end. -/
structure Headed (p : Bytes) : Prop where
  long : 20 ≤ p.length
  version : version p = 4
  header : 20 ≤ headerLength p
  ordered : headerLength p ≤ totalLength p
  inside : totalLength p ≤ p.length

structure Whole (p : Bytes) : Prop extends Headed p where
  first : fragmentOffset p = 0
  last : moreFragments p = false

def packetOf (p : Bytes) : IpPacket where
  src := (p.take 16).drop 12
  dst := (p.take 20).drop 16
  proto := at_ p 9
  payload := (p.take (totalLength p)).drop (headerLength p)

theorem version_eq (p : Bytes) : at_ p 0 >>> 4 = 4 ↔ version p = 4 := by
  unfold version
  rw [← UInt8.toNat_inj, UInt8.toNat_shiftRight]
  change (at_ p 0).toNat >>> 4 = 4 ↔ _
  rw [Nat.shiftRight_eq_div_pow]

theorem headerLength_eq (p : Bytes) : (at_ p 0 &&& 0x0F).toNat * 4 = headerLength p := by
  unfold headerLength
  rw [UInt8.toNat_and]
  congr 1
  exact Nat.and_two_pow_sub_one_eq_mod _ 4

theorem offset_eq (p : Bytes) : (at_ p 6 &&& 0x1F ≠ 0 ∨ at_ p 7 ≠ 0) ↔ fragmentOffset p ≠ 0 := by
  have high : at_ p 6 &&& 0x1F ≠ 0 ↔ (at_ p 6).toNat % 32 ≠ 0 := by
    rw [Ne, ← UInt8.toNat_inj, UInt8.toNat_and]
    exact not_congr (Eq.congr_left (Nat.and_two_pow_sub_one_eq_mod _ 5))
  have low : at_ p 7 ≠ 0 ↔ (at_ p 7).toNat ≠ 0 := by
    rw [Ne, ← UInt8.toNat_inj]
    rfl
  rw [high, low]
  unfold fragmentOffset
  omega

theorem headed_iff {p : Bytes} (long : 20 ≤ p.length) (four : version p = 4) :
    Headed p ↔ ¬ (headerLength p < 20 ∨ totalLength p < headerLength p ∨ totalLength p > p.length) := by
  constructor
  · rintro h (short | backwards | outside)
    · exact absurd h.header (by omega)
    · exact absurd h.ordered (by omega)
    · exact absurd h.inside (by omega)
  · intro fits
    exact ⟨long, four, by omega, by omega, by omega⟩

theorem parseIPv4_eq (p : Bytes) [Decidable (Headed p ∧ fragmentOffset p = 0)] :
    parseIPv4 p = .ok (if Headed p ∧ fragmentOffset p = 0 then some (packetOf p) else none) := by
  unfold parseIPv4 ipHeaderLen
  by_cases long : 20 ≤ p.length
  · rw [if_neg (not_lt.mpr long)]
    simp only [index_ok (show 0 < p.length by omega), index_ok (show 2 < p.length by omega),
      index_ok (show 3 < p.length by omega), index_ok (show 6 < p.length by omega),
      index_ok (show 7 < p.length by omega), index_ok (show 9 < p.length by omega),
      slice_ok (show 12 ≤ 16 by decide) (show 16 ≤ p.length by omega),
      slice_ok (show 16 ≤ 20 by decide) long, bind, Except.bind, pure, Except.pure, join_eq, headerLength_eq]
    by_cases four : version p = 4
    · rw [if_neg (not_not.mpr ((version_eq p).mpr four))]
      by_cases fits : headerLength p < 20 ∨ totalLength p < headerLength p ∨ totalLength p > p.length
      · rw [if_pos (by exact fits), if_neg fun h => (headed_iff long four).mp h.1 fits]
      · rw [if_neg (by exact fits)]
        by_cases whole : fragmentOffset p = 0
        · have middle := not_congr (offset_eq p)
          rw [if_neg (middle.mpr (not_not.mpr whole)), if_pos ⟨(headed_iff long four).mpr fits, whole⟩]
          have inside : headerLength p ≤ totalLength p ∧ totalLength p ≤ p.length := by omega
          have cut := slice_ok inside.1 inside.2
          unfold totalLength at cut
          rw [cut]
          rfl
        · rw [if_pos ((offset_eq p).mpr whole), if_neg fun h => whole h.2]
    · rw [if_pos (mt (version_eq p).mp four), if_neg fun h => four h.1.version]
  · rw [if_pos (not_le.mp long), if_neg fun h => long h.1.long]
    rfl

/-! ## What is taken in -/

/-- `parseIPv4` takes the packets that are whole, and ends on all others without an index out of
range. -/
def TakesWhole (p : Bytes) : Prop := ∃ r, parseIPv4 p = .ok r ∧ (r.isSome ↔ Whole p)

/-- The frame brings a whole packet of another station, options or not. -/
structure Carries (l : EthLink) (frame : Bytes) : Prop where
  header : ethHeaderLen ≤ frame.length
  room : frame.length ≤ frameLen
  foreign : (frame.take 12).drop 6 ≠ l.mac
  ipv4 : at_ frame 12 = 0x08 ∧ at_ frame 13 = 0x00
  whole : Whole (frame.drop ethHeaderLen)

/-- What `recv` hands up is the packet that was in the frame, to whoever parses it again. -/
def HandsUp (l : EthLink) (frame : Bytes) : Prop :=
  ∃ bytes pkt, l.recv frame = .ok (.up bytes) ∧ parseIPv4 (frame.drop ethHeaderLen) = .ok (some pkt) ∧
    parseIPv4 bytes = .ok (some pkt)

theorem whole_iff (p : Bytes) :
    Whole p ↔ (Headed p ∧ fragmentOffset p = 0) ∧
      ¬ (Headed p ∧ fragmentOffset p = 0 ∧ moreFragments p = true) := by
  constructor
  · intro whole
    refine ⟨⟨whole.toHeaded, whole.first⟩, ?_⟩
    rintro ⟨-, -, more⟩
    exact absurd (whole.last.symm.trans more) Bool.false_ne_true
  · rintro ⟨⟨headed, first⟩, last⟩
    exact ⟨headed, first, Bool.eq_false_iff.mpr fun more => last ⟨headed, first, more⟩⟩

theorem takes_whole_iff (p : Bytes) :
    TakesWhole p ↔ ¬ (Headed p ∧ fragmentOffset p = 0 ∧ moreFragments p = true) := by
  classical
  unfold TakesWhole
  simp only [parseIPv4_eq, Except.ok.injEq, exists_eq_left']
  rw [whole_iff]
  by_cases taken : Headed p ∧ fragmentOffset p = 0
  · rw [if_pos taken]
    simp only [Option.isSome_some, true_iff]
    exact and_iff_right taken
  · rw [if_neg taken]
    have fine : ¬ (Headed p ∧ fragmentOffset p = 0 ∧ moreFragments p = true) := fun h => taken ⟨h.1, h.2.1⟩
    simp [taken, fine]

theorem whole_parsed {p : Bytes} (whole : Whole p) : parseIPv4 p = .ok (some (packetOf p)) := by
  classical
  rw [parseIPv4_eq, if_pos ⟨whole.toHeaded, whole.first⟩]

theorem payload_length {p : Bytes} (headed : Headed p) :
    (packetOf p).payload.length = totalLength p - headerLength p := by
  have inside := headed.inside
  simp only [packetOf, List.length_drop, List.length_take]
  omega

theorem recv_carried {l : EthLink} {frame : Bytes} (c : Carries l frame) :
    l.recv frame = .ok (.up (((frame.drop ethHeaderLen).take
      (ipHeaderLen + (packetOf (frame.drop ethHeaderLen)).payload.length)).take frameLen)) := by
  have header : 14 ≤ frame.length := c.header
  have room : frame.length ≤ 2048 := c.room
  have inside : ipHeaderLen + (packetOf (frame.drop ethHeaderLen)).payload.length ≤
      (frame.drop ethHeaderLen).length := by
    have headed := c.whole.toHeaded
    have long := headed.header
    have ordered := headed.ordered
    have fits := headed.inside
    rw [payload_length headed]
    unfold ipHeaderLen
    omega
  have cut : slice frame ethHeaderLen frame.length = .ok (frame.drop ethHeaderLen) := by
    rw [slice_ok c.header le_rfl, List.take_length]
  have parsed := whole_parsed c.whole
  have up := slice_ok (Nat.zero_le _) inside
  unfold EthLink.recv
  rw [if_neg (by omega), if_neg (by unfold ethHeaderLen frameLen; omega)]
  simp only [slice_ok (show 6 ≤ 12 by decide) (show 12 ≤ frame.length by omega),
    index_ok (show 12 < frame.length by omega), index_ok (show 13 < frame.length by omega),
    bind, Except.bind, pure, Except.pure, if_neg c.foreign, c.ipv4, cut]
  rw [show join 0x08 0x00 = 0x0800 by decide]
  simp only [parsed, up, List.drop_zero]

theorem words_take {p : Bytes} {n : Nat} (long : 20 ≤ n) :
    version (p.take n) = version p ∧ headerLength (p.take n) = headerLength p ∧
    totalLength (p.take n) = totalLength p ∧ fragmentOffset (p.take n) = fragmentOffset p ∧
    moreFragments (p.take n) = moreFragments p ∧ at_ (p.take n) 9 = at_ p 9 := by
  have same : ∀ i < 20, at_ (p.take n) i = at_ p i := fun i low => at_take (by omega)
  unfold version headerLength totalLength fragmentOffset moreFragments
  rw [same 0 (by decide), same 2 (by decide), same 3 (by decide), same 6 (by decide), same 7 (by decide),
    same 9 (by decide)]
  exact ⟨rfl, rfl, rfl, rfl, rfl, rfl⟩

theorem whole_take {p : Bytes} {n : Nat} (whole : Whole p) (enough : totalLength p ≤ n) :
    Whole (p.take n) ∧ packetOf (p.take n) = packetOf p := by
  have long := whole.long
  have header := whole.header
  have ordered := whole.ordered
  have inside := whole.inside
  obtain ⟨version, headerLength, totalLength, offset, more, proto⟩ := words_take (p := p) (n := n) (by omega)
  constructor
  · refine ⟨⟨?_, version.trans whole.version, ?_, ?_, ?_⟩, offset.trans whole.first, more.trans whole.last⟩
    · rw [List.length_take]
      omega
    · rw [headerLength]
      exact header
    · rw [headerLength, totalLength]
      exact ordered
    · rw [totalLength, List.length_take]
      omega
  · unfold packetOf
    rw [headerLength, totalLength, proto, List.take_take, List.take_take, List.take_take,
      min_eq_left (show 16 ≤ n by omega), min_eq_left (show 20 ≤ n by omega), min_eq_left enough]

theorem hands_up_iff {l : EthLink} {frame : Bytes} (c : Carries l frame) :
    HandsUp l frame ↔ headerLength (frame.drop ethHeaderLen) = ipHeaderLen := by
  classical
  have room : frame.length ≤ 2048 := c.room
  have up := recv_carried c
  have parsed := whole_parsed c.whole
  have whole := c.whole
  have header := whole.header
  have ordered := whole.ordered
  have inside := whole.inside
  rw [payload_length whole.toHeaded] at up
  have short : (frame.drop ethHeaderLen).length ≤ frameLen := by
    rw [List.length_drop]
    unfold frameLen
    omega
  unfold HandsUp
  generalize frame.drop ethHeaderLen = p at *
  rw [List.take_of_length_le (by rw [List.length_take]; omega)] at up
  constructor
  · rintro ⟨bytes, pkt, handed, first, second⟩
    rw [up] at handed
    cases handed
    by_contra options
    have cut : ¬ (Headed (p.take (ipHeaderLen + (totalLength p - headerLength p))) ∧
        fragmentOffset (p.take (ipHeaderLen + (totalLength p - headerLength p))) = 0) := by
      rintro ⟨headed, -⟩
      have fits := headed.inside
      rw [(words_take (by unfold ipHeaderLen; omega)).2.2.1, List.length_take] at fits
      unfold ipHeaderLen at options fits
      omega
    rw [parseIPv4_eq, if_neg cut] at second
    cases second
  · intro plain
    obtain ⟨again, same⟩ := whole_take whole (n := ipHeaderLen + (totalLength p - headerLength p)) (by omega)
    refine ⟨_, packetOf p, up, parsed, ?_⟩
    rw [whole_parsed again, same]

/-- `parseIPv4` is right about every packet but the first piece of one that was fragmented, and
`recv` about every packet without options. -/
theorem ipv4_intake (l : EthLink) (p frame : Bytes) :
    (TakesWhole p ↔ ¬ (Headed p ∧ fragmentOffset p = 0 ∧ moreFragments p = true)) ∧
    (Carries l frame → (HandsUp l frame ↔ headerLength (frame.drop ethHeaderLen) = ipHeaderLen)) :=
  ⟨takes_whole_iff p, hands_up_iff⟩

/-- The first eight bytes of a fragmented datagram. -/
def firstFragment : Bytes :=
  [0x45, 0, 0, 28, 0, 1, 0x20, 0, 64, 17, 0, 0, 10, 0, 0, 1, 10, 0, 0, 2, 1, 2, 3, 4, 5, 6, 7, 8]

/-- A packet of two bytes with one word of options. -/
def optionsFrame : Bytes :=
  List.replicate 6 0xFF ++ [2, 0, 0, 0, 0, 9] ++ [0x08, 0x00] ++
    [0x46, 0, 0, 26, 0, 1, 0, 0, 64, 17, 0, 0, 10, 0, 0, 1, 10, 0, 0, 2, 1, 1, 1, 0, 7, 7]

theorem fragment_and_options : ¬ TakesWhole firstFragment ∧
    Carries { mac := [2, 0, 0, 0, 0, 1] } optionsFrame ∧
      ¬ HandsUp { mac := [2, 0, 0, 0, 0, 1] } optionsFrame := by
  have carried : Carries { mac := [2, 0, 0, 0, 0, 1] } optionsFrame :=
    ⟨by decide, by decide, by decide, by decide,
      ⟨⟨by decide, by decide, by decide, by decide, by decide⟩, by decide, by decide⟩⟩
  refine ⟨?_, carried, ?_⟩
  · rw [takes_whole_iff, not_not]
    exact ⟨⟨by decide, by decide, by decide, by decide, by decide⟩, by decide, by decide⟩
  · rw [hands_up_iff carried]
    decide

end R2Apps.Ipv4Intake
