import R2Apps.TccStreams

/-! The buffered streams refine the unbuffered file: what each call returns and
the bytes left at the end are the plain file's, as long as no call meets one of
the states in which the buffer and the descriptor disagree. -/
namespace R2Apps.StreamRefinement
open R2Apps.ByteMemory R2Apps.BufferPrefixes R2Apps.ByteFiles R2Apps.ByteFiles.PlainFile R2Apps.TccStreams

section Sizes
variable {file : Bytes} {off lo hi fuel : Nat}

theorem existsAt_iff : existsAt file off = true ↔ off < file.length := by
  rw [existsAt, beq_iff_eq, readAt_length]
  omega

theorem doubling_brackets (inside : lo < file.length) (positive : 0 < hi) (enough : file.length ≤ hi + fuel) :
    (doubling file fuel lo hi).1 < file.length ∧ file.length ≤ (doubling file fuel lo hi).2 := by
  induction fuel generalizing lo hi with
  | zero => exact ⟨inside, enough⟩
  | succ fuel ih =>
    rw [doubling]
    by_cases there : existsAt file hi = true
    · rw [if_pos there]
      exact ih (existsAt_iff.mp there) (by omega) (by omega)
    · rw [if_neg there]
      exact ⟨inside, by have := existsAt_iff.not.mp there; omega⟩

theorem halving_length (inside : lo < file.length) (outside : file.length ≤ hi)
    (enough : hi - lo ≤ fuel + 1) :
    halving file fuel lo hi = file.length := by
  induction fuel generalizing lo hi with
  | zero =>
    rw [halving]
    omega
  | succ fuel ih =>
    rw [halving]
    by_cases wide : 1 < hi - lo
    · rw [if_pos wide]
      by_cases there : existsAt file (lo + (hi - lo) / 2) = true
      · simp only [there, if_true]
        exact ih (existsAt_iff.mp there) outside (by omega)
      · simp only [there]
        exact ih inside (by have := existsAt_iff.not.mp there; omega) (by omega)
    · rw [if_neg wide]
      omega

theorem probedSize_length (file : Bytes) : probedSize file = file.length := by
  rw [probedSize]
  by_cases there : existsAt file 0 = true
  · have inside := existsAt_iff.mp there
    obtain ⟨low, high⟩ := doubling_brackets inside Nat.one_pos
      (show file.length ≤ 1 + file.length by omega)
    rw [if_pos there]
    exact halving_length low high (by omega)
  · rw [if_neg there]
    have := existsAt_iff.not.mp there
    omega

end Sizes

def pending (s : State) : Bytes := bytesAt s.f.buf 0 s.f.len

/-- Where the next write of the descriptor goes. -/
def start (s : State) : Nat := if s.fd.append then s.file.length else s.fd.off

/-- The unbuffered file a stream stands for. -/
def plain (s : State) : PlainFile where
  bytes := if s.f.writing then writeAt s.file (start s) (pending s) else s.file
  place :=
    if s.f.writing then start s + s.f.len
    else if s.f.reading then s.fd.off - (s.f.len - s.f.pos)
    else s.fd.off
  pushed := s.f.ungot
  append := s.fd.append

def SizeKnown (size : Option Nat) (file : Bytes) : Prop := ∀ n, size = some n → n = file.length

structure Sound (s : State) : Prop where
  apart : s.f.writing = true → s.f.reading = false
  fits : s.f.len ≤ bufsiz
  filled : s.f.writing = true → 0 < s.f.len
  bounds : s.f.reading = true → s.f.pos ≤ s.f.len ∧ s.f.len ≤ s.fd.off
  mirror : s.f.reading = true → pending s = readAt s.file (s.fd.off - s.f.len) s.f.len
  size : SizeKnown s.fd.size s.file

/-- Between two calls a byte of the buffer has been read. -/
def Consumed (s : State) : Prop := s.f.reading = true → 0 < s.f.pos

theorem Sound.quiet {s : State} (sound : Sound s) (reading : s.f.reading = true) : s.f.writing = false := by
  by_contra writing
  rw [Bool.not_eq_false] at writing
  rw [sound.apart writing] at reading
  cases reading

/-- A byte was pushed back and there is no read-ahead to put it before. -/
def Stranded (s : State) : Prop := s.f.ungot.isSome = true ∧ s.f.reading = false

/-- `settle` without its case distinction. -/
def settledAs (s : State) (p : PlainFile) (size : Option Nat) : State where
  file := p.bytes
  fd := { append := s.fd.append, off := p.place, size := size }
  f := { s.f with reading := false, writing := false, pos := 0, len := 0, ungot := none }

section Descriptors
variable {s : State}

theorem fileSize_length (known : SizeKnown s.fd.size s.file) :
    fileSize s = ({ s with fd := { s.fd with size := some s.file.length } }, s.file.length) := by
  obtain ⟨file, ⟨append, off, size⟩, f⟩ := s
  cases size with
  | none => simp only [fileSize, probedSize_length]
  | some n =>
    have found : n = file.length := known n rfl
    subst found
    rfl

theorem grown_known (known : SizeKnown s.fd.size s.file) (at_ : Nat) (data : Bytes) :
    SizeKnown (grown s.fd.size (at_ + data.length)) (writeAt s.file at_ data) := by
  intro n found
  cases size : s.fd.size with
  | none => simp [grown, size] at found
  | some m =>
    obtain rfl := known m size
    rw [writeAt_length]
    simp only [grown, size, Option.map_some, Option.some.injEq] at found
    split at found <;> omega

theorem fdWrite_spec (known : SizeKnown s.fd.size s.file) (data : Bytes) :
    ∃ size, SizeKnown size (writeAt s.file (start s) data) ∧
      fdWrite s data = { s with
        file := writeAt s.file (start s) data
        fd := { append := s.fd.append, off := start s + data.length, size := size } } := by
  cases append : s.fd.append with
  | true =>
    refine ⟨grown (some s.file.length) (s.file.length + data.length), ?_, ?_⟩
    · have grows := grown_known (s := { s with fd := { s.fd with size := some s.file.length } })
        (fun n found => (Option.some_injective _ found).symm) s.file.length data
      simpa [start, append] using grows
    · simp [fdWrite, append, fileSize_length known, start]
  | false =>
    refine ⟨grown s.fd.size (s.fd.off + data.length), ?_, ?_⟩
    · simpa [start, append] using grown_known known s.fd.off data
    · simp [fdWrite, append, start]

end Descriptors

section Settling
variable {s : State}

theorem settledAs_plain (p : PlainFile) (size : Option Nat) (same : p.append = s.fd.append)
    (nothing : p.pushed = none) : plain (settledAs s p size) = p := by
  obtain ⟨bytes, place, pushed, append⟩ := p
  obtain rfl : pushed = none := nothing
  obtain rfl : append = s.fd.append := same
  rfl

theorem settledAs_sound (p : PlainFile) (size : Option Nat) (known : SizeKnown size p.bytes) :
    Sound (settledAs s p size) where
  apart := fun _ => rfl
  fits := Nat.zero_le _
  filled := fun writing => by cases writing
  bounds := fun reading => by cases reading
  mirror := fun reading => by cases reading
  size := known

/-- Where settling leaves the descriptor: at the position, unless the pushed-back
byte is stranded. -/
def leftAt (s : State) : Nat := if s.f.reading then (plain s).place - (plain s).back else (plain s).place

theorem settle_spec (sound : Sound s) (consumed : Consumed s) :
    ∃ size, SizeKnown size (plain s).bytes ∧
      settle s = settledAs s { (plain s).forget with place := leftAt s } size := by
  obtain ⟨apart, fits, filled, bounds, mirror, known⟩ := sound
  cases writing : s.f.writing with
  | true =>
    have unread := apart writing
    have some_pending : pending s ≠ [] := by
      intro empty
      have length := congrArg List.length empty
      have := filled writing
      simp only [pending, bytesAt_length, List.length_nil] at length
      omega
    obtain ⟨size, grown, written⟩ := fdWrite_spec known (pending s)
    refine ⟨size, by simpa [plain, writing] using grown, ?_⟩
    have all_written : writeAll s (bytesAt s.f.buf 0 s.f.len) = _ := (if_neg some_pending).trans written
    simp only [settle, writing, if_true, all_written]
    simp [settledAs, leftAt, unread, plain, forget, writing, pending]
  | false =>
    refine ⟨s.fd.size, by simpa [plain, writing] using known, ?_⟩
    cases reading : s.f.reading with
    | true =>
      obtain ⟨inside, reach⟩ := bounds reading
      have positive := consumed reading
      have one_back : s.f.ungot.toList.length ≤ 1 := by
        cases s.f.ungot <;> simp
      by_cases nothing : s.f.len - s.f.pos + s.f.ungot.toList.length = 0
      · have full : s.f.len - s.f.pos = 0 := by omega
        have unpushed : s.f.ungot.toList.length = 0 := by omega
        simp [settle, writing, reading, giveBack, settledAs, leftAt, plain, forget, back, full, unpushed]
      · have target : ¬((s.fd.off : Int) + -((s.f.len - s.f.pos + s.f.ungot.toList.length : Nat) : Int) <
            0) := by
          omega
        have same : ((s.fd.off : Int) + -((s.f.len - s.f.pos + s.f.ungot.toList.length : Nat) : Int)).toNat =
            s.fd.off - (s.f.len - s.f.pos) - s.f.ungot.toList.length := by
          omega
        simp only [settle, writing, reading, giveBack, nothing, lseek, target, same, if_true, if_false,
          Bool.false_eq_true]
        simp [settledAs, leftAt, plain, forget, back, writing, reading]
    | false => simp [settle, writing, reading, settledAs, leftAt, plain, forget]

/-- The stream stands for `p`. -/
structure Simulates (s : State) (p : PlainFile) : Prop where
  sound : Sound s
  consumed : Consumed s
  stands : plain s = p

variable {p : PlainFile}

theorem leftAt_forget (free : ¬Stranded s) : leftAt s = (plain s).forget.place := by
  rw [leftAt, forget]
  split
  · rfl
  · rename_i unread
    have unpushed : s.f.ungot = none := by
      by_contra pushed
      exact free ⟨Option.isSome_iff_ne_none.mpr pushed, Bool.not_eq_true _ ▸ unread⟩
    simp [back, plain, unpushed]

theorem settle_simulates (simulates : Simulates s p) (free : ¬Stranded s) :
    Simulates (settle s) p.forget ∧ (settle s).f.len = 0 ∧ (settle s).f.writing = false ∧
      (settle s).f.reading = false ∧ (settle s).f.ungot = none ∧
      (settle s).f.allocated = s.f.allocated ∧ (settle s).fd.off = p.forget.place ∧
      (settle s).file = p.bytes := by
  obtain ⟨sound, consumed, rfl⟩ := simulates
  obtain ⟨size, known, settled⟩ := settle_spec sound consumed
  rw [leftAt_forget free] at settled
  rw [settled]
  refine ⟨⟨settledAs_sound _ _ known, ?_, settledAs_plain _ _ rfl rfl⟩, rfl, rfl, rfl, rfl, rfl, rfl, rfl⟩
  intro reading
  cases reading

/-- Nothing of the buffer is unread. -/
def Drained (s : State) : Prop := s.f.reading = true → s.f.pos = s.f.len

theorem settleIf_writing (sound : Sound s) (stands : plain s = p) (unpushed : s.f.ungot = none)
    (drained : Drained s) :
    let t := settleIf s.f.writing s
    Sound t ∧ t.f.writing = false ∧ t.f.ungot = none ∧ t.f.allocated = s.f.allocated ∧
      p = ⟨t.file, t.fd.off, none, t.fd.append⟩ ∧ (s.f.reading = false → t.f.reading = false) := by
  have free : ¬Stranded s := fun stranded => by simp [Stranded, unpushed] at stranded
  cases writing : s.f.writing with
  | true =>
    have consumed : Consumed s := fun reading =>
      absurd ((sound.apart writing).symm.trans reading) Bool.false_ne_true
    obtain ⟨settled, -, quiet, unread, none_pushed, allocated, -⟩ :=
      settle_simulates ⟨sound, consumed, stands⟩ free
    refine ⟨settled.sound, quiet, none_pushed, allocated, ?_, fun _ => unread⟩
    have same : p.forget = p := by
      rw [← stands]
      simp [forget, back, plain, unpushed]
    rw [← same]
    simp [settleIf, ← settled.stands, plain, quiet, unread, none_pushed]
  | false =>
    refine ⟨sound, writing, unpushed, rfl, ?_, id⟩
    rw [← stands]
    cases reading : s.f.reading with
    | true => simp [settleIf, plain, writing, reading, unpushed, drained reading]
    | false => simp [settleIf, plain, writing, reading, unpushed]

end Settling

section Reading
variable {s : State} {p : PlainFile} {memory : Bool}

/-- The stream has its buffer, or `malloc` gives it one. -/
def Ready (s : State) (memory : Bool) : Prop := s.f.allocated = true ∨ memory = true

theorem getBuf_ready (ready : Ready s memory) :
    getBuf s memory = ({ s with f := { s.f with allocated := true } }, true) := by
  cases allocated : s.f.allocated with
  | true =>
    have same : s = { s with f := { s.f with allocated := true } } := by
      rw [← allocated]
    rw [getBuf, if_pos allocated]
    exact congrArg (·, true) same
  | false =>
    have given : memory = true := ready.resolve_left (by simp [allocated])
    simp [getBuf, allocated, given]

theorem refill_spec (sound : Sound s) (stands : plain s = p) (unpushed : s.f.ungot = none)
    (drained : Drained s) (ready : Ready s memory) :
    let r := refill s memory
    Sound r.1 ∧ plain r.1 = p ∧ r.1.f.ungot = none ∧ r.1.f.allocated = true ∧
      (r.2 = false → r.1.f.reading = false ∧ p.bytes.length ≤ p.place) ∧
      (r.2 = true → r.1.f.reading = true ∧ r.1.f.pos = 0 ∧ 0 < r.1.f.len) := by
  obtain ⟨sound, quiet, none_pushed, allocated, stands, -⟩ := settleIf_writing sound stands unpushed drained
  have still : Ready (settleIf s.f.writing s) memory := by rwa [Ready, allocated]
  simp only [refill, getBuf_ready still, fdRead]
  generalize settleIf s.f.writing s = t at *
  subst stands
  have length := readAt_length t.file t.fd.off bufsiz
  cases data : readAt t.file t.fd.off bufsiz with
  | nil =>
    rw [data] at length
    have past : t.file.length ≤ t.fd.off := by
      simp only [List.length_nil, bufsiz] at length
      omega
    refine ⟨⟨fun _ => rfl, Nat.zero_le _, ?_, ?_, ?_, sound.size⟩, ?_, none_pushed, rfl, fun _ =>
      ⟨rfl, past⟩, ?_⟩
    · intro writing
      rw [quiet] at writing
      cases writing
    · intro reading
      cases reading
    · intro reading
      cases reading
    · simp [plain, quiet, none_pushed]
    · intro more
      cases more
  | cons b rest =>
    rw [data] at length
    refine ⟨⟨?_, ?_, ?_, ?_, ?_, sound.size⟩, ?_, none_pushed, rfl, ?_, ?_⟩
    · intro writing
      rw [quiet] at writing
      cases writing
    · simp only
      omega
    · intro writing
      rw [quiet] at writing
      cases writing
    · intro _
      exact ⟨Nat.zero_le _, Nat.le_add_left _ _⟩
    · intro _
      have stored := bytesAt_put_end t.f.buf (b :: rest) 0
      have again := readAt_self t.file t.fd.off bufsiz
      rw [data] at again
      simp only [Nat.zero_add] at stored
      simp only [pending, stored, Nat.add_sub_cancel, again]
      rfl
    · simp [plain, quiet, none_pushed]
    · intro failed
      cases failed
    · intro _
      exact ⟨rfl, rfl, Nat.succ_pos _⟩

theorem buffered (sound : Sound s) (reading : s.f.reading = true) {k : Nat}
    (inside : s.f.pos + k ≤ s.f.len) :
    bytesAt s.f.buf s.f.pos k = readAt (plain s).bytes (plain s).place k := by
  have quiet := sound.quiet reading
  obtain ⟨apart, -, -, bounds, mirror, -⟩ := sound
  obtain ⟨-, reach⟩ := bounds reading
  have copy := mirror reading
  have length := congrArg List.length copy
  simp only [pending, bytesAt_length, readAt_length] at length
  have rest : bytesAt s.f.buf s.f.pos (s.f.len - s.f.pos) =
      readAt s.file (s.fd.off - s.f.len + s.f.pos) (s.f.len - s.f.pos) := by
    rw [← bytesAt_drop, ← pending, copy, ← Nat.add_sub_cancel' (by omega : s.f.pos ≤ s.f.len)]
    rw [Nat.add_sub_cancel_left]
    apply readAt_inside
    omega
  have place : s.fd.off - s.f.len + s.f.pos = s.fd.off - (s.f.len - s.f.pos) := by omega
  have shorter := congrArg (List.take k) rest
  rw [bytesAt_take _ _ (by omega), readAt, List.take_take, Nat.min_eq_left (by omega), place] at shorter
  simpa [plain, quiet, reading, readAt] using shorter

theorem take_spec (sound : Sound s) (reading : s.f.reading = true) {k : Nat}
    (inside : s.f.pos + k ≤ s.f.len) :
    let t := { s with f := { s.f with pos := s.f.pos + k } }
    Sound t ∧ plain t = { plain s with place := (plain s).place + k } := by
  have quiet := sound.quiet reading
  obtain ⟨apart, fits, filled, bounds, mirror, known⟩ := sound
  obtain ⟨-, reach⟩ := bounds reading
  constructor
  · exact ⟨apart, fits, filled, fun _ => ⟨inside, reach⟩, mirror, known⟩
  · simp only [plain, quiet, reading]
    simp only [Bool.false_eq_true, if_false, if_true, PlainFile.mk.injEq, true_and, and_true]
    omega

theorem nextByte_spec (sound : Sound s) (stands : plain s = p) (reading : s.f.reading = true)
    (unpushed : s.f.ungot = none) (more : s.f.pos < s.f.len) :
    Simulates (nextByte s).1 (p.read 1).1 ∧ (nextByte s).2 = (p.read 1).2.head? := by
  subst stands
  have byte := buffered sound reading (k := 1) more
  have one : bytesAt s.f.buf s.f.pos 1 = [s.f.buf s.f.pos] := by simp [bytesAt]
  obtain ⟨taken, place⟩ := take_spec sound reading (k := 1) more
  rw [read_unpushed _ unpushed, ← byte, one]
  exact ⟨⟨taken, fun _ => Nat.succ_pos _, place⟩, rfl⟩

theorem fgetc_spec (simulates : Simulates s p) (ready : Ready s memory) :
    let r := fgetc s memory
    Simulates r.1 (p.read 1).1 ∧ r.2 = (p.read 1).2.head? ∧ Ready r.1 memory := by
  obtain ⟨sound, consumed, stands⟩ := simulates
  simp only [fgetc]
  cases ungot : s.f.ungot with
  | some c =>
    have pushed : p.pushed = some c := by rw [← stands, ← ungot, plain]
    rw [read_pushed p pushed 0, ← stands]
    obtain ⟨apart, fits, filled, bounds, mirror, known⟩ := sound
    refine ⟨⟨⟨apart, fits, filled, bounds, mirror, known⟩, consumed, ?_⟩, rfl, ready⟩
    simp [plain, readAt, start, pending]
  | none =>
    have unpushed : p.pushed = none := by rw [← stands, ← ungot, plain]
    by_cases empty : (!s.f.reading || s.f.pos == s.f.len) = true
    · have drained : Drained s := by
        intro reading
        simpa [reading] using empty
      obtain ⟨refilled, same, none_pushed, allocated, ended, more⟩ :=
        refill_spec sound stands ungot drained ready
      simp only [empty, if_true]
      cases got : (refill s memory).2 with
      | false =>
        obtain ⟨unread, past⟩ := ended got
        have result : refill s memory = ((refill s memory).1, false) := by rw [← got]
        rw [result, read_unpushed p unpushed, readAt_end _ _ past]
        exact ⟨⟨refilled, fun reading => absurd (unread.symm.trans reading) Bool.false_ne_true, same⟩, rfl,
          .inl allocated⟩
      | true =>
        obtain ⟨reading, first, filled⟩ := more got
        have result : refill s memory = ((refill s memory).1, true) := by rw [← got]
        rw [result]
        obtain ⟨next, byte⟩ := nextByte_spec refilled same reading none_pushed (by omega)
        exact ⟨next, byte, .inl allocated⟩
    · have reading : s.f.reading = true := by
        by_contra unread
        simp [Bool.not_eq_true _ ▸ unread] at empty
      have inside : s.f.pos < s.f.len := by
        have bound := (sound.bounds reading).1
        simp [reading] at empty
        omega
      obtain ⟨next, byte⟩ := nextByte_spec sound stands reading ungot inside
      simp only [empty]
      exact ⟨next, byte, ready⟩

theorem fgets_spec (n : Nat) (simulates : Simulates s p) (ready : Ready s memory) :
    let r := fgets memory n s
    Simulates r.1 (readLine n p).1 ∧ r.2 = (readLine n p).2 := by
  induction n generalizing s p with
  | zero => exact ⟨simulates, rfl⟩
  | succ n ih =>
    obtain ⟨next, byte, still⟩ := fgetc_spec simulates ready
    simp only [fgets, readLine]
    generalize fgetc s memory = r at *
    generalize p.read 1 = a at *
    obtain ⟨t, c⟩ := r
    obtain ⟨q, data⟩ := a
    cases data with
    | nil =>
      obtain rfl : c = none := byte
      exact ⟨next, rfl⟩
    | cons b rest =>
      obtain rfl : c = some b := byte
      by_cases newline : b = 10
      · simp only [newline, if_true]
        exact ⟨next, trivial⟩
      · simp only [newline, if_false]
        obtain ⟨later, bytes⟩ := ih next still
        exact ⟨later, by rw [bytes]⟩

theorem bigRead_spec (sound : Sound s) (stands : plain s = p) (unpushed : s.f.ungot = none)
    (drained : Drained s) (n : Nat) :
    let r := bigRead s n
    Sound r.1 ∧ plain r.1 = { p with place := p.place + r.2.length } ∧ r.2 = readAt p.bytes p.place n ∧
      r.1.f.reading = false ∧ r.1.f.ungot = none ∧ r.1.f.allocated = s.f.allocated := by
  obtain ⟨sound, quiet, none_pushed, allocated, stands, -⟩ := settleIf_writing sound stands unpushed drained
  simp only [bigRead, fdRead]
  generalize settleIf s.f.writing s = t at *
  subst stands
  have unwritten : ∀ {P : Prop}, t.f.writing = true → P := fun writing =>
    absurd (quiet.symm.trans writing) Bool.false_ne_true
  cases data : readAt t.file t.fd.off n with
  | nil =>
    refine ⟨⟨fun _ => rfl, sound.fits, unwritten, ?_, ?_, sound.size⟩, ?_, rfl, rfl, none_pushed, allocated⟩
    · intro reading
      cases reading
    · intro reading
      cases reading
    · simp [plain, quiet, none_pushed]
  | cons b rest =>
    refine ⟨⟨fun _ => rfl, sound.fits, unwritten, ?_, ?_, sound.size⟩, ?_, rfl, rfl, none_pushed, allocated⟩
    · intro reading
      cases reading
    · intro reading
      cases reading
    · simp [plain, quiet, none_pushed]

theorem read_nothing (sound : Sound s) (consumed : Consumed s) :
    Simulates s ((plain s).read 0).1 ∧ ((plain s).read 0).2 = [] :=
  ⟨⟨sound, consumed, rfl⟩, rfl⟩

theorem read_rest {t : State} {d got : Bytes} {total : Nat} {r : State × Bytes} (unpushed : s.f.ungot = none)
    (first : d = readAt (plain s).bytes (plain s).place d.length) (within : got.length + d.length ≤ total)
    (after : plain t = { plain s with place := (plain s).place + d.length })
    (later : Simulates r.1 ((plain t).read (total - (got ++ d).length)).1 ∧
      r.2 = got ++ d ++ ((plain t).read (total - (got ++ d).length)).2) :
    Simulates r.1 ((plain s).read (total - got.length)).1 ∧
      r.2 = got ++ ((plain s).read (total - got.length)).2 := by
  obtain ⟨n, left⟩ : ∃ n, total - (got ++ d).length = n := ⟨_, rfl⟩
  have whole : total - got.length = d.length + n := by
    rw [List.length_append] at left
    omega
  have two := readAt_add (plain s).bytes (plain s).place d.length n
  rw [← first] at two
  rw [left, after, read_unpushed { plain s with place := (plain s).place + d.length } unpushed] at later
  rw [whole, read_unpushed (plain s) unpushed, two]
  simpa [Nat.add_assoc] using later

/-- Rounds still needed: two for each byte wanted, and one to refill. -/
def rounds (s : State) (left : Nat) : Nat := 2 * left + if s.f.reading && s.f.pos < s.f.len then 0 else 1

/-- The reading of `total` bytes that holds `got` ends in `r`. -/
def Reads (total : Nat) (s : State) (got : Bytes) (r : State × Bytes) : Prop :=
  Simulates r.1 ((plain s).read (total - got.length)).1 ∧
    r.2 = got ++ ((plain s).read (total - got.length)).2

/-- `freadLoop` reads what is asked of it in `fuel` rounds. -/
def LoopReads (total fuel : Nat) (memory : Bool) : Prop :=
  ∀ (s : State) (got : Bytes), Sound s → s.f.ungot = none → got.length < total ∨ Consumed s →
    Ready s memory → got.length ≤ total → rounds s (total - got.length) ≤ fuel →
    Reads total s got (freadLoop total memory fuel s got)

theorem reads_all {total : Nat} {got : Bytes} (sound : Sound s)
    (consumed : got.length < total ∨ Consumed s) (all : total ≤ got.length) :
    Reads total s got (s, got) := by
  have none_left : total - got.length = 0 := by omega
  obtain ⟨same, empty⟩ := read_nothing sound (consumed.resolve_left (by omega))
  rw [Reads, none_left, empty, List.append_nil]
  exact ⟨same, rfl⟩

section Rounds

variable {total fuel : Nat} {got : Bytes}

theorem round_buffered (ih : LoopReads total fuel memory) (sound : Sound s) (unpushed : s.f.ungot = none)
    (ready : Ready s memory) (more : got.length < total) (reading : s.f.reading = true)
    (before : s.f.pos < s.f.len) (enough : rounds s (total - got.length) ≤ fuel + 1) :
    let k := min (s.f.len - s.f.pos) (total - got.length)
    Reads total s got (freadLoop total memory fuel { s with f := { s.f with pos := s.f.pos + k } }
      (got ++ bytesAt s.f.buf s.f.pos k)) := by
  obtain ⟨k, amount⟩ : ∃ k, min (s.f.len - s.f.pos) (total - got.length) = k := ⟨_, rfl⟩
  simp only [amount]
  obtain ⟨taken, place⟩ := take_spec sound reading (show s.f.pos + k ≤ s.f.len by omega)
  have bytes := buffered sound reading (show s.f.pos + k ≤ s.f.len by omega)
  have length : (bytesAt s.f.buf s.f.pos k).length = k := bytesAt_length _ _ _
  have less : rounds { s with f := { s.f with pos := s.f.pos + k } } (total - (got.length + k)) ≤ fuel := by
    rw [rounds, reading, decide_eq_true before] at enough
    simp only [Bool.and_self, if_true] at enough
    unfold rounds
    split <;> omega
  apply read_rest unpushed (d := bytesAt s.f.buf s.f.pos k)
  · rw [length]
    exact bytes
  · omega
  · rw [length]
    exact place
  · apply ih _ _ taken unpushed (.inr fun _ => ?_) ready
    · rw [List.length_append]
      omega
    · rw [List.length_append, length]
      exact less
    · show 0 < s.f.pos + k
      omega

theorem round_direct (ih : LoopReads total fuel memory) (sound : Sound s) (unpushed : s.f.ungot = none)
    (ready : Ready s memory) (drained : Drained s) (more : got.length < total)
    (enough : 2 * (total - got.length) ≤ fuel) :
    Reads total s got (match bigRead s (total - got.length) with
      | (s, []) => (s, got)
      | (s, data) => freadLoop total memory fuel s (got ++ data)) := by
  obtain ⟨read, place, data, unread, none_pushed, allocated⟩ :=
    bigRead_spec sound rfl unpushed drained (total - got.length)
  have short : (bigRead s (total - got.length)).2.length ≤ total - got.length := by
    rw [data, readAt_length]
    omega
  have first : (bigRead s (total - got.length)).2 =
      readAt (plain s).bytes (plain s).place (bigRead s (total - got.length)).2.length := by
    rw [data, readAt_self]
  have still : Ready (bigRead s (total - got.length)).1 memory := by rwa [Ready, allocated]
  generalize bigRead s (total - got.length) = r at *
  obtain ⟨t, d⟩ := r
  cases d with
  | nil =>
    rw [Reads, read_unpushed (plain s) unpushed, ← data, List.append_nil]
    exact ⟨⟨read, fun reading => absurd (unread.symm.trans reading) Bool.false_ne_true, place⟩, rfl⟩
  | cons b rest =>
    have fits : (b :: rest).length ≤ total - got.length := short
    apply read_rest unpushed first (by simp only; omega) place
    apply ih _ _ read none_pushed (.inr fun reading => ?_) still
    · rw [List.length_append]
      omega
    · have quiet : (t.f.reading && decide (t.f.pos < t.f.len)) = false := by rw [unread]; rfl
      have positive : 0 < (b :: rest).length := Nat.succ_pos _
      rw [rounds, quiet, List.length_append]
      simp only [Bool.false_eq_true, if_false]
      omega
    · exact absurd (unread.symm.trans reading) Bool.false_ne_true

theorem round_refilled (ih : LoopReads total fuel memory) (sound : Sound s) (unpushed : s.f.ungot = none)
    (ready : Ready s memory) (drained : Drained s) (more : got.length < total)
    (enough : 2 * (total - got.length) ≤ fuel) :
    Reads total s got (match refill s memory with
      | (s, false) => (s, got)
      | (s, true) => freadLoop total memory fuel s got) := by
  obtain ⟨refilled, same, none_pushed, allocated, ended, some_more⟩ :=
    refill_spec sound rfl unpushed drained ready
  generalize refill s memory = r at *
  obtain ⟨t, ok⟩ := r
  cases ok with
  | false =>
    obtain ⟨unread, past⟩ := ended rfl
    rw [Reads, read_unpushed (plain s) unpushed, readAt_end _ _ past, List.append_nil]
    exact ⟨⟨refilled, fun reading => absurd (unread.symm.trans reading) Bool.false_ne_true, same⟩, rfl⟩
  | true =>
    obtain ⟨reading, first, filled⟩ := some_more rfl
    have ready_bytes : (t.f.reading && decide (t.f.pos < t.f.len)) = true := by
      rw [reading, first]
      simpa using filled
    have later := ih t got refilled none_pushed (.inl more) (.inl allocated) (Nat.le_of_lt more) (by
      rw [rounds, ready_bytes, if_pos rfl]
      exact enough)
    rw [Reads, same] at later
    exact later

end Rounds

theorem freadLoop_spec (total fuel : Nat) : LoopReads total fuel memory := by
  induction fuel with
  | zero =>
    intro s got sound unpushed consumed ready wanted enough
    have all : total - got.length = 0 := by
      unfold rounds at enough
      omega
    exact reads_all sound consumed (by omega)
  | succ fuel ih =>
    intro s got sound unpushed consumed ready wanted enough
    rw [freadLoop]
    by_cases more : got.length < total
    · rw [if_pos more]
      by_cases inside : (s.f.reading && decide (s.f.pos < s.f.len)) = true
      · obtain ⟨reading, before⟩ : s.f.reading = true ∧ s.f.pos < s.f.len := by simpa using inside
        simp only [inside, if_true]
        exact round_buffered ih sound unpushed ready more reading before enough
      · have drained : Drained s := by
          intro reading
          have bound := (sound.bounds reading).1
          simp [reading] at inside
          omega
        rw [rounds, if_neg inside] at enough
        rw [if_neg inside]
        by_cases big : bufsiz ≤ total - got.length
        · rw [if_pos big]
          exact round_direct ih sound unpushed ready drained more (by omega)
        · rw [if_neg big]
          exact round_refilled ih sound unpushed ready drained more (by omega)
    · rw [if_neg more]
      exact reads_all sound consumed (by omega)

theorem fread_spec (size n : Nat) (simulates : Simulates s p) (ready : Ready s memory) :
    let r := fread s size n memory
    Simulates r.1 (p.read (size * n)).1 ∧ r.2 = (p.read (size * n)).2 := by
  obtain ⟨sound, consumed, rfl⟩ := simulates
  rw [fread]
  by_cases nothing : size * n = 0
  · rw [if_pos nothing, nothing]
    exact ⟨⟨sound, consumed, rfl⟩, rfl⟩
  · rw [if_neg nothing]
    obtain ⟨apart, fits, filled, bounds, mirror, known⟩ := sound
    have taken : Sound { s with f := { s.f with ungot := none } } :=
      ⟨apart, fits, filled, bounds, mirror, known⟩
    have stands : plain { s with f := { s.f with ungot := none } } = { plain s with pushed := none } := rfl
    obtain ⟨k, total⟩ : ∃ k, size * n = k + 1 := ⟨size * n - 1, by omega⟩
    have enough : ∀ left ≤ size * n,
        rounds { s with f := { s.f with ungot := none } } left ≤ 2 * (size * n) + 1 := by
      intro left within
      unfold rounds
      split <;> omega
    have loop := freadLoop_spec (size * n)
      (2 * (size * n) + 1) _ s.f.ungot.toList taken rfl (.inr consumed) ready
      (by cases s.f.ungot <;> simp; omega) (enough _ (Nat.sub_le _ _))
    rw [Reads, stands, read_unpushed { plain s with pushed := none } rfl] at loop
    cases ungot : s.f.ungot with
    | none =>
      have pushed : (plain s).pushed = none := ungot
      rw [ungot] at loop
      rw [read_unpushed (plain s) pushed, pushed]
      exact loop
    | some c =>
      rw [ungot, total] at loop
      rw [total, read_pushed (plain s) ungot]
      simpa using loop

end Reading

section Writing
variable {s : State} {p : PlainFile} {memory : Bool}

/-- What an earlier big read leaves behind: a length of a buffer nobody reads. -/
def Stale (s : State) : Prop := s.f.reading = false ∧ s.f.writing = false ∧ s.f.len ≠ 0

theorem forget_write (data : Bytes) : p.forget.write data = p.write data := by
  simp [write, forget, back]

theorem hold_spec (sound : Sound s) (stands : plain s = p) (unread : s.f.reading = false)
    (unpushed : s.f.ungot = none) (data : Bytes) (fits : s.f.len + data.length ≤ bufsiz)
    (ready : s.f.writing = true ∨ s.f.len = 0 ∧ data ≠ []) :
    Simulates (hold s data) (p.write data) := by
  subst stands
  have stored : pending (hold s data) = pending s ++ data := bytesAt_put_end _ _ _
  have nothing_pushed : (plain s).back = 0 := by simp [back, plain, unpushed]
  refine ⟨⟨fun _ => unread, fits, ?_, ?_, ?_, sound.size⟩, ?_, ?_⟩
  · intro _
    rcases ready with writing | ⟨-, some_data⟩
    · exact Nat.lt_of_lt_of_le (sound.filled writing) (Nat.le_add_right _ _)
    · exact Nat.lt_of_lt_of_le (List.length_pos_of_ne_nil some_data) (Nat.le_add_left _ _)
  · intro reading
    exact absurd (unread.symm.trans reading) Bool.false_ne_true
  · intro reading
    exact absurd (unread.symm.trans reading) Bool.false_ne_true
  · intro reading
    exact absurd (unread.symm.trans reading) Bool.false_ne_true
  · have written : plain (hold s data) = ⟨writeAt s.file (start s) (pending s ++ data),
        start s + (s.f.len + data.length), none, s.fd.append⟩ := by
      rw [← stored, ← unpushed]
      rfl
    rw [written]
    rcases ready with writing | ⟨empty, some_data⟩
    · have length : (pending s).length = s.f.len := bytesAt_length _ _ _
      have twice := writeAt_writeAt s.file (start s) (pending s) data
      rw [length] at twice
      cases append : s.fd.append with
      | true =>
        have at_end : (writeAt s.file (start s) (pending s)).length = start s + s.f.len := by
          rw [writeAt_length, length, start, append, if_pos rfl]
          omega
        simp [write, plain, writing, append, at_end, twice, Nat.add_assoc]
      | false => simp [write, plain, writing, append, back, unpushed, twice, Nat.add_assoc]
    · have quiet : s.f.writing = false := by
        by_contra writing
        rw [Bool.not_eq_false] at writing
        exact absurd empty (Nat.ne_of_gt (sound.filled writing))
      have no_bytes : pending s = [] := by simp [pending, empty, bytesAt]
      cases append : s.fd.append with
      | true => simp [write, plain, quiet, unread, append, start, no_bytes, empty]
      | false => simp [write, plain, quiet, unread, append, start, no_bytes, empty, back, unpushed]

theorem fill_spec (sound : Sound s) (stands : plain s = p) (writing : s.f.writing = true)
    (unpushed : s.f.ungot = none) {data : Bytes} (long : bufsiz - s.f.len < data.length) :
    let t := fill s data
    Simulates t (p.write (data.take (bufsiz - s.f.len))) ∧ t.f.len = 0 ∧ t.f.reading = false ∧
      t.f.ungot = none := by
  have unread := sound.apart writing
  have full : s.f.len + (data.take (bufsiz - s.f.len)).length = bufsiz := by
    have := sound.fits
    rw [List.length_take]
    omega
  have held := hold_spec sound stands unread unpushed (data.take (bufsiz - s.f.len))
    (Nat.le_of_eq full) (.inl writing)
  have same : fill s data = settle (hold s (data.take (bufsiz - s.f.len))) := by
    rw [fill, hold, full]
  have free : ¬Stranded (hold s (data.take (bufsiz - s.f.len))) := fun stranded => by
    simp [Stranded, hold, unpushed] at stranded
  obtain ⟨settled, empty, -, quiet, none_pushed, -⟩ := settle_simulates held free
  have kept : (p.write (data.take (bufsiz - s.f.len))).forget = p.write (data.take (bufsiz - s.f.len)) := by
    simp [forget, write, back]
  rw [same]
  rw [kept] at settled
  exact ⟨settled, empty, quiet, none_pushed⟩

theorem direct_spec (sound : Sound s) (stands : plain s = p) (unread : s.f.reading = false)
    (unpushed : s.f.ungot = none) {data : Bytes} (some_data : data ≠ []) :
    Simulates (writeAll (settleIf s.f.writing s) data) (p.write data) := by
  have drained : Drained s := fun reading => absurd (unread.symm.trans reading) Bool.false_ne_true
  obtain ⟨settled, quiet, none_pushed, -, same, still⟩ := settleIf_writing sound stands unpushed drained
  have unread := still unread
  rw [writeAll, if_neg some_data]
  generalize settleIf s.f.writing s = t at *
  obtain ⟨size, known, written⟩ := fdWrite_spec settled.size data
  have unwritten : ∀ {P : Prop}, t.f.writing = true → P := fun writing =>
    absurd (quiet.symm.trans writing) Bool.false_ne_true
  have unbuffered : ∀ {P : Prop}, t.f.reading = true → P := fun reading =>
    absurd (unread.symm.trans reading) Bool.false_ne_true
  rw [written, same]
  refine ⟨⟨unwritten, settled.fits, unwritten, unbuffered, unbuffered, known⟩, unbuffered, ?_⟩
  cases append : t.fd.append with
  | true => simp [plain, quiet, unread, none_pushed, write, append, start]
  | false => simp [plain, quiet, unread, none_pushed, write, append, start, back]

theorem small_spec (sound : Sound s) (stands : plain s = p) (unread : s.f.reading = false)
    (unpushed : s.f.ungot = none) (idle : s.f.writing = false → s.f.len = 0) {data : Bytes}
    (some_data : data ≠ []) (small : data.length < bufsiz) :
    Simulates (if bufsiz - s.f.len < data.length then hold (fill s data) (data.drop (bufsiz - s.f.len))
      else hold s data) (p.write data) := by
  by_cases long : bufsiz - s.f.len < data.length
  · rw [if_pos long]
    have writing : s.f.writing = true := by
      by_contra quiet
      rw [Bool.not_eq_true] at quiet
      have := idle quiet
      omega
    obtain ⟨filled, empty, quiet, none_pushed⟩ := fill_spec sound stands writing unpushed long
    have rest : data.drop (bufsiz - s.f.len) ≠ [] := by
      intro nothing
      have length := congrArg List.length nothing
      rw [List.length_drop, List.length_nil] at length
      omega
    have fits : (fill s data).f.len + (data.drop (bufsiz - s.f.len)).length ≤ bufsiz := by
      rw [empty, List.length_drop]
      omega
    have held := hold_spec filled.sound filled.stands quiet none_pushed _ fits (.inr ⟨empty, rest⟩)
    rwa [write_write, List.take_append_drop] at held
  · rw [if_neg long]
    have bound := sound.fits
    apply hold_spec sound stands unread unpushed data (by omega)
    cases writing : s.f.writing with
    | true => exact .inl rfl
    | false => exact .inr ⟨idle writing, some_data⟩

theorem fwrite_spec (n : Nat) {data : Bytes} (simulates : Simulates s p) (some_data : data ≠ [])
    (free : ¬Stranded s) (fresh : Stale s → bufsiz ≤ data.length) (ready : Ready s memory) :
    let r := fwrite s data n memory
    Simulates r.1 (p.write data) ∧ r.2 = n := by
  obtain ⟨t, settled⟩ : ∃ t, settleIf s.f.reading s = t := ⟨_, rfl⟩
  -- whatever was read ahead is given back, so `t` writes or has an empty buffer
  obtain ⟨sound, q, stands, same, unread, unpushed, idle, allocated⟩ : Sound t ∧ ∃ q, plain t = q ∧
      q.write data = p.write data ∧ t.f.reading = false ∧ t.f.ungot = none ∧
      (t.f.writing = false → t.f.len = 0 ∨ bufsiz ≤ data.length) ∧ t.f.allocated = s.f.allocated := by
    cases reading : s.f.reading with
    | true =>
      obtain ⟨given, empty, -, unread, none_pushed, allocated, -⟩ := settle_simulates simulates free
      rw [settleIf, reading, if_pos rfl] at settled
      subst settled
      exact ⟨given.sound, _, given.stands, forget_write data, unread, none_pushed, fun _ =>
        .inl empty, allocated⟩
    | false =>
      rw [settleIf, reading] at settled
      obtain rfl : s = t := settled
      have unpushed : s.f.ungot = none := by
        by_contra pushed
        exact free ⟨Option.isSome_iff_ne_none.mpr pushed, reading⟩
      refine ⟨simulates.sound, _, simulates.stands, rfl, reading, unpushed, ?_, rfl⟩
      intro quiet
      by_cases empty : s.f.len = 0
      · exact .inl empty
      · exact .inr (fresh ⟨reading, quiet, empty⟩)
  simp only [fwrite, if_neg some_data, settled]
  rw [← same]
  by_cases big : bufsiz ≤ data.length
  · rw [if_pos big]
    exact ⟨direct_spec sound stands unread unpushed some_data, rfl⟩
  · rw [if_neg big, getBuf_ready (by rwa [Ready, allocated])]
    have given : Sound { t with f := { t.f with allocated := true } } := by
      obtain ⟨apart, fits, filled, bounds, mirror, known⟩ := sound
      exact ⟨apart, fits, filled, bounds, mirror, known⟩
    have held := small_spec given stands unread unpushed (fun quiet => (idle quiet).resolve_right big)
      some_data (Nat.lt_of_not_le big)
    simp only at held ⊢
    split
    · rename_i long
      rw [if_pos long] at held
      exact ⟨held, rfl⟩
    · rename_i short
      rw [if_neg short] at held
      exact ⟨held, rfl⟩

end Writing

section Places
variable {s : State} {p : PlainFile}

theorem lseek_settled {q : PlainFile} {size : Option Nat} (known : SizeKnown size q.bytes) (off : Int)
    (whence : Whence) (same : q.bytes = p.bytes) (base : whence = .cur → (q.place : Int) = p.position) :
    ∃ later, SizeKnown later q.bytes ∧ lseek (settledAs s q size) off whence =
      if p.target off whence < 0 then (settledAs s q later, none)
      else (settledAs s { q with place := (p.target off whence).toNat } later,
        some (p.target off whence).toNat) := by
  cases whence with
  | set =>
    refine ⟨size, known, ?_⟩
    simp only [lseek, target, Nat.cast_zero, Int.zero_add]
    rfl
  | cur =>
    refine ⟨size, known, ?_⟩
    rw [lseek, target, ← base rfl]
    rfl
  | fromEnd =>
    have length := fileSize_length (s := settledAs s q size) known
    refine ⟨some q.bytes.length, fun n found => (Option.some_injective _ found).symm, ?_⟩
    rw [lseek, target, length, ← same]
    rfl

theorem leftAt_position (simulates : Simulates s p) (free : ¬Stranded s) : (leftAt s : Int) = p.position := by
  obtain ⟨sound, consumed, rfl⟩ := simulates
  have room : (plain s).back ≤ (plain s).place := by
    cases ungot : s.f.ungot with
    | none => simp [back, plain, ungot]
    | some c =>
      have reading : s.f.reading = true := by
        by_contra unread
        exact free ⟨by simp [ungot], Bool.not_eq_true _ ▸ unread⟩
      have positive := consumed reading
      obtain ⟨inside, reach⟩ := sound.bounds reading
      simp only [back, plain, ungot, sound.quiet reading, reading, Option.toList_some, List.length_singleton]
      simp only [Bool.false_eq_true, if_false, if_true]
      omega
  have given : leftAt s = (plain s).place - (plain s).back := leftAt_forget free
  rw [given, position]
  omega

theorem fseek_spec (off : Int) (whence : Whence) (simulates : Simulates s p)
    (free : whence = .cur → ¬Stranded s) (unpushed : p.target off whence < 0 → s.f.ungot = none) :
    let r := fseek s off whence
    Simulates r.1 (p.seek off whence).1 ∧ r.2 = (p.seek off whence).2 := by
  obtain ⟨size, known, settled⟩ := settle_spec simulates.sound simulates.consumed
  have bytes : (plain s).forget.bytes = p.bytes := by rw [simulates.stands]; rfl
  obtain ⟨q, rest⟩ : ∃ q : PlainFile, q = { (plain s).forget with place := leftAt s } := ⟨_, rfl⟩
  have same : q.bytes = p.bytes := by rw [rest, ← bytes]
  have base : whence = .cur → (q.place : Int) = p.position := by
    intro relative
    rw [rest]
    exact leftAt_position simulates (free relative)
  rw [← rest] at settled
  have unread : false = true → 0 < 0 := fun reading => absurd reading Bool.false_ne_true
  have held : SizeKnown size q.bytes := by
    rw [same, ← bytes]
    exact known
  obtain ⟨size', found, sought⟩ := lseek_settled (s := s) held off whence same base
  rw [fseek, settled, sought, seek]
  by_cases before : p.target off whence < 0
  · rw [if_pos before, if_pos before]
    have nothing := unpushed before
    refine ⟨⟨settledAs_sound _ _ found, unread, ?_⟩, rfl⟩
    rw [rest, settledAs_plain _ _ (by rfl) rfl, ← simulates.stands]
    cases reading : s.f.reading <;> simp [leftAt, reading, forget, back, plain, nothing]
  · rw [if_neg before, if_neg before]
    have there := settledAs_sound (s := s) { q with place := (p.target off whence).toNat } size' found
    obtain ⟨apart, fits, filled, bounds, mirror, size_known⟩ := there
    refine ⟨⟨⟨apart, fits, filled, bounds, mirror, size_known⟩, unread, ?_⟩, rfl⟩
    rw [rest, ← simulates.stands]
    rfl

theorem ftell_spec (simulates : Simulates s p)
    (at_end : s.f.writing = true → s.fd.append = true → s.fd.off = s.file.length) : ftell s = p.position := by
  obtain ⟨sound, -, rfl⟩ := simulates
  have pushed : ∀ n : Int, (if s.f.ungot.isSome then n - 1 else n) = n - s.f.ungot.toList.length := by
    intro n
    cases s.f.ungot <;> simp
  rw [ftell, pushed, position]
  cases writing : s.f.writing with
  | true =>
    have unread := sound.apart writing
    have begins : start s = s.fd.off := by
      cases append : s.fd.append with
      | true => simp [start, append, at_end writing append]
      | false => simp [start, append]
    simp [unread, plain, back, writing, begins]
  | false =>
    cases reading : s.f.reading with
    | true =>
      obtain ⟨inside, reach⟩ := sound.bounds reading
      simp only [plain, back, writing, reading, Bool.false_eq_true, if_false, if_true]
      omega
    | false => simp [plain, back, writing, reading]

end Places

/-- What an unbuffered file with a single position returns. -/
def plainStep (p : PlainFile) : Op → PlainFile × Answer
  | .fread size n _ =>
    ((p.read (size * n)).1, .items ((p.read (size * n)).2.length / size) (p.read (size * n)).2)
  | .fgetc _ => ((p.read 1).1, .byte (p.read 1).2.head?)
  | .fgets size _ => ((readLine (size - 1) p).1, .line (readLine (size - 1) p).2)
  | .ungetc none => (p, .byte none)
  | .ungetc (some c) => ((p.unget c).1, .byte (if (p.unget c).2 then some c else none))
  | .fwrite data n _ => if data = [] then (p, .items 0 []) else (p.write data, .items n [])
  | .fputc c _ => (p.write [c], .byte (some c))
  | .fseek off whence => ((p.seek off whence).1, .done (p.seek off whence).2)
  | .ftell => (p, .place p.position)
  | .fflush => (p.forget, .done true)

def plainRun (p : PlainFile) : List Op → PlainFile × List Answer
  | [] => (p, [])
  | op :: ops =>
    let one := plainStep p op
    let rest := plainRun one.1 ops
    (rest.1, one.2 :: rest.2)

/-- A write may start: no stranded byte, and no stale length under a small write. -/
def Writable (s : State) (data : Bytes) (memory : Bool) : Prop :=
  ¬Stranded s ∧ (Stale s → bufsiz ≤ data.length) ∧ Ready s memory

/-- The condition on the state before a call under which the call is the plain file's. -/
def Meets (s : State) : Op → Prop
  | .fread _ _ memory => Ready s memory
  | .fgetc memory => Ready s memory
  | .fgets _ memory => Ready s memory
  | .ungetc _ => True
  | .fwrite data _ memory => data ≠ [] → Writable s data memory
  | .fputc c memory => Writable s [c] memory
  | .fseek off whence =>
    (whence = .cur → ¬Stranded s) ∧ ((plain s).target off whence < 0 → s.f.ungot = none)
  | .ftell => s.f.writing = true → s.fd.append = true → s.fd.off = s.file.length
  | .fflush => ¬Stranded s

def AllMeet (s : State) : List Op → Prop
  | [] => True
  | op :: ops => Meets s op ∧ AllMeet (step s op).1 ops

section Decisions
variable (s : State) (memory : Bool)

instance : Decidable (Stranded s) := inferInstanceAs (Decidable (_ ∧ _))

instance : Decidable (Stale s) := inferInstanceAs (Decidable (_ ∧ _))

instance : Decidable (Ready s memory) := inferInstanceAs (Decidable (_ ∨ _))

instance (data : Bytes) : Decidable (Writable s data memory) := inferInstanceAs (Decidable (_ ∧ _))

instance : (op : Op) → Decidable (Meets s op)
  | .fread _ _ memory => inferInstanceAs (Decidable (Ready s memory))
  | .fgetc memory => inferInstanceAs (Decidable (Ready s memory))
  | .fgets _ memory => inferInstanceAs (Decidable (Ready s memory))
  | .ungetc _ => inferInstanceAs (Decidable True)
  | .fwrite data _ memory => inferInstanceAs (Decidable (data ≠ [] → Writable s data memory))
  | .fputc c memory => inferInstanceAs (Decidable (Writable s [c] memory))
  | .fseek _ _ => inferInstanceAs (Decidable (_ ∧ _))
  | .ftell => inferInstanceAs (Decidable (s.f.writing = true → _))
  | .fflush => inferInstanceAs (Decidable (¬_))

instance decideAll : (s : State) → (ops : List Op) → Decidable (AllMeet s ops)
  | _, [] => inferInstanceAs (Decidable True)
  | s, op :: ops =>
    have := decideAll (step s op).1 ops
    inferInstanceAs (Decidable (_ ∧ _))

end Decisions

section Runs
variable {s : State} {p : PlainFile}

theorem ungetc_spec (c : UInt8) (simulates : Simulates s p) :
    let r := ungetc s (some c)
    Simulates r.1 (p.unget c).1 ∧ r.2 = if (p.unget c).2 then some c else none := by
  obtain ⟨⟨apart, fits, filled, bounds, mirror, known⟩, consumed, rfl⟩ := simulates
  have same : (plain s).pushed = s.f.ungot := rfl
  simp only [ungetc, unget, same]
  split
  · exact ⟨⟨⟨apart, fits, filled, bounds, mirror, known⟩, consumed, rfl⟩, rfl⟩
  · exact ⟨⟨⟨apart, fits, filled, bounds, mirror, known⟩, consumed, rfl⟩, rfl⟩

theorem step_spec (op : Op) (simulates : Simulates s p) (meets : Meets s op) :
    Simulates (step s op).1 (plainStep p op).1 ∧ (step s op).2 = (plainStep p op).2 := by
  cases op with
  | fread size n memory =>
    obtain ⟨after, bytes⟩ := fread_spec size n simulates meets
    exact ⟨after, by simp only [step, plainStep, bytes]⟩
  | fgetc memory =>
    obtain ⟨after, byte, -⟩ := fgetc_spec simulates meets
    exact ⟨after, by simp only [step, plainStep, byte]⟩
  | fgets size memory =>
    obtain ⟨after, line⟩ := fgets_spec (size - 1) simulates meets
    exact ⟨after, by simp only [step, plainStep, line]⟩
  | ungetc c =>
    cases c with
    | none => exact ⟨simulates, rfl⟩
    | some c =>
      obtain ⟨after, byte⟩ := ungetc_spec c simulates
      exact ⟨after, by simp only [step, plainStep, byte]⟩
  | fwrite data n memory =>
    by_cases nothing : data = []
    · subst nothing
      exact ⟨simulates, rfl⟩
    · obtain ⟨free, fresh, ready⟩ := meets nothing
      obtain ⟨after, count⟩ := fwrite_spec n simulates nothing free fresh ready
      simp only [step, plainStep, if_neg nothing]
      exact ⟨after, by rw [count]⟩
  | fputc c memory =>
    obtain ⟨free, fresh, ready⟩ := meets
    obtain ⟨after, count⟩ := fwrite_spec 1 simulates (List.cons_ne_nil c []) free fresh ready
    simp only [step, plainStep]
    exact ⟨after, by rw [count, if_pos rfl]⟩
  | fseek off whence =>
    obtain ⟨after, ok⟩ := fseek_spec off whence simulates meets.1 (simulates.stands ▸ meets.2)
    exact ⟨after, by simp only [step, plainStep, ok]⟩
  | ftell =>
    have place := ftell_spec simulates meets
    exact ⟨simulates, by simp only [step, plainStep, place]⟩
  | fflush => exact ⟨(settle_simulates simulates meets).1, rfl⟩

theorem run_spec (ops : List Op) (simulates : Simulates s p) (meet : AllMeet s ops) :
    Simulates (run s ops).1 (plainRun p ops).1 ∧ (run s ops).2 = (plainRun p ops).2 := by
  induction ops generalizing s p with
  | nil => exact ⟨simulates, rfl⟩
  | cons op ops ih =>
    obtain ⟨after, answer⟩ := step_spec op simulates meet.1
    obtain ⟨later, answers⟩ := ih after meet.2
    exact ⟨later, by simp only [run, plainRun, answer, answers]⟩

theorem fclose_bytes (simulates : Simulates s p) : fclose s = p.bytes := by
  obtain ⟨size, -, settled⟩ := settle_spec simulates.sound simulates.consumed
  rw [fclose, settled, ← simulates.stands]
  rfl

theorem opened_simulates {file : Bytes} {size : Option Nat} (append : Bool) (buf : Memory)
    (known : SizeKnown size file) : Simulates (opened file append size buf) ⟨file, 0, none, append⟩ := by
  have unset : false = true → ∀ P : Prop, P := fun wrong => absurd wrong Bool.false_ne_true
  exact ⟨⟨fun w => unset w _, Nat.zero_le _, fun w => unset w _, fun r => unset r _, fun r =>
    unset r _, known⟩,
    fun r => unset r _, rfl⟩

/-- Every run of calls that meet the condition returns what the plain file returns,
and leaves its bytes. -/
theorem streams_refine (file : Bytes) (append : Bool) (size : Option Nat) (buf : Memory) (ops : List Op)
    (known : SizeKnown size file) (meet : AllMeet (opened file append size buf) ops) :
    (run (opened file append size buf) ops).2 = (plainRun ⟨file, 0, none, append⟩ ops).2 ∧
      fclose (run (opened file append size buf) ops).1 = (plainRun ⟨file, 0, none, append⟩ ops).1.bytes := by
  obtain ⟨simulates, answers⟩ := run_spec ops (opened_simulates append buf known) meet
  exact ⟨answers, fclose_bytes simulates⟩

-- A byte pushed back after a big read is stranded: flushing keeps the place behind it.
example : (run (opened [7] false none fun _ =>
    0) [.fread 1 4096 true, .ungetc (some 7), .fflush, .ftell]).2.getLast? =
    some (.place 1) := by decide

-- Appending puts the byte at the end, but the place is counted from the descriptor's.
example : (run (opened [1, 2, 3] true none fun _ => 0) [.fputc 4 true, .ftell]).2.getLast? =
    some (.place 1) := by decide

/-- A read that starts in the buffer and ends past the file, and then one byte. -/
def rereadThenPut : List Op := [.fgetc true, .fread 1 5000 true, .fputc 66 true]

/-- The byte that had been read is written a second time. -/
theorem stale_byte_written :
    (run (opened [65] false none fun _ => 0) rereadThenPut).2 =
      [.byte (some 65), .items 0 [], .byte (some 66)] ∧
      (plainRun ⟨[65], 0, none, false⟩ rereadThenPut).1.bytes = [65, 66] ∧
      fclose (run (opened [65] false none fun _ => 0) rereadThenPut).1 = [65, 65, 66] := by
  decide

/-- Reads with a byte pushed back, a flush, a write and a seek. -/
theorem streams_refine_mixed :
    let ops : List Op := [.fgetc true, .ungetc (some 88), .fread 1 2 true, .fflush, .fputc 66 true, .ftell]
    (run (opened [1, 2, 3] false none fun _ => 0) ops).2 = (plainRun ⟨[1, 2, 3], 0, none, false⟩ ops).2 ∧
      fclose (run (opened [1, 2, 3] false none fun _ => 0) ops).1 =
        (plainRun ⟨[1, 2, 3], 0, none, false⟩ ops).1.bytes := by
  apply streams_refine
  · intro n found
    cases found
  · decide

end Runs
end R2Apps.StreamRefinement
