import R2Apps.Mp4Samples

/-! `Mp4Animation`, `web/mp4.cpp`: `start` reads the tables and hands the parameter sets
to the decoder, `step` the samples. A file's samples are inside it unless a sum of 64
bits wraps past the check. -/
namespace R2Apps.Mp4Animation
open PartialReads Mp4Boxes Mp4Tables

section Decoder_

/-- What the decoder does with a NAL unit: how its bytes look afterwards, whether it can
go on, and whether a picture that came of it could not be kept. -/
structure Taken where
  edit : Bytes → Bytes
  goesOn : Bool
  lost : Bool

/-- What is there outside: memory, a decoder, and its answers in turn. -/
structure World where
  allocates : Bool
  opens : Bool
  decoder : Nat → Taken

/-- The file as it is now, how many units the decoder has had, `failed`, and the place
in the file. -/
structure Feed where
  file : Bytes
  calls : Nat
  failed : Bool
  p : Nat
deriving DecidableEq

def edited (file : Bytes) (p l : Nat) (edit : Bytes → Bytes) : Bytes :=
  let unit := (file.drop p).take l
  file.take p ++ (edit unit ++ unit).take l ++ file.drop (p + l)

/-- `web_h264_nal` of the `l` bytes at `p`; the second part is whether it can go on. -/
def nal (w : World) (f : Feed) (p l : Nat) : Program (Feed × Bool) :=
  if p + l ≤ f.file.length then
    let taken := w.decoder f.calls
    pure (⟨edited f.file p l taken.edit, f.calls + 1, f.failed || taken.lost, p + l⟩, taken.goesOn)
  else outside

end Decoder_

section Starting

/-- So many parameter sets, each behind a length of 16 bits. -/
def setLoop (w : World) (e : Nat) : Nat → Feed → Program Feed
  | 0, f => return f
  | left_ + 1, f =>
    if e - f.p < 2 then return f
    else do
      let l ← be f.file f.p 2
      let p := f.p + 2
      if e - p < l then return { f with p := p }
      if l = 0 then setLoop w e left_ { f with p := p }
      else
        let (f, goesOn) ← nal w f p l
        if goesOn then setLoop w e left_ f else throw noMemory

/-- The sequence parameter sets, whose number has five bits, or the picture ones. -/
def paramSets (w : World) (e : Nat) (sequence : Bool) (f : Feed) : Program Feed :=
  if f.p < e then do
    let n ← be f.file f.p 1
    setLoop w e (if sequence then n % 32 else n) { f with p := f.p + 1 }
  else return f

structure Playing where
  feed : Feed
  samples : List Sample
  next : Nat
  nalLen : Nat
  decoding : Bool
deriving DecidableEq

def locate (file : Bytes) : Program (Track × Tables) := do
  let track ← findVideo file
  let tables ← sampleTables file track
  return (track, tables)

def start (w : World) (file : Bytes) : Program Playing := do
  let track ← findVideo file
  let set ← settings file track
  let tables ← sampleTables file track
  let samples ← readSamples w.allocates file track.timescale tables
  if w.opens = false then throw noMemory
  let f ← paramSets w set.paramEnd true ⟨file, 0, false, set.paramSets⟩
  let f ← paramSets w set.paramEnd false f
  return ⟨f, samples, 0, set.nalLen, true⟩

end Starting

section Stepping

/-- The NAL units of a sample, each behind its length. A turn takes a byte at least. -/
def feedLoop (w : World) (nalLen e : Nat) : Nat → Feed → Program Feed
  | 0, _ => outside
  | turns + 1, f =>
    if f.failed ∨ ¬nalLen < e - f.p then return f
    else do
      let l ← be f.file f.p nalLen
      let p := f.p + nalLen
      if l = 0 ∨ e - p < l then return { f with p := p }
      let (f, goesOn) ← nal w f p l
      feedLoop w nalLen e turns { f with failed := f.failed || !goesOn }

def feedSample (w : World) (nalLen : Nat) (f : Feed) (s : Sample) : Program Feed :=
  feedLoop w nalLen (s.offset + s.size) (s.size + 1) { f with p := s.offset }

/-- The samples from `next` on; `pauses` says after which of them the time is up. -/
def stepLoop (w : World) (pauses : Nat → Bool) : Nat → Playing → Program (Playing × Bool)
  | 0, a => return (a, false)
  | left_ + 1, a =>
    match a.samples[a.next]? with
    | none => return (a, false)
    | some s =>
      if a.feed.failed then return (a, false)
      else do
        let f ← feedSample w a.nalLen a.feed s
        let a := { a with feed := f, next := a.next + 1 }
        if pauses a.next then return (a, true) else stepLoop w pauses left_ a

def step (w : World) (a : Playing) (pauses : Nat → Bool) : Program (Bool × Playing) :=
  if a.decoding = false then return (false, a)
  else do
    let (a, paused) ← stepLoop w pauses (a.samples.length - a.next) a
    if paused then return (true, a) else return (false, { a with decoding := false })

def steps (w : World) : List (Nat → Bool) → Playing → Program Playing
  | [], a => return a
  | pauses :: rest, a => do
    let (_, a) ← step w a pauses
    steps w rest a

end Stepping

/-! ## Inside the file -/

section Inside

theorem edited_length {file : Bytes} {p l : Nat} (inside : p + l ≤ file.length) (edit : Bytes → Bytes) :
    (edited file p l edit).length = file.length := by
  unfold edited
  dsimp only
  simp only [List.length_append, List.length_take, List.length_drop]
  omega

theorem nal_keeps {w : World} {f : Feed} {p l : Nat} (inside : p + l ≤ f.file.length) :
    Yields (nal w f p l) fun r => r.1.file.length = f.file.length ∧ r.1.p = p + l := by
  unfold nal
  rw [if_pos inside]
  exact Yields.pure ⟨edited_length inside _, rfl⟩

theorem setLoop_keeps {w : World} {e : Nat} (left_ : Nat) : ∀ f : Feed, e ≤ f.file.length →
    Yields (setLoop w e left_ f) fun r => r.file.length = f.file.length := by
  induction left_ with
  | zero => exact fun f _ => Yields.pure rfl
  | succ left_ ih =>
    intro f ends
    rw [setLoop]
    apply Yields.ite
    · exact fun _ => Yields.pure rfl
    · intro more
      apply Yields.bind (Yields.be (by omega))
      rintro l -
      apply Yields.ite
      · exact fun _ => Yields.pure rfl
      · intro room
        apply Yields.ite
        · exact fun _ => ih _ ends
        · intro some_
          apply Yields.bind (nal_keeps (by omega))
          rintro ⟨f', goesOn⟩ ⟨same, -⟩
          dsimp only at same
          apply Yields.ite
          · intro _
            apply (ih f' (by omega)).mono
            exact fun r kept => kept.trans same
          · exact fun _ => Yields.throw _

theorem paramSets_keeps {w : World} {e : Nat} {sequence : Bool} {f : Feed} (ends : e ≤ f.file.length) :
    Yields (paramSets w e sequence f) fun r => r.file.length = f.file.length := by
  unfold paramSets
  apply Yields.ite
  · intro more
    apply Yields.bind (Yields.be (by omega))
    exact fun n _ => setLoop_keeps _ _ ends
  · exact fun _ => Yields.pure rfl

theorem settings_inside {file : Bytes} {track : Track} (sound : track.Sound file) :
    Yields (settings file track) fun s => s.paramEnd ≤ file.length ∧ 0 < s.nalLen := by
  have ends := sound.avcC.2.2
  unfold settings Box.len
  apply Yields.ite
  · exact fun _ => Yields.throw _
  · intro long
    apply Yields.bind (Yields.be (by omega))
    rintro version -
    apply Yields.ite
    · exact fun _ => Yields.throw _
    · intro _
      apply Yields.bind (Yields.be (by omega))
      rintro profile -
      apply Yields.bind (Yields.be (by omega))
      rintro compat -
      apply Yields.ite
      · exact fun _ => Yields.throw _
      · intro _
        apply Yields.ite
        · exact fun _ => Yields.throw _
        · intro _
          apply Yields.bind (Yields.be (by omega))
          exact fun _ _ => Yields.pure ⟨ends, Nat.succ_pos _⟩

def AllInside (len : Nat) (samples : List Sample) : Prop := ∀ s ∈ samples, s.offset + s.size ≤ len

theorem feedLoop_keeps {w : World} {nalLen e : Nat} (some_ : 0 < nalLen) (turns : Nat) : ∀ f : Feed,
    e ≤ f.file.length → e - f.p < turns → Yields (feedLoop w nalLen e turns f) fun r =>
      r.file.length = f.file.length := by
  induction turns with
  | zero => exact fun f _ enough => absurd enough (Nat.not_lt_zero _)
  | succ turns ih =>
    intro f ends enough
    rw [feedLoop]
    apply Yields.ite
    · exact fun _ => Yields.pure rfl
    · intro going
      have more : nalLen < e - f.p := Decidable.not_not.mp fun none_ => going (.inr none_)
      apply Yields.bind (Yields.be (by omega))
      rintro l -
      apply Yields.ite
      · exact fun _ => Yields.pure rfl
      · intro room
        apply Yields.bind (nal_keeps (by omega))
        rintro ⟨f', goesOn⟩ ⟨same, place⟩
        dsimp only at same place
        apply (ih _ (by dsimp only; omega) (by dsimp only; omega)).mono
        exact fun r kept => kept.trans same

theorem stepLoop_keeps {w : World} {pauses : Nat → Bool} {len : Nat} (left_ : Nat) : ∀ a : Playing,
    a.feed.file.length = len → 0 < a.nalLen → AllInside len a.samples →
      Yields (stepLoop w pauses left_ a) fun r =>
      r.1.feed.file.length = len ∧ r.1.nalLen = a.nalLen ∧ r.1.samples = a.samples := by
  induction left_ with
  | zero => exact fun a same _ _ => Yields.pure ⟨same, rfl, rfl⟩
  | succ left_ ih =>
    intro a same some_ inside
    rw [stepLoop]
    cases there : a.samples[a.next]? with
    | none => exact Yields.pure ⟨same, rfl, rfl⟩
    | some s =>
      apply Yields.ite
      · exact fun _ => Yields.pure ⟨same, rfl, rfl⟩
      · intro _
        have fits := inside s (List.mem_of_getElem? there)
        apply Yields.bind (feedLoop_keeps some_ _ _ (by dsimp only; omega) (by dsimp only; omega))
        intro f kept
        apply Yields.ite
        · exact fun _ => Yields.pure ⟨kept.trans same, rfl, rfl⟩
        · exact fun _ => ih _ (kept.trans same) some_ inside

theorem steps_read {w : World} {len : Nat} (calls : List (Nat → Bool)) : ∀ a : Playing,
    a.feed.file.length = len → 0 < a.nalLen → AllInside len a.samples →
      ∃ r, (steps w calls a).run = some r := by
  suffices all : ∀ a : Playing, a.feed.file.length = len → 0 < a.nalLen → AllInside len a.samples →
      Yields (steps w calls a) fun _ => True from fun a same some_ inside => (all a same some_ inside).has
  induction calls with
  | nil => exact fun a _ _ _ => Yields.pure trivial
  | cons pauses rest ih =>
    intro a same some_ inside
    rw [steps]
    apply Yields.bind (P := fun r => r.2.feed.file.length = len ∧ r.2.nalLen = a.nalLen ∧
      r.2.samples = a.samples)
    · unfold step
      apply Yields.ite
      · exact fun _ => Yields.pure ⟨same, rfl, rfl⟩
      · intro _
        apply Yields.bind (stepLoop_keeps _ a same some_ inside)
        rintro ⟨a', paused⟩ kept
        apply Yields.ite
        · exact fun _ => Yields.pure kept
        · exact fun _ => Yields.pure kept
    · rintro ⟨_, a'⟩ ⟨same', some', samples'⟩
      exact ih a' same' (some'.symm ▸ some_) (samples'.symm ▸ inside)

end Inside

/-! ## What an animation that has begun shows -/

section Begun

theorem samplesOf_maps : ∀ offsets sizes times : List Nat, offsets.length ≤ sizes.length →
    offsets.length = times.length →
      (samplesOf offsets sizes times).map Sample.offset = offsets ∧
      (samplesOf offsets sizes times).map Sample.size = sizes.take offsets.length ∧
      (samplesOf offsets sizes times).map Sample.ms = times := by
  intro offsets
  induction offsets with
  | nil =>
    intro sizes times _ same
    cases times with
    | nil => simp [samplesOf]
    | cons _ _ => simp at same
  | cons o offsets ih =>
    intro sizes times enough same
    cases sizes with
    | nil => simp at enough
    | cons size sizes => cases times with
      | nil => simp at same
      | cons ms times =>
        obtain ⟨a, b, c⟩ := ih sizes times (by simpa using enough) (by simpa using same)
        simp [samplesOf, a, b, c]

variable {file : Bytes} {t : Tables}

/-- The samples are what the tables say: each at its chunk's offset plus the sizes before
it there, inside the file, and shown so that the times of the track come out. -/
structure Faithful (file : Bytes) (timescale : Nat) (t : Tables) (samples : List Sample) : Prop where
  offsets : samples.map Sample.offset = offsets file t
  sizes : samples.map Sample.size = (sizes file t).take samples.length
  inside : AllInside file.length samples
  times : ∀ k ≤ samples.length, k ≤ (deltas file t).length →
    ((deltas file t).take k).sum * 1000 / timescale < 2 ^ 32 →
    ((samples.map Sample.ms).take k).sum = ((deltas file t).take k).sum * 1000 / timescale

/-- The tables' samples begin below 4 GiB. -/
def Low (file : Bytes) (t : Tables) : Prop := ∀ o ∈ offsets file t, o < 2 ^ 32

theorem read_counts {timescale : Nat} {samples : List Sample} (read : Read file timescale t samples) :
    samples.map Sample.offset = (Mp4Tables.offsets file t).map (· % 2 ^ 32) ∧
    samples.map Sample.size = (Mp4Tables.sizes file t).take (Mp4Tables.offsets file t).length ∧
    ∃ last, samples.map Sample.ms = durations timescale 0
      ((deltas file t).take (Mp4Tables.offsets file t).length) ++
      List.replicate ((Mp4Tables.offsets file t).length - (deltas file t).length) last := by
  obtain ⟨⟨last, rfl⟩, -⟩ := read
  have enough := deal_length_le (chunksFrom file t 0 (runCount file t)) (Mp4Tables.sizes file t)
  obtain ⟨a, b, c⟩ := samplesOf_maps ((Mp4Tables.offsets file t).map (· % 2 ^ 32)) (Mp4Tables.sizes file t)
    (durations timescale 0 ((deltas file t).take (Mp4Tables.offsets file t).length) ++
      List.replicate ((Mp4Tables.offsets file t).length - (deltas file t).length) last)
    (by rw [List.length_map]; exact enough)
    (by
      rw [List.length_map, List.length_append, durations_length, List.length_take, List.length_replicate]
      omega)
  rw [List.length_map] at b
  exact ⟨a, b, last, c⟩

theorem faithful_of_low {timescale : Nat} {samples : List Sample} (read : Read file timescale t samples)
    (low : Low file t) : Faithful file timescale t samples := by
  obtain ⟨placed, sized, last, shown⟩ := read_counts read
  have same : (Mp4Tables.offsets file t).map (· % 2 ^ 32) = Mp4Tables.offsets file t := by
    conv => rhs; rw [← List.map_id (Mp4Tables.offsets file t)]
    exact List.map_congr_left fun o member => Nat.mod_eq_of_lt (low o member)
  rw [same] at placed
  have count : samples.length = (Mp4Tables.offsets file t).length := by rw [← placed, List.length_map]
  constructor
  case offsets => exact placed
  case sizes => rw [sized, count]
  case inside =>
    intro s member
    obtain ⟨i, there⟩ := List.mem_iff_getElem?.mp member
    have at_ : (Mp4Tables.offsets file t)[i]? = some s.offset := by
      rw [← placed, List.getElem?_map, there]; rfl
    have long : i < (Mp4Tables.offsets file t).length := (List.getElem?_eq_some_iff.mp at_).1
    have of_ : (Mp4Tables.sizes file t)[i]? = some s.size := by
      rw [← List.getElem?_take_of_lt long, ← sized, List.getElem?_map, there]
      rfl
    have fits := read.checked (s.offset, s.size) (by
      apply List.mem_iff_getElem?.mpr
      exact ⟨i, List.getElem?_zip_eq_some.mpr ⟨at_, of_⟩⟩)
    have small := low s.offset (List.mem_of_getElem? at_)
    have narrow : s.size < 2 ^ 32 := by
      obtain ⟨_, _, is⟩ := List.mem_map.mp (List.mem_of_getElem? of_)
      rw [← is, sizeAt]
      split <;> exact valueAt_lt ..
    dsimp only at fits
    rwa [Nat.mod_eq_of_lt (by omega)] at fits
  case times =>
    intro k covered timed small
    have whole : ((deltas file t).take (Mp4Tables.offsets file t).length).take k =
        (deltas file t).take k := by
      rw [List.take_take, Nat.min_eq_left (by omega)]
    rw [shown, List.take_append_of_le_length (by rw [durations_length, List.length_take]; omega),
      durations_take, whole]
    have sum := durations_sum timescale ((deltas file t).take k) 0 (by rwa [Nat.zero_add])
    rwa [Nat.zero_add, Nat.zero_mul, Nat.zero_div, Nat.sub_zero] at sum

theorem low_of_faithful {timescale : Nat} {samples : List Sample} (read : Read file timescale t samples)
    (faithful : Faithful file timescale t samples) : Low file t := by
  obtain ⟨placed, -, -⟩ := read_counts read
  intro o member
  rw [← faithful.offsets, placed] at member
  obtain ⟨_, _, rfl⟩ := List.mem_map.mp member
  exact Nat.mod_lt _ (by decide)

theorem start_reads (w : World) (file : Bytes) : Yields (start w file) fun a =>
    a.feed.file.length = file.length ∧ 0 < a.nalLen ∧
      ∀ track tables, (locate file).run = some (.ok (track, tables)) →
      (file.length < 2 ^ 32 → Indexable file tables) ∧
        (Indexable file tables → Read file track.timescale tables a.samples) := by
  unfold start
  apply Yields.bind (findVideo_sound file).itself
  rintro track ⟨sound, isTrack⟩
  apply Yields.bind (settings_inside sound)
  rintro set ⟨ends, long⟩
  apply Yields.bind (sampleTables_sound sound).itself
  rintro tables ⟨tabled, isTables⟩
  apply Yields.bind (readSamples_reads w.allocates track.timescale tabled)
  intro samples read
  apply Yields.ite
  · exact fun _ => Yields.throw _
  · intro _
    apply Yields.bind (paramSets_keeps ends)
    intro f kept
    apply Yields.bind (paramSets_keeps (by rw [kept]; exact ends))
    intro f' kept'
    refine Yields.pure ⟨kept'.trans kept, long, ?_⟩
    intro track' tables' located
    have here : (locate file).run = some (.ok (track, tables)) := by
      rw [locate, run_bind isTrack, run_bind isTables]
      rfl
    have same : (track, tables) = (track', tables') := by
      rw [here] at located
      exact Except.ok.inj (Option.some.inj located)
    obtain ⟨rfl, rfl⟩ := Prod.mk.inj same
    exact read

theorem start_indexable {w : World} {file : Bytes} {a : Playing} {track : Track} {tables : Tables}
    (started : (start w file).run = some (.ok a)) (located : (locate file).run = some (.ok (track, tables)))
    (short : file.length < 2 ^ 32) : Indexable file tables :=
  (((start_reads w file).of_run started).2.2 track tables located).1 short

/-- For every byte string `start` reads inside it, and where it begins, with tables that
are indexed below 2³², the samples are the tables' own and inside the file, and every
`step` reads inside, exactly if no sample of the tables begins at 4 GiB or beyond. -/
theorem samples_faithful (w : World) (file : Bytes) : (∃ r, (start w file).run = some r) ∧
    ∀ a track tables, (start w file).run = some (.ok a) → (locate file).run = some (.ok (track, tables)) →
      Indexable file tables → ((Faithful file track.timescale tables a.samples ∧
        ∀ calls, ∃ r, (steps w calls a).run = some r) ↔ Low file tables) := by
  have begun := start_reads w file
  refine ⟨begun.has, ?_⟩
  intro a track tables started located indexed
  obtain ⟨same, long, reads⟩ := begun.of_run started
  have read := (reads track tables located).2 indexed
  constructor
  · rintro ⟨faithful, -⟩
    exact low_of_faithful read faithful
  · intro low
    have faithful := faithful_of_low read low
    exact ⟨faithful, fun calls => steps_read calls a same long faithful.inside⟩

end Begun

section Wrapped

def box (type : Bytes) (content : Bytes) : Bytes :=
  [0, 0, UInt8.ofNat ((8 + content.length) / 256), UInt8.ofNat ((8 + content.length) % 256)] ++
    type ++ content

def zeros (n : Nat) : Bytes := List.replicate n 0

/-- One video track of one sample of 32 bytes, with the offset of its chunk. -/
def oneSample (offset : Bytes) : Bytes :=
  box [0x6D, 0x6F, 0x6F, 0x76] (box [0x74, 0x72, 0x61, 0x6B] (box [0x6D, 0x64, 0x69, 0x61] (
    box [0x68, 0x64, 0x6C, 0x72] (zeros 8 ++ [0x76, 0x69, 0x64, 0x65]) ++
    box [0x6D, 0x64, 0x68, 0x64] (zeros 12 ++ [0, 0, 3, 0xE8] ++ zeros 8) ++
    box [0x6D, 0x69, 0x6E, 0x66] (box [0x73, 0x74, 0x62, 0x6C] (
      box [0x73, 0x74, 0x73, 0x64] (zeros 8 ++ box [0x61, 0x76, 0x63, 0x31] (
        zeros 24 ++ [0, 16, 0, 16] ++ zeros 50 ++ box [0x61, 0x76, 0x63, 0x43] [1, 66, 0, 30, 3, 0, 0])) ++
      box [0x73, 0x74, 0x74, 0x73] (zeros 4 ++ [0, 0, 0, 1] ++ [0, 0, 0, 1] ++ [0, 0, 0, 40]) ++
      box [0x73, 0x74, 0x73, 0x63] (zeros 4 ++ [0, 0, 0, 1] ++ [0, 0, 0, 1] ++ [0, 0, 0, 1] ++ zeros 4) ++
      box [0x73, 0x74, 0x73, 0x7A] (zeros 4 ++ [0, 0, 0, 32] ++ [0, 0, 0, 1]) ++
      box [0x63, 0x6F, 0x36, 0x34] (zeros 4 ++ [0, 0, 0, 1] ++ offset))))))

def wrapping : Bytes := oneSample [0xFF, 0xFF, 0xFF, 0xFF, 0xFF, 0xFF, 0xFF, 0xF0]

def placed : Bytes := oneSample [0, 0, 0, 0, 0, 0, 0, 16]

def plain : World := ⟨true, true, fun _ => ⟨fun unit => unit, true, false⟩⟩

def placedTrack : Track := ⟨⟨stblType, 92, 305⟩, ⟨avcCType, 202, 209⟩, 1000, 16, 16, avc1Type⟩

def placedTables : Tables :=
  ⟨⟨stszType, 269, 281⟩, ⟨stscType, 241, 261⟩, ⟨co64Type, 289, 305⟩, ⟨sttsType, 217, 233⟩⟩

theorem samples_faithful_placed : ∃ a, (start plain placed).run = some (.ok a) ∧ Low placed placedTables ∧
    Faithful placed placedTrack.timescale placedTables a.samples ∧ a.samples = [⟨16, 32, 40⟩] ∧
    ∀ calls, ∃ r, (steps plain calls a).run = some r := by
  have started : (start plain placed).run =
      some (.ok ⟨⟨placed, 0, false, 209⟩, [⟨16, 32, 40⟩], 0, 4, true⟩) :=
    run_of_result (by decide +kernel)
  have located : (locate placed).run = some (.ok (placedTrack, placedTables)) :=
    run_of_result (by decide +kernel)
  have indexed := start_indexable started located (by decide +kernel)
  have low : Low placed placedTables := by
    unfold Low
    decide +kernel
  have does := ((samples_faithful plain placed).2 _ _ _ started located indexed).mpr low
  exact ⟨_, started, low, does.1, rfl, does.2⟩

/-- The sum of 64 bits is 16, so `start` takes the sample; `step` reads nearly 4 GiB
behind the 305 bytes of the file. -/
theorem wrapped_outside : wrapping.length = 305 ∧ ∃ a, (start plain wrapping).run = some (.ok a) ∧
    a.samples = [⟨2 ^ 32 - 16, 32, 40⟩] ∧ (step plain a fun _ => false).run = none :=
  ⟨by decide +kernel, ⟨⟨wrapping, 0, false, 209⟩, [⟨2 ^ 32 - 16, 32, 40⟩], 0, 4, true⟩,
    run_of_result (by decide +kernel), rfl, Option.isNone_iff_eq_none.mp (by decide +kernel)⟩

end Wrapped

end R2Apps.Mp4Animation
