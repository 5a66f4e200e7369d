import R2Apps.Mp4Boxes

/-! The sample tables of an MP4's video track, as `Mp4Animation::start` of `web/mp4.cpp`
reads them: sizes, chunk by chunk the offsets, and how long each sample is shown. -/
namespace R2Apps.Mp4Tables
open PartialReads Mp4Boxes

def stszType : Nat := fourcc 0x73 0x74 0x73 0x7A
def stscType : Nat := fourcc 0x73 0x74 0x73 0x63
def stcoType : Nat := fourcc 0x73 0x74 0x63 0x6F
def co64Type : Nat := fourcc 0x63 0x6F 0x36 0x34
def sttsType : Nat := fourcc 0x73 0x74 0x74 0x73

def maxPixels : Nat := 640 * 640
def maxSamples : Nat := 4096

def brokenSettings : String := "an MP4 with broken H.264 settings"
def mainProfile : String := "H.264 in the Main profile: this decodes Baseline only"
def highProfile : String := "H.264 in the High profile: this decodes Baseline only"
def otherProfile : String := "H.264 in a profile this does not decode"
def tooBig : String := "a video too big to animate"
def brokenTables : String := "an MP4 with broken sample tables"
def fragmented : String := "a fragmented MP4, which this does not read"
def cutShort : String := "an MP4 cut short"
def noMemory : String := "out of memory"

section Settings_

/-- The decoder's settings: how long the lengths of NAL units are, and from where to
where the parameter sets are. -/
structure Settings where
  nalLen : Nat
  paramSets : Nat
  paramEnd : Nat

def settings (file : Bytes) (t : Track) : Program Settings := do
  let c := t.avcC.p
  if t.avcC.len < 7 then throw brokenSettings
  if (← be file c 1) ≠ 1 then throw brokenSettings
  let profile ← be file (c + 1) 1
  let compat ← be file (c + 2) 1
  if profile ≠ 66 ∧ compat &&& 0x80 = 0 then
    throw (if profile = 77 then mainProfile else if profile ≥ 100 then highProfile else otherProfile)
  if t.w * t.h > maxPixels ∨ t.w = 0 ∨ t.h = 0 then
    throw (if t.w > 0 ∧ t.h > 0 then tooBig else brokenTrack)
  return ⟨(← be file (c + 4) 1) % 4 + 1, c + 5, t.avcC.e⟩

end Settings_

section Offsets

structure Tables where
  stsz : Box
  stsc : Box
  stco : Box -- or co64
  stts : Box
deriving DecidableEq

def sampleTables (file : Bytes) (t : Track) : Program Tables := do
  let stsz ← childIn file (some t.stbl) stszType
  let stsc ← childIn file (some t.stbl) stscType
  let stco ← childIn file (some t.stbl) stcoType
  let co64 ← childIn file (some t.stbl) co64Type
  let stts ← childIn file (some t.stbl) sttsType
  match stsz, stsc, stco.or co64, stts with
  | some stsz, some stsc, some stco, some stts =>
    if stsz.len < 12 ∨ stsc.len < 8 ∨ stco.len < 8 ∨ stts.len < 8 then throw brokenTables
    return ⟨stsz, stsc, stco, stts⟩
  | _, _, _, _ => throw brokenTables

/-- The bytes that an entry of the chunk table has. -/
def Tables.entry (t : Tables) : Nat := if t.stco.type = co64Type then 8 else 4

/-- The place of an entry in a table, a product of 32 bits. -/
def mul32 (a b : Nat) : Nat := a * b % 2 ^ 32

def readSize (file : Bytes) (t : Tables) (fixedSize i : Nat) : Program Nat :=
  if fixedSize ≠ 0 then pure fixedSize else be file (t.stsz.p + 12 + 4 * i) 4

def sizeLoop (file : Bytes) (t : Tables) (fixedSize : Nat) : Nat → Nat → Program (List Nat)
  | 0, _ => return []
  | left_ + 1, i => do
    let size ← readSize file t fixedSize i
    return size :: (← sizeLoop file t fixedSize left_ (i + 1))

/-- The samples of a chunk, one after another from `off`: where they are, and the sizes
of those that are left. Sums are of 64 bits and an offset is kept in 32. -/
def sampleLoop (len : Nat) : Nat → Nat → List Nat → Program (List Nat × List Nat)
  | 0, _, rest => return ([], rest)
  | _ + 1, _, [] => return ([], [])
  | k + 1, off, size :: rest => do
    let next := (off + size) % 2 ^ 64
    if next > len then throw cutShort
    let (later, rest) ← sampleLoop len k next rest
    return (off % 2 ^ 32 :: later, rest)

/-- The chunks from `ch` on, at most as many as there are. -/
def chunkLoop (file : Bytes) (t : Tables) (per last : Nat) :
    Nat → Nat → List Nat → Program (List Nat × List Nat)
  | 0, _, rest => return ([], rest)
  | left_ + 1, ch, rest =>
    if ch = 0 ∨ last < ch ∨ rest = [] then return ([], rest)
    else do
      let off ← be file (t.stco.p + 8 + mul32 t.entry (ch - 1)) t.entry
      let (here, rest) ← sampleLoop file.length per off rest
      let (later, rest) ← chunkLoop file t per last left_ (ch + 1) rest
      return (here ++ later, rest)

/-- The last chunk of the run `r`: before the next run's first, in 32 bits. -/
def lastChunk (file : Bytes) (run r nChunks nRuns : Nat) : Program Nat :=
  if r + 1 < nRuns then (fun next => (next + (2 ^ 32 - 1)) % 2 ^ 32) <$> be file (run + 12) 4
  else pure nChunks

/-- The runs of `stsc` from `r` on. Chunks are counted from 1. -/
def runLoop (file : Bytes) (t : Tables) (nChunks nRuns : Nat) :
    Nat → Nat → List Nat → Program (List Nat × List Nat)
  | 0, _, rest => return ([], rest)
  | left_ + 1, r, rest =>
    if rest = [] then return ([], rest)
    else do
      let run := t.stsc.p + 8 + mul32 12 r
      let first ← be file run 4
      let per ← be file (run + 4) 4
      let last ← lastChunk file run r nChunks nRuns
      let (here, rest) ← chunkLoop file t per last (nChunks + 1 - first) first rest
      let (later, rest) ← runLoop file t nChunks nRuns left_ (r + 1) rest
      return (here ++ later, rest)

end Offsets

section Times

/-- The running total, in the track's time scale, and what it came to in milliseconds. -/
structure Clock where
  ticks : Nat
  lastMs : Nat

/-- So many samples of `d` ticks, of those that are left. -/
def tickLoop (timescale d : Nat) : Nat → Nat → Clock → List Nat × Nat × Clock
  | 0, n, c => ([], n, c)
  | _ + 1, 0, c => ([], 0, c)
  | k + 1, n + 1, c =>
    let ticks := (c.ticks + d) % 2 ^ 64
    let ms := ticks * 1000 % 2 ^ 64 / timescale
    let (later, n, c') := tickLoop timescale d k n ⟨ticks, ms⟩
    ((ms + (2 ^ 64 - c.lastMs)) % 2 ^ 64 % 2 ^ 32 :: later, n, c')

def timeLoop (file : Bytes) (t : Tables) (timescale : Nat) :
    Nat → Nat → Nat → Clock → Program (List Nat × Nat)
  | 0, _, n, _ => return ([], n)
  | left_ + 1, r, n, c =>
    if n = 0 then return ([], n)
    else do
      let count ← be file (t.stts.p + 8 + mul32 8 r) 4
      let d ← be file (t.stts.p + 12 + mul32 8 r) 4
      let (here, n, c) := tickLoop timescale d count n c
      let (later, n) ← timeLoop file t timescale left_ (r + 1) n c
      return (here ++ later, n)

end Times

section Reading_

structure Sample where
  offset : Nat
  size : Nat
  ms : Nat
deriving DecidableEq

def samplesOf : List Nat → List Nat → List Nat → List Sample
  | offset :: offsets, size :: sizes, ms :: times => ⟨offset, size, ms⟩ :: samplesOf offsets sizes times
  | _, _, _ => []

/-- The samples, and how many bytes each table has for them. `allocates` is what
`big_alloc` says. -/
def readSamples (allocates : Bool) (file : Bytes) (timescale : Nat) (t : Tables) : Program (List Sample) := do
  let fixedSize ← be file (t.stsz.p + 4) 4
  let found ← be file (t.stsz.p + 8) 4
  if found = 0 then throw fragmented
  let count := min found maxSamples
  if fixedSize = 0 ∧ t.stsz.len < 12 + 4 * count then throw brokenTables
  if allocates = false then throw noMemory
  let sizes ← sizeLoop file t fixedSize count 0
  let nChunks ← be file (t.stco.p + 4) 4
  let nRuns ← be file (t.stsc.p + 4) 4
  if t.stco.len < 8 + t.entry * nChunks ∨ t.stsc.len < 8 + 12 * nRuns then throw brokenTables
  let (offsets, _) ← runLoop file t nChunks nRuns nRuns 0 sizes
  let nTimes ← be file (t.stts.p + 4) 4
  if t.stts.len < 8 + 8 * nTimes then throw brokenTables
  let (times, left_) ← timeLoop file t timescale nTimes 0 offsets.length ⟨0, 0⟩
  -- samples that stts does not cover are shown as long as the last that it does
  return samplesOf offsets sizes (times ++ List.replicate left_ (times.getLast?.getD 100))

end Reading_

/-! ## What the tables say, in unbounded arithmetic -/

section Meaning
variable (file : Bytes) (t : Tables)

def sampleCount : Nat := min (valueAt file (t.stsz.p + 8) 4) maxSamples

def sizeAt (i : Nat) : Nat :=
  if valueAt file (t.stsz.p + 4) 4 ≠ 0 then valueAt file (t.stsz.p + 4) 4
    else valueAt file (t.stsz.p + 12 + 4 * i) 4

def sizes : List Nat := (List.range (sampleCount file t)).map (sizeAt file t)

def chunkCount : Nat := valueAt file (t.stco.p + 4) 4
def runCount : Nat := valueAt file (t.stsc.p + 4) 4
def timeCount : Nat := valueAt file (t.stts.p + 4) 4

def chunkAt (ch : Nat) : Nat := valueAt file (t.stco.p + 8 + t.entry * (ch - 1)) t.entry
def firstChunk (r : Nat) : Nat := valueAt file (t.stsc.p + 8 + 12 * r) 4
def perChunk (r : Nat) : Nat := valueAt file (t.stsc.p + 8 + 12 * r + 4) 4

/-- A run goes on to the next run's first chunk, or to the last chunk of all. -/
def stopChunk (r : Nat) : Nat :=
  if r + 1 < runCount file t ∧ firstChunk file t (r + 1) ≠ 0 then
    min (firstChunk file t (r + 1)) (chunkCount file t + 1)
  else chunkCount file t + 1

/-- The chunks of a run. There is no chunk 0. -/
def chunksOf (r : Nat) : List Nat :=
  if firstChunk file t r = 0 then []
  else List.range' (firstChunk file t r) (stopChunk file t r - firstChunk file t r)

/-- Every chunk in order, with its offset and the number of its samples. -/
def chunksFrom (r left_ : Nat) : List (Nat × Nat) :=
  (List.range' r left_).flatMap fun r => (chunksOf file t r).map fun ch =>
    (chunkAt file t ch, perChunk file t r)

/-- Samples one after another from `base` on. -/
def following : Nat → List Nat → List Nat
  | _, [] => []
  | base, size :: rest => base :: following (base + size) rest

/-- The samples dealt to the chunks: each has the offset of its chunk and the sizes of
the samples before it in that chunk. -/
def deal : List (Nat × Nat) → List Nat → List Nat
  | [], _ => []
  | (base, per) :: chunks, sizes => following base (sizes.take per) ++ deal chunks (sizes.drop per)

def offsets : List Nat := deal (chunksFrom file t 0 (runCount file t)) (sizes file t)

/-- How long each sample that `stts` covers is shown, in the track's time scale. -/
def deltasFrom (r left_ : Nat) : List Nat :=
  (List.range' r left_).flatMap fun r =>
    List.replicate (valueAt file (t.stts.p + 8 + 8 * r) 4) (valueAt file (t.stts.p + 12 + 8 * r) 4)

def deltas : List Nat := deltasFrom file t 0 (timeCount file t)

/-- No index into a table reaches 2³², as in every file below 4 GiB (`start_indexable`). -/
def Indexable : Prop :=
  t.entry * chunkCount file t < 2 ^ 32 ∧ 12 * runCount file t < 2 ^ 32 ∧ 8 * timeCount file t < 2 ^ 32

end Meaning

end R2Apps.Mp4Tables
