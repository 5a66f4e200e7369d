import R2Apps.PartialReads

/-! The boxes of an MP4, `web/mp4.cpp`: `nextBox`, `child` and `findVideo`. For every
byte string the walks over them come to an end and read inside it. -/
namespace R2Apps.Mp4Boxes
open PartialReads

abbrev Program := Reading String

/-- A box: its type and where what is inside it begins and ends. -/
structure Box where
  type : Nat
  p : Nat
  e : Nat
deriving DecidableEq

def Box.len (b : Box) : Nat := b.e - b.p

/-- The four letters of a type. -/
def fourcc (a b c d : UInt8) : Nat := bigEndian [a, b, c, d]

def moovType : Nat := fourcc 0x6D 0x6F 0x6F 0x76
def ftypType : Nat := fourcc 0x66 0x74 0x79 0x70
def trakType : Nat := fourcc 0x74 0x72 0x61 0x6B
def mdiaType : Nat := fourcc 0x6D 0x64 0x69 0x61
def hdlrType : Nat := fourcc 0x68 0x64 0x6C 0x72
def videType : Nat := fourcc 0x76 0x69 0x64 0x65
def mdhdType : Nat := fourcc 0x6D 0x64 0x68 0x64
def minfType : Nat := fourcc 0x6D 0x69 0x6E 0x66
def stblType : Nat := fourcc 0x73 0x74 0x62 0x6C
def stsdType : Nat := fourcc 0x73 0x74 0x73 0x64
def avcCType : Nat := fourcc 0x61 0x76 0x63 0x43
def avc1Type : Nat := fourcc 0x61 0x76 0x63 0x31
def avc3Type : Nat := fourcc 0x61 0x76 0x63 0x33
def hvc1Type : Nat := fourcc 0x68 0x76 0x63 0x31
def hev1Type : Nat := fourcc 0x68 0x65 0x76 0x31

section Walking

/-- A box of that size whose content begins `head` bytes behind `from_`. -/
def boxOf (file : Bytes) (from_ end_ head size : Nat) : Program (Option Box) := do
  if size < head ∨ size > end_ - from_ then return none
  return some ⟨← be file (from_ + 4) 4, from_ + head, from_ + size⟩

def nextBox (file : Bytes) (from_ end_ : Nat) : Program (Option Box) := do
  if end_ - from_ < 8 then return none
  let size ← be file from_ 4
  if size = 1 then
    if end_ - from_ < 16 then return none
    boxOf file from_ end_ 16 (← be file (from_ + 8) 8)
  else if size = 0 then boxOf file from_ end_ 8 (end_ - from_)
  else boxOf file from_ end_ 8 size

def childFrom (file : Bytes) (end_ type : Nat) : Nat → Nat → Program (Option Box)
  | 0, _ => outside
  | turns + 1, from_ => do
    match ← nextBox file from_ end_ with
    | none => return none
    | some b => if b.type = type then return some b else childFrom file end_ type turns b.e

/-- The first box of `type` directly inside. Each turn takes a byte at least. -/
def child (file : Bytes) (p e type : Nat) : Program (Option Box) := childFrom file e type (e - p + 1) p

def childIn (file : Bytes) (parent : Option Box) (type : Nat) : Program (Option Box) :=
  match parent with
  | some b => child file b.p b.e type
  | none => return none

end Walking

section Finding

structure Track where
  stbl : Box
  avcC : Box
  timescale : Nat
  w : Nat
  h : Nat
  codec : Nat
deriving DecidableEq

def noIndex : String := "an MP4 without its index (moov)"
def notMp4 : String := "not an MP4"
def brokenTrack : String := "an MP4 with a broken video track"
def h265 : String := "H.265 video, past this decoder"
def notH264 : String := "video that is not H.264"
def noVideo : String := "an MP4 with no video in it"

/-- Whether the track's handler is "vide", with its mdia box. -/
def handles (file : Bytes) (trak : Box) : Program (Bool × Option Box) := do
  let mdia ← childIn file (some trak) mdiaType
  match ← childIn file mdia hdlrType with
  | none => return (false, mdia)
  | some hdlr =>
    if hdlr.len < 12 then return (false, mdia)
    return ((← be file (hdlr.p + 8) 4) = videType, mdia)

def timescaleOf (file : Bytes) : Option Box → Program Nat
  | none => return 0
  | some mdhd =>
    if mdhd.len < 24 then return 0
    else do be file (mdhd.p + if (← be file mdhd.p 1) = 1 then 20 else 12) 4

/-- The first sample entry of `stsd`: 78 bytes of fields, the width and height among
them, then boxes of its own. -/
def entryOf (file : Bytes) : Option Box → Program Box
  | none => throw brokenTrack
  | some stsd => do
    if stsd.len < 8 + 8 + 78 then throw brokenTrack
    match ← nextBox file (stsd.p + 8) stsd.e with
    | none => throw brokenTrack
    | some entry => if entry.len < 78 then throw brokenTrack else return entry

/-- What a video track says. -/
def videoTrack (file : Bytes) (mdia : Option Box) : Program Track := do
  let timescale ← timescaleOf file (← childIn file mdia mdhdType)
  let stbl ← childIn file (← childIn file mdia minfType) stblType
  let entry ← entryOf file (← childIn file stbl stsdType)
  let w ← be file (entry.p + 24) 2
  let h ← be file (entry.p + 26) 2
  let avcC ← child file (entry.p + 78) entry.e avcCType
  match avcC with
  | none => throw (if entry.type = hvc1Type ∨ entry.type = hev1Type then h265 else notH264)
  | some avcC =>
    if entry.type ≠ avc1Type ∧ entry.type ≠ avc3Type then
      throw (if entry.type = hvc1Type ∨ entry.type = hev1Type then h265 else notH264)
    match stbl with
    | none => throw brokenTrack
    | some stbl =>
      if timescale = 0 then throw brokenTrack
      return ⟨stbl, avcC, timescale, w, h, entry.type⟩

def trakFrom (file : Bytes) (end_ : Nat) : Nat → Nat → Program Track
  | 0, _ => outside
  | turns + 1, from_ => do
    match ← nextBox file from_ end_ with
    | none => throw noVideo
    | some trak =>
      if trak.type ≠ trakType then trakFrom file end_ turns trak.e
      else do
        let (video, mdia) ← handles file trak
        if video then videoTrack file mdia else trakFrom file end_ turns trak.e

/-- The first track whose handler is "vide", or why not. -/
def findVideo (file : Bytes) : Program Track := do
  match ← child file 0 file.length moovType with
  | none =>
    let ftyp ← child file 0 file.length ftypType
    throw (if ftyp.isSome then noIndex else notMp4)
  | some moov => trakFrom file moov.e (moov.e - moov.p + 1) moov.p

end Finding

/-! ## Inside the file -/

def Box.Within (b : Box) (from_ end_ : Nat) : Prop := from_ ≤ b.p ∧ b.p ≤ b.e ∧ b.e ≤ end_

section Inside
variable {file : Bytes}

theorem boxOf_within {from_ end_ head size : Nat} (inside : end_ ≤ file.length) (room : head ≤ end_ - from_)
    (long : 8 ≤ head) : Yields (boxOf file from_ end_ head size) fun r =>
      ∀ b, r = some b → b.Within (from_ + 8) end_ := by
  unfold boxOf
  apply Yields.ite
  · exact fun _ => Yields.pure fun b is => (nomatch is)
  · intro sized
    apply Yields.bind (Yields.be (by omega))
    rintro type -
    apply Yields.pure
    rintro _ ⟨⟩
    refine ⟨?_, ?_, ?_⟩ <;> (dsimp only; omega)

theorem nextBox_within {from_ end_ : Nat} (inside : end_ ≤ file.length) :
    Yields (nextBox file from_ end_) fun r =>
    ∀ b, r = some b → b.Within (from_ + 8) end_ := by
  unfold nextBox
  apply Yields.ite
  · exact fun _ => Yields.pure fun b is => (nomatch is)
  · intro headed
    apply Yields.bind (Yields.be (by omega))
    rintro size -
    apply Yields.ite
    · intro _
      apply Yields.ite
      · exact fun _ => Yields.pure fun b is => (nomatch is)
      · intro wide
        apply Yields.bind (Yields.be (by omega))
        exact fun _ _ => boxOf_within inside (by omega) (by omega)
    · intro _
      apply Yields.ite
      · exact fun _ => boxOf_within inside (by omega) (Nat.le_refl 8)
      · exact fun _ => boxOf_within inside (by omega) (Nat.le_refl 8)

theorem childFrom_within {end_ type : Nat} (inside : end_ ≤ file.length) (turns : Nat) :
    ∀ from_, end_ - from_ < turns →
    Yields (childFrom file end_ type turns from_) fun r => ∀ b, r = some b → b.Within from_ end_ := by
  induction turns with
  | zero => exact fun from_ enough => absurd enough (Nat.not_lt_zero _)
  | succ turns ih =>
    intro from_ enough
    rw [childFrom]
    apply Yields.bind (nextBox_within inside)
    intro r within
    cases r with
    | none => exact Yields.pure fun b is => (nomatch is)
    | some b =>
      obtain ⟨after, long, ends⟩ := within b rfl
      apply Yields.ite
      · intro _
        apply Yields.pure
        rintro _ ⟨⟩
        exact ⟨by omega, long, ends⟩
      · intro _
        apply (ih b.e (by omega)).mono
        intro r later k is
        obtain ⟨after', long', ends'⟩ := later k is
        exact ⟨by omega, long', ends'⟩

theorem child_within {p e type : Nat} (inside : e ≤ file.length) : Yields (child file p e type) fun r =>
    ∀ b, r = some b → b.Within p e :=
  childFrom_within inside _ p (by omega)

/-- A box that is there at all lies in the file. -/
def InFile (file : Bytes) (r : Option Box) : Prop := ∀ b, r = some b → b.Within 0 file.length

theorem childIn_within {parent : Option Box} {type : Nat} (inside : InFile file parent) :
    Yields (childIn file parent type) (InFile file) := by
  cases parent with
  | none => exact Yields.pure fun b is => (nomatch is)
  | some b =>
    obtain ⟨-, -, ends⟩ := inside b rfl
    apply (child_within ends).mono
    intro r within k is
    obtain ⟨-, long', ends'⟩ := within k is
    exact ⟨Nat.zero_le _, long', by omega⟩

theorem handles_within {trak : Box} (inside : trak.Within 0 file.length) :
    Yields (handles file trak) fun r => InFile file r.2 := by
  unfold handles
  apply Yields.bind (childIn_within (by rintro _ ⟨⟩; exact inside))
  intro mdia within
  apply Yields.bind (childIn_within within)
  intro hdlr there
  cases hdlr with
  | none => exact Yields.pure within
  | some hdlr =>
    obtain ⟨-, long, ends⟩ := there hdlr rfl
    apply Yields.ite
    · exact fun _ => Yields.pure within
    · intro sized
      unfold Box.len at sized
      apply Yields.bind (Yields.be (by omega))
      exact fun _ _ => Yields.pure within

theorem timescaleOf_within {mdhd : Option Box} (inside : InFile file mdhd) :
    Yields (timescaleOf file mdhd) (· < 2 ^ 32) := by
  cases mdhd with
  | none => exact Yields.pure (by decide)
  | some mdhd =>
    obtain ⟨-, long, ends⟩ := inside mdhd rfl
    unfold timescaleOf
    apply Yields.ite
    · exact fun _ => Yields.pure (by decide)
    · intro sized
      unfold Box.len at sized
      apply Yields.bind (Yields.be (by omega))
      intro version _
      have room : mdhd.p + (if version = 1 then 20 else 12) + 4 ≤ file.length := by split <;> omega
      apply (Yields.be room).mono
      rintro _ rfl
      exact valueAt_lt ..

theorem entryOf_within {stsd : Option Box} (inside : InFile file stsd) :
    Yields (entryOf file stsd) fun entry => entry.Within 0 file.length ∧ 78 ≤ entry.len := by
  cases stsd with
  | none => exact Yields.throw _
  | some stsd =>
    obtain ⟨-, long, ends⟩ := inside stsd rfl
    unfold entryOf
    apply Yields.ite
    · exact fun _ => Yields.throw _
    · intro _
      apply Yields.bind (nextBox_within ends)
      intro entry within
      cases entry with
      | none => exact Yields.throw _
      | some entry =>
        obtain ⟨-, long', ends'⟩ := within entry rfl
        apply Yields.ite
        · exact fun _ => Yields.throw _
        · exact fun sized => Yields.pure ⟨⟨Nat.zero_le _, long', by omega⟩, by omega⟩

structure Track.Sound (file : Bytes) (t : Track) : Prop where
  stbl : t.stbl.Within 0 file.length
  avcC : t.avcC.Within 0 file.length
  ticking : 0 < t.timescale

theorem videoTrack_sound {mdia : Option Box} (inside : InFile file mdia) :
    Yields (videoTrack file mdia) (Track.Sound file) := by
  unfold videoTrack
  apply Yields.bind (childIn_within inside)
  intro mdhd headed
  apply Yields.bind (timescaleOf_within headed)
  rintro timescale -
  apply Yields.bind (childIn_within inside)
  intro minf minfInside
  apply Yields.bind (childIn_within minfInside)
  intro stbl tables
  apply Yields.bind (childIn_within tables)
  intro stsd described
  apply Yields.bind (entryOf_within described)
  rintro entry ⟨⟨-, long, ends⟩, sized⟩
  unfold Box.len at sized
  apply Yields.bind (Yields.be (by omega))
  rintro w -
  apply Yields.bind (Yields.be (by omega))
  rintro h -
  apply Yields.bind (child_within ends)
  intro avcC settings
  cases avcC with
  | none => exact Yields.throw _
  | some avcC =>
    obtain ⟨-, long', ends'⟩ := settings avcC rfl
    apply Yields.ite
    · exact fun _ => Yields.throw _
    · intro _
      cases stbl with
      | none => exact Yields.throw _
      | some stbl =>
        apply Yields.ite
        · exact fun _ => Yields.throw _
        · intro ticking
          apply Yields.pure
          exact ⟨tables stbl rfl, ⟨Nat.zero_le _, long', Nat.le_trans ends' ends⟩, Nat.pos_of_ne_zero ticking⟩

theorem trakFrom_sound {end_ : Nat} (inside : end_ ≤ file.length) (turns : Nat) :
    ∀ from_, end_ - from_ < turns →
    Yields (trakFrom file end_ turns from_) (Track.Sound file) := by
  induction turns with
  | zero => exact fun from_ enough => absurd enough (Nat.not_lt_zero _)
  | succ turns ih =>
    intro from_ enough
    rw [trakFrom]
    apply Yields.bind (nextBox_within inside)
    intro trak within
    cases trak with
    | none => exact Yields.throw _
    | some trak =>
      obtain ⟨after, long, ends⟩ := within trak rfl
      have rest := ih trak.e (by omega)
      apply Yields.ite
      · exact fun _ => rest
      · intro _
        apply Yields.bind (handles_within ⟨Nat.zero_le _, long, by omega⟩)
        rintro ⟨video, mdia⟩ there
        apply Yields.ite
        · exact fun _ => videoTrack_sound there
        · exact fun _ => rest

theorem findVideo_sound (file : Bytes) : Yields (findVideo file) (Track.Sound file) := by
  unfold findVideo
  apply Yields.bind (child_within (Nat.le_refl _))
  intro moov within
  cases moov with
  | none =>
    apply Yields.bind (child_within (Nat.le_refl _))
    exact fun _ _ => Yields.throw _
  | some moov =>
    obtain ⟨-, -, ends⟩ := within moov rfl
    exact trakFrom_sound ends _ moov.p (by omega)

end Inside

end R2Apps.Mp4Boxes
