import Mathlib.Data.List.Basic

/-! Files as byte sequences: reading and writing at an offset, and an unbuffered
file with one position, a byte pushed back in front of it, and an append mode. -/
namespace R2Apps.ByteFiles

abbrev Bytes := List UInt8

def readAt (file : Bytes) (off n : Nat) : Bytes := (file.drop off).take n

/-- The file grows when it is too short; a gap reads as zeros. -/
def writeAt (file : Bytes) (off : Nat) (data : Bytes) : Bytes :=
  (file ++ List.replicate (off - file.length) 0).take off ++ data ++ file.drop (off + data.length)

section Writing
variable (file : Bytes) (off : Nat) (data more : Bytes)

theorem writeAt_length : (writeAt file off data).length = max file.length (off + data.length) := by
  simp only [writeAt, List.length_append, List.length_take, List.length_replicate, List.length_drop]
  omega

theorem before_length : ((file ++ List.replicate (off - file.length) 0).take off : Bytes).length = off := by
  simp only [List.length_take, List.length_append, List.length_replicate]
  omega

theorem writeAt_take : (writeAt file off data).take (off + data.length) =
    (file ++ List.replicate (off - file.length) 0).take off ++ data := by
  have front : ((file ++ List.replicate (off - file.length) 0).take off ++ data).length =
      off + data.length := by
    rw [List.length_append, before_length]
  rw [writeAt, ← front, List.take_left]

theorem writeAt_drop (n : Nat) : (writeAt file off data).drop (off + data.length + n) =
    file.drop (off + data.length + n) := by
  have front : ((file ++ List.replicate (off - file.length) 0).take off ++ data).length =
      off + data.length := by
    rw [List.length_append, before_length]
  rw [writeAt, List.drop_append, front, Nat.add_sub_cancel_left, List.drop_drop,
    List.drop_eq_nil_of_le (by omega), List.nil_append]

theorem writeAt_writeAt :
    writeAt (writeAt file off data) (off + data.length) more = writeAt file off (data ++ more) := by
  have reach : off + data.length ≤ (writeAt file off data).length := by
    rw [writeAt_length]
    omega
  have full : off + data.length - (writeAt file off data).length = 0 := by omega
  have all : off + (data ++ more).length = off + data.length + more.length := by
    rw [List.length_append, Nat.add_assoc]
  rw [writeAt, full, List.replicate_zero, List.append_nil, writeAt_take, writeAt_drop, writeAt, all,
    List.append_assoc _ data more]

end Writing

/-- An unbuffered file. The pushed-back byte stands in front of `place`, so the
position is one less while there is one. -/
structure PlainFile where
  bytes : Bytes
  place : Nat
  pushed : Option UInt8
  append : Bool

namespace PlainFile

inductive Whence where
  | set
  | cur
  | fromEnd
deriving DecidableEq

def back (f : PlainFile) : Nat := f.pushed.toList.length

def position (f : PlainFile) : Int := f.place - f.back

/-- What the next reads return. -/
def ahead (f : PlainFile) : Bytes := f.pushed.toList ++ f.bytes.drop f.place

def forget (f : PlainFile) : PlainFile := { f with place := f.place - f.back, pushed := none }

def read (f : PlainFile) (n : Nat) : PlainFile × Bytes :=
  let data := f.ahead.take n
  if n = 0 then (f, []) else ({ f with place := f.place + data.length - f.back, pushed := none }, data)

/-- A line: byte after byte up to and including the first newline, at most `n` bytes. -/
def readLine : Nat → PlainFile → PlainFile × Bytes
  | 0, f => (f, [])
  | n + 1, f =>
    match f.read 1 with
    | (f, b :: _) =>
      if b = 10 then (f, [b])
      else ((readLine n f).1, b :: (readLine n f).2)
    | (f, []) => (f, [])

def write (f : PlainFile) (data : Bytes) : PlainFile :=
  let start := if f.append then f.bytes.length else f.place - f.back
  { f with bytes := writeAt f.bytes start data, place := start + data.length, pushed := none }

def unget (f : PlainFile) (c : UInt8) : PlainFile × Bool :=
  if f.pushed.isSome then (f, false) else ({ f with pushed := some c }, true)

def target (f : PlainFile) (off : Int) : Whence → Int
  | .set => off
  | .cur => f.position + off
  | .fromEnd => f.bytes.length + off

/-- A seek before the start of the file fails and changes nothing. -/
def seek (f : PlainFile) (off : Int) (whence : Whence) : PlainFile × Bool :=
  if f.target off whence < 0 then (f, false)
  else ({ f with place := (f.target off whence).toNat, pushed := none }, true)

end PlainFile

section Reading
variable (file : Bytes) (off : Nat)

theorem readAt_length (n : Nat) : (readAt file off n).length = min n (file.length - off) := by
  simp [readAt]

theorem readAt_add (m n : Nat) : readAt file off (m + n) = readAt file off m ++ readAt file (off + m) n := by
  rw [readAt, List.take_add, readAt, readAt, List.drop_drop]

theorem readAt_end (beyond : file.length ≤ off) (n : Nat) : readAt file off n = [] := by
  rw [readAt, List.drop_eq_nil_of_le beyond, List.take_nil]

theorem readAt_self (n : Nat) : readAt file off (readAt file off n).length = readAt file off n := by
  rw [readAt, readAt, List.length_take]
  rcases Nat.le_total n (file.drop off).length with fits | long
  · rw [Nat.min_eq_left fits]
  · rw [Nat.min_eq_right long, List.take_length, List.take_of_length_le long]

theorem readAt_inside {m n : Nat} (within : m + n ≤ file.length - off) :
    (readAt file off (m + n)).drop m = readAt file (off + m) n := by
  rw [readAt_add]
  have length : (readAt file off m).length = m := by
    rw [readAt_length]
    omega
  exact List.drop_left' length

end Reading

namespace PlainFile
variable (f : PlainFile)

theorem write_write (first second : Bytes) : (f.write first).write second = f.write (first ++ second) := by
  obtain ⟨bytes, place, pushed, append⟩ := f
  cases append
  · simp [write, back, writeAt_writeAt, Nat.add_assoc]
  · have length : (writeAt bytes bytes.length first).length = bytes.length + first.length := by
      rw [writeAt_length]
      omega
    simp [write, length, writeAt_writeAt, Nat.add_assoc]

theorem read_unpushed (unpushed : f.pushed = none) (n : Nat) :
    f.read n = ({ f with place := f.place + (readAt f.bytes f.place n).length },
      readAt f.bytes f.place n) := by
  obtain ⟨bytes, place, pushed, append⟩ := f
  obtain rfl : pushed = none := unpushed
  by_cases nothing : n = 0
  · subst nothing
    simp [read, readAt]
  · simp [read, nothing, ahead, back, readAt]

theorem read_pushed {c : UInt8} (pushed : f.pushed = some c) (n : Nat) :
    f.read (n + 1) = ({ f with place := f.place + (readAt f.bytes f.place n).length, pushed := none },
      c :: readAt f.bytes f.place n) := by
  simp only [read, ahead, back, pushed, readAt]
  simp

end PlainFile
end R2Apps.ByteFiles
