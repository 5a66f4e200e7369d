import R2Apps.BufferPrefixes
import R2Apps.ByteFiles

/-! The C library's buffered streams: `tcc/libc/stdio.c` over the descriptors of
`fd.c`, for a file (a descriptor above 2) opened for reading and writing. The
kernel's `read_file_at` and `write_file_at` act on the bytes of the file. -/
namespace R2Apps.TccStreams
open R2Apps.ByteMemory R2Apps.BufferPrefixes R2Apps.ByteFiles R2Apps.ByteFiles.PlainFile

def bufsiz : Nat := 4096

structure Fd where
  append : Bool -- O_APPEND
  off : Nat
  size : Option Nat -- none until something needs it
deriving DecidableEq

/-- `struct r2_file`. A file's `bufmode` is always `_IOFBF` and its `fd` above 2. -/
structure R2File where
  eof : Bool
  err : Bool
  reading : Bool -- buf holds bytes read ahead of the fd's offset
  writing : Bool -- buf holds bytes not written yet
  ungot : Option UInt8
  allocated : Bool
  buf : Memory
  pos : Nat
  len : Nat

structure State where
  file : Bytes
  fd : Fd
  f : R2File

section Descriptors

def existsAt (file : Bytes) (off : Nat) : Bool := (readAt file off 1).length == 1

def doubling (file : Bytes) : Nat → Nat → Nat → Nat × Nat
  | 0, lo, hi => (lo, hi)
  | fuel + 1, lo, hi => if existsAt file hi then doubling file fuel hi (hi * 2) else (lo, hi)

def halving (file : Bytes) : Nat → Nat → Nat → Nat
  | 0, _, hi => hi
  | fuel + 1, lo, hi =>
    if 1 < hi - lo then
      let mid := lo + (hi - lo) / 2
      if existsAt file mid then halving file fuel mid hi else halving file fuel lo mid
    else hi

/-- The kernel has no stat: the size is found by probing for the last byte. -/
def probedSize (file : Bytes) : Nat :=
  if existsAt file 0 then
    let (lo, hi) := doubling file file.length 0 1
    halving file hi lo hi
  else 0

def fileSize (s : State) : State × Nat :=
  match s.fd.size with
  | some n => (s, n)
  | none => ({ s with fd := { s.fd with size := some (probedSize s.file) } }, probedSize s.file)

def fdRead (s : State) (n : Nat) : State × Bytes :=
  let data := readAt s.file s.fd.off n
  ({ s with fd := { s.fd with off := s.fd.off + data.length } }, data)

def grown (size : Option Nat) (off : Nat) : Option Nat := size.map fun n => if n < off then off else n

def fdWrite (s : State) (data : Bytes) : State :=
  let s := if s.fd.append then
      let (s, n) := fileSize s
      { s with fd := { s.fd with off := n } }
    else s
  { s with
    file := writeAt s.file s.fd.off data
    fd := { s.fd with
      off := s.fd.off + data.length, size := grown s.fd.size (s.fd.off + data.length) } }

def lseek (s : State) (off : Int) (whence : Whence) : State × Option Nat :=
  let (s, base) := match whence with
    | .set => (s, 0)
    | .cur => (s, s.fd.off)
    | .fromEnd => fileSize s
  if base + off < 0 then (s, none)
  else ({ s with fd := { s.fd with off := (base + off).toNat } }, some (base + off).toNat)

end Descriptors

section Streams

/-- `malloc` is asked once, when the stream has no buffer yet. -/
def getBuf (s : State) (memory : Bool) : State × Bool :=
  if s.f.allocated then (s, true)
  else if memory then ({ s with f := { s.f with allocated := true } }, true)
  else ({ s with f := { s.f with err := true } }, false)

def writeAll (s : State) (data : Bytes) : State := if data = [] then s else fdWrite s data

/-- Read-ahead given back: the bytes not read yet and the one pushed back. -/
def giveBack (s : State) : State :=
  let ahead := s.f.len - s.f.pos + s.f.ungot.toList.length
  if ahead = 0 then s else (lseek s (-ahead) .cur).1

/-- Settle the buffer with the fd: write what is pending, or give back read-ahead. -/
def settle (s : State) : State :=
  let s := if s.f.writing then writeAll s (bytesAt s.f.buf 0 s.f.len)
    else if s.f.reading then giveBack s
    else s
  { s with f := { s.f with reading := false, writing := false, pos := 0, len := 0, ungot := none } }

def fflush (s : State) : State := settle s

def fclose (s : State) : Bytes := (settle s).file

def settleIf (flag : Bool) (s : State) : State := if flag then settle s else s

/-- `memcpy` into the buffer behind the bytes pending. -/
def hold (s : State) (data : Bytes) : State :=
  { s with f := { s.f with
      buf := put s.f.buf s.f.len data, len := s.f.len + data.length, writing := true } }

/-- The buffer is filled up with the first bytes (to `BUFSIZ`) and written. -/
def fill (s : State) (data : Bytes) : State :=
  let room := bufsiz - s.f.len
  settle { s with f := { s.f with
    buf := put s.f.buf s.f.len (data.take room), len := bufsiz, writing := true } }

def fwrite (s : State) (data : Bytes) (n : Nat) (memory : Bool) : State × Nat :=
  if data = [] then (s, 0)
  else
    let s := settleIf s.f.reading s
    if bufsiz ≤ data.length then (writeAll (settleIf s.f.writing s) data, n)
    else
      match getBuf s memory with
      | (s, false) => (s, 0)
      | (s, true) =>
        let room := bufsiz - s.f.len
        if room < data.length then (hold (fill s data) (data.drop room), n) else (hold s data, n)

def refill (s : State) (memory : Bool) : State × Bool :=
  match getBuf (settleIf s.f.writing s) memory with
  | (s, false) => (s, false)
  | (s, true) =>
    match fdRead s bufsiz with
    | (s, []) => ({ s with f := { s.f with eof := true, reading := false, pos := 0, len := 0 } }, false)
    | (s, data) => ({ s with f := { s.f with
        buf := put s.f.buf 0 data, pos := 0, len := data.length, reading := true } }, true)

def nextByte (s : State) : State × Option UInt8 :=
  ({ s with f := { s.f with pos := s.f.pos + 1 } }, some (s.f.buf s.f.pos))

def fgetc (s : State) (memory : Bool) : State × Option UInt8 :=
  match s.f.ungot with
  | some c => ({ s with f := { s.f with ungot := none } }, some c)
  | none =>
    if !s.f.reading || s.f.pos == s.f.len then
      match refill s memory with
      | (s, false) => (s, none)
      | (s, true) => nextByte s
    else nextByte s

/-- Big reads go straight to the caller's memory. -/
def bigRead (s : State) (n : Nat) : State × Bytes :=
  let s := settleIf s.f.writing s
  match fdRead { s with f := { s.f with reading := false } } n with
  | (s, []) => ({ s with f := { s.f with eof := true } }, [])
  | (s, data) => (s, data)

/-- The loop of `fread`. A round copies, reads past the buffer, or refills and is
followed by one that copies. -/
def freadLoop (total : Nat) (memory : Bool) : Nat → State → Bytes → State × Bytes
  | 0, s, got => (s, got)
  | fuel + 1, s, got =>
    if got.length < total then
      if s.f.reading && s.f.pos < s.f.len then
        let k := min (s.f.len - s.f.pos) (total - got.length)
        freadLoop total memory fuel { s with f := { s.f with pos := s.f.pos + k } }
          (got ++ bytesAt s.f.buf s.f.pos k)
      else if bufsiz ≤ total - got.length then
        match bigRead s (total - got.length) with
        | (s, []) => (s, got)
        | (s, data) => freadLoop total memory fuel s (got ++ data)
      else
        match refill s memory with
        | (s, false) => (s, got)
        | (s, true) => freadLoop total memory fuel s got
    else (s, got)

def fread (s : State) (size n : Nat) (memory : Bool) : State × Bytes :=
  if size * n = 0 then (s, [])
  else freadLoop (size * n) memory (2 * (size * n) + 1) { s with f := { s.f with ungot := none } }
    s.f.ungot.toList

/-- `c` is none for `EOF`. -/
def ungetc (s : State) (c : Option UInt8) : State × Option UInt8 :=
  match c with
  | none => (s, none)
  | some c =>
    if s.f.ungot.isSome then (s, none)
    else ({ s with f := { s.f with ungot := some c, eof := false } }, some c)

/-- The loop of `fgets`; nothing stored is the null pointer. -/
def fgets (memory : Bool) : Nat → State → State × Bytes
  | 0, s => (s, [])
  | n + 1, s =>
    match fgetc s memory with
    | (s, none) => (s, [])
    | (s, some c) =>
      if c = 10 then (s, [c])
      else ((fgets memory n s).1, c :: (fgets memory n s).2)

def fseek (s : State) (off : Int) (whence : Whence) : State × Bool :=
  match lseek (settle s) off whence with
  | (s, none) => (s, false)
  | (s, some _) => ({ s with f := { s.f with eof := false } }, true)

def ftell (s : State) : Int :=
  let pos : Int := s.fd.off
  let pos := if s.f.reading then pos - (s.f.len - s.f.pos : Nat)
    else if s.f.writing then pos + s.f.len
    else pos
  if s.f.ungot.isSome then pos - 1 else pos

end Streams

/-- The calls on a stream; `memory` is what `malloc` answers if it is asked. -/
inductive Op where
  | fread (size n : Nat) (memory : Bool)
  | fgetc (memory : Bool)
  | fgets (size : Nat) (memory : Bool)
  | ungetc (c : Option UInt8)
  | fwrite (data : Bytes) (n : Nat) (memory : Bool)
  | fputc (c : UInt8) (memory : Bool)
  | fseek (off : Int) (whence : Whence)
  | ftell
  | fflush

inductive Answer where
  | items (n : Nat) (bytes : Bytes)
  | byte (c : Option UInt8)
  | line (bytes : Bytes)
  | done (ok : Bool)
  | place (position : Int)
deriving DecidableEq

def step (s : State) : Op → State × Answer
  | .fread size n memory =>
    let r := fread s size n memory
    (r.1, .items (r.2.length / size) r.2)
  | .fgetc memory =>
    let r := fgetc s memory
    (r.1, .byte r.2)
  | .fgets size memory =>
    let r := fgets memory (size - 1) s
    (r.1, .line r.2)
  | .ungetc c =>
    let r := ungetc s c
    (r.1, .byte r.2)
  | .fwrite data n memory =>
    let r := fwrite s data n memory
    (r.1, .items r.2 [])
  | .fputc c memory =>
    let r := fwrite s [c] 1 memory
    (r.1, .byte (if r.2 = 1 then some c else none))
  | .fseek off whence =>
    let r := fseek s off whence
    (r.1, .done r.2)
  | .ftell => (s, .place (ftell s))
  | .fflush => (fflush s, .done true)

def run (s : State) : List Op → State × List Answer
  | [] => (s, [])
  | op :: ops =>
    let one := step s op
    let rest := run one.1 ops
    (rest.1, one.2 :: rest.2)

/-- A stream `fopen` has just returned: the file as it was or as `w` truncated it,
and a buffer whose memory nobody has written. -/
def opened (file : Bytes) (append : Bool) (size : Option Nat) (buf : Memory) : State where
  file := file
  fd := { append := append, off := 0, size := size }
  f :=
    { eof := false, err := false, reading := false, writing := false, ungot := none,
      allocated := false, buf := buf, pos := 0, len := 0 }

end R2Apps.TccStreams
