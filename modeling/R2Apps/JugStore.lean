import Mathlib.Logic.Function.Basic
import R2Apps.JugLists

/-! The side of `jug/store.cpp` that touches `/mnt/tmp/jug`, over file-system calls
any of which may fail. A file is named by the path jug spells for it. `fault k`
says what becomes of the k-th call: it goes through, or it fails, a read or a
write after so many bytes. A failed call leaves the disk as it was, but for the
bytes a write got to; a rename refuses a target that exists. -/
namespace R2Apps.JugStore
open Sha256 JugLists

inductive Entry where
  | file (bytes : List UInt8)
  | dir

structure Kernel where
  fault : Nat → Option Nat
  /-- what the k-th call reports as free -/
  free : Nat → Nat
  /-- whether the heap has room for a chunk at the k-th call -/
  heap : Nat → Bool

structure World where
  files : Text → Option Entry
  /-- `/mnt/tmp` is mounted -/
  ram : Bool := true
  calls : Nat := 0

def World.called (w : World) : World := { w with calls := w.calls + 1 }

def World.set (w : World) (path : Text) (entry : Option Entry) : World :=
  { w with files := Function.update w.files path entry }

def dirPath : Text := text "/mnt/tmp/jug"
def registryPath : Text := text "/mnt/tmp/jug/JUG.REG"
def chunk : Nat := 32 * 1024

section Calls
variable (kernel : Kernel)

def sizeOfFile (w : World) (path : Text) : World × Option Nat :=
  match kernel.fault w.calls, w.files path with
  | none, some (.file bytes) => (w.called, some bytes.length)
  | _, _ => (w.called, none)

def exists_ (w : World) (path : Text) : World × Bool :=
  ((sizeOfFile kernel w path).1, (sizeOfFile kernel w path).2.isSome)

def remove (w : World) (path : Text) : World × Bool :=
  match kernel.fault w.calls, w.files path with
  | none, some (.file _) => (w.called.set path none, true)
  | _, _ => (w.called, false)

/-- `bytes` with `data` written over them from `offset` on; what lies past the
end of `data` is left. -/
def overwrite (bytes data : List UInt8) (offset : Nat) : List UInt8 :=
  bytes.take offset ++ List.replicate (offset - bytes.length) 0 ++ data ++
    bytes.drop (offset + data.length)

/-- The bytes a write to `path` finds; a directory cannot be written. -/
def opened (w : World) (path : Text) : Option (List UInt8) :=
  match w.files path with
  | some (.file bytes) => some bytes
  | some .dir => none
  | none => some []

/-- Returns the number of bytes written, or -1. -/
def writeAt (w : World) (path : Text) (data : List UInt8) (offset : Nat) : World × Int :=
  if data.isEmpty then (w, 0)
  else match opened w path, kernel.fault w.calls with
    | none, _ => (w.called, -1)
    | some old, none =>
        (w.called.set path (some (.file (overwrite old data offset))), data.length)
    | some old, some n =>
        (w.called.set path (some (.file (overwrite old (data.take n) offset))),
          if n < data.length then n else -1)

def readAt (w : World) (path : Text) (want offset : Nat) : World × List UInt8 :=
  match w.files path with
  | some (.file bytes) =>
      let there := (bytes.drop offset).take want
      match kernel.fault w.calls with
      | none => (w.called, there)
      | some n => (w.called, there.take n)
  | _ => (w.called, [])

def rename (w : World) (source target : Text) : World × Bool :=
  match kernel.fault w.calls, w.files source, w.files target with
  | none, some entry, none => ((w.called.set source none).set target (some entry), true)
  | _, _, _ => (w.called, false)

def usage (w : World) : World × Option Nat :=
  match kernel.fault w.calls with
  | none => (w.called, some (kernel.free w.calls))
  | some _ => (w.called, none)

def mounted (w : World) : World × Bool :=
  (w.called, (kernel.fault w.calls).isNone && w.ram)

def makeDir (w : World) (path : Text) : World × Bool :=
  match kernel.fault w.calls, w.files path with
  | none, none => (w.called.set path (some .dir), true)
  | _, _ => (w.called, false)

/-- `list` finds the directory, or it is made. -/
def ensureDir (w : World) : World × Bool :=
  match kernel.fault w.calls, w.files dirPath with
  | none, some .dir => (w.called, true)
  | _, _ => makeDir kernel w.called dirPath

def writeChunks : Nat → World → Text → List UInt8 → Nat → World × Bool
  | 0, w, _, _, _ => (w, true)
  | fuel + 1, w, path, rest, done =>
      if rest.isEmpty then (w, true)
      else
        let piece := rest.take chunk
        let (w, put) := writeAt kernel w path piece done
        if put ≠ piece.length then ((remove kernel w path).1, false)
        else writeChunks fuel w path (rest.drop chunk) (done + piece.length)

/-- `exists(path) && !remove(path)`, the other way around. -/
def clearAway (w : World) (path : Text) : World × Bool :=
  let (w, there) := exists_ kernel w path
  if there then remove kernel w path else (w, true)

def replaceFile (w : World) (path : Text) (data : List UInt8) : World × Bool :=
  let (w, cleared) := clearAway kernel w path
  if !cleared then (w, false) else writeChunks kernel data.length w path data 0

def hashLoop (path : Text) (size cap : Nat) : Nat → World → Sha → Nat → World × Sha × Nat
  | 0, w, sha, off => (w, sha, off)
  | fuel + 1, w, sha, off =>
      if off < size then
        let (w, got) := readAt kernel w path (min (size - off) cap) off
        if got.isEmpty then (w, sha, off)
        else hashLoop path size cap fuel w (update sha got) (off + got.length)
      else (w, sha, off)

def hashFile (w : World) (path : Text) (size : Nat) : World × Digest × Bool :=
  let cap := if kernel.heap w.calls then chunk else 512
  let (w, sha, off) := hashLoop kernel path size cap size w {} 0
  (w, finish sha, off == size)

def save (w : World) (reg : Registry) : World × Bool :=
  let (w, there) := mounted kernel w
  if !there then (w, false)
  else
    let (w, made) := ensureDir kernel w
    if !made then (w, false) else replaceFile kernel w registryPath reg.serialize

end Calls

def jugPath (name : Text) : Text :=
  let out := scat (scopy dirPath pathCap) (text "/") pathCap
  scat (out ++ (name.map upper).take (pathCap - 1 - out.length)) (text ".ELF") pathCap

def sibling (path extension : Text) : Text :=
  scat (scopy (path.take (path.length - 3)) pathCap) extension pathCap

section Install
variable (kernel : Kernel)

/-- What `install` finds wrong with the download before it touches the disk. -/
def refusal (pkg : Package) (data : List UInt8) : Option String :=
  if !validName pkg.name then some "not a program name"
  else if pkg.size.any (· ≠ data.length) then some "its size is not the one the list gives"
  else if sha data ≠ pkg.sum then some "its SHA-256 is not the one the list gives"
  else elfProblem data

/-- The staged copy has the right size and reads back with the right sum. -/
def readsBack (w : World) (staged : Text) (data : List UInt8) : World × Bool :=
  let (w, stored) := sizeOfFile kernel w staged
  if stored ≠ some data.length then (w, false)
  else
    let (w, back, whole) := hashFile kernel w staged data.length
    (w, whole && back = sha data)

/-- Writes and verifies the second copy. Returns whether an older download was
seen, or why not. -/
def stage (w : World) (path staged : Text) (data : List UInt8) : World × Except String Bool :=
  let (w, cleared) := clearAway kernel w staged
  if !cleared then (w, .error "cannot clear the previous staged download")
  else
    let (w, older) := sizeOfFile kernel w path
    let (w, use) := usage kernel w
    if use.any (· < data.length) then (w, .error "there is not enough room on /mnt/tmp")
    else
      let (w, written) := replaceFile kernel w staged data
      if !written then (w, .error "it could not be written to /mnt/tmp/jug")
      else
        let (w, good) := readsBack kernel w staged data
        if !good then
          ((remove kernel w staged).1,
            .error "it did not read back from /mnt/tmp/jug as it was written")
        else (w, .ok older.isSome)

def keepOlder (w : World) (path backup : Text) : World × Bool :=
  let (w, cleared) := clearAway kernel w backup
  if !cleared then (w, false) else rename kernel w path backup

/-- Renames the staged copy into place, or puts the older one back. -/
def publish (w : World) (path staged backup : Text) (older : Bool) : World × Option String :=
  let (w, kept) := if older then keepOlder kernel w path backup else (w, true)
  if !kept then
    ((remove kernel w staged).1, some "cannot keep the older download before replacement")
  else
    let (w, published) := rename kernel w staged path
    if !published then
      let (w, restored) := if older then rename kernel w backup path else (w, true)
      ((remove kernel w staged).1,
        some (if restored then "cannot publish the download; the older copy was kept"
          else "cannot publish or restore the download; the older copy is in .BAK"))
    else (if older then (remove kernel w backup).1 else w, none)

def install (w : World) (reg : Registry) (pkg : Package) (data : List UInt8) :
    World × Registry × Option String :=
  match refusal pkg data with
  | some why => (w, reg, some why)
  | none =>
      let (w, there) := mounted kernel w
      if !there then (w, reg, some "there is no RAM disk at /mnt/tmp")
      else
        let (w, made) := ensureDir kernel w
        if !made then (w, reg, some "cannot make /mnt/tmp/jug")
        else
          let path := jugPath pkg.name
          let staged := sibling path (text "NEW")
          let backup := sibling path (text "BAK")
          match stage kernel w path staged data with
          | (w, .error why) => (w, reg, some why)
          | (w, .ok older) =>
              match publish kernel w path staged backup older with
              | (w, some why) => (w, reg, some why)
              | (w, none) =>
                  let reg := reg.put ⟨pkg.name, sha data, data.length, path⟩
                  ((save kernel w reg).1, reg, none)

end Install

end R2Apps.JugStore
