import Mathlib.Data.List.Lex
import R2Apps.JugInstall

/-! What jug knows of the programs on the machine: `Model` of `jug/store.cpp`, for
any number of jug processes over one disk. A step is one call of one process.

The boot medium is fixed; what a directory lists is the step's input, and so is
how reading or saving the registry ends. Memory does not run out, so `Registry.put`
never fails. `JUG.REG` is kept as the records it holds and a
catalog as what parsing its text gives; `SUMS.TXT`, the running tasks and the
configuration other than the list are left out. `scanned`, `reads` and `installed`
are not in the source: the last scan of each process, what it has read to hash it
since then, and the record of each program's last install. -/
namespace R2Apps.JugModel
open Sha256 JugLists JugStore JugInstall

inductive Origin where
  | jug | tar | iso
  deriving DecidableEq

def Origin.dir : Origin → Text
  | .jug => dirPath
  | .tar => text "/mnt/tar/bin"
  | .iso => text "/mnt/iso/bin"

/-- The kernel's search, the working directory aside. -/
def searchOrder : List Origin := [.jug, .tar, .iso]

structure DirEntry where
  name : Text
  isDir : Bool
  size : Nat

structure Local where
  name : Text
  origin : Origin
  path : Text
  size : Nat
  deriving DecidableEq

/-- The shipped programs: what their directories list and what reading a path gives. -/
structure Media where
  tar : List DirEntry
  iso : List DirEntry
  bytes : Text → Option (List UInt8)

/-- What the directories said at one scan; `none` for a RAM disk that is not there. -/
structure Scan where
  jug : Option (List DirEntry) := none
  tar : Bool := false
  iso : Bool := false

def listing (media : Media) (scan : Scan) : Origin → List DirEntry
  | .jug => scan.jug.getD []
  | .tar => if scan.tar then media.tar else []
  | .iso => if scan.iso then media.iso else []

/-- What stands before and after the last `c`. -/
def splitLast (c : UInt8) (t : Text) : Option (Text × Text) :=
  match t.reverse.span (· ≠ c) with
  | (_, []) => none
  | (tail, _ :: head) => some (head.reverse, tail.reverse)

/-- A file name without the version number a CD adds. -/
def withoutVersion (file : Text) : Text := file.takeWhile (· ≠ 59)

def programName (file : Text) : Option Text :=
  let file := match splitLast 47 file with
    | some (_, base) => base
    | none => file
  match splitLast 46 (withoutVersion file) with
  | none => none
  | some (base, extension) =>
      if ieq extension (text "elf") && validName base then some (base.map lower) else none

def pathIn (o : Origin) (file : Text) : Text :=
  scat (scat (scopy o.dir pathCap) (text "/") pathCap) (withoutVersion file) pathCap

def localAt (o : Origin) (e : DirEntry) : Option Local :=
  if e.isDir then none
  else (programName e.name).map fun name => ⟨name, o, pathIn o e.name, e.size⟩

def candidates (media : Media) (scan : Scan) : List Local :=
  searchOrder.flatMap fun o => (listing media scan o).filterMap (localAt o)

/-- An earlier directory has it: that copy is the one that runs. -/
def keepFirst (out : List Local) (l : Local) : List Local :=
  if out.any fun o => o.name == l.name then out else out ++ [l]

def scanLocal (media : Media) (scan : Scan) : List Local :=
  ((candidates media scan).foldl keepFirst []).mergeSort fun a b => decide (a.name ≤ b.name)

structure Catalog where
  packages : List Package := []
  updated : Text := []

def Catalog.find (c : Catalog) (name : Text) : Option Package :=
  c.packages.find? fun p => ieq p.name name

/-- `Catalog::same`. -/
def Catalog.same (a b : Catalog) : Bool :=
  a.updated == b.updated &&
    (a.packages.map fun p => (p.name, p.path, p.sum, p.size)) ==
      b.packages.map fun p => (p.name, p.path, p.sum, p.size)

inductive State where
  | unknown | current | outdated | available | gone
  deriving DecidableEq

def noDigest : Digest := ⟨List.replicate 32 0, by simp⟩

structure Row where
  name : Text
  pkg : Option Nat := none
  here : Option Nat := none
  hashed : Bool := false
  unreadable : Bool := false
  sum : Digest := noDigest
  state : State := .unknown

structure Model where
  catalog : Catalog := {}
  registry : Registry := []
  locals : List Local := []
  rows : List Row := []
  haveList : Bool := false
  registryDirty : Bool := false

def judge (catalog : Catalog) (r : Row) : Row :=
  { r with state := match r.pkg.bind fun i => catalog.packages[i]? with
      | none => .gone
      | some p => match r.here with
          | none => .available
          | some _ =>
              if !r.hashed then .unknown else if r.sum = p.sum then .current else .outdated }

/-- The sum the registry has for a shipped copy; downloads are always read again. -/
def knownSum (reg : Registry) (l : Local) : Option Digest :=
  if l.origin = .jug then none
  else match reg.find l.name with
    | some r => if r.size = l.size ∧ ieq r.path l.path then some r.sum else none
    | none => none

def localOf (locals : List Local) (name : Text) : Option Nat :=
  locals.findIdx? fun l => l.name == name

def bareRows (m : Model) : List Row :=
  (m.catalog.packages.zipIdx.map fun e =>
    { name := e.1.name, pkg := some e.2, here := localOf m.locals e.1.name }) ++
  m.locals.zipIdx.filterMap fun e =>
    if e.1.origin = .jug ∧ (m.catalog.find e.1.name).isNone then
      some { name := e.1.name, here := some e.2 }
    else none

def recallRow (m : Model) (r : Row) : Row :=
  match (r.here.bind fun j => m.locals[j]?).bind (knownSum m.registry) with
  | some sum => { r with sum := sum, hashed := true }
  | none => r

def rebuild (m : Model) : Model :=
  { m with rows := (bareRows m).map fun r => judge m.catalog (recallRow m r) }

def rescan (media : Media) (scan : Scan) (m : Model) : Model :=
  rebuild { m with locals := scanLocal media scan }

/-- What `hash_file` hashes of a file that can be read as `reading`: its first `size`
bytes, if it has so many. -/
def readWhole (reading : Option (List UInt8)) (size : Nat) : Option (List UInt8) :=
  if size ≤ (reading.getD []).length then some ((reading.getD []).take size) else none

/-- The bytes hashed are returned too. -/
def localDigest (reading : Option (List UInt8)) (reg : Registry) (l : Local) :
    Option (Digest × Registry × Option (List UInt8)) :=
  match knownSum reg l with
  | some sum => some (sum, reg, none)
  | none => match readWhole reading l.size with
      | none => none
      | some read => some (sha read, reg.put ⟨l.name, sha read, l.size, l.path⟩, some read)

def nextRow (m : Model) : Option Nat :=
  m.rows.findIdx? fun r => r.here.isSome && !r.hashed && !r.unreadable && r.pkg.isSome

/-- What a registry's text holds when it is cut: the first `n` records, and one more
with the first `k` bytes of its path if the cut falls there. -/
def cutAt (reg : Registry) (n k : Nat) : Registry :=
  reg.take n ++ if k = 0 then [] else reg[n]?.toList.map fun r => { r with path := r.path.take k }

/-- How saving the registry ends: it is written, or it is not, and then the older
file is still there, or there is none, or a part of the new one is left. -/
inductive Saved where
  | written | unchanged | removed
  | cut (n k : Nat)
  deriving DecidableEq

def Saved.apply (saved : Saved) (old : Option Registry) (reg : Registry) : Option Registry :=
  match saved with
  | .written => some reg
  | .unchanged => old
  | .removed => none
  | .cut n k => some (cutAt reg n k)

/-- How an install that was not refused ends. -/
inductive Ending where
  | done | kept | lost
  deriving DecidableEq

structure Machine where
  models : Nat → Model := fun _ => {}
  downloads : Text → Option (List UInt8) := fun _ => none
  registry : Option Registry := none
  scanned : Nat → Scan := fun _ => {}
  reads : List (Nat × Local × List UInt8) := []
  installed : Text → Option Record := fun _ => none

def Machine.set (s : Machine) (i : Nat) (m : Model) : Machine :=
  { s with models := Function.update s.models i m }

def Machine.reading (media : Media) (s : Machine) (fails : Bool) (l : Local) : Option (List UInt8) :=
  if fails then none
  else if l.origin = .jug then s.downloads l.path else media.bytes l.path

/-- How reading the registry ends: all of it is read, or only what its first bytes hold. -/
inductive Reading where
  | whole
  | cut (n k : Nat)
  deriving DecidableEq

def loaded (reading : Reading) (file : Option Registry) : Registry :=
  match reading with
  | .whole => file.getD []
  | .cut n k => cutAt (file.getD []) n k

inductive Op where
  /-- `load_list` leaves the catalog alone, or parses what is kept -/
  | open_ (i : Nat) (reading : Reading) (kept : Option (Catalog × Bool)) (scan : Scan)
  | takeList (i : Nat) (fresh : Option Catalog) (asked : Bool)
  | rescan (i : Nat) (scan : Scan)
  | reload (i : Nat) (reading : Reading) (scan : Scan)
  | hashNext (i : Nat) (fails : Bool) (saved : Saved)
  | load (i : Nat) (reading : Reading)
  | save (i : Nat) (saved : Saved)
  | install (i : Nat) (pkg : Package) (data : List UInt8) (ending : Ending) (saved : Saved)
  | uninstall (i : Nat) (name : Text) (removed : Bool) (saved : Saved)

/-- The record `install` makes. -/
def recordOf (pkg : Package) (data : List UInt8) : Record :=
  ⟨pkg.name, sha data, data.length, jugPath pkg.name⟩

def key (name : Text) : Text := name.map lower

section Steps
variable (media : Media)

def scanStep (s : Machine) (i : Nat) (m : Model) (scan : Scan) : Machine :=
  { s.set i (rescan media scan m) with
    scanned := Function.update s.scanned i scan
    reads := s.reads.filter fun e => e.1 ≠ i }

def takeListStep (s : Machine) (i : Nat) (fresh : Option Catalog) (asked : Bool) : Machine :=
  let m := s.models i
  match fresh with
  | none => s
  | some fresh =>
      if asked && m.haveList && fresh.same m.catalog then s
      else s.set i (rebuild { m with catalog := fresh, haveList := true })

/-- Hashes the next row, or saves the registry once none is left. -/
def hashStep (s : Machine) (i : Nat) (fails : Bool) (saved : Saved) : Machine :=
  let m := s.models i
  match nextRow m with
  | none =>
      if m.registryDirty then
        { s.set i { m with registryDirty := false } with
          registry := saved.apply s.registry m.registry }
      else s
  | some k =>
      match m.rows[k]?, (m.rows[k]?).bind fun r => r.here.bind fun j => m.locals[j]? with
      | some r, some l =>
          match localDigest (s.reading media fails l) m.registry l with
          | some (sum, reg, read) =>
              { s.set i { m with
                  registry := reg, registryDirty := true
                  rows := m.rows.set k (judge m.catalog { r with sum := sum, hashed := true }) } with
                reads := s.reads ++ (read.map fun bytes => (i, l, bytes)).toList }
          | none =>
              s.set i { m with
                rows := m.rows.set k (judge m.catalog { r with unreadable := true }) }
      | _, _ => s

def installStep (s : Machine) (i : Nat) (pkg : Package) (data : List UInt8) (ending : Ending)
    (saved : Saved) : Machine :=
  match refusal pkg data, ending with
  | some _, _ => s
  | none, .kept => s
  | none, .lost => { s with downloads := Function.update s.downloads (jugPath pkg.name) none }
  | none, .done =>
      let m := s.models i
      let reg := m.registry.put (recordOf pkg data)
      { s.set i { m with registry := reg } with
        downloads := Function.update s.downloads (jugPath pkg.name) (some data)
        registry := saved.apply s.registry reg
        installed := Function.update s.installed (key pkg.name) (some (recordOf pkg data)) }

def uninstallStep (s : Machine) (i : Nat) (name : Text) (removed : Bool) (saved : Saved) : Machine :=
  if !validName name || (s.downloads (jugPath name)).isNone || !removed then s
  else
    let m := s.models i
    let reg := m.registry.erase name
    { s.set i { m with registry := reg } with
      downloads := Function.update s.downloads (jugPath name) none
      registry := saved.apply s.registry reg
      installed := Function.update s.installed (key name) none }

def step (s : Machine) : Op → Machine
  | .open_ i reading kept scan =>
      let m := { s.models i with registry := loaded reading s.registry }
      let m := match kept with
        | none => { m with haveList := false }
        | some (catalog, good) => { m with catalog := catalog, haveList := good }
      scanStep media s i m scan
  | .takeList i fresh asked => takeListStep s i fresh asked
  | .rescan i scan => scanStep media s i (s.models i) scan
  | .reload i reading scan =>
      scanStep media s i
        { s.models i with registry := loaded reading s.registry, registryDirty := false } scan
  | .hashNext i fails saved => hashStep media s i fails saved
  | .load i reading => s.set i { s.models i with registry := loaded reading s.registry }
  | .save i saved => { s with registry := saved.apply s.registry (s.models i).registry }
  | .install i pkg data ending saved => installStep s i pkg data ending saved
  | .uninstall i name removed saved => uninstallStep s i name removed saved

def run (s : Machine) (ops : List Op) : Machine := ops.foldl (step media) s

end Steps

/-! Names without their case. -/

theorem ieq_iff {a b : Text} : ieq a b = true ↔ key a = key b := by
  simp only [ieq, key, Bool.and_eq_true, beq_iff_eq]
  constructor
  · exact fun same => same.2
  · intro same
    exact ⟨by simpa using congrArg List.length same, same⟩

theorem lower_lower (c : UInt8) : lower (lower c) = lower c := by
  simp only [lower]
  split
  · rename_i upper
    rw [if_neg]
    intro again
    have low := UInt8.le_iff_toNat_le.mp upper.1
    have high := UInt8.le_iff_toNat_le.mp upper.2
    have back := UInt8.le_iff_toNat_le.mp again.2
    simp at low high back
    omega
  · rfl

theorem key_key (name : Text) : key (key name) = key name := by
  simp only [key, List.map_map]
  apply List.map_congr_left
  intro c _
  exact lower_lower c

/-! The steps against the calls they stand for. -/

theorem hashFile_readWhole (kernel : Kernel) (w : World) (path : Text) (size : Nat) :
    ∃ fails : Bool, readWhole (if fails then none else contents w path) size =
        (if (hashFile kernel w path size).2.2 then some (((contents w path).getD []).take size) else none) ∧
      ((hashFile kernel w path size).2.2 = true →
        (hashFile kernel w path size).2.1 = sha (((contents w path).getD []).take size)) := by
  by_cases whole : (hashFile kernel w path size).2.2 = true
  · obtain ⟨there, sum⟩ := hashFile_sum kernel w path size whole
    refine ⟨false, ?_, fun _ => sum⟩
    simp only [readWhole, Bool.false_eq_true, if_false, there, if_true, whole]
  · refine ⟨true, ?_, fun hit => absurd hit whole⟩
    have some_ : size ≠ 0 := by
      intro empty
      rw [empty] at whole
      exact whole (hashFile_empty kernel w path)
    simp [readWhole, whole, some_]

theorem install_ending (kernel : Kernel) (w : World) (s : Machine) (i : Nat) (pkg : Package)
    (data : List UInt8) (saved : Saved)
    (same : s.downloads (jugPath pkg.name) = contents w (jugPath pkg.name)) :
    let result := install kernel w (s.models i).registry pkg data
    ∃ ending, ((installStep s i pkg data ending saved).models i).registry = result.2.1 ∧
      (installStep s i pkg data ending saved).downloads (jugPath pkg.name) =
        contents result.1 (jugPath pkg.name) := by
  have outcome := install_outcome kernel w (s.models i).registry pkg data
  generalize install kernel w (s.models i).registry pkg data = result at *
  cases outcome with
  | done accepted here =>
      refine ⟨.done, ?_, ?_⟩
      · simp [installStep, accepted, Machine.set, recordOf]
      · simp [installStep, accepted, contents, here]
  | kept here =>
      have still : installStep s i pkg data .kept saved = s := by
        simp only [installStep]
        split <;> simp_all
      refine ⟨.kept, by rw [still], ?_⟩
      rw [still, same]
      simp only [contents, here]
  | lost accepted _ gone _ =>
      refine ⟨.lost, ?_, ?_⟩
      · simp [installStep, accepted]
      · simp [installStep, accepted, contents, gone]

end R2Apps.JugModel
