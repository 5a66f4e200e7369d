import R2Apps.BlockImages

/-! The volume under `c/rntp/linux/fat.c`, as far as its free space goes: geometry, sectors, the entries of
the file allocation table, and the client's count of the free ones. An image is a byte memory, and a sector
buffer is one of which only the first 512 bytes count. Every number stays in its 32 bits here. A callback
that fails makes its call fail, so sectors are simply there or out of range. -/
namespace R2Apps.FatVolume
open ByteMemory

inductive Errno where
  | inval
  | ioFault
deriving DecidableEq

abbrev eoc : Nat := 0xffff

structure RntpFat where
  sectors : Nat
  fat : Nat
  root : Nat
  data : Nat
  clusters : Nat
  fatSectors : Nat
  rootEntries : Nat
  spc : Nat
  fats : Nat
  bits : Nat
deriving DecidableEq

def clusterBytes (f : RntpFat) : Nat := f.spc * 512

/-- The numbers from here on are reserved, and no cluster of the client's. -/
def reserved (bits : Nat) : Nat := if bits = 12 then 0xff0 else 0xfff0

def valid (f : RntpFat) (c : Nat) : Prop := 2 ≤ c ∧ c < f.clusters + 2 ∧ c < reserved f.bits

instance (f : RntpFat) : DecidablePred (valid f) := fun _ => inferInstanceAs (Decidable (_ ∧ _))

def rd (f : RntpFat) (image : Memory) (sector : Nat) : Except Errno Memory :=
  if sector < f.sectors then .ok fun j => image (sector * 512 + j) else .error .ioFault

def fatInit (b : Memory) (capacity : Nat) : Except Errno RntpFat :=
  let total := if loadLE b 19 2 = 0 then loadLE b 32 4 else loadLE b 19 2
  let spc := (b 13).toNat
  let fat := loadLE b 14 2
  let fats := (b 16).toNat
  let fatSectors := loadLE b 22 2
  let rootEntries := loadLE b 17 2
  if b 510 ≠ 0x55 ∨ b 511 ≠ 0xaa ∨ loadLE b 11 2 ≠ 512 ∨ spc = 0 ∨ spc &&& (spc - 1) ≠ 0 ∨ spc > 64 ∨
      fat = 0 ∨ fats = 0 ∨ fats > 2 ∨ fatSectors = 0 ∨ rootEntries = 0 ∨ total = 0 ∨
      total > capacity ∨ capacity > (64 <<< 20) / 512 then .error .inval
  else
    let root := fat + fats * fatSectors
    let data := root + (rootEntries * 32 + 511) / 512
    if data ≥ total then .error .inval
    else
      let clusters := (total - data) / spc
      if clusters = 0 ∨ clusters ≥ 65525 then .error .inval
      else
        let bits := if clusters < 4085 then 12 else 16
        if (clusters + 2) * bits > fatSectors * 4096 then .error .inval
        else .ok ⟨total, fat, root, data, clusters, fatSectors, rootEntries, spc, fats, bits⟩

/-- The byte of the table at which the entry of the cluster starts. -/
def entryAt (bits c : Nat) : Nat := if bits = 12 then c + c / 2 else c * 2

def fatGet (f : RntpFat) (image : Memory) (c : Nat) : Except Errno Nat :=
  if valid f c then do
    let at_ := entryAt f.bits c
    let a ← rd f image (f.fat + at_ / 512)
    let high ←
      if at_ % 512 = 511 then do
        let b ← rd f image (f.fat + at_ / 512 + 1)
        .ok (b 0)
      else .ok (a (at_ % 512 + 1))
    let value := (a (at_ % 512)).toNat ||| high.toNat <<< 8
    let value := if f.bits = 12 then (if c % 2 = 1 then value >>> 4 else value &&& 0xfff) else value
    .ok (if value ≥ if f.bits = 12 then 0xff8 else 0xfff8 then eoc else value)
  else .error .ioFault

structure Statvfs where
  bsize : Nat
  blocks : Nat
  bfree : Nat
  bavail : Nat
deriving DecidableEq

/-- A turn of the count, at a cluster. -/
def statCluster (f : RntpFat) (image : Memory) (free c : Nat) : Except Errno Nat :=
  if valid f c then do
    let v ← fatGet f image c
    .ok (if v = 0 then free + 1 else free)
  else .ok free

def fatStatfs (f : RntpFat) (image : Memory) : Except Errno Statvfs := do
  let free ← (List.range' 2 f.clusters).foldlM (statCluster f image) 0
  .ok { bsize := clusterBytes f, blocks := f.clusters, bfree := free, bavail := free }

section Geometry

/-- What `fat_init` leaves in the structure. -/
structure Accepted (f : RntpFat) : Prop where
  spc : 0 < f.spc
  fats : f.fats = 1 ∨ f.fats = 2
  root : f.root = f.fat + f.fats * f.fatSectors
  data : f.data = f.root + (f.rootEntries * 32 + 511) / 512
  inside : f.data < f.sectors
  bits : f.bits = 12 ∨ f.bits = 16
  room : (f.clusters + 2) * f.bits ≤ f.fatSectors * 4096

theorem fatInit_accepted {b : Memory} {capacity : Nat} {f : RntpFat} (made : fatInit b capacity = .ok f) :
    Accepted f := by
  simp only [fatInit] at made
  generalize (if loadLE b 19 2 = 0 then loadLE b 32 4 else loadLE b 19 2) = total at made
  split at made
  · cases made
  rename_i sane
  split at made
  · cases made
  rename_i inside
  generalize (total - _) / (b 13).toNat = clusters at made
  split at made
  · cases made
  have width : (if clusters < 4085 then 12 else 16) = 12 ∨ (if clusters < 4085 then 12 else 16) = 16 := by
    split
    · exact .inl rfl
    · exact .inr rfl
  generalize (if clusters < 4085 then 12 else 16) = bits at made width
  split at made
  · cases made
  rename_i room
  cases made
  simp only [not_or] at sane
  obtain ⟨-, -, -, spc, -, -, fat, fats, fewFats, -⟩ := sane
  refine ⟨Nat.pos_of_ne_zero spc, ?_, rfl, rfl, Nat.lt_of_not_le inside, width, Nat.le_of_not_lt room⟩
  dsimp only
  omega

variable {f : RntpFat} (accepted : Accepted f)
include accepted

theorem Accepted.entry_inside {c : Nat} (below : c < f.clusters + 2) :
    entryAt f.bits c + 1 < f.fatSectors * 512 := by
  have room := accepted.room
  unfold entryAt
  rcases accepted.bits with bits | bits
  · rw [bits] at room
    rw [if_pos bits]
    omega
  · rw [bits] at room
    rw [if_neg (by omega)]
    omega

theorem Accepted.table_inside : f.fat + f.fatSectors < f.sectors := by
  have root := accepted.root
  have data := accepted.data
  have inside := accepted.inside
  have copy : f.fatSectors ≤ f.fats * f.fatSectors := by
    rcases accepted.fats with one | two
    · rw [one, Nat.one_mul]
    · rw [two]
      omega
  omega

end Geometry

section Entries

theorem rd_eq {f : RntpFat} {sector : Nat} (image : Memory) (inside : sector < f.sectors) :
    rd f image sector = .ok fun j => image (sector * 512 + j) := if_pos inside

theorem low_high (low high : UInt8) : low.toNat ||| high.toNat <<< 8 = low.toNat + 256 * high.toNat := by
  have small : low.toNat < 2 ^ 8 := low.toNat_lt
  rw [Nat.shiftLeft_eq, Nat.or_comm, Nat.mul_comm, ← Nat.two_pow_add_eq_or_of_lt small]
  omega

theorem two_bytes (m : Memory) (address : Nat) :
    loadLE m address 2 = (m address).toNat + 256 * (m (address + 1)).toNat := by
  simp only [loadLE]
  omega

/-- An entry as it stands in the first copy of the table. -/
def tableEntry (bits fat : Nat) (image : Memory) (c : Nat) : Nat :=
  let value := loadLE image (fat * 512 + entryAt bits c) 2
  if bits = 12 then (if c % 2 = 1 then value >>> 4 else value &&& 0xfff) else value

theorem ok_bind {α β : Type} (a : α) (next : α → Except Errno β) : (Except.ok a >>= next) = next a := rfl

theorem fatGet_eq {f : RntpFat} (accepted : Accepted f) (image : Memory) {c : Nat} (fine : valid f c) :
    fatGet f image c = .ok
      (if tableEntry f.bits f.fat image c ≥ (if f.bits = 12 then 0xff8 else 0xfff8) then eoc
      else tableEntry f.bits f.fat image c) := by
  have inside := accepted.entry_inside fine.2.1
  have table := accepted.table_inside
  have low : (f.fat + entryAt f.bits c / 512) * 512 + entryAt f.bits c % 512 =
      f.fat * 512 + entryAt f.bits c := by
    omega
  simp only [fatGet, if_pos fine, tableEntry, two_bytes]
  rw [rd_eq image (by omega)]
  simp only [ok_bind]
  rw [low]
  by_cases straddles : entryAt f.bits c % 512 = 511
  · have high : (f.fat + entryAt f.bits c / 512 + 1) * 512 = f.fat * 512 + entryAt f.bits c + 1 := by omega
    rw [if_pos straddles, rd_eq image (by omega)]
    simp only [ok_bind, Nat.add_zero, high, low_high]
  · have high : (f.fat + entryAt f.bits c / 512) * 512 + (entryAt f.bits c % 512 + 1) =
        f.fat * 512 + entryAt f.bits c + 1 := by omega
    rw [if_neg straddles]
    simp only [high, low_high]

theorem limit_positive (bits : Nat) : 0 < if bits = 12 then 0xff8 else 0xfff8 := by
  split <;> decide

theorem endMark_zero {v limit : Nat} (positive : 0 < limit) :
    (if v ≥ limit then eoc else v) = 0 ↔ v = 0 := by
  split
  · rename_i large
    constructor
    · intro end_
      cases end_
    · omega
  · rfl

theorem statCluster_eq {f : RntpFat} (accepted : Accepted f) (image : Memory) (free c : Nat) :
    statCluster f image free c =
      .ok (if valid f c ∧ tableEntry f.bits f.fat image c = 0 then free + 1 else free) := by
  unfold statCluster
  by_cases fine : valid f c
  · rw [if_pos fine, fatGet_eq accepted image fine, ok_bind]
    have zero := endMark_zero (v := tableEntry f.bits f.fat image c) (limit_positive f.bits)
    simp only [zero, fine, true_and]
  · rw [if_neg fine]
    simp only [fine, false_and, if_false]

/-- The free clusters that the client may use. -/
def freeClusters (f : RntpFat) (image : Memory) : Nat :=
  (List.range' 2 f.clusters).countP fun c => decide (valid f c ∧ tableEntry f.bits f.fat image c = 0)

theorem fatStatfs_eq {f : RntpFat} (accepted : Accepted f) (image : Memory) :
    fatStatfs f image =
      .ok { bsize := clusterBytes f, blocks := f.clusters, bfree := freeClusters f image
            bavail := freeClusters f image } := by
  have counts : ∀ (l : List Nat) (free : Nat), l.foldlM (statCluster f image) free =
      .ok (free + l.countP fun c => decide (valid f c ∧ tableEntry f.bits f.fat image c = 0)) := by
    intro l
    induction l with
    | nil => exact fun _ => rfl
    | cons c rest ih =>
        intro free
        rw [List.foldlM_cons, statCluster_eq accepted, ok_bind, ih, List.countP_cons]
        by_cases counted : valid f c ∧ tableEntry f.bits f.fat image c = 0
        · simp only [counted, and_self, if_true, decide_true]
          rw [Nat.add_assoc, Nat.add_comm 1]
        · simp only [counted, if_false, decide_false, Bool.false_eq_true, Nat.add_zero]
  rw [fatStatfs, counts, ok_bind, Nat.zero_add]
  rfl

end Entries

end R2Apps.FatVolume
