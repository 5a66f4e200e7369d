import R2Apps.JugLists

/-! What `elf_problem` of `jug/lists.cpp` lets through. `elfProblemChecked` is the same
code over reads that fail outside the image; that it never fails is that the code reads
only inside. -/
namespace R2Apps.JugElf
open JugLists

/-- `count` bytes from `offset`, if the image has them. -/
def slice (image : List UInt8) (offset count : Nat) : Option (List UInt8) :=
  if offset + count ≤ image.length then some ((image.drop offset).take count) else none

def number (image : List UInt8) (offset count : Nat) : Option Nat :=
  (slice image offset count).map fun bytes => bytes.foldr (fun byte rest => byte.toNat + 256 * rest) 0

def segmentProblemChecked (image : List UInt8) (entry phoff : Nat) :
    List Nat → Nat → Bool → Option (Option String)
  | [], loads, entryLoaded =>
      if loads = 0 then some (some "it has nothing to load")
      else if !entryLoaded then some (some "its entry point is not in what it loads")
      else some none
  | i :: rest, loads, entryLoaded => do
      let ph := phoff + i * phdr
      let type ← number image ph 4
      if type ≠ ptLoad then segmentProblemChecked image entry phoff rest loads entryLoaded
      else
        let offset ← number image (ph + 8) 8
        let vaddr ← number image (ph + 16) 8
        let filesz ← number image (ph + 32) 8
        let memsz ← number image (ph + 40) 8
        if filesz > memsz then some (some "a segment is bigger in the file than in memory")
        else if offset > image.length ∨ filesz > image.length - offset then
          some (some "a segment runs past the end of the file")
        else if vaddr < windowStart ∨ vaddr > windowEnd ∨ memsz > windowEnd - vaddr then
          some (some "it loads outside the process window (0x600000-0xA00000)")
        else
          segmentProblemChecked image entry phoff rest (loads + 1)
            (entryLoaded || decide (entry ≥ vaddr ∧ entry - vaddr < memsz))

/-- Both sides of an `||` are read, the source's may not be. -/
def elfProblemChecked (image : List UInt8) : Option (Option String) := do
  let len := image.length
  if len < ehdr then some (some "too short to be a program")
  else
    let magic ← slice image 0 4
    if magic ≠ [0x7f, 69, 76, 70] then some (some "not an ELF file")
    else
      let class_ ← image[4]?
      let encoding ← image[5]?
      if class_ ≠ 2 ∨ encoding ≠ 1 then some (some "not a 64-bit little-endian ELF")
      else
        let version ← image[6]?
        let objectVersion ← number image 20 4
        let headerSize ← number image 52 2
        if version ≠ 1 ∨ objectVersion ≠ 1 ∨ headerSize ≠ ehdr then some (some "its ELF header is damaged")
        else
          let type ← number image 16 2
          if type ≠ 2 then some (some "not an executable")
          else
            let machine ← number image 18 2
            if machine ≠ 0x3E then some (some "not an x86-64 program")
            else
              let entry ← number image 24 8
              let phoff ← number image 32 8
              let phentsize ← number image 54 2
              let phnum ← number image 56 2
              if phentsize ≠ phdr ∨ phnum = 0 ∨ phoff > len ∨ phnum * phdr > len - phoff then
                some (some "its program headers are damaged")
              else segmentProblemChecked image entry phoff (List.range phnum) 0 false

/-! What a program must be. -/

structure Segment where
  type : Nat
  offset : Nat
  vaddr : Nat
  filesz : Nat
  memsz : Nat

/-- Program header `i` of a table at `phoff`. -/
def segmentAt (image : List UInt8) (phoff i : Nat) : Segment :=
  let ph := phoff + i * phdr
  ⟨rd32 image ph, rd64 image (ph + 8), rd64 image (ph + 16), rd64 image (ph + 32), rd64 image (ph + 40)⟩

/-- The sums here are of numbers without bound. -/
structure Segment.Fits (s : Segment) (len : Nat) : Prop where
  filled : s.filesz ≤ s.memsz
  inFile : s.offset + s.filesz ≤ len
  above : windowStart ≤ s.vaddr
  below : s.vaddr + s.memsz ≤ windowEnd

def Segment.Holds (s : Segment) (address : Nat) : Prop := s.vaddr ≤ address ∧ address < s.vaddr + s.memsz

structure HeaderOk (image : List UInt8) : Prop where
  long : ehdr ≤ image.length
  magic : image.take 4 = [0x7f, 69, 76, 70]
  class_ : image.getD 4 0 = 2
  encoding : image.getD 5 0 = 1
  version : image.getD 6 0 = 1
  objectVersion : rd32 image 20 = 1
  headerSize : rd16 image 52 = ehdr
  executable : rd16 image 16 = 2
  machine : rd16 image 18 = 0x3E
  entrySize : rd16 image 54 = phdr
  table : rd64 image 32 + rd16 image 56 * phdr ≤ image.length

/-- What the header, the loadable segments and the entry point are like. -/
structure Runnable (image : List UInt8) : Prop where
  header : HeaderOk image
  fits : ∀ i < rd16 image 56, (segmentAt image (rd64 image 32) i).type = ptLoad →
    (segmentAt image (rd64 image 32) i).Fits image.length
  entered : ∃ i < rd16 image 56, (segmentAt image (rd64 image 32) i).type = ptLoad ∧
    (segmentAt image (rd64 image 32) i).Holds (rd64 image 24)

section Reads
variable {image : List UInt8}

theorem slice_inside {offset count : Nat} (inside : offset + count ≤ image.length) :
    slice image offset count = some ((image.drop offset).take count) := if_pos inside

theorem number_inside {offset count : Nat} (inside : offset + count ≤ image.length) :
    number image offset count = some (littleEndian image offset count) := by
  rw [number, slice_inside inside]
  rfl

theorem byte_inside {i : Nat} (inside : i < image.length) : image[i]? = some (image.getD i 0) := by
  rw [List.getD, List.getElem?_eq_getElem inside, Option.getD_some]

theorem segments_inside (entry phoff : Nat) (headers : List Nat) (loads : Nat) (entryLoaded : Bool)
    (inside : ∀ i ∈ headers, phoff + (i + 1) * phdr ≤ image.length) :
    segmentProblemChecked image entry phoff headers loads entryLoaded =
      some (segmentProblem image entry phoff headers loads entryLoaded) := by
  induction headers generalizing loads entryLoaded with
  | nil =>
      simp only [segmentProblemChecked, segmentProblem]
      split
      · rfl
      · split <;> rfl
  | cons i rest ih =>
      have here : phoff + i * phdr + 56 ≤ image.length := by
        have := inside i List.mem_cons_self
        rw [Nat.succ_mul] at this
        exact Nat.le_trans (Nat.le_of_eq (Nat.add_assoc _ _ _)) this
      have later := fun loads entryLoaded =>
        ih loads entryLoaded fun j member => inside j (List.mem_cons_of_mem i member)
      simp only [segmentProblemChecked, segmentProblem, Option.bind_eq_bind,
        number_inside (by omega : phoff + i * phdr + 4 ≤ image.length),
        number_inside (by omega : phoff + i * phdr + 8 + 8 ≤ image.length),
        number_inside (by omega : phoff + i * phdr + 16 + 8 ≤ image.length),
        number_inside (by omega : phoff + i * phdr + 32 + 8 ≤ image.length),
        number_inside (by omega : phoff + i * phdr + 40 + 8 ≤ image.length), Option.bind_some,
          later, rd32, rd64,
        ← apply_ite some]
      rfl

theorem elfProblem_inside : elfProblemChecked image = some (elfProblem image) := by
  by_cases short : image.length < ehdr
  · simp only [elfProblemChecked, elfProblem, if_pos short]
  · have long : 64 ≤ image.length := Nat.le_of_not_lt short
    -- the headers are walked only once their table is known to be inside
    have table (entry phoff phnum : Nat) (damaged : Prop) [Decidable damaged]
        (sound : ¬damaged → phoff + phnum * phdr ≤ image.length) :
        (if damaged then some (some "its program headers are damaged")
          else segmentProblemChecked image entry phoff (List.range phnum) 0 false) =
        some (if damaged then some "its program headers are damaged"
          else segmentProblem image entry phoff (List.range phnum) 0 false) := by
      by_cases wrong : damaged
      · rw [if_pos wrong, if_pos wrong]
      · rw [if_neg wrong, if_neg wrong]
        apply segments_inside
        intro i member
        have within := List.mem_range.mp member
        exact Nat.le_trans (Nat.add_le_add_left (Nat.mul_le_mul_right _ within) _) (sound wrong)
    simp only [elfProblemChecked, elfProblem, if_neg short, Option.bind_eq_bind,
      slice_inside (by omega : 0 + 4 ≤ image.length), byte_inside (by omega : 4 < image.length),
      byte_inside (by omega : 5 < image.length), byte_inside (by omega : 6 < image.length),
      number_inside (by omega : 20 + 4 ≤ image.length), number_inside (by omega : 52 + 2 ≤ image.length),
      number_inside (by omega : 16 + 2 ≤ image.length), number_inside (by omega : 18 + 2 ≤ image.length),
      number_inside (by omega : 24 + 8 ≤ image.length), number_inside (by omega : 32 + 8 ≤ image.length),
      number_inside (by omega : 54 + 2 ≤ image.length), number_inside (by omega : 56 + 2 ≤ image.length),
      Option.bind_some, List.drop_zero, rd16, rd32, rd64]
    rw [table _ _ _ _ (by omega)]
    simp only [← apply_ite some]
    rfl

end Reads

section Meaning
variable {image : List UInt8}

theorem fits_iff {s : Segment} {len : Nat} :
    s.Fits len ↔ ¬s.filesz > s.memsz ∧ ¬(s.offset > len ∨ s.filesz > len - s.offset) ∧
      ¬(s.vaddr < windowStart ∨ s.vaddr > windowEnd ∨ s.memsz > windowEnd - s.vaddr) := by
  constructor
  · rintro ⟨filled, inFile, above, below⟩
    refine ⟨?_, ?_, ?_⟩ <;> omega
  · rintro ⟨filled, inFile, window⟩
    constructor <;> omega

theorem holds_iff {s : Segment} {address : Nat} :
    s.Holds address ↔ address ≥ s.vaddr ∧ address - s.vaddr < s.memsz := by
  unfold Segment.Holds
  omega

theorem segments_none (entry phoff : Nat) (headers : List Nat) (loads : Nat) (entryLoaded : Bool) :
    segmentProblem image entry phoff headers loads entryLoaded = none ↔
      (∀ i ∈ headers, (segmentAt image phoff i).type = ptLoad → (segmentAt image phoff i).Fits image.length) ∧
      (loads ≠ 0 ∨ ∃ i ∈ headers, (segmentAt image phoff i).type = ptLoad) ∧
      (entryLoaded = true ∨ ∃ i ∈ headers, (segmentAt image phoff i).type = ptLoad ∧
        (segmentAt image phoff i).Holds entry) := by
  induction headers generalizing loads entryLoaded with
  | nil => cases entryLoaded <;> by_cases none_ : loads = 0 <;> simp [segmentProblem, none_]
  | cons i rest ih =>
      have turn : segmentProblem image entry phoff (i :: rest) loads entryLoaded =
          if (segmentAt image phoff i).type ≠ ptLoad then
            segmentProblem image entry phoff rest loads entryLoaded
          else if (segmentAt image phoff i).filesz > (segmentAt image phoff i).memsz then
            some "a segment is bigger in the file than in memory"
          else if (segmentAt image phoff i).offset > image.length ∨
              (segmentAt image phoff i).filesz > image.length - (segmentAt image phoff i).offset then
            some "a segment runs past the end of the file"
          else if (segmentAt image phoff i).vaddr < windowStart ∨
            (segmentAt image phoff i).vaddr > windowEnd ∨
              (segmentAt image phoff i).memsz > windowEnd - (segmentAt image phoff i).vaddr then
            some "it loads outside the process window (0x600000-0xA00000)"
          else
            segmentProblem image entry phoff rest (loads + 1)
              (entryLoaded || decide (entry ≥ (segmentAt image phoff i).vaddr ∧
                entry - (segmentAt image phoff i).vaddr < (segmentAt image phoff i).memsz)) := rfl
      simp only [List.forall_mem_cons]
      by_cases load : (segmentAt image phoff i).type = ptLoad
      · by_cases fits : (segmentAt image phoff i).Fits image.length
        · obtain ⟨filled, inFile, window⟩ := fits_iff.mp fits
          rw [turn, if_neg (not_not.mpr load), if_neg filled, if_neg inFile, if_neg window, ih]
          simp [load, fits, holds_iff, or_assoc]
        · -- one of the three tests fails
          simp only [load, fits, forall_const, false_and, iff_false]
          rw [turn, if_neg (not_not.mpr load)]
          rw [fits_iff] at fits
          split
          · simp
          · split
            · simp
            · split
              · simp
              · next filled inFile window => exact absurd ⟨filled, inFile, window⟩ fits
      · rw [turn, if_pos load, ih]
        simp [load]

theorem passed_iff {wrong : Prop} [Decidable wrong] {text : String} {rest : Option String} :
    (if wrong then some text else rest) = none ↔ ¬wrong ∧ rest = none := by
  by_cases h : wrong <;> simp [h]

theorem elfProblem_none : elfProblem image = none ↔ Runnable image := by
  simp only [elfProblem, passed_iff, segments_none, List.mem_range]
  constructor
  · rintro ⟨long, magic, identity, damaged, type, machine, table, fits, _, entered⟩
    simp only [not_or, ne_eq, not_not] at magic identity damaged type machine table
    refine ⟨⟨Nat.le_of_not_lt long, magic, identity.1, identity.2, damaged.1, damaged.2.1, damaged.2.2, type,
      machine, table.1, ?_⟩, fits, ?_⟩
    · omega
    · exact entered.resolve_left Bool.false_ne_true
  · rintro ⟨header, fits, i, within, load, holds⟩
    have some_ : rd16 image 56 ≠ 0 := Nat.ne_of_gt (Nat.zero_lt_of_lt within)
    have table := header.table
    refine ⟨Nat.not_lt.mpr header.long, not_not.mpr header.magic, ?_, ?_, not_not.mpr header.executable,
      not_not.mpr header.machine, ?_, fits, Or.inr ⟨i, within, load⟩, Or.inr ⟨i, within, load, holds⟩⟩
    · simp only [header.class_, header.encoding, ne_eq, not_true, or_self, not_false_eq_true]
    · simp only [header.version, header.objectVersion, header.headerSize, ne_eq, not_true, or_self,
        not_false_eq_true]
    · simp only [header.entrySize, ne_eq, not_true, false_or]
      omega

/-- Every read is inside the image, and what passes is exactly what can be run. -/
theorem gate_exact (image : List UInt8) :
    elfProblemChecked image = some (elfProblem image) ∧ (elfProblem image = none ↔ Runnable image) :=
  ⟨elfProblem_inside, elfProblem_none⟩

end Meaning

end R2Apps.JugElf
