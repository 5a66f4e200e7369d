import R2Apps.Sha256

/-! `jug/lists.cpp` as far as installing needs it: names, the registry in memory,
and what makes an ELF one the kernel can run. Texts are byte strings without their
terminating zero. -/
namespace R2Apps.JugLists
open Sha256

abbrev Text := List UInt8

def text (s : String) : Text := s.toList.map fun c => UInt8.ofNat c.toNat

def nameCap : Nat := 9
def pathCap : Nat := 64

def lower (c : UInt8) : UInt8 := if 65 ≤ c ∧ c ≤ 90 then c + 32 else c

def upper (c : UInt8) : UInt8 := if 97 ≤ c ∧ c ≤ 122 then c - 32 else c

def nameChar (c : UInt8) : Bool :=
  decide (97 ≤ c ∧ c ≤ 122) || decide (65 ≤ c ∧ c ≤ 90) || decide (48 ≤ c ∧ c ≤ 57) ||
    c == 95 || c == 45

def ieq (a b : Text) : Bool := a.length == b.length && a.map lower == b.map lower

def validName (name : Text) : Bool :=
  !name.isEmpty && decide (name.length ≤ nameCap - 1) && name.all nameChar

/-- `scopy` into a buffer of `cap` bytes. -/
def scopy (src : Text) (cap : Nat) : Text := src.take (cap - 1)

def scat (dst src : Text) (cap : Nat) : Text :=
  if dst.length < cap then dst ++ scopy src (cap - dst.length) else dst

structure Package where
  name : Text
  path : Text
  sum : Digest
  /-- `none` when the line does not say, which the source writes -1. -/
  size : Option Nat

structure Record where
  name : Text
  sum : Digest
  size : Nat
  path : Text
  deriving DecidableEq

abbrev Registry := List Record

def Registry.find (reg : Registry) (name : Text) : Option Record :=
  List.find? (fun r => ieq r.name name) reg

/-- The first record of the name is replaced, or the record added at the end. -/
def Registry.put (reg : Registry) (r : Record) : Registry :=
  match List.findIdx? (fun old => ieq old.name r.name) reg with
  | some i => List.set reg i r
  | none => reg ++ [r]

def Registry.erase (reg : Registry) (name : Text) : Registry :=
  List.eraseP (fun r => ieq r.name name) reg

def hexDigit (n : UInt8) : UInt8 := if n < 10 then 48 + n else 87 + n

def hex (sum : Digest) : Text :=
  sum.bytes.flatMap fun (b : UInt8) => [hexDigit (b >>> 4), hexDigit (b &&& 15)]

/-- `scatU`: a number in decimal. -/
def decimal (n : Nat) : Text := (Nat.toDigits 10 n).map fun c => UInt8.ofNat c.toNat

def Registry.serialize (reg : Registry) : Text :=
  text "# jug registry: program, SHA-256, size, the file they are of\n" ++
    List.flatMap (fun r =>
      r.name ++ text " " ++ hex r.sum ++ text " " ++ decimal r.size ++ text " " ++ r.path ++ text "\n") reg

/-! ELF. -/

def littleEndian (image : List UInt8) (offset count : Nat) : Nat :=
  ((image.drop offset).take count).foldr (fun byte rest => byte.toNat + 256 * rest) 0

def rd16 (image : List UInt8) (offset : Nat) : Nat := littleEndian image offset 2
def rd32 (image : List UInt8) (offset : Nat) : Nat := littleEndian image offset 4
def rd64 (image : List UInt8) (offset : Nat) : Nat := littleEndian image offset 8

def windowStart : Nat := 0x600000
def windowEnd : Nat := 0xA00000
def ehdr : Nat := 64
def phdr : Nat := 56
def ptLoad : Nat := 1

/-- The loop over the program headers, with the number of loadable segments so
far and whether one of them holds the entry point. -/
def segmentProblem (image : List UInt8) (entry phoff : Nat) : List Nat → Nat → Bool → Option String
  | [], loads, entryLoaded =>
      if loads = 0 then some "it has nothing to load"
      else if !entryLoaded then some "its entry point is not in what it loads"
      else none
  | i :: rest, loads, entryLoaded =>
      let ph := phoff + i * phdr
      if rd32 image ph ≠ ptLoad then segmentProblem image entry phoff rest loads entryLoaded
      else
        let offset := rd64 image (ph + 8)
        let vaddr := rd64 image (ph + 16)
        let filesz := rd64 image (ph + 32)
        let memsz := rd64 image (ph + 40)
        if filesz > memsz then some "a segment is bigger in the file than in memory"
        else if offset > image.length ∨ filesz > image.length - offset then
          some "a segment runs past the end of the file"
        else if vaddr < windowStart ∨ vaddr > windowEnd ∨ memsz > windowEnd - vaddr then
          some "it loads outside the process window (0x600000-0xA00000)"
        else
          segmentProblem image entry phoff rest (loads + 1)
            (entryLoaded || decide (entry ≥ vaddr ∧ entry - vaddr < memsz))

def elfProblem (image : List UInt8) : Option String :=
  let len := image.length
  let byte (i : Nat) : UInt8 := image.getD i 0
  if len < ehdr then some "too short to be a program"
  else if image.take 4 ≠ [0x7f, 69, 76, 70] then some "not an ELF file"
  else if byte 4 ≠ 2 ∨ byte 5 ≠ 1 then some "not a 64-bit little-endian ELF"
  else if byte 6 ≠ 1 ∨ rd32 image 20 ≠ 1 ∨ rd16 image 52 ≠ ehdr then
    some "its ELF header is damaged"
  else if rd16 image 16 ≠ 2 then some "not an executable"
  else if rd16 image 18 ≠ 0x3E then some "not an x86-64 program"
  else
    let entry := rd64 image 24
    let phoff := rd64 image 32
    let phentsize := rd16 image 54
    let phnum := rd16 image 56
    if phentsize ≠ phdr ∨ phnum = 0 ∨ phoff > len ∨ phnum * phdr > len - phoff then
      some "its program headers are damaged"
    else segmentProblem image entry phoff (List.range phnum) 0 false

end R2Apps.JugLists
