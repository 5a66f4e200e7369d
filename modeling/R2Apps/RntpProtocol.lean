import R2Apps.BlockImages

/-! Frames and single-session block service of `c/rntp/protocol.c`. A frame, an
image and an undo buffer are byte memories. Numbers read from at most eight
bytes never leave 64 bits, so they are natural numbers; what is stored keeps its
low bytes only. -/
namespace R2Apps.RntpProtocol
open R2Apps.ByteMemory R2Apps.BlockImages

abbrev headerBytes : Nat := 40
abbrev sectorBytes : Nat := 512
abbrev maxWrites : Nat := 32
abbrev writeRecord : Nat := 8 + sectorBytes
abbrev batchBytes : Nat := 4 + maxWrites * writeRecord
abbrev frameBytes : Nat := headerBytes + batchBytes
abbrev statBytes : Nat := 8

abbrev opHello : UInt8 := 1
abbrev opRead : UInt8 := 2
abbrev opWrite : UInt8 := 3
abbrev opPing : UInt8 := 4
abbrev opStat : UInt8 := 5
abbrev opCaps : UInt8 := 6
abbrev opWriteBatch : UInt8 := 7
abbrev opHelloShared : UInt8 := 8
abbrev opLock : UInt8 := 9
abbrev opUnlock : UInt8 := 10
abbrev opReadBatch : UInt8 := 11
abbrev opAbort : UInt8 := 12
abbrev response : UInt8 := 128

abbrev capBatch : Nat := 1
abbrev capShared : Nat := 2
abbrev capReadBatch : Nat := 4

abbrev statusOk : Nat := 0
abbrev statusBusy : Nat := 1
abbrev statusInvalid : Nat := 2
abbrev statusStale : Nat := 3

abbrev rntpGetNumber (p : Memory) (address n : Nat) : Nat := loadBE p address n

abbrev rntpPutNumber (p : Memory) (address value n : Nat) : Memory := storeBE p address value n

/-- The primary FAT's free clusters in bytes, when the boot sector describes one. -/
def rntpFreeSpace (image : Memory) (capacity : Nat) : Option Nat :=
  if capacity < 1 ∨ image 510 ≠ 0x55 ∨ image 511 ≠ 0xaa ∨ loadLE image 11 2 ≠ 512 then none
  else
    let total := if loadLE image 19 2 = 0 then loadLE image 32 4 else loadLE image 19 2
    let spc := (image 13).toNat
    let reserved := loadLE image 14 2
    let fats := (image 16).toNat
    let root := loadLE image 17 2
    let fatSectors := loadLE image 22 2
    if spc = 0 ∨ spc &&& (spc - 1) ≠ 0 ∨ spc > 64 ∨ reserved = 0 ∨ fats = 0 ∨ fats > 2 ∨
        root = 0 ∨ fatSectors = 0 ∨ total > capacity then none
    else
      let start := reserved + fats * fatSectors + (root * 32 + 511) / 512
      if start ≥ total then none
      else
        let clusters := (total - start) / spc
        if clusters = 0 ∨ clusters ≥ 65525 then none
        else
          let bits := if clusters < 4085 then 12 else 16
          if (clusters + 2) * bits > fatSectors * 512 * 8 then none
          else
            let fat := reserved * 512
            let value := fun cluster =>
              let offset := if bits = 12 then cluster * 3 / 2 else cluster * 2
              let value := loadLE image (fat + offset) 2
              if bits = 12 then (if cluster % 2 = 1 then value >>> 4 else value &&& 0xfff) else value
            some ((List.range' 2 clusters).countP (fun cluster => value cluster == 0) * spc * 512)

structure RntpHeader where
  op : UInt8
  status : Nat
  length : Nat
  id : Nat
  lba : Nat
  generation : Nat
deriving DecidableEq

def magic (out : Memory) : Memory :=
  writeByte (writeByte (writeByte (writeByte out 0 0x52) 1 0x4e) 2 0x54) 3 0x50

def rntpEncode (out : Memory) (h : RntpHeader) : Memory :=
  let out := writeByte (writeByte (magic out) 4 1) 5 h.op
  let out := rntpPutNumber out 6 h.status 2
  let out := rntpPutNumber out 8 h.length 4
  let out := rntpPutNumber out 12 0 4
  let out := rntpPutNumber out 16 h.id 8
  let out := rntpPutNumber out 24 h.lba 8
  rntpPutNumber out 32 h.generation 8

def rntpDecode (input : Memory) : Option RntpHeader :=
  if input 0 ≠ 0x52 ∨ input 1 ≠ 0x4e ∨ input 2 ≠ 0x54 ∨ input 3 ≠ 0x50 ∨ input 4 ≠ 1 ∨
      rntpGetNumber input 12 4 ≠ 0 then none
  else if rntpGetNumber input 8 4 ≤ batchBytes then
    some { op := input 5, status := rntpGetNumber input 6 2, length := rntpGetNumber input 8 4,
           id := rntpGetNumber input 16 8, lba := rntpGetNumber input 24 8,
           generation := rntpGetNumber input 32 8 }
  else none

section Headers

theorem encode_payload (out : Memory) (h : RntpHeader) (x : Nat) (after : headerBytes ≤ x) :
    rntpEncode out h x = out x := by
  have far : 40 ≤ x := after
  simp (disch := omega) only [rntpEncode, rntpPutNumber, storeBE_outside, magic, writeByte, if_neg]

theorem decode_encode (out : Memory) (h : RntpHeader) (fits : h.length ≤ batchBytes) :
    rntpDecode (rntpEncode out h) =
      some { op := h.op, status := h.status % 2 ^ 16, length := h.length, id := h.id % 2 ^ 64,
             lba := h.lba % 2 ^ 64, generation := h.generation % 2 ^ 64 } := by
  have small : h.length ≤ 16644 := fits
  have width : h.length % 4294967296 = h.length := Nat.mod_eq_of_lt (by omega)
  simp (disch := omega) [rntpDecode, rntpEncode, storeBE_outside, loadBE_storeBE,
    loadBE_storeBE_apart, magic, writeByte, width]
  exact fits

end Headers

/-- The header of the reply that `h` gets when nothing is wrong. -/
def replyTo (h : RntpHeader) (generation : Nat) : RntpHeader :=
  { op := h.op ||| response, status := statusOk, length := 0, id := h.id, lba := h.lba, generation }

/-! A batch carries a count of four bytes, then records of a sector number and a sector. -/
section Batches

def batchCount (h : RntpHeader) (request : Memory) : Nat :=
  if h.length ≥ 4 then rntpGetNumber request headerBytes 4 else 0

def recordAt (i : Nat) : Nat := headerBytes + 4 + i * writeRecord

def recordLba (request : Memory) (i : Nat) : Nat := rntpGetNumber request (recordAt i) 8

def badBatch (h : RntpHeader) (count : Nat) : Prop :=
  h.lba ≠ 0 ∨ count = 0 ∨ count > maxWrites ∨ h.length ≠ 4 + count * writeRecord

instance (h : RntpHeader) (count : Nat) : Decidable (badBatch h count) :=
  inferInstanceAs (Decidable (_ ∨ _))

def writeRecords (image request : Memory) (count : Nat) : Memory :=
  pasteAll sectorBytes request (recordLba request) (fun i => recordAt i + 8) image (List.range count)

end Batches

/-- What a handler leaves: the header to send, the image, and the reply's payload so far. -/
structure Outcome where
  out : RntpHeader
  image : Memory
  reply : Memory

def rntpOutcome (image : Memory) (sectors generation : Nat) (permitted : Bool)
    (request reply : Memory) (h : RntpHeader) : Outcome :=
  let out := replyTo h generation
  let refuse := fun status => Outcome.mk { out with status } image reply
  if h.status ≠ 0 ∨ h.op &&& response ≠ 0 ∨ h.id = 0 then refuse statusInvalid
  else if h.op = opHello then
    if h.length ≠ 0 ∨ h.lba ≠ 0 ∨ h.generation ≠ 0 then refuse statusInvalid
    else if !permitted then refuse statusBusy
    else ⟨{ out with lba := sectors, length := sectorBytes }, image,
      paste reply headerBytes image 0 sectorBytes⟩
  else if !permitted then refuse statusBusy
  else if h.generation ≠ generation then refuse statusStale
  else if h.op = opPing then
    if h.length ≠ 0 ∨ h.lba ≠ 0 then refuse statusInvalid else ⟨out, image, reply⟩
  else if h.op = opStat then
    if h.length ≠ 0 ∨ h.lba ≠ 0 then refuse statusInvalid
    else match rntpFreeSpace image sectors with
      | none => refuse statusInvalid
      | some free => ⟨{ out with length := statBytes }, image,
          rntpPutNumber reply headerBytes free statBytes⟩
  else if h.op = opCaps then
    if h.length ≠ 0 ∨ h.lba ≠ 0 then refuse statusInvalid
    else ⟨{ out with length := 8 }, image, rntpPutNumber reply headerBytes capBatch 8⟩
  else if h.op = opReadBatch then
    let count := if h.length = 4 then rntpGetNumber request headerBytes 4 else 0
    if count = 0 ∨ count > maxWrites ∨ h.lba ≥ sectors ∨ count > sectors - h.lba then
      refuse statusInvalid
    else ⟨{ out with length := count * sectorBytes }, image,
      paste reply headerBytes image (h.lba * sectorBytes) (count * sectorBytes)⟩
  else if h.op = opWriteBatch then
    let count := batchCount h request
    -- every record is checked before the first one is stored
    if badBatch h count ∨ ∃ i < count, recordLba request i ≥ sectors then refuse statusInvalid
    else ⟨out, writeRecords image request count, reply⟩
  else if h.lba ≥ sectors then refuse statusInvalid
  else if h.op = opRead ∧ h.length = 0 then
    ⟨{ out with length := sectorBytes }, image,
      paste reply headerBytes image (h.lba * sectorBytes) sectorBytes⟩
  else if h.op = opWrite ∧ h.length = sectorBytes then
    ⟨out, paste image (h.lba * sectorBytes) request headerBytes sectorBytes, reply⟩
  else refuse statusInvalid

/-! What the block service can do to the image, and what its answers can depend on. -/
section Outcomes
variable (image : Memory) (sectors generation : Nat) (permitted : Bool) (request reply : Memory)
  (h : RntpHeader)

/-- The sectors a write request names. -/
def writtenLbas : List Nat :=
  if h.op = opWriteBatch then (List.range (batchCount h request)).map (recordLba request)
  else [h.lba]

theorem outcome_cases (motive : Outcome → Prop)
    (refused : ∀ status, status ≠ statusOk → status ≤ statusStale →
      motive ⟨{ replyTo h generation with status }, image, reply⟩)
    (answered : ∀ lba length text, ¬(h.op = opWrite ∨ h.op = opWriteBatch) → length ≤ batchBytes →
      motive ⟨{ replyTo h generation with lba, length }, image, text⟩)
    (batch : h.op = opWriteBatch →
      motive ⟨replyTo h generation, writeRecords image request (batchCount h request), reply⟩)
    (single : h.op = opWrite →
      motive ⟨replyTo h generation,
        paste image (h.lba * sectorBytes) request headerBytes sectorBytes, reply⟩) :
    motive (rntpOutcome image sectors generation permitted request reply h) := by
  have invalid := refused statusInvalid (by decide) (by decide)
  have busy := refused statusBusy (by decide) (by decide)
  have stale := refused statusStale (by decide) (by decide)
  dsimp only [rntpOutcome]
  refine iteInduction (fun _ => invalid) fun _ => ?_
  refine iteInduction (fun hello => ?_) fun _ => ?_
  · refine iteInduction (fun _ => invalid) fun _ => iteInduction (fun _ => busy) fun _ => ?_
    exact answered _ _ _ (by rw [hello]; decide) (by decide)
  refine iteInduction (fun _ => busy) fun _ => iteInduction (fun _ => stale) fun _ => ?_
  refine iteInduction (fun ping => ?_) fun _ => ?_
  · refine iteInduction (fun _ => invalid) fun _ => ?_
    exact answered h.lba 0 reply (by rw [ping]; decide) (by decide)
  refine iteInduction (fun stat => ?_) fun _ => ?_
  · refine iteInduction (fun _ => invalid) fun _ => ?_
    cases rntpFreeSpace image sectors with
    | none => exact invalid
    | some free => exact answered _ _ _ (by rw [stat]; decide) (by decide)
  refine iteInduction (fun caps => ?_) fun _ => ?_
  · refine iteInduction (fun _ => invalid) fun _ => ?_
    exact answered _ _ _ (by rw [caps]; decide) (by decide)
  refine iteInduction (fun reading => ?_) fun _ => ?_
  · refine iteInduction (fun _ => invalid) fun range => ?_
    refine answered _ _ _ (by rw [reading]; decide) ?_
    simp only [sectorBytes, batchBytes, maxWrites, writeRecord] at range ⊢
    omega
  refine iteInduction (fun writing => ?_) fun _ => ?_
  · exact iteInduction (fun _ => invalid) fun _ => batch writing
  refine iteInduction (fun _ => invalid) fun _ => ?_
  refine iteInduction (fun reading => ?_) fun _ => ?_
  · exact answered _ _ _ (by rw [reading.1]; decide) (by decide)
  exact iteInduction (fun writing => single writing.1) fun _ => invalid

theorem outcome_bounds :
    (rntpOutcome image sectors generation permitted request reply h).out.length ≤ batchBytes ∧
    (rntpOutcome image sectors generation permitted request reply h).out.status ≤ statusStale := by
  apply outcome_cases image sectors generation permitted request reply h
    fun result => result.out.length ≤ batchBytes ∧ result.out.status ≤ statusStale
  · intro status _ bound
    exact ⟨Nat.zero_le _, bound⟩
  · intro lba length text _ fits
    exact ⟨fits, Nat.zero_le _⟩
  · intro _
    exact ⟨Nat.zero_le _, Nat.zero_le _⟩
  · intro _
    exact ⟨Nat.zero_le _, Nat.zero_le _⟩

/-- An image changes only by an accepted write, and only in the sectors it names. -/
theorem outcome_image (result : Outcome)
    (is : rntpOutcome image sectors generation permitted request reply h = result) :
    result.image = image ∧ (result.out.status ≠ statusOk ∨ ¬(h.op = opWrite ∨ h.op = opWriteBatch)) ∨
    result.out.status = statusOk ∧ (h.op = opWrite ∨ h.op = opWriteBatch) ∧
      ∀ k, k ∉ writtenLbas request h → block sectorBytes result.image k = block sectorBytes image k := by
  subst is
  apply outcome_cases image sectors generation permitted request reply h
    fun result => result.image = image ∧
        (result.out.status ≠ statusOk ∨ ¬(h.op = opWrite ∨ h.op = opWriteBatch)) ∨
      result.out.status = statusOk ∧ (h.op = opWrite ∨ h.op = opWriteBatch) ∧
        ∀ k, k ∉ writtenLbas request h → block sectorBytes result.image k = block sectorBytes image k
  · intro status failed _
    exact Or.inl ⟨rfl, Or.inl failed⟩
  · intro lba length text reading _
    exact Or.inl ⟨rfl, Or.inr reading⟩
  · intro writing
    refine Or.inr ⟨rfl, Or.inr writing, fun k absent => ?_⟩
    apply block_pasteAll_untouched
    intro i member same
    rw [writtenLbas, if_pos writing] at absent
    exact absent (List.mem_map.mpr ⟨i, member, same⟩)
  · intro writing
    refine Or.inr ⟨rfl, Or.inl writing, fun k absent => ?_⟩
    rw [writtenLbas, if_neg (by rw [writing]; decide)] at absent
    rw [block_paste, if_neg (by simpa using absent)]

theorem outcome_quiet (image' : Memory) (hello : h.op ≠ opHello)
    (noBlock : ¬((h.op = opWrite ∨ h.op = opWriteBatch) ∨ h.op = opRead ∨ h.op = opReadBatch))
    (stat : h.op = opStat → h.length ≠ 0 ∨ h.lba ≠ 0) :
    rntpOutcome image' sectors generation permitted request reply h =
      { rntpOutcome image sectors generation permitted request reply h with image := image' } := by
  simp only [not_or] at noBlock
  obtain ⟨⟨noWrite, noWriteBatch⟩, noRead, noReadBatch⟩ := noBlock
  dsimp only [rntpOutcome]
  by_cases malformed : h.status ≠ 0 ∨ h.op &&& response ≠ 0 ∨ h.id = 0
  · rw [if_pos malformed, if_pos malformed]
  rw [if_neg malformed, if_neg malformed, if_neg hello, if_neg hello]
  by_cases busy : (!permitted) = true
  · rw [if_pos busy, if_pos busy]
  rw [if_neg busy, if_neg busy]
  by_cases stale : h.generation ≠ generation
  · rw [if_pos stale, if_pos stale]
  rw [if_neg stale, if_neg stale]
  by_cases ping : h.op = opPing
  · rw [if_pos ping, if_pos ping]
    by_cases arguments : h.length ≠ 0 ∨ h.lba ≠ 0
    · rw [if_pos arguments, if_pos arguments]
    · rw [if_neg arguments, if_neg arguments]
  rw [if_neg ping, if_neg ping]
  by_cases usage : h.op = opStat
  · rw [if_pos usage, if_pos usage, if_pos (stat usage), if_pos (stat usage)]
  rw [if_neg usage, if_neg usage]
  by_cases caps : h.op = opCaps
  · rw [if_pos caps, if_pos caps]
    by_cases arguments : h.length ≠ 0 ∨ h.lba ≠ 0
    · rw [if_pos arguments, if_pos arguments]
    · rw [if_neg arguments, if_neg arguments]
  have read : ¬(h.op = opRead ∧ h.length = 0) := fun both => noRead both.1
  have write : ¬(h.op = opWrite ∧ h.length = sectorBytes) := fun both => noWrite both.1
  rw [if_neg caps, if_neg caps, if_neg noReadBatch, if_neg noReadBatch, if_neg noWriteBatch,
    if_neg noWriteBatch]
  by_cases beyond : h.lba ≥ sectors
  · rw [if_pos beyond, if_pos beyond]
  · rw [if_neg beyond, if_neg beyond, if_neg read, if_neg read, if_neg write, if_neg write]

end Outcomes

/-- The number of reply bytes (0 for a frame that is not a request), the image and the reply. -/
def rntpHandle (image : Memory) (sectors generation : Nat) (permitted : Bool)
    (request reply : Memory) : Nat × Memory × Memory :=
  match rntpDecode request with
  | none => (0, image, reply)
  | some h =>
      let result := rntpOutcome image sectors generation permitted request reply h
      (headerBytes + result.out.length, result.image, rntpEncode result.reply result.out)

end R2Apps.RntpProtocol
