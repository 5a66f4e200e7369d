import R2Apps.BoundedBytes
import R2Apps.RntpFreeSpace

/-! `rntp_handle` and `rntp_sessions_handle` once more, every access checked: requests and replies have
`frameBytes`, the image and the undo copies as many sectors as the export, and the dirty marks `dirtyBytes`.
The checks never fail. -/
namespace R2Apps.RntpBounds
open ByteMemory BlockImages BoundedBytes RntpProtocol RntpExport RntpTransactions RntpFreeSpace

section Headers

def encodeChecked (out : Memory) (h : RntpHeader) : Option Memory := do
  let out ← writeIn frameBytes out 0 0x52
  let out ← writeIn frameBytes out 1 0x4e
  let out ← writeIn frameBytes out 2 0x54
  let out ← writeIn frameBytes out 3 0x50
  let out ← writeIn frameBytes out 4 1
  let out ← writeIn frameBytes out 5 h.op
  let out ← storeIn frameBytes out 6 h.status 2
  let out ← storeIn frameBytes out 8 h.length 4
  let out ← storeIn frameBytes out 12 0 4
  let out ← storeIn frameBytes out 16 h.id 8
  let out ← storeIn frameBytes out 24 h.lba 8
  storeIn frameBytes out 32 h.generation 8

def decodeChecked (input : Memory) : Option (Option RntpHeader) := do
  let r ← byteIn frameBytes input 0
  let n ← byteIn frameBytes input 1
  let t ← byteIn frameBytes input 2
  let p ← byteIn frameBytes input 3
  let version ← byteIn frameBytes input 4
  let unused ← loadIn frameBytes input 12 4
  if r ≠ 0x52 ∨ n ≠ 0x4e ∨ t ≠ 0x54 ∨ p ≠ 0x50 ∨ version ≠ 1 ∨ unused ≠ 0 then return none
  let op ← byteIn frameBytes input 5
  let status ← loadIn frameBytes input 6 2
  let length ← loadIn frameBytes input 8 4
  let id ← loadIn frameBytes input 16 8
  let lba ← loadIn frameBytes input 24 8
  let generation ← loadIn frameBytes input 32 8
  return if length ≤ batchBytes then some { op, status, length, id, lba, generation } else none

theorem encodeChecked_eq (out : Memory) (h : RntpHeader) : encodeChecked out h = some (rntpEncode out h) := by
  unfold encodeChecked
  simp (disch := decide) only [writeIn_inside, storeIn_inside, Option.bind_eq_bind, Option.bind_some]
  rfl

theorem decodeChecked_eq (input : Memory) : decodeChecked input = some (rntpDecode input) := by
  unfold decodeChecked rntpDecode
  simp (disch := decide) only [byteIn_inside, loadIn_inside, Option.bind_eq_bind, Option.bind_some]
  by_cases foreign : input 0 ≠ 0x52 ∨ input 1 ≠ 0x4e ∨ input 2 ≠ 0x54 ∨ input 3 ≠ 0x50 ∨ input 4 ≠ 1 ∨
      rntpGetNumber input 12 4 ≠ 0
  · rw [if_pos foreign, if_pos foreign]
    rfl
  · rw [if_neg foreign, if_neg foreign]
    rfl

/-- A header that is decoded has the bytes that encoding it would write. -/
theorem encode_decode {input : Memory} {h : RntpHeader} (decoded : rntpDecode input = some h)
    (out : Memory) {x : Nat}
    (inside : x < headerBytes) : rntpEncode out h x = input x := by
  unfold rntpDecode at decoded
  split at decoded
  · cases decoded
  rename_i known
  simp only [not_or, ne_eq, not_not] at known
  obtain ⟨r, n, t, p, version, unused⟩ := known
  split at decoded
  · cases decoded
    simp only [rntpEncode, rntpPutNumber, rntpGetNumber] at unused ⊢
    have inside : x < 40 := inside
    have field : ∀ (m : Memory) (address count : Nat), address ≤ x → x < address + count →
        storeBE m address (loadBE input address count) count x = input x := by
      intro m address count from_ below
      have there : address + (x - address) = x := by omega
      have same := storeBE_loadBE input m address count (x - address) (by omega)
      rwa [there] at same
    -- the fields from the last one down
    by_cases generation : 32 ≤ x
    · exact field _ 32 8 generation (by omega)
    rw [storeBE_outside _ _ _ _ _ (.inl (Nat.lt_of_not_le generation))]
    by_cases lba : 24 ≤ x
    · exact field _ 24 8 lba (by omega)
    rw [storeBE_outside _ _ _ _ _ (.inl (Nat.lt_of_not_le lba))]
    by_cases id : 16 ≤ x
    · exact field _ 16 8 id (by omega)
    rw [storeBE_outside _ _ _ _ _ (.inl (Nat.lt_of_not_le id))]
    by_cases reserved : 12 ≤ x
    · rw [← unused]
      exact field _ 12 4 reserved (by omega)
    rw [storeBE_outside _ _ _ _ _ (.inl (Nat.lt_of_not_le reserved))]
    by_cases length : 8 ≤ x
    · exact field _ 8 4 length (by omega)
    rw [storeBE_outside _ _ _ _ _ (.inl (Nat.lt_of_not_le length))]
    by_cases status : 6 ≤ x
    · exact field _ 6 2 status (by omega)
    rw [storeBE_outside _ _ _ _ _ (.inl (Nat.lt_of_not_le status))]
    have few : x = 0 ∨ x = 1 ∨ x = 2 ∨ x = 3 ∨ x = 4 ∨ x = 5 := by omega
    rcases few with rfl | rfl | rfl | rfl | rfl | rfl
    · exact r.symm
    · exact n.symm
    · exact t.symm
    · exact p.symm
    · exact version.symm
    · rfl
  · cases decoded

theorem decode_encode_typed (out : Memory) (op : UInt8) (status : UInt16) (length : UInt32)
    (id lba generation : UInt64) (fits : length.toNat ≤ batchBytes) :
    rntpDecode (rntpEncode out ⟨op, status.toNat, length.toNat, id.toNat, lba.toNat, generation.toNat⟩) =
      some ⟨op, status.toNat, length.toNat, id.toNat, lba.toNat, generation.toNat⟩ := by
  rw [decode_encode out _ fits]
  simp only [Nat.mod_eq_of_lt status.toNat_lt, Nat.mod_eq_of_lt id.toNat_lt, Nat.mod_eq_of_lt lba.toNat_lt,
    Nat.mod_eq_of_lt generation.toNat_lt]

end Headers

/-! The block service. -/
section Blocks

/-- The check of a batch's sector `i`, while nothing was wrong before it. -/
def checkLba (bad : Nat → Bool) (lbaIn : Nat → Option Nat) (status i : Nat) : Option Nat :=
  if status = statusOk then do
    let lba ← lbaIn i
    return if bad lba then statusInvalid else statusOk
  else return status

def checkRecord (sectors : Nat) (request : Memory) (status i : Nat) : Option Nat :=
  checkLba (fun lba => lba ≥ sectors) (fun i => loadIn frameBytes request (recordAt i) 8) status i

def putRecord (limit : Nat) (request image : Memory) (i : Nat) : Option Memory := do
  let lba ← loadIn frameBytes request (recordAt i) 8
  pasteIn limit image (lba * sectorBytes) frameBytes request (recordAt i + 8) sectorBytes

/-- The count in front of a batch, when the payload is long enough to have one. -/
def countIn (given : Bool) (request : Memory) : Option Nat :=
  if given then loadIn frameBytes request headerBytes 4 else some 0

def outcomeChecked (image : Memory) (sectors generation : Nat) (permitted : Bool) (request reply : Memory)
    (h : RntpHeader) : Option Outcome :=
  let limit := sectors * sectorBytes
  let out := replyTo h generation
  let refuse := fun status => some (Outcome.mk { out with status } image reply)
  if h.status ≠ 0 ∨ h.op &&& response ≠ 0 ∨ h.id = 0 then refuse statusInvalid
  else if h.op = opHello then
    if h.length ≠ 0 ∨ h.lba ≠ 0 ∨ h.generation ≠ 0 then refuse statusInvalid
    else if !permitted then refuse statusBusy
    else do
      let reply ← pasteIn frameBytes reply headerBytes limit image 0 sectorBytes
      return ⟨{ out with lba := sectors, length := sectorBytes }, image, reply⟩
  else if !permitted then refuse statusBusy
  else if h.generation ≠ generation then refuse statusStale
  else if h.op = opPing then
    if h.length ≠ 0 ∨ h.lba ≠ 0 then refuse statusInvalid else return ⟨out, image, reply⟩
  else if h.op = opStat then
    if h.length ≠ 0 ∨ h.lba ≠ 0 then refuse statusInvalid
    else (freeSpaceChecked image sectors).bind fun
      | none => refuse statusInvalid
      | some free => do
          let reply ← storeIn frameBytes reply headerBytes free statBytes
          return ⟨{ out with length := statBytes }, image, reply⟩
  else if h.op = opCaps then
    if h.length ≠ 0 ∨ h.lba ≠ 0 then refuse statusInvalid
    else do
      let reply ← storeIn frameBytes reply headerBytes capBatch 8
      return ⟨{ out with length := 8 }, image, reply⟩
  else if h.op = opReadBatch then do
    let count ← countIn (h.length = 4) request
    if count = 0 ∨ count > maxWrites ∨ h.lba ≥ sectors ∨ count > sectors - h.lba then refuse statusInvalid
    else do
      let reply ← pasteIn frameBytes reply headerBytes limit image (h.lba * sectorBytes) (count * sectorBytes)
      return ⟨{ out with length := count * sectorBytes }, image, reply⟩
  else if h.op = opWriteBatch then do
    let count ← countIn (h.length ≥ 4) request
    let status ← (List.range count).foldlM (checkRecord sectors request)
      (if badBatch h count then statusInvalid else statusOk)
    if status = statusOk then do
      let image ← (List.range count).foldlM (putRecord limit request) image
      return ⟨out, image, reply⟩
    else refuse status
  else if h.lba ≥ sectors then refuse statusInvalid
  else if h.op = opRead ∧ h.length = 0 then do
    let reply ← pasteIn frameBytes reply headerBytes limit image (h.lba * sectorBytes) sectorBytes
    return ⟨{ out with length := sectorBytes }, image, reply⟩
  else if h.op = opWrite ∧ h.length = sectorBytes then do
    let image ← pasteIn limit image (h.lba * sectorBytes) frameBytes request headerBytes sectorBytes
    return ⟨out, image, reply⟩
  else refuse statusInvalid

def handleChecked (image : Memory) (sectors generation : Nat) (permitted : Bool) (request reply : Memory) :
    Option (Nat × Memory × Memory) := do
  match ← decodeChecked request with
  | none => return (0, image, reply)
  | some h =>
      let result ← outcomeChecked image sectors generation permitted request reply h
      let reply ← encodeChecked result.reply result.out
      return (headerBytes + result.out.length, result.image, reply)

variable {image request reply : Memory} {sectors generation : Nat} {permitted : Bool} {h : RntpHeader}

theorem record_inside {i : Nat} (below : i < maxWrites) : recordAt i + writeRecord ≤ frameBytes := by
  unfold recordAt
  simp only [writeRecord, headerBytes, sectorBytes, frameBytes, batchBytes, maxWrites] at below ⊢
  omega

theorem sector_inside {lba sectors : Nat} (below : lba < sectors) :
    lba * sectorBytes + sectorBytes ≤ sectors * sectorBytes := by
  have next := Nat.mul_le_mul_right sectorBytes below
  rwa [Nat.succ_mul] at next

theorem recordLba_inside {i : Nat} (below : i < maxWrites) :
    loadIn frameBytes request (recordAt i) 8 = some (recordLba request i) := by
  have record := record_inside below
  unfold writeRecord at record
  exact loadIn_inside (by omega)

/-- The loop over a batch's sectors finds the first bad one, and reads none after it. -/
theorem checkLbas_eq (bad : Nat → Bool) {lbaIn : Nat → Option Nat} {lba : Nat → Nat} {status count : Nat}
    (reads : status = statusOk → ∀ i < count, lbaIn i = some (lba i)) :
    (List.range count).foldlM (checkLba bad lbaIn) status =
      some (if status = statusOk ∧ ∃ i < count, bad (lba i) then statusInvalid else status) := by
  let turn : Nat → Nat → Nat := fun status i =>
    if status = statusOk then (if bad (lba i) then statusInvalid else statusOk) else status
  have run := foldlM_kept (f := checkLba bad lbaIn) (g := turn)
    (fun status => status = statusOk → ∀ i < count, lbaIn i = some (lba i)) (List.range count)
    (fun status kept i member => by
      constructor
      · unfold checkLba
        refine if_some (fun fine => ?_) fun _ => rfl
        rw [kept fine i (List.mem_range.mp member)]
        rfl
      · intro fine
        by_cases earlier : status = statusOk
        · exact kept earlier
        · simp only [turn, if_neg earlier] at fine
          exact absurd fine earlier) reads
  rw [run.1]
  congr 1
  generalize status = start
  clear run reads
  induction count with
  | zero => simp
  | succ n ih =>
      rw [List.range_succ, List.foldl_append, List.foldl_cons, List.foldl_nil, ih]
      by_cases fine : start = statusOk
      · subst fine
        by_cases found : ∃ i < n, bad (lba i)
        · obtain ⟨i, below, here⟩ := found
          have earlier : ∃ i < n, bad (lba i) := ⟨i, below, here⟩
          have later : ∃ i < n + 1, bad (lba i) := ⟨i, Nat.lt_succ_of_lt below, here⟩
          have invalid : ¬statusInvalid = statusOk := by decide
          simp only [turn, earlier, later, and_self, if_true, invalid, if_false]
        · have last : (∃ i < n + 1, bad (lba i)) ↔ bad (lba n) := by
            constructor
            · rintro ⟨i, below, here⟩
              rcases Nat.lt_succ_iff_lt_or_eq.mp below with earlier | rfl
              · exact absurd ⟨i, earlier, here⟩ found
              · exact here
            · exact fun here => ⟨n, Nat.lt_succ_self n, here⟩
          simp only [turn, found, last, true_and, and_false, if_false, if_true]
      · simp only [turn, fine, false_and, if_false]

theorem checkRecords_eq {status count : Nat} (room : status = statusOk → count ≤ maxWrites) :
    (List.range count).foldlM (checkRecord sectors request) status =
      some (if status = statusOk ∧ ∃ i < count, recordLba request i ≥ sectors then statusInvalid
        else status) := by
  have reads : status = statusOk → ∀ i < count,
      loadIn frameBytes request (recordAt i) 8 = some (recordLba request i) := fun fine i below =>
    recordLba_inside (Nat.lt_of_lt_of_le below (room fine))
  have run := checkLbas_eq (fun lba => lba ≥ sectors) reads
  simp only [decide_eq_true_eq] at run
  exact run

theorem writeRecords_eq {count : Nat} (few : count ≤ maxWrites)
    (inside : ∀ i < count, recordLba request i < sectors) :
    (List.range count).foldlM (putRecord (sectors * sectorBytes) request) image =
      some (writeRecords image request count) := by
  apply foldlM_some
  intro image i member
  have below := List.mem_range.mp member
  have record := record_inside (Nat.lt_of_lt_of_le below few)
  unfold writeRecord at record
  rw [putRecord, recordLba_inside (Nat.lt_of_lt_of_le below few), Option.bind_eq_bind, Option.bind_some]
  exact pasteIn_inside (by omega) (sector_inside (inside i below))

theorem countIn_eq (given : Prop) [Decidable given] :
    countIn given request = some (if given then rntpGetNumber request headerBytes 4 else 0) := by
  unfold countIn
  by_cases long : given
  · simp only [long, decide_true, if_true]
    exact loadIn_inside (by decide)
  · simp only [long, decide_false, Bool.false_eq_true, if_false]

theorem outcomeChecked_eq (positive : 0 < sectors) :
    outcomeChecked image sectors generation permitted request reply h =
      some (rntpOutcome image sectors generation permitted request reply h) := by
  have first : 0 + sectorBytes ≤ sectors * sectorBytes := by
    have one := sector_inside positive
    rwa [Nat.zero_mul] at one
  dsimp only [outcomeChecked, rntpOutcome]
  refine if_some (fun _ => rfl) fun _ => ?_
  refine if_some (fun _ => ?_) fun _ => ?_
  · refine if_some (fun _ => rfl) fun _ => if_some (fun _ => rfl) fun _ => ?_
    rw [pasteIn_inside first (by decide)]
    rfl
  refine if_some (fun _ => rfl) fun _ => if_some (fun _ => rfl) fun _ => ?_
  refine if_some (fun _ => if_some (fun _ => rfl) fun _ => rfl) fun _ => ?_
  refine if_some (fun _ => if_some (fun _ => rfl) fun _ => ?_) fun _ => ?_
  · rw [freeSpaceChecked_eq, Option.bind_some]
    cases rntpFreeSpace image sectors with
    | none => rfl
    | some free =>
        dsimp only
        rw [storeIn_inside (by decide)]
        rfl
  refine if_some (fun _ => if_some (fun _ => rfl) fun _ => ?_) fun _ => ?_
  · rw [storeIn_inside (by decide)]
    rfl
  refine if_some (fun _ => ?_) fun _ => ?_
  · rw [countIn_eq, Option.bind_eq_bind, Option.bind_some]
    refine if_some (fun _ => rfl) fun range => ?_
    generalize (if h.length = 4 then rntpGetNumber request headerBytes 4 else 0) = count at range ⊢
    simp only [not_or, not_lt, ge_iff_le, not_le] at range
    obtain ⟨-, few, inside, rest⟩ := range
    have read : h.lba * sectorBytes + count * sectorBytes ≤ sectors * sectorBytes := by
      rw [← Nat.add_mul]
      exact Nat.mul_le_mul_right sectorBytes (by omega)
    have written : headerBytes + count * sectorBytes ≤ frameBytes := by
      simp only [headerBytes, sectorBytes, frameBytes, batchBytes, maxWrites, writeRecord] at few ⊢
      omega
    rw [pasteIn_inside read written]
    rfl
  refine if_some (fun _ => ?_) fun _ => ?_
  · have counted : countIn (h.length ≥ 4) request = some (batchCount h request) := countIn_eq _
    rw [counted, Option.bind_eq_bind, Option.bind_some]
    generalize batchCount h request = count
    by_cases bad : badBatch h count
    · rw [if_pos bad, checkRecords_eq (fun fine => absurd fine (by decide)),
        if_neg (fun both => absurd both.1 (by decide)), if_pos (.inl bad)]
      rfl
    · have few : count ≤ maxWrites := by
        unfold badBatch at bad
        omega
      rw [if_neg bad, checkRecords_eq (fun _ => few)]
      by_cases beyond : ∃ i < count, recordLba request i ≥ sectors
      · rw [if_pos ⟨rfl, beyond⟩, if_pos (.inr beyond)]
        rfl
      · have inside : ∀ i < count, recordLba request i < sectors := fun i below =>
          Nat.lt_of_not_le fun past => beyond ⟨i, below, past⟩
        rw [if_neg (fun both => beyond both.2), if_neg (by rintro (fault | fault) <;> contradiction)]
        rw [Option.bind_some, if_pos rfl, writeRecords_eq few inside]
        rfl
  refine if_some (fun _ => rfl) fun below => ?_
  have sector := sector_inside (Nat.lt_of_not_le below)
  refine if_some (fun _ => ?_) fun _ => ?_
  · rw [pasteIn_inside sector (by decide)]
    rfl
  refine if_some (fun _ => ?_) fun _ => rfl
  rw [pasteIn_inside (by decide) sector]
  rfl

theorem handleChecked_eq (positive : 0 < sectors) :
    handleChecked image sectors generation permitted request reply =
      some (rntpHandle image sectors generation permitted request reply) := by
  unfold handleChecked rntpHandle
  rw [decodeChecked_eq, Option.bind_eq_bind, Option.bind_some]
  cases rntpDecode request with
  | none => rfl
  | some h =>
      dsimp only
      rw [outcomeChecked_eq positive, Option.bind_eq_bind, Option.bind_some, encodeChecked_eq]
      rfl

end Blocks

/-! The sessions' layer. -/
section Sessions

/-- What `rntp_sessions_init` makes sure of: there is a first sector, and a dirty mark for each. -/
structure Sized (s : RntpSessions) : Prop where
  positive : 0 < s.sectors
  markable : s.sectors ≤ dirtyBytes * 8

def restoreChecked (s : RntpSessions) : Option Memory :=
  let limit := s.sectors * sectorBytes
  (List.range s.sectors).foldlM (fun image lba => do
    let bits ← byteIn dirtyBytes s.dirty (lba / 8)
    if bits &&& bitOf lba ≠ 0
      then pasteIn limit image (lba * sectorBytes) limit s.undo (lba * sectorBytes) sectorBytes
    else return image) s.image

def clearDirty (s : RntpSessions) : Option Memory :=
  (List.range ((s.sectors + 7) / 8)).foldlM (fun dirty i => writeIn dirtyBytes dirty i 0) s.dirty

def countFreeChecked (s : RntpSessions) : Option RntpSessions := do
  let free ← freeSpaceChecked s.image s.sectors
  return { s with committedFree := free.getD s.committedFree }

def settleChecked (s : RntpSessions) (commit : Bool) : Option RntpSessions :=
  if s.modified then
    if !commit then (restoreChecked s).map fun image => { s with image }
    else countFreeChecked { s with revision := nextRevision s.revision }
  else some s

def finishChecked (s : RntpSessions) (commit : Bool) : Option RntpSessions := do
  let s ← settleChecked s commit
  let dirty ← clearDirty s
  return { s with dirty, modified := false, locked := none }

def rememberChecked (s : RntpSessions) (lba : Nat) : Option RntpSessions := do
  let limit := s.sectors * sectorBytes
  let bits ← byteIn dirtyBytes s.dirty (lba / 8)
  if bits &&& bitOf lba ≠ 0 then return { s with modified := true }
  else do
    let undo ← pasteIn limit s.undo (lba * sectorBytes) limit s.image (lba * sectorBytes) sectorBytes
    let dirty ← writeIn dirtyBytes s.dirty (lba / 8) (bits ||| bitOf lba)
    return { s with undo, dirty, modified := true }

def answerChecked (s : RntpSessions) (reply : Memory) (out : RntpHeader) : Option Handled := do
  let reply ← encodeChecked reply out
  return ⟨headerBytes + out.length, s, reply⟩

def greetChecked (s : RntpSessions) (peer : Nat) (h : RntpHeader) (reply : Memory) : Option Handled :=
  let out := replyTo h s.generation
  if h.length ≠ 0 ∨ h.lba ≠ 0 ∨ h.generation ≠ 0 ∨ s.peers peer ≠ .absent then
    answerChecked s reply { out with status := statusInvalid }
  else
    let shared := h.op = opHelloShared
    if s.legacy.isSome ∨ (¬shared ∧ ∃ p < peerCount, s.peers p ≠ .absent) then
      answerChecked s reply { out with status := statusBusy }
    else do
      let reply ← pasteIn frameBytes reply headerBytes (s.sectors * sectorBytes) s.image 0 sectorBytes
      answerChecked { s with peers := setPeer s.peers peer (if shared then .shared else .legacy),
                             legacy := if shared then s.legacy else some peer }
        reply { out with lba := s.sectors, length := sectorBytes }

def grantChecked (s : RntpSessions) (reply : Memory) (out : RntpHeader) : Option Handled := do
  let reply ← storeIn frameBytes reply headerBytes s.revision 8
  answerChecked s reply { out with length := 8 }

def arbitrateChecked (s : RntpSessions) (peer : Nat) (h : RntpHeader) (reply : Memory) : Option Handled :=
  let out := replyTo h s.generation
  if s.peers peer ≠ .shared ∨ h.length ≠ 0 ∨ h.lba ≠ 0 then
    answerChecked s reply { out with status := statusInvalid }
  else if h.op = opLock then
    if s.locked.isSome then answerChecked s reply { out with status := statusBusy }
    else grantChecked { s with locked := some peer } reply out
  else if s.locked ≠ some peer then answerChecked s reply { out with status := statusInvalid }
  else do
    let s ← finishChecked s (h.op = opUnlock)
    grantChecked s reply out

def delegateChecked (s : RntpSessions) (request reply : Memory) : Option Handled := do
  let (count, image, reply) ← handleChecked s.image s.sectors s.generation true request reply
  return ⟨count, { s with image }, reply⟩

/-- The sector of record `i` of a write, or of the only one. -/
def writeLbaIn (h : RntpHeader) (request : Memory) (i : Nat) : Option Nat :=
  if h.op = opWrite then some h.lba else loadIn frameBytes request (recordAt i) 8

def sharedCountIn (h : RntpHeader) (request : Memory) : Option Nat :=
  if h.op = opWrite then some 1 else countIn (h.length ≥ 4) request

def checkShared (s : RntpSessions) (h : RntpHeader) (request : Memory) (status i : Nat) : Option Nat :=
  checkLba (fun lba => lba = 0 ∨ lba ≥ s.sectors) (writeLbaIn h request) status i

def rememberRecord (h : RntpHeader) (request : Memory) (s : RntpSessions) (i : Nat) :
    Option RntpSessions := do
  let lba ← writeLbaIn h request i
  rememberChecked s lba

def sharedWriteChecked (s : RntpSessions) (h : RntpHeader) (request reply : Memory) : Option Handled := do
  let count ← sharedCountIn h request
  let status ← (List.range count).foldlM (checkShared s h request)
    (if (h.op = opWrite ∧ h.length ≠ sectorBytes) ∨ (h.op = opWriteBatch ∧ badBatch h count)
      then statusInvalid
      else statusOk)
  if status = statusOk then do
    let s ← (List.range count).foldlM (rememberRecord h request) s
    delegateChecked s request reply
  else answerChecked s reply { replyTo h s.generation with status }

def directServiceChecked (s : RntpSessions) (write : Bool) (request reply : Memory) : Option Handled := do
  let result ← delegateChecked s request reply
  if result.count ≠ 0 ∧ write then do
    let sent ← decodeChecked result.reply
    if sent.any fun header => header.status = statusOk then do
      let s := result.sessions
      let s ← countFreeChecked { s with revision := (s.revision + 1) % 2 ^ 64 }
      return { result with sessions := s }
    else return result
  else return result

def serveBlocksChecked (s : RntpSessions) (peer : Nat) (h : RntpHeader) (request reply : Memory) :
    Option Handled :=
  let write := h.op = opWrite ∨ h.op = opWriteBatch
  let block := write ∨ h.op = opRead ∨ h.op = opReadBatch
  if block ∧ s.peers peer = .shared ∧ s.locked ≠ some peer then
    answerChecked s reply { replyTo h s.generation with status := statusBusy }
  else if write ∧ s.peers peer = .shared then sharedWriteChecked s h request reply
  else directServiceChecked s write request reply

def sessionsHandleChecked (s : RntpSessions) (peer : Nat) (request reply : Memory) : Option Handled :=
  if peer ≥ peerCount then some ⟨0, s, reply⟩
  else (decodeChecked request).bind fun
    | none => some ⟨0, s, reply⟩
    | some h =>
        let out := replyTo h s.generation
        if h.id = 0 ∨ h.status ≠ 0 ∨ h.op &&& response ≠ 0 then
          answerChecked s reply { out with status := statusInvalid }
        else if h.op = opHello ∨ h.op = opHelloShared then greetChecked s peer h reply
        else if s.peers peer = .absent then answerChecked s reply { out with status := statusBusy }
        else if h.generation ≠ s.generation then answerChecked s reply { out with status := statusStale }
        else if h.op = opCaps ∧ h.length = 0 ∧ h.lba = 0 then
          (storeIn frameBytes reply headerBytes (capBatch ||| capShared ||| capReadBatch) 8).bind fun reply =>
            answerChecked s reply { out with length := 8 }
        else if h.op = opLock ∨ h.op = opUnlock ∨ h.op = opAbort then arbitrateChecked s peer h reply
        else if h.op = opStat ∧ h.length = 0 ∧ h.lba = 0 then
          (storeIn frameBytes reply headerBytes s.committedFree statBytes).bind fun reply =>
            answerChecked s reply { out with length := statBytes }
        else serveBlocksChecked s peer h request reply

variable {s : RntpSessions} {peer : Nat} {request reply : Memory} {h : RntpHeader}

theorem Sized.dirty_inside (sized : Sized s) {lba : Nat} (below : lba < s.sectors) : lba / 8 < dirtyBytes :=
  Nat.div_lt_of_lt_mul (Nat.lt_of_lt_of_le below (Nat.mul_comm 8 dirtyBytes ▸ sized.markable))

theorem restoreChecked_eq (sized : Sized s) : restoreChecked s = some (restore s) := by
  apply foldlM_some
  intro image lba member
  have below := List.mem_range.mp member
  have sector := sector_inside below
  rw [byteIn_inside (sized.dirty_inside below), Option.bind_eq_bind, Option.bind_some]
  exact if_some (fun _ => pasteIn_inside sector sector) fun _ => rfl

theorem clearDirty_eq (sized : Sized s) :
    clearDirty s = some fun i => if i < (s.sectors + 7) / 8 then 0 else s.dirty i := by
  have run := foldlM_some (f := fun dirty i => writeIn dirtyBytes dirty i 0)
    (g := fun dirty i => writeByte dirty i 0) (List.range ((s.sectors + 7) / 8)) (fun dirty i member => by
      have below := List.mem_range.mp member
      have size := sized.markable
      exact writeIn_inside (by omega) 0) s.dirty
  rw [clearDirty, run]
  congr 1
  clear run
  induction (s.sectors + 7) / 8 with
  | zero => simp
  | succ n ih =>
      rw [List.range_succ, List.foldl_append, List.foldl_cons, List.foldl_nil, ih]
      funext i
      unfold writeByte
      by_cases last : i = n
      · subst last
        rw [if_pos rfl, if_pos (Nat.lt_succ_self i)]
      · have same : i < n + 1 ↔ i < n := by omega
        simp only [last, if_false, same]

theorem countFreeChecked_eq (s : RntpSessions) : countFreeChecked s = some (countFree s) := by
  rw [countFreeChecked, freeSpaceChecked_eq]
  rfl

theorem settleChecked_eq (sized : Sized s) (commit : Bool) :
    settleChecked s commit = some (if s.modified then
      if !commit then { s with image := restore s }
        else countFree { s with revision := nextRevision s.revision }
      else s) := by
  refine if_some (fun _ => if_some (fun _ => ?_) fun _ => countFreeChecked_eq _) fun _ => rfl
  rw [restoreChecked_eq sized]
  rfl

theorem finishChecked_eq (sized : Sized s) (commit : Bool) :
    finishChecked s commit = some (finish s commit) := by
  rw [finishChecked, settleChecked_eq sized, Option.bind_eq_bind, Option.bind_some]
  have settled : Sized (if s.modified then
      if !commit then { s with image := restore s }
        else countFree { s with revision := nextRevision s.revision }
      else s) := by
    split
    · split
      · exact ⟨sized.positive, sized.markable⟩
      · exact ⟨sized.positive, sized.markable⟩
    · exact sized
  rw [clearDirty_eq settled]
  rfl

theorem rememberChecked_eq (sized : Sized s) {lba : Nat} (below : lba < s.sectors) :
    rememberChecked s lba = some (remember s lba) := by
  have sector := sector_inside below
  have dirty := sized.dirty_inside below
  unfold rememberChecked remember
  rw [byteIn_inside dirty, Option.bind_eq_bind, Option.bind_some]
  by_cases known : marked s.dirty lba
  · have bits : s.dirty (lba / 8) &&& bitOf lba ≠ 0 := known
    simp only [known, if_true]
    rw [if_pos bits]
    rfl
  · have bits : ¬(s.dirty (lba / 8) &&& bitOf lba ≠ 0) := known
    simp only [known, if_false]
    rw [if_neg bits, pasteIn_inside sector sector, Option.bind_eq_bind, Option.bind_some,
      writeIn_inside dirty]
    rfl

theorem remember_sized (sized : Sized s) (lba : Nat) : Sized (remember s lba) := by
  unfold remember
  dsimp only
  split
  · exact ⟨sized.positive, sized.markable⟩
  · exact ⟨sized.positive, sized.markable⟩

theorem answerChecked_eq (s : RntpSessions) (reply : Memory) (out : RntpHeader) :
    answerChecked s reply out = some (answer s reply out) := by
  rw [answerChecked, encodeChecked_eq]
  rfl

theorem greetChecked_eq (sized : Sized s) : greetChecked s peer h reply = some (greet s peer h reply) := by
  have first : 0 + sectorBytes ≤ s.sectors * sectorBytes := by
    have one := sector_inside sized.positive
    rwa [Nat.zero_mul] at one
  refine if_some (fun _ => answerChecked_eq s reply _) fun _ => ?_
  refine if_some (fun _ => answerChecked_eq s reply _) fun _ => ?_
  rw [pasteIn_inside first (by decide), Option.bind_eq_bind, Option.bind_some]
  exact answerChecked_eq _ _ _

theorem grantChecked_eq (s : RntpSessions) (reply : Memory) (out : RntpHeader) :
    grantChecked s reply out =
      some (answer s (rntpPutNumber reply headerBytes s.revision 8) { out with length := 8 }) := by
  rw [grantChecked, storeIn_inside (by decide), Option.bind_eq_bind, Option.bind_some]
  exact answerChecked_eq _ _ _

theorem arbitrateChecked_eq (sized : Sized s) :
    arbitrateChecked s peer h reply = some (arbitrate s peer h reply) := by
  refine if_some (fun _ => answerChecked_eq s reply _) fun _ => if_some (fun _ => ?_) fun _ => ?_
  · exact if_some (fun _ => answerChecked_eq s reply _) fun _ => grantChecked_eq _ reply _
  · refine if_some (fun _ => answerChecked_eq s reply _) fun _ => ?_
    rw [finishChecked_eq sized, Option.bind_eq_bind, Option.bind_some]
    exact grantChecked_eq _ reply _

theorem delegateChecked_eq (sized : Sized s) :
    delegateChecked s request reply = some (delegate s request reply) := by
  rw [delegateChecked, handleChecked_eq sized.positive]
  rfl

theorem sharedWriteChecked_eq (sized : Sized s) (write : h.op = opWrite ∨ h.op = opWriteBatch) :
    sharedWriteChecked s h request reply = some (sharedWrite s h request reply) := by
  have counted : sharedCountIn h request = some (sharedWriteCount h request) :=
    if_some (fun _ => rfl) fun _ => countIn_eq _
  unfold sharedWriteChecked sharedWrite
  rw [counted, Option.bind_eq_bind, Option.bind_some]
  dsimp only
  generalize number : sharedWriteCount h request = count
  -- the records are read when the batch itself is in order
  have reads : ∀ i < count, count ≤ maxWrites → writeLbaIn h request i = some (sharedWriteLba h request i) :=
    fun i below few => if_some (fun _ => rfl) fun _ => recordLba_inside (Nat.lt_of_lt_of_le below few)
  by_cases bad : (h.op = opWrite ∧ h.length ≠ sectorBytes) ∨ (h.op = opWriteBatch ∧ badBatch h count)
  · have stopped : (List.range count).foldlM (checkShared s h request) statusInvalid =
        some statusInvalid := by
      have unread : statusInvalid = statusOk →
          ∀ i < count, writeLbaIn h request i = some (sharedWriteLba h request i) :=
        fun fine => absurd fine (by decide)
      have run := checkLbas_eq (fun lba => lba = 0 ∨ lba ≥ s.sectors) unread
      rw [if_neg (fun both => absurd both.1 (by decide))] at run
      exact run
    have fault : (h.op = opWrite ∧ h.length ≠ sectorBytes) ∨ (h.op = opWriteBatch ∧ badBatch h count) ∨
        ∃ i < count, sharedWriteLba h request i = 0 ∨ sharedWriteLba h request i ≥ s.sectors :=
      bad.imp_right Or.inl
    rw [if_pos bad, stopped, if_pos fault]
    exact answerChecked_eq s reply _
  · have few : count ≤ maxWrites := by
      rcases write with single | batch
      · rw [← number, sharedWriteCount, if_pos single]
        decide
      · have good : ¬badBatch h count := fun fault => bad (.inr ⟨batch, fault⟩)
        unfold badBatch at good
        omega
    have read : statusOk = statusOk → ∀ i < count, writeLbaIn h request i =
        some (sharedWriteLba h request i) :=
      fun _ i below => reads i below few
    have run := checkLbas_eq (fun lba => lba = 0 ∨ lba ≥ s.sectors) read
    simp only [decide_eq_true_eq, true_and] at run
    have checked : (List.range count).foldlM (checkShared s h request) statusOk =
        some (if ∃ i < count, sharedWriteLba h request i = 0 ∨ sharedWriteLba h request i ≥ s.sectors then
          statusInvalid else statusOk) := run
    rw [if_neg bad, checked]
    by_cases beyond : ∃ i < count, sharedWriteLba h request i = 0 ∨ sharedWriteLba h request i ≥ s.sectors
    · rw [if_pos beyond, if_pos (.inr (.inr beyond))]
      exact answerChecked_eq s reply _
    · have fine : ¬((h.op = opWrite ∧ h.length ≠ sectorBytes) ∨ (h.op = opWriteBatch ∧ badBatch h count) ∨
          ∃ i < count, sharedWriteLba h request i = 0 ∨ sharedWriteLba h request i ≥ s.sectors) := by
        rintro (single | batch | past)
        · exact bad (.inl single)
        · exact bad (.inr batch)
        · exact beyond past
      have inside : ∀ i < count, sharedWriteLba h request i < s.sectors := fun i below =>
        Nat.lt_of_not_le fun past => beyond ⟨i, below, .inr past⟩
      obtain ⟨kept, still, -⟩ := foldlM_kept (f := rememberRecord h request)
        (g := fun s i => remember s (sharedWriteLba h request i))
        (fun x => Sized x ∧ x.sectors = s.sectors) (List.range count) (fun x keeps i member => by
          have below := List.mem_range.mp member
          constructor
          · rw [rememberRecord, reads i below few, Option.bind_eq_bind, Option.bind_some]
            exact rememberChecked_eq keeps.1 (keeps.2 ▸ inside i below)
          · refine ⟨remember_sized keeps.1 _, ?_⟩
            rw [← keeps.2]
            unfold remember
            dsimp only
            split <;> rfl) ⟨sized, rfl⟩
      rw [if_neg beyond, if_neg fine, Option.bind_some, if_pos rfl, kept, Option.bind_eq_bind,
        Option.bind_some]
      exact delegateChecked_eq still

theorem directServiceChecked_eq (sized : Sized s) (write : Bool) :
    directServiceChecked s write request reply = some (directService s write request reply) := by
  unfold directServiceChecked directService
  rw [delegateChecked_eq sized, Option.bind_eq_bind, Option.bind_some]
  generalize delegate s request reply = result
  dsimp only
  by_cases sent : result.count ≠ 0 ∧ write
  · rw [if_pos sent, decodeChecked_eq, Option.bind_eq_bind, Option.bind_some]
    have writes : write = true := sent.2
    have counted : (result.count ≠ 0) = True := eq_true sent.1
    simp only [accepted, writes, counted, decide_true, Bool.true_and]
    refine if_some (fun _ => ?_) fun _ => rfl
    rw [countFreeChecked_eq]
    rfl
  · have refused : ¬(write && accepted result.count result.reply) = true := by
      simp only [accepted, Bool.and_eq_true, decide_eq_true_eq]
      exact fun all => sent ⟨all.2.1, all.1⟩
    rw [if_neg sent, if_neg refused]
    rfl

theorem serveBlocksChecked_eq (sized : Sized s) :
    serveBlocksChecked s peer h request reply = some (serveBlocks s peer h request reply) := by
  refine if_some (fun _ => answerChecked_eq s reply _) fun _ => ?_
  exact if_some (fun write => sharedWriteChecked_eq sized write.1) fun _ => directServiceChecked_eq sized _

theorem sessionsHandleChecked_eq (sized : Sized s) :
    sessionsHandleChecked s peer request reply = some (rntpSessionsHandle s peer request reply) := by
  refine if_some (fun _ => rfl) fun _ => ?_
  rw [decodeChecked_eq, Option.bind_some]
  cases rntpDecode request with
  | none => rfl
  | some h =>
      refine if_some (fun _ => answerChecked_eq s reply _) fun _ => ?_
      refine if_some (fun _ => greetChecked_eq sized) fun _ => ?_
      refine if_some (fun _ => answerChecked_eq s reply _) fun _ => ?_
      refine if_some (fun _ => answerChecked_eq s reply _) fun _ => ?_
      refine if_some (fun _ => ?_) fun _ => ?_
      · rw [storeIn_inside (by decide), Option.bind_some]
        exact answerChecked_eq s _ _
      refine if_some (fun _ => arbitrateChecked_eq sized) fun _ => ?_
      refine if_some (fun _ => ?_) fun _ => serveBlocksChecked_eq sized
      rw [storeIn_inside (by decide), Option.bind_some]
      exact answerChecked_eq s _ _

end Sessions

/-! What an answer says about its request. -/
section Answers

/-- No reply, or a whole one; and only an accepted request has changed the image. -/
structure Orderly (before : Memory) (count : Nat) (after reply : Memory) : Prop where
  length : count = 0 ∨ ∃ header, rntpDecode reply = some header ∧ count = headerBytes + header.length
  kept : accepted count reply = false → after = before

variable {s : RntpSessions} {peer : Nat} {image request reply : Memory} {h : RntpHeader}
  {sectors generation : Nat} {permitted : Bool}

theorem accepted_encoded (reply : Memory) (out : RntpHeader) (fits : out.length ≤ batchBytes)
    (status : out.status ≤ statusStale) :
    accepted (headerBytes + out.length) (rntpEncode reply out) = decide (out.status = statusOk) := by
  have narrow : out.status % 65536 = out.status := Nat.mod_eq_of_lt (Nat.lt_of_le_of_lt status (by decide))
  simp [accepted, decode_encode reply out fits, narrow]

theorem Orderly.encoded {before after : Memory} (reply : Memory) (out : RntpHeader)
    (fits : out.length ≤ batchBytes)
    (status : out.status ≤ statusStale) (kept : out.status ≠ statusOk → after = before) :
    Orderly before (headerBytes + out.length) after (rntpEncode reply out) := by
  constructor
  · exact .inr ⟨_, decode_encode reply out fits, rfl⟩
  · intro refused
    rw [accepted_encoded reply out fits status] at refused
    exact kept (of_decide_eq_false refused)

theorem handle_orderly (image : Memory) (sectors generation : Nat) (permitted : Bool)
    (request reply : Memory) :
    Orderly image (rntpHandle image sectors generation permitted request reply).1
      (rntpHandle image sectors generation permitted request reply).2.1
      (rntpHandle image sectors generation permitted request reply).2.2 := by
  unfold rntpHandle
  cases rntpDecode request with
  | none => exact ⟨.inl rfl, fun _ => rfl⟩
  | some h =>
      obtain ⟨fits, status⟩ := outcome_bounds image sectors generation permitted request reply h
      refine .encoded _ _ fits status fun failed => ?_
      rcases outcome_image image sectors generation permitted request reply h _ rfl with same | changed
      · exact same.1
      · exact absurd changed.1 failed

theorem delegate_orderly (s : RntpSessions) (request reply : Memory) :
    Orderly s.image (delegate s request reply).count (delegate s request reply).sessions.image
      (delegate s request reply).reply := handle_orderly s.image s.sectors s.generation true request reply

theorem directService_orderly (s : RntpSessions) (write : Bool) (request reply : Memory) :
    Orderly s.image (directService s write request reply).count
      (directService s write request reply).sessions.image
      (directService s write request reply).reply := by
  have served := delegate_orderly s request reply
  unfold directService
  dsimp only
  split
  · exact served
  · exact served

theorem sessionsHandle_orderly (s : RntpSessions) (peer : Nat) (request reply : Memory) :
    Orderly s.image (rntpSessionsHandle s peer request reply).count
      (rntpSessionsHandle s peer request reply).sessions.image
        (rntpSessionsHandle s peer request reply).reply := by
  let Fine : Handled → Prop := fun result => Orderly s.image result.count result.sessions.image result.reply
  have ignored : Fine ⟨0, s, reply⟩ := ⟨.inl rfl, fun _ => rfl⟩
  cases decoded : rntpDecode request with
  | none =>
      have silent : rntpSessionsHandle s peer request reply = ⟨0, s, reply⟩ := by
        unfold rntpSessionsHandle
        split
        · rfl
        · rw [decoded]
      rw [silent]
      exact ignored
  | some h =>
      have refused : ∀ status, status ≠ statusOk → status ≤ statusStale →
          Fine (answer s reply { replyTo h s.generation with status }) := fun status _ bound =>
        .encoded _ _ (Nat.zero_le _) bound fun _ => rfl
      have told : ∀ (s' : RntpSessions) text lba length, length ≤ batchBytes →
          Fine (answer s' text { replyTo h s.generation with lba, length }) := fun s' text lba length fits =>
        .encoded _ _ fits (Nat.zero_le _) fun failed => absurd rfl failed
      apply handle_cases decoded Fine ignored refused
      · intro hello
        unfold greet
        refine iteInduction (motive := Fine) (fun _ => refused _ (by decide) (by decide)) fun _ => ?_
        refine iteInduction (motive := Fine) (fun _ => refused _ (by decide) (by decide)) fun _ => ?_
        exact told _ _ s.sectors sectorBytes (by decide)
      · intro value _ _
        exact told s _ h.lba 8 (by decide)
      · intro arbitrating
        apply arbitrate_cases Fine refused
        · intro _ _ _
          exact told _ _ h.lba 8 (by decide)
        · intro _ _ _
          exact told _ _ h.lba 8 (by decide)
      · intro _ present _ _
        apply serveBlocks_cases Fine present refused
        · intro write _ _ _
          have rest := remember_all_rest s (writtenLbas request h)
          have served := delegate_orderly ((writtenLbas request h).foldl remember s) request reply
          have same : ((writtenLbas request h).foldl remember s).image = s.image := by rw [rest]
          rw [same, ← sharedWrite_lbas request write, List.foldl_map] at served
          exact served
        · intro _
          exact directService_orderly s _ request reply

theorem outcome_bad_record (batch : h.op = opWriteBatch) {i : Nat} (named : i < batchCount h request)
    (beyond : recordLba request i ≥ sectors) :
    (rntpOutcome image sectors generation permitted request reply h).out.status ≠ statusOk := by
  let bad : Outcome → Prop := fun result => result.out.status ≠ statusOk
  have failed : ∀ status, status ≠ statusOk → bad ⟨{ replyTo h generation with status }, image, reply⟩ :=
    fun _ failed fine => failed fine
  have broken : badBatch h (batchCount h request) ∨
      ∃ i < batchCount h request, recordLba request i ≥ sectors :=
    .inr ⟨i, named, beyond⟩
  have hello : ¬h.op = opHello := by rw [batch]; decide
  have ping : ¬h.op = opPing := by rw [batch]; decide
  have stat : ¬h.op = opStat := by rw [batch]; decide
  have caps : ¬h.op = opCaps := by rw [batch]; decide
  have reading : ¬h.op = opReadBatch := by rw [batch]; decide
  dsimp only [rntpOutcome]
  rw [if_neg hello, if_neg ping, if_neg stat, if_neg caps, if_neg reading, if_pos batch, if_pos broken]
  refine iteInduction (motive := bad) (fun _ => failed _ (by decide)) fun _ => ?_
  refine iteInduction (motive := bad) (fun _ => failed _ (by decide)) fun _ => ?_
  exact iteInduction (motive := bad) (fun _ => failed _ (by decide)) fun _ => failed _ (by decide)

theorem handle_bad_record (decoded : rntpDecode request = some h) (batch : h.op = opWriteBatch) {i : Nat}
    (named : i < batchCount h request) (beyond : recordLba request i ≥ sectors) :
    accepted (rntpHandle image sectors generation permitted request reply).1
      (rntpHandle image sectors generation permitted request reply).2.2 = false := by
  obtain ⟨fits, status⟩ := outcome_bounds image sectors generation permitted request reply h
  simp only [rntpHandle, decoded]
  rw [accepted_encoded _ _ fits status]
  exact decide_eq_false (outcome_bad_record batch named beyond)

theorem sessionsHandle_bad_record (decoded : rntpDecode request = some h)
    (batch : h.op = opWriteBatch) {i : Nat}
    (named : i < batchCount h request) (beyond : recordLba request i ≥ s.sectors) :
    accepted (rntpSessionsHandle s peer request reply).count (rntpSessionsHandle s peer request reply).reply =
      false := by
  let Refused : Handled → Prop := fun result => accepted result.count result.reply = false
  have refused : ∀ status, status ≠ statusOk → status ≤ statusStale →
      Refused (answer s reply { replyTo h s.generation with status }) := fun status failed bound =>
    (accepted_encoded reply _ (Nat.zero_le _) bound).trans (decide_eq_false failed)
  have other : h.op ≠ opWrite := by rw [batch]; decide
  apply handle_cases decoded Refused rfl refused
  · rintro (hello | hello)
    · exact absurd (hello.symm.trans batch) (by decide)
    · exact absurd (hello.symm.trans batch) (by decide)
  · rintro _ _ (caps | stat)
    · exact absurd (caps.symm.trans batch) (by decide)
    · exact absurd (stat.symm.trans batch) (by decide)
  · rintro (lock | unlock | abort)
    · exact absurd (lock.symm.trans batch) (by decide)
    · exact absurd (unlock.symm.trans batch) (by decide)
    · exact absurd (abort.symm.trans batch) (by decide)
  · intro _ present _ _
    apply serveBlocks_cases Refused present refused
    · intro _ _ _ inside
      have here := (inside i (by rw [sharedWriteCount, if_neg other]; exact named)).2
      rw [sharedWriteLba, if_neg other] at here
      exact absurd here (Nat.not_lt.mpr beyond)
    · intro _
      have served : accepted (delegate s request reply).count (delegate s request reply).reply = false :=
        handle_bad_record decoded batch named beyond
      have direct : directService s (h.op = opWrite ∨ h.op = opWriteBatch) request reply =
          delegate s request reply := by
        simp only [directService, served, Bool.and_false, Bool.false_eq_true, if_false]
      rw [direct]
      exact served

end Answers

section Guarantees

theorem decoded_fits {input : Memory} {h : RntpHeader} (decoded : rntpDecode input = some h) :
    h.length ≤ batchBytes := by
  unfold rntpDecode at decoded
  split at decoded
  · cases decoded
  · split at decoded
    · rename_i fits
      cases decoded
      exact fits
    · cases decoded

theorem run_sectors (x : Export) (calls : List Call) :
    (run x calls).sessions.sectors = x.sessions.sectors := by
  induction calls generalizing x with
  | nil => rfl
  | cons call rest ih => exact (ih (step x call)).trans (step_sectors x call)

theorem run_sized {image undo : Memory} {sectors generation : Nat} {start : RntpSessions}
    (opened : rntpSessionsInit image undo sectors generation = some start) (calls : List Call) :
    Sized (run ⟨start, image⟩ calls).sessions := by
  have same : (run ⟨start, image⟩ calls).sessions.sectors = sectors :=
    (run_sectors ⟨start, image⟩ calls).trans (init_known opened).2
  unfold rntpSessionsInit at opened
  split at opened
  · contradiction
  · rename_i checked
    simp only [not_or] at checked
    obtain ⟨-, positive, room⟩ := checked
    exact ⟨same ▸ Nat.pos_of_ne_zero positive, same ▸ Nat.le_of_not_lt room⟩

theorem requests_contained :
    (∀ (out : Memory) (op : UInt8) (status : UInt16) (length : UInt32) (id lba generation : UInt64),
      length.toNat ≤ batchBytes →
      rntpDecode (rntpEncode out ⟨op, status.toNat, length.toNat, id.toNat, lba.toNat, generation.toNat⟩) =
        some ⟨op, status.toNat, length.toNat, id.toNat, lba.toNat, generation.toNat⟩) ∧
    (∀ input h, rntpDecode input = some h →
      h.length ≤ batchBytes ∧ ∀ out x, x < headerBytes → rntpEncode out h x = input x) ∧
    (∀ image sectors generation permitted request reply, 0 < sectors →
      handleChecked image sectors generation permitted request reply =
        some (rntpHandle image sectors generation permitted request reply) ∧
      Orderly image (rntpHandle image sectors generation permitted request reply).1
        (rntpHandle image sectors generation permitted request reply).2.1
        (rntpHandle image sectors generation permitted request reply).2.2 ∧
      ∀ h i, rntpDecode request = some h → h.op = opWriteBatch → i < batchCount h request →
        recordLba request i ≥ sectors →
        accepted (rntpHandle image sectors generation permitted request reply).1
          (rntpHandle image sectors generation permitted request reply).2.2 = false) ∧
    (∀ s peer request reply, Sized s →
      sessionsHandleChecked s peer request reply = some (rntpSessionsHandle s peer request reply) ∧
      Orderly s.image (rntpSessionsHandle s peer request reply).count
        (rntpSessionsHandle s peer request reply).sessions.image
          (rntpSessionsHandle s peer request reply).reply ∧
      ∀ h i, rntpDecode request = some h → h.op = opWriteBatch → i < batchCount h request →
        recordLba request i ≥ s.sectors →
        accepted (rntpSessionsHandle s peer request reply).count
          (rntpSessionsHandle s peer request reply).reply =
          false) ∧
    ∀ image undo sectors generation start calls, rntpSessionsInit image undo sectors generation = some start →
      Sized (run ⟨start, image⟩ calls).sessions := by
  refine ⟨decode_encode_typed, fun input h decoded => ⟨decoded_fits decoded, fun out x inside =>
    encode_decode decoded out inside⟩, ?_, ?_, fun image undo sectors generation start calls opened =>
    run_sized opened calls⟩
  · intro image sectors generation permitted request reply positive
    refine ⟨handleChecked_eq positive, handle_orderly image sectors generation permitted request reply, ?_⟩
    intro h i decoded batch named beyond
    exact handle_bad_record decoded batch named beyond
  · intro s peer request reply sized
    refine ⟨sessionsHandleChecked_eq sized, sessionsHandle_orderly s peer request reply, ?_⟩
    intro h i decoded batch named beyond
    exact sessionsHandle_bad_record decoded batch named beyond

/-- A batch of one record, whose sector is the first one past the image. -/
def pastEnd : Memory :=
  storeBE (storeBE (frame opWriteBatch (4 + writeRecord) 0 5) headerBytes 1 4) (headerBytes + 4) 10 8

theorem pastEnd_refused :
    accepted (rntpHandle smallImage 10 5 true pastEnd fun _ => 0).1
        (rntpHandle smallImage 10 5 true pastEnd fun _ => 0).2.2 = false ∧
      (rntpHandle smallImage 10 5 true pastEnd fun _ => 0).2.1 = smallImage := by
  obtain ⟨-, orderly, bad⟩ :=
    requests_contained.2.2.1 smallImage 10 5 true pastEnd (fun _ => 0) (by decide)
  have refused := bad
    { op := opWriteBatch, status := 0, length := 4 + writeRecord, id := 1, lba := 0, generation := 5 } 0
    (by decide) rfl (by decide) (by decide)
  exact ⟨refused, orderly.kept refused⟩

end Guarantees
end R2Apps.RntpBounds
