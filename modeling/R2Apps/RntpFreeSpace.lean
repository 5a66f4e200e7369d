import R2Apps.FatVolume
import R2Apps.RntpTransactions

/-! The free space that a STAT reply reports: `rntp_free_space` of the committed image, whose count is kept
beside the image, against the count that the client makes of the same table. -/
namespace R2Apps.RntpFreeSpace
open ByteMemory BlockImages RntpProtocol RntpExport RntpTransactions FatVolume

section Table

/-- The server's clusters: free whatever their number. -/
def zeroEntries (f : RntpFat) (image : Memory) : Nat :=
  (List.range' 2 f.clusters).countP fun c => decide (tableEntry f.bits f.fat image c = 0)

theorem freeSpace_of_fatInit {image : Memory} {capacity : Nat} {f : RntpFat}
    (made : fatInit image capacity = .ok f) :
    rntpFreeSpace image capacity = some (zeroEntries f image * f.spc * 512) := by
  simp only [fatInit] at made
  unfold rntpFreeSpace
  generalize (if loadLE image 19 2 = 0 then loadLE image 32 4 else loadLE image 19 2) = total at made ⊢
  split at made
  · cases made
  rename_i sane
  simp only [not_or] at sane
  obtain ⟨low, high, size, spc, power, few, fat, fats, copies, sectors, entries, some_, room, -⟩ := sane
  rw [if_neg (by simp only [not_or]; exact ⟨by omega, low, high, size⟩)]
  dsimp only
  rw [if_neg (by simp only [not_or]; exact ⟨spc, power, few, fat, fats, copies, entries, sectors, room⟩)]
  split at made
  · cases made
  rename_i inside
  rw [if_neg inside]
  generalize (total - _) / (image 13).toNat = clusters at made ⊢
  split at made
  · cases made
  rename_i positive
  rw [if_neg positive]
  generalize (if clusters < 4085 then 12 else 16) = bits at made ⊢
  split at made
  · cases made
  rename_i held
  have held' : ¬(clusters + 2) * bits > loadLE image 22 2 * 512 * 8 := by
    rw [Nat.mul_assoc]
    exact held
  rw [if_neg held']
  cases made
  unfold zeroEntries
  dsimp only
  congr 3
  apply List.countP_congr
  intro c _
  have place : entryAt bits c = if bits = 12 then c * 3 / 2 else c * 2 := by
    unfold entryAt
    split
    · omega
    · rfl
  simp [tableEntry, place]

/-- No reserved number stands for a free entry. -/
def ReservedTaken (f : RntpFat) (image : Memory) : Prop :=
  ∀ c, reserved f.bits ≤ c → c < f.clusters + 2 → tableEntry f.bits f.fat image c ≠ 0

theorem counts_agree (f : RntpFat) (image : Memory) (above : 2 ≤ reserved f.bits) :
    zeroEntries f image = freeClusters f image ↔ ReservedTaken f image := by
  have split_ : zeroEntries f image = freeClusters f image +
      (List.range' 2 f.clusters).countP fun c =>
        decide (¬valid f c ∧ tableEntry f.bits f.fat image c = 0) := by
    unfold zeroEntries freeClusters
    rw [List.countP_eq_countP_filter_add (List.range' 2 f.clusters) _ fun c => decide (valid f c),
      List.countP_filter, List.countP_filter]
    congr 1
    · apply List.countP_congr
      intro c _
      simp [and_comm]
    · apply List.countP_congr
      intro c _
      simp [and_comm]
  have none_ : ((List.range' 2 f.clusters).countP fun c =>
      decide (¬valid f c ∧ tableEntry f.bits f.fat image c = 0)) = 0 ↔ ReservedTaken f image := by
    rw [List.countP_eq_zero]
    constructor
    · intro all c from_ below zero
      have member : c ∈ List.range' 2 f.clusters := List.mem_range'_1.mpr (by omega)
      apply all c member
      simp only [decide_eq_true_eq]
      exact ⟨fun fine => Nat.not_lt.mpr from_ fine.2.2, zero⟩
    · intro taken c member
      have range := List.mem_range'_1.mp member
      simp only [decide_eq_true_eq]
      rintro ⟨other, zero⟩
      refine taken c ?_ (by omega) zero
      apply Nat.le_of_not_lt
      intro below
      exact other ⟨range.1, by omega, below⟩
  rw [← none_, split_]
  omega

theorem free_agrees {image : Memory} {capacity : Nat} {f : RntpFat} (made : fatInit image capacity = .ok f) :
    ∃ free st, rntpFreeSpace image capacity = some free ∧ fatStatfs f image = .ok st ∧
      (free = st.bfree * st.bsize ↔ ReservedTaken f image) := by
  have accepted := fatInit_accepted made
  refine ⟨_, _, freeSpace_of_fatInit made, fatStatfs_eq accepted image, ?_⟩
  have above : 2 ≤ reserved f.bits := by
    unfold reserved
    split <;> decide
  rw [← counts_agree f image above]
  dsimp only
  rw [clusterBytes, Nat.mul_assoc]
  exact Nat.mul_left_inj (Nat.mul_pos accepted.spc (by decide)).ne'

end Table

/-! `rntp_free_space` once more, every read checked against the `capacity` sectors that there are. -/
section Reads

/-- `le(p + address, count)` in a buffer of `limit` bytes. -/
def leIn (limit : Nat) (p : Memory) (address count : Nat) : Option Nat :=
  if address + count ≤ limit then some (loadLE p address count) else none

/-- A turn of the count, at a cluster. -/
def countCluster (limit : Nat) (image : Memory) (bits fat count cluster : Nat) : Option Nat := do
  let offset := if bits = 12 then cluster * 3 / 2 else cluster * 2
  let value ← leIn limit image (fat + offset) 2
  let value := if bits = 12 then (if cluster % 2 = 1 then value >>> 4 else value &&& 0xfff) else value
  return if value = 0 then count + 1 else count

def freeSpaceChecked (image : Memory) (capacity : Nat) : Option (Option Nat) :=
  let limit := capacity * 512
  if capacity < 1 then some none
  else do
    let low ← leIn limit image 510 1
    let high ← leIn limit image 511 1
    let size ← leIn limit image 11 2
    if low ≠ 0x55 ∨ high ≠ 0xaa ∨ size ≠ 512 then return none
    let small ← leIn limit image 19 2
    let large ← leIn limit image 32 4
    let total := if small = 0 then large else small
    let spc ← leIn limit image 13 1
    let reserved ← leIn limit image 14 2
    let fats ← leIn limit image 16 1
    let root ← leIn limit image 17 2
    let fatSectors ← leIn limit image 22 2
    if spc = 0 ∨ spc &&& (spc - 1) ≠ 0 ∨ spc > 64 ∨ reserved = 0 ∨ fats = 0 ∨ fats > 2 ∨ root = 0 ∨
        fatSectors = 0 ∨ total > capacity then return none
    let start := reserved + fats * fatSectors + (root * 32 + 511) / 512
    if start ≥ total then return none
    let clusters := (total - start) / spc
    if clusters = 0 ∨ clusters ≥ 65525 then return none
    let bits := if clusters < 4085 then 12 else 16
    if (clusters + 2) * bits > fatSectors * 512 * 8 then return none
    let count ← (List.range' 2 clusters).foldlM (countCluster limit image bits (reserved * 512)) 0
    return some (count * spc * 512)

theorem leIn_inside {limit : Nat} {p : Memory} {address count : Nat} (inside : address + count ≤ limit) :
    leIn limit p address count = some (loadLE p address count) := if_pos inside

theorem one_byte (p : Memory) (address : Nat) : loadLE p address 1 = (p address).toNat := by
  simp [loadLE]

/-- The entry that a turn looks at. -/
def clusterValue (image : Memory) (bits fat cluster : Nat) : Nat :=
  let value := loadLE image (fat + if bits = 12 then cluster * 3 / 2 else cluster * 2) 2
  if bits = 12 then (if cluster % 2 = 1 then value >>> 4 else value &&& 0xfff) else value

theorem countClusters_inside {limit bits fat sectors clusters : Nat} (image : Memory)
    (width : bits = 12 ∨ bits = 16) (room : (clusters + 2) * bits ≤ sectors * 512 * 8)
    (inside : fat + sectors * 512 ≤ limit) (l : List Nat) (below : ∀ c ∈ l, c < clusters + 2) (count : Nat) :
    l.foldlM (countCluster limit image bits fat) count =
      some (count + l.countP fun cluster => clusterValue image bits fat cluster == 0) := by
  induction l generalizing count with
  | nil => rfl
  | cons c rest ih =>
      have last := below c (List.mem_cons_self ..)
      have here : fat + (if bits = 12 then c * 3 / 2 else c * 2) + 2 ≤ limit := by
        rcases width with rfl | rfl
        · rw [if_pos rfl]
          omega
        · rw [if_neg (by decide)]
          omega
      have turn : countCluster limit image bits fat count c =
          some (if clusterValue image bits fat c = 0 then count + 1 else count) := by
        rw [countCluster, leIn_inside here]
        rfl
      rw [List.foldlM_cons, turn, Option.bind_eq_bind, Option.bind_some,
        ih (fun other member => below other (List.mem_cons_of_mem c member)), List.countP_cons]
      by_cases zero : clusterValue image bits fat c = 0
      · simp only [zero, if_true, beq_self_eq_true]
        rw [Nat.add_assoc, Nat.add_comm 1]
      · simp only [zero, if_false, beq_eq_false_iff_ne.mpr zero, Bool.false_eq_true, Nat.add_zero]

theorem none_or {p : Prop} [Decidable p] {x : Option (Option Nat)} {y : Option Nat} (rest : ¬p → x = some y) :
    (if p then pure none else x) = some (if p then none else y) := by
  by_cases here : p
  · rw [if_pos here, if_pos here]
    rfl
  · rw [if_neg here, if_neg here]
    exact rest here

theorem freeSpaceChecked_eq (image : Memory) (capacity : Nat) :
    freeSpaceChecked image capacity = some (rntpFreeSpace image capacity) := by
  unfold freeSpaceChecked rntpFreeSpace
  by_cases none_ : capacity < 1
  · simp [none_]
  have first : ∀ address count (next : Nat → Option (Option Nat)), address + count ≤ 512 →
      (leIn (capacity * 512) image address count >>= next) = next (loadLE image address count) := by
    intro address count next inside
    rw [leIn_inside (by omega), Option.bind_eq_bind, Option.bind_some]
  rw [if_neg none_]
  have signature : ((image 510).toNat ≠ 0x55 ∨ (image 511).toNat ≠ 0xaa ∨ loadLE image 11 2 ≠ 512) ↔
      (capacity < 1 ∨ image 510 ≠ 0x55 ∨ image 511 ≠ 0xaa ∨ loadLE image 11 2 ≠ 512) := by
    have low : (image 510).toNat = 0x55 ↔ image 510 = 0x55 := UInt8.toNat_inj (b := 0x55)
    have high : (image 511).toNat = 0xaa ↔ image 511 = 0xaa := UInt8.toNat_inj (b := 0xaa)
    simp only [none_, false_or, ne_eq, low, high]
  dsimp only
  rw [first 510 1 _ (by decide), first 511 1 _ (by decide), first 11 2 _ (by decide),
    first 19 2 _ (by decide),
    first 32 4 _ (by decide), first 13 1 _ (by decide), first 14 2 _ (by decide), first 16 1 _ (by decide),
    first 17 2 _ (by decide), first 22 2 _ (by decide)]
  rw [one_byte, one_byte, one_byte, one_byte]
  generalize (if loadLE image 19 2 = 0 then loadLE image 32 4 else loadLE image 19 2) = total
  by_cases wild : capacity < 1 ∨ image 510 ≠ 0x55 ∨ image 511 ≠ 0xaa ∨ loadLE image 11 2 ≠ 512
  · rw [if_pos (signature.mpr wild), if_pos wild]
    rfl
  rw [if_neg (mt signature.mp wild), if_neg wild]
  refine none_or fun sane => ?_
  simp only [not_or] at sane
  obtain ⟨spc, -, -, -, fats, -, -, -, room⟩ := sane
  refine none_or fun inside => ?_
  generalize (total - _) / (image 13).toNat = clusters
  refine none_or fun _ => ?_
  have width : (if clusters < 4085 then 12 else 16) = 12 ∨ (if clusters < 4085 then 12 else 16) = 16 := by
    split
    · exact .inl rfl
    · exact .inr rfl
  generalize (if clusters < 4085 then 12 else 16) = bits at width ⊢
  refine none_or fun held => ?_
  have table : loadLE image 14 2 * 512 + loadLE image 22 2 * 512 ≤ capacity * 512 := by
    have copy : loadLE image 22 2 ≤ (image 16).toNat * loadLE image 22 2 :=
      Nat.le_mul_of_pos_left _ (Nat.pos_of_ne_zero fats)
    omega
  rw [countClusters_inside image width (Nat.le_of_not_lt held) table _ (fun c member => by
    have range := List.mem_range'_1.mp member
    omega), Option.bind_eq_bind, Option.bind_some, Nat.zero_add]
  rfl

end Reads

section Counting

/-- What a step does to the count; the flag says whether it publishes the image. -/
structure Counts (s : RntpSessions) (flag : Bool) (s' : RntpSessions) : Prop where
  sectors : s'.sectors = s.sectors
  kept : flag = false → s'.committedFree = s.committedFree
  counted : flag = true → s'.committedFree = (rntpFreeSpace s'.image s.sectors).getD s.committedFree ∨
    s.modified = false ∧ s'.image = s.image ∧ s'.committedFree = s.committedFree

variable {s : RntpSessions} {peer : Nat} {request reply : Memory} {h : RntpHeader}

theorem Counts.quiet {s' : RntpSessions} {flag : Bool} (silent : flag = false)
    (sectors : s'.sectors = s.sectors)
    (free : s'.committedFree = s.committedFree) : Counts s flag s' :=
  ⟨sectors, fun _ => free, fun publishes => absurd (silent.symm.trans publishes) Bool.noConfusion⟩

theorem refused_silent (decoded : rntpDecode request = some h) (s' : RntpSessions) (text : Memory)
    {status : Nat}
    (failed : status ≠ statusOk) (bound : status ≤ statusStale) (out : RntpHeader)
    (fits : out.length ≤ batchBytes) :
    publishes s peer request (answer s' text { out with status }) = false := by
  rw [publishes_answer decoded s' text { out with status } fits bound]
  simp only [failed, decide_false, Bool.false_and]

theorem answer_silent (decoded : rntpDecode request = some h)
    (quiet : h.op ≠ opUnlock ∧ h.op ≠ opWrite ∧ h.op ≠ opWriteBatch) (result : Handled) :
    publishes s peer request result = false := by
  simp [publishes, decoded, quiet]

theorem finish_counts (s : RntpSessions) : Counts s true (finish s true) := by
  have rest := finish_rest s true
  refine ⟨rest.2.2.1, fun flag => absurd flag Bool.noConfusion, fun _ => ?_⟩
  cases modified : s.modified with
  | true => left; simp [finish, modified, countFree]
  | false => right; simp [finish, modified]

theorem abort_free (s : RntpSessions) : (finish s false).committedFree = s.committedFree := by
  unfold finish
  dsimp only
  split <;> rfl

theorem directService_counts (decoded : rntpDecode request = some h) (unlock : h.op ≠ opUnlock)
    (peers : s.peers peer = .legacy ∨ ¬(h.op = opWrite ∨ h.op = opWriteBatch)) :
    Counts s (publishes s peer request (directService s (h.op = opWrite ∨ h.op = opWriteBatch) request reply))
      (directService s (h.op = opWrite ∨ h.op = opWriteBatch) request reply).sessions := by
  by_cases write : h.op = opWrite ∨ h.op = opWriteBatch
  · have legacy : s.peers peer = .legacy := peers.resolve_right (not_not_intro write)
    cases sent : accepted (delegate s request reply).count (delegate s request reply).reply with
    | true =>
        have moved : directService s (h.op = opWrite ∨ h.op = opWriteBatch) request reply =
            { delegate s request reply with
              sessions := countFree { (delegate s request reply).sessions with
                revision := ((delegate s request reply).sessions.revision + 1) % 2 ^ 64 } } := by
          simp only [directService, sent, write, decide_true, Bool.and_self, if_true]
        rw [moved]
        have published : ∀ sessions,
            publishes s peer request { delegate s request reply with sessions } = true := by
          intro sessions
          simp only [publishes, sent, decoded, Option.any_some, legacy, write, and_self, or_true, decide_true,
            Bool.and_self]
        rw [published]
        exact ⟨rfl, fun flag => absurd flag Bool.noConfusion, fun _ => .inl rfl⟩
    | false =>
        have kept : directService s (h.op = opWrite ∨ h.op = opWriteBatch) request reply =
            delegate s request reply := by
          simp only [directService, sent, Bool.and_false, Bool.false_eq_true, if_false]
        rw [kept]
        exact .quiet (by simp [publishes, sent]) rfl rfl
  · have kept : directService s (h.op = opWrite ∨ h.op = opWriteBatch) request reply =
        delegate s request reply := by
      simp only [directService, write, decide_false, Bool.false_and, Bool.false_eq_true, if_false]
    rw [kept]
    have silent : publishes s peer request (delegate s request reply) = false := by
      simp only [publishes, decoded, Option.any_some, unlock, write, and_false, or_self,
        decide_false, Bool.and_false]
    exact .quiet silent rfl rfl

theorem handle_counts (s : RntpSessions) (peer : Nat) (request reply : Memory) :
    Counts s (publishes s peer request (rntpSessionsHandle s peer request reply))
      (rntpSessionsHandle s peer request reply).sessions := by
  have ignored : Counts s (publishes s peer request ⟨0, s, reply⟩) s :=
    .quiet (by simp [publishes, accepted]) rfl rfl
  cases decoded : rntpDecode request with
  | none =>
      have same : rntpSessionsHandle s peer request reply = ⟨0, s, reply⟩ := by
        simp only [rntpSessionsHandle, decoded, ite_self]
      rwa [same]
  | some h =>
      let Fine : Handled → Prop := fun result => Counts s (publishes s peer request result) result.sessions
      have refused : ∀ status, status ≠ statusOk → status ≤ statusStale →
          Fine (answer s reply { replyTo h s.generation with status }) := fun status failed bound =>
        .quiet (refused_silent decoded s reply failed bound _ (Nat.zero_le _)) rfl rfl
      apply handle_cases decoded Fine ignored refused
      · intro hello
        have quiet : h.op ≠ opUnlock ∧ h.op ≠ opWrite ∧ h.op ≠ opWriteBatch := by
          rcases hello with is | is <;> rw [is] <;> decide
        refine .quiet (answer_silent decoded quiet _) ?_ ?_
        · unfold greet
          dsimp only
          split
          · rfl
          · split <;> rfl
        · unfold greet
          dsimp only
          split
          · rfl
          · split <;> rfl
      · rintro value _ told
        have quiet : h.op ≠ opUnlock ∧ h.op ≠ opWrite ∧ h.op ≠ opWriteBatch := by
          rcases told with is | is <;> rw [is] <;> decide
        exact .quiet (answer_silent decoded quiet _) rfl rfl
      · intro finishing
        apply arbitrate_cases Fine refused
        · intro locking _ _
          exact .quiet (answer_silent decoded (by rw [locking]; decide) _) rfl rfl
        · intro _ shared _
          by_cases commit : h.op = opUnlock
          · have published : publishes s peer request (answer (finish s true)
                (rntpPutNumber reply headerBytes (finish s true).revision 8)
                { replyTo h s.generation with length := 8 }) = true := by
              rw [publishes_answer decoded _ _ _ (show 8 ≤ batchBytes by decide) (Nat.zero_le _)]
              simp [commit, replyTo]
            have counts := finish_counts s
            simp only [Fine, commit, decide_true, published]
            exact counts
          · have rest := finish_rest s false
            have quiet : h.op ≠ opUnlock ∧ h.op ≠ opWrite ∧ h.op ≠ opWriteBatch := by
              refine ⟨commit, ?_⟩
              rcases finishing with is | is | is <;> rw [is] <;> decide
            simp only [Fine, commit, decide_false]
            exact .quiet (answer_silent decoded quiet _) rest.2.2.1 (abort_free s)
      · intro _ present finishing _
        apply serveBlocks_cases Fine present refused
        · intro write shared _ _
          have op : h.op ≠ opUnlock := fun unlock => finishing (.inr (.inl unlock))
          have rest := remember_all_rest s (writtenLbas request h)
          have silent : ∀ result, publishes s peer request result = false := by
            intro result
            simp [publishes, decoded, op, shared]
          simp only [Fine]
          rw [← List.foldl_map, sharedWrite_lbas request write]
          refine .quiet (silent _) ?_ ?_
          · rw [rest]
            rfl
          · rw [rest]
            rfl
        · intro direct
          exact directService_counts decoded (fun unlock => finishing (.inr (.inl unlock)))
            (direct.imp_right And.left)

end Counting

section Reporting

variable {s : RntpSessions} {peer : Nat} {request reply : Memory} {h : RntpHeader}

/-- The count beside the image is the committed image's, while there is one to count. -/
def Known (x : Export) : Prop :=
  ∀ free, rntpFreeSpace x.committed x.sessions.sectors = some free → x.sessions.committedFree = free

theorem release_kept (s : RntpSessions) (peer : Nat) :
    (rntpSessionsRelease s peer).sectors = s.sectors ∧
      (rntpSessionsRelease s peer).committedFree = s.committedFree := by
  by_cases below : peer < peerCount
  · rw [release_cases s peer below]
    dsimp only
    split
    · exact ⟨(finish_rest s false).2.2.1, abort_free s⟩
    · exact ⟨rfl, rfl⟩
  · rw [rntpSessionsRelease, if_pos (Nat.not_lt.mp below)]
    exact ⟨rfl, rfl⟩

theorem step_sectors (x : Export) (call : Call) : (step x call).sessions.sectors = x.sessions.sectors := by
  cases call with
  | handle peer request reply => exact (handle_counts x.sessions peer request reply).sectors
  | release peer => exact (release_kept x.sessions peer).1

theorem Known.step {x : Export} (known : Known x) (inv : Inv x.sessions x.committed) (call : Call) :
    Known (step x call) := by
  have sectors := step_sectors x call
  intro free space
  rw [sectors] at space
  cases call with
  | handle peer request reply =>
      have counts := handle_counts x.sessions peer request reply
      simp only [RntpTransactions.step] at space ⊢
      generalize rntpSessionsHandle x.sessions peer request reply = result at counts space ⊢
      cases flag : publishes x.sessions peer request result with
      | false =>
          rw [counts.kept flag]
          simp only [flag, Bool.false_eq_true, if_false] at space
          exact known free space
      | true =>
          simp only [flag, if_true] at space
          rcases counts.counted flag with counted | ⟨clean, image, kept⟩
          · rw [counted, space]
            rfl
          · -- nothing was written in the transaction: the image is still the committed one
            have unmarked : ∀ lba, ¬marked x.sessions.dirty lba := fun lba mark =>
              absurd (clean.symm.trans (inv.markedOwned lba mark).2) Bool.noConfusion
            rw [image, inv.unmarked_image unmarked] at space
            rw [kept]
            exact known free space
  | release peer =>
      simp only [RntpTransactions.step] at space ⊢
      rw [(release_kept x.sessions peer).2]
      exact known free space

theorem run_known {x : Export} (inv : Inv x.sessions x.committed) (known : Known x) (calls : List Call) :
    Known (run x calls) ∧ (run x calls).sessions.sectors = x.sessions.sectors := by
  induction calls generalizing x with
  | nil => exact ⟨known, rfl⟩
  | cons call rest ih =>
      obtain ⟨later, sectors⟩ := ih (inv.step call) (known.step inv call)
      exact ⟨later, sectors.trans (step_sectors x call)⟩

theorem init_known {image undo : Memory} {sectors generation : Nat} {start : RntpSessions}
    (opened : rntpSessionsInit image undo sectors generation = some start) :
    Known ⟨start, image⟩ ∧ start.sectors = sectors := by
  unfold rntpSessionsInit at opened
  split at opened
  · contradiction
  · obtain ⟨free, counted, rfl⟩ := Option.map_eq_some_iff.mp opened
    refine ⟨fun other space => ?_, rfl⟩
    dsimp only at space
    exact Option.some.inj (counted.symm.trans space)

theorem freeSpace_small {image : Memory} {capacity free : Nat}
    (space : rntpFreeSpace image capacity = some free) :
    free < 2 ^ 64 := by
  unfold rntpFreeSpace at space
  generalize (if loadLE image 19 2 = 0 then loadLE image 32 4 else loadLE image 19 2) = total at space
  obtain ⟨-, space⟩ := Option.ite_none_left_eq_some.mp space
  obtain ⟨sane, space⟩ := Option.ite_none_left_eq_some.mp space
  simp only [not_or] at sane
  obtain ⟨-, -, few, -⟩ := sane
  obtain ⟨-, space⟩ := Option.ite_none_left_eq_some.mp space
  dsimp only at space
  generalize (_ - _) / (image 13).toNat = clusters at space
  obtain ⟨range, space⟩ := Option.ite_none_left_eq_some.mp space
  generalize (if clusters < 4085 then 12 else 16) = bits at space
  obtain ⟨-, space⟩ := Option.ite_none_left_eq_some.mp space
  have same := Option.some.inj space
  change (List.range' 2 clusters).countP (fun cluster =>
    clusterValue image bits (loadLE image 14 2 * 512) cluster == 0) * (image 13).toNat * 512 = free at same
  have counted := List.countP_le_length (l := List.range' 2 clusters)
    (p := fun cluster => clusterValue image bits (loadLE image 14 2 * 512) cluster == 0)
  rw [List.length_range'] at counted
  have bytes := Nat.mul_le_mul counted (Nat.le_of_not_lt few)
  omega

theorem outcome_stat (image : Memory) (sectors generation : Nat) (stat : h.op = opStat)
    (arguments : ¬(h.length = 0 ∧ h.lba = 0)) :
    (rntpOutcome image sectors generation true request reply h).out.status ≠ statusOk := by
  have given : h.length ≠ 0 ∨ h.lba ≠ 0 := by omega
  have hello : ¬h.op = opHello := by rw [stat]; decide
  have ping : ¬h.op = opPing := by rw [stat]; decide
  let bad : Outcome → Prop := fun result => result.out.status ≠ statusOk
  dsimp only [rntpOutcome]
  rw [if_neg hello, if_neg ping, if_pos stat, if_pos given]
  refine iteInduction (motive := bad) (fun _ => show statusInvalid ≠ statusOk by decide) fun _ => ?_
  refine iteInduction (motive := bad) (fun _ => show statusBusy ≠ statusOk by decide) fun _ => ?_
  exact iteInduction (motive := bad) (fun _ => show statusStale ≠ statusOk by decide)
    fun _ => show statusInvalid ≠ statusOk by decide

theorem stat_reply (decoded : rntpDecode request = some h) (stat : h.op = opStat)
    (sent : accepted (rntpSessionsHandle s peer request reply).count
      (rntpSessionsHandle s peer request reply).reply =
      true) :
    rntpGetNumber (rntpSessionsHandle s peer request reply).reply headerBytes statBytes =
      s.committedFree % 2 ^ 64 := by
  revert sent
  let Told : Handled → Prop := fun result => accepted result.count result.reply = true →
    rntpGetNumber result.reply headerBytes statBytes = s.committedFree % 2 ^ 64
  have refused : ∀ status, status ≠ statusOk → status ≤ statusStale →
      Told (answer s reply { replyTo h s.generation with status }) := by
    intro status failed bound sent
    rw [accepted_answer s reply _ (Nat.zero_le _) bound] at sent
    exact absurd (of_decide_eq_true sent) failed
  have hello : ¬(h.op = opHello ∨ h.op = opHelloShared) := by rw [stat]; decide
  have caps : ¬(h.op = opCaps ∧ h.length = 0 ∧ h.lba = 0) := by
    rw [stat]; exact fun both => absurd both.1 (by decide)
  have lock : ¬(h.op = opLock ∨ h.op = opUnlock ∨ h.op = opAbort) := by rw [stat]; decide
  have write : ¬(h.op = opWrite ∨ h.op = opWriteBatch) := by rw [stat]; decide
  have moves : ¬((h.op = opWrite ∨ h.op = opWriteBatch) ∨ h.op = opRead ∨ h.op = opReadBatch) := by
    rw [stat]; decide
  change Told (rntpSessionsHandle s peer request reply)
  unfold rntpSessionsHandle
  refine iteInduction (motive := Told) (fun _ sent => absurd sent (by simp [accepted])) fun _ => ?_
  rw [decoded]
  dsimp only
  refine iteInduction (motive := Told) (fun _ => refused _ (by decide) (by decide)) fun _ => ?_
  rw [if_neg hello]
  refine iteInduction (motive := Told) (fun _ => refused _ (by decide) (by decide)) fun _ => ?_
  refine iteInduction (motive := Told) (fun _ => refused _ (by decide) (by decide)) fun _ => ?_
  rw [if_neg caps, if_neg lock]
  refine iteInduction (motive := Told) (fun _ _ => ?_) fun arguments => ?_
  · have payload : rntpGetNumber
      (rntpPutNumber reply headerBytes s.committedFree statBytes) headerBytes statBytes =
        s.committedFree % 2 ^ 64 := loadBE_storeBE reply headerBytes s.committedFree statBytes
    rw [← payload]
    exact loadBE_congr _ _ _ _ _ fun i _ => encode_payload _ _ _ (Nat.le_add_right headerBytes i)
  · unfold serveBlocks
    rw [if_neg (fun busy => moves busy.1), if_neg (fun both => write both.1)]
    simp only [directService, write, decide_false, Bool.false_and, Bool.false_eq_true, if_false]
    intro sent
    rw [accepted_delegate s reply decoded] at sent
    have failed : (rntpOutcome s.image s.sectors s.generation true request reply h).out.status ≠ statusOk :=
      outcome_stat s.image s.sectors s.generation stat (fun both => arguments ⟨stat, both⟩)
    exact absurd (of_decide_eq_true sent) failed

theorem free_space_reported {image undo : Memory} {sectors generation : Nat} {start : RntpSessions}
    (opened : rntpSessionsInit image undo sectors generation = some start) :
    (∀ calls peer request reply h free, rntpDecode request = some h → h.op = opStat →
      rntpFreeSpace (run ⟨start, image⟩ calls).committed sectors = some free →
      accepted (rntpSessionsHandle (run ⟨start, image⟩ calls).sessions peer request reply).count
        (rntpSessionsHandle (run ⟨start, image⟩ calls).sessions peer request reply).reply = true →
      rntpGetNumber (rntpSessionsHandle (run ⟨start, image⟩ calls).sessions peer request reply).reply
        headerBytes statBytes = free) ∧
    (∀ volume capacity, freeSpaceChecked volume capacity = some (rntpFreeSpace volume capacity)) ∧
    (∀ volume capacity f, fatInit volume capacity = .ok f → ∃ free st,
      rntpFreeSpace volume capacity = some free ∧ fatStatfs f volume = .ok st ∧
        (free = st.bfree * st.bsize ↔ ReservedTaken f volume)) := by
  refine ⟨?_, freeSpaceChecked_eq, fun volume capacity f made => free_agrees made⟩
  intro calls peer request reply h free decoded stat space sent
  obtain ⟨known, range⟩ := init_known opened
  obtain ⟨later, same⟩ := run_known (x := ⟨start, image⟩) (Inv.init opened) known calls
  have counted := later free (by rw [same, range]; exact space)
  rw [stat_reply decoded stat sent, counted, Nat.mod_eq_of_lt (freeSpace_small space)]

end Reporting

section Concrete

/-- A FAT12 boot sector for `total` sectors, one a cluster, over a table of 12 sectors: all of them
are free. -/
def bootSector (total : Nat) : Memory := fun x =>
  if x = 12 then 2 else if x = 13 ∨ x = 14 ∨ x = 16 then 1 else if x = 17 then 16
  else if x = 19 then UInt8.ofNat total else if x = 20 then UInt8.ofNat (total / 256)
  else if x = 22 then 12 else if x = 510 then 0x55 else if x = 511 then 0xaa else 0

def crowdedVolume : RntpFat :=
  { sectors := 4093, fat := 1, root := 13, data := 14, clusters := 4079, fatSectors := 12, rootEntries := 16
    spc := 1, fats := 1, bits := 12 }

theorem crowded_mounts : fatInit (bootSector 4093) 4093 = .ok crowdedVolume := by decide +kernel

/-- 4079 clusters are one more than FAT12 has numbers for below the reserved ones: the server counts 0xff0. -/
theorem crowded_differs :
    ∃ free st, rntpFreeSpace (bootSector 4093) 4093 = some free ∧
      fatInit (bootSector 4093) 4093 = .ok crowdedVolume ∧
      fatStatfs crowdedVolume (bootSector 4093) = .ok st ∧ free ≠ st.bfree * st.bsize := by
  obtain ⟨free, st, counted, told, agrees⟩ := free_agrees crowded_mounts
  refine ⟨free, st, counted, crowded_mounts, told, fun same => ?_⟩
  exact agrees.mp same 0xff0 (by decide) (by decide) (by decide)

/-- Two peers join; the first takes the lock and overwrites the table. -/
def tableWrite : List Call :=
  [.handle 1 (frame opHelloShared 0 0 0) (fun _ => 0), .handle 2 (frame opHelloShared 0 0 0) (fun _ => 0),
   .handle 1 (frame opLock 0 0 5) (fun _ => 0), .handle 1 (frame opWrite 512 1 5) (fun _ => 0)]

/-- The second peer is told the free space of the committed image, which the image no longer has. -/
theorem tableWrite_reported :
    ∃ start, rntpSessionsInit smallImage (fun _ => 0) 10 5 = some start ∧
      rntpFreeSpace (run ⟨start, smallImage⟩ tableWrite).sessions.image 10 = some 0 ∧
      rntpGetNumber (rntpSessionsHandle (run ⟨start, smallImage⟩ tableWrite).sessions 2 (frame opStat 0 0 5)
        (fun _ => 0)).reply headerBytes statBytes = 3584 := by
  have opened := (Option.some_get small_image_opens).symm
  have told := (free_space_reported opened).1 tableWrite 2 (frame opStat 0 0 5) (fun _ => 0)
    { op := opStat, status := 0, length := 0, id := 1, lba := 0, generation := 5 } 3584
  exact ⟨_, opened, by decide, told (by decide) rfl (by decide) (by decide)⟩

end Concrete

end R2Apps.RntpFreeSpace
