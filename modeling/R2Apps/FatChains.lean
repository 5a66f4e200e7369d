import R2Apps.FatEntries
import R2Apps.ForwardChains

/-! Taking and giving back clusters in `c/rntp/linux/fat.c`: `allocate` looks for a free cluster
from a hint on
and around the end of the table, marks it the last of its chain and fills it with zeros;
`free_chain` follows a
chain and clears its entries as it goes. -/
namespace R2Apps.FatChains
open ByteMemory BlockImages FatVolume FatEntries ForwardChains

/-- The errors of `allocate`: those of the sectors under it, and a full volume. -/
inductive Failure where
  | of (e : Errno)
  | noSpace
deriving DecidableEq

section Code
variable (f : RntpFat)

def sectorOf (c : Nat) : Nat := f.data + (c - 2) * f.spc

/-- `n` sectors from `sector` on are filled with zeros. -/
def zeroSectors (sector : Nat) : Nat → Memory → Except Errno Memory
  | 0, image => .ok image
  | n + 1, image => do
      let image ← wr f image sector fun _ => 0
      zeroSectors (sector + 1) n image

/-- What `allocate` does with the free cluster it has found. -/
def takeCluster (image : Memory) (c : Nat) : Except Errno Memory := do
  let image ← fatSet f image c eoc
  zeroSectors f (sectorOf f c) f.spc image

/-- The turns of the search from `i` on. -/
def allocateFrom (image : Memory) (hint : Nat) : Nat → Nat → Except Failure (Memory × Nat)
  | 0, _ => .error .noSpace
  | n + 1, i =>
      let c := 2 + (hint - 2 + i) % f.clusters
      if valid f c then
        match fatGet f image c with
        | .error e => .error (.of e)
        | .ok v =>
            if v ≠ 0 then allocateFrom image hint n (i + 1)
            else
              match takeCluster f image c with
              | .error e => .error (.of e)
              | .ok image => .ok (image, c)
      else allocateFrom image hint n (i + 1)

def allocate (image : Memory) (hint : Nat) : Except Failure (Memory × Nat) :=
  allocateFrom f image (if valid f hint then hint else 2) f.clusters 0

/-- The turns of `free_chain`, of which there are as many as there are clusters. -/
def freeFrom : Nat → Memory → Nat → Except Errno Memory
  | 0, _, _ => .error .ioFault
  | n + 1, image, c => do
      let next ← fatGet f image c
      let image ← fatSet f image c 0
      if next = eoc then .ok image
      else if valid f next then freeFrom n image next
      else .error .ioFault

def freeChain (image : Memory) (c : Nat) : Except Errno Memory :=
  if c = 0 then .ok image else freeFrom f f.clusters image c

end Code

section Geometry

/-- A volume whose clusters all lie behind its table and inside it. -/
structure Usable (f : RntpFat) : Prop where
  accepted : Accepted f
  begins : 0 < f.fat
  fits : f.data + f.clusters * f.spc ≤ f.sectors

theorem fatInit_usable {b : Memory} {capacity : Nat} {f : RntpFat} (made : fatInit b capacity = .ok f) :
    Usable f := by
  have accepted := fatInit_accepted made
  simp only [fatInit] at made
  generalize (if loadLE b 19 2 = 0 then loadLE b 32 4 else loadLE b 19 2) = total at made
  split at made
  · cases made
  rename_i sane
  split at made
  · cases made
  rename_i inside
  generalize quotient : (total - _) / (b 13).toNat = clusters at made
  split at made
  · cases made
  generalize (if clusters < 4085 then 12 else 16) = bits at made
  split at made
  · cases made
  cases made
  simp only [not_or] at sane
  obtain ⟨-, -, -, -, -, -, begins, -⟩ := sane
  have whole := Nat.div_mul_le_self (total - (loadLE b 14 2 + (b 16).toNat * loadLE b 22 2 +
    (loadLE b 17 2 * 32 + 511) / 512)) (b 13).toNat
  rw [quotient] at whole
  constructor
  · exact accepted
  · exact Nat.pos_of_ne_zero begins
  · dsimp only
    omega

variable {f : RntpFat} (usable : Usable f)
include usable

theorem Usable.data_le {c : Nat} : f.root ≤ sectorOf f c := by
  have data := usable.accepted.data
  unfold sectorOf
  omega

theorem Usable.cluster_inside {c : Nat} (fine : valid f c) : sectorOf f c + f.spc ≤ f.sectors := by
  have fits := usable.fits
  have before : c - 2 + 1 ≤ f.clusters := by
    have low := fine.1
    have high := fine.2.1
    omega
  have sectors := Nat.mul_le_mul_right f.spc before
  rw [Nat.succ_mul] at sectors
  unfold sectorOf
  omega

theorem Usable.table_begins : 0 < f.root ∧ f.root < f.sectors := by
  have begins := usable.begins
  have root := usable.accepted.root
  have data := usable.accepted.data
  have inside := usable.accepted.inside
  constructor
  · omega
  · omega

end Geometry

section Sectors
variable {f : RntpFat}

theorem wr_inside {sector : Nat} (image data : Memory) (some_ : sector ≠ 0) (inside : sector < f.sectors) :
    wr f image sector data = .ok (paste image (sector * 512) data 0 512) := if_pos ⟨some_, inside⟩

theorem zeroSectors_eq (n : Nat) {sector : Nat} (image : Memory) (some_ : 0 < sector)
    (inside : sector + n ≤ f.sectors) :
    zeroSectors f sector n image =
      .ok fun x => if sector * 512 ≤ x ∧ x < (sector + n) * 512 then 0 else image x := by
  induction n generalizing sector image with
  | zero =>
      rw [zeroSectors]
      apply congrArg Except.ok
      funext x
      rw [if_neg (by omega)]
  | succ n ih =>
      rw [zeroSectors, wr_inside _ _ (by omega) (by omega), ok_bind, ih _ (by omega) (by omega)]
      apply congrArg Except.ok
      funext x
      rw [paste_sector]
      by_cases here : x / 512 = sector
      · have before : ¬((sector + 1) * 512 ≤ x ∧ x < (sector + 1 + n) * 512) := by omega
        have among : sector * 512 ≤ x ∧ x < (sector + (n + 1)) * 512 := by omega
        rw [if_neg before, if_pos here, if_pos among]
      · rw [if_neg here]
        by_cases later : (sector + 1) * 512 ≤ x ∧ x < (sector + 1 + n) * 512
        · have among : sector * 512 ≤ x ∧ x < (sector + (n + 1)) * 512 := by
            clear here ih
            constructor
            · exact Nat.le_trans (Nat.mul_le_mul_right 512 (Nat.le_succ sector)) later.1
            · rw [← Nat.succ_add_eq_add_succ]
              exact later.2
          rw [if_pos later, if_pos among]
        · have outside : ¬(sector * 512 ≤ x ∧ x < (sector + (n + 1)) * 512) := by
            rintro ⟨low, high⟩
            have above : sector ≤ x / 512 := (Nat.le_div_iff_mul_le (by decide)).mpr low
            have next : sector + 1 ≤ x / 512 := Nat.lt_of_le_of_ne above (Ne.symm here)
            apply later
            rw [Nat.succ_add_eq_add_succ]
            exact ⟨(Nat.le_div_iff_mul_le (by decide)).mp next, high⟩
          rw [if_neg later, if_neg outside]

theorem setCopies_goes {at_ : Nat} (a b : Memory) (begins : 0 < f.fat) (fits : at_ + 1 < f.fatSectors * 512)
    (n : Nat) : ∀ (i : Nat) (image : Memory), f.fat + (i + n) * f.fatSectors ≤ f.sectors →
      ∃ image', setCopies f at_ a b n i image = .ok image' := by
  induction n with
  | zero => exact fun i image _ => ⟨image, rfl⟩
  | succ n ih =>
      intro i image inside
      have stop : i + (n + 1) = i + 1 + n := by omega
      rw [stop] at inside
      have copy : f.fat + i * f.fatSectors + f.fatSectors ≤ f.sectors := by
        have sectors := Nat.mul_le_mul_right f.fatSectors (by omega : i + 1 ≤ i + 1 + n)
        rw [Nat.succ_mul] at sectors
        omega
      rw [setCopies, setCopy, wr_inside _ _ (by omega) (by omega), ok_bind]
      by_cases straddles : at_ % 512 = 511
      · rw [if_pos straddles, wr_inside _ _ (by omega) (by omega), ok_bind]
        exact ih (i + 1) _ inside
      · rw [if_neg straddles, ok_bind]
        exact ih (i + 1) _ inside

theorem fatSet_goes (usable : Usable f) {c : Nat} (fine : valid f c) (image : Memory) (v : Nat) :
    ∃ image', fatSet f image c v = .ok image' := by
  have inside := usable.accepted.entry_inside fine.2.1
  have table := usable.accepted.table_inside
  have root := usable.accepted.root
  have within := usable.table_begins.2
  have copies : f.fat + (0 + f.fats) * f.fatSectors ≤ f.sectors := by
    rw [Nat.zero_add, ← root]
    exact Nat.le_of_lt within
  rw [fatSet, if_pos fine]
  dsimp only
  rw [rd_eq image (by omega), ok_bind]
  by_cases straddles : entryAt f.bits c % 512 = 511
  · rw [if_pos straddles, rd_eq image (by omega), ok_bind]
    exact setCopies_goes _ _ usable.begins inside f.fats 0 image copies
  · rw [if_neg straddles, ok_bind]
    exact setCopies_goes _ _ usable.begins inside f.fats 0 image copies

end Sectors

section Entries
variable {f : RntpFat}

/-- What `fat_get` returns of the entry of a cluster. -/
def follows (f : RntpFat) (image : Memory) (c : Nat) : Nat :=
  match fatGet f image c with
  | .ok v => v
  | .error _ => 0

theorem follows_of {image : Memory} {c v : Nat} (got : fatGet f image c = .ok v) : follows f image c = v := by
  rw [follows, got]

theorem get_follows (accepted : Accepted f) (image : Memory) {c : Nat} (fine : valid f c) :
    fatGet f image c = .ok (follows f image c) := by
  have got := fatGet_eq accepted image fine
  rw [got, follows_of got]

theorem get_valid {image : Memory} {c v : Nat} (got : fatGet f image c = .ok v) : valid f c := by
  by_contra bad
  rw [fatGet, if_neg bad] at got
  cases got

theorem eoc_invalid (f : RntpFat) : ¬valid f eoc := by
  intro fine
  have small := fine.2.2
  unfold reserved at small
  split at small
  · exact absurd small (by decide)
  · exact absurd small (by decide)

set_option maxRecDepth 4000 in
theorem get_congr (accepted : Accepted f) {image image' : Memory} (c : Nat)
    (same : ∀ x, f.fat * 512 ≤ x → x < f.root * 512 → image' x = image x) :
    fatGet f image' c = fatGet f image c := by
  by_cases fine : valid f c
  · have inside := accepted.entry_inside fine.2.1
    have root := accepted.root
    have copy : f.fatSectors ≤ f.fats * f.fatSectors := by
      rcases accepted.fats with one | two
      · rw [one, Nat.one_mul]
      · rw [two]
        omega
    have word : loadLE image' (f.fat * 512 + entryAt f.bits c) 2 =
        loadLE image (f.fat * 512 + entryAt f.bits c) 2 :=
      load_congr image image' _ 2 (by
        intro x low high
        generalize entryAt f.bits c = at_ at low high inside
        generalize f.fats * f.fatSectors = copies at root copy
        have above : f.fat * 512 ≤ x := by omega
        have below : x < f.root * 512 := by omega
        exact same x above below)
    have entry : tableEntry f.bits f.fat image' c = tableEntry f.bits f.fat image c := by
      rw [tableEntry_eq, tableEntry_eq, word]
    rw [fatGet_eq accepted image' fine, fatGet_eq accepted image fine, entry]
  · rw [fatGet, if_neg fine, fatGet, if_neg fine]

/-- What a store leaves: one entry is new, and the clusters and all that lies before the table stay. -/
structure Updated (f : RntpFat) (image image' : Memory) (c v : Nat) : Prop where
  same : fatGet f image' c = .ok v
  others : ∀ d, d ≠ c → fatGet f image' d = fatGet f image d
  around : ∀ x, x < f.fat * 512 ∨ f.root * 512 ≤ x → image' x = image x

theorem set_updated (usable : Usable f) {c v : Nat} (fine : valid f c) (image : Memory)
    (kept : readBack f.bits v = v) :
    ∃ image', fatSet f image c v = .ok image' ∧ Updated f image image' c v := by
  obtain ⟨image', set⟩ := fatSet_goes usable fine image v
  have stored := fatSet_stored usable.accepted set
  refine ⟨image', set, ?_⟩
  constructor
  · rw [fatGet_eq usable.accepted image' fine, stored.same usable.accepted]
    exact congrArg Except.ok kept
  · intro d apart
    by_cases fine' : valid f d
    · rw [fatGet_eq usable.accepted image' fine', fatGet_eq usable.accepted image fine',
        stored.other usable.accepted fine' apart]
    · rw [fatGet, if_neg fine', fatGet, if_neg fine']
  · exact stored.around

theorem readBack_zero (bits : Nat) : readBack bits 0 = 0 := by
  unfold readBack
  by_cases twelve : bits = 12
  · rw [if_pos twelve, if_pos twelve]
    rfl
  · rw [if_neg twelve, if_neg twelve]
    rfl

theorem readBack_eoc (bits : Nat) : readBack bits eoc = eoc := by
  unfold readBack
  by_cases twelve : bits = 12
  · rw [if_pos twelve, if_pos twelve]
    rfl
  · rw [if_neg twelve, if_neg twelve]
    rfl

end Entries

section Taking
variable {f : RntpFat}

/-- What taking a cluster leaves. -/
structure Taken (f : RntpFat) (image image' : Memory) (c : Nat) : Prop where
  free : fatGet f image c = .ok 0
  last : fatGet f image' c = .ok eoc
  others : ∀ d, d ≠ c → fatGet f image' d = fatGet f image d
  zeroed : ∀ j, j < f.spc * 512 → image' (sectorOf f c * 512 + j) = 0
  around : ∀ x, x < f.fat * 512 ∨ f.root * 512 ≤ x →
    x < sectorOf f c * 512 ∨ (sectorOf f c + f.spc) * 512 ≤ x →
    image' x = image x

theorem take_taken (usable : Usable f) {image : Memory} {c : Nat} (free : fatGet f image c = .ok 0) :
    ∃ image', takeCluster f image c = .ok image' ∧ Taken f image image' c := by
  have fine := get_valid free
  have behind := usable.data_le (c := c)
  have within := usable.cluster_inside fine
  have positive := usable.table_begins.1
  obtain ⟨marked, set, updated⟩ := set_updated usable fine image (readBack_eoc f.bits)
  have zeros := zeroSectors_eq f.spc marked (by omega : 0 < sectorOf f c) within
  refine ⟨_, by rw [takeCluster, set, ok_bind, zeros], ?_⟩
  -- the zeros lie behind the table, so every entry is as the store left it
  have entries (d : Nat) :
    fatGet f (fun x => if sectorOf f c * 512 ≤ x ∧ x < (sectorOf f c + f.spc) * 512 then 0
      else marked x) d = fatGet f marked d := by
    apply get_congr usable.accepted
    intro x _ inside
    exact if_neg (by omega)
  constructor
  · exact free
  · rw [entries]
    exact updated.same
  · intro d apart
    rw [entries]
    exact updated.others d apart
  · intro j inside
    exact if_pos (by omega)
  · intro x outside away
    rw [if_neg (by omega)]
    exact updated.around x outside

theorem allocateFrom_spec (usable : Usable f) (image : Memory) (hint n : Nat) : ∀ i,
    (∃ image' c, allocateFrom f image hint n i = .ok (image', c) ∧ Taken f image image' c) ∨
      allocateFrom f image hint n i = .error .noSpace ∧
        ∀ k, i ≤ k → k < i + n → fatGet f image (2 + (hint - 2 + k) % f.clusters) ≠ .ok 0 := by
  induction n with
  | zero =>
      intro i
      refine .inr ⟨rfl, ?_⟩
      intro k low high
      omega
  | succ n ih =>
      intro i
      rw [allocateFrom]
      generalize cluster : 2 + (hint - 2 + i) % f.clusters = c
      -- a turn that takes nothing leaves the search to the turns behind it
      have onward (taken : fatGet f image c ≠ .ok 0) :
          (∃ image' c, allocateFrom f image hint n (i + 1) = .ok (image', c) ∧ Taken f image image' c) ∨
            allocateFrom f image hint n (i + 1) = .error .noSpace ∧
              ∀ k, i ≤ k → k < i + (n + 1) → fatGet f image (2 + (hint - 2 + k) % f.clusters) ≠ .ok 0 := by
        rcases ih (i + 1) with found | ⟨full, rest⟩
        · exact .inl found
        · refine .inr ⟨full, ?_⟩
          intro k low high
          rcases Nat.eq_or_lt_of_le low with here | later
          · rw [← here, cluster]
            exact taken
          · exact rest k later (by omega)
      by_cases fine : valid f c
      · rw [if_pos fine, get_follows usable.accepted image fine]
        dsimp only
        by_cases zero : follows f image c = 0
        · rw [if_neg (by omega)]
          have free : fatGet f image c = .ok 0 := by rw [get_follows usable.accepted image fine, zero]
          obtain ⟨image', took, taken⟩ := take_taken usable free
          rw [took]
          exact .inl ⟨image', c, rfl, taken⟩
        · rw [if_pos zero]
          apply onward
          intro free
          exact zero (follows_of free)
      · rw [if_neg fine]
        apply onward
        intro free
        exact fine (get_valid free)

theorem tried {hint c clusters : Nat} (start : 2 ≤ hint ∧ hint < clusters + 2)
    (target : 2 ≤ c ∧ c < clusters + 2) :
    ∃ k, k < clusters ∧ 2 + (hint - 2 + k) % clusters = c := by
  by_cases ahead : hint ≤ c
  · refine ⟨c - hint, by omega, ?_⟩
    have distance : hint - 2 + (c - hint) = c - 2 := by omega
    rw [distance, Nat.mod_eq_of_lt (by omega)]
    omega
  · refine ⟨c + clusters - hint, by omega, ?_⟩
    have distance : hint - 2 + (c + clusters - hint) = c - 2 + clusters := by omega
    rw [distance, Nat.add_mod_right, Nat.mod_eq_of_lt (by omega)]
    omega

/-- On every volume that `fat_init` accepts and from every hint, `allocate` takes a cluster that was
free, marks it
the last of a chain, fills it with zeros and changes nothing else but its entry; it reports a full
volume just when
no cluster is free, and fails in no other way. -/
theorem allocate_exact {b : Memory} {capacity : Nat} {f : RntpFat} (made : fatInit b capacity = .ok f)
    (image : Memory) (hint : Nat) :
    match allocate f image hint with
    | .ok (image', c) => Taken f image image' c
    | .error e => e = .noSpace ∧ ∀ c, fatGet f image c ≠ .ok 0 := by
  have usable := fatInit_usable made
  unfold allocate
  rcases allocateFrom_spec usable image (if valid f hint then hint else 2) f.clusters 0 with
    ⟨image', c, took, taken⟩ | ⟨full, none_⟩
  · rw [took]
    exact taken
  · rw [full]
    refine ⟨rfl, ?_⟩
    intro c free
    have fine := get_valid free
    have start : 2 ≤ (if valid f hint then hint else 2) ∧
        (if valid f hint then hint else 2) < f.clusters + 2 := by
      by_cases good : valid f hint
      · rw [if_pos good]
        exact ⟨good.1, good.2.1⟩
      · rw [if_neg good]
        have low := fine.1
        have high := fine.2.1
        omega
    obtain ⟨k, below, same⟩ := tried start ⟨fine.1, fine.2.1⟩
    have looked := none_ k (Nat.zero_le k) (by omega)
    rw [same] at looked
    exact looked free

theorem allocate_exact_floppy :
    match allocate floppy floppySector 300 with
    | .ok (image', c) => Taken floppy floppySector image' c
    | .error e => e = .noSpace ∧ ∀ c, fatGet floppy floppySector c ≠ .ok 0 :=
  allocate_exact (by decide +kernel : fatInit floppySector 400 = .ok floppy) floppySector 300

end Taking

section Freeing
variable {f : RntpFat}

/-- From `c` the entries lead through these clusters, one after the other, to an end mark. -/
def Leads (f : RntpFat) (image : Memory) (c : Nat) (nodes : List Nat) : Prop :=
  nodes ≠ [] ∧ Chain (follows f image) (valid f) eoc c nodes

/-- What freeing these clusters leaves. -/
structure Freed (f : RntpFat) (image image' : Memory) (nodes : List Nat) : Prop where
  cleared : ∀ d ∈ nodes, fatGet f image' d = .ok 0
  others : ∀ d, d ∉ nodes → fatGet f image' d = fatGet f image d
  around : ∀ x, x < f.fat * 512 ∨ f.root * 512 ≤ x → image' x = image x

theorem follows_congr {image image' : Memory} {d : Nat} (same : fatGet f image' d = fatGet f image d) :
    follows f image' d = follows f image d := by
  rw [follows, same, follows]

theorem cleared_apart {image : Memory} {start c : Nat} {nodes : List Nat} (zero : follows f image c = 0)
    (chain : Chain (follows f image) (valid f) eoc start nodes) : c ∉ nodes := by
  intro member
  rcases chain_onward chain c member with fine | last
  · rw [zero] at fine
    exact absurd fine.1 (by decide)
  · rw [zero] at last
    exact absurd last (by decide)

theorem freed_cons {image marked image' : Memory} {c : Nat} {nodes : List Nat}
    (updated : Updated f image marked c 0) (apart : c ∉ nodes) (freed : Freed f marked image' nodes) :
    Freed f image image' (c :: nodes) := by
  constructor
  · intro d member
    rcases List.mem_cons.mp member with rfl | later
    · rw [freed.others d apart]
      exact updated.same
    · exact freed.cleared d later
  · intro d away
    rw [List.mem_cons, not_or] at away
    rw [freed.others d away.2]
    exact updated.others d away.1
  · intro x outside
    rw [freed.around x outside]
    exact updated.around x outside

theorem freeFrom_freed (usable : Usable f) (n : Nat) : ∀ (image : Memory) (c : Nat) (image' : Memory),
    freeFrom f n image c = .ok image' → ∃ nodes, Leads f image c nodes ∧ Freed f image image' nodes := by
  induction n with
  | zero =>
      intro image c image' went
      cases went
  | succ n ih =>
      intro image c image' went
      by_cases fine : valid f c
      · obtain ⟨marked, set, updated⟩ := set_updated usable fine image (readBack_zero f.bits)
        rw [freeFrom, get_follows usable.accepted image fine, ok_bind, set, ok_bind] at went
        by_cases last : follows f image c = eoc
        · rw [if_pos last] at went
          cases went
          refine ⟨[c], ⟨List.cons_ne_nil _ _, rfl, fine, last⟩, ?_⟩
          apply freed_cons updated List.not_mem_nil
          exact ⟨fun d member => absurd member List.not_mem_nil, fun d _ => rfl, fun x _ => rfl⟩
        · rw [if_neg last] at went
          by_cases onward : valid f (follows f image c)
          · rw [if_pos onward] at went
            obtain ⟨nodes, ⟨_, chain⟩, freed⟩ := ih marked _ image' went
            -- the walk goes on in a table where `c` is cleared, so it does not come back to it
            have apart := cleared_apart (follows_of updated.same) chain
            have before : Chain (follows f image) (valid f) eoc (follows f image c) nodes := by
              apply chain_congr chain
              intro d member
              have other : d ≠ c := fun same => apart (same ▸ member)
              exact (follows_congr (updated.others d other)).symm
            exact ⟨c :: nodes, ⟨List.cons_ne_nil _ _, rfl, fine, before⟩, freed_cons updated apart freed⟩
          · rw [if_neg onward] at went
            cases went
      · rw [freeFrom, fatGet, if_neg fine] at went
        cases went

theorem freeFrom_goes (usable : Usable f) (n : Nat) : ∀ (image : Memory) (c : Nat) (nodes : List Nat),
    Leads f image c nodes → nodes.length ≤ n → ∃ image', freeFrom f n image c = .ok image' := by
  induction n with
  | zero =>
      rintro image c nodes ⟨some_, _⟩ short
      exact absurd (List.length_eq_zero_iff.mp (Nat.le_zero.mp short)) some_
  | succ n ih =>
      rintro image c nodes ⟨some_, chain⟩ short
      cases nodes with
      | nil => exact absurd rfl some_
      | cons node rest =>
          have once := chain_nodup (eoc_invalid f) chain
          obtain ⟨rfl, fine, tail⟩ := chain
          obtain ⟨marked, set, updated⟩ := set_updated usable fine image (readBack_zero f.bits)
          rw [freeFrom, get_follows usable.accepted image fine, ok_bind, set, ok_bind]
          by_cases last : follows f image c = eoc
          · rw [if_pos last]
            exact ⟨marked, rfl⟩
          · rw [if_neg last]
            cases rest with
            | nil => exact absurd tail last
            | cons after rest =>
                have onward : valid f (follows f image c) := tail.1 ▸ tail.2.1
                rw [if_pos onward]
                refine ih marked _ (after :: rest) ⟨List.cons_ne_nil _ _, ?_⟩ (Nat.le_of_succ_le_succ short)
                apply chain_congr tail
                intro d member
                have other : d ≠ c := fun same => (List.nodup_cons.mp once).1 (same ▸ member)
                exact follows_congr (updated.others d other)

theorem leads_short {image : Memory} {c : Nat} {nodes : List Nat} (leads : Leads f image c nodes) :
    nodes.length ≤ f.clusters := by
  have short : nodes.length ≤ (List.range' 2 f.clusters).length := by
    apply chain_length (eoc_invalid f) leads.2
    intro d fine
    have low := fine.1
    have high := fine.2.1
    rw [List.mem_range'_1]
    omega
  rwa [List.length_range'] at short

/-- On every volume that `fat_init` accepts, `free_chain` succeeds just when the entries from `c` on
lead through
clusters of the volume to an end mark. It clears those entries and no other, and touches nothing
outside the table. -/
theorem freeChain_exact {b : Memory} {capacity : Nat} {f : RntpFat} (made : fatInit b capacity = .ok f)
    (image : Memory) {c : Nat} (some_ : c ≠ 0) :
    match freeChain f image c with
    | .ok image' => ∃ nodes, Leads f image c nodes ∧ Freed f image image' nodes
    | .error _ => ∀ nodes, ¬Leads f image c nodes := by
  have usable := fatInit_usable made
  rw [freeChain, if_neg some_]
  cases went : freeFrom f f.clusters image c with
  | ok image' => exact freeFrom_freed usable f.clusters image c image' went
  | error e =>
      intro nodes leads
      obtain ⟨image', goes⟩ := freeFrom_goes usable f.clusters image c nodes leads (leads_short leads)
      rw [went] at goes
      cases goes

/-- The floppy with one chain, of clusters 2 and 3. -/
def twoClusters : Memory := fun x =>
  if x = 515 then 3 else if x = 516 then 0xf0 else if x = 517 then 0xff else floppySector x

theorem freeChain_exact_two :
    match freeChain floppy twoClusters 2 with
    | .ok image' => ∃ nodes, Leads floppy twoClusters 2 nodes ∧ Freed floppy twoClusters image' nodes
    | .error _ => ∀ nodes, ¬Leads floppy twoClusters 2 nodes :=
  freeChain_exact (by decide +kernel : fatInit floppySector 400 = .ok floppy) twoClusters
    (by decide : (2 : Nat) ≠ 0)

end Freeing

end R2Apps.FatChains
