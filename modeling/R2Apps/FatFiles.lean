import Mathlib.Logic.Relation
import R2Apps.FatChains

/-! The chains of a volume's files over whole runs of the calls of `c/rntp/linux/fat.c` that change
the table: a
first cluster is taken, a chain is linked to one more, cut short or freed. `files` stands for what
the directories
and open entries hold. -/
namespace R2Apps.FatFiles
open ByteMemory FatVolume FatEntries FatChains ForwardChains

/-- How `chain_at`, `write_range` and `empty_slot` go on behind the last cluster of a chain. -/
def link (f : RntpFat) (image : Memory) (c : Nat) : Except Failure (Memory × Nat) :=
  match allocate f image (c + 1) with
  | .error e => .error e
  | .ok (image, next) =>
      match fatSet f image c next with
      | .error e => .error (.of e)
      | .ok image => .ok (image, next)

/-- How `fat_truncate` makes `c` the last cluster of its chain. -/
def cut (f : RntpFat) (image : Memory) (c : Nat) : Except Errno Memory := do
  let next ← fatGet f image c
  let image ← fatSet f image c eoc
  if next ≠ eoc then freeChain f image next else .ok image

structure Volume where
  image : Memory
  files : List (List Nat)

/-- A call that succeeds; one that fails changes nothing that the client keeps. -/
inductive Step (f : RntpFat) : Volume → Volume → Prop where
  | create {image image' : Memory} {files : List (List Nat)} {c : Nat} (took :
    allocate f image 2 = .ok (image', c)) :
      Step f ⟨image, files⟩ ⟨image', [c] :: files⟩
  | extend {image image' : Memory} {before after : List (List Nat)} {nodes : List Nat} {last next : Nat}
      (linked : link f image last = .ok (image', next)) :
      Step f ⟨image, before ++ (nodes ++ [last]) :: after⟩
        ⟨image', before ++ (nodes ++ [last, next]) :: after⟩
  | cut {image image' : Memory} {before after : List (List Nat)} {front back : List Nat} {c : Nat}
      (short : cut f image c = .ok image') :
      Step f ⟨image, before ++ (front ++ c :: back) :: after⟩ ⟨image', before ++ (front ++ [c]) :: after⟩
  | free {image image' : Memory} {before after : List (List Nat)} {nodes : List Nat}
      (freed : freeChain f image (nodes.headD 0) = .ok image') :
      Step f ⟨image, before ++ nodes :: after⟩ ⟨image', before ++ after⟩

/-- Each file is a chain of its own, and no cluster is in two places. -/
structure Filed (f : RntpFat) (v : Volume) : Prop where
  leads : ∀ nodes ∈ v.files, Leads f v.image (nodes.headD 0) nodes
  apart : v.files.flatten.Nodup

/-- A cluster that stays a file's keeps its contents, one that a file gives up is free, and the
entry of one that
is no file's stays. -/
structure Kept (f : RntpFat) (v w : Volume) : Prop where
  contents : ∀ c ∈ v.files.flatten, c ∈ w.files.flatten → ∀ j, j < f.spc * 512 →
    w.image (sectorOf f c * 512 + j) = v.image (sectorOf f c * 512 + j)
  released : ∀ c ∈ v.files.flatten, c ∉ w.files.flatten → fatGet f w.image c = .ok 0
  others : ∀ c, c ∉ v.files.flatten → c ∉ w.files.flatten → fatGet f w.image c = fatGet f v.image c

section Chains
variable {f : RntpFat} {image image' : Memory} {c : Nat} {nodes : List Nat}

theorem leads_congr (leads : Leads f image c nodes)
    (same : ∀ d ∈ nodes, fatGet f image' d = fatGet f image d) :
    Leads f image' c nodes :=
  ⟨leads.1, chain_congr leads.2 fun d member => follows_congr (same d member)⟩

theorem free_outside {v : Volume} (filed : Filed f v) (free : fatGet f v.image c = .ok 0) :
    c ∉ v.files.flatten := by
  intro member
  obtain ⟨nodes, file, inside⟩ := List.mem_flatten.mp member
  exact cleared_apart (follows_of free) (filed.leads nodes file).2 inside

theorem file_valid {v : Volume} (filed : Filed f v) (member : c ∈ v.files.flatten) : valid f c := by
  obtain ⟨nodes, file, inside⟩ := List.mem_flatten.mp member
  exact chain_good (filed.leads nodes file).2 c inside

theorem allocate_taken (usable : Usable f) {hint : Nat} (took : allocate f image hint = .ok (image', c)) :
    Taken f image image' c := by
  unfold allocate at took
  rcases allocateFrom_spec usable image (if valid f hint then hint else 2) f.clusters 0 with
    ⟨made, d, gave, taken⟩ | ⟨full, _⟩
  · rw [gave] at took
    cases took
    exact taken
  · rw [full] at took
    cases took

theorem clusters_apart {d : Nat} (fine : valid f c) (fine' : valid f d) (apart : c ≠ d) :
    (sectorOf f c + f.spc) * 512 ≤ sectorOf f d * 512 ∨
      (sectorOf f d + f.spc) * 512 ≤ sectorOf f c * 512 := by
  have low := fine.1
  have low' := fine'.1
  unfold sectorOf
  rcases Nat.lt_or_gt_of_ne apart with before | after
  · have gap : (c - 2 + 1) * f.spc ≤ (d - 2) * f.spc := Nat.mul_le_mul_right _ (by omega)
    rw [Nat.succ_mul] at gap
    exact .inl (Nat.mul_le_mul_right 512 (by omega))
  · have gap : (d - 2 + 1) * f.spc ≤ (c - 2) * f.spc := Nat.mul_le_mul_right _ (by omega)
    rw [Nat.succ_mul] at gap
    exact .inr (Nat.mul_le_mul_right 512 (by omega))

theorem taken_contents (usable : Usable f) (taken : Taken f image image' c) {d : Nat} (fine : valid f d)
    (apart : d ≠ c) {j : Nat} (inside : j < f.spc * 512) :
    image' (sectorOf f d * 512 + j) = image (sectorOf f d * 512 + j) := by
  have behind := Nat.mul_le_mul_right 512 (usable.data_le (c := d))
  have size : (sectorOf f d + f.spc) * 512 = sectorOf f d * 512 + f.spc * 512 := Nat.add_mul _ _ _
  apply taken.around
  · exact .inr (Nat.le_trans behind (Nat.le_add_right _ _))
  · rcases clusters_apart fine (get_valid taken.free) apart with before | after
    · exact .inl (by omega)
    · exact .inr (Nat.le_trans after (Nat.le_add_right _ _))

theorem next_kept (accepted : Accepted f) (fine : valid f c) : readBack f.bits c = c := by
  have small := fine.2.2
  unfold reserved at small
  rcases accepted.bits with bits | bits
  · rw [if_pos bits] at small
    have cut : c % 4096 = c := Nat.mod_eq_of_lt (by omega)
    have below : ¬c ≥ 0xff8 := by omega
    simp only [readBack, if_pos bits, cut, if_neg below]
  · have wide : ¬f.bits = 12 := by omega
    rw [if_neg wide] at small
    have cut : c % 65536 = c := Nat.mod_eq_of_lt (by omega)
    have below : ¬c ≥ 0xfff8 := by omega
    simp only [readBack, if_neg wide, cut, if_neg below]

theorem link_linked (usable : Usable f) {next : Nat} (fine : valid f c)
    (linked : link f image c = .ok (image', next)) :
    ∃ taken, Taken f image taken next ∧ Updated f taken image' c next := by
  unfold link at linked
  cases took : allocate f image (c + 1) with
  | error e =>
      rw [took] at linked
      cases linked
  | ok made =>
      obtain ⟨taken, d⟩ := made
      have facts := allocate_taken usable took
      obtain ⟨marked, set, updated⟩ := set_updated usable fine taken
        (next_kept usable.accepted (get_valid facts.free))
      rw [took] at linked
      dsimp only at linked
      rw [set] at linked
      cases linked
      exact ⟨taken, facts, updated⟩

end Chains

section Steps
variable {f : RntpFat}

theorem create_step (usable : Usable f) {image image' : Memory} {files : List (List Nat)} {c : Nat}
    (filed : Filed f ⟨image, files⟩) (took : allocate f image 2 = .ok (image', c)) :
    Filed f ⟨image', [c] :: files⟩ ∧ Kept f ⟨image, files⟩ ⟨image', [c] :: files⟩ := by
  have taken := allocate_taken usable took
  have outside := free_outside filed taken.free
  have other {d : Nat} (member : d ∈ files.flatten) : d ≠ c := fun same => outside (same ▸ member)
  constructor
  · constructor
    · intro nodes file
      rcases List.mem_cons.mp file with rfl | old
      · exact ⟨List.cons_ne_nil _ _, rfl, get_valid taken.free, follows_of taken.last⟩
      · apply leads_congr (filed.leads nodes old)
        intro d member
        exact taken.others d (other (List.mem_flatten.mpr ⟨nodes, old, member⟩))
    · rw [List.flatten_cons, List.singleton_append, List.nodup_cons]
      exact ⟨outside, filed.apart⟩
  · constructor
    · intro d member _ j inside
      exact taken_contents usable taken (file_valid filed member) (other member) inside
    · intro d member gone
      exact absurd (by simp [List.mem_flatten.mp member]) gone
    · intro d _ away
      apply taken.others d
      rintro rfl
      exact away (by simp)

theorem extend_step (usable : Usable f) {image image' : Memory} {before after : List (List Nat)}
    {nodes : List Nat}
    {last next : Nat} (filed : Filed f ⟨image, before ++ (nodes ++ [last]) :: after⟩)
    (linked : link f image last = .ok (image', next)) :
    Filed f ⟨image', before ++ (nodes ++ [last, next]) :: after⟩ ∧
      Kept f ⟨image, before ++ (nodes ++ [last]) :: after⟩
        ⟨image', before ++ (nodes ++ [last, next]) :: after⟩ := by
  have here : nodes ++ [last] ∈ before ++ (nodes ++ [last]) :: after := by simp
  obtain ⟨_, chain⟩ := filed.leads _ here
  obtain ⟨start, fine, ended⟩ := (chain_split chain).2
  obtain ⟨taken, took, updated⟩ := link_linked usable fine linked
  have outside := free_outside filed took.free
  have other {d : Nat} (member : d ∈ (before ++ (nodes ++ [last]) :: after).flatten) : d ≠ next :=
    fun same => outside (same ▸ member)
  have lastIn : last ∈ (before ++ (nodes ++ [last]) :: after).flatten :=
    List.mem_flatten.mpr ⟨_, here, by simp⟩
  have apart := filed.apart
  -- the entries of all files but the one behind `last` are as they were
  have same {d : Nat} (member : d ∈ (before ++ (nodes ++ [last]) :: after).flatten) (away : d ≠ last) :
      fatGet f image' d = fatGet f image d := by
    rw [updated.others d away]
    exact took.others d (other member)
  have nextEnds : follows f image' next = eoc := by
    apply follows_of
    rw [updated.others next (other lastIn).symm]
    exact took.last
  constructor
  · constructor
    · intro file member
      rcases List.mem_append.mp member with old | rest
      · apply leads_congr (filed.leads file (List.mem_append_left _ old))
        intro d inside
        apply same (List.mem_flatten.mpr ⟨file, List.mem_append_left _ old, inside⟩)
        rintro rfl
        rw [List.flatten_append, List.nodup_append] at apart
        exact apart.2.2 d (List.mem_flatten.mpr ⟨file, old, inside⟩) d (by simp) rfl
      · rcases List.mem_cons.mp rest with rfl | old
        · have head : (nodes ++ [last, next]).headD 0 = (nodes ++ [last]).headD 0 := by
            cases nodes <;> rfl
          refine ⟨by simp, ?_⟩
          rw [head]
          apply chain_append.mpr
          refine ⟨last, ?_, rfl, fine, follows_of updated.same, get_valid took.free, nextEnds⟩
          apply chain_congr (chain_split chain).1
          intro d inside
          apply follows_congr
          apply same (List.mem_flatten.mpr ⟨_, here, List.mem_append_left _ inside⟩)
          rintro rfl
          have once := chain_nodup (eoc_invalid f) chain
          rw [List.nodup_append] at once
          exact once.2.2 d inside d (by simp) rfl
        · have among : file ∈ before ++ (nodes ++ [last]) :: after :=
            List.mem_append_right _ (List.mem_cons_of_mem _ old)
          apply leads_congr (filed.leads file among)
          intro d inside
          apply same (List.mem_flatten.mpr ⟨file, among, inside⟩)
          rintro rfl
          rw [List.flatten_append, List.flatten_cons, List.nodup_append, List.nodup_append] at apart
          exact apart.2.1.2.2 d (by simp) d (List.mem_flatten.mpr ⟨file, old, inside⟩) rfl
    · have moved : (before ++ (nodes ++ [last, next]) :: after).flatten.Perm
          (next :: (before ++ (nodes ++ [last]) :: after).flatten) := by
        have whole : (before ++ (nodes ++ [last, next]) :: after).flatten =
            before.flatten ++ nodes ++ [last] ++ next :: after.flatten := by simp
        have rest : (before ++ (nodes ++ [last]) :: after).flatten =
            before.flatten ++ nodes ++ [last] ++ after.flatten := by simp
        rw [whole, rest]
        exact List.perm_middle
      exact moved.nodup_iff.mpr (List.nodup_cons.mpr ⟨outside, apart⟩)
  · have grown (d : Nat) : d ∈ (before ++ (nodes ++ [last, next]) :: after).flatten ↔
        d = next ∨ d ∈ (before ++ (nodes ++ [last]) :: after).flatten := by
      simp only [List.flatten_append, List.flatten_cons, List.mem_append, List.mem_cons,
        List.not_mem_nil, or_false]
      tauto
    constructor
    · intro d member _ j inside
      have behind := Nat.mul_le_mul_right 512 (usable.data_le (c := d))
      have kept := updated.around (sectorOf f d * 512 + j) (.inr (Nat.le_trans behind (Nat.le_add_right _ _)))
      exact kept.trans (taken_contents usable took (file_valid filed member) (other member) inside)
    · intro d member gone
      exact absurd ((grown d).mpr (.inr member)) gone
    · intro d away gone
      have apart_ : d ≠ next := fun here => gone ((grown d).mpr (.inl here))
      have kept := updated.others d fun here => away (here ▸ lastIn)
      exact kept.trans (took.others d apart_)

theorem free_step (usable : Usable f) {image image' : Memory} {before after : List (List Nat)}
    {nodes : List Nat}
    (filed : Filed f ⟨image, before ++ nodes :: after⟩)
    (went : freeChain f image (nodes.headD 0) = .ok image') :
    Filed f ⟨image', before ++ after⟩ ∧
      Kept f ⟨image, before ++ nodes :: after⟩ ⟨image', before ++ after⟩ := by
  have leads := filed.leads nodes (by simp)
  have fine : valid f (nodes.headD 0) := by
    cases nodes with
    | nil => exact absurd rfl leads.1
    | cons node rest => exact leads.2.2.1
  have low := fine.1
  rw [freeChain, if_neg (by omega)] at went
  obtain ⟨nodes', leads', freed⟩ := freeFrom_freed usable f.clusters image _ image' went
  cases chain_unique (eoc_invalid f) leads.2 leads'.2
  have apart := filed.apart
  rw [List.flatten_append, List.flatten_cons, List.nodup_append, List.nodup_append] at apart
  constructor
  · constructor
    · intro file member
      rcases List.mem_append.mp member with old | old
      · apply leads_congr (filed.leads file (List.mem_append_left _ old))
        intro d inside
        apply freed.others d
        intro gone
        exact apart.2.2 d (List.mem_flatten.mpr ⟨file, old, inside⟩) d (List.mem_append_left _ gone) rfl
      · apply leads_congr (filed.leads file (List.mem_append_right _ (List.mem_cons_of_mem _ old)))
        intro d inside
        apply freed.others d
        intro gone
        exact apart.2.1.2.2 d gone d (List.mem_flatten.mpr ⟨file, old, inside⟩) rfl
    · rw [List.flatten_append, List.nodup_append]
      refine ⟨apart.1, apart.2.1.2.1, ?_⟩
      intro d one e other
      exact apart.2.2 d one e (List.mem_append_right _ other)
  · have parts (d : Nat) : d ∈ (before ++ nodes :: after).flatten ↔
        d ∈ nodes ∨ d ∈ (before ++ after).flatten := by
      simp only [List.flatten_append, List.flatten_cons, List.mem_append]
      tauto
    constructor
    · intro d _ _ j _
      have behind := Nat.mul_le_mul_right 512 (usable.data_le (c := d))
      exact freed.around _ (.inr (Nat.le_trans behind (Nat.le_add_right _ _)))
    · intro d member gone
      exact freed.cleared d (((parts d).mp member).resolve_right gone)
    · intro d away _
      exact freed.others d fun gone => away ((parts d).mpr (.inl gone))

theorem cut_spec (usable : Usable f) {image image' : Memory} {start c : Nat} {front back : List Nat}
    (chain : Chain (follows f image) (valid f) eoc start (front ++ c :: back))
    (short : cut f image c = .ok image') :
    fatGet f image' c = .ok eoc ∧ (∀ d ∈ back, fatGet f image' d = .ok 0) ∧
      (∀ d, d ∉ c :: back → fatGet f image' d = fatGet f image d) ∧ ∀ x, f.root * 512 ≤ x →
        image' x = image x := by
  obtain ⟨_, fine, tail⟩ := (chain_split chain).2
  have once := chain_nodup (eoc_invalid f) (chain_split chain).2
  have apart := (List.nodup_cons.mp once).1
  obtain ⟨marked, set, updated⟩ := set_updated usable fine image (readBack_eoc f.bits)
  rw [cut, get_follows usable.accepted image fine, ok_bind, set, ok_bind] at short
  cases back with
  | nil =>
      have last : follows f image c = eoc := tail
      rw [if_neg (not_not_intro last)] at short
      cases short
      refine ⟨updated.same, fun d member => absurd member List.not_mem_nil, ?_,
        fun x above => updated.around x (.inr above)⟩
      intro d away
      exact updated.others d fun same => away (same ▸ List.mem_cons_self)
  | cons after rest =>
      have onward : valid f (follows f image c) := tail.1 ▸ tail.2.1
      have more : follows f image c ≠ eoc := fun same => eoc_invalid f (same ▸ onward)
      have low := onward.1
      rw [if_pos more, freeChain, if_neg (by omega)] at short
      obtain ⟨gone, leads, freed⟩ := freeFrom_freed usable f.clusters marked _ image' short
      -- the end mark at `c` is not on the way from the cluster behind it
      have behind : Chain (follows f marked) (valid f) eoc (follows f image c) (after :: rest) := by
        apply chain_congr tail
        intro d member
        exact follows_congr (updated.others d fun same => apart (same ▸ member))
      cases chain_unique (eoc_invalid f) behind leads.2
      constructor
      · rw [freed.others c apart]
        exact updated.same
      constructor
      · exact freed.cleared
      constructor
      · intro d away
        rw [List.mem_cons, not_or] at away
        rw [freed.others d away.2]
        exact updated.others d away.1
      · intro x above
        rw [freed.around x (.inr above)]
        exact updated.around x (.inr above)

theorem cut_step (usable : Usable f) {image image' : Memory} {before after : List (List Nat)}
    {front back : List Nat}
    {c : Nat} (filed : Filed f ⟨image, before ++ (front ++ c :: back) :: after⟩)
    (short : cut f image c = .ok image') :
    Filed f ⟨image', before ++ (front ++ [c]) :: after⟩ ∧
      Kept f ⟨image, before ++ (front ++ c :: back) :: after⟩
        ⟨image', before ++ (front ++ [c]) :: after⟩ := by
  have here : front ++ c :: back ∈ before ++ (front ++ c :: back) :: after := by simp
  obtain ⟨_, chain⟩ := filed.leads _ here
  obtain ⟨ended, cleared, others, around⟩ := cut_spec usable chain short
  have apart := filed.apart
  rw [List.flatten_append, List.flatten_cons, List.nodup_append, List.nodup_append] at apart
  constructor
  · constructor
    · intro file member
      rcases List.mem_append.mp member with old | rest
      · apply leads_congr (filed.leads file (List.mem_append_left _ old))
        intro d inside
        apply others d
        intro touched
        exact apart.2.2 d (List.mem_flatten.mpr ⟨file, old, inside⟩) d
          (List.mem_append_left _ (List.mem_append_right _ touched)) rfl
      · rcases List.mem_cons.mp rest with rfl | old
        · have head : (front ++ [c]).headD 0 = (front ++ c :: back).headD 0 := by
            cases front <;> rfl
          refine ⟨by simp, ?_⟩
          rw [head]
          apply chain_append.mpr
          refine ⟨c, ?_, rfl, (chain_split chain).2.2.1, follows_of ended⟩
          apply chain_congr (chain_split chain).1
          intro d inside
          apply follows_congr
          apply others d
          intro touched
          have once := chain_nodup (eoc_invalid f) chain
          rw [List.nodup_append] at once
          exact once.2.2 d inside d touched rfl
        · have among : file ∈ before ++ (front ++ c :: back) :: after :=
            List.mem_append_right _ (List.mem_cons_of_mem _ old)
          apply leads_congr (filed.leads file among)
          intro d inside
          apply others d
          intro touched
          exact apart.2.1.2.2 d (List.mem_append_right _ touched) d
            (List.mem_flatten.mpr ⟨file, old, inside⟩) rfl
    · have kept : (before ++ (front ++ [c]) :: after).flatten.Sublist
          (before ++ (front ++ c :: back) :: after).flatten := by
        simp only [List.flatten_append, List.flatten_cons]
        apply List.Sublist.append (List.Sublist.refl _)
        apply List.Sublist.append _ (List.Sublist.refl _)
        exact List.Sublist.append (List.Sublist.refl _) (List.Sublist.cons_cons c (List.nil_sublist back))
      exact kept.nodup filed.apart
  · have parts (d : Nat) : d ∈ (before ++ (front ++ c :: back) :: after).flatten ↔
        d ∈ back ∨ d ∈ (before ++ (front ++ [c]) :: after).flatten := by
      simp only [List.flatten_append, List.flatten_cons, List.mem_append, List.mem_cons,
        List.not_mem_nil, or_false]
      tauto
    have mine : c ∈ (before ++ (front ++ c :: back) :: after).flatten :=
      List.mem_flatten.mpr ⟨_, here, by simp⟩
    constructor
    · intro d _ _ j _
      have behind := Nat.mul_le_mul_right 512 (usable.data_le (c := d))
      exact around _ (Nat.le_trans behind (Nat.le_add_right _ _))
    · intro d member gone
      exact cleared d (((parts d).mp member).resolve_right gone)
    · intro d away _
      apply others d
      intro touched
      rcases List.mem_cons.mp touched with rfl | gone
      · exact away mine
      · exact away ((parts d).mpr (.inl gone))

theorem step_filed (usable : Usable f) {v w : Volume} (step : Step f v w) (filed : Filed f v) :
    Filed f w ∧ Kept f v w := by
  cases step with
  | create took => exact create_step usable filed took
  | extend linked => exact extend_step usable filed linked
  | cut short => exact cut_step usable filed short
  | free freed => exact free_step usable filed freed

theorem run_filed (usable : Usable f) {v w : Volume} (run : Relation.ReflTransGen (Step f) v w)
    (filed : Filed f v) :
    Filed f w := by
  induction run with
  | refl => exact filed
  | tail _ step ih => exact (step_filed usable step ih).1

/-- Every cluster of the volume is a file's or free. -/
def Accounted (f : RntpFat) (v : Volume) : Prop :=
  ∀ c, valid f c → c ∉ v.files.flatten → fatGet f v.image c = .ok 0

theorem run_accounted (usable : Usable f) {v w : Volume} (run : Relation.ReflTransGen (Step f) v w)
    (filed : Filed f v) (all_ : Accounted f v) : Accounted f w := by
  induction run with
  | refl => exact all_
  | @tail u _ before step ih =>
      have kept := (step_filed usable step (run_filed usable before filed)).2
      intro c fine gone
      by_cases member : c ∈ u.files.flatten
      · exact kept.released c member gone
      · rw [kept.others c member gone]
        exact ih c fine member

end Steps

/-- In every run of successful calls over a volume that `fat_init` accepts, each file stays a chain
of its own, in
which the clusters stand in the order they were added; no cluster is in two files or twice in one; a
call leaves
the contents of all clusters that stay in use; every file can be freed; and if no cluster was lost
at first, none
ever is: the free ones are those of no file. -/
theorem files_stay {b : Memory} {capacity : Nat} {f : RntpFat} (made : fatInit b capacity = .ok f)
    {v w : Volume}
    (filed : Filed f v) (run : Relation.ReflTransGen (Step f) v w) :
    (∀ nodes ∈ w.files, Leads f w.image (nodes.headD 0) nodes) ∧ w.files.flatten.Nodup ∧
      (∀ u, Step f w u → Kept f w u) ∧
      (∀ nodes ∈ w.files, ∃ image, freeChain f w.image (nodes.headD 0) = .ok image) ∧
      (Accounted f v → ∀ c, valid f c → (fatGet f w.image c = .ok 0 ↔ c ∉ w.files.flatten)) := by
  have usable := fatInit_usable made
  have kept := run_filed usable run filed
  refine ⟨kept.leads, kept.apart, fun u step => (step_filed usable step kept).2, ?_, ?_⟩
  · intro nodes file
    have leads := kept.leads nodes file
    have fine : valid f (nodes.headD 0) := by
      cases nodes with
      | nil => exact absurd rfl leads.1
      | cons node rest => exact leads.2.2.1
    have low := fine.1
    rw [freeChain, if_neg (by omega)]
    exact freeFrom_goes usable f.clusters w.image _ nodes leads (leads_short leads)
  · intro all_ c fine
    constructor
    · exact free_outside kept
    · exact run_accounted usable run filed all_ c fine

/-- The floppy with one file, and a second one begun. -/
def oneFile : Volume := ⟨twoClusters, [[2, 3]]⟩

def secondFile : Volume :=
  match allocate floppy twoClusters 2 with
  | .ok (image, c) => ⟨image, [[c], [2, 3]]⟩
  | .error _ => oneFile

theorem files_stay_second : secondFile.files.flatten.Nodup ∧
    ∀ nodes ∈ secondFile.files, ∃ image, freeChain floppy secondFile.image (nodes.headD 0) = .ok image := by
  have made : fatInit floppySector 400 = .ok floppy := by decide +kernel
  have filed : Filed floppy oneFile := by
    constructor
    · intro nodes file
      rw [List.mem_singleton.mp file]
      exact ⟨List.cons_ne_nil _ _, rfl, by decide, rfl, by decide, rfl⟩
    · decide
  have begun : Step floppy oneFile secondFile := .create rfl
  obtain ⟨_, apart, _, freed, _⟩ := files_stay made filed (.single begun)
  exact ⟨apart, freed⟩

end R2Apps.FatFiles
