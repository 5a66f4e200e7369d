import R2Apps.MetricsHistory
import Mathlib.Algebra.Order.BigOperators.Group.List
import Mathlib.Data.List.Nodup

/-! What the archives say about the accepted pushes: their rows follow each
other one step apart, and each is the average of its seconds. -/
namespace R2Apps.MetricsAverages
open R2Apps.Rings R2Apps.MetricsHistory

/-- What the second at `at_` had for series `i`. -/
def valueAt (past : List R2MetricsRow) (i at_ : Nat) : Nat :=
  ((past.find? fun e => e.timestampMs = at_).map fun e => e.value i).getD 0

/-- The row is the average of the seconds of its interval, series by series, where all were there. -/
def Averages (step : Nat) (past : List R2MetricsRow) (row : R2MetricsRow) : Prop :=
  ∀ i, (row.valid.testBit i = true ↔ i < metricCount ∧ ∀ j < step, ∃ e ∈ past,
      e.timestampMs = row.timestampMs + j * 1000 ∧ e.valid.testBit i = true) ∧
    (row.valid.testBit i = true → row.value i =
      ((List.range step).map fun j => valueAt past i (row.timestampMs + j * 1000)).sum / step)

/-- Accepted rows: one for each of some seconds, in order, with values of 64 bits. -/
structure Chronicle (past : List R2MetricsRow) : Prop where
  ordered : past.Pairwise fun a b => a.timestampMs < b.timestampMs
  seconds : ∀ e ∈ past, 1000 ∣ e.timestampMs
  words : ∀ e ∈ past, ∀ i, e.value i < word
  series : ∀ e ∈ past, ∀ i, e.valid.testBit i = true → i < metricCount

variable {past : List R2MetricsRow} {a : R2MetricsArchive} {step due : Nat}

section Averages

theorem valueAt_member (chronicle : Chronicle past) {e : R2MetricsRow} (member : e ∈ past) (i : Nat) :
    valueAt past i e.timestampMs = e.value i := by
  have ordered := chronicle.ordered
  clear chronicle
  induction past with
  | nil => contradiction
  | cons first rest ih =>
      obtain ⟨ahead, later⟩ := List.pairwise_cons.mp ordered
      rcases List.mem_cons.mp member with rfl | inRest
      · simp [valueAt]
      · have apart : first.timestampMs ≠ e.timestampMs := Nat.ne_of_lt (ahead e inRest)
        have tail := ih inRest later
        unfold valueAt at tail ⊢
        rwa [List.find?_cons_of_neg (by simpa using apart)]

theorem Chronicle.unique (chronicle : Chronicle past) {e f : R2MetricsRow} (first : e ∈ past)
    (second : f ∈ past) (same : e.timestampMs = f.timestampMs) : e = f := by
  have apart : past.Pairwise fun a b => a.timestampMs = b.timestampMs → a = b :=
    chronicle.ordered.imp fun before same => absurd same (Nat.ne_of_lt before)
  have flipped : past.Pairwise fun a b => b.timestampMs = a.timestampMs → b = a :=
    chronicle.ordered.imp fun before same => absurd same.symm (Nat.ne_of_lt before)
  exact List.Pairwise.forall_of_forall_of_flip (fun _ _ _ => rfl) apart flipped first second same

theorem Averages.grow {row new : R2MetricsRow} (averages : Averages step past row)
    (later : row.timestampMs + step * 1000 ≤ new.timestampMs) : Averages step (past ++ [new]) row := by
  have apart : ∀ j < step, new.timestampMs ≠ row.timestampMs + j * 1000 := by
    intro j inside same
    have := Nat.mul_le_mul_right 1000 (Nat.succ_le_of_lt inside)
    omega
  intro i
  obtain ⟨valid, value⟩ := averages i
  constructor
  · rw [valid]
    refine and_congr_right fun _ => forall_congr' fun j => imp_congr_right fun inside => ?_
    constructor
    · rintro ⟨e, member, same, bit⟩
      exact ⟨e, List.mem_append_left _ member, same, bit⟩
    · rintro ⟨e, member, same, bit⟩
      rcases List.mem_append.mp member with old | fresh
      · exact ⟨e, old, same, bit⟩
      · obtain rfl := List.mem_singleton.mp fresh
        exact absurd same (apart j inside)
  · intro bit
    rw [value bit]
    congr 2
    apply List.map_congr_left
    intro j member
    have missed : decide (new.timestampMs = row.timestampMs + j * 1000) = false :=
      decide_eq_false (apart j (List.mem_range.mp member))
    simp [valueAt, List.find?_append, missed]

theorem averages_empty {at_ : Nat} (positive : 0 < step) (before : ∀ e ∈ past, e.timestampMs < at_) :
    Averages step past (emptyRow at_) := by
  intro i
  constructor
  · refine ⟨fun bit => by simp [emptyRow] at bit, ?_⟩
    rintro ⟨-, full⟩
    obtain ⟨e, member, same, -⟩ := full 0 positive
    have := before e member
    simp only [emptyRow] at same
    omega
  · intro bit
    simp [emptyRow] at bit

theorem Averages.blank {row : R2MetricsRow} (averages : Averages step past row) (positive : 0 < step)
    (missed : ∀ e ∈ past, e.timestampMs ≠ row.timestampMs) : row.valid = 0 := by
  apply Nat.zero_of_testBit_eq_false
  intro i
  by_contra bit
  rw [Bool.not_eq_false, (averages i).1] at bit
  obtain ⟨e, member, same, -⟩ := bit.2 0 positive
  exact missed e member (by omega)

theorem averages_second (chronicle : Chronicle past) {row : R2MetricsRow} (member : row ∈ past) :
    Averages 1 past row := by
  intro i
  constructor
  · constructor
    · intro bit
      refine ⟨chronicle.series row member i bit, fun j zero => ⟨row, member, ?_, bit⟩⟩
      omega
    · rintro ⟨-, full⟩
      obtain ⟨e, other, same, bit⟩ := full 0 Nat.one_pos
      rw [chronicle.unique member other (by omega)]
      exact bit
  · intro bit
    simp [valueAt_member chronicle member]

end Averages

/-! Storing rows and filling gaps. -/
section Storing

/-- The archive's rows are averages up to `due`, where the next row belongs. -/
structure Kept (step due : Nat) (past : List R2MetricsRow) (a : R2MetricsArchive) : Prop where
  fits : a.Fits metricsRows
  seconds : a.stepSeconds = step
  aligned : step * 1000 ∣ due
  spaced : Spaced R2MetricsRow.timestampMs (step * 1000) due (a.retained metricsRows)
  averages : ∀ row ∈ a.retained metricsRows, Averages step past row

theorem Kept.store (kept : Kept step due past a) {row : R2MetricsRow} (now : row.timestampMs = due)
    (averages : Averages step past row) : Kept step (due + step * 1000) past (store a row) := by
  have retained : (MetricsHistory.store a row).retained metricsRows =
      newest metricsRows (a.retained metricsRows ++ [row]) := RoundRobin.retained_store kept.fits row
  constructor
  · exact RoundRobin.store_fits kept.fits row
  · exact kept.seconds
  · exact Nat.dvd_add kept.aligned (Nat.dvd_refl _)
  · rw [retained]
    exact (kept.spaced.append now).suffix (newest_suffix _ _)
  · intro old member
    rw [retained] at member
    rcases List.mem_append.mp ((newest_suffix _ _).subset member) with before | fresh
    · exact kept.averages old before
    · obtain rfl := List.mem_singleton.mp fresh
      exact averages

theorem Kept.grow (kept : Kept step due past a) {new : R2MetricsRow} (later : due ≤ new.timestampMs) :
    Kept step due (past ++ [new]) a :=
  { kept with
    averages := fun row member =>
      (kept.averages row member).grow (Nat.le_trans (kept.spaced.before member) later) }

theorem kept_blank (fits : a.next = 0 ∧ a.count = 0) (seconds : a.stepSeconds = step)
    (aligned : step * 1000 ∣ due) : Kept step due past a := by
  have none : a.retained metricsRows = [] := by simp [RoundRobin.retained, fits.2]
  have fit : a.Fits metricsRows := ⟨by rw [fits.1]; decide, by rw [fits.2]; decide⟩
  refine { fits := fit, seconds, aligned, spaced := ?_, averages := ?_ }
  · rw [none]
    trivial
  · intro row member
    rw [none] at member
    contradiction

theorem Kept.fill (positive : 0 < step) {n fuel begin_ end_ : Nat} (kept : Kept step begin_ past a)
    (enough : n ≤ fuel) (reach : begin_ + n * (step * 1000) = end_) (small : end_ < word)
    (before : ∀ e ∈ past, e.timestampMs < begin_) :
    Kept step end_ past (fill a (step * 1000) begin_ end_ (fuel + 1)) := by
  induction n generalizing a begin_ fuel with
  | zero =>
      have stop : ¬begin_ < end_ := by omega
      obtain rfl : begin_ = end_ := by omega
      rw [MetricsHistory.fill, if_neg stop]
      exact kept
  | succ n ih =>
      have split : (n + 1) * (step * 1000) = n * (step * 1000) + step * 1000 := Nat.succ_mul _ _
      obtain ⟨fuel, rfl⟩ : ∃ f, fuel = f + 1 := ⟨fuel - 1, by omega⟩
      rw [MetricsHistory.fill, if_pos (by omega), Nat.mod_eq_of_lt (by omega)]
      apply ih (kept.store rfl (averages_empty positive before)) (by omega) (by omega)
      intro e member
      have := before e member
      omega

theorem Kept.gaps (positive : 0 < step) {end_ : Nat} (kept : Kept step due past a)
    (aligned : step * 1000 ∣ end_) (order : due ≤ end_) (small : end_ < word)
    (before : ∀ e ∈ past, e.timestampMs < due) : Kept step end_ past (gaps a due end_) := by
  obtain ⟨n, reach⟩ : ∃ n, end_ = due + n * (step * 1000) := by
    obtain ⟨n, is⟩ := Nat.dvd_sub aligned kept.aligned
    exact ⟨n, by rw [Nat.mul_comm n]; omega⟩
  have wide : 0 < step * 1000 := by omega
  have rounds : (end_ - due) / (step * 1000) = n := by
    rw [reach, Nat.add_sub_cancel_left, Nat.mul_div_cancel _ wide]
  simp only [MetricsHistory.gaps, kept.seconds, rounds]
  split
  · obtain rfl : due = end_ := by omega
    exact kept
  · split
    · rename_i long
      -- only the newest rows can be retained, so the ring starts again that far back
      have back : metricsRows * (step * 1000) ≤ n * (step * 1000) := Nat.mul_le_mul_right _ long
      refine Kept.fill positive (n := metricsRows) (kept_blank ⟨rfl, rfl⟩ rfl ?_)
        (Nat.le_refl _) (by omega) small ?_
      · exact Nat.dvd_sub aligned (Nat.dvd_mul_left _ _)
      · intro e member
        have := before e member
        omega
    · rename_i short
      exact Kept.fill positive kept (Nat.le_of_lt (by omega)) reach.symm small before

theorem fill_rest (a : R2MetricsArchive) (wide begin_ end_ fuel : Nat) :
    fill a wide begin_ end_ fuel =
      { a with toRoundRobin := (fill a wide begin_ end_ fuel).toRoundRobin } := by
  induction fuel generalizing a begin_ with
  | zero => rfl
  | succ fuel ih =>
      unfold MetricsHistory.fill
      split
      · rw [ih]
        rfl
      · rfl

theorem gaps_rest (a : R2MetricsArchive) (begin_ end_ : Nat) :
    gaps a begin_ end_ = { a with toRoundRobin := (gaps a begin_ end_).toRoundRobin } := by
  unfold MetricsHistory.gaps
  dsimp only
  split
  · rfl
  · split
    · rw [fill_rest]
    · rw [fill_rest]

end Storing

/-! The running bucket. -/
section Running
variable {bucket i : Nat}

/-- The seconds of the running bucket that had series `i`. -/
def current (bucket : Nat) (past : List R2MetricsRow) (i : Nat) : List R2MetricsRow :=
  past.filter fun e => bucket ≤ e.timestampMs ∧ e.valid.testBit i

def slot (bucket : Nat) (e : R2MetricsRow) : Nat := (e.timestampMs - bucket) / 1000

theorem mem_current {e : R2MetricsRow} :
    e ∈ current bucket past i ↔ e ∈ past ∧ bucket ≤ e.timestampMs ∧ e.valid.testBit i = true := by
  simp [current]

structure InBucket (step bucket : Nat) (past : List R2MetricsRow) : Prop where
  chronicle : Chronicle past
  positive : 0 < step
  aligned : 1000 ∣ bucket
  before : ∀ e ∈ past, e.timestampMs < bucket + step * 1000

theorem InBucket.at (inBucket : InBucket step bucket past) {e : R2MetricsRow} (member : e ∈ past)
    (inside : bucket ≤ e.timestampMs) :
    slot bucket e < step ∧ e.timestampMs = bucket + slot bucket e * 1000 := by
  have before := inBucket.before e member
  have second := inBucket.chronicle.seconds e member
  have aligned := inBucket.aligned
  unfold slot
  constructor
  · rw [Nat.div_lt_iff_lt_mul (by decide)]
    omega
  · rw [Nat.div_mul_cancel (Nat.dvd_sub second aligned)]
    omega

theorem InBucket.slots (inBucket : InBucket step bucket past) (i : Nat) :
    List.Subperm ((current bucket past i).map (slot bucket)) (List.range step) := by
  apply List.subperm_of_subset
  · have distinct : past.Nodup := inBucket.chronicle.ordered.imp fun before same =>
      absurd (congrArg R2MetricsRow.timestampMs same) (Nat.ne_of_lt before)
    apply List.Nodup.map_on _ (distinct.filter _)
    intro e first f second same
    obtain ⟨old, inside, -⟩ := mem_current.mp first
    obtain ⟨old', inside', -⟩ := mem_current.mp second
    apply inBucket.chronicle.unique old old'
    rw [(inBucket.at old inside).2, (inBucket.at old' inside').2, same]
  · intro j member
    obtain ⟨e, among, rfl⟩ := List.mem_map.mp member
    obtain ⟨old, inside, -⟩ := mem_current.mp among
    exact List.mem_range.mpr (inBucket.at old inside).1

theorem InBucket.few (inBucket : InBucket step bucket past) (i : Nat) :
    (current bucket past i).length ≤ step := by
  simpa using (inBucket.slots i).length_le

theorem InBucket.complete_iff (inBucket : InBucket step bucket past) (i : Nat) :
    (current bucket past i).length = step ↔
      ∀ j < step, ∃ e ∈ past, e.timestampMs = bucket + j * 1000 ∧ e.valid.testBit i = true := by
  constructor
  · intro full j below
    have perm := (inBucket.slots i).perm_of_length_le (by simp [full])
    obtain ⟨e, among, rfl⟩ := List.mem_map.mp (perm.mem_iff.mpr (List.mem_range.mpr below))
    obtain ⟨old, inside, bit⟩ := mem_current.mp among
    exact ⟨e, old, (inBucket.at old inside).2, bit⟩
  · intro all
    apply Nat.le_antisymm (inBucket.few i)
    have covered : List.range step ⊆ (current bucket past i).map (slot bucket) := by
      intro j below
      obtain ⟨e, old, at_, bit⟩ := all j (List.mem_range.mp below)
      refine List.mem_map.mpr ⟨e, mem_current.mpr ⟨old, by omega, bit⟩, ?_⟩
      rw [slot, at_, Nat.add_sub_cancel_left, Nat.mul_div_cancel _ (by decide)]
    simpa using (List.subperm_of_subset List.nodup_range covered).length_le

theorem InBucket.sum (inBucket : InBucket step bucket past) {i : Nat}
    (full : (current bucket past i).length = step) :
    ((List.range step).map fun j => valueAt past i (bucket + j * 1000)).sum =
      ((current bucket past i).map fun e => e.value i).sum := by
  have perm := (inBucket.slots i).perm_of_length_le (by simp [full])
  rw [← (perm.map _).sum_eq, List.map_map]
  congr 1
  apply List.map_congr_left
  intro e among
  obtain ⟨old, inside, -⟩ := mem_current.mp among
  rw [Function.comp_apply, ← (inBucket.at old inside).2, valueAt_member inBucket.chronicle old]

/-- The accumulators are the sums over the running bucket, which never wrap. -/
structure Tallied (past : List R2MetricsRow) (a : R2MetricsArchive) (i : Nat) : Prop where
  seen : a.seen i = (current a.bucketMs past i).length
  quotient : a.quotient i = ((current a.bucketMs past i).map fun e => e.value i / a.stepSeconds).sum
  remainder : a.remainder i = ((current a.bucketMs past i).map fun e => e.value i % a.stepSeconds).sum

theorem sum_split (rows : List R2MetricsRow) (step i : Nat) :
    (rows.map fun e => e.value i).sum =
      step * (rows.map fun e => e.value i / step).sum + (rows.map fun e => e.value i % step).sum := by
  induction rows with
  | nil => rfl
  | cons e rest ih =>
      simp only [List.map_cons, List.sum_cons, ih]
      have parts := Nat.div_add_mod (e.value i) step
      rw [Nat.mul_add]
      omega

theorem sum_bound (rows : List R2MetricsRow) (f : R2MetricsRow → Nat) (bound : Nat)
    (each : ∀ e ∈ rows, f e ≤ bound) : (rows.map f).sum ≤ rows.length * bound := by
  have total := List.sum_le_card_nsmul (rows.map f) bound fun n member => by
    obtain ⟨e, among, rfl⟩ := List.mem_map.mp member
    exact each e among
  simpa using total

theorem InBucket.value_le (inBucket : InBucket step bucket past) {e : R2MetricsRow}
    (among : e ∈ current bucket past i) : e.value i ≤ word - 1 :=
  Nat.le_sub_one_of_lt (inBucket.chronicle.words e (mem_current.mp among).1 i)

theorem InBucket.quotients (inBucket : InBucket step bucket past) (i : Nat) :
    ((current bucket past i).map fun e => e.value i / step).sum < word := by
  have total := sum_bound (current bucket past i) (fun e => e.value i / step) ((word - 1) / step)
    fun e among => Nat.div_le_div_right (inBucket.value_le among)
  have few := Nat.mul_le_mul_right ((word - 1) / step) (inBucket.few i)
  have whole := Nat.mul_div_le (word - 1) step
  unfold word at *
  omega

theorem InBucket.remainders (inBucket : InBucket step bucket past) (small : step ≤ 60) (i : Nat) :
    ((current bucket past i).map fun e => e.value i % step).sum < word := by
  have total := sum_bound (current bucket past i) (fun e => e.value i % step) 60
    fun e _ => Nat.le_trans (Nat.le_of_lt (Nat.mod_lt _ inBucket.positive)) small
  have few := Nat.mul_le_mul_right 60 (inBucket.few i)
  unfold word
  omega

theorem InBucket.floor (inBucket : InBucket step bucket past)
    (full : (current bucket past i).length = step) :
    (((current bucket past i).map fun e => e.value i / step).sum +
        ((current bucket past i).map fun e => e.value i % step).sum / step) % word =
      ((current bucket past i).map fun e => e.value i).sum / step := by
  have average : ((current bucket past i).map fun e => e.value i).sum / step =
      ((current bucket past i).map fun e => e.value i / step).sum +
        ((current bucket past i).map fun e => e.value i % step).sum / step := by
    rw [sum_split (current bucket past i) step i, Nat.mul_add_div inBucket.positive]
  have total := sum_bound (current bucket past i) (fun e => e.value i) (word - 1)
    fun e among => inBucket.value_le among
  rw [full] at total
  have bound := Nat.div_le_of_le_mul total
  rw [average] at bound ⊢
  apply Nat.mod_eq_of_lt
  unfold word at *
  omega

theorem setValue_bit (row : R2MetricsRow) (k value i : Nat) :
    (setValue row k value).valid.testBit i = true ↔ row.valid.testBit i = true ∨ k = i := by
  simp [setValue, Nat.one_shiftLeft, Nat.testBit_or, Nat.testBit_two_pow]

section Folding
variable (P : Nat → Prop) [DecidablePred P] (f : Nat → Nat) (row : R2MetricsRow)

def folded (series : List Nat) : R2MetricsRow :=
  series.foldl (fun row k => if P k then setValue row k (f k) else row) row

theorem folded_time (series : List Nat) : (folded P f row series).timestampMs = row.timestampMs := by
  induction series generalizing row with
  | nil => rfl
  | cons k rest ih =>
      unfold folded at ih ⊢
      rw [List.foldl_cons, ih]
      split <;> rfl

theorem folded_bit (series : List Nat) (i : Nat) :
    (folded P f row series).valid.testBit i = true ↔
      row.valid.testBit i = true ∨ i ∈ series ∧ P i := by
  induction series generalizing row with
  | nil => simp [folded]
  | cons k rest ih =>
      unfold folded at ih ⊢
      rw [List.foldl_cons, ih, List.mem_cons]
      split
      · rename_i present
        rw [setValue_bit]
        constructor
        · rintro ((bit | rfl) | ⟨later, holds⟩)
          · exact Or.inl bit
          · exact Or.inr ⟨Or.inl rfl, present⟩
          · exact Or.inr ⟨Or.inr later, holds⟩
        · rintro (bit | ⟨rfl | later, holds⟩)
          · exact Or.inl (Or.inl bit)
          · exact Or.inl (Or.inr rfl)
          · exact Or.inr ⟨later, holds⟩
      · rename_i absent
        constructor
        · rintro (bit | ⟨later, holds⟩)
          · exact Or.inl bit
          · exact Or.inr ⟨Or.inr later, holds⟩
        · rintro (bit | ⟨rfl | later, holds⟩)
          · exact Or.inl bit
          · exact absurd holds absent
          · exact Or.inr ⟨later, holds⟩

theorem folded_value (series : List Nat) (i : Nat) (kept : i ∈ series ∧ P i ∨ row.value i = f i) :
    (folded P f row series).value i = f i := by
  induction series generalizing row with
  | nil =>
      rcases kept with ⟨none, -⟩ | same
      · contradiction
      · exact same
  | cons k rest ih =>
      unfold folded at ih ⊢
      rw [List.foldl_cons]
      apply ih
      by_cases here : i = k
      · subst here
        by_cases present : P i
        · right
          rw [if_pos present]
          simp [setValue]
        · rw [if_neg present]
          rcases kept with ⟨-, holds⟩ | same
          · exact absurd holds present
          · exact Or.inr same
      · rcases kept with ⟨member, holds⟩ | same
        · exact Or.inl ⟨(List.mem_cons.mp member).resolve_left here, holds⟩
        · right
          split
          · simpa [setValue, here] using same
          · exact same

end Folding

theorem average_folded (a : R2MetricsArchive) :
    average a = folded (fun i => a.seen i = a.stepSeconds)
      (fun i => (a.quotient i + a.remainder i / a.stepSeconds) % word) (emptyRow a.bucketMs)
      (List.range metricCount) :=
  rfl

theorem average_averages (inBucket : InBucket a.stepSeconds a.bucketMs past)
    (tallied : ∀ i, Tallied past a i) : Averages a.stepSeconds past (average a) := by
  intro i
  obtain ⟨seen, quotient, remainder⟩ := tallied i
  have time : (average a).timestampMs = a.bucketMs := folded_time _ _ _ _
  have bit : (average a).valid.testBit i = true ↔ i < metricCount ∧ a.seen i = a.stepSeconds := by
    rw [average_folded, folded_bit, List.mem_range]
    simp [emptyRow]
  rw [time]
  constructor
  · rw [bit, seen, inBucket.complete_iff]
  · intro valid
    obtain ⟨series, full⟩ := bit.mp valid
    rw [average_folded, folded_value _ _ _ _ _ (Or.inl ⟨List.mem_range.mpr series, full⟩)]
    rw [seen] at full
    rw [quotient, remainder, inBucket.floor full, inBucket.sum full]

theorem current_append (bucket : Nat) (past : List R2MetricsRow) (row : R2MetricsRow) (i : Nat)
    (inside : bucket ≤ row.timestampMs) :
    current bucket (past ++ [row]) i =
      current bucket past i ++ if row.valid.testBit i = true then [row] else [] := by
  by_cases bit : row.valid.testBit i = true <;> simp [current, inside, bit]

theorem tallied_accumulate {row : R2MetricsRow} (inside : a.bucketMs ≤ row.timestampMs)
    (inBucket : InBucket a.stepSeconds a.bucketMs (past ++ [row])) (small : a.stepSeconds ≤ 60)
    (tallied : Tallied past a i) : Tallied (past ++ [row]) (accumulate a row) i := by
  have quotients := inBucket.quotients i
  have remainders := inBucket.remainders small i
  have grown := current_append a.bucketMs past row i inside
  by_cases bit : row.valid.testBit i = true
  · rw [if_pos bit] at grown
    rw [grown] at quotients remainders
    simp only [List.map_append, List.sum_append, List.map_cons, List.map_nil, List.sum_singleton]
      at quotients remainders
    constructor
    · simp only [accumulate, bit, if_true, grown, List.length_append, List.length_singleton, tallied.seen]
    · simp only [accumulate, bit, if_true, grown, tallied.quotient, List.map_append, List.sum_append,
        List.map_cons, List.map_nil, List.sum_singleton]
      exact Nat.mod_eq_of_lt quotients
    · simp only [accumulate, bit, if_true, grown, tallied.remainder, List.map_append, List.sum_append,
        List.map_cons, List.map_nil, List.sum_singleton]
      exact Nat.mod_eq_of_lt remainders
  · rw [if_neg bit, List.append_nil] at grown
    constructor
    · simp only [accumulate, bit, Bool.false_eq_true, if_false, grown, tallied.seen]
    · simp only [accumulate, bit, Bool.false_eq_true, if_false, grown, tallied.quotient]
    · simp only [accumulate, bit, Bool.false_eq_true, if_false, grown, tallied.remainder]

/-- An archive that averages: its rows are done up to the running bucket. -/
structure Consolidated (step : Nat) (past : List R2MetricsRow) (a : R2MetricsArchive) : Prop where
  kept : Kept step a.bucketMs past a
  before : ∀ e ∈ past, e.timestampMs < a.bucketMs + step * 1000
  tallied : ∀ i, Tallied past a i

theorem kept_congr {b : R2MetricsArchive} (kept : Kept step due past a)
    (ring : b.toRoundRobin = a.toRoundRobin) (seconds : b.stepSeconds = a.stepSeconds) :
    Kept step due past b := by
  constructor
  · rw [ring]
    exact kept.fits
  · exact seconds.trans kept.seconds
  · exact kept.aligned
  · rw [ring]
    exact kept.spaced
  · rw [ring]
    exact kept.averages

theorem Consolidated.accumulate {row : R2MetricsRow} (done : Consolidated step past a)
    (chronicle : Chronicle (past ++ [row])) (positive : 0 < step) (small : step ≤ 60)
    (inside : a.bucketMs ≤ row.timestampMs) (below : row.timestampMs < a.bucketMs + step * 1000) :
    Consolidated step (past ++ [row]) (accumulate a row) := by
  have before : ∀ e ∈ past ++ [row], e.timestampMs < a.bucketMs + step * 1000 := by
    intro e member
    rcases List.mem_append.mp member with old | new
    · exact done.before e old
    · rw [List.mem_singleton.mp new]
      exact below
  have seconds := done.kept.seconds
  have inBucket : InBucket a.stepSeconds a.bucketMs (past ++ [row]) :=
    { chronicle, positive := by omega, aligned := dvd_trans (Nat.dvd_mul_left _ _) done.kept.aligned,
      before := by rw [seconds]; exact before }
  exact { kept := kept_congr (done.kept.grow inside) rfl rfl
          before
          tallied := fun i => tallied_accumulate inside inBucket (by omega) (done.tallied i) }

theorem Consolidated.roll {bucket : Nat} (done : Consolidated step past a) (chronicle : Chronicle past)
    (positive : 0 < step) (aligned : step * 1000 ∣ bucket) (later : a.bucketMs < bucket)
    (small : bucket < word) :
    Consolidated step past { gaps (store (clear a) (average a)) ((a.bucketMs + step * 1000) % word)
      bucket with bucketMs := bucket } := by
  have seconds := done.kept.seconds
  have next : a.bucketMs + step * 1000 ≤ bucket := by
    obtain ⟨n, is⟩ := Nat.dvd_sub aligned done.kept.aligned
    have some_ : 0 < n := by
      rcases Nat.eq_zero_or_pos n with rfl | some_
      · omega
      · exact some_
    have := Nat.mul_le_mul_left (step * 1000) some_
    omega
  have inBucket : InBucket a.stepSeconds a.bucketMs past :=
    { chronicle, positive := by omega, aligned := dvd_trans (Nat.dvd_mul_left _ _) done.kept.aligned,
      before := by rw [seconds]; exact done.before }
  have averages : Averages step past (average a) := seconds ▸ average_averages inBucket done.tallied
  have time : (average a).timestampMs = a.bucketMs := folded_time _ _ _ _
  have cleared : Kept step a.bucketMs past (clear a) := kept_congr done.kept rfl rfl
  have filled := (cleared.store time averages).gaps positive aligned next small done.before
  have none : ∀ i, current bucket past i = [] := by
    intro i
    apply List.filter_eq_nil_iff.mpr
    intro e member
    have := done.before e member
    simp only [decide_eq_true_eq, not_and]
    intro inside
    omega
  rw [Nat.mod_eq_of_lt (by omega)]
  have rest := gaps_rest (store (clear a) (average a)) (a.bucketMs + step * 1000) bucket
  refine { kept := kept_congr filled rfl rfl, before := ?_, tallied := ?_ }
  · intro e member
    have := done.before e member
    show e.timestampMs < bucket + step * 1000
    omega
  · intro i
    rw [rest]
    constructor <;> simp [none, store, clear]

theorem bucket_bounds (at_ : Nat) (positive : 0 < step) :
    step * 1000 ∣ at_ / (step * 1000) * (step * 1000) ∧ at_ / (step * 1000) * (step * 1000) ≤ at_ ∧
    at_ < at_ / (step * 1000) * (step * 1000) + step * 1000 := by
  have parts := Nat.div_add_mod at_ (step * 1000)
  have rest := Nat.mod_lt at_ (show 0 < step * 1000 by omega)
  rw [Nat.mul_comm] at parts
  exact ⟨Nat.dvd_mul_left _ _, by omega, by omega⟩

theorem Consolidated.consolidate {row : R2MetricsRow} (done : Consolidated step past a)
    (chronicle : Chronicle (past ++ [row])) (positive : 0 < step) (small : step ≤ 60)
    (reached : a.bucketMs ≤ row.timestampMs) (fits : row.timestampMs < word) :
    Consolidated step (past ++ [row]) (consolidate a row false) ∧
    (MetricsHistory.consolidate a row false).bucketMs ≤ row.timestampMs := by
  obtain ⟨aligned, lower, upper⟩ := bucket_bounds row.timestampMs positive
  simp only [MetricsHistory.consolidate, done.kept.seconds, Bool.false_eq_true, if_false]
  generalize row.timestampMs / (step * 1000) * (step * 1000) = bucket at *
  split
  · rename_i other
    have later : a.bucketMs < bucket := by
      apply Nat.lt_of_le_of_ne _ (Ne.symm other)
      -- the push is not before the running bucket, and buckets are whole steps apart
      by_contra behind
      obtain ⟨n, is⟩ := Nat.dvd_sub done.kept.aligned aligned
      have some_ : 0 < n := by
        rcases Nat.eq_zero_or_pos n with rfl | some_
        · omega
        · exact some_
      have := Nat.mul_le_mul_left (step * 1000) some_
      omega
    have earlier : Chronicle past := by
      constructor
      · exact (List.pairwise_append.mp chronicle.ordered).1
      · exact fun e member => chronicle.seconds e (List.mem_append_left _ member)
      · exact fun e member => chronicle.words e (List.mem_append_left _ member)
      · exact fun e member => chronicle.series e (List.mem_append_left _ member)
    have rolled := done.roll earlier positive aligned later (by omega)
    exact ⟨rolled.accumulate chronicle positive small lower upper, lower⟩
  · rename_i same
    obtain rfl : bucket = a.bucketMs := not_not.mp same
    exact ⟨done.accumulate chronicle positive small lower upper, lower⟩

theorem consolidate_first {row : R2MetricsRow} (k : Nat) (chronicle : Chronicle [row])
    (fits : row.timestampMs < word) :
    Consolidated (steps k) [row] (consolidate (r2MetricsInit.archive k) row true) ∧
    (consolidate (r2MetricsInit.archive k) row true).bucketMs ≤ row.timestampMs := by
  have positive : 0 < steps k := by unfold steps; split <;> decide
  have small : steps k ≤ 60 := by unfold steps; split <;> decide
  obtain ⟨aligned, lower, -⟩ := bucket_bounds row.timestampMs positive
  obtain ⟨bucket, is⟩ : ∃ bucket, row.timestampMs / (steps k * 1000) * (steps k * 1000) = bucket :=
    ⟨_, rfl⟩
  rw [is] at aligned lower
  have opened : Consolidated (steps k) [] { r2MetricsInit.archive k with bucketMs := bucket } :=
    { kept := kept_blank ⟨rfl, rfl⟩ rfl aligned
      before := fun e member => absurd member List.not_mem_nil
      tallied := fun i => by constructor <;> rfl }
  have same : consolidate (r2MetricsInit.archive k) row true =
      consolidate { r2MetricsInit.archive k with bucketMs := bucket } row false := by
    rw [← is]
    rfl
  rw [same]
  exact opened.consolidate chronicle positive small lower fits

end Running

/-! Whole runs. -/
section Runs
variable {x : Log} {db : R2Metrics} {input : R2MetricsInput}

theorem rate_word (delta elapsed : Nat) : rate delta elapsed < word := by
  have small := Nat.mod_lt (delta % elapsed * 1000) (show 0 < word by decide)
  have fraction := Nat.div_le_self (delta % elapsed * 1000 % word) elapsed
  unfold rate
  dsimp only
  generalize delta % elapsed * 1000 % word / elapsed = part at *
  split
  · decide
  · unfold word at *
    omega

theorem sample_time (db : R2Metrics) (input : R2MetricsInput) :
    (sample db input).timestampMs = input.timestampMs.toNat / 1000 * 1000 := by
  simp only [sample, apply_ite R2MetricsRow.timestampMs, setValue, emptyRow, ite_self]

/-- A row that `setValue` has built from an empty one. -/
def Sampled (row : R2MetricsRow) : Prop :=
  ∀ i, row.value i < word ∧ (row.valid.testBit i = true → i < metricCount)

theorem Sampled.set {row : R2MetricsRow} (sampled : Sampled row) {k value : Nat}
    (series : k < metricCount) (small : value < word) : Sampled (setValue row k value) := by
  intro i
  obtain ⟨word, bit⟩ := sampled i
  constructor
  · simp only [setValue]
    split
    · exact small
    · exact word
  · rw [setValue_bit]
    rintro (old | rfl)
    · exact bit old
    · exact series

theorem sampled_empty (at_ : Nat) : Sampled (emptyRow at_) :=
  fun i => ⟨Nat.two_pow_pos 64, fun bit => by simp [emptyRow] at bit⟩

theorem Sampled.when {P : Prop} [Decidable P] {row other : R2MetricsRow} (sampled : Sampled row)
    (changed : Sampled other) : Sampled (if P then other else row) := by
  split
  · exact changed
  · exact sampled

theorem sample_sampled (db : R2Metrics) (input : R2MetricsInput) : Sampled (sample db input) := by
  have empty := sampled_empty (input.timestampMs.toNat / 1000 * 1000)
  unfold sample
  dsimp only
  have received := empty.when (P := input.rxBytes.toNat ≥ db.rxBytes)
    (empty.set (show metricRxBps < metricCount by decide)
      (rate_word (input.rxBytes.toNat - db.rxBytes) (input.netTimestampMs.toNat - db.netMs)))
  have net := empty.when (P := input.available &&& metricsNet ≠ 0 ∧ db.haveNet = true ∧
      input.netTimestampMs.toNat > db.netMs ∧
      input.netTimestampMs.toNat - db.netMs ≤ metricsHeartbeatMs)
    (received.when (P := input.txBytes.toNat ≥ db.txBytes)
      (received.set (show metricTxBps < metricCount by decide)
        (rate_word (input.txBytes.toNat - db.txBytes) (input.netTimestampMs.toNat - db.netMs))))
  have memory := net.when (P := input.available &&& metricsMemory ≠ 0)
    ((net.set (show metricHeapUsed < metricCount by decide) input.heapUsed.toNat_lt).set
      (show metricHeapSize < metricCount by decide) input.heapSize.toNat_lt)
  exact memory.when ((((memory.set (show metricTasks < metricCount by decide) input.tasks.toNat_lt).set
    (show metricUserTasks < metricCount by decide) input.userTasks.toNat_lt).set
    (show metricRunnable < metricCount by decide) input.runnable.toNat_lt).set
    (show metricBlocked < metricCount by decide) input.blocked.toNat_lt)

/-- What the history is after every run. -/
structure Recorded (x : Log) : Prop where
  times : ∀ e ∈ x.accepted, e.row.timestampMs = e.input.timestampMs.toNat / 1000 * 1000
  chronicle : Chronicle x.rows
  unstarted : x.db.started = false → x = fresh
  latest : x.db.started = true → ∃ e, x.accepted.getLast? = some e ∧
    x.db.lastMs = e.input.timestampMs.toNat
  past : ∀ e ∈ x.rows, e.timestampMs ≤ x.db.lastMs
  seconds : x.db.started = true → Kept 1 (x.db.lastMs / 1000 * 1000 + 1000) x.rows (x.db.archive 0)
  newest : x.db.started = true → (x.db.archive 0).row metricsRows ((x.db.archive 0).count - 1) =
    x.rows.getLast?
  buckets : x.db.started = true → ∀ k, 0 < k → k < metricsArchives →
    Consolidated (steps k) x.rows (x.db.archive k) ∧
    (x.db.archive k).bucketMs ≤ x.db.lastMs / 1000 * 1000

theorem chronicle_append (chronicle : Chronicle past) {row : R2MetricsRow}
    (later : ∀ e ∈ past, e.timestampMs < row.timestampMs) (second : 1000 ∣ row.timestampMs)
    (sampled : Sampled row) : Chronicle (past ++ [row]) := by
  constructor
  · refine List.pairwise_append.mpr ⟨chronicle.ordered, List.pairwise_singleton _ _, ?_⟩
    intro e old new member
    rw [List.mem_singleton.mp member]
    exact later e old
  · intro e member
    rcases List.mem_append.mp member with old | new
    · exact chronicle.seconds e old
    · rw [List.mem_singleton.mp new]
      exact second
  · intro e member i
    rcases List.mem_append.mp member with old | new
    · exact chronicle.words e old i
    · rw [List.mem_singleton.mp new]
      exact (sampled i).1
  · intro e member i
    rcases List.mem_append.mp member with old | new
    · exact chronicle.series e old i
    · rw [List.mem_singleton.mp new]
      exact (sampled i).2

theorem chronicle_nil : Chronicle [] := by
  constructor <;> simp

theorem Recorded.later (recorded : Recorded x)
    (due : r2MetricsDue x.db input.timestampMs.toNat = true)
    (forward : rolledBack x.db input = false) (begun : x.db.started = true) :
    x.db.lastMs / 1000 * 1000 + 1000 ≤ input.timestampMs.toNat / 1000 * 1000 ∧
    ∀ e ∈ x.rows, e.timestampMs < x.db.lastMs / 1000 * 1000 + 1000 := by
  simp only [r2MetricsDue, rolledBack, begun, Bool.not_true, Bool.false_or, Bool.or_eq_true,
    decide_eq_true_eq, Bool.true_and, decide_eq_false_iff_not] at due forward
  constructor
  · omega
  · intro e member
    have past := recorded.past e member
    omega

theorem accept_recorded (x : Log) (input : R2MetricsInput) (recorded : Recorded x)
    (due : r2MetricsDue x.db input.timestampMs.toNat = true)
    (forward : rolledBack x.db input = false) :
    Recorded { db := accept x.db input, accepted := x.accepted ++ [⟨input, sample x.db input⟩] } := by
  obtain ⟨row, is⟩ : ∃ row, sample x.db input = row := ⟨_, rfl⟩
  have time : row.timestampMs = input.timestampMs.toNat / 1000 * 1000 := is ▸ sample_time x.db input
  have sampled : Sampled row := is ▸ sample_sampled x.db input
  have small : row.timestampMs < word := by
    have := input.timestampMs.toNat_lt
    rw [time]
    unfold word
    omega
  have second : 1000 ∣ row.timestampMs := time ▸ Nat.dvd_mul_left _ _
  have rows : (Log.mk (accept x.db input) (x.accepted ++ [⟨input, sample x.db input⟩])).rows =
      x.rows ++ [row] := by
    simp [Log.rows, is]
  have chronicle : Chronicle (x.rows ++ [row]) := by
    apply chronicle_append recorded.chronicle _ second sampled
    intro e member
    by_cases begun : x.db.started = true
    · obtain ⟨after, before⟩ := recorded.later due forward begun
      have := before e member
      omega
    · rw [recorded.unstarted (by simpa using begun)] at member
      contradiction
  -- the archive of seconds before the new row is stored
  obtain ⟨filled, fill⟩ : ∃ filled, (if x.db.started then gaps (x.db.archive 0)
      ((x.db.lastMs / 1000 * 1000 + 1000) % word) row.timestampMs else x.db.archive 0) = filled :=
    ⟨_, rfl⟩
  have kept : Kept 1 row.timestampMs x.rows filled := by
    rw [← fill]
    by_cases begun : x.db.started = true
    · obtain ⟨after, before⟩ := recorded.later due forward begun
      rw [if_pos begun, Nat.mod_eq_of_lt (by omega)]
      exact (recorded.seconds begun).gaps Nat.one_pos second (by omega) small before
    · rw [if_neg begun, recorded.unstarted (by simpa using begun)]
      exact kept_blank ⟨rfl, rfl⟩ rfl second
  have first : (accept x.db input).archive 0 = store filled row := by
    simp only [accept, is, fill, if_true]
  refine { times := ?_, chronicle := by rw [rows]; exact chronicle, unstarted := nofun
           latest := fun _ => ⟨_, List.getLast?_concat, rfl⟩, past := ?_, seconds := ?_
           newest := ?_, buckets := ?_ }
  · intro e member
    rcases List.mem_append.mp member with old | new
    · exact recorded.times e old
    · rw [List.mem_singleton.mp new]
      exact sample_time x.db input
  · rw [rows]
    intro e member
    change e.timestampMs ≤ input.timestampMs.toNat
    have upper : row.timestampMs ≤ input.timestampMs.toNat := time ▸ Nat.div_mul_le_self _ _
    rcases List.mem_append.mp member with old | new
    · exact Nat.le_of_lt (Nat.lt_of_lt_of_le
        ((List.pairwise_append.mp chronicle.ordered).2.2 e old row (List.mem_singleton_self row)) upper)
    · rw [List.mem_singleton.mp new]
      exact upper
  · intro _
    rw [rows, first]
    change Kept 1 (input.timestampMs.toNat / 1000 * 1000 + 1 * 1000) _ _
    rw [← time]
    have grown := kept.grow (Nat.le_refl row.timestampMs)
    exact grown.store rfl
      (averages_second chronicle (List.mem_append_right _ (List.mem_singleton_self row)))
  · intro _
    rw [rows, first, List.getLast?_concat]
    exact RoundRobin.row_newest kept.fits row
  · intro _ k low high
    rw [rows]
    change Consolidated (steps k) _ ((accept x.db input).archive k) ∧
      ((accept x.db input).archive k).bucketMs ≤ input.timestampMs.toNat / 1000 * 1000
    -- the coarser archives are consolidated from the row
    have coarse : (accept x.db input).archive k = consolidate (x.db.archive k) row (!x.db.started) := by
      simp only [accept, is, Nat.ne_of_gt low, if_false, high, if_true]
    rw [coarse, ← time]
    by_cases begun : x.db.started = true
    · obtain ⟨after, -⟩ := recorded.later due forward begun
      obtain ⟨done, reached⟩ := recorded.buckets begun k low high
      have positive : 0 < steps k := by unfold steps; split <;> decide
      have bounded : steps k ≤ 60 := by unfold steps; split <;> decide
      rw [begun]
      exact done.consolidate chronicle positive bounded (by omega) small
    · have start := recorded.unstarted (by simpa using begun)
      rw [start] at chronicle ⊢
      exact consolidate_first k chronicle small

theorem run_recorded (inputs : List R2MetricsInput) : Recorded (run inputs) := by
  apply run_induction _ accept_recorded inputs
  exact { times := fun e member => absurd member List.not_mem_nil, chronicle := chronicle_nil
          unstarted := fun _ => rfl, latest := nofun
          past := fun e member => absurd member List.not_mem_nil, seconds := nofun, newest := nofun
          buckets := nofun }

theorem Recorded.kept (recorded : Recorded x) {k : Nat} (archive : k < metricsArchives) :
    ∃ due, Kept (steps k) due x.rows (x.db.archive k) := by
  by_cases begun : x.db.started = true
  · by_cases first : k = 0
    · subst first
      exact ⟨_, recorded.seconds begun⟩
    · exact ⟨_, (recorded.buckets begun k (Nat.pos_of_ne_zero first) archive).1.kept⟩
  · rw [recorded.unstarted (by simpa using begun)]
    exact ⟨0, kept_blank ⟨rfl, rfl⟩ rfl (Nat.dvd_zero _)⟩

/-- The rows an archive retains, read from the oldest: whole steps, one after the other, at most 300
of them, empty where nothing was accepted; and the newest second is the last accepted one. -/
theorem history_is_contiguous (inputs : List R2MetricsInput) :
    let x := run inputs
    (∀ k < metricsArchives, (x.db.archive k).count ≤ metricsRows ∧
      ∀ index < (x.db.archive k).count, ∃ row, r2MetricsRow x.db k index = some row ∧
        steps k * 1000 ∣ row.timestampMs ∧
        (∀ next, r2MetricsRow x.db k (index + 1) = some next →
          next.timestampMs = row.timestampMs + steps k * 1000) ∧
        ((∀ e ∈ x.accepted, e.input.timestampMs.toNat / (steps k * 1000) * (steps k * 1000) ≠
            row.timestampMs) → row.valid = 0)) ∧
    ∀ e, x.accepted.getLast? = some e →
      ∃ row, r2MetricsRow x.db 0 ((x.db.archive 0).count - 1) = some row ∧
        row.timestampMs = e.input.timestampMs.toNat / 1000 * 1000 := by
  intro x
  have recorded : Recorded x := run_recorded inputs
  constructor
  · intro k archive
    obtain ⟨due, kept⟩ := recorded.kept archive
    refine ⟨kept.fits.count, fun index inside => ?_⟩
    have positive : 0 < steps k := by unfold steps; split <;> decide
    have read : ∀ i, r2MetricsRow x.db k i = ((x.db.archive k).retained metricsRows)[i]? := by
      intro i
      rw [r2MetricsRow, if_neg (Nat.not_le.mpr archive), RoundRobin.row_retained]
    obtain ⟨row, here⟩ : ∃ row, ((x.db.archive k).retained metricsRows)[index]? = some row :=
      ⟨_, List.getElem?_eq_getElem (by rw [RoundRobin.retained_length]; exact inside)⟩
    have member := List.mem_of_getElem? here
    refine ⟨row, (read index).trans here, kept.spaced.multiple kept.aligned member, ?_, ?_⟩
    · intro next following
      rw [read] at following
      have now := kept.spaced.at here
      have soon := kept.spaced.at following
      obtain ⟨bound, -⟩ := List.getElem?_eq_some_iff.mp following
      obtain ⟨rest, left⟩ : ∃ rest, ((x.db.archive k).retained metricsRows).length - (index + 1) = rest :=
        ⟨_, rfl⟩
      have more : ((x.db.archive k).retained metricsRows).length - index = rest + 1 := by omega
      rw [more, Nat.succ_mul] at now
      rw [left] at soon
      omega
    · intro skipped
      apply (kept.averages row member).blank positive
      intro e old same
      obtain ⟨entry, among, rfl⟩ := List.mem_map.mp old
      apply skipped entry among
      have time := recorded.times entry among
      obtain ⟨bucket, is⟩ := kept.spaced.multiple kept.aligned member
      have wide : 1000 ≤ steps k * 1000 := by omega
      rw [time] at same
      have here : entry.input.timestampMs.toNat / (steps k * 1000) = bucket := by
        rw [Nat.div_eq_iff (by omega), Nat.mul_comm bucket, ← is, ← same]
        omega
      rw [here, Nat.mul_comm, is]
  · intro e last
    have begun : x.db.started = true := by
      by_contra unstarted
      rw [recorded.unstarted (by simpa using unstarted)] at last
      contradiction
    have newest := recorded.newest begun
    have row : x.rows.getLast? = some e.row := by
      rw [Log.rows, List.getLast?_map, last]
      rfl
    refine ⟨e.row, ?_, recorded.times e (List.mem_of_getLast? last)⟩
    rw [r2MetricsRow, if_neg (by decide), newest, row]

/-- Every row of the ten-second and the sixty-second archive is the exact average of its bucket for
the series that were there in each of its seconds, and the accumulators have never wrapped. -/
theorem consolidation_is_exact (inputs : List R2MetricsInput) (k : Nat) (low : 0 < k)
    (high : k < metricsArchives) :
    let x := run inputs
    (∀ index row, r2MetricsRow x.db k index = some row → ∀ i < metricCount,
      (row.valid.testBit i = true ↔ ∀ j < steps k, ∃ e ∈ x.rows,
        e.timestampMs = row.timestampMs + j * 1000 ∧ e.valid.testBit i = true) ∧
      (row.valid.testBit i = true → row.value i =
        ((List.range (steps k)).map fun j => valueAt x.rows i (row.timestampMs + j * 1000)).sum /
          steps k)) ∧
    ∀ i, Tallied x.rows (x.db.archive k) i := by
  intro x
  have recorded : Recorded x := run_recorded inputs
  constructor
  · intro index row here i series
    obtain ⟨due, kept⟩ := recorded.kept high
    rw [r2MetricsRow, if_neg (Nat.not_le.mpr high), RoundRobin.row_retained] at here
    obtain ⟨valid, value⟩ := kept.averages row (List.mem_of_getElem? here) i
    refine ⟨?_, value⟩
    rw [valid]
    exact and_iff_right series
  · intro i
    by_cases begun : x.db.started = true
    · exact (recorded.buckets begun k low high).1.tallied i
    · rw [recorded.unstarted (by simpa using begun)]
      constructor <;> rfl

def heapReading (second : Nat) : R2MetricsInput :=
  { timestampMs := UInt64.ofNat (second * 1000), netTimestampMs := 0, rxBytes := 0, txBytes := 0
    heapUsed := UInt64.ofNat (second * second), heapSize := 18446744073709551615, tasks := 0
    userTasks := 0, runnable := 0, blocked := 0, available := metricsMemory }

/-- Eleven seconds, of which the first ten make a bucket: 285 / 10 is 28, and the largest word is
its own average. -/
theorem ten_readings_average :
    let x := run ((List.range 11).map heapReading)
    ∃ row, r2MetricsRow x.db 1 0 = some row ∧ row.timestampMs = 0 ∧
      row.value metricHeapUsed = 28 ∧ row.value metricHeapSize = 18446744073709551615 ∧
      row.value metricHeapUsed = ((List.range (steps 1)).map fun j =>
        valueAt x.rows metricHeapUsed (row.timestampMs + j * 1000)).sum / steps 1 := by
  intro x
  obtain ⟨row, here⟩ : ∃ row, r2MetricsRow x.db 1 0 = some row :=
    Option.isSome_iff_exists.mp (by decide)
  have observed : (r2MetricsRow x.db 1 0).map (fun row => (row.timestampMs,
      row.value metricHeapUsed, row.value metricHeapSize, row.valid)) =
      some (0, 28, 18446744073709551615, 12) := by
    decide
  rw [here] at observed
  obtain ⟨time, used, size, valid⟩ :
      row.timestampMs = 0 ∧ row.value metricHeapUsed = 28 ∧
      row.value metricHeapSize = 18446744073709551615 ∧ row.valid = 12 := by
    simpa using observed
  have exact_ := (consolidation_is_exact ((List.range 11).map heapReading) 1 (by decide)
    (by decide)).1 0 row here metricHeapUsed (by decide)
  exact ⟨row, here, time, used, size, exact_.2 (by rw [valid]; decide)⟩

end Runs

end R2Apps.MetricsAverages
