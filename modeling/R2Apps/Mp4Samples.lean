import R2Apps.Mp4Tables

/-! What `start` makes of the sample tables: the offsets that the tables define, kept in
32 bits and checked in 64, and durations whose sums are the times of the track. -/
namespace R2Apps.Mp4Tables
open PartialReads Mp4Boxes

section Dealing

/-- What the code's check says about samples at these offsets. -/
def Checked (len : Nat) (offsets sizes : List Nat) : Prop :=
  ∀ p ∈ offsets.zip sizes, (p.1 + p.2) % 2 ^ 64 ≤ len

/-- The samples of some chunks: their offsets in 32 bits, and the sizes that are left. -/
structure Dealt (len : Nat) (chunks : List (Nat × Nat)) (rest : List Nat) (r : List Nat × List Nat) :
    Prop where
  offsets : r.1 = (deal chunks rest).map (· % 2 ^ 32)
  left_ : r.2 = rest.drop (deal chunks rest).length
  checked : Checked len (deal chunks rest) rest

/-- As many samples placed as are no longer left. -/
def Few (rest : List Nat) (r : List Nat × List Nat) : Prop := r.1.length + r.2.length ≤ rest.length

theorem Few.append {rest : List Nat} {a b : List Nat × List Nat} (here : Few rest a) (later : Few a.2 b) :
    Few rest (a.1 ++ b.1, b.2) := by
  unfold Few at *
  dsimp only
  rw [List.length_append]
  omega

theorem following_length (base : Nat) (sizes : List Nat) : (following base sizes).length = sizes.length := by
  induction sizes generalizing base with
  | nil => rfl
  | cons size rest ih => simp [following, ih]

theorem deal_none (chunks : List (Nat × Nat)) : deal chunks [] = [] := by
  induction chunks with
  | nil => rfl
  | cons chunk rest ih => simp [deal, following, ih]

theorem deal_length_le (chunks : List (Nat × Nat)) : ∀ sizes, (deal chunks sizes).length ≤ sizes.length := by
  induction chunks with
  | nil => exact fun sizes => Nat.zero_le _
  | cons chunk rest ih =>
    intro sizes
    have := ih (sizes.drop chunk.2)
    rw [List.length_drop] at this
    rw [deal, List.length_append, following_length, List.length_take]
    omega

theorem drop_min (sizes : List Nat) (k : Nat) : sizes.drop (min k sizes.length) = sizes.drop k := by
  by_cases short : k ≤ sizes.length
  · rw [Nat.min_eq_left short]
  · rw [Nat.min_eq_right (by omega), List.drop_of_length_le (Nat.le_refl _),
      List.drop_of_length_le (by omega)]

theorem deal_append (first second : List (Nat × Nat)) : ∀ sizes, deal (first ++ second) sizes =
    deal first sizes ++ deal second (sizes.drop (deal first sizes).length) := by
  induction first with
  | nil => exact fun sizes => rfl
  | cons chunk rest ih =>
    intro sizes
    obtain ⟨base, per⟩ := chunk
    rw [List.cons_append, deal, deal, ih, List.append_assoc, List.length_append, following_length,
      List.length_take,
      ← List.drop_drop, drop_min]

theorem Checked.append {len : Nat} {first second rest : List Nat} (short : first.length ≤ rest.length)
    (a : Checked len first rest) (b : Checked len second (rest.drop first.length)) :
    Checked len (first ++ second) rest := by
  intro p member
  rw [← List.take_append_drop first.length rest, List.zip_append (by rw [List.length_take]; omega)] at member
  rcases List.mem_append.mp member with there | later
  · apply a p
    rwa [List.zip_eq_zip_take_min, Nat.min_eq_left short, List.take_length]
  · exact b p later

theorem Dealt.few {len : Nat} {chunks : List (Nat × Nat)} {rest : List Nat} {r : List Nat × List Nat}
    (dealt : Dealt len chunks rest r) : Few rest r := by
  have short := deal_length_le chunks rest
  rw [Few, dealt.offsets, dealt.left_, List.length_map, List.length_drop]
  omega

theorem Dealt.nil {len : Nat} {rest : List Nat} : Dealt len [] rest ([], rest) :=
  ⟨rfl, rfl, fun _ member => (nomatch member)⟩

theorem Dealt.none {len : Nat} {chunks : List (Nat × Nat)} : Dealt len chunks [] ([], []) := by
  constructor
  · rw [deal_none]
    rfl
  · simp
  · rw [deal_none]
    exact fun _ member => (nomatch member)

theorem Dealt.append {len : Nat} {first second : List (Nat × Nat)} {rest : List Nat}
    {a b : List Nat × List Nat}
    (here : Dealt len first rest a) (later : Dealt len second a.2 b) :
    Dealt len (first ++ second) rest (a.1 ++ b.1, b.2) := by
  obtain ⟨offsets, left_, checked⟩ := here
  rw [left_] at later
  obtain ⟨offsets', left', checked'⟩ := later
  constructor
  · rw [deal_append, List.map_append, ← offsets, ← offsets']
  · rw [deal_append, List.length_append, ← List.drop_drop]
    exact left'
  · rw [deal_append]
    exact checked.append (deal_length_le _ _) checked'

end Dealing

section Loops
variable {file : Bytes} {t : Tables}

theorem sizeLoop_reads (fixedSize : Nat) (within : t.stsz.Within 0 file.length) (left_ : Nat) : ∀ i,
    (fixedSize = 0 → 12 + 4 * (i + left_) ≤ t.stsz.len) → Yields (sizeLoop file t fixedSize left_ i)
      (· = (List.range' i left_).map fun i =>
        if fixedSize ≠ 0 then fixedSize else valueAt file (t.stsz.p + 12 + 4 * i) 4) := by
  obtain ⟨-, -, ends⟩ := within
  induction left_ with
  | zero => exact fun i _ => Yields.pure rfl
  | succ left_ ih =>
    intro i room
    rw [sizeLoop]
    have size : Yields (readSize file t fixedSize i)
        (· = if fixedSize ≠ 0 then fixedSize else valueAt file (t.stsz.p + 12 + 4 * i) 4) := by
      unfold readSize
      apply Yields.ite
      · intro fixed
        rw [if_pos fixed]
        exact Yields.pure rfl
      · intro listed
        have := room (Decidable.not_not.mp listed)
        unfold Box.len at this
        rw [if_neg listed]
        exact Yields.be (by omega)
    apply Yields.bind size
    rintro _ rfl
    apply Yields.bind (ih (i + 1) (fun fixed => by have := room fixed; omega))
    rintro _ rfl
    exact Yields.pure rfl

theorem sampleLoop_deals (len k : Nat) : ∀ o rest, Yields (sampleLoop len k (o % 2 ^ 64) rest)
    (Dealt len [(o, k)] rest) := by
  have mod (o : Nat) : o % 2 ^ 64 % 2 ^ 32 = o % 2 ^ 32 := Nat.mod_mod_of_dvd o (by decide)
  induction k with
  | zero =>
    intro o rest
    exact Yields.pure ⟨rfl, rfl, fun _ member => (nomatch member)⟩
  | succ k ih =>
    intro o rest
    cases rest with
    | nil => exact Yields.pure Dealt.none
    | cons size rest =>
      rw [sampleLoop, Nat.mod_add_mod]
      apply Yields.ite
      · exact fun _ => Yields.throw _
      · intro fits
        apply Yields.bind (ih (o + size) rest)
        rintro ⟨later, rest'⟩ ⟨offsets, left_, checked⟩
        apply Yields.pure
        dsimp only at offsets left_
        simp only [deal, List.append_nil] at offsets left_ checked
        constructor
        · simp only [deal, List.append_nil, List.take_succ_cons, following, List.map_cons, mod, offsets]
        · simp only [deal, List.append_nil, List.take_succ_cons, following, List.length_cons,
            List.drop_succ_cons]
          exact left_
        · simp only [deal, List.append_nil, List.take_succ_cons, following]
          rintro p (_ | ⟨_, member⟩)
          · exact Nat.le_of_not_lt fits
          · exact checked p member

theorem mul32_le (a b : Nat) : mul32 a b ≤ a * b := Nat.mod_le ..

/-- The chunks of a run from `ch` on. -/
def runFrom (file : Bytes) (t : Tables) (per last nChunks ch : Nat) : List (Nat × Nat) :=
  (List.range' ch (min (last + 1) (nChunks + 1) - ch)).map fun ch => (chunkAt file t ch, per)

theorem chunkLoop_deals {per last nChunks : Nat} (within : t.stco.Within 0 file.length)
    (long : 8 + t.entry * nChunks ≤ t.stco.len) (left_ : Nat) : ∀ ch rest, 0 < ch → left_ = nChunks + 1 - ch →
    Yields (chunkLoop file t per last left_ ch rest) fun r => Few rest r ∧
      (t.entry * nChunks < 2 ^ 32 → Dealt file.length (runFrom file t per last nChunks ch) rest r) := by
  obtain ⟨-, -, ends⟩ := within
  unfold Box.len at long
  induction left_ with
  | zero =>
    intro ch rest _ none_
    refine Yields.pure ⟨(@Dealt.nil 0 _).few, fun _ => ?_⟩
    have nothing : min (last + 1) (nChunks + 1) - ch = 0 := by omega
    rw [runFrom, nothing]
    exact Dealt.nil
  | succ left_ ih =>
    intro ch rest counted turns
    have place : t.entry * (ch - 1) + t.entry ≤ t.entry * nChunks := by
      have := Nat.mul_le_mul_left t.entry (show ch - 1 + 1 ≤ nChunks by omega)
      rwa [Nat.mul_succ] at this
    rw [chunkLoop]
    apply Yields.ite
    · intro ended
      refine Yields.pure ⟨(@Dealt.nil 0 _).few, fun _ => ?_⟩
      by_cases empty : rest = []
      · rw [empty]
        exact Dealt.none
      · have nothing : min (last + 1) (nChunks + 1) - ch = 0 := by
          rcases ended with zero | behind | empty'
          · omega
          · omega
          · exact absurd empty' empty
        rw [runFrom, nothing]
        exact Dealt.nil
    · intro going
      have before : ch ≤ last := by
        apply Nat.le_of_not_lt
        exact fun behind => going (.inr (.inl behind))
      have low := mul32_le t.entry (ch - 1)
      apply Yields.bind (Yields.be (by omega))
      rintro off is
      have small : off < 2 ^ 64 := by
        rw [is]
        have bound := valueAt_lt file (t.stco.p + 8 + mul32 t.entry (ch - 1)) t.entry
        have width : t.entry = 4 ∨ t.entry = 8 := by
          unfold Tables.entry
          split
          · exact .inr rfl
          · exact .inl rfl
        rcases width with four | eight
        · rw [four] at bound ⊢
          exact Nat.lt_trans bound (by decide)
        · rw [eight] at bound ⊢
          exact bound
      have here := sampleLoop_deals file.length per off rest
      rw [Nat.mod_eq_of_lt small] at here
      apply Yields.bind here
      rintro ⟨first, rest'⟩ dealt
      apply Yields.bind (ih (ch + 1) rest' (Nat.succ_pos ch) (by omega))
      rintro ⟨later, rest''⟩ ⟨few, follows⟩
      refine Yields.pure ⟨dealt.few.append few, fun indexed => ?_⟩
      have whole : min (last + 1) (nChunks + 1) - ch =
        (min (last + 1) (nChunks + 1) - (ch + 1)) + 1 := by omega
      have read : off = chunkAt file t ch := by
        rw [is, chunkAt, mul32, Nat.mod_eq_of_lt (by omega)]
      rw [runFrom, whole, List.range'_succ, List.map_cons, ← read]
      exact dealt.append (follows indexed)

theorem stop_before {next n : Nat} (small : next < 2 ^ 32) (few : n < 2 ^ 32) :
    min ((next + (2 ^ 32 - 1)) % 2 ^ 32 + 1) (n + 1) = if next = 0 then n + 1 else min next (n + 1) := by
  split <;> omega

theorem runLoop_deals {nRuns nChunks : Nat} (tables : nRuns = runCount file t)
    (chunks : nChunks = chunkCount file t)
    (within : t.stsc.Within 0 file.length) (within' : t.stco.Within 0 file.length)
    (long : 8 + t.entry * nChunks ≤ t.stco.len) (long' : 8 + 12 * nRuns ≤ t.stsc.len) (left_ : Nat) :
    ∀ r rest, r + left_ = nRuns → Yields (runLoop file t nChunks nRuns left_ r rest) fun result =>
      Few rest result ∧
      (Indexable file t → Dealt file.length (chunksFrom file t r left_) rest result) := by
  obtain ⟨-, -, ends⟩ := within
  unfold Box.len at long'
  induction left_ with
  | zero => exact fun r rest _ => Yields.pure ⟨(@Dealt.nil 0 _).few, fun _ => Dealt.nil⟩
  | succ left_ ih =>
    intro r rest turns
    have low := mul32_le 12 r
    rw [runLoop]
    apply Yields.ite
    · intro empty
      rw [empty]
      exact Yields.pure ⟨(@Dealt.nil 0 _).few, fun _ => Dealt.none⟩
    · intro _
      apply Yields.bind (Yields.be (by omega))
      rintro first isFirst
      apply Yields.bind (Yields.be (by omega))
      rintro per isPer
      -- the run goes up to the first chunk of the next one
      have last : Yields (lastChunk file (t.stsc.p + 8 + mul32 12 r) r nChunks nRuns) fun last =>
          Indexable file t → 0 < firstChunk file t r →
            min (last + 1) (nChunks + 1) = stopChunk file t r := by
        unfold lastChunk
        apply Yields.ite
        · intro more
          apply Yields.map (Yields.be (by omega))
          rintro next is ⟨-, indexed, -⟩ counted
          have place : mul32 12 r = 12 * r := Nat.mod_eq_of_lt (by omega)
          have following : next = firstChunk file t (r + 1) := by
            rw [is, firstChunk, place]
            rfl
          have small : firstChunk file t (r + 1) < 2 ^ 32 := valueAt_lt ..
          have few : chunkCount file t < 2 ^ 32 := valueAt_lt ..
          rw [following, chunks, stop_before small few]
          unfold stopChunk
          by_cases zero : firstChunk file t (r + 1) = 0
          · rw [if_pos zero, if_neg (fun ends => ends.2 zero)]
          · rw [if_neg zero, if_pos ⟨tables ▸ more, zero⟩]
        · intro final
          refine Yields.pure fun _ _ => ?_
          rw [stopChunk, if_neg (fun next => final (tables ▸ next.1)), chunks, Nat.min_self]
      apply Yields.bind last
      intro last stops
      apply Yields.bind (P := fun result => Few rest result ∧ (Indexable file t →
          Dealt file.length ((chunksOf file t r).map fun ch =>
            (chunkAt file t ch, perChunk file t r)) rest result))
      · by_cases zero : first = 0
        · -- there is no chunk 0
          have nothing : Yields (chunkLoop file t per last (nChunks + 1 - first) first rest)
              (· = ([], rest)) := by
            rw [zero, Nat.sub_zero, chunkLoop, if_pos (.inl rfl)]
            exact Yields.pure rfl
          apply nothing.mono
          rintro _ rfl
          refine ⟨(@Dealt.nil 0 _).few, ?_⟩
          rintro ⟨-, indexed, -⟩
          have place : mul32 12 r = 12 * r := Nat.mod_eq_of_lt (by omega)
          have none_ : firstChunk file t r = 0 := by rw [firstChunk, ← place, ← isFirst, zero]
          rw [chunksOf, if_pos none_]
          exact Dealt.nil
        · apply (chunkLoop_deals within' long _ first rest (Nat.pos_of_ne_zero zero) rfl).mono
          rintro result ⟨few, dealt⟩
          refine ⟨few, fun indexed => ?_⟩
          have place : mul32 12 r = 12 * r := Nat.mod_eq_of_lt (by have := indexed.2.1; omega)
          have first_ : first = firstChunk file t r := by rw [isFirst, firstChunk, place]
          have per_ : per = perChunk file t r := by rw [isPer, perChunk, place]
          have stop := stops indexed (by omega)
          have run := dealt (by rw [chunks]; exact indexed.1)
          rw [runFrom, stop, per_, first_] at run
          rw [chunksOf, if_neg (by omega)]
          exact run
      · rintro ⟨here, rest'⟩ ⟨few, dealt⟩
        apply Yields.bind (ih (r + 1) rest' (by omega))
        rintro ⟨later, rest''⟩ ⟨few', follows⟩
        refine Yields.pure ⟨few.append few', fun indexed => ?_⟩
        rw [chunksFrom, List.range'_succ, List.flatMap_cons]
        exact (dealt indexed).append (follows indexed)

end Loops

section Times

/-- How long samples are shown from `T` ticks on, each up to the next full tick's
millisecond. -/
def durations (timescale : Nat) : Nat → List Nat → List Nat
  | _, [] => []
  | T, d :: rest =>
      ((T + d) * 1000 / timescale - T * 1000 / timescale) % 2 ^ 32 :: durations timescale (T + d) rest

theorem durations_append (timescale : Nat) (first second : List Nat) : ∀ T,
    durations timescale T (first ++ second) =
      durations timescale T first ++ durations timescale (T + first.sum) second := by
  induction first with
  | nil => exact fun T => rfl
  | cons d rest ih =>
    intro T
    rw [List.cons_append, durations, durations, ih, List.sum_cons, Nat.add_assoc, List.cons_append]

theorem durations_length (timescale : Nat) (ds : List Nat) :
    ∀ T, (durations timescale T ds).length = ds.length := by
  induction ds with
  | nil => exact fun T => rfl
  | cons d rest ih => exact fun T => by simp [durations, ih]

theorem durations_take (timescale : Nat) (ds : List Nat) : ∀ T k,
    (durations timescale T ds).take k = durations timescale T (ds.take k) := by
  induction ds with
  | nil => exact fun T k => by simp [durations]
  | cons d rest ih =>
    intro T k
    cases k with
    | zero => rfl
    | succ k => rw [durations, List.take_succ_cons, List.take_succ_cons, durations, ih]

theorem telescoped {a b c : Nat} (first : a ≤ b) (later : b ≤ c) (small : c < 2 ^ 32) :
    (b - a) % 2 ^ 32 + (c - b) = c - a := by
  rw [Nat.mod_eq_of_lt (by omega)]
  omega

theorem durations_sum (timescale : Nat) (ds : List Nat) : ∀ T, (T + ds.sum) * 1000 / timescale < 2 ^ 32 →
    (durations timescale T ds).sum = (T + ds.sum) * 1000 / timescale - T * 1000 / timescale := by
  induction ds with
  | nil => exact fun T _ => by simp [durations]
  | cons d rest ih =>
    intro T small
    rw [List.sum_cons, ← Nat.add_assoc] at small ⊢
    have first : T * 1000 / timescale ≤ (T + d) * 1000 / timescale := Nat.div_le_div_right (by omega)
    have later : (T + d) * 1000 / timescale ≤ (T + d + rest.sum) * 1000 / timescale :=
      Nat.div_le_div_right (by omega)
    rw [durations, List.sum_cons, ih (T + d) small]
    exact telescoped first later small

/-- No sum of ticks that a track can come to is too large for 64 bits. -/
def Room (T n : Nat) : Prop := T + n * 2 ^ 32 ≤ maxSamples * 2 ^ 32

theorem tickLoop_runs {timescale d : Nat} (small : d < 2 ^ 32) (k : Nat) : ∀ n T, Room T n →
    tickLoop timescale d k n ⟨T, T * 1000 / timescale⟩ =
      (durations timescale T ((List.replicate k d).take n), n - k,
        ⟨T + ((List.replicate k d).take n).sum,
          (T + ((List.replicate k d).take n).sum) * 1000 / timescale⟩) := by
  induction k with
  | zero => exact fun n T _ => by simp [tickLoop, durations]
  | succ k ih =>
    intro n T room
    cases n with
    | zero => simp [tickLoop, durations]
    | succ n =>
      unfold Room maxSamples at room
      have ticks : (T + d) % 2 ^ 64 = T + d := Nat.mod_eq_of_lt (by omega)
      have whole : (T + d) * 1000 % 2 ^ 64 = (T + d) * 1000 := Nat.mod_eq_of_lt (by omega)
      have low : T * 1000 / timescale ≤ (T + d) * 1000 / timescale := Nat.div_le_div_right (by omega)
      have high : (T + d) * 1000 / timescale ≤ (T + d) * 1000 := Nat.div_le_self ..
      have next := ih n (T + d) (by unfold Room maxSamples; omega)
      rw [tickLoop]
      dsimp only
      rw [ticks, whole, next]
      have shown : ((T + d) * 1000 / timescale + (2 ^ 64 - T * 1000 / timescale)) % 2 ^ 64 % 2 ^ 32 =
          ((T + d) * 1000 / timescale - T * 1000 / timescale) % 2 ^ 32 := by omega
      rw [shown, List.replicate_succ, List.take_succ_cons, durations, List.sum_cons,
        ← Nat.add_assoc, Nat.succ_sub_succ]

theorem replicate_take_drop (k n d : Nat) (rest : List Nat) :
    (List.replicate k d ++ rest).take n = (List.replicate k d).take n ++ rest.take (n - k) := by
  rw [List.take_append, List.length_replicate]

variable {file : Bytes} {t : Tables}

theorem Room.ticked {T n k d : Nat} (room : Room T n) (small : d < 2 ^ 32) :
    Room (T + ((List.replicate k d).take n).sum) (n - k) := by
  rw [List.take_replicate, List.sum_replicate_nat]
  have most : min n k * d ≤ min n k * 2 ^ 32 := Nat.mul_le_mul_left _ (Nat.le_of_lt small)
  unfold Room at *
  omega

theorem timeLoop_runs {timescale nTimes : Nat} (within : t.stts.Within 0 file.length)
    (long : 8 + 8 * nTimes ≤ t.stts.len) (left_ : Nat) : ∀ r n T, r + left_ = nTimes → Room T n →
    Yields (timeLoop file t timescale left_ r n ⟨T, T * 1000 / timescale⟩) fun result =>
      8 * nTimes < 2 ^ 32 → result =
        (durations timescale T ((deltasFrom file t r left_).take n),
          n - (deltasFrom file t r left_).length) := by
  obtain ⟨-, -, ends⟩ := within
  unfold Box.len at long
  induction left_ with
  | zero => exact fun r n T _ _ => Yields.pure fun _ => by simp [deltasFrom, durations]
  | succ left_ ih =>
    intro r n T turns room
    have low := mul32_le 8 r
    rw [timeLoop]
    apply Yields.ite
    · intro none_
      refine Yields.pure fun _ => ?_
      rw [none_, List.take_zero, Nat.zero_sub]
      rfl
    · intro _
      apply Yields.bind (Yields.be (by omega))
      rintro count isCount
      apply Yields.bind (Yields.be (by omega))
      rintro d isD
      have small : d < 2 ^ 32 := by
        rw [isD]
        exact valueAt_lt ..
      rw [tickLoop_runs small count n T room]
      apply Yields.bind (ih (r + 1) (n - count) _ (by omega) (room.ticked small))
      rintro ⟨later, rest⟩ follows
      refine Yields.pure fun indexed => ?_
      obtain ⟨rfl, rfl⟩ := Prod.mk.inj (follows indexed)
      have place : mul32 8 r = 8 * r := Nat.mod_eq_of_lt (by omega)
      have here : deltasFrom file t r (left_ + 1) =
          List.replicate count d ++ deltasFrom file t (r + 1) left_ := by
        rw [deltasFrom, List.range'_succ, List.flatMap_cons, isCount, isD, place]
        rfl
      rw [here, replicate_take_drop, durations_append, List.length_append, List.length_replicate,
        ← Nat.sub_sub]

end Times

section Whole
variable {file : Bytes}

/-- Tables that `start` goes on with: in the file, and each with its counts. -/
structure Tables.Sound (file : Bytes) (t : Tables) : Prop where
  stsz : t.stsz.Within 0 file.length
  stsc : t.stsc.Within 0 file.length
  stco : t.stco.Within 0 file.length
  stts : t.stts.Within 0 file.length
  lengths : 12 ≤ t.stsz.len ∧ 8 ≤ t.stsc.len ∧ 8 ≤ t.stco.len ∧ 8 ≤ t.stts.len

theorem sampleTables_sound {track : Track} (sound : track.Sound file) :
    Yields (sampleTables file track) (Tables.Sound file) := by
  have parent : InFile file (some track.stbl) := by
    rintro _ ⟨⟩
    exact sound.stbl
  unfold sampleTables
  apply Yields.bind (childIn_within parent)
  intro stsz sizes
  apply Yields.bind (childIn_within parent)
  intro stsc runs
  apply Yields.bind (childIn_within parent)
  intro stco chunks
  apply Yields.bind (childIn_within parent)
  intro co64 chunks'
  apply Yields.bind (childIn_within parent)
  intro stts times
  have either : InFile file (stco.or co64) := by
    cases stco with
    | none => exact chunks'
    | some b => exact chunks
  generalize stco.or co64 = offsets at either
  cases stsz with
  | none => exact Yields.throw _
  | some stsz => cases stsc with
    | none => exact Yields.throw _
    | some stsc => cases offsets with
      | none => exact Yields.throw _
      | some offsets => cases stts with
        | none => exact Yields.throw _
        | some stts =>
          apply Yields.ite
          · exact fun _ => Yields.throw _
          · intro long
            apply Yields.pure
            exact ⟨sizes stsz rfl, runs stsc rfl, either offsets rfl, times stts rfl,
              Nat.le_of_not_lt fun short => long (.inl short), Nat.le_of_not_lt fun short =>
                long (.inr (.inl short)),
              Nat.le_of_not_lt fun short => long (.inr (.inr (.inl short))),
              Nat.le_of_not_lt fun short => long (.inr (.inr (.inr short)))⟩

/-- What `start` reads: sizes, offsets in 32 bits and times as the tables have them, and
every sample's end, in 64 bits, in the file. -/
structure Read (file : Bytes) (timescale : Nat) (t : Tables) (samples : List Sample) : Prop where
  is : ∃ last, samples = samplesOf ((offsets file t).map (· % 2 ^ 32)) (sizes file t)
    (durations timescale 0 ((deltas file t).take (offsets file t).length) ++
      List.replicate ((offsets file t).length - (deltas file t).length) last)
  checked : Checked file.length (offsets file t) (sizes file t)

theorem readSamples_reads {t : Tables} (allocates : Bool) (timescale : Nat) (sound : t.Sound file) :
    Yields (readSamples allocates file timescale t) fun samples =>
      (file.length < 2 ^ 32 → Indexable file t) ∧ (Indexable file t → Read file timescale t samples) := by
  have sizeEnd := sound.stsz.2.2
  have runEnd := sound.stsc.2.2
  have chunkEnd := sound.stco.2.2
  have timeEnd := sound.stts.2.2
  have long := sound.lengths
  unfold Box.len at long
  unfold readSamples
  apply Yields.bind (Yields.be (by omega))
  rintro fixedSize isFixed
  apply Yields.bind (Yields.be (by omega))
  rintro found isFound
  apply Yields.ite
  · exact fun _ => Yields.throw _
  · intro some_
    apply Yields.ite
    · exact fun _ => Yields.throw _
    · intro enough
      apply Yields.ite
      · exact fun _ => Yields.throw _
      · intro _
        apply Yields.bind (sizeLoop_reads fixedSize sound.stsz _ 0 (fun listed => by omega))
        intro listed isSizes
        have count : min found maxSamples = sampleCount file t := by rw [sampleCount, ← isFound]
        have are : listed = sizes file t := by
          rw [isSizes, sizes, List.range_eq_range', count, isFixed]
          rfl
        apply Yields.bind (Yields.be (by omega))
        rintro nChunks isChunks
        apply Yields.bind (Yields.be (by omega))
        rintro nRuns isRuns
        apply Yields.ite
        · exact fun _ => Yields.throw _
        · intro tables
          apply Yields.bind (runLoop_deals isRuns isChunks sound.stsc sound.stco (by omega)
            (by omega) nRuns 0 listed
            (Nat.zero_add _))
          rintro ⟨placed, _⟩ ⟨few, dealt⟩
          apply Yields.bind (Yields.be (by omega))
          rintro nTimes isTimes
          apply Yields.ite
          · exact fun _ => Yields.throw _
          · intro timed
            have room : Room 0 placed.length := by
              have total : listed.length = min found maxSamples := by
                rw [isSizes, List.length_map, List.length_range']
              have most : min found maxSamples ≤ maxSamples := Nat.min_le_right ..
              unfold Few at few
              dsimp only at few
              unfold Room
              rw [Nat.zero_add]
              exact Nat.mul_le_mul_right _ (by omega)
            have clock := @timeLoop_runs _ _ timescale _ sound.stts (by omega) nTimes 0 placed.length 0
              (Nat.zero_add _) room
            rw [Nat.zero_mul, Nat.zero_div] at clock
            apply Yields.bind clock
            rintro ⟨times, left_⟩ timing
            refine Yields.pure ⟨fun short => ?_, fun indexed => ?_⟩
            · rw [Indexable, chunkCount, runCount, timeCount, ← isChunks, ← isRuns, ← isTimes]
              unfold Box.len at tables timed
              omega
            obtain ⟨isPlaced, -, checked⟩ := dealt indexed
            obtain ⟨rfl, rfl⟩ := Prod.mk.inj (timing (isTimes ▸ indexed.2.2))
            rw [are, isRuns] at isPlaced checked
            dsimp only at isPlaced
            have total : placed.length = (offsets file t).length := by rw [isPlaced, List.length_map]; rfl
            refine ⟨⟨(durations timescale 0
              ((deltasFrom file t 0 nTimes).take placed.length)).getLast?.getD 100, ?_⟩,
              checked⟩
            rw [total, are, isPlaced, isTimes]
            rfl

end Whole

end R2Apps.Mp4Tables
