import R2Apps.JugStore

/-! Installing a download is all or nothing. Whatever calls fail, the copy in
place is the old one or the new one; only a rollback that fails itself leaves the
old one under its `.BAK` name. -/
namespace R2Apps.JugInstall
open Sha256 JugLists JugStore

/-! The names. -/

theorem scopy_fits {src : Text} {cap : Nat} (fits : src.length < cap) : scopy src cap = src :=
  List.take_of_length_le (Nat.le_sub_one_of_lt fits)

theorem scat_fits {dst src : Text} {cap : Nat} (fits : dst.length + src.length < cap) :
    scat dst src cap = dst ++ src := by
  rw [scat, if_pos (by omega), scopy_fits (by omega)]

/-- A download's path without its extension. -/
def stem (name : Text) : Text := dirPath ++ text "/" ++ name.map upper ++ text "."

theorem stem_length (name : Text) : (stem name).length = name.length + 14 := by
  have dir : dirPath.length = 12 := by decide
  have slash : (text "/").length = 1 := by decide
  have dot : (text ".").length = 1 := by decide
  simp only [stem, List.length_append, List.length_map, dir, slash, dot]
  omega

theorem short_name {name : Text} (valid : validName name = true) : name.length ≤ 8 := by
  simp only [validName, Bool.and_eq_true] at valid
  exact of_decide_eq_true valid.1.2

theorem jugPath_eq {name : Text} (valid : validName name = true) :
    jugPath name = stem name ++ text "ELF" := by
  have short := short_name valid
  have base : scat (scopy dirPath pathCap) (text "/") pathCap = dirPath ++ text "/" := by
    decide
  have length : (dirPath ++ text "/").length = 13 := by decide
  have extension : (text ".ELF").length = 4 := by decide
  have parts : text ".ELF" = text "." ++ text "ELF" := by decide
  have whole : (name.map upper).take (pathCap - 1 - 13) = name.map upper := by
    apply List.take_of_length_le
    rw [List.length_map, pathCap]
    omega
  have fits : (dirPath ++ text "/" ++ name.map upper).length + (text ".ELF").length < pathCap := by
    rw [List.length_append, length, extension, List.length_map, pathCap]
    omega
  rw [jugPath, base, length, whole, scat_fits fits, parts, stem, ← List.append_assoc]

theorem sibling_eq {name extension : Text} (valid : validName name = true)
    (three : extension.length = 3) : sibling (jugPath name) extension = stem name ++ extension := by
  have short := short_name valid
  have size := stem_length name
  have old : (text "ELF").length = 3 := by decide
  have cut : (jugPath name).take ((jugPath name).length - 3) = stem name := by
    rw [jugPath_eq valid, List.length_append, old, Nat.add_sub_cancel, List.take_left]
  rw [sibling, cut, scopy_fits (by rw [pathCap]; omega), scat_fits (by rw [pathCap]; omega)]

theorem stem_apart {name : Text} {one other : Text} (different : one ≠ other) :
    stem name ++ one ≠ stem name ++ other :=
  fun same => different (List.append_cancel_left same)

theorem registry_apart (name : Text) : stem name ++ text "ELF" ≠ registryPath := by
  intro same
  have parts : registryPath = text "/mnt/tmp/jug/JUG." ++ text "REG" := by decide
  rw [parts] at same
  have tails := (List.append_inj' same (by decide)).2
  exact absurd tails (by decide)

theorem dir_apart (name extension : Text) : stem name ++ extension ≠ dirPath := by
  intro same
  have lengths := congrArg List.length same
  have dir : dirPath.length = 12 := by decide
  rw [List.length_append, stem_length, dir] at lengths
  omega

/-! The calls. -/

/-- Nothing but the entry at `path` is different. -/
def Apart (path : Text) (w w' : World) : Prop := ∀ p, p ≠ path → w'.files p = w.files p

theorem Apart.trans {path : Text} {w w' w'' : World} (first : Apart path w w')
    (second : Apart path w' w'') : Apart path w w'' :=
  fun p apart => (second p apart).trans (first p apart)

theorem apart_of_same {path : Text} {w w' : World} (same : w'.files = w.files) : Apart path w w' :=
  fun p _ => congrFun same p

theorem set_apart (w : World) (path : Text) (entry : Option Entry) :
    Apart path w (w.set path entry) := by
  intro p apart
  simp [World.set, Function.update_of_ne apart]

theorem set_same (w : World) (path : Text) (entry : Option Entry) :
    (w.set path entry).files path = entry := by
  simp [World.set]

section Calls
variable {kernel : Kernel} {w : World} {path : Text}

theorem sizeOfFile_files : (sizeOfFile kernel w path).1.files = w.files := by
  unfold sizeOfFile
  split <;> rfl

theorem sizeOfFile_some {n : Nat} (seen : (sizeOfFile kernel w path).2 = some n) :
    ∃ bytes, w.files path = some (.file bytes) ∧ bytes.length = n := by
  unfold sizeOfFile at seen
  split at seen
  · rename_i bytes _ found
    exact ⟨bytes, found, Option.some.inj seen⟩
  · exact absurd seen (by simp)

theorem remove_apart : Apart path w (remove kernel w path).1 := by
  unfold remove
  split
  · exact set_apart w.called path none
  · exact apart_of_same rfl

theorem writeAt_apart {data : List UInt8} {offset : Nat} :
    Apart path w (writeAt kernel w path data offset).1 := by
  unfold writeAt
  split
  · exact apart_of_same rfl
  · split
    · exact apart_of_same rfl
    · exact set_apart w.called path _
    · exact set_apart w.called path _

theorem rename_cases (kernel : Kernel) (w : World) (source target : Text) :
    (∃ entry, w.files source = some entry ∧ w.files target = none ∧
      rename kernel w source target = ((w.called.set source none).set target (some entry), true)) ∨
    rename kernel w source target = (w.called, false) := by
  unfold rename
  split
  · rename_i entry _ there free
    exact Or.inl ⟨entry, there, free, rfl⟩
  · exact Or.inr rfl

theorem writeAt_whole {data : List UInt8} {offset : Nat} (some_ : data ≠ [])
    (put : (writeAt kernel w path data offset).2 = data.length) :
    ∃ old, opened w path = some old ∧ (writeAt kernel w path data offset).1.files path =
      some (.file (overwrite old data offset)) := by
  have full : data.isEmpty = false := by simpa using some_
  have positive : 0 < data.length := List.length_pos_iff.mpr some_
  unfold writeAt at *
  simp only [full, Bool.false_eq_true, if_false] at *
  split at put
  · exact absurd put (by simp)
  · rename_i old found _
    exact ⟨old, found, set_same _ _ _⟩
  · rename_i old n _ _
    split at put
    · simp at put
      omega
    · exact absurd put (by simp)

theorem opened_file {bytes : List UInt8} (there : w.files path = some (.file bytes)) :
    opened w path = some bytes := by
  simp [opened, there]

theorem overwrite_within {old data : List UInt8} {offset : Nat} (within : offset ≤ old.length) :
    overwrite old data offset = old.take offset ++ data ++ old.drop (offset + data.length) := by
  rw [overwrite, Nat.sub_eq_zero_of_le within, List.replicate_zero, List.append_nil]

theorem writeChunks_nil (fuel done : Nat) : writeChunks kernel fuel w path [] done = (w, true) := by
  cases fuel <;> rfl

theorem writeChunks_whole (fuel : Nat) {rest old : List UInt8} {done : Nat}
    (enough : rest.length ≤ fuel) (found : opened w path = some old) (reached : done ≤ old.length)
    (some_ : rest ≠ []) (written : (writeChunks kernel fuel w path rest done).2 = true) :
    (writeChunks kernel fuel w path rest done).1.files path =
      some (.file (old.take done ++ rest ++ old.drop (done + rest.length))) := by
  induction fuel generalizing w rest old done with
  | zero => exact absurd (List.length_eq_zero_iff.mp (Nat.le_zero.mp enough)) some_
  | succ fuel ih =>
      have full : rest.isEmpty = false := by simpa using some_
      have positive : 0 < rest.length := List.length_pos_iff.mpr some_
      simp only [writeChunks, full, Bool.false_eq_true, if_false] at written ⊢
      by_cases put : (writeAt kernel w path (rest.take chunk) done).2 = (rest.take chunk).length
      · have piece : rest.take chunk ≠ [] := by simp [chunk, some_]
        obtain ⟨old', same, wrote⟩ := writeAt_whole piece put
        rw [found] at same
        cases same
        simp only [put, ne_eq, not_true_eq_false, if_false] at written ⊢
        rw [overwrite_within reached] at wrote
        by_cases last : rest.drop chunk = []
        · have whole : rest.take chunk = rest :=
            List.take_of_length_le (List.drop_eq_nil_iff.mp last)
          rw [last, writeChunks_nil, wrote, whole]
        · -- the next turn finds the bytes of this one before its own
          have cut := List.take_append_drop chunk rest
          have lengths := congrArg List.length cut
          rw [List.length_append] at lengths
          have pieceLength : 0 < (rest.take chunk).length := List.length_pos_iff.mpr piece
          have before : (old.take done ++ rest.take chunk).length = done + (rest.take chunk).length := by
            rw [List.length_append, List.length_take_of_le reached]
          rw [ih (by omega) (opened_file wrote) (by rw [List.length_append, before]; omega) last written]
          rw [← before, List.take_left, List.append_assoc (old.take done), cut, before]
          congr 3
          rw [← before, ← List.drop_drop, List.drop_left, List.drop_drop, before]
          congr 1
          omega
      · simp only [ne_eq, put, not_false_eq_true, if_true] at written
        exact absurd written (by simp)

theorem writeChunks_opened {fuel done : Nat} {rest : List UInt8} (enough : rest.length ≤ fuel)
    (some_ : rest ≠ []) (written : (writeChunks kernel fuel w path rest done).2 = true) :
    ∃ old, opened w path = some old := by
  cases fuel with
  | zero => exact absurd (List.length_eq_zero_iff.mp (Nat.le_zero.mp enough)) some_
  | succ fuel =>
      have full : rest.isEmpty = false := by simpa using some_
      simp only [writeChunks, full, Bool.false_eq_true, if_false] at written
      by_cases put : (writeAt kernel w path (rest.take chunk) done).2 = (rest.take chunk).length
      · obtain ⟨old, found, _⟩ := writeAt_whole (by simp [chunk, some_]) put
        exact ⟨old, found⟩
      · simp only [ne_eq, put, not_false_eq_true, if_true] at written
        exact absurd written (by simp)

theorem writeChunks_apart (fuel : Nat) (rest : List UInt8) (done : Nat) :
    Apart path w (writeChunks kernel fuel w path rest done).1 := by
  induction fuel generalizing w rest done with
  | zero => exact apart_of_same rfl
  | succ fuel ih =>
      simp only [writeChunks]
      split
      · exact apart_of_same rfl
      · split
        · exact writeAt_apart.trans remove_apart
        · exact writeAt_apart.trans (ih _ _)

theorem exists_files : (exists_ kernel w path).1.files = w.files := sizeOfFile_files

theorem clearAway_apart : Apart path w (clearAway kernel w path).1 := by
  have seen : Apart path w (exists_ kernel w path).1 := apart_of_same exists_files
  simp only [clearAway]
  split
  · exact seen.trans remove_apart
  · exact seen

theorem replaceFile_apart (data : List UInt8) : Apart path w (replaceFile kernel w path data).1 := by
  have cleared : Apart path w (clearAway kernel w path).1 := clearAway_apart
  simp only [replaceFile]
  split
  · exact cleared
  · exact cleared.trans (writeChunks_apart _ _ _)

theorem replaceFile_whole (kernel : Kernel) (w : World) (path : Text) {data : List UInt8}
    (some_ : data ≠ []) (written : (replaceFile kernel w path data).2 = true) :
    ∃ tail, (replaceFile kernel w path data).1.files path = some (.file (data ++ tail)) := by
  simp only [replaceFile] at *
  generalize clearAway kernel w path = cleared at *
  obtain ⟨w, done⟩ := cleared
  cases done with
  | false => exact absurd written (by simp)
  | true =>
      simp only [Bool.not_true, Bool.false_eq_true, if_false] at *
      obtain ⟨old, found⟩ := writeChunks_opened (Nat.le_refl _) some_ written
      refine ⟨old.drop data.length, ?_⟩
      rw [writeChunks_whole _ (Nat.le_refl _) found (Nat.zero_le _) some_ written]
      simp

theorem hashLoop_files (size cap fuel : Nat) (state : Sha) (off : Nat) :
    (hashLoop kernel path size cap fuel w state off).1.files = w.files := by
  induction fuel generalizing w state off with
  | zero => rfl
  | succ fuel ih =>
      have read (want : Nat) : (readAt kernel w path want off).1.files = w.files := by
        unfold readAt
        split
        · split <;> rfl
        · rfl
      simp only [hashLoop]
      split
      · split
        · exact read _
        · rw [ih, read]
      · rfl

theorem hashFile_files (kernel : Kernel) (w : World) (path : Text) (size : Nat) :
    (hashFile kernel w path size).1.files = w.files :=
  hashLoop_files _ _ _ _ _

/-- What reading the path gives, if it is a file. -/
def contents (w : World) (path : Text) : Option (List UInt8) :=
  match w.files path with
  | some (.file bytes) => some bytes
  | _ => none

theorem readAt_contents (kernel : Kernel) (w : World) (path : Text) (want off : Nat) :
    (readAt kernel w path want off).1.files = w.files ∧
      ∃ m ≤ want, (readAt kernel w path want off).2 = (((contents w path).getD []).drop off).take m := by
  unfold readAt
  split
  · next bytes there =>
      have found : contents w path = some bytes := by simp only [contents, there]
      rw [found]
      split
      · exact ⟨rfl, want, Nat.le_refl _, rfl⟩
      · next n _ => exact ⟨rfl, min n want, Nat.min_le_right .., List.take_take⟩
  · exact ⟨rfl, 0, Nat.zero_le _, by simp⟩

theorem hashLoop_sum (kernel : Kernel) (size cap fuel off : Nat) {state : Sha} (within : off ≤ size)
    (there : off ≤ ((contents w path).getD []).length)
    (taken : state = update {} (((contents w path).getD []).take off)) :
    let result := hashLoop kernel path size cap fuel w state off
    result.2.2 ≤ ((contents w path).getD []).length ∧
      result.2.1 = update {} (((contents w path).getD []).take result.2.2) := by
  induction fuel generalizing w off state with
  | zero => exact ⟨there, taken⟩
  | succ fuel ih =>
      simp only [hashLoop]
      split
      · obtain ⟨files, m, few, got⟩ := readAt_contents kernel w path (min (size - off) cap) off
        generalize readAt kernel w path (min (size - off) cap) off = read at *
        obtain ⟨w1, bytes⟩ := read
        simp only at files got ⊢
        have same : contents w1 path = contents w path := by simp only [contents, files]
        rw [← same] at there taken got ⊢
        split
        · exact ⟨there, taken⟩
        · have length : bytes.length = min m (((contents w1 path).getD []).length - off) := by
            rw [got, List.length_take, List.length_drop]
          have longer : ((contents w1 path).getD []).take (off + bytes.length) =
              ((contents w1 path).getD []).take off ++ bytes := by
            rw [List.take_add]
            congr 1
            rw [length, got, List.take_eq_take_iff, List.length_drop]
            omega
          have short : off + bytes.length ≤ size := by omega
          have inside : off + bytes.length ≤ ((contents w1 path).getD []).length := by omega
          refine ih (off + bytes.length) short inside ?_
          rw [taken, update_append {} (by decide), longer]
      · exact ⟨there, taken⟩

theorem hashFile_sum (kernel : Kernel) (w : World) (path : Text) (size : Nat)
    (whole : (hashFile kernel w path size).2.2 = true) :
    size ≤ ((contents w path).getD []).length ∧
      (hashFile kernel w path size).2.1 = sha (((contents w path).getD []).take size) := by
  have start : ({} : Sha) = update {} (((contents w path).getD []).take 0) := by
    rw [List.take_zero]
    exact (update_nil {} (by decide)).symm
  obtain ⟨there, state⟩ := hashLoop_sum kernel size (if kernel.heap w.calls then chunk else 512) size 0
    (Nat.zero_le _) (Nat.zero_le _) start
  simp only [hashFile, beq_iff_eq] at whole ⊢
  rw [whole] at there state
  exact ⟨there, by rw [state, sha]⟩

theorem hashFile_empty (kernel : Kernel) (w : World) (path : Text) :
    (hashFile kernel w path 0).2.2 = true := by
  simp [hashFile, hashLoop]

theorem readsBack_files (kernel : Kernel) (w : World) (path : Text) (data : List UInt8) :
    (readsBack kernel w path data).1.files = w.files := by
  simp only [readsBack]
  split
  · exact sizeOfFile_files
  · exact (hashFile_files kernel _ path _).trans sizeOfFile_files

theorem readsBack_size (kernel : Kernel) (w : World) (path : Text) (data : List UInt8)
    (good : (readsBack kernel w path data).2 = true) :
    ∃ bytes, w.files path = some (.file bytes) ∧ bytes.length = data.length := by
  simp only [readsBack] at good
  split at good
  · exact absurd good (by simp)
  · rename_i size
    exact sizeOfFile_some (not_not.mp size)

theorem usage_files : (usage kernel w).1.files = w.files := by
  unfold usage
  split <;> rfl

theorem stage_spec (kernel : Kernel) (w : World) (path staged : Text) {data : List UInt8}
    (some_ : data ≠ []) :
    Apart staged w (stage kernel w path staged data).1 ∧
      ∀ older, (stage kernel w path staged data).2 = .ok older →
        (stage kernel w path staged data).1.files staged = some (.file data) := by
  have cleared : Apart staged w (clearAway kernel w staged).1 := clearAway_apart
  simp only [stage]
  generalize clearAway kernel w staged = clear at *
  obtain ⟨w1, done⟩ := clear
  cases done with
  | false => exact ⟨cleared, by simp⟩
  | true =>
      simp only [Bool.not_true, Bool.false_eq_true, if_false]
      have sized : Apart staged w (sizeOfFile kernel w1 path).1 :=
        cleared.trans (apart_of_same sizeOfFile_files)
      generalize sizeOfFile kernel w1 path = size at *
      obtain ⟨w2, older⟩ := size
      have used : Apart staged w (usage kernel w2).1 := sized.trans (apart_of_same usage_files)
      generalize usage kernel w2 = free at *
      obtain ⟨w3, use⟩ := free
      split
      · exact ⟨used, by simp⟩
      · have replaced : Apart staged w (replaceFile kernel w3 staged data).1 :=
          used.trans (replaceFile_apart data)
        have whole := replaceFile_whole kernel w3 staged some_
        generalize replaceFile kernel w3 staged data = replace at *
        obtain ⟨w4, written⟩ := replace
        cases written with
        | false => exact ⟨replaced, by simp⟩
        | true =>
            obtain ⟨tail, begins⟩ := whole rfl
            have same := readsBack_files kernel w4 staged data
            have size := readsBack_size kernel w4 staged data
            have read : Apart staged w (readsBack kernel w4 staged data).1 :=
              replaced.trans (apart_of_same same)
            simp only [Bool.not_true, Bool.false_eq_true, if_false]
            generalize readsBack kernel w4 staged data = back at *
            obtain ⟨w5, good⟩ := back
            cases good with
            | false => exact ⟨read.trans remove_apart, by simp⟩
            | true =>
                refine ⟨read, fun _ _ => ?_⟩
                -- nothing of an older staged copy is left behind the download
                obtain ⟨bytes, there, length⟩ := size rfl
                have both : bytes = data ++ tail := by
                  rw [there] at begins
                  simpa using begins
                have none_ : tail = [] := by
                  rw [both, List.length_append] at length
                  exact List.length_eq_zero_iff.mp (by omega)
                simp only [Bool.not_true, Bool.false_eq_true, if_false]
                rw [same, begins, none_, List.append_nil]

theorem keepOlder_spec (kernel : Kernel) (w : World) {path backup : Text} (apart : path ≠ backup) :
    ((keepOlder kernel w path backup).2 = true ∧
      (keepOlder kernel w path backup).1.files path = none ∧
      (keepOlder kernel w path backup).1.files backup = w.files path ∧
      w.files path ≠ none ∧
      ∀ p, p ≠ path → p ≠ backup → (keepOlder kernel w path backup).1.files p = w.files p) ∨
    ((keepOlder kernel w path backup).2 = false ∧ Apart backup w (keepOlder kernel w path backup).1) := by
  have cleared : Apart backup w (clearAway kernel w backup).1 := clearAway_apart
  simp only [keepOlder]
  generalize clearAway kernel w backup = clear at *
  obtain ⟨w1, done⟩ := clear
  cases done with
  | false => exact Or.inr ⟨rfl, cleared⟩
  | true =>
      simp only [Bool.not_true, Bool.false_eq_true, if_false]
      rcases rename_cases kernel w1 path backup with ⟨entry, there, _, moved⟩ | refused
      · left
        have here : w.files path = some entry := by rw [← cleared path apart]; exact there
        rw [moved]
        refine ⟨rfl, ?_, ?_, by simp [here], ?_⟩
        · rw [set_apart _ backup _ path apart, set_same]
        · rw [set_same, here]
        · intro p notPath notBackup
          rw [set_apart _ backup _ p notBackup, set_apart _ path _ p notPath]
          exact cleared p notBackup
      · right
        rw [refused]
        exact ⟨rfl, cleared⟩

def lostInBackup : String :=
  "cannot publish or restore the download; the older copy is in .BAK"

/-- What publishing may come to, from a world in which `old` was in place. -/
inductive Published (path backup : Text) (data : List UInt8) (old : Option Entry) :
    World × Option String → Prop
  | done {w : World} (here : w.files path = some (.file data)) : Published path backup data old (w, none)
  | kept {w : World} {why : String} (here : w.files path = old) :
      Published path backup data old (w, some why)
  | lost {w : World} (some_ : old ≠ none) (gone : w.files path = none) (there : w.files backup = old) :
      Published path backup data old (w, some lostInBackup)

theorem publish_spec (kernel : Kernel) (w : World) {path staged backup : Text} {data : List UInt8}
    (older : Bool) (staging : w.files staged = some (.file data)) (apart : path ≠ staged)
    (apart' : path ≠ backup) (apart'' : staged ≠ backup) :
    Published path backup data (w.files path) (publish kernel w path staged backup older) := by
  have dropped (w' : World) : (remove kernel w' staged).1.files path = w'.files path :=
    remove_apart path apart
  cases older with
  | false =>
      simp only [publish, Bool.false_eq_true, if_false, Bool.not_true]
      rcases rename_cases kernel w staged path with ⟨entry, there, _, moved⟩ | refused
      · rw [moved]
        apply Published.done
        rw [set_same, ← there, staging]
      · rw [refused]
        apply Published.kept
        exact dropped _
  | true =>
      simp only [publish, if_true]
      rcases keepOlder_spec kernel w apart' with ⟨moved, free, saved, some_, others⟩ | ⟨refused, cleared⟩
      · generalize keepOlder kernel w path backup = keep at *
        obtain ⟨w1, kept⟩ := keep
        simp only at moved
        subst moved
        simp only [Bool.not_true, Bool.false_eq_true, if_false] at *
        rcases rename_cases kernel w1 staged path with
          ⟨entry, there, _, moved⟩ | refused
        · rw [moved]
          apply Published.done
          rw [show (remove kernel _ backup).1.files path = _ from remove_apart path apart', set_same,
            ← there, others staged apart.symm apart'', staging]
        · rw [refused]
          simp only [Bool.not_false, if_true]
          -- the rollback
          rcases rename_cases kernel w1.called backup path with
            ⟨entry, there, _, moved⟩ | refused
          · rw [moved]
            apply Published.kept
            rw [dropped, set_same, ← there]
            exact saved
          · rw [refused]
            apply Published.lost some_
            · rw [dropped]
              exact free
            · rw [show (remove kernel _ staged).1.files backup = _ from remove_apart backup apart''.symm]
              exact saved
      · generalize keepOlder kernel w path backup = keep at *
        obtain ⟨w1, kept⟩ := keep
        simp only at refused
        subst refused
        simp only [Bool.not_false, if_true]
        apply Published.kept
        rw [dropped]
        exact cleared path apart'

theorem makeDir_apart : Apart path w (makeDir kernel w path).1 := by
  unfold makeDir
  split
  · exact set_apart w.called path _
  · exact apart_of_same rfl

theorem ensureDir_apart (kernel : Kernel) (w : World) : Apart dirPath w (ensureDir kernel w).1 := by
  unfold ensureDir
  split
  · exact apart_of_same rfl
  · exact fun p apart => makeDir_apart p apart

theorem save_files (reg : Registry) (notRegistry : path ≠ registryPath) (notDir : path ≠ dirPath) :
    (save kernel w reg).1.files path = w.files path := by
  have dir := ensureDir_apart kernel (mounted kernel w).1 path notDir
  simp only [save]
  split
  · rfl
  · split
    · exact dir
    · exact (replaceFile_apart _ path notRegistry).trans dir

end Calls

theorem refusal_none {pkg : Package} {data : List UInt8} (accepted : refusal pkg data = none) :
    validName pkg.name = true ∧ sha data = pkg.sum ∧ data ≠ [] := by
  unfold refusal at accepted
  split at accepted
  · exact absurd accepted (by simp)
  split at accepted
  · exact absurd accepted (by simp)
  split at accepted
  · exact absurd accepted (by simp)
  rename_i valid _ sum
  refine ⟨by simpa using valid, not_not.mp sum, ?_⟩
  intro nothing
  subst nothing
  exact absurd accepted (by decide)

/-- What an install may come to, where `old` was in place: the download is in place and
recorded, or nothing has changed there, or the older copy is under its backup name. -/
inductive Outcome (path backup : Text) (old : Option Entry) (reg : Registry) (pkg : Package)
    (data : List UInt8) : World × Registry × Option String → Prop
  | done {w : World} (accepted : refusal pkg data = none) (here : w.files path = some (.file data)) :
      Outcome path backup old reg pkg data (w, reg.put ⟨pkg.name, sha data, data.length, path⟩, none)
  | kept {w : World} {why : String} (here : w.files path = old) :
      Outcome path backup old reg pkg data (w, reg, some why)
  | lost {w : World} (accepted : refusal pkg data = none) (some_ : old ≠ none)
      (gone : w.files path = none) (there : w.files backup = old) :
      Outcome path backup old reg pkg data (w, reg, some lostInBackup)

theorem install_outcome (kernel : Kernel) (w : World) (reg : Registry) (pkg : Package)
    (data : List UInt8) :
    Outcome (jugPath pkg.name) (sibling (jugPath pkg.name) (text "BAK")) (w.files (jugPath pkg.name))
      reg pkg data (install kernel w reg pkg data) := by
  unfold install
  cases refused : refusal pkg data with
  | some why => exact Outcome.kept rfl
  | none =>
      obtain ⟨valid, _, some_⟩ := refusal_none refused
      have path := jugPath_eq valid
      have staged : sibling (jugPath pkg.name) (text "NEW") = stem pkg.name ++ text "NEW" :=
        sibling_eq valid (by decide)
      have backup : sibling (jugPath pkg.name) (text "BAK") = stem pkg.name ++ text "BAK" :=
        sibling_eq valid (by decide)
      have apart : stem pkg.name ++ text "ELF" ≠ stem pkg.name ++ text "NEW" :=
        stem_apart (by decide)
      have apart' : stem pkg.name ++ text "ELF" ≠ stem pkg.name ++ text "BAK" :=
        stem_apart (by decide)
      have apart'' : stem pkg.name ++ text "NEW" ≠ stem pkg.name ++ text "BAK" :=
        stem_apart (by decide)
      have notDir := dir_apart pkg.name (text "ELF")
      have notRegistry := registry_apart pkg.name
      simp only [path] at staged backup ⊢
      simp only [staged, backup]
      generalize stem pkg.name ++ text "ELF" = elf at *
      generalize stem pkg.name ++ text "NEW" = new at *
      generalize stem pkg.name ++ text "BAK" = bak at *
      have there : (mounted kernel w).1.files elf = w.files elf := rfl
      generalize mounted kernel w = mount at *
      obtain ⟨w1, mounted_⟩ := mount
      cases mounted_ with
      | false => exact Outcome.kept there
      | true =>
          simp only [Bool.not_true, Bool.false_eq_true, if_false] at *
          have made := ensureDir_apart kernel w1 elf notDir
          rw [there] at made
          generalize ensureDir kernel w1 = ensure at *
          obtain ⟨w2, dir⟩ := ensure
          cases dir with
          | false => exact Outcome.kept made
          | true =>
              simp only [Bool.not_true, Bool.false_eq_true, if_false] at *
              obtain ⟨only, download⟩ := stage_spec kernel w2 elf new some_
              have before := (only elf apart).trans made
              generalize stage kernel w2 elf new data = staging at *
              obtain ⟨w3, outcome⟩ := staging
              cases outcome with
              | error why => exact Outcome.kept before
              | ok older =>
                  have published := publish_spec kernel w3 older (download older rfl) apart apart' apart''
                  simp only at before ⊢
                  rw [before] at published
                  generalize publish kernel w3 elf new bak older = publishing at *
                  cases published with
                  | done here =>
                      refine Outcome.done refused ?_
                      rw [save_files _ notRegistry notDir]
                      exact here
                  | kept here => exact Outcome.kept here
                  | lost some_ gone there => exact Outcome.lost refused some_ gone there

end R2Apps.JugInstall
