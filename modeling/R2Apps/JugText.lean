import Mathlib.Data.List.TakeDrop
import Mathlib.Data.List.TakeWhile
import R2Apps.JugDigest
import R2Apps.JugModel
import R2Apps.NumberParsing

/-! The lines and words that `jug/lists.cpp` cuts its texts into, and the names of
programs in them. -/
namespace R2Apps.JugText
open JugLists JugModel JugDigest
open NumberParsing (isSpace trim dropWhile_solid trim_solid)

section Code

/-- `string_view::split`: what stands before and after the first separator. -/
def split (separator : UInt8) (t : Text) : Text × Text :=
  (t.takeWhile (· != separator), (t.dropWhile (· != separator)).drop 1)

/-- The blanks between words: the file's own `isSpace`. -/
def isBlank (c : UInt8) : Bool := c == 32 || c == 9 || c == 13

/-- The next word, and the line without it. -/
def word (line : Text) : Text × Text :=
  let rest := line.dropWhile isBlank
  (rest.takeWhile fun c => !isBlank c, rest.dropWhile fun c => !isBlank c)

/-- A turn takes a line off the text, so there are no more turns than bytes. -/
def linesFrom : Nat → Text → List Text
  | 0, _ => []
  | turns + 1, t =>
      if t.isEmpty then [] else trim (split 10 t).1 :: linesFrom turns (split 10 t).2

def eachLine (t : Text) : List Text := linesFrom t.length t

end Code

section Lines

theorem split_at {separator : UInt8} {first : Text} (within : separator ∉ first) (rest : Text) :
    split separator (first ++ separator :: rest) = (first, rest) := by
  have before : ∀ c ∈ first, (c != separator) = true := by
    intro c member
    exact bne_iff_ne.mpr fun same => within (same ▸ member)
  rw [split, List.takeWhile_append_of_pos before, List.dropWhile_append_of_pos before]
  simp

theorem split_shorter (separator : UInt8) {t : Text} (some_ : t ≠ []) :
    (split separator t).2.length < t.length := by
  have positive := List.length_pos_iff.mpr some_
  have less := (List.dropWhile_suffix (fun c => c != separator) (l := t)).length_le
  rw [split, List.length_drop]
  omega

theorem linesFrom_enough {turns : Nat} {t : Text} (enough : t.length ≤ turns) :
    linesFrom turns t = eachLine t := by
  -- both take the first line off, and what is left is shorter
  induction turns using Nat.strong_induction_on generalizing t with
  | _ turns ih =>
      cases turns with
      | zero =>
          cases List.length_eq_zero_iff.mp (Nat.le_zero.mp enough)
          rfl
      | succ turns =>
          cases t with
          | nil => rfl
          | cons c rest =>
              have shorter := split_shorter 10 (List.cons_ne_nil c rest)
              rw [eachLine, List.length_cons, linesFrom, linesFrom]
              rw [List.length_cons] at shorter enough
              rw [ih turns (Nat.lt_succ_self _) (by omega), ih rest.length (by omega) (by omega)]

theorem eachLine_cons {line : Text} (one : 10 ∉ line) (rest : Text) :
    eachLine (line ++ 10 :: rest) = trim line :: eachLine rest := by
  have size : (line ++ 10 :: rest).length = (line.length + rest.length) + 1 := by
    rw [List.length_append, List.length_cons]
    omega
  have some_ : (line ++ 10 :: rest).isEmpty = false := by simp
  rw [eachLine, size, linesFrom, some_, split_at one]
  simp only [Bool.false_eq_true, if_false]
  rw [linesFrom_enough (Nat.le_add_left _ _)]

theorem trim_ends {t : Text} (first : ∀ c ∈ t.head?, isSpace c = false)
    (last_ : ∀ c ∈ t.getLast?, isSpace c = false) : trim t = t := by
  have kept {t : Text} (first : ∀ c ∈ t.head?, isSpace c = false) : t.dropWhile isSpace = t := by
    cases t with
    | nil => rfl
    | cons c rest => rw [List.dropWhile_cons_of_neg (by simpa using first c rfl)]
  rw [trim, kept first, kept (by simpa using last_), List.reverse_reverse]

end Lines

section Words

theorem blank_space {c : UInt8} (solid : isSpace c = false) : isBlank c = false := by
  simp only [isSpace, Bool.or_eq_false_iff] at solid
  simp only [isBlank, solid, Bool.or_self]

theorem word_at {w : Text} (some_ : w ≠ []) (solid : ∀ c ∈ w, isSpace c = false) (rest : Text) :
    word (w ++ 32 :: rest) = (w, 32 :: rest) := by
  have within : ∀ c ∈ w, (!isBlank c) = true := by
    intro c member
    rw [blank_space (solid c member)]
    rfl
  have starts : (w ++ 32 :: rest).dropWhile isBlank = w ++ 32 :: rest := by
    cases w with
    | nil => exact absurd rfl some_
    | cons c w =>
      rw [List.cons_append, List.dropWhile_cons_of_neg (by simp [blank_space (solid c List.mem_cons_self)])]
  rw [word, starts]
  rw [List.takeWhile_append_of_pos within, List.dropWhile_append_of_pos within]
  simp [isBlank]

theorem word_next (t : Text) : word (32 :: t) = word t := by
  simp [word, isBlank]

theorem trim_next {t : Text} (solid : ∀ c ∈ t, isSpace c = false) : trim (32 :: t) = t := by
  have space : isSpace 32 = true := rfl
  rw [trim, List.dropWhile_cons, if_pos space]
  exact trim_solid solid

end Words

section Names
variable {file name : Text}

theorem splitLast_some {c : UInt8} {t before after : Text} (found : splitLast c t = some (before, after)) :
    t = before ++ c :: after ∧ c ∉ after := by
  rw [splitLast, List.span_eq_takeWhile_dropWhile] at found
  have parts := List.takeWhile_append_dropWhile (p := fun x => decide (x ≠ c)) (l := t.reverse)
  have tail : ∀ x ∈ t.reverse.takeWhile (fun x => decide (x ≠ c)), x ≠ c := by
    intro x member
    have kept := List.mem_takeWhile_imp (p := fun x => decide (x ≠ c)) member
    exact of_decide_eq_true kept
  have head := List.head?_dropWhile_not (fun x => decide (x ≠ c)) t.reverse
  generalize t.reverse.takeWhile (fun x => decide (x ≠ c)) = left_ at *
  generalize t.reverse.dropWhile (fun x => decide (x ≠ c)) = right_ at *
  cases right_ with
  | nil => cases found
  | cons x rest =>
      cases found
      have same : x = c := by simpa using head
      subst same
      constructor
      · rw [← List.reverse_reverse t, ← parts]
        simp
      · intro member
        exact tail x (List.mem_reverse.mp member) rfl

theorem splitLast_none {c : UInt8} {t : Text} (absent : c ∉ t) : splitLast c t = none := by
  have all : t.reverse.dropWhile (fun x => decide (x ≠ c)) = [] := by
    rw [List.dropWhile_eq_nil_iff]
    intro x member
    exact decide_eq_true fun same => absent (same ▸ List.mem_reverse.mp member)
  rw [splitLast, List.span_eq_takeWhile_dropWhile, all]

theorem splitLast_absent {c : UInt8} {t : Text} (none_ : splitLast c t = none) : c ∉ t := by
  rw [splitLast, List.span_eq_takeWhile_dropWhile] at none_
  cases tail : t.reverse.dropWhile (fun x => decide (x ≠ c)) with
  | nil =>
      rw [List.dropWhile_eq_nil_iff] at tail
      intro member
      exact of_decide_eq_true (tail c (List.mem_reverse.mpr member)) rfl
  | cons x rest =>
      rw [tail] at none_
      cases none_

set_option maxRecDepth 100000 in
theorem nameChar_lower : ∀ c, nameChar (lower c) = nameChar c :=
  each_byte (by decide)

theorem nameChar_solid : ∀ c, nameChar c = true → isSpace c = false :=
  each_byte (by decide +kernel)

theorem space_lower : ∀ c, isSpace (lower c) = isSpace c :=
  each_byte (by decide +kernel)

theorem valid_key (valid : validName name = true) : validName (key name) = true := by
  simp only [validName, key, List.isEmpty_map, List.length_map, List.all_map, Function.comp_def,
    nameChar_lower]
  exact valid

theorem valid_some (valid : validName name = true) : name ≠ [] := by
  rintro rfl
  cases valid

theorem valid_solid (valid : validName name = true) : ∀ c ∈ name, isSpace c = false := by
  simp only [validName, Bool.and_eq_true, List.all_eq_true] at valid
  exact fun c member => nameChar_solid c (valid.2 c member)

/-- What a file is called whose program has this name. -/
structure Called (file base extension : Text) : Prop where
  parts : file = base ++ 46 :: extension
  valid : validName base = true
  elf : key extension = text "elf"

/-- The file a path ends in, without the version number of a CD. -/
def lastPart (path : Text) : Text :=
  withoutVersion (((splitLast 47 path).map Prod.snd).getD path)

theorem programName_some (named : programName file = some name) :
    ∃ base extension, Called (lastPart file) base extension ∧ name = key base := by
  have cut : programName file = (splitLast 46 (lastPart file)).bind fun parts =>
      if ieq parts.2 (text "elf") && validName parts.1 then some (parts.1.map lower) else none := by
    simp only [programName, lastPart]
    cases splitLast 47 file with
    | none =>
        simp only [Option.map_none, Option.getD_none]
        cases splitLast 46 (withoutVersion file) <;> rfl
    | some parts =>
        simp only [Option.map_some, Option.getD_some]
        cases splitLast 46 (withoutVersion parts.2) <;> rfl
  rw [cut] at named
  cases found : splitLast 46 (lastPart file) with
  | none =>
      rw [found] at named
      cases named
  | some parts =>
      obtain ⟨base, extension⟩ := parts
      rw [found, Option.bind_some] at named
      by_cases fits : (ieq extension (text "elf") && validName base) = true
      · rw [if_pos fits] at named
        rw [Bool.and_eq_true] at fits
        have elf : key (text "elf") = text "elf" := by decide
        exact ⟨base, extension, ⟨(splitLast_some found).1, fits.2, (ieq_iff.mp fits.1).trans elf⟩,
          (Option.some.inj named).symm⟩
      · rw [if_neg fits] at named
        cases named

theorem programName_valid (named : programName file = some name) :
    validName name = true ∧ key name = name := by
  obtain ⟨base, extension, called, rfl⟩ := programName_some named
  exact ⟨valid_key called.valid, key_key base⟩

theorem elf_length {extension : Text} (elf : key extension = text "elf") : extension.length = 3 := by
  have three : (text "elf").length = 3 := by decide
  rw [← three, ← elf, key, List.length_map]

set_option maxRecDepth 100000 in
theorem called_solid {base extension : Text} (called : Called file base extension) :
    ∀ c ∈ file, isSpace c = false := by
  intro c member
  rw [called.parts, List.mem_append, List.mem_cons] at member
  rcases member with inside | rfl | inside
  · exact valid_solid called.valid c inside
  · rfl
  · have letters : ∀ c ∈ text "elf", isSpace c = false := by decide
    rw [← space_lower]
    exact letters _ (called.elf ▸ List.mem_map_of_mem inside)

theorem called_length {base extension : Text} (called : Called file base extension) :
    file ≠ [] ∧ file.length ≤ 12 := by
  have short := JugInstall.short_name called.valid
  have three := elf_length called.elf
  rw [called.parts]
  constructor
  · simp
  · rw [List.length_append, List.length_cons]
    omega

end Names

end R2Apps.JugText
