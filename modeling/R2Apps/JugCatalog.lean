import Mathlib.Data.List.Induction
import R2Apps.HoarePartition
import R2Apps.JugText

/-! The server's list: `Catalog::parse` of `jug/lists.cpp`, and the URL that
`Config::urlOf` of `jug/store.cpp` makes of a path in it. `grants` says for which lines
there is memory left. The URL is cut to its buffer, so behind a long directory it may end
in a part of the path: a component that only starts with `..` climbs out there. The count
of skipped lines is not bounded here. -/
namespace R2Apps.JugCatalog
open Sha256 JugLists JugModel JugDigest JugText Rearranging
open NumberParsing (trim parseUint)

section Code

/-- The components before the end, one a turn. -/
def componentsSafe : Nat → Text → Bool
  | 0, _ => true
  | turns + 1, rest =>
      if rest.isEmpty then true
      else if (split 47 rest).1 == text ".." || (split 47 rest).1.isEmpty then false
      else componentsSafe turns (split 47 rest).2

def safePath (p : Text) : Bool :=
  !p.isEmpty && decide (p.length < pathCap) && p.head? != some 47 &&
    p.all (fun c => nameChar c || c == 46 || c == 47) && componentsSafe p.length p

def stampCap : Nat := 48
def urlCap : Nat := 192

/-- What a comment makes of `updated`. -/
def updatedBy (line updated : Text) : Text :=
  let rest := trim (line.drop 1)
  if 7 ≤ rest.length ∧ ieq (rest.take 7) (text "updated") then
    let rest := trim (rest.drop 7)
    scopy (if rest.head? = some 58 then trim (rest.drop 1) else rest) stampCap
  else updated

/-- The path of a line whose second word and rest these are, and the size if there is one. -/
def sizeAndPath (second path : Text) : Option (Option Nat × Text) :=
  if path.isEmpty then some (none, second)
  else
    let size := parseUint second 0 10
    if !size.1 || decide (size.2 > 0xFFFFFFFF) then none else some (some size.2, path)

/-- `sha256sum -b` writes a `*`, and the path may start with `./`. -/
def withoutMarks (path : Text) : Text :=
  let path := if path.head? = some 42 then path.drop 1 else path
  if (text "./").isPrefixOf path then path.drop 2 else path

def packageOfLine (line : Text) : Option Package :=
  let hex := word line
  let second := word hex.2
  match sizeAndPath second.1 (trim second.2) with
  | none => none
  | some (size, path) =>
      let path := withoutMarks path
      match Digest.parse hex.1, programName path with
      | some sum, some name => if safePath path then some ⟨name, scopy path pathCap, sum, size⟩ else none
      | _, _ => none

structure Listed extends Catalog where
  skipped : Nat := 0

def Listed.skip (c : Listed) : Listed := { c with skipped := c.skipped + 1 }

def Listed.add (c : Listed) (p : Package) : Listed := { c with packages := c.packages ++ [p] }

/-- A line and its number. -/
def readLine (grants : Nat → Bool) (c : Listed) (line : Text × Nat) : Listed :=
  if line.1.isEmpty then c
  else if line.1.head? = some 35 then { c with updated := updatedBy line.1 c.updated }
  else match packageOfLine line.1 with
    | none => c.skip
    | some p =>
        if (c.find p.name).isSome then c.skip
        else if grants line.2 then c.add p
        else c.skip

/-- `strcmp(a.name, b.name) < 0` -/
def nameBefore (a b : Package) : Bool := decide (a.name < b.name)

def sortPackages (packages : List Package) : Option (List Package) :=
  (IntroSort.sort nameBefore packages.length fun i => packages.getD i ⟨[], [], noDigest, none⟩).map
    fun g => (List.range packages.length).map g

def Catalog.parse (grants : Nat → Bool) (t : Text) : Option (Listed × Bool) :=
  let c := (eachLine t).zipIdx.foldl (readLine grants) {}
  (sortPackages c.packages).map fun packages =>
    ({ c with packages := packages }, !packages.isEmpty || (c.updated.headD 0 != 0 && c.skipped == 0))

/-- Where `://` is. -/
def schemeAt (l : Text) : Option Nat :=
  (List.range l.length).find? fun i => (text "://").isPrefixOf (l.drop i)

/-- The URL of the directory that the list is in. -/
def directory (list : Text) : Text :=
  match splitLast 47 list with
  | none => list
  | some (before, _) =>
      match schemeAt list with
      | none => before
      | some scheme => if before.length > scheme + 2 then before else list

def urlOf (list rel : Text) (cap : Nat) : Text :=
  scat (scat (scopy (directory list) cap) (text "/") cap) rel cap

end Code

section Meaning

/-- The line is to name a program. -/
def counts (line : Text) : Bool := !line.isEmpty && !decide (line.head? = some 35)

/-- The packages of the acceptable lines. -/
def accepted (grants : Nat → Bool) (lines : List (Text × Nat)) : List Package :=
  lines.filterMap fun l => if counts l.1 && grants l.2 then packageOfLine l.1 else none

/-- None before it has its name. -/
def First (p : Package) (ps : List Package) : Prop :=
  ∃ before after, ps = before ++ p :: after ∧ ∀ q ∈ before, q.name ≠ p.name

structure SoundPath (p : Package) : Prop where
  some_ : p.path ≠ []
  relative : p.path.head? ≠ some 47
  short : p.path.length < pathCap
  inside : ∀ c ∈ p.path.splitOn 47, c ≠ [] ∧ c ≠ text ".."
  named : ∃ base extension, (p.path.splitOn 47).getLast? = some (base ++ 46 :: extension) ∧
    key extension = text "elf" ∧ p.name = key base

structure Parsed (grants : Nat → Bool) (lines : List Text) (c : Listed) : Prop where
  sorted : c.packages.Pairwise fun a b => a.name < b.name
  first : ∀ p, p ∈ c.packages ↔ First p (accepted grants lines.zipIdx)
  others : c.packages.length + c.skipped = (lines.filter counts).length
  paths : ∀ p ∈ c.packages, SoundPath p

/-- The URL is the directory's, a slash, and what does not climb out. -/
def Below (dir url : Text) : Prop := ∃ rest, url = dir ++ 47 :: rest ∧ text ".." ∉ rest.splitOn 47

end Meaning

section Paths
variable {path : Text}

theorem split_without {separator : UInt8} {t : Text} (absent : separator ∉ t) :
    split separator t = (t, []) := by
  have all : ∀ c ∈ t, (c != separator) = true :=
    fun c member => bne_iff_ne.mpr fun same => absent (same ▸ member)
  rw [split, List.takeWhile_eq_self_iff.mpr all, List.dropWhile_eq_nil_iff.mpr all]
  rfl

theorem componentsSafe_inside {turns : Nat} (enough : path.length ≤ turns) (some_ : path ≠ [])
    (open_ : path.getLast? ≠ some 47) (safe : componentsSafe turns path = true) :
    ∀ c ∈ path.splitOn 47, c ≠ [] ∧ c ≠ text ".." := by
  -- a component and its slash go with each turn
  induction turns generalizing path with
  | zero => exact absurd (List.length_eq_zero_iff.mp (Nat.le_zero.mp enough)) some_
  | succ turns ih =>
      rw [componentsSafe, if_neg (by simpa using some_)] at safe
      by_cases slash : 47 ∈ path
      · obtain ⟨first, rest, rfl, within⟩ := List.eq_append_cons_of_mem slash
        rw [split_at within] at safe
        have left_ : rest ≠ [] := by
          rintro rfl
          exact open_ (by simp)
        have tail : (first ++ 47 :: rest).getLast? = rest.getLast? := by
          have whole : first ++ 47 :: rest = (first ++ [47]) ++ rest := by simp
          rw [whole, List.getLast?_append_of_ne_nil _ left_]
        by_cases bad : (first == text ".." || first.isEmpty) = true
        · rw [if_pos bad] at safe
          cases safe
        · rw [if_neg bad] at safe
          simp only [Bool.or_eq_true, beq_iff_eq, List.isEmpty_iff, not_or] at bad
          rw [List.length_append, List.length_cons] at enough
          have later := ih (by omega) left_ (tail ▸ open_) safe
          rw [List.splitOn_append_cons_self_of_not_mem within]
          intro c member
          rcases List.mem_cons.mp member with rfl | member
          · exact ⟨bad.2, bad.1⟩
          · exact later c member
      · rw [split_without slash] at safe
        by_cases bad : (path == text ".." || path.isEmpty) = true
        · rw [if_pos bad] at safe
          cases safe
        · simp only [Bool.or_eq_true, beq_iff_eq, List.isEmpty_iff, not_or] at bad
          rw [List.splitOn_eq_singleton slash]
          intro c member
          rw [List.mem_singleton.mp member]
          exact ⟨bad.2, bad.1⟩

theorem lastPart_component (plain : 59 ∉ path) : (path.splitOn 47).getLast? = some (lastPart path) := by
  have whole {file : Text} (plain : 59 ∉ file) : withoutVersion file = file := by
    rw [withoutVersion, List.takeWhile_eq_self_iff]
    intro c member
    exact decide_eq_true fun same => plain (same ▸ member)
  rw [lastPart]
  by_cases slash : 47 ∈ path
  · cases found : splitLast 47 path with
    | none => exact absurd slash (splitLast_absent found)
    | some parts =>
        obtain ⟨before, file⟩ := parts
        obtain ⟨same, within⟩ := splitLast_some found
        rw [Option.map_some, Option.getD_some]
        rw [whole fun member => plain (same ▸ by simp [member])]
        rw [same, List.splitOn_append_cons_self, List.splitOn_eq_singleton within, List.getLast?_append]
        rfl
  · rw [splitLast_none slash, Option.map_none, Option.getD_none, whole plain, List.splitOn_eq_singleton slash]
    rfl

theorem safePath_plain (safe : safePath path = true) : 59 ∉ path := by
  simp only [safePath, Bool.and_eq_true, List.all_eq_true] at safe
  intro member
  have letter := safe.1.2 59 member
  revert letter
  decide

theorem package_soundPath {name : Text} (safe : safePath path = true) (named : programName path = some name)
    (sum : Digest) (size : Option Nat) : SoundPath ⟨name, scopy path pathCap, sum, size⟩ := by
  obtain ⟨base, extension, called, same⟩ := programName_some named
  have last_ := lastPart_component (safePath_plain safe)
  simp only [safePath, Bool.and_eq_true, decide_eq_true_eq, bne_iff_ne, Bool.not_eq_true',
    List.isEmpty_eq_false_iff]
    at safe
  obtain ⟨⟨⟨⟨some_, short⟩, relative⟩, _⟩, components⟩ := safe
  have whole : scopy path pathCap = path := JugInstall.scopy_fits short
  have open_ : path.getLast? ≠ some 47 := by
    -- behind a last slash there is nothing that could be called something.elf
    intro ends
    obtain ⟨front, rfl⟩ := List.getLast?_eq_some_iff.mp ends
    rw [List.splitOn_append_cons_self, List.getLast?_append, List.splitOn_nil] at last_
    have empty : lastPart (front ++ [47]) = [] := (Option.some.inj last_).symm
    have parts := called.parts
    rw [empty] at parts
    exact absurd parts.symm (by simp)
  refine ⟨?_, ?_, ?_, ?_, ?_⟩
  · rw [whole]
    exact some_
  · rw [whole]
    exact relative
  · rw [whole]
    exact short
  · rw [whole]
    exact componentsSafe_inside (Nat.le_refl _) some_ open_ components
  · rw [whole, last_, called.parts]
    exact ⟨base, extension, rfl, called.elf, same⟩

theorem packageOfLine_sound {line : Text} {p : Package} (found : packageOfLine line = some p) :
    SoundPath p ∧ key p.name = p.name := by
  simp only [packageOfLine] at found
  cases there : sizeAndPath (word (word line).2).1 (trim (word (word line).2).2) with
  | none =>
      rw [there] at found
      cases found
  | some pair =>
      obtain ⟨size, path⟩ := pair
      rw [there] at found
      dsimp only at found
      cases sum : Digest.parse (word line).1 with
      | none =>
          rw [sum] at found
          cases found
      | some digest =>
          cases named : programName (withoutMarks path) with
          | none =>
              rw [sum, named] at found
              cases found
          | some name =>
              rw [sum, named] at found
              dsimp only at found
              by_cases safe : safePath (withoutMarks path) = true
              · rw [if_pos safe] at found
                cases found
                exact ⟨package_soundPath safe named digest size, (programName_valid named).2⟩
              · rw [if_neg safe] at found
                cases found

end Paths

section Lines
variable {grants : Nat → Bool}

theorem accepted_snoc (grants : Nat → Bool) (lines : List (Text × Nat)) (l : Text × Nat) :
    accepted grants (lines ++ [l]) = accepted grants lines ++
      (if counts l.1 && grants l.2 then packageOfLine l.1 else none).toList := by
  rw [accepted, List.filterMap_append, ← accepted]
  rfl

theorem first_snoc {p q : Package} {ps : List Package} :
    First p (ps ++ [q]) ↔ First p ps ∨ p = q ∧ ∀ x ∈ ps, x.name ≠ q.name := by
  constructor
  · rintro ⟨before, after, same, fresh⟩
    cases after using List.reverseRecOn with
    | nil =>
        obtain ⟨rfl, last_⟩ := List.append_inj' same rfl
        cases last_
        exact Or.inr ⟨rfl, fresh⟩
    | append_singleton after x =>
        have parts : ps ++ [q] = (before ++ p :: after) ++ [x] := by rw [same]; simp
        exact Or.inl ⟨before, after, (List.append_inj' parts rfl).1, fresh⟩
  · rintro (⟨before, after, rfl, fresh⟩ | ⟨rfl, fresh⟩)
    · exact ⟨before, after ++ [q], by simp, fresh⟩
    · exact ⟨ps, [], rfl, fresh⟩

theorem first_exists {q : Package} {ps : List Package} (member : q ∈ ps) :
    ∃ p, First p ps ∧ p.name = q.name := by
  induction ps using List.reverseRecOn generalizing q with
  | nil => cases member
  | append_singleton ps x ih =>
      by_cases before : ∃ y ∈ ps, y.name = q.name
      · obtain ⟨y, there, same⟩ := before
        obtain ⟨p, first, named⟩ := ih there
        exact ⟨p, first_snoc.mpr (Or.inl first), named.trans same⟩
      · have last_ : q = x := by
          rcases List.mem_append.mp member with old | new
          · exact absurd ⟨q, old, rfl⟩ before
          · exact List.mem_singleton.mp new
        subst last_
        exact ⟨q, first_snoc.mpr (Or.inr ⟨rfl, fun y there same => before ⟨y, there, same⟩⟩), rfl⟩

theorem first_mem {p : Package} {ps : List Package} (first : First p ps) : p ∈ ps := by
  obtain ⟨before, after, rfl, _⟩ := first
  simp

theorem accepted_sound {lines : List (Text × Nat)} {p : Package} (member : p ∈ accepted grants lines) :
    SoundPath p ∧ key p.name = p.name := by
  obtain ⟨l, _, found⟩ := List.mem_filterMap.mp member
  split at found
  · exact packageOfLine_sound found
  · cases found

/-- What the lines read so far have made of the list. -/
structure Reading (grants : Nat → Bool) (lines : List (Text × Nat)) (c : Listed) : Prop where
  first : ∀ p, p ∈ c.packages ↔ First p (accepted grants lines)
  distinct : c.packages.Pairwise fun a b => a.name ≠ b.name
  others : c.packages.length + c.skipped = (lines.filter fun l => counts l.1).length

variable {lines : List (Text × Nat)} {c : Listed}

theorem find_cases (reading : Reading grants lines c) {p : Package} (small : key p.name = p.name) :
    (c.find p.name).isSome = true ∧ (∃ q ∈ accepted grants lines, q.name = p.name) ∨
      (c.find p.name).isSome = false ∧ ∀ q ∈ accepted grants lines, q.name ≠ p.name := by
  have same {q : Package} (there : q ∈ c.packages) : ieq q.name p.name = true ↔ q.name = p.name := by
    have small' := (accepted_sound (first_mem ((reading.first q).mp there))).2
    rw [ieq_iff, small, small']
  cases found : (c.find p.name).isSome with
  | true =>
      left
      obtain ⟨q, there, hit⟩ := List.find?_isSome.mp found
      exact ⟨rfl, q, first_mem ((reading.first q).mp there), (same there).mp hit⟩
  | false =>
      right
      refine ⟨rfl, ?_⟩
      intro q member named
      obtain ⟨q', first, named'⟩ := first_exists member
      have there := (reading.first q').mpr first
      have hit : (c.find p.name).isSome = true :=
        List.find?_isSome.mpr ⟨q', there, (same there).mpr (named'.trans named)⟩
      rw [found] at hit
      cases hit

theorem skip_reading (reading : Reading grants lines c) {l : Text × Nat} (counted : counts l.1 = true)
    (old : ∀ p, grants l.2 = true → packageOfLine l.1 = some p →
      ∃ q ∈ accepted grants lines, q.name = p.name) :
    Reading grants (lines ++ [l]) c.skip := by
  refine ⟨?_, reading.distinct, ?_⟩
  · intro p
    rw [accepted_snoc, counted, Bool.true_and]
    cases found : (if grants l.2 = true then packageOfLine l.1 else none) with
    | none =>
        rw [Option.toList_none, List.append_nil]
        exact reading.first p
    | some x =>
        by_cases granted : grants l.2 = true
        · rw [if_pos granted] at found
          obtain ⟨q, there, same⟩ := old x granted found
          rw [Option.toList_some, first_snoc]
          constructor
          · exact fun member => Or.inl ((reading.first p).mp member)
          · rintro (first | ⟨_, fresh⟩)
            · exact (reading.first p).mpr first
            · exact absurd same (fresh q there)
        · rw [if_neg granted] at found
          cases found
  · have others := reading.others
    rw [List.filter_append, List.length_append, ← others, List.filter_singleton, counted]
    exact (Nat.add_assoc _ _ _).symm

theorem readLine_reading (reading : Reading grants lines c) (l : Text × Nat) :
    Reading grants (lines ++ [l]) (readLine grants c l) := by
  rw [readLine]
  by_cases counted : counts l.1 = true
  · have plain := counted
    simp only [counts, Bool.and_eq_true, Bool.not_eq_true', decide_eq_false_iff_not] at plain
    rw [if_neg (by simp [plain.1]), if_neg plain.2]
    cases found : packageOfLine l.1 with
    | none =>
        apply skip_reading reading counted
        intro p _ there
        rw [found] at there
        cases there
    | some p =>
        dsimp only
        rcases find_cases reading (packageOfLine_sound found).2 with ⟨there, old⟩ | ⟨absent, fresh⟩
        · rw [if_pos there]
          apply skip_reading reading counted
          intro x _ same
          rw [found] at same
          cases same
          exact old
        · rw [if_neg (by rw [absent]; exact Bool.false_ne_true)]
          by_cases granted : grants l.2 = true
          · rw [if_pos granted]
            refine ⟨?_, ?_, ?_⟩
            · intro x
              rw [accepted_snoc, counted, granted, found]
              simp only [Listed.add, List.mem_append, List.mem_singleton, Bool.and_self, if_true,
                Option.toList_some,
                first_snoc, reading.first]
              constructor
              · rintro (first | rfl)
                · exact Or.inl first
                · exact Or.inr ⟨rfl, fresh⟩
              · rintro (first | ⟨rfl, _⟩)
                · exact Or.inl first
                · exact Or.inr rfl
            · rw [Listed.add, List.pairwise_append]
              refine ⟨reading.distinct, List.pairwise_singleton _ _, ?_⟩
              intro a member b last_
              rw [List.mem_singleton.mp last_]
              exact fresh a (first_mem ((reading.first a).mp member))
            · have others := reading.others
              rw [List.filter_append, List.length_append, ← others, List.filter_singleton, counted,
                Listed.add,
                List.length_append]
              exact Nat.add_right_comm _ _ _
          · rw [if_neg granted]
            exact skip_reading reading counted fun x granted' _ => absurd granted' granted
  · have nothing (c' : Listed) (packages : c'.packages = c.packages) (skipped : c'.skipped = c.skipped) :
        Reading grants (lines ++ [l]) c' := by
      rw [Bool.not_eq_true] at counted
      constructor
      · intro p
        rw [accepted_snoc, counted, packages]
        simp only [Bool.false_and, Bool.false_eq_true, if_false, Option.toList_none, List.append_nil]
        exact reading.first p
      · rw [packages]
        exact reading.distinct
      · rw [List.filter_append, List.filter_singleton, counted, packages, skipped, Bool.cond_false,
          List.append_nil]
        exact reading.others
    by_cases empty : l.1.isEmpty = true
    · rw [if_pos empty]
      exact nothing c rfl rfl
    · rw [if_neg empty]
      by_cases comment : l.1.head? = some 35
      · rw [if_pos comment]
        exact nothing _ rfl rfl
      · have plain : counts l.1 = true := by simp [counts, empty, comment]
        exact absurd plain counted

theorem readLines_reading (reading : Reading grants lines c) (more : List (Text × Nat)) :
    Reading grants (lines ++ more) (more.foldl (readLine grants) c) := by
  induction more generalizing lines c with
  | nil => simpa using reading
  | cons l rest ih => simpa using ih (readLine_reading reading l)

end Lines

section Sorting

instance nameBefore_order : IsStrictWeakOrder Package (IntroSort.less nameBefore) where
  irrefl a := by
    simp only [IntroSort.less, nameBefore, decide_eq_true_eq]
    exact List.lt_irrefl a.name
  trans a b c := by
    simp only [IntroSort.less, nameBefore, decide_eq_true_eq]
    exact List.lt_trans
  incomp_trans a b c := by
    simp only [IntroSort.less, nameBefore, decide_eq_true_eq]
    rintro ⟨ba, ab⟩ ⟨cb, bc⟩
    exact ⟨List.le_trans cb ba, List.le_trans ab bc⟩

theorem sortPackages_spec {packages : List Package}
    (distinct : packages.Pairwise fun a b => a.name ≠ b.name) :
    ∃ sorted, sortPackages packages = some sorted ∧ sorted.Perm packages ∧
      sorted.Pairwise fun a b => a.name < b.name := by
  obtain ⟨g, done, moved, sorted⟩ := HoarePartition.sort_spec nameBefore packages.length
    fun i => packages.getD i ⟨[], [], noDigest, none⟩
  have listed : (List.range packages.length).map (fun i => packages.getD i ⟨[], [], noDigest, none⟩) =
      packages := by
    apply List.ext_getElem
    · simp
    · intro i one other
      simp [List.getElem?_eq_getElem other]
  have perm := moved.perm (Nat.le_refl _)
  rw [listed] at perm
  refine ⟨_, by rw [sortPackages, done]; rfl, perm, ?_⟩
  have apart := (perm.pairwise_iff (R := fun a b : Package => a.name ≠ b.name) fun h => h.symm).mpr distinct
  have order := sorted_pairwise sorted
  refine (order.and apart).imp ?_
  rintro a b ⟨notAfter, different⟩
  simp only [IntroSort.less, nameBefore, decide_eq_true_eq] at notAfter
  by_contra notBefore
  exact different (List.le_antisymm notAfter notBefore)

end Sorting

section Addresses

theorem text_slash : text "/" = [47] := by decide

theorem urlOf_below_iff (list path : Text) :
    Below (directory list) (urlOf list path urlCap) ↔
      (directory list).length ≤ 190 ∧ text ".." ∉ (path.take (190 - (directory list).length)).splitOn 47 := by
  rw [urlOf, text_slash]
  generalize directory list = dir
  by_cases room : dir.length ≤ 190
  · have cut : scat (scat (scopy dir urlCap) [47] urlCap) path urlCap =
        dir ++ 47 :: path.take (190 - dir.length) := by
      have fits : dir.length < urlCap := Nat.lt_of_le_of_lt room (by decide)
      have fits' : (dir ++ [47]).length < urlCap := by
        rw [List.length_append, List.length_singleton, urlCap]
        omega
      have left_ : urlCap - (dir ++ [47]).length - 1 = 190 - dir.length := by
        rw [List.length_append, List.length_singleton, urlCap]
        omega
      have slash : scat (scopy dir urlCap) [47] urlCap = dir ++ [47] := by
        rw [JugInstall.scopy_fits fits]
        exact JugInstall.scat_fits (by rwa [List.length_append] at fits')
      rw [slash, scat, if_pos fits', scopy, left_, List.append_assoc]
      rfl
    rw [cut]
    constructor
    · rintro ⟨rest, same, inside⟩
      cases List.append_cancel_left same
      exact ⟨room, inside⟩
    · rintro ⟨_, inside⟩
      exact ⟨_, rfl, inside⟩
  · have full : (scopy dir urlCap).length = urlCap - 1 := by
      rw [scopy, List.length_take, urlCap]
      omega
    have stuck (dst src : Text) (full : dst.length = urlCap - 1) : scat dst src urlCap = dst := by
      rw [scat, full, if_pos (by decide), scopy]
      exact List.append_nil _
    rw [stuck _ _ full, stuck _ _ full]
    constructor
    · rintro ⟨rest, same, _⟩
      rw [same, List.length_append, List.length_cons, urlCap] at full
      omega
    · rintro ⟨fits, _⟩
      exact absurd fits room

end Addresses

/-- Every text is read: the packages are sorted and of different names, each is the first
acceptable line's of its name, every other line that is neither empty nor a comment is
counted, and the paths are what they should be. The URL made of one is below the list's
directory if and only if the buffer does not cut the slash off, or a path to `..`. -/
theorem catalog_parsed (grants : Nat → Bool) (t : Text) :
    ∃ c good, Catalog.parse grants t = some (c, good) ∧ Parsed grants (eachLine t) c ∧
      ∀ p ∈ c.packages, ∀ list,
        (Below (directory list) (urlOf list p.path urlCap) ↔
          (directory list).length ≤ 190 ∧
            text ".." ∉ (p.path.take (190 - (directory list).length)).splitOn 47) := by
  have start : Reading grants [] {} := by
    refine ⟨?_, List.Pairwise.nil, rfl⟩
    intro p
    refine iff_of_false List.not_mem_nil ?_
    rintro ⟨before, after, same, _⟩
    exact absurd same (by simp [accepted])
  have reading := readLines_reading start (eachLine t).zipIdx
  rw [List.nil_append] at reading
  obtain ⟨sorted, done, perm, order⟩ := sortPackages_spec reading.distinct
  rw [Catalog.parse, done]
  refine ⟨_, _, rfl, ⟨order, ?_, ?_, ?_⟩, fun p _ list => urlOf_below_iff list p.path⟩
  · intro p
    exact perm.mem_iff.trans (reading.first p)
  · have lines : ((eachLine t).zipIdx.filter fun l => counts l.1).length =
        ((eachLine t).filter counts).length := by
      rw [← List.countP_eq_length_filter, ← List.countP_eq_length_filter]
      have both := List.countP_map (p := counts) (f := Prod.fst) (l := (eachLine t).zipIdx)
      rw [List.zipIdx_map_fst] at both
      exact both.symm
    rw [← lines, ← reading.others, perm.length_eq]
  · intro p member
    exact (accepted_sound (first_mem ((reading.first p).mp (perm.mem_iff.mp member)))).1

/-- A list of one line. -/
def oneLine : Text := List.replicate 64 48 ++ text "  ..x/tnt.elf\n"

def longList : Text := text "https://cdn.vxn.dev/" ++ List.replicate 168 97 ++ text "/s"

/-- Of the path `..x/tnt.elf` the URL has only `..`. -/
theorem cut_path_climbs :
    ¬∀ t c good list, Catalog.parse (fun _ => true) t = some (c, good) → list.length < urlCap →
      ∀ p ∈ c.packages, Below (directory list) (urlOf list p.path urlCap) := by
  intro always
  have paths : ((Catalog.parse (fun _ => true) oneLine).map fun r => r.1.packages.map Package.path) =
      some [text "..x/tnt.elf"] := by decide
  cases read : Catalog.parse (fun _ => true) oneLine with
  | none =>
      rw [read] at paths
      cases paths
  | some result =>
      obtain ⟨c, good⟩ := result
      rw [read, Option.map_some, Option.some.injEq] at paths
      obtain ⟨p, member, path⟩ : ∃ p ∈ c.packages, p.path = text "..x/tnt.elf" := by
        rw [← List.mem_map, paths]
        exact List.mem_singleton.mpr rfl
      have below := (urlOf_below_iff longList p.path).mp
        (always oneLine c good longList read (by decide +kernel) p member)
      have long : (directory longList).length = 188 := by decide +kernel
      have climbs : text ".." ∈ ((text "..x/tnt.elf").take 2).splitOn 47 := by decide
      rw [path, long] at below
      exact below.2 climbs

end R2Apps.JugCatalog
