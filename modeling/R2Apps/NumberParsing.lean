import Mathlib.Data.Nat.Digits.Defs

/-! `parse_uint` and `parse_int` of `libc++r2/src/string.cpp`. The loop takes a product
that wrapped for one that did not when it is not below the value before it; numerals of
2^64 and more are read as their value modulo 2^64 whenever every one of their steps is
such. Numbers of 64 bits are kept as the numbers they stand for. -/
namespace R2Apps.NumberParsing

abbrev Text := List UInt8

section Code

/-- The blanks that `string_view::trim` takes away. -/
def isSpace (c : UInt8) : Bool := c == 32 || c == 9 || c == 13 || c == 10 || c == 11 || c == 12

def trim (t : Text) : Text := ((t.dropWhile isSpace).reverse.dropWhile isSpace).reverse

/-- `none` is the -1 of the source. -/
def digitValue (c : UInt8) (base : Nat) : Option Nat :=
  let value :=
    if 48 ≤ c ∧ c ≤ 57 then some (c.toNat - 48)
    else if 97 ≤ c ∧ c ≤ 122 then some (c.toNat - 97 + 10)
    else if 65 ≤ c ∧ c ≤ 90 then some (c.toNat - 65 + 10)
    else none
  value.filter (· < base)

/-- The text without its `0x`, when the base says hexadecimal. -/
def withoutMark (base : Nat) (text : Text) : Text :=
  match text with
  | zero :: x :: rest =>
      if base = 16 ∧ rest ≠ [] ∧ zero = 48 ∧ (x = 120 ∨ x = 88) then rest else text
  | _ => text

def digitLoop (base : Nat) : Text → Nat → Option Nat
  | [], value => some value
  | c :: rest, value =>
      match digitValue c base with
      | none => none
      | some digit =>
          let next := (value * base + digit) % 2 ^ 64
          if next < value then none else digitLoop base rest next

/-- What is returned, and `out` afterwards. -/
def parseUint (text : Text) (out base : Nat) : Bool × Nat :=
  let text := trim text
  if text = [] ∨ base < 2 ∨ base > 36 then (false, out)
  else match digitLoop base (withoutMark base text) 0 with
    | none => (false, out)
    | some value => (true, value)

/-- The magnitude that was read, with its sign put on. -/
def withSign (negative : Bool) (read : Bool × Nat) (out : Int) : Bool × Int :=
  if read.1 = false then (false, out)
  else if negative then
    if read.2 > 2 ^ 63 then (false, out) else (true, -read.2)
  else if read.2 > 2 ^ 63 - 1 then (false, out)
  else (true, read.2)

def parseInt (text : Text) (out : Int) (base : Nat) : Bool × Int :=
  match trim text with
  | [] => (false, out)
  | c :: rest =>
      let negative := decide (c = 45)
      let text := if c = 45 ∨ c = 43 then rest else c :: rest
      withSign negative (parseUint text 0 base) out

end Code

section Meaning

/-- The text is the digits, one or more. -/
structure Spells (base : Nat) (text : Text) (digits : List Nat) : Prop where
  some_ : digits ≠ []
  each : text.map (digitValue · base) = digits.map some

/-- The digits of a numeral, in base 16 perhaps after `0x`. -/
inductive Numeral (base : Nat) (text : Text) (digits : List Nat) : Prop where
  | plain (spells : Spells base text digits)
  | marked (x : UInt8) (rest : Text) (hexadecimal : base = 16) (starts : text = 48 :: x :: rest)
      (mark : x = 120 ∨ x = 88) (spells : Spells base rest digits)

/-- Without bound, the first digit the highest. -/
def value (base : Nat) (digits : List Nat) : Nat := Nat.ofDigits base digits.reverse

/-- What 64 bits keep of it. -/
def wrapped (base : Nat) (digits : List Nat) : Nat := value base digits % 2 ^ 64

/-- No step of the loop is seen to overflow. -/
def Rising (base : Nat) (digits : List Nat) : Prop :=
  ∀ k < digits.length, wrapped base (digits.take k) ≤ wrapped base (digits.take (k + 1))

/-- A sign, or none, and what comes after it. -/
inductive Signed : Text → Bool → Text → Prop where
  | minus (rest : Text) : Signed (45 :: rest) true rest
  | plus (rest : Text) : Signed (43 :: rest) false rest
  | none_ (c : UInt8) (rest : Text) (digit : c ≠ 45 ∧ c ≠ 43) : Signed (c :: rest) false (c :: rest)

def signedValue (negative : Bool) (magnitude : Nat) : Int := if negative then -magnitude else magnitude

def InRange (n : Int) : Prop := -2 ^ 63 ≤ n ∧ n < 2 ^ 63

instance (n : Int) : Decidable (InRange n) := inferInstanceAs (Decidable (_ ∧ _))

/-- `parse_uint` is exact on a text. -/
structure ExactUint (text : Text) (out base : Nat) : Prop where
  accepted : (parseUint text out base).1 = true ↔
    ∃ digits, Numeral base (trim text) digits ∧ value base digits < 2 ^ 64
  read : ∀ digits, Numeral base (trim text) digits → value base digits < 2 ^ 64 →
    (parseUint text out base).2 = value base digits
  untouched : (parseUint text out base).1 = false → (parseUint text out base).2 = out

/-- `parse_int` is. -/
structure ExactInt (text : Text) (out : Int) (base : Nat) : Prop where
  accepted : (parseInt text out base).1 = true ↔
    ∃ negative rest digits, Signed (trim text) negative rest ∧ Numeral base rest digits ∧
      InRange (signedValue negative (value base digits))
  read : ∀ negative rest digits, Signed (trim text) negative rest → Numeral base rest digits →
    InRange (signedValue negative (value base digits)) →
    (parseInt text out base).2 = signedValue negative (value base digits)
  untouched : (parseInt text out base).1 = false → (parseInt text out base).2 = out

/-- A numeral that is too large, and no step of the loop shows it. -/
def Unnoticed (text : Text) (base : Nat) : Prop :=
  ∃ digits, Numeral base (trim text) digits ∧ 2 ^ 64 ≤ value base digits ∧ Rising base digits

/-- Such a numeral whose wrapped value is in range, or blanks after the sign of one that is read. -/
def Misread (text : Text) (base : Nat) : Prop :=
  ∃ negative rest digits, Signed (trim text) negative rest ∧ Numeral base (trim rest) digits ∧
    Rising base digits ∧ InRange (signedValue negative (wrapped base digits)) ∧
    (2 ^ 64 ≤ value base digits ∨ trim rest ≠ rest)

end Meaning

section Loop
variable {base : Nat}

theorem value_snoc (digits : List Nat) (digit : Nat) :
    value base (digits ++ [digit]) = value base digits * base + digit := by
  rw [value, value, List.reverse_append, List.reverse_singleton, List.singleton_append, Nat.ofDigits_cons,
    Nat.add_comm, Nat.mul_comm]

theorem wrapped_snoc (digits : List Nat) (digit : Nat) :
    wrapped base (digits ++ [digit]) = (wrapped base digits * base + digit) % 2 ^ 64 := by
  rw [wrapped, value_snoc, wrapped, Nat.add_mod, Nat.add_mod (value base digits % 2 ^ 64 * base),
    Nat.mod_mul_mod]

theorem digitLoop_some (text : Text) (before : List Nat) (w : Nat) :
    digitLoop base text (wrapped base before) = some w ↔
      ∃ digits, text.map (digitValue · base) = digits.map some ∧
        (∀ k < digits.length, wrapped base (before ++ digits.take k) ≤
          wrapped base (before ++ digits.take (k + 1))) ∧
        w = wrapped base (before ++ digits) := by
  induction text generalizing before with
  | nil =>
      constructor
      · intro ended
        refine ⟨[], rfl, fun k none_ => absurd none_ (Nat.not_lt_zero k), ?_⟩
        rw [List.append_nil]
        exact (Option.some.inj ended).symm
      · rintro ⟨digits, spelled, _, rfl⟩
        have nothing : digits = [] := List.map_eq_nil_iff.mp spelled.symm
        rw [nothing, List.append_nil]
        rfl
  | cons c rest ih =>
      have turn : digitLoop base (c :: rest) (wrapped base before) =
          match digitValue c base with
          | none => none
          | some digit =>
              if wrapped base (before ++ [digit]) < wrapped base before then none
              else digitLoop base rest (wrapped base (before ++ [digit])) := by
        simp only [wrapped_snoc]
        rfl
      constructor
      · intro ended
        cases first : digitValue c base with
        | none =>
            rw [turn, first] at ended
            cases ended
        | some digit =>
            rw [turn, first] at ended
            dsimp only at ended
            by_cases falls : wrapped base (before ++ [digit]) < wrapped base before
            · rw [if_pos falls] at ended
              cases ended
            · rw [if_neg falls, ih] at ended
              obtain ⟨digits, spelled, rises, last⟩ := ended
              refine ⟨digit :: digits, ?_, ?_, ?_⟩
              · rw [List.map_cons, List.map_cons, first, spelled]
              · intro k within
                cases k with
                | zero => simpa using falls
                | succ k => simpa using rises k (Nat.lt_of_succ_lt_succ within)
              · simpa using last
      · rintro ⟨digits, spelled, rises, last⟩
        cases digits with
        | nil => cases spelled
        | cons digit digits =>
            rw [List.map_cons, List.map_cons, List.cons.injEq] at spelled
            have first := rises 0 (Nat.zero_lt_succ _)
            rw [turn, spelled.1]
            dsimp only
            rw [if_neg (by simpa using first), ih]
            refine ⟨digits, spelled.2, ?_, ?_⟩
            · intro k within
              simpa using rises (k + 1) (Nat.succ_lt_succ within)
            · simpa using last

theorem value_append (positive : 0 < base) (digits more : List Nat) :
    value base digits ≤ value base (digits ++ more) := by
  induction more generalizing digits with
  | nil => rw [List.append_nil]
  | cons digit more ih =>
      have next := ih (digits ++ [digit])
      rw [value_snoc, List.append_assoc, List.singleton_append] at next
      exact Nat.le_trans (Nat.le_trans (Nat.le_mul_of_pos_right _ positive) (Nat.le_add_right _ _)) next

theorem rising_small (positive : 0 < base) {digits : List Nat} (small : value base digits < 2 ^ 64) :
    Rising base digits := by
  have whole (k : Nat) : wrapped base (digits.take k) = value base (digits.take k) := by
    have below := value_append positive (digits.take k) (digits.drop k)
    rw [List.take_append_drop] at below
    exact Nat.mod_eq_of_lt (Nat.lt_of_le_of_lt below small)
  intro k within
  rw [whole, whole, List.take_add_one, List.getElem?_eq_getElem within]
  exact value_append positive _ _

end Loop

section Unsigned
variable {text : Text} {base : Nat}

/-- The text starts with the mark, and something comes after it. -/
def Marked (base : Nat) (text : Text) (x : UInt8) (rest : Text) : Prop :=
  base = 16 ∧ text = 48 :: x :: rest ∧ (x = 120 ∨ x = 88) ∧ rest ≠ []

theorem withoutMark_marked {x : UInt8} {rest : Text} (marked : Marked base text x rest) :
    withoutMark base text = rest := by
  obtain ⟨hexadecimal, starts, mark, some_⟩ := marked
  rw [starts, withoutMark, if_pos ⟨hexadecimal, some_, rfl, mark⟩]

theorem withoutMark_plain (plain : ∀ x rest, ¬Marked base text x rest) : withoutMark base text = text := by
  unfold withoutMark
  split
  · next zero x rest =>
      rw [if_neg]
      rintro ⟨hexadecimal, some_, rfl, mark⟩
      exact plain x rest ⟨hexadecimal, rfl, mark, some_⟩
  · rfl

theorem mark_no_digit {x : UInt8} (mark : x = 120 ∨ x = 88) : digitValue x 16 = none := by
  cases mark with
  | inl small => rw [small]; decide
  | inr capital => rw [capital]; decide

theorem numeral_iff {digits : List Nat} : Numeral base text digits ↔
    Spells base (withoutMark base text) digits := by
  by_cases there : ∃ x rest, Marked base text x rest
  · obtain ⟨x, rest, marked⟩ := there
    rw [withoutMark_marked marked]
    obtain ⟨hexadecimal, starts, mark, some_⟩ := marked
    constructor
    · intro numeral
      cases numeral with
      | plain spells =>
          have each := spells.each
          rw [starts, hexadecimal] at each
          cases digits with
          | nil => cases each
          | cons first digits =>
              cases digits with
              | nil => simp at each
              | cons second digits => simp [mark_no_digit mark] at each
      | marked x' rest' _ starts' _ spells =>
          rw [starts, List.cons.injEq, List.cons.injEq] at starts'
          rw [starts'.2.2]
          exact spells
    · exact fun spells => .marked x rest hexadecimal starts mark spells
  · rw [withoutMark_plain fun x rest marked => there ⟨x, rest, marked⟩]
    constructor
    · intro numeral
      cases numeral with
      | plain spells => exact spells
      | marked x rest hexadecimal starts mark spells =>
          have some_ : rest ≠ [] := by
            rintro rfl
            exact spells.some_ (List.map_eq_nil_iff.mp spells.each.symm)
          exact absurd ⟨x, rest, hexadecimal, starts, mark, some_⟩ there
    · exact .plain

theorem numeral_unique {digits digits' : List Nat} (one : Numeral base text digits)
    (other : Numeral base text digits') :
    digits = digits' := by
  have same := (numeral_iff.mp one).each.symm.trans (numeral_iff.mp other).each
  exact (List.map_inj_right fun _ _ => Option.some.inj).mp same

theorem withoutMark_some (some_ : text ≠ []) : withoutMark base text ≠ [] := by
  unfold withoutMark
  split
  · split
    · next marked => exact marked.2.1
    · exact some_
  · exact some_

theorem numeral_some {digits : List Nat} (numeral : Numeral base text digits) : text ≠ [] := by
  rintro rfl
  have spells := numeral_iff.mp numeral
  exact spells.some_ (List.map_eq_nil_iff.mp spells.each.symm)

theorem parseUint_cases (text : Text) (out : Nat) (low : 2 ≤ base) (high : base ≤ 36) :
    (∃ digits, Numeral base (trim text) digits ∧ Rising base digits ∧
      parseUint text out base = (true, wrapped base digits)) ∨
    (∀ digits, Numeral base (trim text) digits → ¬Rising base digits) ∧
      parseUint text out base = (false, out) := by
  unfold parseUint
  dsimp only
  have start : (0 : Nat) = wrapped base [] := rfl
  by_cases empty : trim text = []
  · right
    exact ⟨fun digits numeral => absurd empty (numeral_some numeral), if_pos (Or.inl empty)⟩
  · have valid : ¬(trim text = [] ∨ base < 2 ∨ base > 36) := by
      simp only [empty, false_or]
      omega
    rw [if_neg valid, start]
    cases ended : digitLoop base (withoutMark base (trim text)) (wrapped base []) with
    | none =>
        right
        refine ⟨fun digits numeral rising => ?_, rfl⟩
        have goes := (digitLoop_some _ [] _).mpr ⟨digits, (numeral_iff.mp numeral).each, rising, rfl⟩
        cases ended.symm.trans goes
    | some w =>
        obtain ⟨digits, spelled, rising, rfl⟩ := (digitLoop_some _ [] w).mp ended
        left
        refine ⟨digits, numeral_iff.mpr ⟨?_, spelled⟩, rising, rfl⟩
        rintro rfl
        exact withoutMark_some empty (List.map_eq_nil_iff.mp spelled)

theorem wrapped_whole {digits : List Nat} (small : value base digits < 2 ^ 64) :
    wrapped base digits = value base digits := Nat.mod_eq_of_lt small

theorem parseUint_reads (out : Nat) (low : 2 ≤ base) (high : base ≤ 36) {digits : List Nat}
    (numeral : Numeral base (trim text) digits) (small : value base digits < 2 ^ 64) :
    parseUint text out base = (true, value base digits) := by
  have rising := rising_small (Nat.lt_of_lt_of_le (by decide) low) small
  cases parseUint_cases text out low high with
  | inl gone =>
      obtain ⟨digits', numeral', _, result⟩ := gone
      rw [result, numeral_unique numeral' numeral, wrapped_whole small]
  | inr stuck => exact absurd rising (stuck.1 digits numeral)

theorem exactUint_iff (text : Text) (out : Nat) (low : 2 ≤ base) (high : base ≤ 36) :
    ExactUint text out base ↔ ¬Unnoticed text base := by
  have positive : 0 < base := Nat.lt_of_lt_of_le (by decide) low
  constructor
  · rintro exact_ ⟨digits, numeral, large, rising⟩
    have read : (parseUint text out base).1 = true := by
      cases parseUint_cases text out low high with
      | inl gone =>
          obtain ⟨_, _, _, result⟩ := gone
          rw [result]
      | inr stuck => exact absurd rising (stuck.1 digits numeral)
    obtain ⟨digits', numeral', small⟩ := exact_.accepted.mp read
    rw [numeral_unique numeral' numeral] at small
    exact Nat.not_lt.mpr large small
  · intro noticed
    have whole {digits : List Nat} (numeral : Numeral base (trim text) digits) (rising : Rising base digits) :
        value base digits < 2 ^ 64 := Nat.lt_of_not_le fun large => noticed ⟨digits, numeral, large, rising⟩
    cases parseUint_cases text out low high with
    | inl gone =>
        obtain ⟨digits, numeral, rising, result⟩ := gone
        rw [wrapped_whole (whole numeral rising)] at result
        constructor
        · rw [result]
          exact iff_of_true rfl ⟨digits, numeral, whole numeral rising⟩
        · intro digits' numeral' _
          rw [result, numeral_unique numeral' numeral]
        · intro failed
          rw [result] at failed
          cases failed
    | inr stuck =>
        obtain ⟨none_, result⟩ := stuck
        constructor
        · rw [result]
          apply iff_of_false Bool.false_ne_true
          rintro ⟨digits, numeral, small⟩
          exact none_ digits numeral (rising_small positive small)
        · intro digits numeral small
          exact absurd (rising_small positive small) (none_ digits numeral)
        · intro _
          rw [result]

end Unsigned

section SignedNumbers
variable {text : Text} {base : Nat}

theorem signed_unique {negative negative' : Bool} {rest rest' : Text} (one : Signed text negative rest)
    (other : Signed text negative' rest') : negative = negative' ∧ rest = rest' := by
  cases one with
  | minus =>
      cases other with
      | minus => exact ⟨rfl, rfl⟩
      | none_ _ _ digit => exact absurd rfl digit.1
  | plus =>
      cases other with
      | plus => exact ⟨rfl, rfl⟩
      | none_ _ _ digit => exact absurd rfl digit.2
  | none_ _ _ digit =>
      cases other with
      | minus => exact absurd rfl digit.1
      | plus => exact absurd rfl digit.2
      | none_ => exact ⟨rfl, rfl⟩

theorem inRange_iff (negative : Bool) (magnitude : Nat) :
    InRange (signedValue negative magnitude) ↔
      if negative then magnitude ≤ 2 ^ 63 else magnitude ≤ 2 ^ 63 - 1 := by
  unfold InRange signedValue
  cases negative <;> simp <;> omega

theorem withSign_eq (negative : Bool) (read : Bool × Nat) (out : Int) :
    withSign negative read out =
      if read.1 = true ∧ InRange (signedValue negative read.2) then (true, signedValue negative read.2)
      else (false, out) := by
  obtain ⟨done, magnitude⟩ := read
  simp only [inRange_iff]
  cases done with
  | false => simp [withSign]
  | true =>
      cases negative <;> simp only [withSign, signedValue, true_and, if_true, Bool.false_eq_true, if_false,
        Bool.true_eq_false, ← Nat.not_lt, ite_not, gt_iff_lt]

theorem parseInt_signed {negative : Bool} {rest : Text} (signed : Signed (trim text) negative rest)
    (out : Int) :
    parseInt text out base = withSign negative (parseUint rest 0 base) out := by
  unfold parseInt
  generalize trim text = trimmed at signed
  cases signed with
  | minus rest => rfl
  | plus rest => rfl
  | none_ c rest digit =>
      dsimp only
      rw [decide_eq_false digit.1, if_neg (not_or.mpr digit)]

theorem signed_some (some_ : trim text ≠ []) : ∃ negative rest, Signed (trim text) negative rest := by
  cases trimmed : trim text with
  | nil => exact absurd trimmed some_
  | cons c rest =>
      by_cases minus : c = 45
      · exact ⟨true, rest, minus ▸ .minus rest⟩
      · by_cases plus : c = 43
        · exact ⟨false, rest, plus ▸ .plus rest⟩
        · exact ⟨false, c :: rest, .none_ c rest ⟨minus, plus⟩⟩

theorem digit_solid {c : UInt8} {digit : Nat} (found : digitValue c base = some digit) :
    isSpace c = false := by
  rw [Bool.eq_false_iff]
  intro space
  simp only [isSpace, Bool.or_eq_true, beq_iff_eq] at space
  rcases space with ((((rfl | rfl) | rfl) | rfl) | rfl) | rfl <;> simp [digitValue] at found

theorem spelled_solid {digits : List Nat} (spells : Spells base text digits) :
    ∀ c ∈ text, isSpace c = false := by
  intro c member
  have found : digitValue c base ∈ digits.map some := spells.each ▸ List.mem_map_of_mem member
  obtain ⟨digit, _, same⟩ := List.mem_map.mp found
  exact digit_solid same.symm

theorem dropWhile_solid (solid : ∀ c ∈ text, isSpace c = false) : text.dropWhile isSpace = text := by
  cases text with
  | nil => rfl
  | cons c rest =>
    rw [List.dropWhile_cons, if_neg (by rw [solid c List.mem_cons_self]; exact Bool.false_ne_true)]

theorem trim_solid (solid : ∀ c ∈ text, isSpace c = false) : trim text = text := by
  rw [trim, dropWhile_solid solid, dropWhile_solid fun c member => solid c (List.mem_reverse.mp member),
    List.reverse_reverse]

theorem numeral_trim {digits : List Nat} (numeral : Numeral base text digits) : trim text = text := by
  have solid : ∀ c ∈ text, isSpace c = false := by
    cases numeral with
    | plain spells => exact spelled_solid spells
    | marked x rest _ starts mark spells =>
        have letter : isSpace x = false := by
          rcases mark with rfl | rfl <;> rfl
        intro c member
        rw [starts, List.mem_cons, List.mem_cons] at member
        rcases member with rfl | rfl | later
        · rfl
        · exact letter
        · exact spelled_solid spells c later
  exact trim_solid solid

theorem parseInt_cases {negative : Bool} {rest : Text} (signed : Signed (trim text) negative rest) (out : Int)
    (low : 2 ≤ base) (high : base ≤ 36) :
    (∃ digits, Numeral base (trim rest) digits ∧ Rising base digits ∧
      InRange (signedValue negative (wrapped base digits)) ∧
      parseInt text out base = (true, signedValue negative (wrapped base digits))) ∨
    (∀ digits, Numeral base (trim rest) digits → Rising base digits →
      ¬InRange (signedValue negative (wrapped base digits))) ∧ parseInt text out base = (false, out) := by
  rw [parseInt_signed signed, withSign_eq]
  cases parseUint_cases rest 0 low high with
  | inl gone =>
      obtain ⟨digits, numeral, rising, result⟩ := gone
      by_cases fits : InRange (signedValue negative (wrapped base digits))
      · left
        refine ⟨digits, numeral, rising, fits, ?_⟩
        rw [result, if_pos ⟨rfl, fits⟩]
      · right
        refine ⟨fun digits' numeral' _ => numeral_unique numeral numeral' ▸ fits, ?_⟩
        rw [result, if_neg fun both => fits both.2]
  | inr stuck =>
      obtain ⟨none_, result⟩ := stuck
      right
      refine ⟨fun digits numeral rising => absurd rising (none_ digits numeral), ?_⟩
      rw [result, if_neg fun both => Bool.false_ne_true both.1]

theorem inRange_small {negative : Bool} {magnitude : Nat} (fits : InRange (signedValue negative magnitude)) :
    magnitude < 2 ^ 64 := by
  rw [inRange_iff] at fits
  split at fits <;> omega

theorem parseInt_reads (out : Int) (low : 2 ≤ base) (high : base ≤ 36) {negative : Bool} {rest : Text}
    {digits : List Nat} (signed : Signed (trim text) negative rest) (numeral : Numeral base rest digits)
    (fits : InRange (signedValue negative (value base digits))) :
    parseInt text out base = (true, signedValue negative (value base digits)) := by
  have read : parseUint rest 0 base = (true, value base digits) :=
    parseUint_reads 0 low high (by rwa [numeral_trim numeral]) (inRange_small fits)
  rw [parseInt_signed signed, withSign_eq, read, if_pos ⟨rfl, fits⟩]

theorem exactInt_iff (text : Text) (out : Int) (low : 2 ≤ base) (high : base ≤ 36) :
    ExactInt text out base ↔ ¬Misread text base := by
  have positive : 0 < base := Nat.lt_of_lt_of_le (by decide) low
  constructor
  · rintro exact_ ⟨negative, rest, digits, signed, numeral, rising, fits, wrong⟩
    have read : (parseInt text out base).1 = true := by
      cases parseInt_cases signed out low high with
      | inl gone =>
          obtain ⟨_, _, _, _, result⟩ := gone
          rw [result]
      | inr stuck => exact absurd fits (stuck.1 digits numeral rising)
    obtain ⟨negative', rest', digits', signed', numeral', fits'⟩ := exact_.accepted.mp read
    obtain ⟨rfl, rfl⟩ := signed_unique signed signed'
    have trimmed := numeral_trim numeral'
    rw [trimmed] at numeral wrong
    have same := numeral_unique numeral numeral'
    cases wrong with
    | inl large =>
        rw [same] at large
        exact Nat.not_lt.mpr large (inRange_small fits')
    | inr blank => exact blank rfl
  · intro right
    by_cases empty : trim text = []
    · have result : parseInt text out base = (false, out) := by
        rw [parseInt, empty]
      constructor
      · rw [result]
        apply iff_of_false Bool.false_ne_true
        rintro ⟨_, _, _, signed, _⟩
        rw [empty] at signed
        cases signed
      · intro _ _ _ signed
        rw [empty] at signed
        cases signed
      · intro _
        rw [result]
    · obtain ⟨negative, rest, signed⟩ := signed_some empty
      cases parseInt_cases signed out low high with
      | inl gone =>
          obtain ⟨digits, numeral, rising, fits, result⟩ := gone
          -- the numeral is small and stands right behind its sign, or it would be misread
          have small : value base digits < 2 ^ 64 := Nat.lt_of_not_le fun large =>
            right ⟨negative, rest, digits, signed, numeral, rising, fits, Or.inl large⟩
          have close : trim rest = rest := by
            by_contra blank
            exact right ⟨negative, rest, digits, signed, numeral, rising, fits, Or.inr blank⟩
          rw [wrapped_whole small] at fits result
          rw [close] at numeral
          constructor
          · rw [result]
            exact iff_of_true rfl ⟨negative, rest, digits, signed, numeral, fits⟩
          · intro negative' rest' digits' signed' numeral' _
            obtain ⟨rfl, rfl⟩ := signed_unique signed signed'
            rw [result, numeral_unique numeral numeral']
          · intro failed
            rw [result] at failed
            cases failed
      | inr stuck =>
          obtain ⟨none_, result⟩ := stuck
          have out_of_range : ∀ negative' rest' digits, Signed (trim text) negative' rest' →
            Numeral base rest' digits →
              ¬InRange (signedValue negative' (value base digits)) := by
            intro negative' rest' digits signed' numeral fits
            obtain ⟨rfl, rfl⟩ := signed_unique signed signed'
            have small := inRange_small fits
            rw [← wrapped_whole small] at fits
            exact none_ digits (by rwa [numeral_trim numeral]) (rising_small positive small) fits
          constructor
          · rw [result]
            apply iff_of_false Bool.false_ne_true
            rintro ⟨negative', rest', digits, signed', numeral, fits⟩
            exact out_of_range negative' rest' digits signed' numeral fits
          · intro negative' rest' digits signed' numeral fits
            exact absurd fits (out_of_range negative' rest' digits signed' numeral)
          · intro _
            rw [result]

end SignedNumbers

/-- Exactly when the numbers are read exactly, for a base of the range. -/
theorem numbers_exact_iff (text : Text) (out : Nat) (signedOut : Int) (base : Nat) (low : 2 ≤ base)
    (high : base ≤ 36) :
    (ExactUint text out base ↔ ¬Unnoticed text base) ∧ (ExactInt text signedOut base ↔ ¬Misread text base) :=
  ⟨exactUint_iff text out low high, exactInt_iff text signedOut low high⟩

theorem decimal_exact_iff :
    (ExactUint [52, 50] 0 10 ↔ ¬Unnoticed [52, 50] 10) ∧ (ExactInt [52, 50] 0 10 ↔ ¬Misread [52, 50] 10) :=
  numbers_exact_iff [52, 50] 0 0 10 (by decide) (by decide)

/-- Thirty trillion million: a 3 and nineteen zeros. -/
def thirtyTrillionMillion : Text := 51 :: List.replicate 19 48

/-- It wraps to more than the value before the last digit. -/
theorem wrap_unnoticed :
    parseUint thirtyTrillionMillion 0 10 = (true, 30000000000000000000 - 2 ^ 64) ∧
      ¬ExactUint thirtyTrillionMillion 0 10 := by
  refine ⟨by decide, fun exact_ => ?_⟩
  have unnoticed : Unnoticed thirtyTrillionMillion 10 := by
    refine ⟨3 :: List.replicate 19 0, .plain ⟨by decide, by decide⟩, by decide, ?_⟩
    unfold Rising
    decide
  exact (exactUint_iff _ 0 (by decide) (by decide)).mp exact_ unnoticed

end R2Apps.NumberParsing
