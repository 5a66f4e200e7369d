import Mathlib.Data.Nat.Digits.Lemmas
import R2Apps.NumberParsing

/-! `format_uint` and `format_int` of `libc++r2/include/r2/io.hpp` with `to_string` of
`libc++r2/src/string.cpp`: digits put into a string one at a time, and read back by the
functions of `NumberParsing`. A string grows by allocating, and which of its allocations
are granted is a parameter; one that is refused costs the character that asked for it. -/
namespace R2Apps.NumberFormatting
open NumberParsing

section Code

def digitsMax : Nat := 64

/-- `digits[d]`, of the lower or the upper letters. -/
def digitChar (upper : Bool) (d : Nat) : UInt8 :=
  if d < 10 then 48 + UInt8.ofNat d else (if upper then 55 else 87) + UInt8.ofNat d

/-- The digits that `tmp` gets, the lowest first, with `room` places left in it. -/
def scratch (upper : Bool) (base : Nat) : Nat → Nat → Text
  | 0, _ => []
  | room + 1, value =>
      digitChar upper (value % base) ::
        if value / base = 0 then [] else scratch upper base room (value / base)

/-- The characters that are put, in order. -/
def emitDigits (value base width : Nat) (fill : UInt8) (upper negative : Bool) : Text :=
  let base := if base < 2 ∨ base > 16 then 10 else base
  let tmp := scratch upper base digitsMax value
  let len := tmp.length + if negative then 1 else 0
  let sign : Text := if negative then [45] else []
  if fill = 48 then sign ++ List.replicate (width - len) 48 ++ tmp.reverse
  else List.replicate (width - len) fill ++ sign ++ tmp.reverse

def formatUint (value base width : Nat) (fill : UInt8) (upper : Bool) : Text :=
  emitDigits value base width fill upper false

/-- The magnitude of the least number is one that 64 bits hold. -/
def formatInt (value : Int) (base width : Nat) (fill : UInt8) : Text :=
  let negative := decide (value < 0)
  let magnitude := if negative then (-(value + 1)).toNat + 1 else value.toNat
  emitDigits magnitude base width fill false negative

/-- An `r2::string`, and the number of times it has asked for memory. -/
structure Str where
  chars : Text := []
  cap : Nat := 23
  failed : Bool := false
  asked : Nat := 0

variable (grants : Nat → Nat → Bool)

/-- `grants n bytes`: whether the `n`-th allocation, of so many bytes, succeeds. -/
def Str.reserve (s : Str) (newCap : Nat) : Str × Bool :=
  if newCap ≤ s.cap then (s, true)
  else if grants s.asked ((newCap + 1) % 2 ^ 64) then ({ s with cap := newCap, asked := s.asked + 1 }, true)
  else ({ s with failed := true, asked := s.asked + 1 }, false)

/-- `StringWriter::put`: one character is appended, if there is room for it. -/
def Str.put (s : Str) (c : UInt8) : Str :=
  let needed := (s.chars.length + 1) % 2 ^ 64
  if needed > s.cap then
    let target := s.cap * 2 % 2 ^ 64
    let grown := s.reserve grants (if target < needed then needed else target)
    if grown.2 then { grown.1 with chars := (s.chars ++ [c]).take needed } else grown.1
  else { s with chars := (s.chars ++ [c]).take needed }

def toStringUint (value base width : Nat) (fill : UInt8) : Str :=
  (formatUint value base width fill false).foldl (Str.put grants) {}

def toStringInt (value : Int) (base width : Nat) (fill : UInt8) : Str :=
  (formatInt value base width fill).foldl (Str.put grants) {}

end Code

section Strings
variable {grants : Nat → Nat → Bool}

theorem reserve_cases (grants : Nat → Nat → Bool) (s : Str) (newCap : Nat) :
    (s.reserve grants newCap).2 = true ∧ (s.reserve grants newCap).1.failed = s.failed ∨
      (s.reserve grants newCap).2 = false ∧ (s.reserve grants newCap).1.failed = true ∧
        grants s.asked ((newCap + 1) % 2 ^ 64) = false := by
  unfold Str.reserve
  by_cases fits : newCap ≤ s.cap
  · left
    rw [if_pos fits]
    exact ⟨rfl, rfl⟩
  · rw [if_neg fits]
    cases granted : grants s.asked ((newCap + 1) % 2 ^ 64) with
    | true => exact Or.inl ⟨rfl, rfl⟩
    | false => exact Or.inr ⟨rfl, rfl, rfl⟩

theorem put_cases (grants : Nat → Nat → Bool) (s : Str) (c : UInt8) (short : s.chars.length + 1 < 2 ^ 64) :
    (s.put grants c).chars = s.chars ++ [c] ∧ (s.put grants c).failed = s.failed ∨
      (s.put grants c).failed = true ∧ ∃ n bytes, grants n bytes = false := by
  have needed : (s.chars.length + 1) % 2 ^ 64 = s.chars.length + 1 := Nat.mod_eq_of_lt short
  have whole : (s.chars ++ [c]).take (s.chars.length + 1) = s.chars ++ [c] :=
    List.take_of_length_le (by rw [List.length_append, List.length_singleton])
  unfold Str.put
  dsimp only
  rw [needed, whole]
  by_cases full : s.chars.length + 1 > s.cap
  · rw [if_pos full]
    generalize (if s.cap * 2 % 2 ^ 64 < s.chars.length + 1 then s.chars.length + 1
      else s.cap * 2 % 2 ^ 64) = target
    cases reserve_cases grants s target with
    | inl grown =>
        left
        rw [if_pos grown.1]
        exact ⟨rfl, grown.2⟩
    | inr refused =>
        right
        rw [if_neg (by rw [refused.1]; exact Bool.false_ne_true)]
        exact ⟨refused.2.1, _, _, refused.2.2⟩
  · left
    rw [if_neg full]
    exact ⟨rfl, rfl⟩

theorem put_failed {s : Str} {c : UInt8} (failed : s.failed = true) : (s.put grants c).failed = true := by
  unfold Str.put
  dsimp only
  split
  · generalize (if s.cap * 2 % 2 ^ 64 < _ then _ else s.cap * 2 % 2 ^ 64) = target
    have kept : (s.reserve grants target).1.failed = true := by
      cases reserve_cases grants s target with
      | inl grown => rw [grown.2, failed]
      | inr refused => exact refused.2.1
    split <;> exact kept
  · exact failed

theorem puts_failed (t : Text) {s : Str} (failed : s.failed = true) :
    (t.foldl (Str.put grants) s).failed = true := by
  induction t generalizing s with
  | nil => exact failed
  | cons c rest ih => exact ih (put_failed failed)

theorem puts_cases (grants : Nat → Nat → Bool) (t : Text) (s : Str) (sound : s.failed = false)
    (short : s.chars.length + t.length < 2 ^ 64) :
    (t.foldl (Str.put grants) s).chars = s.chars ++ t ∧ (t.foldl (Str.put grants) s).failed = false ∨
      (t.foldl (Str.put grants) s).failed = true ∧ ∃ n bytes, grants n bytes = false := by
  induction t generalizing s with
  | nil => exact Or.inl ⟨(List.append_nil _).symm, sound⟩
  | cons c rest ih =>
      rw [List.length_cons] at short
      rw [List.foldl_cons]
      cases put_cases grants s c (by omega) with
      | inl appended =>
          obtain ⟨chars, failed⟩ := appended
          have room : (s.put grants c).chars.length + rest.length < 2 ^ 64 := by
            rw [chars, List.length_append, List.length_singleton]
            omega
          have later := ih (s.put grants c) (failed.trans sound) room
          rwa [chars, List.append_assoc, List.singleton_append] at later
      | inr refused => exact Or.inr ⟨puts_failed rest refused.1, refused.2⟩

end Strings

section Digits
variable {base value : Nat}

theorem digitChar_value (low : 2 ≤ base) (high : base ≤ 16) (upper : Bool) {d : Nat} (digit : d < base) :
    digitValue (digitChar upper d) base = some d := by
  have all : ∀ upper : Bool, ∀ d < 16, ∀ base ≤ 16, d < base →
      digitValue (digitChar upper d) base = some d := by
    decide
  exact all upper d (by omega) base high digit

theorem scratch_digits (low : 2 ≤ base) (upper : Bool) (room : Nat) (some_ : 0 < value)
    (small : value < base ^ room) :
    scratch upper base room value = (Nat.digits base value).map (digitChar upper) := by
  induction room generalizing value with
  | zero => rw [Nat.pow_zero] at small; omega
  | succ room ih =>
      rw [Nat.digits_def' (by omega) some_, List.map_cons, scratch]
      by_cases last : value / base = 0
      · rw [if_pos last, last, Nat.digits_zero, List.map_nil]
      · rw [if_neg last, ih (Nat.pos_of_ne_zero last)]
        rw [Nat.pow_succ] at small
        exact Nat.div_lt_of_lt_mul (by rwa [Nat.mul_comm])

theorem scratch_spells (low : 2 ≤ base) (high : base ≤ 16) (upper : Bool) (small : value < 2 ^ 64) :
    ∃ digits, scratch upper base digitsMax value = digits.map (digitChar upper) ∧ digits ≠ [] ∧
      (∀ d ∈ digits, d < base) ∧ Nat.ofDigits base digits = value := by
  by_cases none_ : value = 0
  · refine ⟨[0], ?_, by simp, ?_, ?_⟩
    · rw [none_, digitsMax, scratch, Nat.zero_div, if_pos rfl, Nat.zero_mod]
      rfl
    · intro d member
      rw [List.mem_singleton.mp member]
      omega
    · rw [Nat.ofDigits_singleton, none_]
  · have enough : value < base ^ digitsMax := Nat.lt_of_lt_of_le small (Nat.pow_le_pow_left low 64)
    refine ⟨Nat.digits base value, scratch_digits low upper _ (Nat.pos_of_ne_zero none_) enough, ?_, ?_, ?_⟩
    · exact Nat.digits_ne_nil_iff_ne_zero.mpr none_
    · exact fun d member => Nat.digits_lt_base (by omega) member
    · exact Nat.ofDigits_digits base value

theorem scratch_length (upper : Bool) (base room value : Nat) :
    (scratch upper base room value).length ≤ room := by
  induction room generalizing value with
  | zero => exact Nat.le_refl _
  | succ room ih =>
      rw [scratch, List.length_cons]
      split
      · simp
      · exact Nat.succ_le_succ (ih _)

theorem padded_spells (low : 2 ≤ base) (high : base ≤ 16) (upper : Bool) (zeros : Nat)
    (small : value < 2 ^ 64) :
    ∃ digits, Spells base (List.replicate zeros 48 ++ (scratch upper base digitsMax value).reverse) digits ∧
      NumberParsing.value base digits = value := by
  obtain ⟨digits, same, some_, below, whole⟩ := scratch_spells low high upper small
  refine ⟨List.replicate zeros 0 ++ digits.reverse, ⟨?_, ?_⟩, ?_⟩
  · simp [some_]
  · have zero : digitValue 48 base = some 0 := digitChar_value low high false (by omega : 0 < base)
    have each : digits.map (fun d => digitValue (digitChar upper d) base) = digits.map some :=
      List.map_congr_left fun d member => digitChar_value low high upper (below d member)
    rw [same, List.map_append, List.map_append, List.map_replicate, List.map_replicate, zero,
      List.map_reverse,
      List.map_map, List.map_reverse]
    exact congrArg (fun l => List.replicate zeros (some 0) ++ l.reverse) each
  · rw [NumberParsing.value, List.reverse_append, List.reverse_reverse, List.reverse_replicate,
      Nat.ofDigits_append_replicate_zero, whole]

theorem trim_spaces (n : Nat) (t : Text) : trim (List.replicate n 32 ++ t) = trim t := by
  induction n with
  | zero => rfl
  | succ n ih => exact ih

end Digits

section Layout

theorem emitDigits_eq {base : Nat} (low : 2 ≤ base) (high : base ≤ 16) (value width : Nat) (fill : UInt8)
    (upper negative : Bool) :
    let tmp := scratch upper base digitsMax value
    let sign : Text := if negative then [45] else []
    let gap := width - (tmp.length + sign.length)
    emitDigits value base width fill upper negative =
      if fill = 48 then sign ++ (List.replicate gap 48 ++ tmp.reverse)
      else List.replicate gap fill ++ (sign ++ tmp.reverse) := by
  have kept : ¬(base < 2 ∨ base > 16) := by omega
  simp only [emitDigits, if_neg kept]
  cases negative <;> simp [List.append_assoc]

theorem emitDigits_length {base : Nat} (low : 2 ≤ base) (high : base ≤ 16) (value width : Nat) (fill : UInt8)
    (upper negative : Bool) :
    width ≤ (emitDigits value base width fill upper negative).length ∧
      (emitDigits value base width fill upper negative).length ≤ max width 65 := by
  have tmp := scratch_length upper base digitsMax value
  have sign : (if negative then [(45 : UInt8)] else []).length ≤ 1 := by
    cases negative <;> decide
  rw [emitDigits_eq low high]
  unfold digitsMax at *
  split <;> simp only [List.length_append, List.length_replicate, List.length_reverse] <;> omega

theorem emitDigits_trim {base value : Nat} (low : 2 ≤ base) (high : base ≤ 16) (width : Nat) {fill : UInt8}
    (fills : fill = 48 ∨ fill = 32) (upper negative : Bool) (small : value < 2 ^ 64) :
    ∃ zeros, trim (emitDigits value base width fill upper negative) =
      (if negative then [45] else []) ++
        (List.replicate zeros 48 ++ (scratch upper base digitsMax value).reverse) := by
  have solid (zeros : Nat) : ∀ c ∈ (if negative then [(45 : UInt8)] else []) ++
      (List.replicate zeros 48 ++ (scratch upper base digitsMax value).reverse), isSpace c = false := by
    obtain ⟨digits, spells, _⟩ := padded_spells low high upper zeros small
    intro c member
    rcases List.mem_append.mp member with sign | digit
    · cases negative with
      | false => cases sign
      | true =>
          rw [List.mem_singleton.mp sign]
          rfl
    · exact spelled_solid spells c digit
  rw [emitDigits_eq low high]
  rcases fills with zero | space
  · rw [if_pos zero]
    exact ⟨_, trim_solid (solid _)⟩
  · rw [if_neg (by rw [space]; decide), space, trim_spaces]
    refine ⟨0, ?_⟩
    rw [List.replicate_zero, List.nil_append]
    exact trim_solid (solid 0)

theorem signed_plain {base : Nat} {t : Text} {digits : List Nat} (spells : Spells base t digits) :
    Signed t false t := by
  cases t with
  | nil => exact absurd (List.map_eq_nil_iff.mp spells.each.symm) spells.some_
  | cons c rest =>
      have digit (sign : UInt8) (none_ : digitValue sign base = none) : c ≠ sign := by
        rintro rfl
        have each := spells.each
        cases digits with
        | nil => cases each
        | cons d digits => simp [none_] at each
      exact .none_ c rest ⟨digit 45 rfl, digit 43 rfl⟩

theorem emitDigits_reads {base value : Nat} (low : 2 ≤ base) (high : base ≤ 16) (width : Nat) {fill : UInt8}
    (fills : fill = 48 ∨ fill = 32) (upper negative : Bool) (small : value < 2 ^ 64) :
    ∃ rest digits, Signed (trim (emitDigits value base width fill upper negative)) negative rest ∧
      Numeral base rest digits ∧ NumberParsing.value base digits = value ∧
      (negative = false → trim (emitDigits value base width fill upper negative) = rest) := by
  obtain ⟨zeros, trimmed⟩ := emitDigits_trim low high width fills upper negative small
  obtain ⟨digits, spells, same⟩ := padded_spells low high upper zeros small
  refine ⟨_, digits, ?_, .plain spells, same, ?_⟩
  · rw [trimmed]
    cases negative with
    | true => exact .minus _
    | false => exact signed_plain spells
  · rintro rfl
    exact trimmed

end Layout

/-- The magnitude that is put, the least number's too. -/
def magnitude (value : Int) : Nat := if value < 0 then (-(value + 1)).toNat + 1 else value.toNat

theorem magnitude_spec {value : Int} (fits : InRange value) :
    magnitude value < 2 ^ 64 ∧ signedValue (decide (value < 0)) (magnitude value) = value := by
  unfold InRange at fits
  unfold magnitude signedValue
  by_cases negative : value < 0
  · simp only [if_pos negative, decide_eq_true negative, if_true]
    omega
  · simp only [if_neg negative, decide_eq_false negative, Bool.false_eq_true, if_false]
    omega

/-- Every string that did not fail is as long as asked for and read back as its number, and it
fails only when an allocation is refused. -/
theorem numbers_round_trip (grants : Nat → Nat → Bool) (base width : Nat) (fill : UInt8)
    (low : 2 ≤ base) (high : base ≤ 16)
    (wide : width < 2 ^ 64) (fills : fill = 48 ∨ fill = 32) :
    (∀ value < 2 ^ 64, ∀ out,
      let s := toStringUint grants value base width fill
      s.failed = false ∧ s.chars = formatUint value base width fill false ∧ width ≤ s.chars.length ∧
          parseUint s.chars out base = (true, value) ∨
        s.failed = true ∧ ∃ n bytes, grants n bytes = false) ∧
    (∀ value, InRange value → ∀ out,
      let s := toStringInt grants value base width fill
      s.failed = false ∧ s.chars = formatInt value base width fill ∧ width ≤ s.chars.length ∧
          parseInt s.chars out base = (true, value) ∨
        s.failed = true ∧ ∃ n bytes, grants n bytes = false) := by
  constructor
  · intro value small out
    have long := emitDigits_length low high value width fill false false
    cases puts_cases grants (formatUint value base width fill false) {} rfl (by
      rw [formatUint, List.length_nil]
      omega) with
    | inl whole =>
        left
        obtain ⟨rest, digits, _, numeral, same, trimmed⟩ :=
          emitDigits_reads low high width fills false false small
        rw [← trimmed rfl] at numeral
        rw [List.nil_append] at whole
        refine ⟨whole.2, whole.1, whole.1 ▸ long.1, ?_⟩
        rw [toStringUint, whole.1, formatUint,
          parseUint_reads out low (by omega) numeral (by rwa [same]), same]
    | inr refused => exact Or.inr refused
  · intro value fits out
    obtain ⟨small, signs⟩ := magnitude_spec fits
    have put : formatInt value base width fill =
        emitDigits (magnitude value) base width fill false (decide (value < 0)) := by
      simp only [formatInt, magnitude, decide_eq_true_eq]
    have long := emitDigits_length low high (magnitude value) width fill false (decide (value < 0))
    rw [← put] at long
    cases puts_cases grants (formatInt value base width fill) {} rfl (by
      rw [List.length_nil]
      omega) with
    | inl whole =>
        left
        obtain ⟨rest, digits, signed, numeral, same, _⟩ :=
          emitDigits_reads low high width fills false (decide (value < 0)) small
        rw [← put] at signed
        rw [List.nil_append] at whole
        refine ⟨whole.2, whole.1, whole.1 ▸ long.1, ?_⟩
        rw [toStringInt, whole.1, parseInt_reads out low (by omega) signed numeral
          (by rwa [same, signs]), same, signs]
    | inr refused => exact Or.inr refused

/-- The least number in base 2, with a place more than it needs. -/
theorem least_number_round_trip :
    let s := toStringInt (fun _ _ => true) (-2 ^ 63) 2 66 48
    s.failed = false ∧ s.chars = formatInt (-2 ^ 63) 2 66 48 ∧ 66 ≤ s.chars.length ∧
        parseInt s.chars 0 2 = (true, -2 ^ 63) ∨
      s.failed = true ∧ ∃ n bytes, (fun _ _ : Nat => true) n bytes = false :=
  (numbers_round_trip (fun _ _ => true) 2 66 48 (by decide) (by decide) (by decide) (by decide)).2 (-2 ^ 63)
    (by decide) 0

/-- Without memory beyond the string's own 23 characters, the digit of a wide field is lost. -/
theorem refused_truncates :
    (toStringUint (fun _ _ => false) 7 10 24 32).chars = List.replicate 23 32 ∧
      (toStringUint (fun _ _ => false) 7 10 24 32).failed = true ∧
      parseUint (toStringUint (fun _ _ => false) 7 10 24 32).chars 0 10 = (false, 0) := by
  decide

end R2Apps.NumberFormatting
