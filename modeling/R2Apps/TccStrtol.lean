import Mathlib.Algebra.Order.Ring.Nat
import R2Apps.TccConversions

/-! `strtoll` and `strtoull` of `tcc/libc/stdlib.c`. A text is the bytes before
its terminator, `end_` the distance of `*end` from its start, and `errno` is
passed in and out. -/
namespace R2Apps.TccStrtol
open R2Apps.ByteMemory R2Apps.TccPrintf R2Apps.TccConversions

def isspace (c : UInt8) : Bool := c == ch ' ' || (decide (9 ≤ c) && decide (c ≤ 13))

def isxdigit (c : UInt8) : Bool :=
  isDigit c || (decide (ch 'a' ≤ c) && decide (c ≤ ch 'f')) || (decide (ch 'A' ≤ c) && decide (c ≤ ch 'F'))

def eRANGE : Int := 34
def llongMax : UInt64 := 0x7FFFFFFFFFFFFFFF
def ullongMax : UInt64 := 0xFFFFFFFFFFFFFFFF

/-! ## `parse_uint` -/

/-- `d` of the loop, where it does not break. -/
def digitOf (c : UInt8) : Option Nat :=
  if ch '0' ≤ c ∧ c ≤ ch '9' then some (c.toNat - 48)
  else if ch 'a' ≤ c ∧ c ≤ ch 'z' then some (c.toNat - 97 + 10)
  else if ch 'A' ≤ c ∧ c ≤ ch 'Z' then some (c.toNat - 65 + 10)
  else none

structure Scan where
  v : UInt64
  range : Bool
  any_ : Bool
  p : Bytes

def scan (base : Nat) (limit : UInt64) : Bytes → UInt64 → Bool → Bool → Scan
  | [], v, range, any_ => ⟨v, range, any_, []⟩
  | c :: p, v, range, any_ =>
      match digitOf c with
      | none => ⟨v, range, any_, c :: p⟩
      | some d =>
          if base ≤ d then ⟨v, range, any_, c :: p⟩
          else if (limit - UInt64.ofNat d) / UInt64.ofNat base < v then scan base limit p limit true true
          else if range then scan base limit p v range true
          else scan base limit p (v * UInt64.ofNat base + UInt64.ofNat d) range true

/-- The sign, and what follows it. -/
def takeSign (p : Bytes) : Bool × Bytes :=
  if p.head? = some (ch '+') ∨ p.head? = some (ch '-')
    then (decide (p.head? = some (ch '-')), p.tail) else (false, p)

def hexMarked (p : Bytes) : Bool :=
  p.head? == some (ch '0') && (p.getD 1 0 == ch 'x' || p.getD 1 0 == ch 'X') && isxdigit (p.getD 2 0)

def takeBase (base : Nat) (p : Bytes) : Nat × Bytes :=
  if (base = 0 ∨ base = 16) ∧ hexMarked p = true then (16, p.drop 2)
  else if base = 0 then (if p.head? = some (ch '0') then 8 else 10, p)
  else (base, p)

structure Magnitude where
  v : UInt64
  end_ : Nat
  neg : Bool
  range : Bool

def parseUint (s : Bytes) (base : Nat) (limit : UInt64) : Magnitude :=
  let signed_ := takeSign (s.dropWhile isspace)
  let based := takeBase base signed_.2
  let r := scan based.1 limit based.2 0 false false
  ⟨if r.any_ then r.v else 0, if r.any_ then s.length - r.p.length else 0, signed_.1, r.range⟩

structure Result where
  value : Int
  end_ : Nat
  errno : Int
  deriving DecidableEq

def strtoll (s : Bytes) (base : Nat) (errno : Int) : Result :=
  let m := parseUint s base (llongMax + 1)
  let beyond_ := !m.neg && decide (llongMax < m.v)
  let v := if beyond_ then llongMax else m.v
  if m.range || beyond_ then
    ⟨if m.neg then signed 64 (llongMax + 1).toNat else signed 64 llongMax.toNat, m.end_, eRANGE⟩
  else ⟨if m.neg then signed 64 (0 - v).toNat else signed 64 v.toNat, m.end_, errno⟩

def strtoull (s : Bytes) (base : Nat) (errno : Int) : Result :=
  let m := parseUint s base ullongMax
  if m.range then ⟨ullongMax.toNat, m.end_, eRANGE⟩
  else ⟨if m.neg then (0 - m.v).toNat else m.v.toNat, m.end_, errno⟩

/-! ## The form of a number -/

/-- A digit of a base. -/
def inBase (radix : Nat) (c : UInt8) : Bool :=
  match digitOf c with
  | some d => decide (d < radix)
  | none => false

def digitValue (c : UInt8) : Nat := (digitOf c).getD 0

def valueOf (radix : Nat) (ds : Bytes) : Nat := ds.foldl (fun n c => n * radix + digitValue c) 0

inductive Signed : Bytes → Bool → Prop
  | none_ : Signed [] false
  | plus : Signed [ch '+'] false
  | minus : Signed [ch '-'] true

/-- What stands between the sign and the digits, and the base of the digits. -/
inductive Marked (base : Nat) : Bytes → Nat → Bytes → Prop
  | hex {x : UInt8} (ds : Bytes) (asked : base = 0 ∨ base = 16) (letter : x = ch 'x' ∨ x = ch 'X') :
      Marked base [ch '0', x] 16 ds
  | octal (ds : Bytes) (free : base = 0) (first : ds.head? = some (ch '0')) : Marked base [] 8 ds
  | decimal (ds : Bytes) (free : base = 0) (first : ds.head? ≠ some (ch '0')) : Marked base [] 10 ds
  | given (ds : Bytes) (fixed : base ≠ 0) : Marked base [] base ds

/-- White space, an optional sign, an optional mark, digits. -/
inductive Form (base : Nat) : Bytes → Bool → Nat → Prop
  | intro {white sign mark ds : Bytes} {neg : Bool} {radix : Nat} (blank : ∀ c ∈ white, isspace c = true)
      (signed_ : Signed sign neg) (marked : Marked base mark radix ds) (some_ : ds ≠ [])
      (digits : ∀ c ∈ ds, inBase radix c = true) :
      Form base (white ++ (sign ++ (mark ++ ds))) neg (valueOf radix ds)

/-- The longest prefix of a text that is a number. -/
structure Longest (base : Nat) (text p : Bytes) (neg : Bool) (n : Nat) : Prop where
  form : Form base p neg n
  starts : p <+: text
  longest : ∀ q neg' n', Form base q neg' n' → q <+: text → q.length ≤ p.length

/-! ## Saturation -/

section Saturation
variable {base : Nat} {limit : UInt64}

/-- What `v` and `range` hold after digits whose value is `n`. -/
def Kept (limit : UInt64) (n : Nat) (v : UInt64) (range : Bool) : Prop :=
  if n ≤ limit.toNat then v.toNat = n ∧ range = false else v = limit ∧ range = true

theorem byte_toNat {n : Nat} (small : n ≤ 36) : (UInt64.ofNat n).toNat = n :=
  UInt64.toNat_ofNat_of_lt' (Nat.lt_of_le_of_lt small (by decide))

theorem guard_iff (large : 2 ≤ base) (small : base ≤ 36) (wide : 36 ≤ limit.toNat) {d : Nat}
    (digit : d < base)
    (v : UInt64) :
    (limit - UInt64.ofNat d) / UInt64.ofNat base < v ↔ limit.toNat < v.toNat * base + d := by
  have digit_ : (UInt64.ofNat d).toNat = d := byte_toNat (by omega)
  have below : UInt64.ofNat d ≤ limit := by
    rw [UInt64.le_iff_toNat_le, digit_]
    omega
  rw [UInt64.lt_iff_toNat_lt, UInt64.toNat_div, UInt64.toNat_sub_of_le _ _ below, digit_, byte_toNat small,
    Nat.div_lt_iff_lt_mul (by omega)]
  omega

theorem kept_over (large : 2 ≤ base) (small : base ≤ 36) (wide : 36 ≤ limit.toNat) {n d : Nat} {v : UInt64}
    {range : Bool} (kept : Kept limit n v range) (digit : d < base)
    (beyond_ : (limit - UInt64.ofNat d) / UInt64.ofNat base < v) : Kept limit (n * base + d) limit true := by
  rw [guard_iff large small wide digit] at beyond_
  have passed : ¬n * base + d ≤ limit.toNat := by
    by_cases within : n ≤ limit.toNat
    · rw [Kept, if_pos within] at kept
      rw [← kept.1]
      exact Nat.not_le.mpr beyond_
    · have := Nat.le_mul_of_pos_right n (show 0 < base by omega)
      omega
  rw [Kept, if_neg passed]
  exact ⟨rfl, rfl⟩

theorem kept_within (large : 2 ≤ base) (small : base ≤ 36) (wide : 36 ≤ limit.toNat) {n d : Nat} {v : UInt64}
    {range : Bool} (kept : Kept limit n v range) (digit : d < base)
    (within : ¬(limit - UInt64.ofNat d) / UInt64.ofNat base < v) :
    range = false ∧ Kept limit (n * base + d) (v * UInt64.ofNat base + UInt64.ofNat d) false := by
  rw [guard_iff large small wide digit] at within
  by_cases before : n ≤ limit.toNat
  · rw [Kept, if_pos before] at kept
    have room := limit.toNat_lt
    rw [kept.1] at within
    rw [Kept, if_pos (Nat.not_lt.mp within)]
    refine ⟨kept.2, ?_, rfl⟩
    rw [UInt64.toNat_add, UInt64.toNat_mul, kept.1, byte_toNat small, byte_toNat (by omega), Nat.mod_add_mod,
      Nat.mod_eq_of_lt (by omega)]
  · rw [Kept, if_neg before] at kept
    rw [kept.1] at within
    have := Nat.le_mul_of_pos_right limit.toNat (show 0 < 2 by decide)
    have := Nat.mul_le_mul_left limit.toNat large
    omega

theorem inBase_of {c : UInt8} {d : Nat} (is : digitOf c = some d) : inBase base c = decide (d < base) := by
  unfold inBase
  rw [is]

theorem scan_kept (large : 2 ≤ base) (small : base ≤ 36) (wide : 36 ≤ limit.toNat) (p : Bytes)
    {n : Nat} {v : UInt64}
    {range : Bool} (any_ : Bool) (kept : Kept limit n v range) :
    (scan base limit p v range any_).p = p.dropWhile (inBase base) ∧
      (scan base limit p v range any_).any_ = (any_ || !(p.takeWhile (inBase base)).isEmpty) ∧
      Kept limit ((p.takeWhile (inBase base)).foldl (fun n c => n * base + digitValue c) n)
        (scan base limit p v range any_).v (scan base limit p v range any_).range := by
  induction p generalizing n v range any_ with
  | nil => exact ⟨rfl, (Bool.or_false any_).symm, kept⟩
  | cons c p ih =>
      unfold scan
      cases is : digitOf c with
      | none =>
          have other : inBase base c = false := by
            unfold inBase
            rw [is]
          rw [List.dropWhile_cons_of_neg (by simp [other]), List.takeWhile_cons_of_neg (by simp [other])]
          exact ⟨rfl, (Bool.or_false any_).symm, kept⟩
      | some d =>
          have value : digitValue c = d := by
            unfold digitValue
            rw [is]
            rfl
          dsimp only
          by_cases beyond : base ≤ d
          · have other : ¬inBase base c = true := by
              rw [inBase_of is, decide_eq_true_iff]
              exact Nat.not_lt.mpr beyond
            rw [if_pos beyond, List.dropWhile_cons_of_neg other, List.takeWhile_cons_of_neg other]
            exact ⟨rfl, (Bool.or_false any_).symm, kept⟩
          · have digit : d < base := Nat.not_le.mp beyond
            have this_ : inBase base c = true := by
              rw [inBase_of is]
              exact decide_eq_true digit
            rw [if_neg beyond, List.dropWhile_cons_of_pos this_, List.takeWhile_cons_of_pos this_,
              List.foldl_cons,
              value]
            have met : (any_ || !(c :: p.takeWhile (inBase base)).isEmpty) =
                (true || !(p.takeWhile (inBase base)).isEmpty) := by simp
            rw [met]
            by_cases beyond_ : (limit - UInt64.ofNat d) / UInt64.ofNat base < v
            · rw [if_pos beyond_]
              exact ih true (kept_over large small wide kept digit beyond_)
            · obtain ⟨clear, next⟩ := kept_within large small wide kept digit beyond_
              rw [if_neg beyond_, clear]
              exact ih true next

end Saturation

/-! ## White space, sign and base -/

section Parts
variable {base radix : Nat}

theorem digit_solid {c : UInt8} (digit : inBase radix c = true) :
    isspace c = false ∧ c ≠ ch '+' ∧ c ≠ ch '-' := by
  have some_ : digitOf c ≠ none := by
    intro none_
    unfold inBase at digit
    rw [none_] at digit
    exact Bool.noConfusion digit
  have range : 48 ≤ c.toNat := by
    by_contra low
    refine some_ ?_
    unfold digitOf
    rw [if_neg (fun both => low both.1), if_neg (fun both => low (Nat.le_trans (by decide) both.1)),
      if_neg (fun both => low (Nat.le_trans (by decide) both.1))]
  have apart (b : UInt8) (low : b.toNat < 48) : c ≠ b :=
    fun same => absurd (same ▸ range) (Nat.not_le.mpr low)
  refine ⟨?_, apart _ (by decide), apart _ (by decide)⟩
  have blank : ¬c = ch ' ' := apart _ (by decide)
  have beyond : ¬c ≤ 13 := fun below => absurd (Nat.le_trans range below) (by decide)
  simp [isspace, blank, beyond]

set_option maxRecDepth 100000 in
theorem isxdigit_iff (c : UInt8) : isxdigit c = inBase 16 c := by
  have bound := c.toNat_lt
  have all_ : ∀ n < 256, isxdigit (UInt8.ofNat n) = inBase 16 (UInt8.ofNat n) := by decide
  have here := all_ c.toNat bound
  rwa [UInt8.ofNat_toNat] at here

theorem takeSign_splits (p : Bytes) : ∃ sign, p = sign ++ (takeSign p).2 ∧ Signed sign (takeSign p).1 := by
  unfold takeSign
  split
  · rename_i some_
    cases p with
    | nil => rcases some_ with none_ | none_ <;> cases none_
    | cons c rest =>
        refine ⟨[c], rfl, ?_⟩
        rw [List.head?_cons] at some_ ⊢
        rcases some_ with plus | minus
        · cases plus
          exact .plus
        · cases minus
          exact .minus
  · exact ⟨[], rfl, .none_⟩

theorem takeSign_takes {sign q : Bytes} {neg : Bool} (signed_ : Signed sign neg)
    (bare : ∀ c, q.head? = some c → c ≠ ch '+' ∧ c ≠ ch '-') : takeSign (sign ++ q) = (neg, q) := by
  cases signed_ with
  | none_ =>
      unfold takeSign
      refine if_neg fun some_ => ?_
      rcases some_ with plus | minus
      · exact (bare _ plus).1 rfl
      · exact (bare _ minus).2 rfl
  | plus => rfl
  | minus => rfl

theorem hexMarked_splits {p : Bytes} (marked : hexMarked p = true) :
    ∃ x c rest, p = ch '0' :: x :: c :: rest ∧ (x = ch 'x' ∨ x = ch 'X') ∧ inBase 16 c = true := by
  unfold hexMarked at marked
  rw [Bool.and_eq_true, Bool.and_eq_true, beq_iff_eq, Bool.or_eq_true, beq_iff_eq, beq_iff_eq,
    isxdigit_iff] at marked
  obtain ⟨⟨zero, letter⟩, digit⟩ := marked
  match p, zero, letter, digit with
  | [], zero, _, _ => cases zero
  | [_], _, letter, _ => exact absurd letter (show ¬((0 : UInt8) = ch 'x' ∨ (0 : UInt8) = ch 'X') by decide)
  | [_, _], _, _, digit => exact absurd digit (show ¬inBase 16 0 = true by decide)
  | _ :: x :: c :: rest, zero, letter, digit =>
      rw [List.head?_cons, Option.some.injEq] at zero
      exact ⟨x, c, rest, by rw [zero], letter, digit⟩

theorem hexMarked_of {x c : UInt8} (rest : Bytes) (letter : x = ch 'x' ∨ x = ch 'X')
    (digit : inBase 16 c = true) :
    hexMarked (ch '0' :: x :: c :: rest) = true := by
  unfold hexMarked
  rw [Bool.and_eq_true, Bool.and_eq_true, beq_iff_eq, Bool.or_eq_true, beq_iff_eq, beq_iff_eq, isxdigit_iff]
  exact ⟨⟨rfl, letter⟩, digit⟩

theorem takeBase_splits (base : Nat) (p : Bytes) : ∃ mark, p = mark ++ (takeBase base p).2 ∧
    ∀ ds, ds ≠ [] → ds <+: (takeBase base p).2 → Marked base mark (takeBase base p).1 ds := by
  unfold takeBase
  by_cases hex : (base = 0 ∨ base = 16) ∧ hexMarked p = true
  · rw [if_pos hex]
    obtain ⟨x, c, rest, rfl, letter, _⟩ := hexMarked_splits hex.2
    exact ⟨[ch '0', x], rfl, fun ds _ _ => .hex ds hex.1 letter⟩
  · rw [if_neg hex]
    by_cases free : base = 0
    · rw [if_pos free]
      refine ⟨[], rfl, fun ds some_ before => ?_⟩
      have first : ds.head? = p.head? := by
        obtain ⟨rest, rfl⟩ := before
        exact (List.head?_append_of_ne_nil _ some_).symm
      by_cases zero : p.head? = some (ch '0')
      · simpa only [if_pos zero] using Marked.octal ds free (first.trans zero)
      · simpa only [if_neg zero] using Marked.decimal ds free (first ▸ zero)
    · rw [if_neg free]
      exact ⟨[], rfl, fun ds _ _ => .given ds free⟩

theorem takeBase_range (valid : base = 0 ∨ 2 ≤ base ∧ base ≤ 36) (p : Bytes) :
    2 ≤ (takeBase base p).1 ∧ (takeBase base p).1 ≤ 36 := by
  unfold takeBase
  split
  · exact ⟨(by decide : 2 ≤ 16), (by decide : 16 ≤ 36)⟩
  · split
    · by_cases zero : p.head? = some (ch '0')
      · simp [zero]
      · simp [zero]
    · rename_i fixed
      exact valid.resolve_left fixed

theorem takeBase_reads {mark ds : Bytes} (rest : Bytes) (marked : Marked base mark radix ds) (some_ : ds ≠ [])
    (digits : ∀ c ∈ ds, inBase radix c = true) :
    takeBase base (mark ++ (ds ++ rest)) = (radix, ds ++ rest) ∨
      mark = [] ∧ ds = [ch '0'] ∧ ∃ x c more, mark ++ (ds ++ rest) = ch '0' :: x :: c :: more ∧
        inBase 16 c = true ∧
        takeBase base (mark ++ (ds ++ rest)) = (16, c :: more) := by
  obtain ⟨d, ds, rfl⟩ := List.exists_cons_of_ne_nil some_
  -- an 'x' is not a digit of the bases that come with one
  have zeroOnly (asked : radix ≤ 16) (hex : hexMarked (d :: ds ++ rest) = true) : d :: ds = [ch '0'] ∧
      ∃ x c more, d :: ds ++ rest = ch '0' :: x :: c :: more ∧ inBase 16 c = true := by
    obtain ⟨x, c, more, whole, letter, digit⟩ := hexMarked_splits hex
    refine ⟨?_, x, c, more, whole, digit⟩
    rw [List.cons_append, List.cons.injEq] at whole
    cases ds with
    | nil => rw [whole.1]
    | cons y ds =>
        have same : y = x := by
          have := whole.2
          rw [List.cons_append, List.cons.injEq] at this
          exact this.1
        have inside := digits y (List.mem_cons_of_mem _ (List.mem_cons_self ..))
        have none_ : ∀ radix ≤ 16, inBase radix (ch 'x') = false ∧ inBase radix (ch 'X') = false := by decide
        rw [same] at inside
        rcases letter with rfl | rfl
        · exact absurd inside (by simp [(none_ radix asked).1])
        · exact absurd inside (by simp [(none_ radix asked).2])
  have either (asked : radix ≤ 16) (at_ : mark = []) (zero_ : base = 0 ∨ base = 16)
      (plain : ¬hexMarked (d :: ds ++ rest) = true →
        takeBase base (d :: ds ++ rest) = (radix, d :: ds ++ rest)) :
      takeBase base (mark ++ (d :: ds ++ rest)) = (radix, d :: ds ++ rest) ∨
        mark = [] ∧ d :: ds = [ch '0'] ∧ ∃ x c more, mark ++ (d :: ds ++ rest) = ch '0' :: x :: c :: more ∧
          inBase 16 c = true ∧ takeBase base (mark ++ (d :: ds ++ rest)) = (16, c :: more) := by
    rw [at_, List.nil_append]
    by_cases hex : hexMarked (d :: ds ++ rest) = true
    · obtain ⟨zero, x, c, more, whole, digit⟩ := zeroOnly asked hex
      refine .inr ⟨rfl, zero, x, c, more, whole, digit, ?_⟩
      rw [takeBase, if_pos ⟨zero_, hex⟩, whole]
      rfl
    · exact .inl (plain hex)
  cases marked with
  | hex ds' asked letter =>
      refine .inl ?_
      have digit := digits d (List.mem_cons_self ..)
      have hex := hexMarked_of (ds ++ rest) letter digit
      exact if_pos ⟨asked, hex⟩
  | octal ds' free first =>
      refine either (by decide) rfl (.inl free) fun hex => ?_
      have first_ : (d :: ds ++ rest).head? = some (ch '0') := first
      rw [takeBase, if_neg fun both => hex both.2, if_pos free, if_pos first_]
  | decimal ds' free first =>
      refine either (by decide) rfl (.inl free) fun hex => ?_
      have first_ : (d :: ds ++ rest).head? ≠ some (ch '0') := first
      rw [takeBase, if_neg fun both => hex both.2, if_pos free, if_neg first_]
  | given ds' fixed =>
      by_cases sixteen : base = 16
      · refine either (Nat.le_of_eq sixteen) rfl (.inr sixteen) fun hex => ?_
        rw [takeBase, if_neg fun both => hex both.2, if_neg fixed]
      · refine .inl ?_
        have neither : ¬((base = 0 ∨ base = 16) ∧ hexMarked ([] ++ (d :: ds ++ rest)) = true) := by
          rintro ⟨free | marked, _⟩
          · exact fixed free
          · exact sixteen marked
        rw [takeBase, if_neg neither, if_neg fixed]
        rfl

end Parts

/-! ## The number that is read -/

section Reading
variable (base : Nat) (text : Bytes)

/-- What is left after white space and sign, and after the mark. -/
def afterSign : Bool × Bytes := takeSign (text.dropWhile isspace)

def afterMark : Nat × Bytes := takeBase base (afterSign text).2

def digitsRead : Bytes := (afterMark base text).2.takeWhile (inBase (afterMark base text).1)

def leftOver : Bytes := (afterMark base text).2.dropWhile (inBase (afterMark base text).1)

def consumed : Nat := text.length - (leftOver base text).length

def valueRead : Nat := valueOf (afterMark base text).1 (digitsRead base text)

variable {base text}

theorem consumed_form (some_ : digitsRead base text ≠ []) : ∃ p, text = p ++ leftOver base text ∧
    Form base p (afterSign text).1 (valueRead base text) := by
  obtain ⟨sign, split_, signed_⟩ := takeSign_splits (text.dropWhile isspace)
  obtain ⟨mark, marks, marked⟩ := takeBase_splits base (afterSign text).2
  have digits : (afterMark base text).2 = digitsRead base text ++ leftOver base text :=
    List.takeWhile_append_dropWhile.symm
  have blank : ∀ c ∈ text.takeWhile isspace, isspace c = true :=
    List.all_eq_true.mp List.all_takeWhile
  have inside : ∀ c ∈ digitsRead base text, inBase (afterMark base text).1 c = true :=
    List.all_eq_true.mp List.all_takeWhile
  refine ⟨_, ?_, .intro blank signed_ (marked (digitsRead base text) some_ ⟨_, digits.symm⟩) some_ inside⟩
  calc text = text.takeWhile isspace ++ text.dropWhile isspace := List.takeWhile_append_dropWhile.symm
    _ = text.takeWhile isspace ++ (sign ++ (mark ++ (digitsRead base text ++ leftOver base text))) := by
        rw [split_, ← digits]
        exact congrArg (fun q => text.takeWhile isspace ++ (sign ++ q)) marks
    _ = _ := by simp only [List.append_assoc]

theorem form_read {p : Bytes} {neg : Bool} {n : Nat} (form : Form base p neg n) (starts : p <+: text) :
    digitsRead base text ≠ [] ∧ p.length ≤ consumed base text ∧
      (p.length = consumed base text → neg = (afterSign text).1 ∧ n = valueRead base text) := by
  obtain ⟨rest, whole⟩ := starts
  cases form with
  | @intro white sign mark ds neg radix blank signed_ marked some_ digits =>
      have body : mark ++ (ds ++ rest) ≠ [] := by
        intro none_
        exact some_ (List.append_eq_nil_iff.mp (List.append_eq_nil_iff.mp none_).2).1
      have solid : ∀ c, (mark ++ (ds ++ rest)).head? = some c →
          isspace c = false ∧ c ≠ ch '+' ∧ c ≠ ch '-' := by
        intro c first
        cases mark with
        | cons m more =>
            cases marked
            cases first
            exact ⟨by decide, by decide, by decide⟩
        | nil =>
            cases ds with
            | nil => exact absurd rfl some_
            | cons d ds =>
                cases first
                exact digit_solid (digits c (List.mem_cons_self ..))
      have split_ : text = white ++ (sign ++ (mark ++ (ds ++ rest))) := by
        rw [← whole]
        simp only [List.append_assoc]
      have start : text.dropWhile isspace = sign ++ (mark ++ (ds ++ rest)) := by
        rw [split_, List.dropWhile_append_of_pos blank]
        cases signed_ with
        | none_ =>
            obtain ⟨c, more, same⟩ := List.exists_cons_of_ne_nil body
            rw [List.nil_append, same, List.dropWhile_cons_of_neg]
            simp [(solid c (same ▸ rfl)).1]
        | plus => rfl
        | minus => rfl
      have signs : afterSign text = (neg, mark ++ (ds ++ rest)) := by
        rw [afterSign, start, takeSign_takes signed_ fun c first => (solid c first).2]
      rcases takeBase_reads rest marked some_ digits with own | ⟨rfl, rfl, x, c, more, zero, hex, longer⟩
      · -- the digits go on at least to the end of the number
        have marks : afterMark base text = (radix, ds ++ rest) := by rw [afterMark, signs, own]
        have read : digitsRead base text = ds ++ rest.takeWhile (inBase radix) := by
          rw [digitsRead, marks, List.takeWhile_append_of_pos digits]
        have beyond_ : leftOver base text = rest.dropWhile (inBase radix) := by
          rw [leftOver, marks, List.dropWhile_append_of_pos digits]
        have less := (List.dropWhile_suffix (inBase radix) (l := rest)).length_le
        have lengths := congrArg List.length whole
        rw [List.length_append] at lengths
        refine ⟨by rw [read]; exact List.append_ne_nil_of_left_ne_nil some_ _, ?_, fun same => ?_⟩
        · rw [consumed, beyond_]
          omega
        · rw [consumed, beyond_] at same
          have none_ : rest.takeWhile (inBase radix) = [] := by
            have parts := congrArg List.length
              (List.takeWhile_append_dropWhile (p := inBase radix) (l := rest))
            rw [List.length_append] at parts
            exact List.length_eq_zero_iff.mp (by omega)
          rw [signs, valueRead, read, none_, marks, List.append_nil]
          exact ⟨rfl, rfl⟩
      · -- a zero in front of an 'x' and a digit
        have marks : afterMark base text = (16, c :: more) := by rw [afterMark, signs, longer]
        have read : digitsRead base text ≠ [] := by
          rw [digitsRead, marks, List.takeWhile_cons_of_pos hex]
          exact List.cons_ne_nil _ _
        have beyond_ : (leftOver base text).length ≤ more.length := by
          rw [leftOver, marks, List.dropWhile_cons_of_pos hex]
          exact (List.dropWhile_suffix _).length_le
        have lengths := congrArg List.length split_
        rw [zero] at lengths
        simp only [List.length_append, List.length_cons] at lengths
        have short : (white ++ (sign ++ ([] ++ [ch '0']))).length < consumed base text := by
          rw [consumed]
          simp only [List.length_append, List.length_cons, List.length_nil]
          omega
        exact ⟨read, Nat.le_of_lt short, fun same => absurd same (Nat.ne_of_lt short)⟩

theorem longest_iff {p : Bytes} {neg : Bool} {n : Nat} : Longest base text p neg n ↔
    digitsRead base text ≠ [] ∧ text = p ++ leftOver base text ∧ neg = (afterSign text).1 ∧
      n = valueRead base text := by
  constructor
  · rintro ⟨form, starts, longest⟩
    obtain ⟨some_, short, exact_⟩ := form_read form starts
    obtain ⟨q, whole, other⟩ := consumed_form some_
    have length_ : q.length = consumed base text := by
      have lengths := congrArg List.length whole
      rw [List.length_append] at lengths
      rw [consumed]
      omega
    have same : p.length = q.length :=
      Nat.le_antisymm (length_ ▸ short) (longest q _ _ other ⟨_, whole.symm⟩)
    have equal : p = q := by
      obtain ⟨rest, begins⟩ := starts
      exact (List.append_inj (begins.trans whole) same).1
    exact ⟨some_, equal ▸ whole, exact_ (same.trans length_)⟩
  · rintro ⟨some_, whole, rfl, rfl⟩
    obtain ⟨q, split_, form⟩ := consumed_form some_
    have equal : p = q := List.append_cancel_right (whole.symm.trans split_)
    refine ⟨equal ▸ form, ⟨_, whole.symm⟩, fun q neg n other starts => ?_⟩
    have lengths := congrArg List.length whole
    rw [List.length_append] at lengths
    have := (form_read other starts).2.1
    rw [consumed] at this
    omega

end Reading

/-! ## Results -/

def signedValue (neg : Bool) (n : Nat) : Int := if neg then -n else n

/-- The result of a number: its value, or the nearest `long long`. -/
def longLong (neg : Bool) (n length : Nat) (errno : Int) : Result :=
  if signedValue neg n < -2 ^ 63 then ⟨-2 ^ 63, length, eRANGE⟩
  else if 2 ^ 63 ≤ signedValue neg n then ⟨2 ^ 63 - 1, length, eRANGE⟩
  else ⟨signedValue neg n, length, errno⟩

/-- The value modulo 2^64, where the magnitude is below it. -/
def unsignedLongLong (neg : Bool) (n length : Nat) (errno : Int) : Result :=
  if n < 2 ^ 64 then ⟨signedValue neg n % 2 ^ 64, length, errno⟩ else ⟨2 ^ 64 - 1, length, eRANGE⟩

section Results
variable {base : Nat} {text : Bytes}

theorem scan_read (text : Bytes) (valid : base = 0 ∨ 2 ≤ base ∧ base ≤ 36) {limit : UInt64}
    (wide : 36 ≤ limit.toNat) :
    ∃ v range, scan (afterMark base text).1 limit (afterMark base text).2 0 false false =
      ⟨v, range, !(digitsRead base text).isEmpty, leftOver base text⟩ ∧
        Kept limit (valueRead base text) v range := by
  obtain ⟨large, small⟩ := takeBase_range valid (afterSign text).2
  have start : Kept limit 0 0 false := by
    rw [Kept, if_pos (Nat.zero_le _)]
    exact ⟨rfl, rfl⟩
  obtain ⟨rest, any_, kept⟩ := scan_kept large small wide (afterMark base text).2 false start
  refine ⟨_, _, ?_, kept⟩
  have parts (r : Scan) {any_ : Bool} {p : Bytes} (first : r.p = p) (met : r.any_ = any_) :
      r = ⟨r.v, r.range, any_, p⟩ := by
    rw [← first, ← met]
  exact parts _ rest any_

theorem parse_some (valid : base = 0 ∨ 2 ≤ base ∧ base ≤ 36) (limit : UInt64) (wide : 36 ≤ limit.toNat)
    (some_ : digitsRead base text ≠ []) : ∃ v range,
      parseUint text base limit = ⟨v, consumed base text, (afterSign text).1, range⟩ ∧
        Kept limit (valueRead base text) v range := by
  obtain ⟨v, range, scanned, kept⟩ := scan_read text valid wide
  rw [List.isEmpty_eq_false_iff.mpr some_] at scanned
  refine ⟨v, range, ?_, kept⟩
  unfold parseUint
  exact congrArg (fun r : Scan => Magnitude.mk (if r.any_ then r.v else 0)
    (if r.any_ then text.length - r.p.length else 0) (afterSign text).1 r.range) scanned

theorem parse_none (valid : base = 0 ∨ 2 ≤ base ∧ base ≤ 36) (limit : UInt64) (wide : 36 ≤ limit.toNat)
    (none_ : digitsRead base text = []) : parseUint text base limit = ⟨0, 0, (afterSign text).1, false⟩ := by
  obtain ⟨v, range, scanned, kept⟩ := scan_read text valid wide
  have nothing : valueOf (afterMark base text).1 [] = 0 := rfl
  rw [Kept, valueRead, none_, nothing, if_pos (Nat.zero_le _)] at kept
  rw [none_, kept.2] at scanned
  unfold parseUint
  exact congrArg (fun r : Scan => Magnitude.mk (if r.any_ then r.v else 0)
    (if r.any_ then text.length - r.p.length else 0) (afterSign text).1 r.range) scanned

theorem signed_small {n : Nat} (small : n < 2 ^ 63) : signed 64 n = n := by
  unfold signed
  exact Int.bmod_eq_of_le (by omega) (by omega)

theorem signed_negated {v : UInt64} (small : v.toNat ≤ 2 ^ 63) :
    signed 64 (0 - v).toNat = -(v.toNat : Int) := by
  rw [UInt64.toNat_sub, UInt64.toNat_zero, Nat.add_zero]
  unfold signed
  by_cases zero : v.toNat = 0
  · rw [zero]
    decide
  · have wrapped : ((2 ^ 64 - v.toNat : Nat) : Int) = -(v.toNat : Int) + (2 ^ 64 : Nat) := by omega
    rw [Nat.mod_eq_of_lt (by omega), wrapped, Int.add_bmod_right]
    exact Int.bmod_eq_of_le (by omega) (by omega)

theorem strtoll_of {n end_ : Nat} {neg range : Bool} {v : UInt64}
    (parsed : parseUint text base (llongMax + 1) = ⟨v, end_, neg, range⟩)
    (kept : Kept (llongMax + 1) n v range)
    (errno : Int) : strtoll text base errno = longLong neg n end_ errno := by
  have limit : (llongMax + 1).toNat = 2 ^ 63 := by decide
  have most : llongMax.toNat = 2 ^ 63 - 1 := by decide
  have least : signed 64 (2 ^ 63) = -2 ^ 63 := by decide
  have greatest : signed 64 (2 ^ 63 - 1) = 2 ^ 63 - 1 := by decide
  rw [Kept, limit] at kept
  have beyond_iff : llongMax < v ↔ 2 ^ 63 ≤ v.toNat := by
    rw [UInt64.lt_iff_toNat_lt, most]
    omega
  unfold strtoll
  rw [parsed]
  dsimp only
  rw [limit, most, least, greatest]
  unfold longLong signedValue
  cases neg with
  | true =>
      simp only [Bool.not_true, Bool.false_and, Bool.or_false, if_true, Bool.false_eq_true, if_false]
      by_cases within : n ≤ 2 ^ 63
      · rw [if_pos within] at kept
        rw [kept.2, if_neg Bool.false_ne_true, signed_negated (kept.1 ▸ within), kept.1, if_neg (by omega),
          if_neg (by omega)]
      · rw [if_neg within] at kept
        rw [kept.2, if_pos rfl, if_pos (by omega)]
  | false =>
      simp only [Bool.not_false, Bool.true_and, Bool.false_eq_true, if_false]
      by_cases within : n < 2 ^ 63
      · rw [if_pos (Nat.le_of_lt within)] at kept
        have under : ¬llongMax < v := by
          rw [beyond_iff, kept.1]
          exact Nat.not_le.mpr within
        rw [kept.2, decide_eq_false under, Bool.or_false, if_neg Bool.false_ne_true,
          if_neg Bool.false_ne_true, kept.1,
          signed_small within, if_neg (by omega), if_neg (by omega)]
      · have beyond_ : llongMax < v := by
          rw [beyond_iff]
          by_cases edge : n ≤ 2 ^ 63
          · rw [if_pos edge] at kept
            rw [kept.1]
            exact Nat.not_lt.mp within
          · rw [if_neg edge] at kept
            rw [kept.1, limit]
        rw [decide_eq_true beyond_, Bool.or_true, if_pos rfl, if_neg (by omega), if_pos (by omega)]

theorem strtoull_of {n end_ : Nat} {neg range : Bool} {v : UInt64}
    (parsed : parseUint text base ullongMax = ⟨v, end_, neg, range⟩) (kept : Kept ullongMax n v range)
    (errno : Int) : strtoull text base errno = unsignedLongLong neg n end_ errno := by
  have most : ullongMax.toNat = 2 ^ 64 - 1 := by decide
  have room := v.toNat_lt
  rw [Kept, most] at kept
  unfold strtoull unsignedLongLong signedValue
  rw [parsed]
  dsimp only
  by_cases within : n < 2 ^ 64
  · rw [if_pos (by omega)] at kept
    rw [kept.2, if_neg Bool.false_ne_true, if_pos within]
    congr 1
    cases neg with
    | true =>
        rw [if_pos rfl, if_pos rfl, UInt64.toNat_sub, UInt64.toNat_zero, kept.1]
        omega
    | false =>
        rw [if_neg Bool.false_ne_true, if_neg Bool.false_ne_true, kept.1]
        omega
  · rw [if_neg (by omega)] at kept
    rw [kept.2, if_pos rfl, if_neg within, most]
    rfl

end Results

/-! ## Numbers as they are printed -/

section Printed

/-- The text of `%ll` and a letter. -/
def printed (letter : UInt8) (v : UInt64) : Option Bytes :=
  (vfprintf false (fun _ => 0) [ch '%', ch 'l', ch 'l', letter] [.long v]).map Prod.fst

theorem digit_back : ∀ upper, ∀ d < 16, digitOf (digitChar upper d) = some d := by decide

theorem numeral_digits {base : Nat} (upper : Bool) (large : 1 < base) (small : base ≤ 16) (n : Nat) :
    (∀ c ∈ numeral base upper n, inBase base c = true) ∧ valueOf base (numeral base upper n) = n := by
  induction n using Nat.strong_induction_on with
  | _ n ih =>
      by_cases zero : n = 0
      · rw [zero, numeral_zero]
        exact ⟨fun c member => absurd member List.not_mem_nil, rfl⟩
      · have last := Nat.mod_lt n (Nat.lt_trans Nat.zero_lt_one large)
        have digit := digit_back upper (n % base) (Nat.lt_of_lt_of_le last small)
        obtain ⟨inside, value⟩ := ih (n / base) (Nat.div_lt_self (Nat.pos_of_ne_zero zero) large)
        rw [numeral_step upper large zero]
        constructor
        · intro c member
          rcases List.mem_append.mp member with before | last_
          · exact inside c before
          · rw [List.mem_singleton.mp last_, inBase_of digit]
            exact decide_eq_true last
        · have read : digitValue (digitChar upper (n % base)) = n % base := by
            unfold digitValue
            rw [digit]
            rfl
          unfold valueOf at value ⊢
          rw [List.foldl_append, value, List.foldl_cons, read, List.foldl_nil, Nat.mul_comm]
          exact Nat.div_add_mod n base

theorem noDigits_small : decimalValue [] < 2 ^ 31 := by decide

theorem noDigits_first : ([] : List (Fin 10)).head? ≠ some 0 := by decide

def noWidth : Width := .literal ⟨[], noDigits_small⟩ noDigits_first

theorem laid_none (left_ zero : Bool) (sign body : Bytes) :
    laid noWidth.value left_ zero sign body = sign ++ body := by
  have none_ : (noWidth.value - sign.length - body.length).toNat = 0 := by
    have zero_ : noWidth.value = 0 := rfl
    rw [zero_]
    omega
  unfold laid
  rw [none_]
  cases left_ with
  | true => simp
  | false => cases zero <;> simp

theorem printed_eq (kind : Kind) (v : UInt64) : printed kind.byte v =
    some (integerSign [] kind (integerValue .ll kind v) ++
      integerBody [] kind none (integerValue .ll kind v)) := by
  have plain : (Item.directive [] noWidth .absent (.integer .ll kind v)).misprinted = false := by
    cases kind <;> rfl
  have produced := (produced_iff _).mpr plain
  have whole := vfprintf_produced false (fun _ => 0) [.directive [] noWidth .absent (.integer .ll kind v)]
  rw [producedOf, List.flatMap_singleton, produced] at whole
  refine (congrArg (Option.map Prod.fst) whole).trans ?_
  have text : (Item.directive [] noWidth .absent (.integer .ll kind v)).text =
      integerSign [] kind (integerValue .ll kind v) ++
        integerBody [] kind none (integerValue .ll kind v) := by
    unfold Item.text
    exact laid_none ..
  rw [text]
  rfl

theorem printed_longest (kind : Kind) (v : UInt64) : ∃ text, printed kind.byte v = some text ∧
    Longest kind.base text text (decide (integerValue .ll kind v < 0)) (integerValue .ll kind v).natAbs := by
  obtain ⟨inside, value⟩ := numeral_digits kind.upper (Nat.lt_of_lt_of_le (by decide) (base_range kind).1)
    (base_range kind).2 (integerValue .ll kind v).natAbs
  refine ⟨_, printed_eq kind v, ?_, List.prefix_refl _, fun q neg n form starts => starts.length_le⟩
  have natural : kind.signed = false → 0 ≤ integerValue .ll kind v := by
    intro unsigned
    rw [integerValue, unsigned, if_neg Bool.false_ne_true]
    exact Int.emod_nonneg _ (by decide)
  generalize integerValue .ll kind v = m at inside value natural ⊢
  have signed_ : Signed (integerSign [] kind m) (decide (m < 0)) := by
    unfold integerSign
    cases is : kind.signed with
    | true =>
        by_cases negative : m < 0
        · simpa [negative] using Signed.minus
        · simpa [negative] using Signed.none_
    | false =>
        have nonneg := Int.not_lt.mpr (natural is)
        simpa [nonneg] using Signed.none_
  have body : integerBody [] kind none m =
      List.replicate (1 - (numeral kind.base kind.upper m.natAbs).length) (ch '0') ++
        numeral kind.base kind.upper m.natAbs := by
    simp [integerBody]
  have zero_digit : inBase kind.base (ch '0') = true := by cases kind <;> decide
  have some_ : integerBody [] kind none m ≠ [] := by
    rw [body]
    cases numeral kind.base kind.upper m.natAbs with
    | nil => exact List.cons_ne_nil _ _
    | cons d ds => exact List.append_ne_nil_of_right_ne_nil _ (List.cons_ne_nil _ _)
  have digits : ∀ c ∈ integerBody [] kind none m, inBase kind.base c = true := by
    intro c member
    rw [body] at member
    rcases List.mem_append.mp member with front | back
    · rw [(List.mem_replicate.mp front).2]
      exact zero_digit
    · exact inside c back
  have worth : valueOf kind.base (integerBody [] kind none m) = m.natAbs := by
    have nothing (k : Nat) (ds : Bytes) :
        valueOf kind.base (List.replicate k (ch '0') ++ ds) = valueOf kind.base ds := by
      induction k with
      | zero => rfl
      | succ k ih =>
          rw [List.replicate_succ, List.cons_append, valueOf, List.foldl_cons, Nat.zero_mul, Nat.zero_add]
          exact ih
    rw [body, nothing, value]
  have fixed : kind.base ≠ 0 := Nat.ne_of_gt (Nat.lt_of_lt_of_le (by decide) (base_range kind).1)
  have form : Form kind.base ([] ++ (integerSign [] kind m ++ ([] ++ integerBody [] kind none m)))
      (decide (m < 0)) _ :=
    .intro (fun c member => absurd member List.not_mem_nil) signed_ (.given _ fixed) some_ digits
  rw [worth] at form
  exact form

end Printed

/-! ## Both functions -/

/-- The longest number of the text is consumed and its value given, or nothing is. -/
def Parsed (base : Nat) (text : Bytes) (errno : Int) : Prop :=
  (∃ p neg n, Longest base text p neg n ∧ strtoll text base errno = longLong neg n p.length errno ∧
    strtoull text base errno = unsignedLongLong neg n p.length errno) ∨
  (∀ p neg n, Form base p neg n → ¬p <+: text) ∧ strtoll text base errno = ⟨0, 0, errno⟩ ∧
    strtoull text base errno = ⟨0, 0, errno⟩

/-- What a conversion prints, read in its base, is the value again. -/
def GivenBack (v : UInt64) (errno : Int) : Prop :=
  (∃ text, printed (ch 'd') v = some text ∧ strtoll text 10 errno = ⟨signed 64 v.toNat, text.length, errno⟩) ∧
  ∀ kind ∈ [Kind.x, .o, .u], ∃ text, printed kind.byte v = some text ∧
    strtoull text kind.base errno = ⟨v.toNat, text.length, errno⟩

theorem longest_parsed {base : Nat} (valid : base = 0 ∨ 2 ≤ base ∧ base ≤ 36) {text p : Bytes}
    {neg : Bool} {n : Nat}
    (longest : Longest base text p neg n) (errno : Int) :
    strtoll text base errno = longLong neg n p.length errno ∧
      strtoull text base errno = unsignedLongLong neg n p.length errno := by
  obtain ⟨some_, whole, rfl, rfl⟩ := longest_iff.mp longest
  have lengths := congrArg List.length whole
  rw [List.length_append] at lengths
  have length_ : p.length = consumed base text := by
    rw [consumed]
    omega
  rw [length_]
  obtain ⟨v, range, parsed, kept⟩ := parse_some valid (llongMax + 1) (by decide) some_
  obtain ⟨w, range', parsed', kept'⟩ := parse_some valid ullongMax (by decide) some_
  exact ⟨strtoll_of parsed kept errno, strtoull_of parsed' kept' errno⟩

theorem text_parsed {base : Nat} (valid : base = 0 ∨ 2 ≤ base ∧ base ≤ 36) (text : Bytes) (errno : Int) :
    Parsed base text errno := by
  by_cases none_ : digitsRead base text = []
  · refine .inr ⟨fun p neg n form starts => (form_read form starts).1 none_, ?_, ?_⟩
    · have := strtoll_of (n := 0) (parse_none valid (llongMax + 1) (by decide) none_) ⟨rfl, rfl⟩ errno
      rw [this]
      cases (afterSign text).1 <;> rfl
    · have := strtoull_of (n := 0) (parse_none valid ullongMax (by decide) none_) ⟨rfl, rfl⟩ errno
      rw [this]
      cases (afterSign text).1 <;> rfl
  · obtain ⟨p, whole, form⟩ := consumed_form none_
    have longest : Longest base text p (afterSign text).1 (valueRead base text) :=
      longest_iff.mpr ⟨none_, whole, rfl, rfl⟩
    exact .inl ⟨p, _, _, longest, longest_parsed valid longest errno⟩

theorem kind_range (kind : Kind) : 2 ≤ kind.base ∧ kind.base ≤ 36 :=
  ⟨Nat.le_trans (by decide) (base_range kind).1, Nat.le_trans (base_range kind).2 (by decide)⟩

theorem given_back (v : UInt64) (errno : Int) : GivenBack v errno := by
  constructor
  · obtain ⟨text, same, longest⟩ := printed_longest .d v
    refine ⟨text, same, (longest_parsed (.inr (kind_range .d)) longest errno).1.trans ?_⟩
    have value : integerValue .ll .d v = signed 64 v.toNat := by
      have bits : Length.ll.bits = 64 := rfl
      have signed_ : Kind.d.signed = true := rfl
      rw [integerValue, if_pos signed_, bits]
    have range : -2 ^ 63 ≤ signed 64 v.toNat ∧ signed 64 v.toNat < 2 ^ 63 :=
      signed_range (bits_range .ll) v.toNat
    rw [value]
    generalize signed 64 v.toNat = m at range ⊢
    have same_ : signedValue (decide (m < 0)) m.natAbs = m := by
      unfold signedValue
      by_cases negative : m < 0
      · rw [decide_eq_true negative, if_pos rfl]
        omega
      · rw [decide_eq_false negative, if_neg Bool.false_ne_true]
        omega
    rw [longLong, same_, if_neg (Int.not_lt.mpr range.1), if_neg (Int.not_le.mpr range.2)]
  · intro kind member
    have room := v.toNat_lt
    obtain ⟨text, same, longest⟩ := printed_longest kind v
    have value : integerValue .ll kind v = v.toNat := by
      have unsigned : kind.signed = false := by
        rcases List.mem_cons.mp member with rfl | member
        · rfl
        · rcases List.mem_pair.mp member with rfl | rfl <;> rfl
      rw [integerValue, unsigned, if_neg Bool.false_ne_true]
      exact Int.emod_eq_of_lt (Int.natCast_nonneg _) (by exact_mod_cast room)
    refine ⟨text, same, ?_⟩
    rw [(longest_parsed (.inr (kind_range kind)) longest errno).2, value, Int.natAbs_natCast,
      decide_eq_false (Int.not_lt.mpr (Int.natCast_nonneg _)), unsignedLongLong, if_pos room, signedValue,
      if_neg Bool.false_ne_true]
    congr 1
    exact Int.emod_eq_of_lt (Int.natCast_nonneg _) (by exact_mod_cast room)

/-- `strtoll` and `strtoull` read the longest number of any text in any base, and
give back every value that `printf` prints. -/
theorem integers_parsed {base : Nat} (valid : base = 0 ∨ 2 ≤ base ∧ base ≤ 36) (text : Bytes) (errno : Int) :
    Parsed base text errno ∧ ∀ v, GivenBack v errno :=
  ⟨text_parsed valid text errno, fun v => given_back v errno⟩

theorem hex_parsed : (strtoll [ch ' ', ch '-', ch '0', ch 'x', ch 'f', ch 'g'] 0 0 = ⟨-15, 5, 0⟩ ∧
    strtoull [ch '0', ch 'x', ch 'g'] 16 0 = ⟨0, 1, 0⟩) ∧
    Parsed 0 [ch ' ', ch '-', ch '0', ch 'x', ch 'f', ch 'g'] 0 ∧ ∀ v, GivenBack v 0 :=
  ⟨⟨by decide, by decide⟩, integers_parsed (.inl rfl) _ 0⟩

end R2Apps.TccStrtol
