import Mathlib.Data.Nat.Digits.Lemmas
import R2Apps.TccPrintf

/-! Formats of ordinary text and of the conversions of integers, characters and
strings, with the text C99 prescribes for them, and what `format` makes of them.
The two differ at octal in the alternate form, of the value zero with the
precision zero, for which C99 asks for a single zero, and at wide characters,
which `format` takes for narrow ones. -/
namespace R2Apps.TccConversions
open R2Apps.ByteMemory R2Apps.BufferPrefixes R2Apps.TccPrintf

/-! ## Numerals -/

section Numerals

/-- The digits of a number, none for zero. -/
def numeral (base : Nat) (upper : Bool) (n : Nat) : Bytes := (Nat.digits base n).reverse.map (digitChar upper)

theorem numeral_zero (base : Nat) (upper : Bool) : numeral base upper 0 = [] := by simp [numeral]

theorem numeral_step {base n : Nat} (upper : Bool) (large : 1 < base) (some_ : n ≠ 0) :
    numeral base upper n = numeral base upper (n / base) ++ [digitChar upper (n % base)] := by
  rw [numeral, Nat.digits_def' large (Nat.pos_of_ne_zero some_), List.reverse_cons, List.map_append]
  rfl

theorem numeral_nil {base n : Nat} (upper : Bool) : numeral base upper n = [] ↔ n = 0 := by
  simp [numeral, Nat.digits_eq_nil_iff_eq_zero]

theorem digitLoop_eq {base : Nat} (upper : Bool) (large : 1 < base) (fuel : Nat) {v : Nat}
    (small : v < base ^ fuel)
    (body : Bytes) : digitLoop base upper fuel v body = numeral base upper v ++ body := by
  induction fuel generalizing v body with
  | zero =>
      rw [Nat.pow_zero] at small
      rw [Nat.lt_one_iff.mp small, numeral_zero]
      rfl
  | succ fuel ih =>
      unfold digitLoop
      by_cases zero : v = 0
      · rw [if_pos zero, zero, numeral_zero]
        rfl
      · have smaller : v / base < base ^ fuel := Nat.div_lt_of_lt_mul (by rwa [Nat.mul_comm, ← Nat.pow_succ])
        rw [if_neg zero, ih smaller, numeral_step upper large zero, List.append_assoc]
        rfl

theorem digitChar_zero : ∀ upper, ∀ d < 16, digitChar upper d = ch '0' → d = 0 := by decide

theorem numeral_head {base n : Nat} (upper : Bool) (large : 1 < base) (small : base ≤ 16) :
    (numeral base upper n).head? ≠ some (ch '0') := by
  intro first
  rw [numeral, List.head?_map, List.head?_reverse] at first
  obtain ⟨d, last, zero⟩ := Option.map_eq_some_iff.mp first
  have some_ : Nat.digits base n ≠ [] := by
    intro none_
    rw [none_] at last
    cases last
  have nonzero := Nat.getLast_digit_ne_zero base (Nat.digits_ne_nil_iff_ne_zero.mp some_)
  rw [List.getLast?_eq_some_getLast some_, Option.some.injEq] at last
  have digit : d < base := by
    rw [← last]
    exact Nat.digits_lt_base large (List.getLast_mem some_)
  rw [last] at nonzero
  exact nonzero (digitChar_zero upper d (Nat.lt_of_lt_of_le digit small) zero)

end Numerals

/-! ## Formats -/

inductive Flag where
  | minus | plus | space | hash | zero
  deriving DecidableEq

def Flag.byte : Flag → UInt8
  | .minus => ch '-'
  | .plus => ch '+'
  | .space => ch ' '
  | .hash => ch '#'
  | .zero => ch '0'

def decimalValue (ds : List (Fin 10)) : Nat := ds.foldl (fun n d => n * 10 + d.val) 0

/-- A decimal number as it stands in a format. -/
structure Literal where
  digits : List (Fin 10)
  small : decimalValue digits < 2 ^ 31

def digitByte (d : Fin 10) : UInt8 := UInt8.ofNat (48 + d.val)

/-- A literal of no digits is a width that is not given. -/
inductive Width where
  | literal (n : Literal) (first : n.digits.head? ≠ some 0)
  | star (w : UInt32) (small : w ≠ 0x80000000)

inductive Precision where
  | absent
  | literal (n : Literal)
  | star (w : UInt32) (small : w ≠ 0x80000000)

inductive Length where
  | int | hh | h | l | ll | z | j | t

/-- A wide character whose byte C99 fixes. What byte another one has, and whether
it has any, is left to the implementation, and no text is prescribed for it. -/
structure WideChar where
  code : UInt32
  basic : code.toNat < 128

inductive Kind where
  | d | i | u | o | x | X
  deriving DecidableEq

/-- A conversion with its argument, of which `int` takes the low half. `lc` and
`ls` have wide arguments; a wide string is what stands before its terminator. A
length C99 leaves undefined for a conversion is taken as without effect. -/
inductive Conversion where
  | integer (length : Length) (kind : Kind) (w : UInt64)
  | character (length : Length) (narrow : length ≠ .l) (w : UInt32)
  | string (length : Length) (narrow : length ≠ .l) (s : Option Bytes)
  | wideCharacter (c : WideChar)
  | wideString (s : Option (List WideChar))
  | percent (length : Length)

inductive Item where
  | plain (b : UInt8) (ordinary : b ≠ 0 ∧ b ≠ ch '%')
  | directive (flags : List Flag) (width : Width) (prec : Precision) (conv : Conversion)

def Literal.render (n : Literal) : Bytes := n.digits.map digitByte

def Width.render : Width → Bytes
  | .literal n _ => n.render
  | .star _ _ => [ch '*']

def Precision.render : Precision → Bytes
  | .absent => []
  | .literal n => ch '.' :: n.render
  | .star _ _ => [ch '.', ch '*']

def Length.render : Length → Bytes
  | .int => []
  | .hh => [ch 'h', ch 'h']
  | .h => [ch 'h']
  | .l => [ch 'l']
  | .ll => [ch 'l', ch 'l']
  | .z => [ch 'z']
  | .j => [ch 'j']
  | .t => [ch 't']

def Kind.byte : Kind → UInt8
  | .d => ch 'd'
  | .i => ch 'i'
  | .u => ch 'u'
  | .o => ch 'o'
  | .x => ch 'x'
  | .X => ch 'X'

def Conversion.length : Conversion → Length
  | .integer length _ _ | .character length _ _ | .string length _ _ | .percent length => length
  | .wideCharacter _ | .wideString _ => .l

def Conversion.byte : Conversion → UInt8
  | .integer _ kind _ => kind.byte
  | .character _ _ _ | .wideCharacter _ => ch 'c'
  | .string _ _ _ | .wideString _ => ch 's'
  | .percent _ => ch '%'

def Item.render : Item → Bytes
  | .plain b _ => [b]
  | .directive flags width prec conv =>
      ch '%' :: (flags.map Flag.byte ++
        (width.render ++ (prec.render ++ (conv.length.render ++ [conv.byte]))))

def Length.bits : Length → Nat
  | .hh => 8
  | .h => 16
  | .int => 32
  | _ => 64

def Width.args : Width → List Arg
  | .literal _ _ => []
  | .star w _ => [.int w]

def Precision.args : Precision → List Arg
  | .star w _ => [.int w]
  | _ => []

/-- A wide character in memory, low byte first. -/
def WideChar.memory (c : WideChar) : Bytes :=
  [UInt8.ofNat c.code.toNat, UInt8.ofNat (c.code.toNat / 2 ^ 8), UInt8.ofNat (c.code.toNat / 2 ^ 16),
    UInt8.ofNat (c.code.toNat / 2 ^ 24)]

def Conversion.args : Conversion → List Arg
  | .integer length _ w => if length.bits = 64 then [.long w] else [.int (UInt32.ofNat w.toNat)]
  | .character _ _ w => [.int w]
  | .string _ _ s => [.string s]
  | .wideCharacter c => [.int c.code]
  | .wideString s => [.string (s.map fun ws => ws.flatMap WideChar.memory)]
  | .percent _ => []

def Item.args : Item → List Arg
  | .plain _ _ => []
  | .directive _ width prec conv => width.args ++ (prec.args ++ conv.args)

/-! ## The text C99 prescribes -/

def Width.value : Width → Int
  | .literal n _ => decimalValue n.digits
  | .star w _ => (signed 32 w.toNat).natAbs

/-- A negative width is the flag `-` followed by a positive one. -/
def Width.leftward : Width → Bool
  | .literal _ _ => false
  | .star w _ => decide (signed 32 w.toNat < 0)

/-- A negative precision is taken as if it were omitted. -/
def Precision.value : Precision → Option Nat
  | .absent => none
  | .literal n => some (decimalValue n.digits)
  | .star w _ => if signed 32 w.toNat < 0 then none else some (signed 32 w.toNat).toNat

def Kind.signed : Kind → Bool
  | .d | .i => true
  | _ => false

def Kind.base : Kind → Nat
  | .d | .i | .u => 10
  | .o => 8
  | .x | .X => 16

def Kind.upper (kind : Kind) : Bool := kind == .X

/-- The argument, converted to the type its length asks for. -/
def integerValue (length : Length) (kind : Kind) (w : UInt64) : Int :=
  if kind.signed then signed length.bits w.toNat else (w.toNat : Int) % 2 ^ length.bits

def integerSign (flags : List Flag) (kind : Kind) (value : Int) : Bytes :=
  if kind.signed then
    if value < 0 then [ch '-'] else if .plus ∈ flags then [ch '+'] else if .space ∈ flags
      then [ch ' '] else []
  else if .hash ∈ flags ∧ value ≠ 0 then
    match kind with
    | .x => [ch '0', ch 'x']
    | .X => [ch '0', ch 'X']
    | _ => []
  else []

/-- The precision is the least number of digits; with `#` an octal number has a zero in front of it. -/
def integerBody (flags : List Flag) (kind : Kind) (prec : Option Nat) (value : Int) : Bytes :=
  let digits := numeral kind.base kind.upper value.natAbs
  let digits := List.replicate (prec.getD 1 - digits.length) (ch '0') ++ digits
  if .hash ∈ flags ∧ kind = .o ∧ digits.head? ≠ some (ch '0') then ch '0' :: digits else digits

/-- As much of a text as a precision lets through. -/
def upTo (prec : Option Nat) (shown : Bytes) : Bytes :=
  match prec with
  | none => shown
  | some p => shown.take p

def stringText (s : Option Bytes) (prec : Option Nat) : Bytes :=
  upTo prec ((s.getD [ch '(', ch 'n', ch 'u', ch 'l', ch 'l', ch ')']).takeWhile (· ≠ 0))

/-- The wide characters up to a terminator, each as the byte it has. -/
def wideShown (ws : List WideChar) : Bytes :=
  (ws.takeWhile fun c => c.code.toNat ≠ 0).map fun c => UInt8.ofNat c.code.toNat

def wideText (s : Option (List WideChar)) (prec : Option Nat) : Bytes :=
  match s with
  | some ws => upTo prec (wideShown ws)
  | none => stringText none prec

def Item.text : Item → Bytes
  | .plain b _ => [b]
  | .directive flags width prec conv =>
      let left_ := decide (.minus ∈ flags) || width.leftward
      match conv with
      | .integer length kind w =>
          let value := integerValue length kind w
          laid width.value left_ (decide (.zero ∈ flags) && !left_ && prec.value.isNone)
            (integerSign flags kind value) (integerBody flags kind prec.value value)
      | .character _ _ w => laid width.value left_ false [] [UInt8.ofNat w.toNat]
      | .string _ _ s => laid width.value left_ false [] (stringText s prec.value)
      -- as a wide string of the one character: the null character has no text
      | .wideCharacter c => laid width.value left_ false [] (wideShown [c])
      | .wideString s => laid width.value left_ false [] (wideText s prec.value)
      | .percent _ => [ch '%']

/-- Octal, in the alternate form, of zero with the precision zero. -/
def Item.bareZero : Item → Bool
  | .directive flags _ prec (.integer length .o w) =>
      decide (.hash ∈ flags) && prec.value == some 0 && integerValue length .o w == 0
  | _ => false

/-- The null wide character, which has no text. -/
def Item.wideNull : Item → Bool
  | .directive _ _ _ (.wideCharacter c) => decide (c.code.toNat = 0)
  | _ => false

/-- A text of more than one character, the others of which are not blanks that the
width asks for. -/
def manyShown (width : Int) (left_ : Bool) (shown : Bytes) : Bool :=
  decide (1 < shown.length) &&
    !(decide (shown.length ≤ width) && (if left_ then shown.drop 1 else shown).all (· == ch ' '))

/-- A wide string of which more than the first character is to be seen. -/
def Item.wideMany : Item → Bool
  | .directive flags width prec (.wideString (some ws)) =>
      manyShown width.value (decide (.minus ∈ flags) || width.leftward) (wideText (some ws) prec.value)
  | _ => false

/-- An item `format` makes something else of than C99. -/
def Item.misprinted (i : Item) : Bool := i.bareZero || i.wideNull || i.wideMany

/-- What the code makes of an item: it does not look at the length of `c` and `s`. -/
def Item.produced : Item → Bytes
  | .plain b _ => [b]
  | .directive flags width _ (.wideCharacter c) =>
      laid width.value (decide (.minus ∈ flags) || width.leftward) false [] [UInt8.ofNat c.code.toNat]
  | .directive flags width prec (.wideString s) =>
      laid width.value (decide (.minus ∈ flags) || width.leftward) false []
        (stringText (s.map fun ws => ws.flatMap WideChar.memory) prec.value)
  | .directive flags width prec conv =>
      if (Item.directive flags width prec conv).bareZero then
        laid width.value (decide (.minus ∈ flags) || width.leftward) false [] []
      else (Item.directive flags width prec conv).text

def render (items : List Item) : Bytes := items.flatMap Item.render
def argsOf (items : List Item) : List Arg := items.flatMap Item.args
def textOf (items : List Item) : Bytes := items.flatMap Item.text
def producedOf (items : List Item) : Bytes := items.flatMap Item.produced

/-! ## Reading a directive -/

section Reading

def Flag.set (f : Flags) : Flag → Flags
  | .minus => { f with left_ := true }
  | .plus => { f with plus := true }
  | .space => { f with space := true }
  | .hash => { f with alt := true }
  | .zero => { f with zero := true }

def flagsOf (flags : List Flag) : Flags := flags.foldl Flag.set {}

theorem setFlag_byte (f : Flags) (flag : Flag) : setFlag f flag.byte = some (flag.set f) := by
    cases flag <;> rfl

/-- No flag begins with this byte. -/
def pastFlags (fmt : Bytes) : Prop := ∀ b, fmt.head? = some b → ∀ f, setFlag f b = none

theorem readFlags_render (flags : List Flag) (f : Flags) {rest : Bytes} (past : pastFlags rest) :
    readFlags f (flags.map Flag.byte ++ rest) = (flags.foldl Flag.set f, rest) := by
  induction flags generalizing f with
  | nil =>
      cases rest with
      | nil => rfl
      | cons b rest =>
          rw [List.map_nil, List.nil_append, readFlags, past b rfl f]
          rfl
  | cons flag flags ih =>
      rw [List.map_cons, List.cons_append, readFlags, setFlag_byte]
      exact ih (flag.set f)

theorem flags_set (flags : List Flag) (f : Flags) :
    (flags.foldl Flag.set f).left_ = (f.left_ || decide (.minus ∈ flags)) ∧
    (flags.foldl Flag.set f).plus = (f.plus || decide (.plus ∈ flags)) ∧
    (flags.foldl Flag.set f).space = (f.space || decide (.space ∈ flags)) ∧
    (flags.foldl Flag.set f).alt = (f.alt || decide (.hash ∈ flags)) ∧
    (flags.foldl Flag.set f).zero = (f.zero || decide (.zero ∈ flags)) := by
  induction flags generalizing f with
  | nil => simp
  | cons flag flags ih =>
      obtain ⟨left_, plus, space, alt, zero⟩ := ih (flag.set f)
      rw [List.foldl_cons, left_, plus, space, alt, zero]
      cases flag <;> simp [Flag.set]

theorem flagsOf_eq (flags : List Flag) : flagsOf flags =
    ⟨decide (.minus ∈ flags), decide (.plus ∈ flags), decide (.space ∈ flags), decide (.hash ∈ flags),
      decide (.zero ∈ flags)⟩ := by
  obtain ⟨left_, plus, space, alt, zero⟩ := flags_set flags {}
  unfold flagsOf
  generalize flags.foldl Flag.set {} = f at left_ plus space alt zero ⊢
  cases f
  dsimp only at left_ plus space alt zero
  rw [left_, plus, space, alt, zero]
  rfl

theorem isDigit_byte :
    ∀ d : Fin 10, isDigit (digitByte d) = true ∧ ((digitByte d).toNat : Int) - 48 = d.val := by
  decide

def pastDigits (fmt : Bytes) : Prop := ∀ b, fmt.head? = some b → isDigit b = false

theorem readNumber_render (ds : List (Fin 10)) (n : Nat) {rest : Bytes} (past : pastDigits rest) :
    readNumber n (ds.map digitByte ++ rest) =
      (((ds.foldl (fun n d => n * 10 + d.val) n : Nat) : Int), rest) := by
  induction ds generalizing n with
  | nil =>
      cases rest with
      | nil => rfl
      | cons b rest =>
          rw [List.map_nil, List.nil_append, readNumber, past b rfl, if_neg Bool.false_ne_true]
          rfl
  | cons d ds ih =>
      obtain ⟨digit, value⟩ := isDigit_byte d
      have next := ih (n * 10 + d.val)
      rw [List.map_cons, List.cons_append, readNumber, if_pos digit, value, List.foldl_cons, ← next]
      push_cast
      rfl

/-- The letters of lengths and conversions. -/
def letters : Bytes :=
  [ch 'h', ch 'l', ch 'z', ch 'j', ch 't', ch 'd', ch 'i', ch 'u', ch 'o', ch 'x', ch 'X', ch 'c',
  ch 's', ch '%']

theorem letters_past : ∀ b ∈ letters, isDigit b = false ∧ b ≠ ch '*' ∧ b ≠ ch '.' ∧ b ≠ ch '-' ∧ b ≠ ch '+' ∧
    b ≠ ch ' ' ∧ b ≠ ch '#' ∧ b ≠ ch '0' := by decide +kernel

theorem letters_head (conv : Conversion) (rest : Bytes) :
    ∃ b ∈ letters, (conv.length.render ++ conv.byte :: rest).head? = some b := by
  cases conv with
  | integer length kind w =>
      cases length with
      | int => cases kind <;> exact ⟨_, by simp [letters, Conversion.byte, Kind.byte], rfl⟩
      | _ => exact ⟨_, by simp [letters], rfl⟩
  | character length _ _ | string length _ _ | percent length =>
      cases length <;> exact ⟨_, by simp [letters, Conversion.byte], rfl⟩
  | wideCharacter _ | wideString _ => exact ⟨_, by simp [letters], rfl⟩

/-- `lng` after the letters of a length. -/
def Length.lng : Length → Int
  | .hh => -2
  | .h => -1
  | .int => 0
  | _ => 1

theorem readLength_render (conv : Conversion) (rest : Bytes) :
    readLength 0 (conv.length.render ++ conv.byte :: rest) = (conv.length.lng, conv.byte :: rest) := by
  cases conv with
  | integer length kind w => cases length <;> cases kind <;> rfl
  | character length _ _ | string length _ _ | percent length => cases length <;> rfl
  | wideCharacter _ | wideString _ => rfl

/-- `prec` after the precision: negative where there is none. -/
def Precision.code : Precision → Int
  | .absent => -1
  | .literal n => decimalValue n.digits
  | .star w _ => signed 32 w.toNat

theorem setFlag_none {b : UInt8} (other : b ≠ ch '-' ∧ b ≠ ch '+' ∧ b ≠ ch ' ' ∧ b ≠ ch '#' ∧ b ≠ ch '0')
    (f : Flags) :
    setFlag f b = none := by
  obtain ⟨minus, plus, space, hash, zero⟩ := other
  rw [setFlag, if_neg minus, if_neg plus, if_neg space, if_neg hash, if_neg zero]

theorem afterWidth (prec : Precision) (conv : Conversion) (rest : Bytes) :
    ∃ b, (prec.render ++ (conv.length.render ++ conv.byte :: rest)).head? = some b ∧
      isDigit b = false ∧ b ≠ ch '*' ∧
      ∀ f, setFlag f b = none := by
  cases prec with
  | absent =>
      obtain ⟨b, letter, head⟩ := letters_head conv rest
      obtain ⟨digit, star, _, other⟩ := letters_past b letter
      exact ⟨b, head, digit, star, setFlag_none other⟩
  | literal n => exact ⟨ch '.', rfl, by decide, by decide, fun _ => rfl⟩
  | star w small => exact ⟨ch '.', rfl, by decide, by decide, fun _ => rfl⟩

theorem digit_flag :
    ∀ d : Fin 10, d ≠ 0 → digitByte d ≠ ch '-' ∧ digitByte d ≠ ch '+' ∧ digitByte d ≠ ch ' ' ∧
    digitByte d ≠ ch '#' ∧ digitByte d ≠ ch '0' := by decide

theorem digit_star : ∀ d : Fin 10, digitByte d ≠ ch '*' := by decide

theorem afterFlags (width : Width) (prec : Precision) (conv : Conversion) (rest : Bytes) :
    pastFlags (width.render ++ (prec.render ++ (conv.length.render ++ conv.byte :: rest))) := by
  intro b head
  cases width with
  | star w small =>
      cases head
      exact fun _ => rfl
  | literal n first =>
      obtain ⟨ds, small⟩ := n
      cases ds with
      | nil =>
          obtain ⟨b', head', _, _, other⟩ := afterWidth prec conv rest
          cases head'.symm.trans head
          exact other
      | cons d ds =>
          cases head
          refine setFlag_none (digit_flag d ?_)
          rintro rfl
          exact first rfl

theorem readWidth_render (f : Flags) (width : Width) (prec : Precision) (conv : Conversion) (rest : Bytes)
    (more : List Arg) :
    readWidth f (width.render ++ (prec.render ++ (conv.length.render ++ conv.byte :: rest)))
      (width.args ++ more) =
      some ({ f with left_ := f.left_ || width.leftward }, width.value,
        prec.render ++ (conv.length.render ++ conv.byte :: rest), more) := by
  obtain ⟨b, head, digit, star, _⟩ := afterWidth prec conv rest
  generalize prec.render ++ (conv.length.render ++ conv.byte :: rest) = after at head ⊢
  unfold readWidth
  cases width with
  | star w small =>
      have here : ((Width.star w small).render ++ after).head? = some (ch '*') := rfl
      rw [if_pos here]
      simp only [Width.args, Width.render, List.singleton_append, vaInt, Option.map_some,
        Width.leftward, Width.value]
      split
      · rename_i negative
        rw [Int.ofNat_natAbs_of_nonpos (Int.le_of_lt negative), decide_eq_true negative,
          Bool.or_true, List.tail_cons]
      · rename_i natural
        rw [Int.natAbs_of_nonneg (Int.not_lt.mp natural), decide_eq_false natural, Bool.or_false,
          List.tail_cons]
  | literal n first =>
      have literal_ : (Width.literal n first).render ++ after = n.digits.map digitByte ++ after := rfl
      have none_ : ((Width.literal n first).render ++ after).head? ≠ some (ch '*') := by
        rw [literal_]
        obtain ⟨ds, small⟩ := n
        cases ds with
        | nil =>
            rw [List.map_nil, List.nil_append, head]
            exact fun same => star (Option.some.inj same)
        | cons d ds => exact fun same => digit_star d (Option.some.inj same)
      have past : pastDigits after := by
        intro b' head'
        cases head.symm.trans head'
        exact digit
      have number := readNumber_render n.digits 0 past
      rw [if_neg none_, literal_]
      rw [Int.natCast_zero] at number
      rw [number]
      simp [Width.args, Width.leftward, Width.value, decimalValue]

theorem readPrecision_render (prec : Precision) (conv : Conversion) (rest : Bytes) (more : List Arg) :
    readPrecision (prec.render ++ (conv.length.render ++ conv.byte :: rest)) (prec.args ++ more) =
      some (prec.code, conv.length.render ++ conv.byte :: rest, more) := by
  obtain ⟨b, letter, head⟩ := letters_head conv rest
  obtain ⟨digit, star, dot, _⟩ := letters_past b letter
  generalize conv.length.render ++ conv.byte :: rest = after at head ⊢
  have past : pastDigits after := by
    intro b' head'
    cases head.symm.trans head'
    exact digit
  unfold readPrecision
  cases prec with
  | absent =>
      have none_ : (Precision.absent.render ++ after).head? ≠ some (ch '.') := by
        change after.head? ≠ _
        rw [head]
        exact fun same => dot (Option.some.inj same)
      rw [if_neg none_]
      rfl
  | literal n =>
      have number := readNumber_render n.digits 0 past
      have none_ : (n.render ++ after).head? ≠ some (ch '*') := by
        obtain ⟨ds, small⟩ := n
        cases ds with
        | nil =>
            change after.head? ≠ _
            rw [head]
            exact fun same => star (Option.some.inj same)
        | cons d ds => exact fun same => digit_star d (Option.some.inj same)
      have here : ((Precision.literal n).render ++ after).head? = some (ch '.') := rfl
      have tail : ((Precision.literal n).render ++ after).tail = n.render ++ after := rfl
      rw [if_pos here, tail, if_neg none_]
      rw [Int.natCast_zero] at number
      rw [Literal.render, number]
      rfl
  | star w small =>
      have here : ((Precision.star w small).render ++ after).head? = some (ch '.') := rfl
      have next : ((Precision.star w small).render ++ after).tail.head? = some (ch '*') := rfl
      rw [if_pos here, if_pos next]
      rfl

def flagsFor (flags : List Flag) (width : Width) : Flags where
  left_ := decide (.minus ∈ flags) || width.leftward
  plus := decide (.plus ∈ flags)
  space := decide (.space ∈ flags)
  alt := decide (.hash ∈ flags)
  zero := decide (.zero ∈ flags) && !(decide (.minus ∈ flags) || width.leftward)

theorem readDirective_render (flags : List Flag) (width : Width) (prec : Precision)
    (conv : Conversion) (rest : Bytes)
    (more : List Arg) :
    readDirective (flags.map Flag.byte ++
      (width.render ++ (prec.render ++ (conv.length.render ++ conv.byte :: rest))))
        (width.args ++ (prec.args ++ more)) =
      some (⟨flagsFor flags width, width.value, prec.code, conv.length.lng⟩, conv.byte :: rest, more) := by
  have read := readFlags_render flags {} (afterFlags width prec conv rest)
  have set := flagsOf_eq flags
  unfold flagsOf at set
  unfold readDirective
  rw [read, set]
  dsimp only
  rw [readWidth_render]
  dsimp only [Option.bind_some]
  rw [readPrecision_render]
  dsimp only [Option.map_some]
  rw [readLength_render]
  dsimp only
  cases left_ : (decide (Flag.minus ∈ flags) || width.leftward) with
  | true => simp [flagsFor, left_]
  | false => simp [flagsFor, left_]

end Reading

/-! ## Converting -/

section Converting

theorem precision_cases (prec : Precision) :
    (prec.value = none ∧ prec.code < 0) ∨ ∃ p : Nat, prec.value = some p ∧ prec.code = p := by
  cases prec with
  | absent => exact .inl ⟨rfl, by decide⟩
  | literal n => exact .inr ⟨_, rfl, rfl⟩
  | star w small =>
      simp only [Precision.value, Precision.code]
      generalize signed 32 w.toNat = value
      by_cases negative : value < 0
      · exact .inl ⟨if_pos negative, negative⟩
      · exact .inr ⟨_, if_neg negative, (Int.toNat_of_nonneg (Int.not_lt.mp negative)).symm⟩

theorem bits_range (length : Length) : 0 < length.bits ∧ length.bits ≤ 64 := by cases length <;> decide

theorem signed_range {n : Nat} (range : 0 < n ∧ n ≤ 64) (w : Nat) :
    -2 ^ 63 ≤ signed n w ∧ signed n w < 2 ^ 63 := by
  have power : 2 ^ n ≤ 2 ^ 64 := Nat.pow_le_pow_right (by decide) range.2
  have positive : 0 < 2 ^ n := Nat.two_pow_pos n
  unfold signed
  generalize 2 ^ n = m at power positive ⊢
  have low := Int.le_bmod (x := (w : Int)) positive
  have high := Int.bmod_lt (x := (w : Int)) positive
  omega

theorem magnitude {sv : Int} (range : -2 ^ 63 ≤ sv ∧ sv < 2 ^ 63) :
    (if sv < 0 then (0 - sv % 2 ^ 64) % 2 ^ 64 else sv).toNat = sv.natAbs := by
  split
  · omega
  · omega

theorem signedArg_args (length : Length) (w : UInt64) {kind : Kind} (more : List Arg) :
    signedArg length.lng ((Conversion.integer length kind w).args ++ more) =
      some (signed length.bits w.toNat, more) := by
  have low : (UInt32.ofNat w.toNat).toNat = w.toNat % 2 ^ 32 := UInt32.toNat_ofNat'
  have word : signed 32 (w.toNat % 2 ^ 32) = signed 32 w.toNat := by
    unfold signed
    rw [Int.natCast_mod]
    exact Int.emod_bmod _ _
  have short : ∀ n, (2 : Nat) ^ n ∣ 2 ^ 32 → (signed 32 w.toNat).bmod (2 ^ n) = signed n w.toNat := by
    intro n divides
    exact Int.bmod_bmod_of_dvd divides
  -- an `int` is narrowed once more for `h` and `hh`
  have long : signedArg 1 (.long w :: more) = some (signed 64 w.toNat, more) := by
    simp [signedArg, vaLong]
  have int (v : UInt32) : signedArg 0 (.int v :: more) = some (signed 32 v.toNat, more) := by
    simp [signedArg, vaInt]
  have h (v : UInt32) : signedArg (-1) (.int v :: more) = some ((signed 32 v.toNat).bmod (2 ^ 16), more) := by
    simp [signedArg, vaInt]
  have hh (v : UInt32) : signedArg (-2) (.int v :: more) = some ((signed 32 v.toNat).bmod (2 ^ 8), more) := by
    simp [signedArg, vaInt]
  cases length with
  | int => exact (int _).trans (by rw [low, word]; rfl)
  | h => exact (h _).trans (by rw [low, word, short 16 (by decide)]; rfl)
  | hh => exact (hh _).trans (by rw [low, word, short 8 (by decide)]; rfl)
  | _ => exact long

theorem unsignedArg_args (length : Length) (w : UInt64) {kind : Kind} (more : List Arg) :
    unsignedArg length.lng ((Conversion.integer length kind w).args ++ more) =
      some (w.toNat % 2 ^ length.bits, more) := by
  have low : (UInt32.ofNat w.toNat).toNat = w.toNat % 2 ^ 32 := UInt32.toNat_ofNat'
  have whole : w.toNat % 2 ^ 64 = w.toNat := Nat.mod_eq_of_lt w.toNat_lt
  have long : unsignedArg 1 (.long w :: more) = some (w.toNat % 2 ^ 64, more) := by
    rw [whole]
    rfl
  have int (v : UInt32) : unsignedArg 0 (.int v :: more) = some (v.toNat, more) := rfl
  have h (v : UInt32) : unsignedArg (-1) (.int v :: more) = some (v.toNat % 2 ^ 16, more) := rfl
  have hh (v : UInt32) : unsignedArg (-2) (.int v :: more) = some (v.toNat % 2 ^ 8, more) := rfl
  cases length with
  | int => exact (int _).trans (by rw [low]; rfl)
  | h => exact (h _).trans (by rw [low, Nat.mod_mod_of_dvd _ (by decide : 2 ^ 16 ∣ 2 ^ 32)]; rfl)
  | hh => exact (hh _).trans (by rw [low, Nat.mod_mod_of_dvd _ (by decide : 2 ^ 8 ∣ 2 ^ 32)]; rfl)
  | _ => exact long

theorem numeral_count {kind : Kind} {value : Int} :
    ((numeral kind.base kind.upper value.natAbs).length : Int) ≠ 0 ↔ value ≠ 0 := by
  rw [Int.natCast_ne_zero, ← Int.natAbs_ne_zero, ne_eq, ne_eq, List.length_eq_zero_iff, numeral_nil]

theorem base_range (kind : Kind) : 8 ≤ kind.base ∧ kind.base ≤ 16 := by cases kind <;> decide

section Integers
variable (flags : List Flag) (kind : Kind) {value : Int}

theorem sign_eq (natural : kind.signed = false → 0 ≤ value) :
    (if decide (value < 0) then [ch '-'] else if decide (.plus ∈ flags) && kind.signed then [ch '+']
      else if decide (.space ∈ flags) && kind.signed then [ch ' '] else []) ++
      (if decide (.hash ∈ flags) && decide (((numeral kind.base kind.upper value.natAbs).length : Int) ≠ 0) &&
          kind.base == 16 then (if kind.upper then [ch '0', ch 'X'] else [ch '0', ch 'x']) else []) =
      integerSign flags kind value := by
  simp only [numeral_count]
  unfold integerSign
  cases signed_ : kind.signed with
  | true =>
      have decimal : kind.base = 10 := by
        cases kind <;> first | rfl | cases signed_
      simp [decimal]
  | false =>
      have nonneg : ¬value < 0 := Int.not_lt.mpr (natural signed_)
      cases kind with
      | d => cases signed_
      | i => cases signed_
      | u => simp [nonneg, Kind.base]
      | o => simp [nonneg, Kind.base]
      | x => simp [nonneg, Kind.base, Kind.upper]
      | X => simp [nonneg, Kind.base, Kind.upper]

theorem body_eq {prec : Option Nat} (plain : ¬(.hash ∈ flags ∧ kind = .o ∧ prec = some 0 ∧ value = 0)) :
    let n := (numeral kind.base kind.upper value.natAbs).length
    List.replicate (if decide (.hash ∈ flags) && decide (value ≠ 0) && kind.base == 8 &&
      (prec.getD 1 - n) == 0 then 1
        else prec.getD 1 - n) (ch '0') ++ numeral kind.base kind.upper value.natAbs =
      integerBody flags kind prec value := by
  dsimp only
  unfold integerBody
  have range := base_range kind
  have head := numeral_head (n := value.natAbs) kind.upper (by omega : 1 < kind.base) range.2
  have empty := @numeral_nil kind.base value.natAbs kind.upper
  have octal : kind.base = 8 ↔ kind = .o := by cases kind <;> decide
  generalize numeral kind.base kind.upper value.natAbs = digits at head empty ⊢
  dsimp only
  by_cases alternate : .hash ∈ flags ∧ kind = .o
  · cases zeros : prec.getD 1 - digits.length with
    | succ k =>
        -- the precision has put a zero there
        simp [List.replicate_succ]
    | zero =>
        have some_ : value ≠ 0 := by
          rintro rfl
          have none_ : digits = [] := empty.mpr rfl
          rw [none_, List.length_nil, Nat.sub_zero] at zeros
          cases prec with
          | none => cases zeros
          | some p => exact plain ⟨alternate.1, alternate.2, congrArg some zeros, rfl⟩
        simp [alternate.1, alternate.2, Kind.base, some_, head]
  · have neither : ¬(.hash ∈ flags ∧ kind.base = 8) := fun both => alternate ⟨both.1, octal.mp both.2⟩
    have off : (decide (.hash ∈ flags) && decide (value ≠ 0) && kind.base == 8 &&
      (prec.getD 1 - digits.length) == 0) =
        false := by
      rw [Bool.eq_false_iff]
      intro on
      simp only [Bool.and_eq_true, decide_eq_true_eq, beq_iff_eq] at on
      exact neither ⟨on.1.1.1, on.1.2⟩
    rw [off, if_neg Bool.false_ne_true, if_neg (fun all => alternate ⟨all.1, all.2.1⟩)]

theorem fmtInt_holds {stale : Memory} {size : Nat} {file : Bool} {bytes : Bytes} {s : Sink}
    (holds : Holds stale size file bytes s) (width : Int) (left_ zero : Bool) (prec : Precision)
    (natural : kind.signed = false → 0 ≤ value) (small : value.natAbs < 2 ^ 64) :
    Holds stale size file
      (bytes ++ if .hash ∈ flags ∧ kind = .o ∧ prec.value = some 0 ∧ value = 0
        then laid width left_ false [] []
        else laid width left_ (zero && prec.value.isNone) (integerSign flags kind value)
          (integerBody flags kind prec.value value))
      (fmtInt s value.natAbs (decide (value < 0)) kind.base kind.upper width prec.code
        ⟨left_, decide (.plus ∈ flags) && kind.signed, decide (.space ∈ flags) &&
          kind.signed, decide (.hash ∈ flags),
          zero⟩) := by
  have range := base_range kind
  have fits : value.natAbs < kind.base ^ 24 :=
    Nat.lt_of_lt_of_le small (Nat.le_trans (by decide) (Nat.pow_le_pow_left range.1 24))
  have sign := sign_eq flags kind natural
  unfold fmtInt
  rw [digitLoop_eq kind.upper (by omega) 24 fits, List.append_nil]
  dsimp only
  have zero_ : (if prec.code < 0 then (⟨left_, decide (.plus ∈ flags) && kind.signed,
        decide (.space ∈ flags) && kind.signed, decide (.hash ∈ flags), zero⟩ : Flags)
      else ⟨left_, decide (.plus ∈ flags) && kind.signed, decide (.space ∈ flags) && kind.signed,
        decide (.hash ∈ flags), false⟩) =
      ⟨left_, decide (.plus ∈ flags) && kind.signed, decide (.space ∈ flags) &&
        kind.signed, decide (.hash ∈ flags),
        zero && prec.value.isNone⟩ := by
    rcases precision_cases prec with ⟨absent, negative⟩ | ⟨p, given, code⟩
    · rw [if_pos negative, absent, Option.isNone_none, Bool.and_true]
    · rw [if_neg (by omega), given, Option.isNone_some, Bool.and_false]
  rw [zero_]
  dsimp only
  rw [sign]
  simp only [numeral_count]
  have body := @body_eq flags kind value prec.value
  have none_ := @numeral_nil kind.base value.natAbs kind.upper
  dsimp only at body
  generalize numeral kind.base kind.upper value.natAbs = digits at body none_ ⊢
  -- the zeros that the precision asks for
  have zeros : (if (if prec.code < 0 then 1 else prec.code) > (digits.length : Int) then
      (if prec.code < 0 then 1 else prec.code) - (digits.length : Int) else 0) =
      ((prec.value.getD 1 - digits.length : Nat) : Int) := by
    rcases precision_cases prec with ⟨absent, negative⟩ | ⟨p, given, code⟩
    · rw [absent, if_pos negative, Option.getD_none]
      split <;> omega
    · have natural_ : ¬(p : Int) < 0 := by omega
      rw [given, code, if_neg natural_, Option.getD_some]
      split <;> omega
  rw [zeros]
  have whole : (if decide (.hash ∈ flags) && decide (value ≠ 0) && kind.base == 8 &&
        ((prec.value.getD 1 - digits.length : Nat) : Int) == 0 then 1
      else ((prec.value.getD 1 - digits.length : Nat) : Int)) =
      ((if decide (.hash ∈ flags) && decide (value ≠ 0) && kind.base == 8 &&
        (prec.value.getD 1 - digits.length) == 0
        then 1 else prec.value.getD 1 - digits.length : Nat) : Int) := by
    cases prec.value.getD 1 - digits.length with
    | zero => split <;> simp_all
    | succ k => simp; omega
  rw [whole]
  have laid_ := field_holds holds (integerSign flags kind value) digits
    (Int.natCast_nonneg (if decide (.hash ∈ flags) && decide (value ≠ 0) && kind.base == 8 &&
      (prec.value.getD 1 - digits.length) == 0 then 1 else prec.value.getD 1 - digits.length)) width
    ⟨left_, decide (.plus ∈ flags) && kind.signed, decide (.space ∈ flags) &&
      kind.signed, decide (.hash ∈ flags),
      zero && prec.value.isNone⟩
  rw [Int.toNat_natCast] at laid_
  by_cases bare : .hash ∈ flags ∧ kind = .o ∧ prec.value = some 0 ∧ value = 0
  · obtain ⟨alternate, octal, given, nothing⟩ := bare
    have empty : digits = [] := none_.mpr (by rw [nothing]; rfl)
    rw [if_pos ⟨alternate, octal, given, nothing⟩]
    subst octal nothing empty
    simpa [given, integerSign, Kind.signed] using laid_
  · rw [if_neg bare]
    rw [body bare] at laid_
    exact laid_

end Integers

/-- The part of a string that a precision lets through, `n` bytes of it being behind already. -/
def letThrough (prec : Option Nat) (n : Nat) (rest : Bytes) : Bytes :=
  match prec with
  | none => rest.takeWhile (· ≠ 0)
  | some p => (rest.takeWhile (· ≠ 0)).take (p - n)

theorem shownLength_eq (prec : Precision) (before rest : Bytes) :
    shownLength (before ++ rest) prec.code rest.length before.length =
      before.length + (letThrough prec.value before.length rest).length := by
  induction rest generalizing before with
  | nil => cases value : prec.value <;> simp [shownLength, letThrough]
  | cons b rest ih =>
      have here : (before ++ b :: rest).getD before.length 0 = b := by simp
      have next := ih (before ++ [b])
      rw [List.append_assoc, List.singleton_append, List.length_append, List.length_singleton] at next
      rw [List.length_cons, shownLength, here]
      by_cases end_ : b = 0
      · rw [if_neg (fun more => more.1 end_)]
        cases prec.value <;> simp [letThrough, end_]
      · rcases precision_cases prec with ⟨absent, negative⟩ | ⟨p, given, code⟩
        · rw [if_pos ⟨end_, .inl negative⟩, next, absent]
          simp [letThrough, end_]
          omega
        · by_cases room : before.length < p
          · obtain ⟨k, left_⟩ : ∃ k, p - before.length = k + 1 := ⟨p - before.length - 1, by omega⟩
            have later : p - (before.length + 1) = k := by omega
            rw [if_pos ⟨end_, .inr (by rw [code]; exact Int.ofNat_lt.mpr room)⟩, next, given]
            simp [letThrough, end_, left_, later]
            omega
          · have none_ : p - before.length = 0 := by omega
            rw [if_neg (by rw [code]; omega), given]
            simp [letThrough, none_]

theorem stringText_eq (s : Option Bytes) (prec : Precision) :
    let str := s.getD [ch '(', ch 'n', ch 'u', ch 'l', ch 'l', ch ')']
    str.take (shownLength str prec.code str.length 0) = stringText s prec.value := by
  dsimp only
  unfold stringText
  generalize s.getD [ch '(', ch 'n', ch 'u', ch 'l', ch 'l', ch ')'] = str
  have length := shownLength_eq prec [] str
  rw [List.nil_append, List.length_nil, Nat.zero_add] at length
  have part : letThrough prec.value 0 str <+: str := by
    unfold letThrough
    cases prec.value with
    | none => exact List.takeWhile_prefix _
    | some p => exact (List.take_prefix _ _).trans (List.takeWhile_prefix _)
  rw [length, ← List.prefix_iff_eq_take.mp part]
  rfl

theorem bare_iff (flags : List Flag) (width : Width) (prec : Precision) (length : Length)
    (kind : Kind) (w : UInt64) :
    (Item.directive flags width prec (.integer length kind w)).bareZero = true ↔
      .hash ∈ flags ∧ kind = .o ∧ prec.value = some 0 ∧ integerValue length kind w = 0 := by
  cases kind <;> simp [Item.bareZero, and_assoc]

theorem integerValue_range (length : Length) (kind : Kind) (w : UInt64) :
    (kind.signed = false → 0 ≤ integerValue length kind w) ∧
      (integerValue length kind w).natAbs < 2 ^ 64 := by
  have range := bits_range length
  unfold integerValue
  cases kind.signed with
  | true =>
      have range := signed_range range w.toNat
      refine ⟨fun no => Bool.noConfusion no, ?_⟩
      rw [if_pos rfl]
      omega
  | false =>
      have power : 2 ^ length.bits ≤ 2 ^ 64 := Nat.pow_le_pow_right (by decide) range.2
      have low : w.toNat % 2 ^ length.bits < 2 ^ length.bits := Nat.mod_lt _ (Nat.two_pow_pos _)
      rw [if_neg Bool.false_ne_true]
      have cast : (w.toNat : Int) % 2 ^ length.bits = ((w.toNat % 2 ^ length.bits : Nat) : Int) := by
        push_cast; rfl
      rw [cast]
      exact ⟨fun _ => Int.natCast_nonneg _, by rw [Int.natAbs_natCast]; omega⟩

theorem convert_signed {kind : Kind} (signed_ : kind.signed = true) (s : Sink) (d : Directive)
    (length : Length)
    (w : UInt64) (more : List Arg) (lng : d.lng = length.lng) :
    convert s d kind.byte ((Conversion.integer length kind w).args ++ more) =
      some (some (fmtInt s (integerValue length kind w).natAbs
        (decide (integerValue length kind w < 0)) kind.base
        kind.upper d.width d.prec d.flags, more)) := by
  have letter : kind.byte = ch 'd' ∨ kind.byte = ch 'i' := by
    cases kind <;> first | exact .inl rfl | exact .inr rfl | cases signed_
  have decimal : kind.base = 10 ∧ kind.upper = false := by
    cases kind <;> first | exact ⟨rfl, rfl⟩ | cases signed_
  have value : integerValue length kind w = signed length.bits w.toNat := if_pos signed_
  unfold convert
  rw [if_pos letter, lng, signedArg_args, value, decimal.1, decimal.2]
  dsimp only [Option.map_some]
  rw [magnitude (signed_range (bits_range length) w.toNat)]

theorem unsigned_letter (kind : Kind) (unsigned : kind.signed = false) :
    ¬(kind.byte = ch 'd' ∨ kind.byte = ch 'i') ∧
      (kind.byte = ch 'u' ∨ kind.byte = ch 'o' ∨ kind.byte = ch 'x' ∨ kind.byte = ch 'X') ∧
      (if kind.byte = ch 'u' then 10 else if kind.byte = ch 'o' then 8 else 16) = kind.base ∧
      (kind.byte == ch 'X') = kind.upper := by
  revert unsigned
  cases kind <;> decide

theorem convert_unsigned {kind : Kind} (unsigned : kind.signed = false) (s : Sink) (d : Directive)
    (length : Length)
    (w : UInt64) (more : List Arg) (lng : d.lng = length.lng) :
    convert s d kind.byte ((Conversion.integer length kind w).args ++ more) =
      some (some (fmtInt s (integerValue length kind w).natAbs
        (decide (integerValue length kind w < 0)) kind.base
        kind.upper d.width d.prec { d.flags with plus := false, space := false }, more)) := by
  have cast : integerValue length kind w = ((w.toNat % 2 ^ length.bits : Nat) : Int) := by
    unfold integerValue
    rw [unsigned, if_neg Bool.false_ne_true]
    push_cast
    rfl
  have value : (integerValue length kind w).natAbs = w.toNat % 2 ^ length.bits := by
    rw [cast, Int.natAbs_natCast]
  have natural : ¬integerValue length kind w < 0 := by
    rw [cast]
    omega
  obtain ⟨other, letter, base, upper⟩ := unsigned_letter kind unsigned
  unfold convert
  rw [if_neg other, if_pos letter, lng, unsignedArg_args, value, decide_eq_false natural]
  dsimp only [Option.map_some]
  rw [base, upper]

theorem convert_holds {stale : Memory} {size : Nat} {file : Bool} {bytes : Bytes} {s : Sink}
    (holds : Holds stale size file bytes s) (flags : List Flag) (width : Width) (prec : Precision)
    (conv : Conversion)
    (more : List Arg) :
    ∃ s', convert s ⟨flagsFor flags width, width.value, prec.code, conv.length.lng⟩ conv.byte
      (conv.args ++ more) =
        some (some (s', more)) ∧
      Holds stale size file (bytes ++ (Item.directive flags width prec conv).produced) s' := by
  cases conv with
  | percent length => exact ⟨_, rfl, out_holds holds [ch '%']⟩
  | character length narrow w =>
      refine ⟨_, rfl, ?_⟩
      have laid_ := field_holds holds [] [UInt8.ofNat w.toNat] (Int.le_refl 0) width.value
        (onlyLeft (flagsFor flags width))
      exact laid_
  -- the two wide ones are carried out as if they were narrow
  | wideCharacter c =>
      refine ⟨_, rfl, ?_⟩
      have laid_ := field_holds holds [] [UInt8.ofNat c.code.toNat] (Int.le_refl 0) width.value
        (onlyLeft (flagsFor flags width))
      exact laid_
  | wideString s =>
      refine ⟨_, rfl, ?_⟩
      have text := stringText_eq (s.map fun ws => ws.flatMap WideChar.memory) prec
      dsimp only at text
      have laid_ := field_holds holds [] (stringText (s.map fun ws => ws.flatMap WideChar.memory) prec.value)
        (Int.le_refl 0) width.value (onlyLeft (flagsFor flags width))
      rw [text]
      exact laid_
  | string length narrow str =>
      refine ⟨_, rfl, ?_⟩
      have text := stringText_eq str prec
      dsimp only at text
      have laid_ := field_holds holds [] (stringText str prec.value) (Int.le_refl 0) width.value
        (onlyLeft (flagsFor flags width))
      rw [text]
      exact laid_
  | integer length kind w =>
      obtain ⟨natural, small⟩ := integerValue_range length kind w
      have done := fmtInt_holds flags kind holds width.value (decide (.minus ∈ flags) || width.leftward)
        (decide (.zero ∈ flags) && !(decide (.minus ∈ flags) || width.leftward)) prec natural small
      have produced : (Item.directive flags width prec (.integer length kind w)).produced =
          if .hash ∈ flags ∧ kind = .o ∧ prec.value = some 0 ∧ integerValue length kind w = 0 then
            laid width.value (decide (.minus ∈ flags) || width.leftward) false [] []
          else (Item.directive flags width prec (.integer length kind w)).text := by
        unfold Item.produced
        simp only [bare_iff]
      rw [produced]
      cases signed_ : kind.signed with
      | true =>
          rw [signed_, Bool.and_true, Bool.and_true] at done
          exact ⟨_, convert_signed signed_ s _ length w more rfl, done⟩
      | false =>
          rw [signed_, Bool.and_false, Bool.and_false] at done
          exact ⟨_, convert_unsigned signed_ s _ length w more rfl, done⟩

end Converting

/-! ## Formats -/

section Formats

theorem conv_letter (conv : Conversion) : leftOut conv.byte = false := by
  cases conv with
  | integer length kind w => cases kind <;> rfl
  | _ => rfl

theorem plain_run (items : List Item) :
    ∃ run rest, render items = run ++ render rest ∧ argsOf items = argsOf rest ∧
    producedOf items = run ++ producedOf rest ∧ (∀ b ∈ run, b ≠ ch '%') ∧
    (rest = [] ∨ ∃ flags width prec conv after, rest = .directive flags width prec conv :: after) := by
  induction items with
  | nil => exact ⟨[], [], rfl, rfl, rfl, fun b member => absurd member List.not_mem_nil, .inl rfl⟩
  | cons i items ih =>
      cases i with
      | directive flags width prec conv =>
          exact ⟨[], _, rfl, rfl, rfl, fun b member =>
            absurd member List.not_mem_nil, .inr ⟨_, _, _, _, _, rfl⟩⟩
      | plain b ordinary =>
          obtain ⟨run, rest, rendered, args, produced, plain, next⟩ := ih
          refine ⟨b :: run, rest, congrArg (List.cons b) rendered, args,
            congrArg (List.cons b) produced, ?_, next⟩
          intro c member
          rcases List.mem_cons.mp member with rfl | later
          · exact ordinary.2
          · exact plain c later

theorem run_ends {run : Bytes} (plain : ∀ b ∈ run, b ≠ ch '%') {rest : Bytes}
    (next : rest = [] ∨ ∃ after, rest = ch '%' :: after) :
    (run ++ rest).takeWhile (· ≠ ch '%') = run ∧ (run ++ rest).dropWhile (· ≠ ch '%') = rest := by
  induction run with
  | nil =>
      rcases next with rfl | ⟨after, rfl⟩
      · exact ⟨rfl, rfl⟩
      · exact ⟨rfl, rfl⟩
  | cons b run ih =>
      obtain ⟨taken, dropped⟩ := ih fun c member => plain c (List.mem_cons_of_mem _ member)
      have other := plain b List.mem_cons_self
      rw [List.cons_append]
      constructor
      · rw [List.takeWhile_cons_of_pos (by simpa using other), taken]
      · rw [List.dropWhile_cons_of_pos (by simpa using other), dropped]

theorem format_holds {stale : Memory} {size : Nat} {file : Bool} (fuel : Nat) (items : List Item)
    {bytes : Bytes}
    {s : Sink} (enough : (render items).length ≤ fuel) (holds : Holds stale size file bytes s) :
    ∃ s', format fuel s (render items) (argsOf items) = some s' ∧
      Holds stale size file (bytes ++ producedOf items) s' := by
  -- a round takes a run of text, or one directive
  induction fuel generalizing items bytes s with
  | zero =>
      have empty := List.length_eq_zero_iff.mp (Nat.le_zero.mp enough)
      have none_ : items = [] := by
        cases items with
        | nil => rfl
        | cons i items => cases i <;> simp [render, Item.render] at empty
      rw [none_]
      exact ⟨s, rfl, by simpa [producedOf] using holds⟩
  | succ fuel ih =>
      obtain ⟨run, rest, rendered, args, produced, plain, next⟩ := plain_run items
      rw [rendered, List.length_append] at enough
      rw [rendered, args, produced]
      cases run with
      | cons b run =>
          -- the text ends at the next directive or with the format
          have ends : render rest = [] ∨ ∃ after, render rest = ch '%' :: after := by
            rcases next with rfl | ⟨flags, width, prec, conv, after, rfl⟩
            · exact .inl rfl
            · exact .inr ⟨_, rfl⟩
          obtain ⟨taken, dropped⟩ := run_ends (fun c member => plain c (List.mem_cons_of_mem _ member)) ends
          rw [List.length_cons] at enough
          obtain ⟨s', done, later⟩ := ih rest (by omega) (out_holds holds (b :: run))
          rw [List.append_assoc] at later
          refine ⟨s', ?_, later⟩
          rw [List.cons_append, format, if_pos (plain b List.mem_cons_self), taken, dropped]
          exact done
      | nil =>
          rw [List.nil_append, List.nil_append]
          rcases next with rfl | ⟨flags, width, prec, conv, after, rfl⟩
          · exact ⟨s, by simp [render, format], by simpa [producedOf] using holds⟩
          · have whole : render (.directive flags width prec conv :: after) =
                ch '%' :: (flags.map Flag.byte ++ (width.render ++ (prec.render ++
                  (conv.length.render ++ conv.byte :: render after)))) := by
              simp [render, Item.render]
            have taken : argsOf (.directive flags width prec conv :: after) =
                width.args ++ (prec.args ++ (conv.args ++ argsOf after)) := by
              simp [argsOf, Item.args]
            have made : producedOf (.directive flags width prec conv :: after) =
                (Item.directive flags width prec conv).produced ++ producedOf after := rfl
            obtain ⟨s1, converted, holds1⟩ := convert_holds holds flags width prec conv (argsOf after)
            have short : (render after).length ≤ fuel := by
              rw [whole] at enough
              simp only [List.length_nil, List.length_cons, List.length_append] at enough
              omega
            obtain ⟨s', done, later⟩ := ih after short holds1
            rw [List.append_assoc] at later
            rw [whole, taken, made]
            refine ⟨s', ?_, later⟩
            rw [format, if_neg (not_not_intro rfl), readDirective_render]
            dsimp only [Option.bind_some]
            rw [conv_letter, if_neg Bool.false_ne_true, converted]
            exact done

/-! ### What is misprinted -/

theorem laid_length (width : Int) (left_ : Bool) (body : Bytes) :
    (laid width left_ false [] body).length = max width.toNat body.length := by
  cases left_ <;> simp [laid] <;> omega

theorem laid_count (width : Int) (left_ : Bool) (body : Bytes) :
    (laid width left_ false [] body).count 0 = body.count 0 := by
  have blank : (ch ' ' == (0 : UInt8)) = false := by decide
  cases left_ <;> simp [laid, List.count_append, List.count_replicate, blank]

theorem laid_first (width : Int) (left_ : Bool) (body : Bytes) :
    laid width left_ false [] (body.take 1) = laid width left_ false [] body ↔
      manyShown width left_ body = false := by
  cases body with
  | nil => simp [manyShown]
  | cons b rest =>
      cases rest with
      | nil => simp [manyShown]
      | cons c rest =>
          have long : manyShown width left_ (b :: c :: rest) = false ↔ (rest.length + 2 : Int) ≤ width ∧
              ∀ d ∈ (if left_ then c :: rest else b :: c :: rest), d = ch ' ' := by
            simp only [manyShown, List.length_cons, List.drop_one, List.tail_cons]
            cases left_ <;> simp <;> omega
          rw [long]
          constructor
          · intro same
            have lengths := congrArg List.length same
            rw [laid_length, laid_length, List.take_succ_cons, List.take_zero, List.length_cons,
              List.length_cons,
              List.length_cons, List.length_nil] at lengths
            have fits : (rest.length + 2 : Int) ≤ width := by omega
            refine ⟨fits, ?_⟩
            cases left_ with
            | true =>
                -- the blanks behind the first character are the rest of the text
                simp only [laid, if_true, List.take_succ_cons, List.take_zero, List.nil_append,
                  List.cons_append,
                  List.cons.injEq, true_and] at same
                intro d member
                have inside : d ∈ c :: (rest ++ List.replicate
                    (width - ([] : Bytes).length - (b :: c :: rest).length).toNat (ch ' ')) :=
                  List.mem_append_left _ member
                rw [← same] at inside
                exact List.eq_of_mem_replicate inside
            | false =>
                -- the blanks in front reach into the text, up to its last character
                have gap : (width - ([] : Bytes).length - ([b] : Bytes).length).toNat =
                    (width - ([] : Bytes).length - (b :: c :: rest).length).toNat + (rest.length + 1) := by
                  simp only [List.length_nil, List.length_cons]
                  omega
                simp only [laid, Bool.false_eq_true, if_false, List.take_succ_cons, List.take_zero,
                  List.append_nil] at same
                rw [gap, List.replicate_add, List.append_assoc, List.append_cancel_left_eq,
                  List.replicate_succ,
                  List.cons_append, List.cons.injEq] at same
                intro d member
                rcases List.mem_cons.mp member with rfl | later
                · exact same.1.symm
                · rw [← same.2] at later
                  rcases List.mem_append.mp later with blank | last
                  · exact List.eq_of_mem_replicate blank
                  · rw [List.mem_singleton.mp last, ← same.1]
          · rintro ⟨fits, blank⟩
            cases left_ with
            | true =>
                have rest_ : c :: rest = List.replicate (rest.length + 1) (ch ' ') :=
                  List.eq_replicate_iff.mpr ⟨rfl, blank⟩
                have gap : (width - ([] : Bytes).length - ([b] : Bytes).length).toNat =
                    rest.length + 1 + (width - ([] : Bytes).length - (b :: c :: rest).length).toNat := by
                  simp only [List.length_nil, List.length_cons]
                  omega
                simp only [laid, if_true, List.take_succ_cons, List.take_zero, List.nil_append,
                  List.cons_append]
                rw [gap, List.replicate_add, ← rest_, List.cons_append]
            | false =>
                have whole : b :: c :: rest = List.replicate (rest.length + 2) (ch ' ') :=
                  List.eq_replicate_iff.mpr ⟨rfl, blank⟩
                have first : [b] = List.replicate 1 (ch ' ') :=
                  congrArg (fun d => [d]) (blank b List.mem_cons_self)
                have gap : (width - ([] : Bytes).length - ([b] : Bytes).length).toNat + 1 =
                    (width - ([] : Bytes).length - (b :: c :: rest).length).toNat + (rest.length + 2) := by
                  simp only [List.length_nil, List.length_cons]
                  omega
                simp only [laid, Bool.false_eq_true, if_false, List.take_succ_cons, List.take_zero,
                  List.append_nil]
                rw [whole, first, List.replicate_append_replicate, List.replicate_append_replicate]
                rw [whole, first] at gap
                rw [gap]

theorem wide_memory (ws : List WideChar) :
    (ws.flatMap WideChar.memory).takeWhile (· ≠ 0) = (wideShown ws).take 1 := by
  cases ws with
  | nil => rfl
  | cons c ws =>
      have basic := c.basic
      rw [List.flatMap_cons, WideChar.memory, wideShown]
      by_cases null : c.code.toNat = 0
      · simp [null]
      · have byte : UInt8.ofNat c.code.toNat ≠ 0 := by
          intro zero
          have value := congrArg UInt8.toNat zero
          rw [UInt8.toNat_ofNat'] at value
          simp only [UInt8.toNat_zero] at value
          omega
        have high : c.code.toNat / 2 ^ 8 = 0 := by omega
        rw [high]
        simp only [List.cons_append, List.nil_append, List.takeWhile_cons]
        simp [null, -UInt8.ofNat_toNat, -UInt8.ofNat_uInt32ToNat, byte]

theorem upTo_first (prec : Option Nat) (shown : Bytes) :
    upTo prec (shown.take 1) = (upTo prec shown).take 1 := by
  cases prec with
  | none => rfl
  | some p => simp only [upTo, List.take_take, Nat.min_comm]

theorem wide_produced (flags : List Flag) (width : Width) (prec : Precision) (ws : List WideChar) :
    (Item.directive flags width prec (.wideString (some ws))).produced =
      laid width.value (decide (.minus ∈ flags) || width.leftward) false []
        ((wideText (some ws) prec.value).take 1) := by
  have body : stringText (some (ws.flatMap WideChar.memory)) prec.value =
      (wideText (some ws) prec.value).take 1 :=
    (congrArg (upTo prec.value) (wide_memory ws)).trans (upTo_first _ _)
  exact congrArg (laid _ _ _ _) body

theorem wideShown_nul (ws : List WideChar) : (0 : UInt8) ∉ wideShown ws := by
  intro member
  obtain ⟨c, inside, zero⟩ := List.mem_map.mp member
  have other := List.all_eq_true.mp List.all_takeWhile c inside
  have value := congrArg UInt8.toNat zero
  have basic := c.basic
  rw [UInt8.toNat_ofNat'] at value
  simp only [decide_eq_true_eq, UInt8.toNat_zero] at other value
  omega

theorem wideText_nul (ws : List WideChar) (prec : Option Nat) : (0 : UInt8) ∉ wideText (some ws) prec := by
  intro member
  cases prec with
  | none => exact wideShown_nul ws member
  | some p => exact wideShown_nul ws (List.mem_of_mem_take member)

theorem bareZero_texts {flags : List Flag} {width : Width} {prec : Precision} {length : Length} {kind : Kind}
    {w : UInt64} (bare : (Item.directive flags width prec (.integer length kind w)).bareZero = true) :
    (Item.directive flags width prec (.integer length kind w)).produced =
        laid width.value (decide (.minus ∈ flags) || width.leftward) false [] [] ∧
      (Item.directive flags width prec (.integer length kind w)).text =
        laid width.value (decide (.minus ∈ flags) || width.leftward) false [] [ch '0'] := by
  refine ⟨if_pos bare, ?_⟩
  obtain ⟨alternate, rfl, given, nothing⟩ := (bare_iff flags width prec length kind w).mp bare
  simp [Item.text, given, nothing, integerSign, integerBody, Kind.signed, alternate, numeral_zero]

theorem wideNull_texts (flags : List Flag) (width : Width) (prec : Precision) {c : WideChar}
    (null : c.code.toNat = 0) :
    (Item.directive flags width prec (.wideCharacter c)).produced =
        laid width.value (decide (.minus ∈ flags) || width.leftward) false [] [0] ∧
      (Item.directive flags width prec (.wideCharacter c)).text =
        laid width.value (decide (.minus ∈ flags) || width.leftward) false [] [] := by
  simp [Item.produced, Item.text, wideShown, null]

theorem produced_iff (i : Item) : i.produced = i.text ↔ i.misprinted = false := by
  cases i with
  | plain b ordinary => exact ⟨fun _ => rfl, fun _ => rfl⟩
  | directive flags width prec conv =>
      cases conv with
      | integer length kind w =>
          have only : (Item.directive flags width prec (.integer length kind w)).misprinted =
              (Item.directive flags width prec (.integer length kind w)).bareZero := by
            simp [Item.misprinted, Item.wideNull, Item.wideMany]
          rw [only]
          cases bare : (Item.directive flags width prec (.integer length kind w)).bareZero with
          | false => exact ⟨fun _ => rfl, fun _ => if_neg (by rw [bare]; exact Bool.false_ne_true)⟩
          | true =>
              obtain ⟨produced, text⟩ := bareZero_texts bare
              rw [produced, text]
              have other : ch '0' ≠ ch ' ' := by decide
              refine ⟨fun same => ?_, fun no => Bool.noConfusion no⟩
              generalize (decide (.minus ∈ flags) || width.leftward) = left_ at same
              have zero : ch '0' ∈ laid width.value left_ false [] [ch '0'] := by cases left_ <;> simp [laid]
              rw [← same] at zero
              cases left_ <;> simp [laid, other] at zero
      | character length narrow w | string length narrow s | percent length =>
        exact ⟨fun _ => rfl, fun _ => rfl⟩
      | wideCharacter c =>
          have only : (Item.directive flags width prec (.wideCharacter c)).misprinted =
              decide (c.code.toNat = 0) := by
            simp [Item.misprinted, Item.bareZero, Item.wideNull, Item.wideMany]
          rw [only, decide_eq_false_iff_not]
          by_cases null : c.code.toNat = 0
          · obtain ⟨produced, text⟩ := wideNull_texts flags width prec null
            rw [produced, text]
            refine ⟨fun same => ?_, fun some_ => absurd null some_⟩
            have counts := congrArg (List.count 0) same
            rw [laid_count, laid_count] at counts
            cases counts
          · refine ⟨fun _ => null, fun _ => ?_⟩
            simp [Item.produced, Item.text, wideShown, null]
      | wideString s =>
          cases s with
          | none => exact ⟨fun _ => rfl, fun _ => rfl⟩
          | some ws =>
              rw [wide_produced]
              exact laid_first width.value (decide (.minus ∈ flags) || width.leftward)
                (wideText (some ws) prec.value)

theorem produced_nul (i : Item) :
    i.text.count 0 ≤ i.produced.count 0 ∧ (i.wideNull = true → i.text.count 0 < i.produced.count 0) := by
  cases i with
  | plain b ordinary => exact ⟨Nat.le_refl _, fun no => Bool.noConfusion no⟩
  | directive flags width prec conv =>
      cases conv with
      | integer length kind w =>
          refine ⟨?_, fun no => Bool.noConfusion no⟩
          cases bare : (Item.directive flags width prec (.integer length kind w)).bareZero with
          | false =>
              have same : (Item.directive flags width prec (.integer length kind w)).produced = _ :=
                if_neg (by rw [bare]; exact Bool.false_ne_true)
              rw [same]
          | true =>
              obtain ⟨produced, text⟩ := bareZero_texts bare
              rw [produced, text, laid_count, laid_count]
              decide
      | character length narrow w | string length narrow s | percent length =>
          exact ⟨Nat.le_refl _, fun no => Bool.noConfusion no⟩
      | wideCharacter c =>
          by_cases null : c.code.toNat = 0
          · obtain ⟨produced, text⟩ := wideNull_texts flags width prec null
            rw [produced, text, laid_count, laid_count]
            exact ⟨by decide, fun _ => by decide⟩
          · have same : (Item.directive flags width prec (.wideCharacter c)).produced =
                (Item.directive flags width prec (.wideCharacter c)).text := by
              simp [Item.produced, Item.text, wideShown, null]
            rw [same]
            refine ⟨Nat.le_refl _, fun yes => absurd (of_decide_eq_true yes) null⟩
      | wideString s =>
          refine ⟨?_, fun no => Bool.noConfusion no⟩
          cases s with
          | none => exact Nat.le_refl _
          | some ws =>
              have text : (Item.directive flags width prec (.wideString (some ws))).text =
                laid width.value (decide (.minus ∈ flags) || width.leftward) false []
                  (wideText (some ws) prec.value) := rfl
              rw [text, laid_count, List.count_eq_zero_of_not_mem (wideText_nul ws prec.value)]
              exact Nat.zero_le _

theorem produced_short {i : Item} (null : i.wideNull = false) : i.produced.length ≤ i.text.length := by
  cases printed : i.misprinted with
  | false => rw [(produced_iff i).mpr printed]
  | true =>
      cases i with
      | plain b ordinary => exact Nat.le_refl _
      | directive flags width prec conv =>
          cases conv with
          | integer length kind w =>
              have bare : (Item.directive flags width prec (.integer length kind w)).bareZero = true := by
                simpa [Item.misprinted, Item.wideNull, Item.wideMany] using printed
              obtain ⟨produced, text⟩ := bareZero_texts bare
              rw [produced, text, laid_length, laid_length]
              simp only [List.length_nil, List.length_singleton]
              omega
          | character length narrow w | string length narrow s | percent length => exact Nat.le_refl _
          | wideCharacter c =>
              simp only [Item.misprinted, null] at printed
              cases printed
          | wideString s =>
              cases s with
              | none => exact Nat.le_refl _
              | some ws =>
                  have text : (Item.directive flags width prec (.wideString (some ws))).text =
                    laid width.value (decide (.minus ∈ flags) || width.leftward) false []
                      (wideText (some ws) prec.value) := rfl
                  rw [wide_produced, text, laid_length, laid_length, List.length_take]
                  omega

theorem flatMap_measure {α : Type} {f g : α → Bytes} {m : Bytes → Nat} (add : ∀ a b, m (a ++ b) = m a + m b)
    {l : List α} (le : ∀ i ∈ l, m (f i) ≤ m (g i)) (same : m (l.flatMap f) = m (l.flatMap g)) :
    ∀ i ∈ l, m (f i) = m (g i) := by
  have empty : m [] = 0 := by
    have twice := add [] []
    rw [List.nil_append] at twice
    omega
  have whole : ∀ l : List α, (∀ i ∈ l, m (f i) ≤ m (g i)) → m (l.flatMap f) ≤ m (l.flatMap g) := by
    intro l le
    induction l with
    | nil => exact Nat.le_refl _
    | cons i l ih =>
        rw [List.flatMap_cons, List.flatMap_cons, add, add]
        exact Nat.add_le_add (le i List.mem_cons_self)
          (ih fun j member => le j (List.mem_cons_of_mem _ member))
  induction l with
  | nil => exact fun i member => absurd member List.not_mem_nil
  | cons i l ih =>
      have here := le i List.mem_cons_self
      have later := whole l fun j member => le j (List.mem_cons_of_mem _ member)
      rw [List.flatMap_cons, List.flatMap_cons, add, add] at same
      intro j member
      rcases List.mem_cons.mp member with rfl | inside
      · omega
      · exact ih (fun k member => le k (List.mem_cons_of_mem _ member)) (by omega) j inside

theorem flatMap_same {α : Type} {f g : α → Bytes} {l : List α} (short : ∀ i ∈ l, (f i).length ≤ (g i).length)
    (same : l.flatMap f = l.flatMap g) : ∀ i ∈ l, f i = g i := by
  have lengths := flatMap_measure (fun a b => List.length_append) short (congrArg List.length same)
  clear short
  induction l with
  | nil => exact fun i member => absurd member List.not_mem_nil
  | cons i l ih =>
      rw [List.flatMap_cons, List.flatMap_cons] at same
      obtain ⟨first, later⟩ := List.append_inj same (lengths i List.mem_cons_self)
      intro j member
      rcases List.mem_cons.mp member with rfl | inside
      · exact first
      · exact ih later (fun k member => lengths k (List.mem_cons_of_mem _ member)) j inside

theorem texts_same {items : List Item} (same : producedOf items = textOf items) :
    ∀ i ∈ items, i.misprinted = false := by
  have nuls := flatMap_measure (m := List.count 0) (fun a b => List.count_append)
    (fun i (_ : i ∈ items) => (produced_nul i).1) (congrArg (List.count 0) same).symm
  have short : ∀ i ∈ items, i.produced.length ≤ i.text.length := by
    intro i member
    cases null : i.wideNull with
    | true => exact absurd (nuls i member) (Nat.ne_of_lt ((produced_nul i).2 null))
    | false => exact produced_short null
  exact fun i member => (produced_iff i).mp (flatMap_same short same i member)

/-- The bytes `vsnprintf` stores: what fits, and a terminator. -/
def storedText (size : Nat) (text : Bytes) : Bytes := if size = 0 then [] else text.take (size - 1) ++ [0]

theorem vsnprintf_produced (buf : Memory) (size : Nat) (items : List Item) :
    vsnprintf buf size (render items) (argsOf items) =
      some (received (storedText size (producedOf items)) buf, toInt (producedOf items).length) := by
  have empty : Holds buf size false [] ⟨buf, size, false, [], 0, []⟩ :=
    ⟨rfl, rfl, rfl, fun _ => by rw [List.take_nil]; rfl, fun stream => Bool.noConfusion stream⟩
  obtain ⟨s, done, holds⟩ := format_holds (render items).length items (Nat.le_refl _) empty
  rw [List.nil_append] at holds
  have string := holds.string rfl
  rw [vsnprintf, done, Option.map_some, holds.count, string]
  unfold storedText
  by_cases none_ : size = 0
  · rw [if_neg (not_not_intro none_), if_pos none_, none_, List.take_zero]
  · have end_ : (if (producedOf items).length < size then (producedOf items).length else size - 1) =
        ((producedOf items).take (size - 1)).length := by
      rw [List.length_take]
      split <;> omega
    rw [if_pos none_, if_neg none_, end_, put_received]

theorem tmp_room : 0 < tmpSize := by decide

theorem vfprintf_produced (error : Bool) (buf : Memory) (items : List Item) :
    vfprintf error buf (render items) (argsOf items) =
      some (producedOf items, if error then -1 else toInt (producedOf items).length) := by
  have empty : Holds buf 0 true [] ⟨buf, 0, true, [], 0, []⟩ :=
    ⟨rfl, rfl, rfl, fun string => Bool.noConfusion string, fun _ => ⟨rfl, tmp_room⟩⟩
  obtain ⟨s, done, holds⟩ := format_holds (render items).length items (Nat.le_refl _) empty
  rw [List.nil_append] at holds
  obtain ⟨whole, rest, _⟩ := flushTmp_holds s
  rw [rest, List.append_nil, (holds.stream rfl).1] at whole
  rw [vfprintf, done, Option.map_some, holds.count, whole]

theorem toInt_iff (n : Nat) : toInt n = n ↔ n < 2 ^ 31 := by
  have high := Int.bmod_lt (x := (n : Int)) (show 0 < 2 ^ 32 by decide)
  unfold toInt signed
  constructor
  · intro same
    rw [same] at high
    omega
  · intro small
    rw [Int.bmod_eq_of_le (by omega) (by omega)]

/-- `vsnprintf` returns the length of the text and stores what fits of it with a
terminator, and `vfprintf` writes it. -/
def Prescribed (buf : Memory) (size : Nat) (error : Bool) (items : List Item) : Prop :=
  vsnprintf buf size (render items) (argsOf items) =
      some (received (storedText size (textOf items)) buf, ((textOf items).length : Int)) ∧
    (vfprintf error buf (render items) (argsOf items)).map Prod.fst = some (textOf items)

/-- The text is the one C99 prescribes exactly when no conversion is a bare zero, a
null wide character or a wide string of more than a character, and `int` can hold
its length. -/
theorem printf_conforms (buf : Memory) (size : Nat) (error : Bool) (items : List Item) :
    Prescribed buf size error items ↔ (∀ i ∈ items, i.misprinted = false) ∧
      (textOf items).length < 2 ^ 31 := by
  unfold Prescribed
  rw [vsnprintf_produced, vfprintf_produced, Option.map_some]
  simp only [Option.some.injEq, Prod.mk.injEq]
  constructor
  · rintro ⟨⟨_, returned⟩, written⟩
    rw [written, toInt_iff] at returned
    exact ⟨texts_same written, returned⟩
  · rintro ⟨plain, short⟩
    have same : producedOf items = textOf items :=
      List.flatMap_congr fun i member => (produced_iff i).mpr (plain i member)
    rw [same, toInt_iff]
    exact ⟨⟨rfl, short⟩, rfl⟩

/-! `%#.0o` of zero. -/

def octalZero : List Item :=
  [.directive [.hash] (.literal ⟨[], by decide⟩ (by decide)) (.literal ⟨[0], by decide⟩)
  (.integer .int .o 0)]

theorem octal_zero_missing :
    render octalZero = [ch '%', ch '#', ch '.', ch '0', ch 'o'] ∧ textOf octalZero = [ch '0'] ∧
    (vsnprintf (fun _ => 0) 8 (render octalZero) (argsOf octalZero)).map Prod.snd = some 0 ∧
    ¬ ∀ (buf : Memory) (size : Nat) (error : Bool) (items : List Item), Prescribed buf size error items := by
  have nothing : vfprintf false (fun _ => 0) (render octalZero) (argsOf octalZero) = some ([], 0) := by decide
  refine ⟨by decide, by decide, by decide, fun claimed => ?_⟩
  have written := (claimed (fun _ => 0) 8 false octalZero).2
  rw [nothing] at written
  exact absurd written (by decide)

end Formats

end R2Apps.TccConversions
