import Mathlib.Algebra.Ring.Int.Defs
import Mathlib.Algebra.Ring.Nat
import Mathlib.Data.List.Basic
import R2Apps.BufferPrefixes

/-! The integer and string conversions of `tcc/libc/printf.c`: one formatter that
writes to a sink, which is a string or a stream. A format is the bytes before its
terminator, and so is a string argument. `va_list` is the list of the arguments
as they were passed; taking one as what it is not has no result, and neither have
the conversions of floating point and `%n`, which are left out.

`int` arithmetic on widths and precisions is not reduced: it leaves the range
only for a field of more than `INT_MAX` bytes, whose length `int` cannot hold. -/
namespace R2Apps.TccPrintf
open R2Apps.ByteMemory R2Apps.BufferPrefixes

abbrev Bytes := List UInt8

def ch (c : Char) : UInt8 := UInt8.ofNat c.toNat

def tmpSize : Nat := 256

/-! ## The sink -/

/-- `struct sink`; `written` is what `fwrite` has got so far. -/
structure Sink where
  buf : Memory
  size : Nat
  file : Bool
  written : Bytes
  count : Nat
  tmp : Bytes

def flushTmp (s : Sink) : Sink :=
  if s.tmp.length ≠ 0 then { s with written := s.written ++ s.tmp, tmp := [] } else s

/-- The loop of `out` for a stream; there are no more turns than bytes. -/
def outFile : Nat → Sink → Bytes → Sink
  | 0, s, _ => s
  | fuel + 1, s, p =>
      if p.length = 0 then s
      else
        let k := tmpSize - s.tmp.length
        let k := if k > p.length then p.length else k
        let s := { s with tmp := s.tmp ++ p.take k, count := s.count + k }
        outFile fuel (if s.tmp.length = tmpSize then flushTmp s else s) (p.drop k)

def out (s : Sink) (p : Bytes) : Sink :=
  if s.file then outFile p.length s p
  else
    let buf :=
      if s.count + 1 < s.size then
        let k := s.size - 1 - s.count
        put s.buf s.count (p.take (if k < p.length then k else p.length))
      else s.buf
    { s with buf := buf, count := s.count + p.length }

def padLoop (c : UInt8) : Nat → Sink → Nat → Sink
  | 0, s, _ => s
  | fuel + 1, s, n =>
      if n = 0 then s
      else
        let k := if n < 32 then n else 32
        padLoop c fuel (out s (List.replicate k c)) (n - k)

def pad (s : Sink) (c : UInt8) (n : Int) : Sink :=
  if n ≤ 0 then s else padLoop c n.toNat s n.toNat

/-! ## Fields -/

structure Flags where
  left_ : Bool := false
  plus : Bool := false
  space : Bool := false
  alt : Bool := false
  zero : Bool := false

def field (s : Sink) (sign body : Bytes) (zeros width : Int) (f : Flags) : Sink :=
  let fill := width - sign.length - zeros - body.length
  let s := if !f.left_ && !f.zero then pad s (ch ' ') fill else s
  let s := out s sign
  let s := if !f.left_ && f.zero then pad s (ch '0') fill else s
  let s := pad s (ch '0') zeros
  let s := out s body
  if f.left_ then pad s (ch ' ') fill else s

/-- The entry of `digits`. -/
def digitChar (upper : Bool) (d : Nat) : UInt8 :=
  if d < 10 then UInt8.ofNat (48 + d) else UInt8.ofNat ((if upper then 55 else 87) + d)

/-- The digits go into `buf` from its end; it has room for 24. -/
def digitLoop (base : Nat) (upper : Bool) : Nat → Nat → Bytes → Bytes
  | 0, _, body => body
  | fuel + 1, v, body =>
      if v = 0 then body else digitLoop base upper fuel (v / base) (digitChar upper (v % base) :: body)

def fmtInt (s : Sink) (v : Nat) (neg : Bool) (base : Nat) (upper : Bool) (width prec : Int)
    (f : Flags) : Sink :=
  let body := digitLoop base upper 24 v []
  let n : Int := body.length
  let f := if prec < 0 then f else { f with zero := false }
  let prec := if prec < 0 then 1 else prec
  let zeros := if prec > n then prec - n else 0
  let sign := if neg then [ch '-'] else if f.plus then [ch '+'] else if f.space then [ch ' '] else []
  let marked := f.alt && decide (n ≠ 0)
  let mark := if marked && base == 16 then (if upper then [ch '0', ch 'X'] else [ch '0', ch 'x']) else []
  let zeros := if marked && base == 8 && zeros == 0 then 1 else zeros
  field s (sign ++ mark) body zeros width f

/-! ## Directives -/

inductive Arg where
  | int (w : UInt32)
  | long (w : UInt64)
  | string (s : Option Bytes)

def vaInt : List Arg → Option (UInt32 × List Arg)
  | .int w :: rest => some (w, rest)
  | _ => none

def vaLong : List Arg → Option (UInt64 × List Arg)
  | .long w :: rest => some (w, rest)
  | _ => none

def vaString : List Arg → Option (Option Bytes × List Arg)
  | .string s :: rest => some (s, rest)
  | _ => none

/-- The value of the low `n` bits of a number, the top one of them being the sign. -/
def signed (n : Nat) (w : Nat) : Int := (w : Int).bmod (2 ^ n)

def setFlag (f : Flags) (b : UInt8) : Option Flags :=
  if b = ch '-' then some { f with left_ := true }
  else if b = ch '+' then some { f with plus := true }
  else if b = ch ' ' then some { f with space := true }
  else if b = ch '#' then some { f with alt := true }
  else if b = ch '0' then some { f with zero := true }
  else none

def readFlags : Flags → Bytes → Flags × Bytes
  | f, [] => (f, [])
  | f, b :: rest =>
      match setFlag f b with
      | some f => readFlags f rest
      | none => (f, b :: rest)

def isDigit (b : UInt8) : Bool := decide (ch '0' ≤ b) && decide (b ≤ ch '9')

def readNumber : Int → Bytes → Int × Bytes
  | n, [] => (n, [])
  | n, b :: rest => if isDigit b then readNumber (n * 10 + (b.toNat - 48 : Int)) rest else (n, b :: rest)

def readWidth (f : Flags) (fmt : Bytes) (args : List Arg) : Option (Flags × Int × Bytes × List Arg) :=
  if fmt.head? = some (ch '*') then
    (vaInt args).map fun (w, args) =>
      let width := signed 32 w.toNat
      if width < 0 then ({ f with left_ := true }, -width, fmt.tail, args) else (f, width, fmt.tail, args)
  else
    let (width, fmt) := readNumber 0 fmt
    some (f, width, fmt, args)

def readPrecision (fmt : Bytes) (args : List Arg) : Option (Int × Bytes × List Arg) :=
  if fmt.head? = some (ch '.') then
    if fmt.tail.head? = some (ch '*') then
      (vaInt args).map fun (w, args) => (signed 32 w.toNat, fmt.tail.tail, args)
    else
      let (prec, fmt) := readNumber 0 fmt.tail
      some (prec, fmt, args)
  else some (-1, fmt, args)

/-- `lng`: -2 `hh`, -1 `h`, 0 `int`, 1 `long` and the like, 2 `long double`. -/
def readLength : Int → Bytes → Int × Bytes
  | lng, [] => (lng, [])
  | lng, b :: rest =>
      if b = ch 'h' then readLength (if lng ≠ 0 then -2 else -1) rest
      else if b = ch 'l' ∨ b = ch 'z' ∨ b = ch 'j' ∨ b = ch 't' ∨ b = ch 'q' then readLength 1 rest
      else if b = ch 'L' then readLength 2 rest
      else (lng, b :: rest)

structure Directive where
  flags : Flags
  width : Int
  prec : Int
  lng : Int

/-- What stands between the percent sign and the letter of the conversion. -/
def readDirective (fmt : Bytes) (args : List Arg) : Option (Directive × Bytes × List Arg) :=
  let (f, fmt) := readFlags {} fmt
  (readWidth f fmt args).bind fun (f, width, fmt, args) =>
    (readPrecision fmt args).map fun (prec, fmt, args) =>
      let f := if f.left_ then { f with zero := false } else f
      let (lng, fmt) := readLength 0 fmt
      (⟨f, width, prec, lng⟩, fmt, args)

def signedArg (lng : Int) (args : List Arg) : Option (Int × List Arg) :=
  if lng ≥ 1 then (vaLong args).map fun (w, args) => (signed 64 w.toNat, args)
  else (vaInt args).map fun (w, args) =>
    let sv := signed 32 w.toNat
    (if lng = -1 then sv.bmod (2 ^ 16) else if lng = -2 then sv.bmod (2 ^ 8) else sv, args)

def unsignedArg (lng : Int) (args : List Arg) : Option (Nat × List Arg) :=
  if lng ≥ 1 then (vaLong args).map fun (w, args) => (w.toNat, args)
  else (vaInt args).map fun (w, args) =>
    let uv := w.toNat
    (if lng = -1 then uv % 2 ^ 16 else if lng = -2 then uv % 2 ^ 8 else uv, args)

def onlyLeft (f : Flags) : Flags := { left_ := f.left_ }

/-- The length of a string argument that is printed. -/
def shownLength (str : Bytes) (prec : Int) : Nat → Nat → Nat
  | 0, n => n
  | fuel + 1, n =>
      if str.getD n 0 ≠ 0 ∧ (prec < 0 ∨ (n : Int) < prec) then shownLength str prec fuel (n + 1) else n

/-- The letters that take no part in floating point; `none` is any other byte. -/
def convert (s : Sink) (d : Directive) (b : UInt8) (args : List Arg) : Option (Option (Sink × List Arg)) :=
  if b = ch 'd' ∨ b = ch 'i' then
    some ((signedArg d.lng args).map fun (sv, args) =>
      let uv := if sv < 0 then (0 - sv % 2 ^ 64) % 2 ^ 64 else sv
      (fmtInt s uv.toNat (decide (sv < 0)) 10 false d.width d.prec d.flags, args))
  else if b = ch 'u' ∨ b = ch 'o' ∨ b = ch 'x' ∨ b = ch 'X' then
    some ((unsignedArg d.lng args).map fun (uv, args) =>
      let base := if b = ch 'u' then 10 else if b = ch 'o' then 8 else 16
      (fmtInt s uv false base (b == ch 'X') d.width d.prec { d.flags with
        plus := false, space := false }, args))
  else if b = ch 'p' then
    some ((vaLong args).map fun (p, args) =>
      (if p ≠ 0 then
        fmtInt s p.toNat false 16 false d.width d.prec { onlyLeft d.flags with alt := true }
      else field s [] [ch '(', ch 'n', ch 'i', ch 'l', ch ')'] 0 d.width (onlyLeft d.flags), args))
  else if b = ch 'c' then
    some ((vaInt args).map fun (w, args) =>
      (field s [] [UInt8.ofNat w.toNat] 0 d.width (onlyLeft d.flags), args))
  else if b = ch 's' then
    some ((vaString args).map fun (str, args) =>
      let str := str.getD [ch '(', ch 'n', ch 'u', ch 'l', ch 'l', ch ')']
      (field s [] (str.take (shownLength str d.prec str.length 0)) 0 d.width (onlyLeft d.flags), args))
  else if b = ch '%' then some (some (out s [ch '%'], args))
  else none

/-- Floating point and `%n`. -/
def leftOut (b : UInt8) : Bool :=
  [ch 'f', ch 'F', ch 'e', ch 'E', ch 'g', ch 'G', ch 'a', ch 'A', ch 'n'].contains b

/-- `format`; every turn takes a byte of the format at least. -/
def format : Nat → Sink → Bytes → List Arg → Option Sink
  | _, s, [], _ => some s
  | 0, _, _ :: _, _ => none
  | fuel + 1, s, b :: rest, args =>
      if b ≠ ch '%' then
        format fuel (out s (b :: rest.takeWhile (· ≠ ch '%'))) (rest.dropWhile (· ≠ ch '%')) args
      else
        (readDirective rest args).bind fun (d, fmt, args) =>
          match fmt with
          | [] => some (out s (b :: rest))
          | c :: after =>
              if leftOut c then none
              else
                match convert s d c args with
                | some result => result.bind fun (s, args) => format fuel s after args
                -- not a conversion: it is printed as it stands
                | none => format fuel (out s (b :: rest.take (rest.length - after.length))) after args

def toInt (count : Nat) : Int := signed 32 count

/-- The buffer afterwards, and the value returned. -/
def vsnprintf (buf : Memory) (size : Nat) (fmt : Bytes) (args : List Arg) : Option (Memory × Int) :=
  (format fmt.length ⟨buf, size, false, [], 0, []⟩ fmt args).map fun s =>
    (if size ≠ 0 then put s.buf (if s.count < size then s.count else size - 1) [0] else s.buf, toInt s.count)

/-- What is written to the stream, and the value returned; `error` is `ferror`. -/
def vfprintf (error : Bool) (buf : Memory) (fmt : Bytes) (args : List Arg) : Option (Bytes × Int) :=
  (format fmt.length ⟨buf, 0, true, [], 0, []⟩ fmt args).map fun s =>
    ((flushTmp s).written, if error then -1 else toInt s.count)

/-! ## What a sink has taken -/

/-- The sink has taken these bytes: a string holds those that fit before its
terminator, a stream has them written or in `tmp`. -/
structure Holds (stale : Memory) (size : Nat) (file : Bool) (bytes : Bytes) (s : Sink) : Prop where
  sized : s.size = size
  kind : s.file = file
  count : s.count = bytes.length
  string : file = false → s.buf = received (bytes.take (size - 1)) stale
  stream : file = true → s.written ++ s.tmp = bytes ∧ s.tmp.length < tmpSize

section Sinks
variable {stale : Memory} {size : Nat} {file : Bool} {bytes : Bytes} {s : Sink}

theorem put_received (bytes more : Bytes) (stale : Memory) :
    put (received bytes stale) bytes.length more = received (bytes ++ more) stale := by
  funext x
  unfold received put
  rw [List.length_append]
  by_cases first : x < bytes.length
  · simp [first, Nat.not_le.mpr first, Nat.lt_add_right more.length first]
  · by_cases second : x < bytes.length + more.length
    · have later : bytes.length ≤ x := by omega
      have inside : x - bytes.length < more.length := by omega
      simp [second, later, inside]
    · simp [first, second]

theorem flushTmp_holds (s : Sink) : (flushTmp s).written ++ (flushTmp s).tmp = s.written ++ s.tmp ∧
    (flushTmp s).tmp = [] ∧ (flushTmp s).count = s.count ∧ (flushTmp s).file = s.file ∧
      (flushTmp s).size = s.size := by
  unfold flushTmp
  split
  · exact ⟨by simp, rfl, rfl, rfl, rfl⟩
  · rename_i none_
    exact ⟨rfl, List.length_eq_zero_iff.mp (not_not.mp none_), rfl, rfl, rfl⟩

theorem outFile_holds (fuel : Nat) {p : Bytes} (enough : p.length ≤ fuel)
    (holds : Holds stale size true bytes s) :
    Holds stale size true (bytes ++ p) (outFile fuel s p) := by
  induction fuel generalizing s p bytes with
  | zero =>
      rw [List.length_eq_zero_iff.mp (Nat.le_zero.mp enough), List.append_nil]
      exact holds
  | succ fuel ih =>
      unfold outFile
      by_cases none_ : p.length = 0
      · rw [if_pos none_, List.length_eq_zero_iff.mp none_, List.append_nil]
        exact holds
      · rw [if_neg none_]
        obtain ⟨whole, short⟩ := holds.stream rfl
        dsimp only
        generalize taken : (if tmpSize - s.tmp.length > p.length then p.length
          else tmpSize - s.tmp.length) = k
        have some_ : 0 < k ∧ k ≤ p.length ∧ s.tmp.length + k ≤ tmpSize := by
          rw [← taken]
          split <;> omega
        have split_ : bytes ++ p = bytes ++ p.take k ++ p.drop k := by
          rw [List.append_assoc, List.take_append_drop]
        rw [split_]
        refine ih (by rw [List.length_drop]; omega) ?_
        have count : s.count + k = (bytes ++ p.take k).length := by
          rw [List.length_append, List.length_take, holds.count]
          omega
        have stored : s.written ++ (s.tmp ++ p.take k) = bytes ++ p.take k := by
          rw [← List.append_assoc, whole]
        by_cases full : (s.tmp ++ p.take k).length = tmpSize
        · rw [if_pos full]
          obtain ⟨same, empty, counted, isFile, sized⟩ :=
            flushTmp_holds { s with tmp := s.tmp ++ p.take k, count := s.count + k }
          refine ⟨sized.trans holds.sized, isFile.trans holds.kind, counted.trans count,
            fun string => Bool.noConfusion string, fun _ => ⟨?_, ?_⟩⟩
          · exact same.trans stored
          · rw [empty]
            decide
        · rw [if_neg full]
          refine ⟨holds.sized, holds.kind, count, fun string => Bool.noConfusion string, fun _ =>
            ⟨stored, ?_⟩⟩
          rw [List.length_append, List.length_take] at full ⊢
          omega

theorem out_holds (holds : Holds stale size file bytes s) (p : Bytes) :
    Holds stale size file (bytes ++ p) (out s p) := by
  unfold out
  cases file with
  | true =>
      rw [if_pos holds.kind]
      exact outFile_holds p.length (Nat.le_refl _) holds
  | false =>
      have string : ¬s.file = true := by rw [holds.kind]; exact Bool.false_ne_true
      rw [if_neg string]
      refine ⟨holds.sized, holds.kind, ?_, fun _ => ?_, fun stream => Bool.noConfusion stream⟩
      · rw [List.length_append, ← holds.count]
      · dsimp only
        have buf := holds.string rfl
        rw [holds.count, holds.sized]
        by_cases room : bytes.length + 1 < size
        · rw [if_pos room, buf, List.take_of_length_le (by omega), put_received]
          congr 1
          rw [List.take_append, List.take_of_length_le (show bytes.length ≤ size - 1 by omega)]
          split
          · rfl
          · rename_i all
            rw [List.take_length, List.take_of_length_le (by omega)]
        · rw [if_neg room, buf, List.take_append_of_le_length (by omega)]

theorem padLoop_holds (c : UInt8) (fuel : Nat) {n : Nat} (enough : n ≤ fuel)
    (holds : Holds stale size file bytes s) :
    Holds stale size file (bytes ++ List.replicate n c) (padLoop c fuel s n) := by
  induction fuel generalizing s n bytes with
  | zero =>
      rw [Nat.le_zero.mp enough, List.replicate_zero, List.append_nil]
      exact holds
  | succ fuel ih =>
      unfold padLoop
      by_cases none_ : n = 0
      · rw [if_pos none_, none_, List.replicate_zero, List.append_nil]
        exact holds
      · rw [if_neg none_]
        dsimp only
        generalize block : (if n < 32 then n else 32) = k
        have some_ : 0 < k ∧ k ≤ n := by
          rw [← block]
          split <;> omega
        have split_ : List.replicate n c = List.replicate k c ++ List.replicate (n - k) c := by
          rw [List.replicate_append_replicate]
          congr 1
          omega
        rw [split_, ← List.append_assoc]
        exact ih (by omega) (out_holds holds _)

theorem pad_holds (holds : Holds stale size file bytes s) (c : UInt8) (n : Int) :
    Holds stale size file (bytes ++ List.replicate n.toNat c) (pad s c n) := by
  unfold pad
  split
  · rename_i none_
    rw [Int.toNat_of_nonpos none_, List.replicate_zero, List.append_nil]
    exact holds
  · exact padLoop_holds c n.toNat (Nat.le_refl _) holds

/-- A field as C99 lays it out: the sign or mark, then the body, in a width. -/
def laid (width : Int) (left_ zero : Bool) (sign body : Bytes) : Bytes :=
  let fill := (width - sign.length - body.length).toNat
  if left_ then sign ++ body ++ List.replicate fill (ch ' ')
  else if zero then sign ++ List.replicate fill (ch '0') ++ body
  else List.replicate fill (ch ' ') ++ sign ++ body

theorem field_holds (holds : Holds stale size file bytes s) (sign body : Bytes) {zeros : Int}
    (natural : 0 ≤ zeros)
    (width : Int) (f : Flags) : Holds stale size file
      (bytes ++ laid width f.left_ f.zero sign (List.replicate zeros.toNat (ch '0') ++ body))
      (field s sign body zeros width f) := by
  have fill : (width - sign.length - (List.replicate zeros.toNat (ch '0') ++ body).length).toNat =
      (width - sign.length - zeros - body.length).toNat := by
    rw [List.length_append, List.length_replicate]
    congr 1
    omega
  unfold field laid
  rw [fill]
  generalize (width - sign.length - zeros - body.length) = gap
  cases f.left_ with
  | true =>
      have signed_ := out_holds holds sign
      have body_ := out_holds (pad_holds signed_ (ch '0') zeros) body
      have padded := pad_holds body_ (ch ' ') gap
      simpa only [Bool.not_true, Bool.false_and, Bool.false_eq_true,
        if_true, if_false, List.append_assoc] using padded
  | false =>
      cases f.zero with
      | true =>
          have signed_ := out_holds holds sign
          have filled := pad_holds signed_ (ch '0') gap
          have body_ := out_holds (pad_holds filled (ch '0') zeros) body
          simpa only [Bool.not_false, Bool.not_true, Bool.and_false, Bool.and_true, Bool.false_eq_true,
            if_true, if_false, List.append_assoc] using body_
      | false =>
          have filled := pad_holds holds (ch ' ') gap
          have signed_ := out_holds filled sign
          have body_ := out_holds (pad_holds signed_ (ch '0') zeros) body
          simpa only [Bool.not_false, Bool.not_true, Bool.and_false, Bool.and_true, Bool.false_eq_true,
            if_true, if_false, List.append_assoc] using body_

end Sinks

end R2Apps.TccPrintf
