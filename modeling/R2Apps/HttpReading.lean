import Mathlib.Algebra.Ring.Int.Defs
import R2Apps.WireHttp

/-! `r2net/http.go`: how `readResponse` finds the end of a response in what `Conn.Read` hands it piece
by piece. The standard library's `strings.ToLower` is a parameter: nothing here depends on what it
makes of a key. -/
namespace R2Apps.HttpReading
open WireHttp (Bytes trimSpace split number)
open WireBytes (ascii)

def maxBody : Nat := 16 * 1024

abbrev Header := List (Bytes × Bytes)

structure Response where
  status : Int
  reason : Bytes
  /-- A key's newest value is in front. -/
  header : Header
  body : Bytes
deriving DecidableEq

inductive ReadError where
  | closed
  | other (number : Nat)
deriving DecidableEq

inductive HttpError where
  | text (s : Bytes)
  | read (e : ReadError)
deriving DecidableEq

/-! ## The head -/

/-- Where the blank line ends that ends the head. -/
def headerEnd : Bytes → Option Nat
  | [] => none
  | b :: rest =>
      if [10, 10] <+: b :: rest then some 2
      else if [13, 10, 13, 10] <+: b :: rest then some 4
      else (headerEnd rest).map (· + 1)

/-- `strings.TrimRight(s, cut)`. -/
def trimRight (cut s : Bytes) : Bytes := (s.reverse.dropWhile (· ∈ cut)).reverse

/-- `strconv.Atoi`, whose values have 64 bits. -/
def atoi (s : Bytes) : Option Int := (WireHttp.atoi s).filter fun n => -2 ^ 63 ≤ n ∧ n < 2 ^ 63

def shorten (s : Bytes) : Bytes := if s.length > 40 then s.take 40 ++ ascii "..." else s

def parseStatusLine (line : Bytes) : Except HttpError (Int × Bytes) :=
  if !(ascii "HTTP/").isPrefixOf line then .error (.text (ascii "not an HTTP response: " ++ shorten line))
  else
    match line.idxOf? 32 with
    | none => .error (.text (ascii "malformed status line"))
    | some sp =>
        let rest := (line.drop (sp + 1)).dropWhile (· == 32)
        let (code, reason) :=
          match rest.idxOf? 32 with
          | some sp2 => (rest.take sp2, trimSpace (rest.drop (sp2 + 1)))
          | none => (rest, [])
        match atoi code with
        | some status =>
            if status < 100 ∨ status > 599 then .error (.text (ascii "malformed status code"))
            else .ok (status, reason)
        | none => .error (.text (ascii "malformed status code"))

section Reading
variable (lower : Bytes → Bytes) (last : ReadError)

def headerLine (header : Header) (line : Bytes) : Header :=
  let line := trimRight [13] line
  match line.idxOf? 58 with
  | some (colon + 1) =>
      (lower (trimSpace (line.take (colon + 1))), trimSpace (line.drop (colon + 2))) :: header
  | _ => header

/-- The part of `parseResponse` that reads the head: all of the response but its body. -/
def parseHead (head : Bytes) : Except HttpError Response :=
  match split 10 (trimRight [13, 10] head) with
  | [] => .error (.text (ascii "empty response"))
  | first :: lines =>
      (parseStatusLine (trimRight [13] first)).map fun (status, reason) =>
        { status := status, reason := reason, header := lines.foldl (headerLine lower) [], body := [] }

def contentLength (header : Header) : Option Int := (header.lookup (ascii "content-length")).bind atoi

/-- Whether `rest` bytes behind the head complete the response. -/
def completes (header : Header) (rest : Nat) : Bool :=
  match contentLength header with
  | some length => decide ((rest : Int) ≥ length ∨ length > maxBody)
  | none => false

def parseResponse (raw : Bytes) (head : Nat) : Except HttpError (Response × Bool) :=
  (parseHead lower (raw.take head)).map fun res =>
    ({ res with body := (raw.drop head).take maxBody }, completes res.header (raw.length - head))

def finish (raw : Bytes) (head : Option Nat) : Except HttpError Response :=
  match head.or (headerEnd raw) with
  | none => .error (.text (ascii "truncated response head"))
  | some h => (parseResponse lower raw h).map (·.1)

/-- The loop over what `Read` gives, and the error behind it. -/
def readLoop (raw : Bytes) (head : Option Nat) : List Bytes → Except HttpError Response
  | [] => if last = .closed then finish lower raw head else .error (.read last)
  | piece :: rest =>
      let raw := raw ++ piece
      let head := head.or (headerEnd raw)
      match head.map (parseResponse lower raw) with
      | some (.error e) => .error e
      | some (.ok (res, true)) => .ok res
      | _ => if raw.length ≥ maxBody + 8192 then finish lower raw head else readLoop raw head rest

def readResponse (pieces : List Bytes) : Except HttpError Response := readLoop lower last [] none pieces

end Reading

/-! ## Where the head ends -/

theorem headerEnd_bounds {b : Bytes} {h : Nat} (found : headerEnd b = some h) : 2 ≤ h ∧ h ≤ b.length := by
  induction b generalizing h with
  | nil => cases found
  | cons c rest ih =>
      rw [headerEnd] at found
      split at found
      · next two =>
        cases found
        exact ⟨Nat.le_refl 2, two.length_le⟩
      · split at found
        · next four =>
          cases found
          exact ⟨by omega, four.length_le⟩
        · obtain ⟨k, there, rfl⟩ := Option.map_eq_some_iff.mp found
          have bounds := ih there
          rw [List.length_cons]
          omega

theorem headerEnd_two {x y : UInt8} {h : Nat} (found : headerEnd [x, y] = some h) : [x, y] = [10, 10] := by
  have bounds := headerEnd_bounds found
  by_contra other
  have notTwo : ¬ [10, 10] <+: [x, y] := fun two => other (two.eq_of_length rfl).symm
  rw [headerEnd, if_neg notTwo, if_neg fun four => absurd four.length_le (by simp)] at found
  obtain ⟨k, there, -⟩ := Option.map_eq_some_iff.mp found
  have tail := headerEnd_bounds there
  rw [List.length_singleton] at tail
  omega

theorem headerEnd_append {b : Bytes} {h : Nat} (more : Bytes) (found : headerEnd b = some h) :
    headerEnd (b ++ more) = some h := by
  induction b generalizing h with
  | nil => cases found
  | cons c rest ih =>
      have within : c :: rest <+: c :: rest ++ more := List.prefix_append _ _
      rw [headerEnd] at found
      rw [List.cons_append, headerEnd, ← List.cons_append]
      by_cases two : [10, 10] <+: c :: rest
      · rw [if_pos two] at found
        rw [if_pos (two.trans within)]
        exact found
      · rw [if_neg two] at found
        by_cases four : [13, 10, 13, 10] <+: c :: rest
        · rw [if_pos four] at found
          have notTwo : ¬ [10, 10] <+: c :: rest ++ more := by
            intro two
            obtain ⟨c13, -⟩ := List.cons_prefix_cons.mp four
            obtain ⟨c10, -⟩ := List.cons_prefix_cons.mp two
            exact absurd (c10.trans c13.symm) (by decide)
          rw [if_neg notTwo, if_pos (four.trans within)]
          exact found
        · rw [if_neg four] at found
          obtain ⟨k, there, rfl⟩ := Option.map_eq_some_iff.mp found
          have bounds := headerEnd_bounds there
          have notTwo : ¬ [10, 10] <+: c :: rest ++ more := by
            intro longer
            refine two (List.prefix_of_prefix_length_le longer within ?_)
            rw [List.length_cons, List.length_cons, List.length_cons]
            exact Nat.succ_le_succ (by simp only [List.length_nil]; omega)
          have notFour : ¬ [13, 10, 13, 10] <+: c :: rest ++ more := by
            intro longer
            by_cases long : 3 ≤ rest.length
            · exact four (List.prefix_of_prefix_length_le longer within (Nat.succ_le_succ long))
            · -- the end is right behind `c`, so what follows it is not a carriage return
              obtain ⟨x, y, rfl⟩ := List.length_eq_two.mp (show rest.length = 2 by omega)
              rw [headerEnd_two there] at longer
              obtain ⟨-, longer⟩ := List.cons_prefix_cons.mp longer
              obtain ⟨-, longer⟩ := List.cons_prefix_cons.mp longer
              obtain ⟨same, -⟩ := List.cons_prefix_cons.mp longer
              exact absurd same (by decide)
          rw [if_neg notTwo, if_neg notFour, ih there]
          rfl

theorem headerEnd_take {b : Bytes} {h : Nat} (found : headerEnd b = some h) :
    headerEnd (b.take h) = some h := by
  induction b generalizing h with
  | nil => cases found
  | cons c rest ih =>
      rw [headerEnd] at found
      by_cases two : [10, 10] <+: c :: rest
      · rw [if_pos two] at found
        cases found
        obtain ⟨t, whole⟩ := two
        rw [← whole]
        rfl
      · rw [if_neg two] at found
        by_cases four : [13, 10, 13, 10] <+: c :: rest
        · rw [if_pos four] at found
          cases found
          obtain ⟨t, whole⟩ := four
          rw [← whole]
          rfl
        · rw [if_neg four] at found
          obtain ⟨k, there, rfl⟩ := Option.map_eq_some_iff.mp found
          have shorter : c :: rest.take k <+: c :: rest := List.take_prefix (k + 1) (c :: rest)
          rw [List.take_succ_cons, headerEnd, if_neg fun p => two (p.trans shorter),
            if_neg fun p => four (p.trans shorter), ih there]
          rfl

theorem headerEnd_so_far (stream : Bytes) (n : Nat) :
    headerEnd (stream.take n) = (headerEnd stream).filter fun h => decide (h ≤ n) := by
  have back {h : Nat} (found : headerEnd (stream.take n) = some h) : headerEnd stream = some h := by
    have whole := headerEnd_append (stream.drop n) found
    rwa [List.take_append_drop] at whole
  cases whole : headerEnd stream with
  | none =>
      cases found : headerEnd (stream.take n) with
      | none => rfl
      | some h =>
          rw [back found] at whole
          cases whole
  | some h =>
      by_cases reached : h ≤ n
      · have there := headerEnd_append ((stream.take n).drop h) (headerEnd_take whole)
        have same : (stream.take n).take h ++ (stream.take n).drop h = stream.take n :=
          List.take_append_drop _ _
        rw [List.take_take, Nat.min_eq_left reached] at same
        rw [same] at there
        rw [there, Option.filter_some, if_pos (decide_eq_true reached)]
      · rw [Option.filter_some, if_neg (by simpa using reached)]
        cases found : headerEnd (stream.take n) with
        | none => rfl
        | some k =>
            have bounds := headerEnd_bounds found
            rw [back found, Option.some.injEq] at whole
            rw [List.length_take] at bounds
            omega

/-! ## Where the loop stops -/

/-- `Read` gives the stream in pieces of what its buffer holds at most. -/
structure SplitOf (stream : Bytes) (pieces : List Bytes) : Prop where
  whole : pieces.flatten = stream
  sized : ∀ p ∈ pieces, p ≠ [] ∧ p.length ≤ 2048

/-- The first end of a piece at `limit` or behind, from `n` on. -/
def stopAt (limit : Nat) : Nat → List Bytes → Option Nat
  | _, [] => none
  | n, p :: rest => if limit ≤ n + p.length then some (n + p.length) else stopAt limit (n + p.length) rest

section Stop
variable (lower : Bytes → Bytes) (last : ReadError)

/-- How many bytes of a body complete it. -/
def enough (header : Header) : Option Nat :=
  (contentLength header).map fun n : Int => if n > maxBody then 0 else n.toNat

/-- Where the loop stops at the latest that it can be made to. -/
def threshold (h : Nat) (header : Header) : Nat :=
  match enough header with
  | some n => min (maxBody + 8192) (h + n)
  | none => maxBody + 8192

theorem completes_iff (header : Header) (rest : Nat) :
    completes header rest = true ↔ ∃ n, enough header = some n ∧ n ≤ rest := by
  unfold completes enough
  cases contentLength header with
  | none => simp
  | some n =>
      simp only [decide_eq_true_eq, Option.map_some, Option.some.injEq, exists_eq_left']
      split <;> omega

/-- What is read when the loop stops at `n`. -/
def answerAt (stream : Bytes) (h : Nat) (res : Response) (n : Nat) : Option Response :=
  if h ≤ n then some { res with body := ((stream.take n).drop h).take maxBody } else none

theorem finish_so_far (stream : Bytes) (n : Nat) {h : Nat} (ends : headerEnd stream = some h) {res : Response}
    (head : parseHead lower (stream.take h) = .ok res) :
    (finish lower (stream.take n) (headerEnd (stream.take n))).toOption = answerAt stream h res n := by
  unfold finish answerAt
  rw [Option.or_self, headerEnd_so_far, ends]
  by_cases reached : h ≤ n
  · rw [if_pos reached, Option.filter_some, if_pos (by simpa using reached)]
    simp only [parseResponse, List.take_take, Nat.min_eq_left reached, head]
    rfl
  · rw [if_neg reached, Option.filter_some, if_neg (by simpa using reached)]
    rfl

theorem threshold_le {h n : Nat} (header : Header) :
    threshold h header ≤ n ↔ maxBody + 8192 ≤ n ∨ h ≤ n ∧ completes header (n - h) = true := by
  rw [completes_iff, threshold]
  cases enough header with
  | none => simp
  | some k =>
      simp only [Option.some.injEq, exists_eq_left']
      omega

theorem head_known {raw more grown : Bytes} (whole : raw ++ more = grown) :
    (headerEnd raw).or (headerEnd grown) = headerEnd grown := by
  cases found : headerEnd raw with
  | none => rfl
  | some k =>
      rw [← whole, headerEnd_append more found]
      rfl

theorem loop_stops {stream : Bytes} {h : Nat} (ends : headerEnd stream = some h) {res : Response}
    (head : parseHead lower (stream.take h) = .ok res) (pieces : List Bytes) : ∀ n ≤ stream.length,
    pieces.flatten = stream.drop n →
    (readLoop lower last (stream.take n) (headerEnd (stream.take n)) pieces).toOption =
      match stopAt (threshold h res.header) n pieces with
      | some m => answerAt stream h res m
      | none => if last = .closed then answerAt stream h res stream.length else none := by
  induction pieces with
  | nil =>
      intro n inside all
      have done : stream.length ≤ n := List.drop_eq_nil_iff.mp all.symm
      rw [readLoop, stopAt]
      split
      · have there : n = stream.length := Nat.le_antisymm inside done
        rw [finish_so_far lower stream n ends head, there]
      · rfl
  | cons piece rest ih =>
      intro n inside all
      have size := congrArg List.length all
      rw [List.flatten_cons, List.length_append, List.length_drop] at size
      have grown : stream.take n ++ piece = stream.take (n + piece.length) := by
        rw [List.take_add, ← all, List.flatten_cons, List.take_left]
      have left_ : rest.flatten = stream.drop (n + piece.length) := by
        rw [← List.drop_drop, ← all, List.flatten_cons, List.drop_left]
      rw [readLoop, stopAt, grown, head_known grown]
      have next := ih (n + piece.length) (by omega) left_
      have stops := finish_so_far lower stream (n + piece.length) ends head
      have long : (stream.take (n + piece.length)).length = n + piece.length := by
        rw [List.length_take]
        omega
      rw [long]
      generalize n + piece.length = m at next stops long ⊢
      have limit := threshold_le (h := h) (n := m) res.header
      by_cases reached : h ≤ m
      · have found : headerEnd (stream.take m) = some h := by
          rw [headerEnd_so_far, ends, Option.filter_some, if_pos (by simpa using reached)]
        have parsed : parseResponse lower (stream.take m) h =
            .ok ({ res with body := ((stream.take m).drop h).take maxBody },
              completes res.header (m - h)) := by
          rw [parseResponse, List.take_take, Nat.min_eq_left reached, head, long]
          rfl
        rw [found] at stops next ⊢
        rw [Option.map_some, parsed]
        cases whole : completes res.header (m - h) with
        | true =>
            rw [if_pos (limit.mpr (.inr ⟨reached, whole⟩))]
            dsimp only
            rw [answerAt, if_pos reached]
            rfl
        | false =>
            dsimp only
            by_cases full : m ≥ maxBody + 8192
            · rw [if_pos full, if_pos (limit.mpr (.inl full)), stops]
            · have below : ¬ threshold h res.header ≤ m := by
                intro over_
                rcases limit.mp over_ with far | ⟨-, done⟩
                · exact full far
                · rw [whole] at done
                  cases done
              rw [if_neg full, if_neg below, next]
      · have found : headerEnd (stream.take m) = none := by
          rw [headerEnd_so_far, ends, Option.filter_some, if_neg (by simpa using reached)]
        rw [found] at stops next ⊢
        rw [Option.map_none]
        dsimp only
        by_cases full : m ≥ maxBody + 8192
        · rw [if_pos full, if_pos (limit.mpr (.inl full)), stops]
        · have below : ¬ threshold h res.header ≤ m := by
            intro over_
            rcases limit.mp over_ with far | ⟨near, -⟩
            · exact full far
            · exact reached near
          rw [if_neg full, if_neg below, next]

end Stop

/-! ## Every way to split -/

section Splits
variable {stream : Bytes} {limit : Nat}

theorem stopAt_some {pieces : List Bytes} (sized : ∀ p ∈ pieces, p.length ≤ 2048) {m : Nat} : ∀ n < limit,
    stopAt limit n pieces = some m → limit ≤ m ∧ m < limit + 2048 ∧ m ≤ n + pieces.flatten.length := by
  induction pieces with
  | nil =>
      intro n _ stop
      cases stop
  | cons p rest ih =>
      intro n before stop
      have short := sized p List.mem_cons_self
      rw [List.flatten_cons, List.length_append]
      rw [stopAt] at stop
      split at stop
      · cases stop
        omega
      · have later := ih (fun q member => sized q (List.mem_cons_of_mem p member)) (n + p.length)
          (by omega) stop
        omega

theorem stopAt_none {pieces : List Bytes} : ∀ n < limit,
    stopAt limit n pieces = none ↔ n + pieces.flatten.length < limit := by
  induction pieces with
  | nil =>
      intro n before
      simpa [stopAt] using before
  | cons p rest ih =>
      intro n before
      rw [List.flatten_cons, List.length_append, stopAt]
      split
      · simp only [reduceCtorEq, false_iff]
        omega
      · rw [ih (n + p.length) (by omega)]
        omega

def singles (b : Bytes) : List Bytes := b.map fun c => [c]

theorem singles_flatten (b : Bytes) : (singles b).flatten = b := by
  induction b with
  | nil => rfl
  | cons c rest ih => exact congrArg (c :: ·) ih

theorem singles_sized (b : Bytes) : ∀ p ∈ singles b, p ≠ [] ∧ p.length ≤ 2048 := by
  intro p member
  obtain ⟨c, -, rfl⟩ := List.mem_map.mp member
  exact ⟨List.cons_ne_nil c [], by simp⟩

theorem stopAt_singles (rest : List Bytes) (b : Bytes) : ∀ n, n + b.length < limit →
    stopAt limit n (singles b ++ rest) = stopAt limit (n + b.length) rest := by
  induction b with
  | nil => exact fun n _ => rfl
  | cons c b ih =>
      intro n before
      rw [List.length_cons] at before ⊢
      have next := ih (n + 1) (by omega)
      rw [singles, List.map_cons, List.cons_append, stopAt, List.length_singleton, if_neg (by omega)]
      rw [← singles, next]
      congr 1
      omega

theorem split_stops {m : Nat} (positive : 0 < limit) (low : limit ≤ m) (high : m < limit + 2048)
    (inside : m ≤ stream.length) : ∃ pieces, SplitOf stream pieces ∧ stopAt limit 0 pieces = some m := by
  refine ⟨singles (stream.take (limit - 1)) ++ ((stream.take m).drop (limit - 1) :: singles (stream.drop m)),
    ⟨?_, ?_⟩, ?_⟩
  · rw [List.flatten_append, List.flatten_cons, singles_flatten, singles_flatten, ← List.append_assoc]
    have front : stream.take (limit - 1) ++ (stream.take m).drop (limit - 1) = stream.take m := by
      have cut : stream.take (limit - 1) = (stream.take m).take (limit - 1) := by
        rw [List.take_take, Nat.min_eq_left (by omega)]
      rw [cut, List.take_append_drop]
    rw [front, List.take_append_drop]
  · intro p member
    rcases List.mem_append.mp member with first | later
    · exact singles_sized _ p first
    · rcases List.mem_cons.mp later with rfl | last
      · have size : ((stream.take m).drop (limit - 1)).length = m - (limit - 1) := by
          rw [List.length_drop, List.length_take]
          omega
        refine ⟨fun nothing => ?_, by omega⟩
        rw [nothing, List.length_nil] at size
        omega
      · exact singles_sized _ p last
  · have start : (stream.take (limit - 1)).length = limit - 1 := by
      rw [List.length_take]
      omega
    have size : ((stream.take m).drop (limit - 1)).length = m - (limit - 1) := by
      rw [List.length_drop, List.length_take]
      omega
    rw [stopAt_singles _ _ 0 (by omega), start, stopAt, size, if_pos (by omega)]
    congr 1
    omega

end Splits

section Framing
variable (lower : Bytes → Bytes) (last : ReadError)

def answer (pieces : List Bytes) : Option Response := (readResponse lower last pieces).toOption

theorem loop_unread {stream : Bytes}
    (unread : ∀ h res, headerEnd stream = some h → parseHead lower (stream.take h) ≠ .ok res)
    (pieces : List Bytes) :
    ∀ n ≤ stream.length, pieces.flatten = stream.drop n →
      (readLoop lower last (stream.take n) (headerEnd (stream.take n)) pieces).toOption = none := by
  have over_ (n : Nat) : (finish lower (stream.take n) (headerEnd (stream.take n))).toOption = none := by
    unfold finish
    rw [Option.or_self, headerEnd_so_far]
    cases ends : headerEnd stream with
    | none => rfl
    | some h =>
        by_cases reached : h ≤ n
        · rw [Option.filter_some, if_pos (by simpa using reached)]
          simp only [parseResponse, List.take_take, Nat.min_eq_left reached]
          cases head : parseHead lower (stream.take h) with
          | error e => rfl
          | ok res => exact absurd head (unread h res ends)
        · rw [Option.filter_some, if_neg (by simpa using reached)]
          rfl
  induction pieces with
  | nil =>
      intro n _ _
      rw [readLoop]
      split
      · exact over_ n
      · rfl
  | cons piece rest ih =>
      intro n inside all
      have size := congrArg List.length all
      rw [List.flatten_cons, List.length_append, List.length_drop] at size
      have grown : stream.take n ++ piece = stream.take (n + piece.length) := by
        rw [List.take_add, ← all, List.flatten_cons, List.take_left]
      have next := ih (n + piece.length) (by omega)
        (by rw [← List.drop_drop, ← all, List.flatten_cons, List.drop_left])
      rw [readLoop, grown, head_known grown]
      generalize n + piece.length = m at next ⊢
      cases found : headerEnd (stream.take m) with
      | none =>
          rw [found] at next
          rw [Option.map_none]
          dsimp only
          split
          · rw [← found]
            exact over_ m
          · exact next
      | some h =>
          rw [headerEnd_so_far] at found
          obtain ⟨ends, reached⟩ := Option.filter_eq_some_iff.mp found
          have near : h ≤ m := by simpa using reached
          rw [Option.map_some, parseResponse, List.take_take, Nat.min_eq_left near]
          cases head : parseHead lower (stream.take h) with
          | error e => rfl
          | ok res => exact absurd head (unread h res ends)

theorem answer_none {stream : Bytes} {pieces : List Bytes} (split_ : SplitOf stream pieces)
    (unread : ∀ h res, headerEnd stream = some h → parseHead lower (stream.take h) ≠ .ok res) :
    answer lower last pieces = none :=
  loop_unread lower last unread pieces 0 (Nat.zero_le _) split_.whole

theorem answer_stops {stream : Bytes} {pieces : List Bytes} (split_ : SplitOf stream pieces) {h : Nat}
    (ends : headerEnd stream = some h) {res : Response} (head : parseHead lower (stream.take h) = .ok res) :
    answer lower last pieces =
      match stopAt (threshold h res.header) 0 pieces with
      | some m => answerAt stream h res m
      | none => if last = .closed then answerAt stream h res stream.length else none :=
  loop_stops lower last ends head pieces 0 (Nat.zero_le _) split_.whole

/-- What a stream's framing is to be: one response however it is split, and a declared length that
has come is the length of the body. -/
structure Framed (stream : Bytes) : Prop where
  same : ∀ p q, SplitOf stream p → SplitOf stream q → answer lower last p = answer lower last q
  exactly : ∀ h res (n : Nat), headerEnd stream = some h → parseHead lower (stream.take h) = .ok res →
    contentLength res.header = some (n : Int) → n ≤ maxBody → h + n ≤ stream.length →
    ∀ p, SplitOf stream p → ∃ r, answer lower last p = some r ∧ r.body = (stream.drop h).take n

/-- The stream ends by the threshold; or the body is full by then; or the head is not complete a
buffer behind it, and no length it declares has come. -/
def Settled (stream : Bytes) : Prop :=
  ∀ h res, headerEnd stream = some h → parseHead lower (stream.take h) = .ok res →
    stream.length ≤ threshold h res.header ∨ h + maxBody ≤ threshold h res.header ∨
      threshold h res.header + 2047 < h ∧
        ∀ n : Nat, contentLength res.header = some (n : Int) → n ≤ maxBody → stream.length < h + n

theorem threshold_pos {h : Nat} (header : Header) (head : 2 ≤ h) : 0 < threshold h header := by
  unfold threshold maxBody
  split <;> omega

theorem threshold_declared {h n : Nat} {header : Header} (declared : contentLength header = some (n : Int))
    (small : n ≤ maxBody) : threshold h header = min (maxBody + 8192) (h + n) := by
  have not_ : ¬ (n : Int) > maxBody := by omega
  simp only [threshold, enough, declared, Option.map_some, if_neg not_, Int.toNat_natCast]

section Head
variable {stream : Bytes} {h : Nat} {res : Response} (ends : headerEnd stream = some h)
  (head : parseHead lower (stream.take h) = .ok res)

include ends head

theorem answer_cases {pieces : List Bytes} (split_ : SplitOf stream pieces) :
    (∃ m, threshold h res.header ≤ m ∧ m < threshold h res.header + 2048 ∧ m ≤ stream.length ∧
        answer lower last pieces = answerAt stream h res m) ∨
      stream.length < threshold h res.header ∧
        answer lower last pieces = if last = .closed then answerAt stream h res stream.length else none := by
  have positive := threshold_pos res.header (headerEnd_bounds ends).1
  have stops := answer_stops lower last split_ ends head
  cases stop : stopAt (threshold h res.header) 0 pieces with
  | some m =>
      obtain ⟨low, high, inside⟩ := stopAt_some (fun p member => (split_.sized p member).2) 0 positive stop
      rw [split_.whole, Nat.zero_add] at inside
      rw [stop] at stops
      exact .inl ⟨m, low, high, inside, stops⟩
  | none =>
      have short := (stopAt_none 0 positive).mp stop
      rw [split_.whole, Nat.zero_add] at short
      rw [stop] at stops
      exact .inr ⟨short, stops⟩

theorem answer_reached {m : Nat} (low : threshold h res.header ≤ m) (high : m < threshold h res.header + 2048)
    (inside : m ≤ stream.length) :
    ∃ pieces, SplitOf stream pieces ∧ answer lower last pieces = answerAt stream h res m := by
  have positive := threshold_pos res.header (headerEnd_bounds ends).1
  obtain ⟨pieces, split_, stop⟩ := split_stops positive low high inside
  refine ⟨pieces, split_, ?_⟩
  rw [answer_stops lower last split_ ends head, stop]

theorem settled_of_framed (framed : Framed lower last stream) :
    stream.length ≤ threshold h res.header ∨ h + maxBody ≤ threshold h res.header ∨
      threshold h res.header + 2047 < h ∧
        ∀ n : Nat, contentLength res.header = some (n : Int) → n ≤ maxBody → stream.length < h + n := by
  by_contra unsettled
  obtain ⟨long, notFull, more⟩ : threshold h res.header < stream.length ∧
    threshold h res.header < h + maxBody ∧
      ¬ (threshold h res.header + 2047 < h ∧
        ∀ n : Nat, contentLength res.header = some (n : Int) → n ≤ maxBody → stream.length < h + n) := by
    simpa only [not_or, Nat.not_le] using unsettled
  have bounds := headerEnd_bounds ends
  have reached {m : Nat} := answer_reached lower last ends head (m := m)
  obtain ⟨p, splitP, atP⟩ := reached (Nat.le_refl _) (by omega) (Nat.le_of_lt long)
  by_cases near : h ≤ threshold h res.header
  · -- one byte more of the body is kept when it comes with the rest
    obtain ⟨q, splitQ, atQ⟩ := reached (Nat.le_succ _) (by omega) long
    have both := framed.same p q splitP splitQ
    rw [atP, atQ, answerAt, if_pos near, answerAt, if_pos (by omega), Option.some.injEq,
      Response.mk.injEq] at both
    have sizes := congrArg List.length both.2.2.2
    rw [List.length_take, List.length_drop, List.length_take, List.length_take, List.length_drop,
      List.length_take] at sizes
    omega
  · by_cases complete : threshold h res.header + 2047 < h
    · obtain ⟨n, declared, small, come⟩ : ∃ n : Nat, contentLength res.header = some (n : Int) ∧ n ≤ maxBody ∧
          h + n ≤ stream.length := by
        by_contra none_
        refine more ⟨complete, fun n declared small => ?_⟩
        by_contra come
        exact none_ ⟨n, declared, small, Nat.le_of_not_lt come⟩
      obtain ⟨r, got, -⟩ := framed.exactly h res n ends head declared small come p splitP
      rw [atP, answerAt, if_neg near] at got
      cases got
    · obtain ⟨q, splitQ, atQ⟩ := reached (Nat.le_of_not_le near) (by omega) bounds.2
      have both := framed.same p q splitP splitQ
      rw [atP, atQ, answerAt, if_neg near, answerAt, if_pos (Nat.le_refl h)] at both
      cases both

theorem answer_settled
    (settled : stream.length ≤ threshold h res.header ∨ h + maxBody ≤ threshold h res.header ∨
      threshold h res.header + 2047 < h) {pieces : List Bytes} (split_ : SplitOf stream pieces) :
    answer lower last pieces =
      if threshold h res.header + 2047 < h then none
      else if stream.length < threshold h res.header then
        if last = .closed then answerAt stream h res stream.length else none
      else some { res with body := (stream.drop h).take maxBody } := by
  have bounds := headerEnd_bounds ends
  rcases answer_cases lower last ends head split_ with ⟨m, low, high, inside, at_⟩ | ⟨short, at_⟩
  · rw [at_, answerAt]
    by_cases far : threshold h res.header + 2047 < h
    · rw [if_pos far, if_neg (by omega)]
    · have near : h ≤ m := by
        rcases settled with all | full | far' <;> omega
      have come : ¬ stream.length < threshold h res.header := by omega
      rw [if_neg far, if_neg come, if_pos near]
      congr 2
      -- the stream ends at `m`, or the body is full by then
      rw [List.drop_take, List.take_take]
      rcases settled with all | full | far'
      · rw [List.take_eq_take_iff]
        rw [List.length_drop]
        omega
      · rw [Nat.min_eq_left (by omega)]
      · exact absurd far' far
  · have near : ¬ threshold h res.header + 2047 < h := by omega
    rw [at_, if_neg near, if_pos short]

end Head

/-- One response however the stream is split, and the declared length kept: exactly for the settled
streams. -/
theorem framed_iff (stream : Bytes) : Framed lower last stream ↔ Settled lower stream := by
  constructor
  · exact fun framed h res ends head => settled_of_framed lower last ends head framed
  · intro settled
    constructor
    · intro p q splitP splitQ
      by_cases unread : ∀ h res, headerEnd stream = some h → parseHead lower (stream.take h) ≠ .ok res
      · rw [answer_none lower last splitP unread, answer_none lower last splitQ unread]
      · obtain ⟨h, res, ends, head⟩ : ∃ h res, headerEnd stream = some h ∧
            parseHead lower (stream.take h) = .ok res := by
          by_contra none_
          exact unread fun h res ends head => none_ ⟨h, res, ends, head⟩
        have places : stream.length ≤ threshold h res.header ∨ h + maxBody ≤ threshold h res.header ∨
            threshold h res.header + 2047 < h := (settled h res ends head).imp_right (Or.imp_right And.left)
        rw [answer_settled lower last ends head places splitP,
          answer_settled lower last ends head places splitQ]
    · intro h res n ends head declared small come p splitP
      have here := settled h res ends head
      have places : stream.length ≤ threshold h res.header ∨ h + maxBody ≤ threshold h res.header ∨
          threshold h res.header + 2047 < h := here.imp_right (Or.imp_right And.left)
      have limit := threshold_declared declared small (h := h)
      have near : ¬ threshold h res.header + 2047 < h := by
        intro far
        rcases here with all | full | ⟨-, none_⟩
        · omega
        · omega
        · have short := none_ n declared small
          omega
      have reached : ¬ stream.length < threshold h res.header := by omega
      rw [answer_settled lower last ends head places splitP, if_neg near, if_neg reached]
      refine ⟨_, rfl, ?_⟩
      dsimp only
      rw [List.take_eq_take_iff, List.length_drop]
      rcases here with all | full | ⟨far, -⟩ <;> omega

/-- A byte too many behind a body of two. -/
def oneTooMany : Bytes := ascii "HTTP/1.0 200 OK\r\nContent-Length: 2\r\n\r\nhi!"

def okHead : Response where
  status := 200
  reason := ascii "OK"
  header := [(ascii "content-length", ascii "2")]
  body := []

theorem body_too_long : ¬ Framed WireHttp.toLower .closed oneTooMany := by
  intro framed
  have ends : headerEnd oneTooMany = some 38 := by decide
  have head : parseHead WireHttp.toLower (oneTooMany.take 38) = .ok okHead := by rfl
  rcases settled_of_framed WireHttp.toLower .closed ends head framed with all | full | ⟨far, -⟩
  · exact absurd all (by decide)
  · exact absurd full (by decide)
  · exact absurd far (by decide)

end Framing

end R2Apps.HttpReading
