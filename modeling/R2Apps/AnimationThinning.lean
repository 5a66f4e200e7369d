import Mathlib.Algebra.Order.BigOperators.Group.List
import Mathlib.Algebra.Ring.Nat
import Mathlib.Data.List.Basic
import Mathlib.Logic.Function.Basic
import Mathlib.Tactic.Ring

/-! Animations of the browser's `image.cpp`, put together a frame at a time. When
the room is used up every other frame goes and the rest stand for twice as many,
so what is kept is every `stride`-th frame that was given, each shown for as long
as the frames it stands for.

`P` is a frame as it is kept, `R` one as it is given; `dither` is `ditherInto`.
The pictures and the delays are two arrays in memory of their own. -/
namespace R2Apps.AnimationThinning

/-! ## Windows -/

section Windows
variable {ds : List Nat} {s i m : Nat}

/-- The sum of the `i`-th `s` numbers of the list, or of what there is of them. -/
def window (s : Nat) (ds : List Nat) (i : Nat) : Nat := ((ds.drop (i * s)).take s).sum

/-- The sum of the numbers before the `i`-th window. -/
def before (s : Nat) (ds : List Nat) (i : Nat) : Nat := (ds.take (i * s)).sum

theorem before_succ (s : Nat) (ds : List Nat) (i : Nat) :
    before s ds (i + 1) = before s ds i + window s ds i := by
  rw [before, Nat.succ_mul, List.take_add, List.sum_append, before, window]

theorem window_double (s : Nat) (ds : List Nat) (i : Nat) :
    window (2 * s) ds i = window s ds (2 * i) + window s ds (2 * i + 1) := by
  have first : i * (2 * s) = 2 * i * s := by ring
  have second : (2 * i + 1) * s = 2 * i * s + s := by ring
  rw [window, window, window, first, second, Nat.two_mul s, List.take_add, List.sum_append, List.drop_drop]

theorem window_le (s : Nat) (ds : List Nat) (i : Nat) : window s ds i ≤ ds.sum := by
  have part : ((ds.drop (i * s)).take s).Sublist ds := (List.take_sublist _ _).trans (List.drop_sublist _ _)
  exact part.sum_le_sum fun _ _ => Nat.zero_le _

theorem window_full (m : Nat) (full : (i + 1) * s ≤ ds.length) : window s (ds ++ [m]) i = window s ds i := by
  rw [Nat.succ_mul] at full
  rw [window, window, List.drop_append_of_le_length (by omega), List.take_append_of_le_length]
  rw [List.length_drop]
  omega

theorem window_last (m : Nat) (first : i * s ≤ ds.length) (open_ : ds.length < (i + 1) * s) :
    window s (ds ++ [m]) i = window s ds i + m := by
  rw [Nat.succ_mul] at open_
  have all : (ds.drop (i * s)).length < s := by
    rw [List.length_drop]
    omega
  have more : (ds.drop (i * s) ++ [m]).length ≤ s := by
    rw [List.length_append, List.length_singleton]
    exact all
  rw [window, window, List.drop_append_of_le_length first, List.take_of_length_le more,
    List.take_of_length_le (Nat.le_of_lt all), List.sum_append, List.sum_singleton]

end Windows

/-! ## The builder -/

structure Frame (R : Type) where
  rgba : R
  w : Int
  h : Int
  ms : Int

/-- What `AnimationBuilder` and the `Animation` it fills hold. `px` and `delay`
are the arrays, `frames` of each being in use. -/
structure Builder (P : Type) where
  w : Int := 0
  h : Int := 0
  frames : Nat := 0
  allocated : Bool := false
  px : Nat → P
  delay : Nat → Nat
  length : Nat := 0
  cap : Nat := 0
  stride : Nat := 1
  seen : Nat := 0
  why : Option String := none

structure Settings (R P : Type) where
  maxW : Int
  maxH : Int
  budget : Nat
  dither : R → (w h tw th : Int) → P

def fitSize (w h maxW maxH : Int) : Int × Int :=
  let maxW := if maxW < 1 then 1 else maxW
  let maxH := if maxH < 1 then 1 else maxH
  let (tw, th) := (w, h)
  let (tw, th) := if tw > maxW then (maxW, (th * maxW).tdiv tw) else (tw, th)
  let (tw, th) := if th > maxH then ((tw * maxH).tdiv th, maxH) else (tw, th)
  (if tw < 1 then 1 else tw, if th < 1 then 1 else th)

/-- How many frames of this size there is room for: an even number. -/
def capacity (budget : Nat) (w h : Int) : Nat :=
  let n := budget / (w * h).toNat
  let n := if n > 1024 then 1024 else n
  n / 2 * 2

def addDelay (d ms : Nat) : Nat := if d + ms > 65535 then 65535 else d + ms

section Adding
variable {R P : Type}

def Frame.duration (f : Frame R) : Nat := (if f.ms < 1 then 1 else f.ms).toNat

/-- One turn of the loop that halves: the frame at `2 n` goes to `n`. -/
def halveTurn (frames : Nat) (arrays : (Nat → P) × (Nat → Nat)) (n : Nat) : (Nat → P) × (Nat → Nat) :=
  let i := 2 * n
  let px := if n ≠ i then Function.update arrays.1 n (arrays.1 i) else arrays.1
  let d := arrays.2 i
  let d := if i + 1 < frames then addDelay d (arrays.2 (i + 1)) else d
  (px, Function.update arrays.2 n d)

def halve (b : Builder P) : Builder P :=
  let arrays := (List.range ((b.frames + 1) / 2)).foldl (halveTurn b.frames) (b.px, b.delay)
  { b with px := arrays.1, delay := arrays.2, frames := (b.frames + 1) / 2, stride := b.stride * 2 }

/-- Takes the room at the first frame; `memory` says whether there is enough for both arrays. -/
def allocate (c : Settings R P) (memory : Bool) (b : Builder P) (f : Frame R) : Builder P :=
  if b.allocated then b
  else
    let (w, h) := fitSize f.w f.h c.maxW c.maxH
    let cap := capacity c.budget w h
    let b := { b with w := w, h := h, cap := cap }
    if cap < 2 then { b with why := some "too big to animate" }
    else if !memory then { b with why := some "out of memory" }
    else { b with allocated := true }

def keep (c : Settings R P) (b : Builder P) (f : Frame R) : Builder P :=
  { b with
    px := Function.update b.px b.frames (c.dither f.rgba f.w f.h b.w b.h)
    delay := Function.update b.delay b.frames (if f.duration > 65535 then 65535 else f.duration)
    frames := b.frames + 1 }

/-- The part of `add` after the allocation. -/
def place (c : Settings R P) (b : Builder P) (f : Frame R) : Builder P :=
  let seen := b.seen
  let b := { b with seen := b.seen + 1 }
  if seen % b.stride ≠ 0 then
    { b with delay := Function.update b.delay (b.frames - 1) (addDelay (b.delay (b.frames - 1)) f.duration) }
  else keep c (if b.frames = b.cap then halve b else b) f

def add (c : Settings R P) (memory : Bool) (b : Builder P) (f : Frame R) : Builder P × Bool :=
  if b.why.isSome then (b, false)
  else
    let b := allocate c memory b f
    if b.why.isSome then (b, false) else (place c b f, true)

/-- A sequence of calls, and the frames that were taken. -/
def addAll (c : Settings R P) (memory : Bool) : Builder P → List (Frame R) → Builder P × List (Frame R)
  | b, [] => (b, [])
  | b, f :: rest =>
      let (b, taken) := add c memory b f
      let (b, others) := addAll c memory b rest
      (b, if taken then f :: others else others)

/-- `finish`: giving room back moves nothing that is in use. -/
def finish (b : Builder P) : Builder P × Option String :=
  if b.frames = 0 then
    ({ b with allocated := false, w := 0, h := 0, length := 0 }, some (b.why.getD "no pictures in it"))
  else ({ b with length := ((List.range b.frames).map b.delay).sum }, none)

/-- The loop of `frameAt` from frame `i` on, with `left_` frames to go. -/
def search (delay : Nat → Nat) : Nat → Nat → Nat → Option Nat
  | 0, _, _ => none
  | left_ + 1, i, t => if t < delay i then some i else search delay left_ (i + 1) (t - delay i)

def frameAt (b : Builder P) (ms : Nat) : Nat :=
  if b.frames < 2 ∨ b.length = 0 then 0
  else (search b.delay b.frames 0 (ms % b.length)).getD (b.frames - 1)

end Adding

/-! ## What is kept -/

section Keeping
variable {R P : Type} {c : Settings R P} {b : Builder P} {taken : List (Frame R)} {f : Frame R}

/-- The frame as it is kept, at the size the first one set. -/
def Frame.dithered (c : Settings R P) (w h : Int) (f : Frame R) : P := c.dither f.rgba f.w f.h w h

def durations (taken : List (Frame R)) : List Nat := taken.map Frame.duration

/-- The state of a builder that has taken these frames and has room. -/
structure Thinned (c : Settings R P) (taken : List (Frame R)) (b : Builder P) : Prop where
  seen : b.seen = taken.length
  power : ∃ k, b.stride = 2 ^ k
  room : b.frames ≤ b.cap
  even : b.cap % 2 = 0
  some_ : 2 ≤ b.cap
  enough : taken.length ≤ b.frames * b.stride
  few : b.frames * b.stride < taken.length + b.stride
  kept : ∀ i < b.frames, (taken[i * b.stride]?).map (Frame.dithered c b.w b.h) = some (b.px i)
  delays : ∀ i < b.frames, b.delay i = window b.stride (durations taken) i

theorem Thinned.pos (thinned : Thinned c taken b) : 0 < b.stride := by
  obtain ⟨k, power⟩ := thinned.power
  rw [power]
  exact Nat.two_pow_pos k

theorem addDelay_small {d ms : Nat} (small : d + ms ≤ 65535) : addDelay d ms = d + ms :=
  if_neg (Nat.not_lt.mpr small)

theorem halve_arrays (frames : Nat) (px : Nat → P) (delay : Nat → Nat) (m : Nat) :
    ∀ k, ((List.range m).foldl (halveTurn frames) (px, delay)).1 k = px (if k < m then 2 * k else k) ∧
      ((List.range m).foldl (halveTurn frames) (px, delay)).2 k =
        if k < m then (if 2 * k + 1 < frames then addDelay (delay (2 * k)) (delay (2 * k + 1))
          else delay (2 * k))
        else delay k := by
  induction m with
  | zero => exact fun k => ⟨rfl, rfl⟩
  | succ m ih =>
      intro k
      rw [List.range_succ, List.foldl_append, List.foldl_cons, List.foldl_nil]
      generalize (List.range m).foldl (halveTurn frames) (px, delay) = arrays at ih ⊢
      -- entries from m on are still as they were
      have ahead : ∀ j, m ≤ j → arrays.1 j = px j ∧ arrays.2 j = delay j := by
        intro j later
        have here := ih j
        rw [if_neg (by omega), if_neg (by omega)] at here
        exact here
      have even := ahead (2 * m) (by omega)
      have odd := ahead (2 * m + 1) (by omega)
      unfold halveTurn
      dsimp only
      rw [even.2, odd.2]
      by_cases last : k = m
      · have here : m < m + 1 := Nat.lt_succ_self m
        rw [last, if_pos here, if_pos here, Function.update_self]
        refine ⟨?_, rfl⟩
        split
        · rw [Function.update_self, even.1]
        · rename_i same
          have zero : m = 2 * m := by omega
          rw [← zero]
          exact (ahead m (Nat.le_refl m)).1
      · rw [Function.update_of_ne last]
        have other : (if m ≠ 2 * m then Function.update arrays.1 m (arrays.1 (2 * m)) else arrays.1) k =
            arrays.1 k := by
          split
          · rw [Function.update_of_ne last]
          · rfl
        rw [other]
        by_cases earlier : k < m
        · rw [if_pos (by omega), if_pos (by omega)]
          have here := ih k
          rwa [if_pos earlier, if_pos earlier] at here
        · rw [if_neg (by omega), if_neg (by omega)]
          exact ahead k (by omega)

theorem duration_le (total : (durations taken).sum < 65536) (s i : Nat) :
    window s (durations taken) i ≤ 65535 :=
  Nat.le_of_lt_succ (Nat.lt_of_le_of_lt (window_le s _ i) total)

theorem thinned_halve (thinned : Thinned c taken b) (full : b.frames = b.cap)
    (aligned : taken.length = b.frames * b.stride) (total : (durations taken).sum < 65536) :
    Thinned c taken (halve b) ∧ taken.length = (halve b).frames * (halve b).stride ∧
      (halve b).frames < (halve b).cap := by
  have even := thinned.even
  have half : (b.frames + 1) / 2 * 2 = b.frames := by omega
  have whole : (b.frames + 1) / 2 * (b.stride * 2) = b.frames * b.stride := by
    calc (b.frames + 1) / 2 * (b.stride * 2) = (b.frames + 1) / 2 * 2 * b.stride := by ring
      _ = b.frames * b.stride := by rw [half]
  have arrays := halve_arrays b.frames b.px b.delay ((b.frames + 1) / 2)
  obtain ⟨k, power⟩ := thinned.power
  refine ⟨⟨thinned.seen, ⟨k + 1, ?_⟩, ?_, even, thinned.some_, ?_, ?_, ?_, ?_⟩, ?_, ?_⟩
  · change b.stride * 2 = 2 ^ (k + 1)
    rw [power, Nat.pow_succ]
  · exact Nat.le_trans (by change (b.frames + 1) / 2 ≤ b.frames; omega) thinned.room
  · exact Nat.le_of_eq (aligned.trans whole.symm)
  · change (b.frames + 1) / 2 * (b.stride * 2) < taken.length + b.stride * 2
    have positive := thinned.pos
    omega
  · intro i below
    have below : i < (b.frames + 1) / 2 := below
    change (taken[i * (b.stride * 2)]?).map (Frame.dithered c b.w b.h) = some _
    have here := (arrays i).1
    rw [if_pos below] at here
    rw [show i * (b.stride * 2) = 2 * i * b.stride by ring, thinned.kept (2 * i) (by omega)]
    exact congrArg some here.symm
  · intro i below
    have below : i < (b.frames + 1) / 2 := below
    have here := (arrays i).2
    have double := window_double b.stride (durations taken) i
    have small := duration_le total (2 * b.stride) i
    rw [if_pos below, if_pos (by omega), thinned.delays _ (by omega), thinned.delays _ (by omega),
      addDelay_small (double ▸ small), ← double, Nat.mul_comm 2 b.stride] at here
    exact here
  · exact aligned.trans whole.symm
  · change (b.frames + 1) / 2 < b.cap
    have := thinned.some_
    omega

theorem durations_append (taken : List (Frame R)) (f : Frame R) :
    durations (taken ++ [f]) = durations taken ++ [f.duration] := List.map_append

theorem durations_length (taken : List (Frame R)) : (durations taken).length = taken.length :=
  List.length_map _

theorem thinned_keep (thinned : Thinned c taken b) (aligned : taken.length = b.frames * b.stride)
    (below : b.frames < b.cap) (small : f.duration ≤ 65535) :
    Thinned c (taken ++ [f]) (keep c { b with seen := b.seen + 1 } f) := by
  have positive := thinned.pos
  have length : (taken ++ [f]).length = b.frames * b.stride + 1 := by
    rw [List.length_append, List.length_singleton, aligned]
  have next : (b.frames + 1) * b.stride = b.frames * b.stride + b.stride := Nat.succ_mul _ _
  refine ⟨?_, thinned.power, below, thinned.even, thinned.some_, ?_, ?_, ?_, ?_⟩
  · rw [length, ← aligned]
    exact congrArg Nat.succ thinned.seen
  · rw [length]
    change _ ≤ (b.frames + 1) * b.stride
    omega
  · rw [length]
    change (b.frames + 1) * b.stride < _ + b.stride
    omega
  · intro i inside
    have inside : i < b.frames + 1 := inside
    change ((taken ++ [f])[i * b.stride]?).map (Frame.dithered c b.w b.h) =
      some (Function.update b.px b.frames _ i)
    by_cases last : i = b.frames
    · rw [last, Function.update_self, ← aligned, List.getElem?_concat_length]
      rfl
    · have earlier : i < b.frames := by omega
      have before_ : i * b.stride < taken.length := by
        rw [aligned]
        exact Nat.mul_lt_mul_of_pos_right earlier positive
      rw [Function.update_of_ne last, List.getElem?_append_left before_]
      exact thinned.kept i earlier
  · intro i inside
    have inside : i < b.frames + 1 := inside
    change Function.update b.delay b.frames _ i = _
    rw [durations_append]
    by_cases last : i = b.frames
    · have empty : window b.stride (durations taken) b.frames = 0 := by
        rw [window, ← aligned, ← durations_length taken, List.drop_length]
        simp
      rw [last, Function.update_self, if_neg (by omega)]
      change f.duration = window b.stride (durations taken ++ [f.duration]) b.frames
      rw [window_last _ (by rw [durations_length, aligned]) (by rw [durations_length, aligned]; omega), empty,
        Nat.zero_add]
    · have earlier : i + 1 ≤ b.frames := by omega
      rw [Function.update_of_ne last, window_full]
      · exact thinned.delays i earlier
      · rw [durations_length, aligned]
        exact Nat.mul_le_mul_right _ earlier

theorem thinned_skip (thinned : Thinned c taken b) (between : taken.length % b.stride ≠ 0)
    (total : (durations (taken ++ [f])).sum < 65536) :
    Thinned c (taken ++ [f]) { b with
      seen := b.seen + 1
      delay := Function.update b.delay (b.frames - 1) (addDelay (b.delay (b.frames - 1)) f.duration) } := by
  have positive := thinned.pos
  have enough := thinned.enough
  have few := thinned.few
  have length : (taken ++ [f]).length = taken.length + 1 := by rw [List.length_append, List.length_singleton]
  have apart : taken.length ≠ b.frames * b.stride := by
    intro same
    rw [same, Nat.mul_mod_left] at between
    exact between rfl
  obtain ⟨last, frames⟩ : ∃ last, b.frames = last + 1 := by
    refine Nat.exists_eq_succ_of_ne_zero ?_
    intro none_
    rw [none_, Nat.zero_mul] at enough apart
    exact apart (Nat.le_zero.mp enough)
  rw [frames, Nat.succ_mul] at enough few apart
  refine ⟨?_, thinned.power, thinned.room, thinned.even, thinned.some_, ?_, ?_, ?_, ?_⟩
  · rw [length]
    exact congrArg Nat.succ thinned.seen
  · rw [length]
    change _ ≤ b.frames * b.stride
    rw [frames, Nat.succ_mul]
    omega
  · rw [length]
    change b.frames * b.stride < _ + b.stride
    rw [frames, Nat.succ_mul]
    omega
  · intro i inside
    have inside : i < b.frames := inside
    have upto : i * b.stride ≤ last * b.stride := Nat.mul_le_mul_right _ (by omega)
    change ((taken ++ [f])[i * b.stride]?).map _ = _
    rw [List.getElem?_append_left (by omega)]
    exact thinned.kept i inside
  · intro i inside
    have inside : i < b.frames := inside
    have summed : window b.stride (durations (taken ++ [f])) i ≤ 65535 := duration_le total _ i
    change Function.update b.delay (b.frames - 1) _ i = window b.stride _ i
    rw [durations_append] at summed ⊢
    rw [frames, Nat.add_sub_cancel]
    by_cases here : i = last
    · rw [here] at summed ⊢
      rw [window_last _ (by rw [durations_length]; omega)
        (by rw [durations_length, Nat.succ_mul]; omega)] at summed ⊢
      rw [Function.update_self, thinned.delays last (by omega), addDelay_small summed]
    · have earlier : (i + 1) * b.stride ≤ last * b.stride := Nat.mul_le_mul_right _ (by omega)
      rw [Function.update_of_ne here, window_full _ (by rw [durations_length]; omega)]
      exact thinned.delays i inside

theorem duration_last (total : (durations (taken ++ [f])).sum < 65536) :
    f.duration ≤ 65535 ∧ (durations taken).sum < 65536 := by
  rw [durations_append, List.sum_append, List.sum_singleton] at total
  omega

theorem thinned_place (thinned : Thinned c taken b) (total : (durations (taken ++ [f])).sum < 65536) :
    Thinned c (taken ++ [f]) (place c b f) := by
  obtain ⟨small, rest⟩ := duration_last total
  unfold place
  dsimp only
  rw [thinned.seen]
  by_cases between : taken.length % b.stride = 0
  · rw [if_neg (not_not_intro between)]
    have aligned : taken.length = b.frames * b.stride := by
      -- the first frame after a whole number of strides starts the next window
      obtain ⟨q, whole⟩ := Nat.dvd_of_mod_eq_zero between
      have enough := thinned.enough
      have few := thinned.few
      rw [whole, Nat.mul_comm b.stride q] at enough few ⊢
      have least := Nat.le_of_mul_le_mul_right enough thinned.pos
      have most : b.frames < q + 1 := by
        rw [← Nat.succ_mul] at few
        exact Nat.lt_of_mul_lt_mul_right few
      rw [show b.frames = q by omega]
    by_cases full : b.frames = b.cap
    · rw [if_pos full]
      obtain ⟨halved, again, room⟩ := thinned_halve thinned full aligned rest
      have kept := thinned_keep halved again room small
      rw [halved.seen] at kept
      exact kept
    · rw [if_neg full]
      have room := thinned.room
      have kept := thinned_keep thinned aligned (by omega) small
      rw [thinned.seen] at kept
      exact kept
  · rw [if_pos between]
    have kept := thinned_skip thinned between total
    rw [thinned.seen] at kept
    exact kept

/-- What the calls so far have made of the builder: nothing yet, or nothing for
good, or an animation of the frames that were taken. -/
inductive Standing (c : Settings R P) (taken : List (Frame R)) (b : Builder P) : Prop where
  | fresh (none_ : taken = []) (frames : b.frames = 0) (stride : b.stride = 1) (seen : b.seen = 0)
      (unallocated : b.allocated = false) (fine : b.why = none)
  | failed (none_ : taken = []) (frames : b.frames = 0) (stride : b.stride = 1) (why : b.why.isSome = true)
  | going (thinned : Thinned c taken b) (allocated : b.allocated = true) (fine : b.why = none)

theorem place_fixed (c : Settings R P) (b : Builder P) (f : Frame R) :
    (place c b f).allocated = b.allocated ∧ (place c b f).why = b.why := by
  unfold place
  dsimp only
  split
  · exact ⟨rfl, rfl⟩
  · split
    · exact ⟨rfl, rfl⟩
    · exact ⟨rfl, rfl⟩

theorem capacity_even (budget : Nat) (w h : Int) : capacity budget w h % 2 = 0 := Nat.mul_mod_left _ 2

theorem add_refused (why : b.why.isSome = true) (c : Settings R P) (memory : Bool) (f : Frame R) :
    add c memory b f = (b, false) := if_pos why

theorem add_more (fine : b.why = none) (allocated : b.allocated = true) (c : Settings R P) (memory : Bool)
    (f : Frame R) : add c memory b f = (place c b f, true) := by
  have going : ¬b.why.isSome = true := by simp [fine]
  have same : allocate c memory b f = b := if_pos allocated
  unfold add
  rw [if_neg going, same]
  exact if_neg going

/-- There is room for two frames of the first one's size. -/
def hasRoom (c : Settings R P) (memory : Bool) (frames : List (Frame R)) : Bool :=
  frames.head?.all fun f => memory &&
    decide (2 ≤ capacity c.budget (fitSize f.w f.h c.maxW c.maxH).1 (fitSize f.w f.h c.maxW c.maxH).2)

theorem add_first (fine : b.why = none) (unallocated : b.allocated = false) (c : Settings R P) (memory : Bool)
    (f : Frame R) :
    (hasRoom c memory [f] = false ∧
      ∃ b', add c memory b f = (b', false) ∧ b'.why.isSome = true ∧ b'.frames = b.frames ∧
        b'.stride = b.stride) ∨
    (hasRoom c memory [f] = true ∧ ∃ w h cap, 2 ≤ cap ∧ cap % 2 = 0 ∧
      add c memory b f = (place c { b with w := w, h := h, cap := cap, allocated := true } f, true)) := by
  have going : ¬b.why.isSome = true := by simp [fine]
  have empty : ¬b.allocated = true := by simp [unallocated]
  have room : hasRoom c memory [f] = (memory &&
      decide (2 ≤ capacity c.budget (fitSize f.w f.h c.maxW c.maxH).1
        (fitSize f.w f.h c.maxW c.maxH).2)) := rfl
  rw [room]
  unfold add allocate
  rw [if_neg going, if_neg empty]
  dsimp only
  generalize fitSize f.w f.h c.maxW c.maxH = size
  obtain ⟨w, h⟩ := size
  dsimp only
  have even := capacity_even c.budget w h
  generalize capacity c.budget w h = cap at even ⊢
  by_cases few : cap < 2
  · rw [if_pos few]
    exact .inl ⟨by simp [few], _, if_pos rfl, rfl, rfl, rfl⟩
  · rw [if_neg few]
    have some_ := Nat.le_of_not_lt few
    cases memory with
    | false => exact .inl ⟨rfl, _, if_pos rfl, rfl, rfl, rfl⟩
    | true => exact .inr ⟨by simp [some_], w, h, cap, some_, even, if_neg going⟩

theorem standing_add (standing : Standing c taken b) (memory : Bool)
    (total : (durations (taken ++ [f])).sum < 65536) :
    Standing c (if (add c memory b f).2 then taken ++ [f] else taken) (add c memory b f).1 := by
  cases standing with
  | failed none_ frames stride why =>
      rw [add_refused why]
      exact .failed none_ frames stride why
  | going thinned allocated fine =>
      rw [add_more fine allocated]
      obtain ⟨same, why⟩ := place_fixed c b f
      exact .going (thinned_place thinned total) (same.trans allocated) (why.trans fine)
  | fresh none_ frames stride seen unallocated fine =>
      rcases add_first fine unallocated c memory f with
        ⟨_, b', refused, why, frames', stride'⟩ | ⟨_, w, h, cap, some_, even, first⟩
      · rw [refused]
        exact .failed none_ (frames'.trans frames) (stride'.trans stride) why
      · rw [first]
        have empty : Thinned c taken { b with w := w, h := h, cap := cap, allocated := true } := by
          subst none_
          refine ⟨seen, ⟨0, stride⟩, ?_, even, some_, Nat.zero_le _, ?_, ?_, ?_⟩
          · change b.frames ≤ cap
            omega
          · change b.frames * b.stride < 0 + b.stride
            rw [frames, stride]
            decide
          · intro i inside
            exact absurd inside (by change ¬i < b.frames; omega)
          · intro i inside
            exact absurd inside (by change ¬i < b.frames; omega)
        obtain ⟨same, why⟩ := place_fixed c { b with w := w, h := h, cap := cap, allocated := true } f
        exact .going (thinned_place empty total) same (why.trans fine)

theorem durations_sum_le {part whole : List (Frame R)} (sub : part.Sublist whole) :
    (durations part).sum ≤ (durations whole).sum :=
  (sub.map Frame.duration).sum_le_sum fun _ _ => Nat.zero_le _

theorem standing_addAll (memory : Bool) (frames : List (Frame R)) (standing : Standing c taken b)
    (total : (durations (taken ++ frames)).sum < 65536) :
    Standing c (taken ++ (addAll c memory b frames).2) (addAll c memory b frames).1 := by
  induction frames generalizing b taken with
  | nil =>
      rw [addAll, List.append_nil]
      exact standing
  | cons f rest ih =>
      have first : [f].Sublist (f :: rest) := List.cons_sublist_cons.mpr (List.nil_sublist rest)
      have here : (durations (taken ++ [f])).sum < 65536 :=
        Nat.lt_of_le_of_lt (durations_sum_le (first.append_left taken)) total
      have next := standing_add standing memory here
      rw [addAll]
      generalize add c memory b f = result at next ⊢
      obtain ⟨b', took⟩ := result
      dsimp only at next ⊢
      cases took with
      | true =>
          rw [if_pos rfl] at next ⊢
          have later := ih next (by rwa [List.append_assoc, List.singleton_append])
          rwa [List.append_assoc, List.singleton_append] at later
      | false =>
          rw [if_neg Bool.false_ne_true] at next ⊢
          refine ih next (Nat.lt_of_le_of_lt (durations_sum_le ?_) total)
          exact (List.sublist_cons_self f rest).append_left taken

theorem addAll_more (memory : Bool) (frames : List (Frame R)) (allocated : b.allocated = true)
    (fine : b.why = none) :
    (addAll c memory b frames).2 = frames := by
  induction frames generalizing b with
  | nil => rfl
  | cons f rest ih =>
      obtain ⟨same, why⟩ := place_fixed c b f
      rw [addAll, add_more fine allocated]
      dsimp only
      rw [if_pos rfl, ih (same.trans allocated) (why.trans fine)]

theorem addAll_refused (memory : Bool) (frames : List (Frame R)) (why : b.why.isSome = true) :
    (addAll c memory b frames).2 = [] := by
  induction frames with
  | nil => rfl
  | cons f rest ih =>
      rw [addAll, add_refused why]
      dsimp only
      rw [if_neg Bool.false_ne_true, ih]

theorem addAll_taken (memory : Bool) (frames : List (Frame R)) (unallocated : b.allocated = false)
    (fine : b.why = none) : (addAll c memory b frames).2 = if hasRoom c memory frames then frames
    else [] := by
  cases frames with
  | nil => rfl
  | cons f rest =>
      have same : hasRoom c memory (f :: rest) = hasRoom c memory [f] := rfl
      rw [addAll, same]
      rcases add_first fine unallocated c memory f with
        ⟨room, b', refused, why, _⟩ | ⟨room, w, h, cap, _, _, first⟩
      · rw [refused, room]
        dsimp only
        rw [if_neg Bool.false_ne_true, if_neg Bool.false_ne_true, addAll_refused memory rest why]
      · obtain ⟨kept, why⟩ := place_fixed c { b with w := w, h := h, cap := cap, allocated := true } f
        rw [first, room]
        dsimp only
        rw [if_pos rfl, if_pos rfl, addAll_more memory rest kept (why.trans fine)]

/-! ## What is shown -/

theorem before_mono (s : Nat) (ds : List Nat) {i j : Nat} (le : i ≤ j) : before s ds i ≤ before s ds j := by
  induction le with
  | refl => exact Nat.le_refl _
  | step _ ih => exact Nat.le_trans ih (by rw [before_succ]; exact Nat.le_add_right _ _)

theorem before_all {s n : Nat} {ds : List Nat} (enough : ds.length ≤ n * s) : before s ds n = ds.sum := by
  rw [before, List.take_of_length_le enough]

theorem sum_delays (thinned : Thinned c taken b) {n : Nat} (inside : n ≤ b.frames) :
    ((List.range n).map b.delay).sum = before b.stride (durations taken) n := by
  induction n with
  | zero => simp [before]
  | succ n ih =>
      rw [List.range_succ, List.map_append, List.sum_append, ih (by omega), List.map_singleton,
        List.sum_singleton,
        thinned.delays n inside, before_succ]

theorem search_finds (delay : Nat → Nat) {s : Nat} {ds : List Nat} (left_ : Nat) {i t time : Nat}
    (delays : ∀ k < i + left_, delay k = window s ds k) (gone : before s ds i + t = time)
    (inside : time < before s ds (i + left_)) :
    ∃ j, search delay left_ i t = some j ∧ j < i + left_ ∧ before s ds j ≤ time ∧
      time < before s ds (j + 1) := by
  induction left_ generalizing i t with
  | zero =>
      rw [Nat.add_zero] at inside
      omega
  | succ left_ ih =>
      have here := delays i (by omega)
      have next := before_succ s ds i
      unfold search
      by_cases shown : t < delay i
      · rw [if_pos shown]
        exact ⟨i, rfl, by omega, by omega, by omega⟩
      · rw [if_neg shown]
        have passed : i + 1 + left_ = i + (left_ + 1) := by omega
        obtain ⟨j, found, below, starts, ends⟩ :=
          ih (i := i + 1) (t := t - delay i) (by rwa [passed]) (by omega)
          (by rwa [passed])
        exact ⟨j, found, by omega, starts, ends⟩

theorem duration_pos (f : Frame R) : 1 ≤ f.duration := by
  unfold Frame.duration
  split <;> omega

theorem durations_pos (some_ : taken ≠ []) : 0 < (durations taken).sum := by
  cases taken with
  | nil => exact absurd rfl some_
  | cons f rest =>
      have := duration_pos f
      rw [durations, List.map_cons, List.sum_cons]
      omega

theorem frames_pos (thinned : Thinned c taken b) (some_ : taken ≠ []) : 0 < b.frames := by
  have enough := thinned.enough
  have length := List.length_pos_iff.mpr some_
  by_contra none_
  rw [Nat.eq_zero_of_not_pos none_, Nat.zero_mul] at enough
  omega

theorem thinned_count (thinned : Thinned c taken b) :
    b.frames = (taken.length + b.stride - 1) / b.stride := by
  have positive := thinned.pos
  have enough := thinned.enough
  have few := thinned.few
  refine (Nat.div_eq_of_lt_le ?_ ?_).symm
  · omega
  · rw [Nat.succ_mul]
    omega

theorem frameAt_last (thinned : Thinned c taken b) (some_ : taken ≠ [])
    (length : b.length = (durations taken).sum)
    (ms : Nat) : frameAt b ms < b.frames ∧
      before b.stride (durations taken) (frameAt b ms) ≤ ms % (durations taken).sum ∧
      ∀ j < b.frames, before b.stride (durations taken) j ≤ ms % (durations taken).sum →
        j ≤ frameAt b ms := by
  have positive := durations_pos some_
  have inside := Nat.mod_lt ms positive
  have frames := frames_pos thinned some_
  unfold frameAt
  by_cases one : b.frames < 2 ∨ b.length = 0
  · have single : b.frames = 1 := by omega
    rw [if_pos one, single]
    refine ⟨by decide, ?_, fun j below _ => by omega⟩
    rw [before, Nat.zero_mul]
    exact Nat.zero_le _
  · rw [if_neg one, length]
    have whole : before b.stride (durations taken) (0 + b.frames) = (durations taken).sum := by
      rw [Nat.zero_add]
      exact before_all (by rw [durations_length]; exact thinned.enough)
    have begin_ : before b.stride (durations taken) 0 + ms % (durations taken).sum =
        ms % (durations taken).sum := by
      rw [before, Nat.zero_mul, List.take_zero, List.sum_nil, Nat.zero_add]
    obtain ⟨j, found, below, starts, ends⟩ := search_finds b.delay b.frames
      (by rw [Nat.zero_add]; exact thinned.delays) begin_ (by rwa [whole])
    rw [found, Option.getD_some]
    refine ⟨by omega, starts, fun k _ early => ?_⟩
    by_contra later
    have := before_mono b.stride (durations taken) (show j + 1 ≤ k by omega)
    omega

end Keeping

/-- A builder that nothing has been given to yet. -/
def builder {P : Type} (px : Nat → P) (delay : Nat → Nat) : Builder P := { px := px, delay := delay }

/-- For every sequence of frames whose durations stay below 65536 ms together:
all of them are taken, unless there is no room for two. Whatever was taken, the
frames that are kept are those whose number is a multiple of the stride, each
shown for as long as the stride of frames from it on, and `frameAt` shows the
last of them that starts at or before its time of the loop. -/
theorem animation_thinned {R P : Type} (c : Settings R P) (memory : Bool) (px : Nat → P) (delay : Nat → Nat)
    (frames : List (Frame R)) (total : (durations frames).sum < 65536) :
    ∃ b taken, addAll c memory (builder px delay) frames = (b, taken) ∧
      taken = (if hasRoom c memory frames then frames else []) ∧
      b.frames ≤ b.cap ∧ (∃ k, b.stride = 2 ^ k) ∧ b.frames = (taken.length + b.stride - 1) / b.stride ∧
      (∀ i < b.frames, (taken[i * b.stride]?).map (Frame.dithered c b.w b.h) = some (b.px i) ∧
        b.delay i = window b.stride (durations taken) i) ∧
      (taken ≠ [] → (finish b).1.length = (durations taken).sum ∧ (finish b).2 = none ∧
        ∀ ms, frameAt (finish b).1 ms < b.frames ∧
          before b.stride (durations taken) (frameAt (finish b).1 ms) ≤ ms % (durations taken).sum ∧
          ∀ j < b.frames, before b.stride (durations taken) j ≤ ms % (durations taken).sum →
            j ≤ frameAt (finish b).1 ms) := by
  have start : Standing c [] (builder px delay) := .fresh rfl rfl rfl rfl rfl rfl
  have standing := standing_addAll memory frames start total
  have taken_ : (addAll c memory (builder px delay) frames).2 = if hasRoom c memory frames
      then frames else [] :=
    addAll_taken memory frames rfl rfl
  generalize addAll c memory (builder px delay) frames = result at standing taken_ ⊢
  obtain ⟨b, taken⟩ := result
  rw [List.nil_append] at standing
  refine ⟨b, taken, rfl, taken_, ?_⟩
  -- a builder that has taken nothing has stride 1 and no frames
  have idle (frames_ : b.frames = 0) (stride : b.stride = 1) (none_ : taken = []) : b.frames ≤ b.cap ∧
      (∃ k, b.stride = 2 ^ k) ∧ b.frames = (taken.length + b.stride - 1) / b.stride := by
    rw [frames_, stride, none_, List.length_nil]
    exact ⟨Nat.zero_le _, ⟨0, rfl⟩, rfl⟩
  cases standing with
  | fresh none_ frames_ stride _ _ _ =>
      obtain ⟨room, power, count⟩ := idle frames_ stride none_
      exact ⟨room, power, count, fun i inside => absurd inside (frames_ ▸ Nat.not_lt_zero i),
        fun some_ => absurd none_ some_⟩
  | failed none_ frames_ stride _ =>
      obtain ⟨room, power, count⟩ := idle frames_ stride none_
      exact ⟨room, power, count, fun i inside => absurd inside (frames_ ▸ Nat.not_lt_zero i),
        fun some_ => absurd none_ some_⟩
  | going thinned _ _ =>
      refine ⟨thinned.room, thinned.power, thinned_count thinned,
        fun i inside => ⟨thinned.kept i inside, thinned.delays i inside⟩, fun some_ => ?_⟩
      have positive := frames_pos thinned some_
      have made : finish b = ({ b with length := ((List.range b.frames).map b.delay).sum }, none) :=
        if_neg (Nat.ne_of_gt positive)
      have length : ((List.range b.frames).map b.delay).sum = (durations taken).sum :=
        (sum_delays thinned (Nat.le_refl _)).trans
          (before_all (by rw [durations_length]; exact thinned.enough))
      rw [made, length]
      refine ⟨rfl, rfl, ?_⟩
      have shown : Thinned c taken { b with length := (durations taken).sum } := ⟨thinned.seen, thinned.power,
        thinned.room, thinned.even, thinned.some_, thinned.enough, thinned.few, thinned.kept, thinned.delays⟩
      exact frameAt_last shown some_ rfl

/-! Three frames of a pixel where there is room for two. -/

def pixels : Settings Nat Nat := { maxW := 1, maxH := 1, budget := 3, dither := fun rgba _ _ _ _ => rgba }

def three : List (Frame Nat) := [⟨7, 1, 1, 40⟩, ⟨8, 1, 1, 50⟩, ⟨9, 1, 1, 60⟩]

theorem three_thinned : ∃ b, addAll pixels true (builder (fun _ => 0) fun _ => 0) three = (b, three) ∧
    b.frames = (three.length + b.stride - 1) / b.stride := by
  obtain ⟨b, taken, result, all, _, _, count, _⟩ :=
    animation_thinned pixels true (fun _ => 0) (fun _ => 0) three (by decide)
  have room : hasRoom pixels true three = true := by decide
  rw [room, if_pos rfl] at all
  rw [all] at result count
  exact ⟨b, result, count⟩

end R2Apps.AnimationThinning
