import Mathlib.Data.List.Basic
import Mathlib.Tactic.Ring

/-! Go slices with their bounds checks: an index or a cut out of range stops the program. A cut
may reach up to the capacity in Go; here it stops at the length, which is stricter. -/
namespace R2Apps.GoSlices

inductive Panic where
  | outOfRange
deriving DecidableEq, Repr

abbrev Checked := Except Panic

variable {α : Type}

def index (b : List α) (i : Nat) : Checked α :=
  match b[i]? with
  | some x => .ok x
  | none => .error .outOfRange

def slice (b : List α) (lo hi : Nat) : Checked (List α) :=
  if lo ≤ hi ∧ hi ≤ b.length then .ok ((b.take hi).drop lo) else .error .outOfRange

def store (b : List α) (i : Nat) (x : α) : Checked (List α) :=
  if i < b.length then .ok (b.set i x) else .error .outOfRange

/-- What `copy(b[n:], s)` leaves in `b`, and how much of `s` there was room for. -/
def copyAt (b : List α) (n : Nat) (s : List α) : List α × Nat :=
  let room := s.take (b.length - n)
  (b.take n ++ room ++ b.drop (n + room.length), room.length)

/-- What is read at `i`, anything when there is nothing. -/
def at_ [Inhabited α] (b : List α) (i : Nat) : α := b.getD i default

theorem index_ok [Inhabited α] {b : List α} {i : Nat} (inside : i < b.length) :
    index b i = .ok (at_ b i) := by
  unfold index at_
  rw [List.getD_eq_getElem?_getD, List.getElem?_eq_getElem inside]
  rfl

theorem slice_ok {b : List α} {lo hi : Nat} (ordered : lo ≤ hi) (inside : hi ≤ b.length) :
    slice b lo hi = .ok ((b.take hi).drop lo) :=
  if_pos ⟨ordered, inside⟩

theorem store_ok {b : List α} {i : Nat} (x : α) (inside : i < b.length) : store b i x = .ok (b.set i x) :=
  if_pos inside

theorem set_next {done rest : List α} {y : α} (x : α) :
    (done ++ y :: rest).set done.length x = done ++ x :: rest := by
  rw [List.set_append_right _ _ le_rfl, Nat.sub_self, List.set_cons_zero]

theorem copyAt_next {done s rest old : List α} (same : old.length = s.length) :
    copyAt (done ++ (old ++ rest)) done.length s = (done ++ s ++ rest, s.length) := by
  have room : s.take ((done ++ (old ++ rest)).length - done.length) = s := by
    apply List.take_of_length_le
    simp only [List.length_append]
    omega
  have end_ : (done ++ (old ++ rest)).drop (done.length + s.length) = rest := by
    rw [← same, ← List.append_assoc, ← List.length_append, List.drop_left]
  unfold copyAt
  dsimp only
  rw [room, List.take_left, end_]

theorem at_take [Inhabited α] {b : List α} {i n : Nat} (inside : i < n) : at_ (b.take n) i = at_ b i := by
  unfold at_
  rw [List.getD_eq_getElem?_getD, List.getD_eq_getElem?_getD, List.getElem?_take_of_lt inside]

/-! ## Numbers of two bytes, the high one first -/

/-- As the code puts them together. -/
def join (hi lo : UInt8) : Nat := hi.toNat <<< 8 ||| lo.toNat

theorem join_eq (hi lo : UInt8) : join hi lo = 256 * hi.toNat + lo.toNat := by
  have small : lo.toNat < 2 ^ 8 := lo.toNat_lt
  unfold join
  rw [← Nat.shiftLeft_add_eq_or_of_lt small, Nat.shiftLeft_eq]
  ring

end R2Apps.GoSlices
