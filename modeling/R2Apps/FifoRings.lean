import Mathlib.Data.List.Basic
import Mathlib.Data.Nat.ModEq

/-! A first-in first-out ring of `size` cells: a head, a count, and the cells
from the head on, wrapping round. Writers fill the cells after the last one in
use, readers move the head. -/
namespace R2Apps.FifoRings

structure Fifo (α : Type) (size : Nat) where
  cells : Nat → α
  head : Nat
  count : Nat
  head_lt : head < size
  count_le : count ≤ size

variable {α : Type} {size : Nat}

/-- What waits in the ring, the oldest first. -/
def Fifo.contents (r : Fifo α size) : List α :=
  (List.range r.count).map fun i => r.cells ((r.head + i) % size)

def Fifo.front (r : Fifo α size) : α := r.cells r.head

def Fifo.put (r : Fifo α size) (x : α) (room : r.count < size) : Fifo α size where
  cells := fun i => if i = (r.head + r.count) % size then x else r.cells i
  head := r.head
  count := r.count + 1
  head_lt := r.head_lt
  count_le := room

/-- The oldest `n` are read: only the head and the count move. -/
def Fifo.discard (r : Fifo α size) (n : Nat) : Fifo α size where
  cells := r.cells
  head := (r.head + n) % size
  count := r.count - n
  head_lt := Nat.mod_lt _ (by have := r.head_lt; omega)
  count_le := by have := r.count_le; omega

def Fifo.clear (r : Fifo α size) : Fifo α size where
  cells := r.cells
  head := 0
  count := 0
  head_lt := by have := r.head_lt; omega
  count_le := Nat.zero_le _

section Contents
variable (r : Fifo α size)

@[simp] theorem Fifo.contents_length : r.contents.length = r.count := by
  simp [Fifo.contents]

@[simp] theorem Fifo.clear_contents : r.clear.contents = [] := rfl

@[simp] theorem Fifo.discard_count (n : Nat) : (r.discard n).count = r.count - n := rfl

@[simp] theorem Fifo.put_count (x : α) (room : r.count < size) : (r.put x room).count = r.count + 1 :=
  rfl

theorem Fifo.contents_getElem (i : Nat) (inside : i < r.contents.length) :
    r.contents[i] = r.cells ((r.head + i) % size) := by
  simp [Fifo.contents]

theorem Fifo.contents_nil (empty : r.count = 0) : r.contents = [] := by
  simp [Fifo.contents, empty]

theorem place_injective {head i j : Nat} (first : i < size) (second : j < size)
    (same : (head + i) % size = (head + j) % size) : i = j := by
  have residues : i % size = j % size := Nat.ModEq.add_left_cancel' head same
  rwa [Nat.mod_eq_of_lt first, Nat.mod_eq_of_lt second] at residues

theorem Fifo.contents_append {r r' : Fifo α size} (added : List α) (head : r'.head = r.head)
    (count : r'.count = r.count + added.length)
    (kept : ∀ i < r.count, r'.cells ((r.head + i) % size) = r.cells ((r.head + i) % size))
    (stored : ∀ k (inside : k < added.length),
      r'.cells ((r.head + (r.count + k)) % size) = added[k]) :
    r'.contents = r.contents ++ added := by
  apply List.ext_getElem
  · simp [count]
  intro i left right
  rw [r'.contents_getElem, head]
  by_cases old : i < r.contents.length
  · rw [List.getElem_append_left old, r.contents_getElem]
    exact kept i (by simpa using old)
  · rw [List.getElem_append_right (by omega)]
    simp only [Fifo.contents_length] at old
    have behind := stored (i - r.count) (by simp only [Fifo.contents_length, count] at left; omega)
    rw [Nat.add_sub_cancel' (by omega : r.count ≤ i)] at behind
    simpa using behind

theorem Fifo.put_contents (x : α) (room : r.count < size) :
    (r.put x room).contents = r.contents ++ [x] := by
  apply Fifo.contents_append
  · rfl
  · rfl
  · intro i inside
    have apart : (r.head + i) % size ≠ (r.head + r.count) % size := fun same =>
      absurd (place_injective (by omega) room same) (by omega)
    exact if_neg apart
  · intro k inside
    obtain rfl : k = 0 := by simpa using inside
    exact if_pos rfl

theorem Fifo.discard_contents (n : Nat) :
    (r.discard n).contents = r.contents.drop n := by
  apply List.ext_getElem
  · simp
  intro i left right
  rw [Fifo.contents_getElem, List.getElem_drop, Fifo.contents_getElem]
  simp only [Fifo.discard, Nat.mod_add_mod, Nat.add_assoc]

theorem Fifo.contents_front (waiting : 0 < r.count) :
    r.contents = r.front :: (r.discard 1).contents := by
  have length : 0 < r.contents.length := by simpa using waiting
  have first : r.contents[0] = r.front := by
    rw [r.contents_getElem, Nat.add_zero, Nat.mod_eq_of_lt r.head_lt]
    rfl
  rw [r.discard_contents, ← first]
  exact List.drop_eq_getElem_cons length

/-- `memcpy` into the cells. -/
def memcpy (cells : Nat → α) (start : Nat) (data : List α) : Nat → α := fun i =>
  if start ≤ i ∧ i < start + data.length then (data[i - start]?).getD (cells i) else cells i

/-- Several entries at once, in two copies when they wrap round. -/
def Fifo.fill (data : List α) (room : r.count + data.length ≤ size) : Fifo α size where
  cells :=
    let start := (r.head + r.count) % size
    let first := min data.length (size - start)
    memcpy (memcpy r.cells start (data.take first)) 0 (data.drop first)
  head := r.head
  count := r.count + data.length
  head_lt := r.head_lt
  count_le := room

/-- The oldest `n`, in two copies when they wrap round. -/
def Fifo.copyOut (n : Nat) : List α :=
  let first := min n (size - r.head)
  (List.range first).map (fun i => r.cells (r.head + i)) ++ (List.range (n - first)).map r.cells

theorem memcpy_inside {cells : Nat → α} {start i : Nat} {data : List α} (inside : i < data.length) :
    memcpy cells start data (start + i) = data[i] := by
  have within : start ≤ start + i ∧ start + i < start + data.length := by omega
  rw [memcpy, if_pos within, Nat.add_sub_cancel_left, List.getElem?_eq_getElem inside, Option.getD_some]

theorem memcpy_outside {cells : Nat → α} {start i : Nat} {data : List α}
    (outside : i < start ∨ start + data.length ≤ i) : memcpy cells start data i = cells i := by
  have away : ¬(start ≤ i ∧ i < start + data.length) := by omega
  rw [memcpy, if_neg away]

theorem place_cases {head i : Nat} (begins : head < size) (inside : i ≤ size) :
    (head + i) % size = if head + i < size then head + i else head + i - size := by
  split
  · rename_i below
    exact Nat.mod_eq_of_lt below
  · rename_i above
    by_cases full : head + i = 2 * size
    · omega
    · rw [Nat.mod_eq_sub_mod (by omega), Nat.mod_eq_of_lt (by omega)]

theorem Fifo.fill_contents (data : List α) (room : r.count + data.length ≤ size) :
    (r.fill data room).contents = r.contents ++ data := by
  have begins := r.head_lt
  have bound := r.count_le
  have start := place_cases (i := r.count) begins bound
  obtain ⟨first, least⟩ : ∃ f, min data.length (size - (r.head + r.count) % size) = f := ⟨_, rfl⟩
  have fits : first ≤ data.length := by omega
  have cells : (r.fill data room).cells = memcpy
    (memcpy r.cells ((r.head + r.count) % size) (data.take first)) 0
      (data.drop first) := by
    rw [← least]
    rfl
  have front : (data.take first).length = first := by
    rw [List.length_take]
    omega
  apply Fifo.contents_append
  · rfl
  · rfl
  · intro i inside
    have place := place_cases (i := i) begins (by omega)
    rw [cells, memcpy_outside, memcpy_outside]
    · rw [front, place, start]
      split <;> split <;> omega
    · right
      rw [List.length_drop, place]
      split at start <;> split <;> omega
  · intro k inside
    have place := place_cases (i := r.count + k) begins (by omega)
    rw [cells]
    by_cases early : k < first
    · have here : (r.head + (r.count + k)) % size = (r.head + r.count) % size + k := by
        rw [place, start]
        split at start <;> split <;> omega
      rw [here, memcpy_outside, memcpy_inside (by rw [front]; exact early), List.getElem_take]
      right
      rw [List.length_drop]
      split at start <;> omega
    · have here : (r.head + (r.count + k)) % size = 0 + (k - first) := by
        rw [place]
        split at start <;> split <;> omega
      rw [here, memcpy_inside (by rw [List.length_drop]; omega), List.getElem_drop]
      congr 1
      omega

theorem Fifo.copyOut_contents (n : Nat) (enough : n ≤ r.count) : r.copyOut n = r.contents.take n := by
  have begins := r.head_lt
  have bound := r.count_le
  apply List.ext_getElem
  · simp only [Fifo.copyOut, List.length_append, List.length_map, List.length_range, List.length_take,
      Fifo.contents_length]
    omega
  intro i left right
  rw [List.getElem_take, r.contents_getElem]
  simp only [Fifo.copyOut, List.length_append, List.length_map, List.length_range] at left ⊢
  have place := place_cases (i := i) begins (by omega)
  by_cases early : i < min n (size - r.head)
  · rw [List.getElem_append_left (by simpa using early), List.getElem_map, List.getElem_range, place,
      if_pos (by omega)]
  · rw [List.getElem_append_right (by simp only [List.length_map, List.length_range]; omega),
      List.getElem_map,
      List.getElem_range, place, if_neg (by omega)]
    congr 1
    simp only [List.length_map, List.length_range]
    omega

end Contents
end R2Apps.FifoRings
