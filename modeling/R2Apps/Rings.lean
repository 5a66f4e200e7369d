import Mathlib.Data.List.Basic
import Mathlib.Tactic.Ring

/-! A ring that keeps the newest `size` rows, and rows that follow each other
at a fixed distance in time. The retained rows are a list, oldest first; storing
appends to it and drops from its front. -/
namespace R2Apps.Rings

structure RoundRobin (α : Type) where
  rows : Nat → α
  next : Nat
  count : Nat

variable {α : Type} {size : Nat} {r : RoundRobin α}

def RoundRobin.store (size : Nat) (r : RoundRobin α) (row : α) : RoundRobin α :=
  { rows := fun i => if i = r.next then row else r.rows i, next := (r.next + 1) % size,
    count := if r.count < size then r.count + 1 else r.count }

/-- The row at `index`, counted from the oldest. -/
def RoundRobin.row (size : Nat) (r : RoundRobin α) (index : Nat) : Option α :=
  if index ≥ r.count then none else some (r.rows ((r.next + size - r.count + index) % size))

structure RoundRobin.Fits (size : Nat) (r : RoundRobin α) : Prop where
  next : r.next < size
  count : r.count ≤ size

def RoundRobin.retained (size : Nat) (r : RoundRobin α) : List α :=
  (List.range r.count).map fun i => r.rows ((r.next + size - r.count + i) % size)

@[irreducible] def newest (size : Nat) (rows : List α) : List α := rows.drop (rows.length - size)

theorem newest_suffix (size : Nat) (rows : List α) : newest size rows <:+ rows := by
  rw [newest]
  exact List.drop_suffix _ _

section Retained

theorem RoundRobin.retained_length : (r.retained size).length = r.count := by
  simp [RoundRobin.retained]

theorem RoundRobin.row_retained (index : Nat) : r.row size index = (r.retained size)[index]? := by
  unfold RoundRobin.row RoundRobin.retained
  split
  · rename_i outside
    rw [List.getElem?_eq_none (by simpa using outside)]
  · rename_i inside
    rw [List.getElem?_map, List.getElem?_range (by omega)]
    rfl

theorem RoundRobin.store_fits (fits : r.Fits size) (row : α) : (r.store size row).Fits size := by
  have positive : 0 < size := by have := fits.next; omega
  constructor
  · exact Nat.mod_lt _ positive
  · have := fits.count
    simp only [RoundRobin.store]
    split <;> omega

/-- Where the reader looks for the row at `i` and where the writer is. -/
theorem slot_apart (fits : r.Fits size) {i : Nat} (inside : i < r.count)
    (kept : r.count < size ∨ 0 < i) : (r.next + size - r.count + i) % size ≠ r.next := by
  obtain ⟨next, count⟩ := fits
  by_cases wrapped : r.next + size - r.count + i < size
  · rw [Nat.mod_eq_of_lt wrapped]
    omega
  · rw [Nat.mod_eq_sub_mod (by omega), Nat.mod_eq_of_lt (by omega)]
    omega

theorem RoundRobin.row_store (fits : r.Fits size) (row : α) (i : Nat) :
    (r.store size row).row size i =
      if i + (r.count + 1 - size) < r.count then r.row size (i + (r.count + 1 - size))
      else if i + (r.count + 1 - size) = r.count then some row else none := by
  have next := fits.next
  have count := fits.count
  obtain ⟨c, grown⟩ : ∃ c, (if r.count < size then r.count + 1 else r.count) = c := ⟨_, rfl⟩
  have total : c + (r.count + 1 - size) = r.count + 1 := by
    rw [← grown]
    split <;> omega
  have bound : c ≤ size := by omega
  have place : ((r.next + 1) % size + size - c + i) % size =
      (r.next + size - r.count + (i + (r.count + 1 - size))) % size := by
    by_cases last : r.next + 1 = size
    · rw [last, Nat.mod_self]
      have same : r.next + size - r.count + (i + (r.count + 1 - size)) = (0 + size - c + i) + size := by
        omega
      rw [same, Nat.add_mod_right]
    · rw [Nat.mod_eq_of_lt (by omega : r.next + 1 < size)]
      congr 1
      omega
  simp only [RoundRobin.row, RoundRobin.store, grown, place]
  generalize r.count + 1 - size = d at *
  by_cases old : i + d < r.count
  · have apart := slot_apart fits old (by omega)
    rw [if_neg (by omega), if_pos old, if_neg apart, if_neg (by omega)]
  · rw [if_neg old]
    by_cases new : i + d = r.count
    · have here : (r.next + size - r.count + (i + d)) % size = r.next := by
        have sum : r.next + size - r.count + (i + d) = r.next + size := by omega
        rw [sum, Nat.add_mod_right, Nat.mod_eq_of_lt next]
      rw [if_neg (by omega), if_pos new, here, if_pos rfl]
    · rw [if_pos (by omega), if_neg new]

theorem RoundRobin.row_newest (fits : r.Fits size) (row : α) :
    (r.store size row).row size ((r.store size row).count - 1) = some row := by
  have next := fits.next
  have count := fits.count
  have last : (r.store size row).count - 1 + (r.count + 1 - size) = r.count := by
    simp only [RoundRobin.store]
    split <;> omega
  rw [RoundRobin.row_store fits, last, if_neg (Nat.lt_irrefl _), if_pos rfl]

theorem RoundRobin.retained_store (fits : r.Fits size) (row : α) :
    (r.store size row).retained size = newest size (r.retained size ++ [row]) := by
  apply List.ext_getElem?
  intro i
  rw [newest, List.getElem?_drop, ← RoundRobin.row_retained, RoundRobin.row_store fits, List.getElem?_append]
  simp only [List.length_append, RoundRobin.retained_length, List.length_singleton, RoundRobin.row_retained]
  rw [Nat.add_comm (r.count + 1 - size) i]
  split
  · rfl
  · rename_i beyond
    split
    · rename_i last
      rw [last, Nat.sub_self]
      rfl
    · rw [List.getElem?_eq_none]
      simp only [List.length_singleton]
      omega

end Retained

/-! Rows one step apart, the one before `due` last. -/
section Spacing
variable {time : α → Nat} {step due : Nat} {rows : List α}

def Spaced (time : α → Nat) (step due : Nat) : List α → Prop
  | [] => True
  | row :: rest => time row + (rest.length + 1) * step = due ∧ Spaced time step due rest

theorem Spaced.append {row : α} (spaced : Spaced time step due rows) (now : time row = due) :
    Spaced time step (due + step) (rows ++ [row]) := by
  induction rows with
  | nil =>
      refine ⟨?_, trivial⟩
      simp [now]
  | cons first rest ih =>
      obtain ⟨here, later⟩ := spaced
      refine ⟨?_, ih later⟩
      change time first + ((rest ++ [row]).length + 1) * step = due + step
      rw [List.length_append, List.length_singleton, ← here]
      ring

theorem Spaced.suffix {older : List α} (spaced : Spaced time step due rows) (tail : older <:+ rows) :
    Spaced time step due older := by
  obtain ⟨front, rfl⟩ := tail
  induction front with
  | nil => exact spaced
  | cons first rest ih => exact ih spaced.2

theorem Spaced.at {i : Nat} {row : α} (spaced : Spaced time step due rows) (here : rows[i]? = some row) :
    time row + (rows.length - i) * step = due := by
  induction rows generalizing i with
  | nil => simp at here
  | cons first rest ih =>
      cases i with
      | zero =>
          obtain rfl : first = row := by simpa using here
          exact spaced.1
      | succ i =>
          have later := ih spaced.2 (by simpa using here)
          simpa using later

theorem Spaced.before {row : α} (spaced : Spaced time step due rows) (member : row ∈ rows) :
    time row + step ≤ due := by
  induction rows with
  | nil => simp at member
  | cons first rest ih =>
      rcases List.mem_cons.mp member with rfl | later
      · have here := spaced.1
        have : step ≤ (rest.length + 1) * step := Nat.le_mul_of_pos_left _ (by omega)
        omega
      · exact ih spaced.2 later

theorem Spaced.multiple {row : α} (spaced : Spaced time step due rows) (aligned : step ∣ due)
    (member : row ∈ rows) : step ∣ time row := by
  induction rows with
  | nil => simp at member
  | cons first rest ih =>
      rcases List.mem_cons.mp member with rfl | later
      · rw [← spaced.1] at aligned
        exact (Nat.dvd_add_left (Nat.dvd_mul_left _ _)).mp aligned
      · exact ih spaced.2 later

end Spacing

end R2Apps.Rings
