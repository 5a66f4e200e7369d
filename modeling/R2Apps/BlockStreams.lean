import Mathlib.Data.List.Basic

/-! A stream taken in blocks of a fixed size. Whole blocks are folded into a
state as they fill up and the rest waits; how the stream is cut into pieces makes
no difference. -/
namespace R2Apps.BlockStreams
variable {Item State : Type} (size : Nat) (compress : State → List Item → State)

/-- The first `count` blocks of the items, folded in. -/
def compressBlocks : Nat → State → List Item → State × List Item
  | 0, state, items => (state, items)
  | count + 1, state, items => compressBlocks count (compress state (items.take size)) (items.drop size)

/-- All whole blocks of the items, folded in. -/
def feed (state : State) (items : List Item) : State × List Item :=
  compressBlocks size compress (items.length / size) state items

variable {size compress}

theorem compressBlocks_add (first second : Nat) (state : State) (items : List Item) :
    compressBlocks size compress (first + second) state items =
      compressBlocks size compress second (compressBlocks size compress first state items).1
        (compressBlocks size compress first state items).2 := by
  induction first generalizing state items with
  | zero => simp [compressBlocks]
  | succ first ih =>
      rw [Nat.succ_add]
      exact ih _ _

theorem compressBlocks_append (count : Nat) (state : State) (items more : List Item)
    (whole : count * size ≤ items.length) :
    compressBlocks size compress count state (items ++ more) =
      ((compressBlocks size compress count state items).1,
        (compressBlocks size compress count state items).2 ++ more) := by
  induction count generalizing state items with
  | zero => rfl
  | succ count ih =>
      rw [Nat.succ_mul] at whole
      have first : size ≤ items.length := Nat.le_trans (Nat.le_add_left _ _) whole
      have rest : count * size ≤ (items.drop size).length := by
        rw [List.length_drop]
        exact Nat.le_sub_of_add_le whole
      simp only [compressBlocks]
      rw [List.take_append_of_le_length first, List.drop_append_of_le_length first]
      exact ih _ _ rest

theorem compressBlocks_rest (count : Nat) (state : State) (items : List Item) :
    (compressBlocks size compress count state items).2 = items.drop (count * size) := by
  induction count generalizing state items with
  | zero => simp [compressBlocks]
  | succ count ih =>
      rw [compressBlocks, ih, List.drop_drop, Nat.succ_mul, Nat.add_comm]

theorem feed_rest_length (positive : 0 < size) (state : State) (items : List Item) :
    (feed size compress state items).2.length < size := by
  rw [feed, compressBlocks_rest, List.length_drop]
  have := Nat.div_add_mod items.length size
  have := Nat.mod_lt items.length positive
  rw [Nat.mul_comm]
  omega

theorem feed_rest_mod (state : State) (items : List Item) :
    (feed size compress state items).2.length = items.length % size := by
  rw [feed, compressBlocks_rest, List.length_drop, Nat.mod_eq_sub_div_mul]

theorem feed_append (positive : 0 < size) (state : State) (items more : List Item) :
    feed size compress (feed size compress state items).1
        ((feed size compress state items).2 ++ more) =
      feed size compress state (items ++ more) := by
  have whole : items.length / size * size ≤ items.length := Nat.div_mul_le_self _ _
  have count : (items ++ more).length / size =
      items.length / size + ((feed size compress state items).2 ++ more).length / size := by
    rw [List.length_append, List.length_append, feed, compressBlocks_rest, List.length_drop,
      Nat.add_comm (items.length / size), ← Nat.add_mul_div_right _ _ positive]
    congr 1
    omega
  conv_rhs => rw [feed, count, compressBlocks_add, compressBlocks_append _ _ _ _ whole]
  rfl

theorem feed_short {items : List Item} (state : State) (short : items.length < size) :
    feed size compress state items = (state, items) := by
  rw [feed, Nat.div_eq_of_lt short]
  rfl

theorem feed_block (positive : 0 < size) {items : List Item} (state : State)
    (full : size ≤ items.length) :
    feed size compress state items =
      feed size compress (compress state (items.take size)) (items.drop size) := by
  have count : items.length / size = (items.drop size).length / size + 1 := by
    rw [List.length_drop]
    exact Nat.div_eq_sub_div positive full
  rw [feed, count]
  rfl

theorem feed_one (positive : 0 < size) {items : List Item} (state : State) (one : items.length = size) :
    feed size compress state items = (compress state items, []) := by
  have nothing : items.drop size = [] := List.drop_of_length_le (Nat.le_of_eq one)
  rw [feed_block positive state (Nat.le_of_eq one.symm), List.take_of_length_le (Nat.le_of_eq one), nothing,
    feed_short _ positive]

theorem feed_first (positive : 0 < size) {block : List Item} (state : State) (items : List Item)
    (one : block.length = size) :
    feed size compress state (block ++ items) = feed size compress (compress state block) items := by
  have enough : size ≤ (block ++ items).length := by
    rw [List.length_append, one]
    exact Nat.le_add_right _ _
  rw [feed_block positive state enough, List.take_left' one, List.drop_left' one]

end R2Apps.BlockStreams
