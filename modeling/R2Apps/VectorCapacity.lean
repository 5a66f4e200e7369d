import Mathlib.Logic.Function.Basic
import R2Apps.HeapRuns

/-! `r2::vector` of `libc++r2/include/r2/vector.hpp`: any number of vectors of one
element type over one allocator. `reserve` asks for `new_cap * sizeof(T)` bytes, a product
of 64 bits. When it wraps, a small block is taken for one of `new_cap` elements. Elements
are values; what is read of a block beyond its end is not modelled. -/
namespace R2Apps.VectorCapacity

section Code
variable {α : Type}

/-- The elements are those up to `size_`; `block` is the number of bytes at `data_`, 0 at a null pointer. -/
structure Vec (α : Type) where
  elements : List α := []
  cap : Nat := 0
  block : Nat := 0

/-- How the heap answers its k-th request, for so many bytes: not at all, or with a block. -/
structure Allocator where
  grant : Nat → Nat → Option Nat
  law : ∀ k bytes block, grant k bytes = some block → bytes ≤ block ∧ block < 2 ^ 64

/-- A vector after a call, the requests so far, and what the call says of its success. -/
structure Result (α : Type) where
  vec : Vec α
  requests : Nat
  ok : Bool

variable (size : Nat) (a : Allocator)

/-- `size` is that of an element. -/
def reserve (v : Vec α) (requests newCap : Nat) : Result α :=
  if newCap ≤ v.cap then ⟨v, requests, true⟩
  else match a.grant requests (newCap * size % 2 ^ 64) with
    | none => ⟨v, requests + 1, false⟩
    | some block => ⟨{ v with cap := newCap, block := block }, requests + 1, true⟩

def Result.fill (r : Result α) (elements : List α) : Result α :=
  if r.ok then { r with vec := { r.vec with elements := elements } } else r

def growIfFull (v : Vec α) (requests : Nat) : Result α :=
  if v.elements.length < v.cap then ⟨v, requests, true⟩
  else reserve size a v requests (if v.cap = 0 then 4 else v.cap * 2 % 2 ^ 64)

def pushBack (v : Vec α) (requests : Nat) (x : α) : Result α :=
  (growIfFull size a v requests).fill (v.elements ++ [x])

/-- New elements are copies of `x`, which `resize(count)` default-constructs. -/
def resize (v : Vec α) (requests count : Nat) (x : α) : Result α :=
  if count < v.elements.length then ⟨{ v with elements := v.elements.take count }, requests, true⟩
  else (reserve size a v requests count).fill (v.elements ++ List.replicate (count - v.elements.length) x)

/-- `index` is `pos - data_`, of 64 bits. -/
def insert (v : Vec α) (requests index : Nat) (x : α) : Result α :=
  if index > v.elements.length then ⟨v, requests, false⟩
  else (growIfFull size a v requests).fill (v.elements.insertIdx index x)

def eraseAt (v : Vec α) (index : Nat) : Vec α :=
  if index < v.elements.length then { v with elements := v.elements.eraseIdx index } else v

/-- `none` for an iterator behind the end. -/
def eraseRange (v : Vec α) (first last : Nat) : Option (Vec α) :=
  if first ≥ last then some v
  else if last ≤ v.elements.length then
    some { v with elements := v.elements.take first ++ v.elements.drop last }
  else none

def clear (v : Vec α) : Vec α := { v with elements := [] }

/-- What a copy assignment does, which does not say whether it succeeded. -/
def copyOf (v : Vec α) (requests : Nat) (elements : List α) : Result α :=
  { (reserve size a (clear v) requests elements.length).fill elements with ok := true }

structure Pool (α : Type) where
  vectors : Nat → Vec α := fun _ => {}
  requests : Nat := 0

inductive Op (α : Type) where
  | reserve (i newCap : Nat)
  | pushBack (i : Nat) (x : α)
  | popBack (i : Nat)
  | resize (i count : Nat) (x : α)
  | insert (i index : Nat) (x : α)
  | eraseAt (i index : Nat)
  | eraseRange (i first last_ : Nat)
  | clear (i : Nat)
  | swap (i j : Nat)
  | copyAssign (i j : Nat)
  | moveAssign (i j : Nat)
  /-- a vector is destroyed, and an empty one constructed; those below go on with it -/
  | construct (i : Nat)
  | constructFilled (i count : Nat) (x : α)
  | constructList (i : Nat) (elements : List α)
  | constructCopy (i j : Nat)
  | constructMoved (i j : Nat)

def Pool.take (p : Pool α) (i : Nat) (r : Result α) : Pool α × Bool :=
  (⟨Function.update p.vectors i r.vec, r.requests⟩, r.ok)

def Pool.set (p : Pool α) (i : Nat) (v : Vec α) : Pool α × Bool :=
  (⟨Function.update p.vectors i v, p.requests⟩, true)

/-- The vectors after a call, and whether it reports success; a call that cannot fail and
one that does not say report it. -/
def step (p : Pool α) : Op α → Option (Pool α × Bool)
  | .reserve i newCap => some (p.take i (reserve size a (p.vectors i) p.requests newCap))
  | .pushBack i x => some (p.take i (pushBack size a (p.vectors i) p.requests x))
  | .popBack i => some (p.set i { p.vectors i with elements := (p.vectors i).elements.dropLast })
  | .resize i count x => some (p.take i (resize size a (p.vectors i) p.requests count x))
  | .insert i index x => some (p.take i (insert size a (p.vectors i) p.requests index x))
  | .eraseAt i index => some (p.set i (eraseAt (p.vectors i) index))
  | .eraseRange i first last_ => (eraseRange (p.vectors i) first last_).map (p.set i)
  | .clear i => some (p.set i (clear (p.vectors i)))
  | .swap i j => some (((p.set i (p.vectors j)).1).set j (p.vectors i))
  | .copyAssign i j =>
      if i = j then some (p, true)
      else some (p.take i (copyOf size a (p.vectors i) p.requests (p.vectors j).elements))
  | .moveAssign i j =>
      if i = j then some (p, true) else some (((p.set i (p.vectors j)).1).set j {})
  | .construct i => some (p.set i {})
  | .constructFilled i count x => some (p.take i { resize size a {} p.requests count x with ok := true })
  | .constructList i elements => some (p.take i (copyOf size a {} p.requests elements))
  | .constructCopy i j => some (p.take i (copyOf size a {} p.requests (p.vectors j).elements))
  | .constructMoved i j => some (((p.set i (p.vectors j)).1).set j {})

end Code

section Meaning
variable {α : Type} (size : Nat) (a : Allocator)

/-- The block is large enough for the capacity, and the capacity for the elements. -/
structure Holds (v : Vec α) : Prop where
  bytes : v.cap * size ≤ v.block
  within : v.elements.length ≤ v.cap
  word : v.cap < 2 ^ 64

def Suits (v : Vec α) (requests newCap : Nat) : Prop :=
  v.cap < newCap → (a.grant requests (newCap * size % 2 ^ 64)).isSome = true → newCap * size < 2 ^ 64

/-- The capacity that a full vector is to have next, without bound. -/
def doubled (v : Vec α) : Nat := if v.cap = 0 then 4 else v.cap * 2

def Grows (v : Vec α) (requests : Nat) : Prop :=
  v.elements.length = v.cap → doubled v < 2 ^ 64 ∧ Suits size a v requests (doubled v)

/-- The condition on a call, in the state before it. -/
def Fits (p : Pool α) : Op α → Prop
  | .reserve i newCap => Suits size a (p.vectors i) p.requests newCap
  | .resize i count _ => Suits size a (p.vectors i) p.requests count
  | .pushBack i _ => Grows size a (p.vectors i) p.requests
  | .insert i index _ => index ≤ (p.vectors i).elements.length → Grows size a (p.vectors i) p.requests
  | .copyAssign i j => i ≠ j → Suits size a (p.vectors i) p.requests (p.vectors j).elements.length
  | .constructFilled _ count _ => Suits size a ({} : Vec α) p.requests count
  | .constructList _ elements => Suits size a ({} : Vec α) p.requests elements.length
  | .constructCopy _ j => Suits size a ({} : Vec α) p.requests (p.vectors j).elements.length
  | _ => True

def Words : Op α → Prop
  | .reserve _ newCap => newCap < 2 ^ 64
  | .resize _ count _ => count < 2 ^ 64
  | .constructFilled _ count _ => count < 2 ^ 64
  | .constructList _ elements => elements.length < 2 ^ 64
  | _ => True

inductive Reached : Pool α → Prop where
  | start : Reached {}
  | call {p q : Pool α} {op : Op α} {ok : Bool} (before : Reached p) (words : Words op)
    (fits : Fits size a p op)
      (done : step size a p op = some (q, ok)) : Reached q

end Meaning

section Growing
variable {α : Type} {size : Nat} {a : Allocator} {v : Vec α}

theorem holds_empty : Holds size ({} : Vec α) := ⟨by simp, Nat.le_refl 0, Nat.two_pow_pos 64⟩

theorem holds_fewer (holds : Holds size v) {elements : List α} (fewer : elements.length ≤ v.elements.length) :
    Holds size { v with elements := elements } :=
  ⟨holds.bytes, Nat.le_trans fewer holds.within, holds.word⟩

theorem reserve_cases (size : Nat) (a : Allocator) (v : Vec α) (requests newCap : Nat) :
    newCap ≤ v.cap ∧ reserve size a v requests newCap = ⟨v, requests, true⟩ ∨
    v.cap < newCap ∧ a.grant requests (newCap * size % 2 ^ 64) = none ∧
      reserve size a v requests newCap = ⟨v, requests + 1, false⟩ ∨
    ∃ block, v.cap < newCap ∧ a.grant requests (newCap * size % 2 ^ 64) = some block ∧
      reserve size a v requests newCap = ⟨{ v with cap := newCap, block := block }, requests + 1, true⟩ := by
  unfold reserve
  by_cases room : newCap ≤ v.cap
  · exact Or.inl ⟨room, if_pos room⟩
  · have more := Nat.lt_of_not_le room
    rw [if_neg room]
    cases granted : a.grant requests (newCap * size % 2 ^ 64) with
    | none => exact Or.inr (Or.inl ⟨more, rfl, rfl⟩)
    | some block => exact Or.inr (Or.inr ⟨block, more, rfl, rfl⟩)

theorem reserve_elements (requests newCap : Nat) :
    (reserve size a v requests newCap).vec.elements = v.elements := by
  rcases reserve_cases size a v requests newCap with ⟨_, same⟩ | ⟨_, _, same⟩ | ⟨_, _, _, same⟩ <;> rw [same]

theorem reserve_room {requests newCap : Nat} (ok : (reserve size a v requests newCap).ok = true) :
    newCap ≤ (reserve size a v requests newCap).vec.cap := by
  rcases reserve_cases size a v requests newCap with ⟨room, same⟩ | ⟨_, _, same⟩ | ⟨_, _, _, same⟩
  · rw [same]
    exact room
  · rw [same] at ok
    cases ok
  · rw [same]

theorem reserve_holds (holds : Holds size v) {newCap : Nat} (word : newCap < 2 ^ 64) (requests : Nat) :
    Holds size (reserve size a v requests newCap).vec ↔ Suits size a v requests newCap := by
  rcases reserve_cases size a v requests newCap with ⟨room, same⟩ | ⟨_, refused, same⟩ |
    ⟨block, more, granted, same⟩
  · rw [same]
    exact iff_of_true holds fun more => absurd more (Nat.not_lt.mpr room)
  · rw [same]
    refine iff_of_true holds fun _ granted => ?_
    rw [refused] at granted
    cases granted
  · obtain ⟨least, most⟩ := a.law _ _ _ granted
    rw [same]
    constructor
    · intro after _ _
      exact Nat.lt_of_le_of_lt after.bytes most
    · intro suits
      have whole := suits more (by rw [granted]; rfl)
      rw [Nat.mod_eq_of_lt whole] at least
      exact ⟨least, Nat.le_trans holds.within (Nat.le_of_lt more), word⟩

theorem fill_failed {r : Result α} (failed : r.ok = false) (elements : List α) : r.fill elements = r := by
  rw [Result.fill, failed]
  rfl

theorem fill_ok (r : Result α) (elements : List α) : (r.fill elements).ok = r.ok := by
  unfold Result.fill
  split <;> rfl

theorem fill_holds {r : Result α} {elements : List α} (room : r.ok = true → elements.length ≤ r.vec.cap)
    (before : r.vec.elements.length ≤ r.vec.cap) :
    Holds size (r.fill elements).vec ↔ Holds size r.vec := by
  cases succeeded : r.ok with
  | false => rw [fill_failed succeeded]
  | true =>
      have filled : (r.fill elements).vec = { r.vec with elements := elements } := by
        rw [Result.fill, succeeded]
        rfl
      rw [filled]
      exact ⟨fun h => ⟨h.bytes, before, h.word⟩, fun h => ⟨h.bytes, room succeeded, h.word⟩⟩

theorem reserve_within (holds : Holds size v) (requests newCap : Nat) :
    (reserve size a v requests newCap).vec.elements.length ≤ (reserve size a v requests newCap).vec.cap := by
  have within := holds.within
  rcases reserve_cases size a v requests newCap with ⟨_, same⟩ | ⟨_, _, same⟩ | ⟨_, more, _, same⟩
  · rw [same]
    exact within
  · rw [same]
    exact within
  · rw [same]
    exact Nat.le_trans within (Nat.le_of_lt more)

theorem growIfFull_holds (holds : Holds size v) (requests : Nat) {elements : List α}
    (one : elements.length = v.elements.length + 1) :
    Holds size ((growIfFull size a v requests).fill elements).vec ↔ Grows size a v requests := by
  have within := holds.within
  have word := holds.word
  by_cases free : v.elements.length < v.cap
  · have grown : growIfFull size a v requests = ⟨v, requests, true⟩ := if_pos free
    rw [grown, fill_holds (fun _ => by rw [one]; exact free) within]
    exact iff_of_true holds fun full => absurd full (Nat.ne_of_lt free)
  · have full : v.elements.length = v.cap := by omega
    by_cases wraps : doubled v < 2 ^ 64
    · have next : (if v.cap = 0 then 4 else v.cap * 2 % 2 ^ 64) = doubled v := by
        unfold doubled at wraps ⊢
        split
        · rfl
        · rename_i some_
          rw [if_neg some_] at wraps
          exact Nat.mod_eq_of_lt wraps
      have grown : growIfFull size a v requests = reserve size a v requests (doubled v) := by
        rw [growIfFull, if_neg free, next]
      have more : v.cap < doubled v := by
        unfold doubled
        split <;> omega
      have room (ok : (reserve size a v requests (doubled v)).ok = true) :
          elements.length ≤ (reserve size a v requests (doubled v)).vec.cap := by
        have enough := reserve_room ok
        omega
      rw [grown, fill_holds room (reserve_within holds _ _), reserve_holds holds wraps]
      exact ⟨fun suits _ => ⟨wraps, suits⟩, fun grows => (grows full).2⟩
    · -- the doubled capacity wraps, and the element gets no room
      have large : v.cap * 2 ≥ 2 ^ 64 ∧ v.cap ≠ 0 := by
        unfold doubled at wraps
        split at wraps <;> omega
      have less : v.cap * 2 % 2 ^ 64 ≤ v.cap := by omega
      have grown : growIfFull size a v requests = ⟨v, requests, true⟩ := by
        rw [growIfFull, if_neg free, if_neg large.2, reserve, if_pos less]
      rw [grown]
      refine iff_of_false (fun after => ?_) fun grows => wraps (grows full).1
      have stays : elements.length ≤ v.cap := after.within
      omega

theorem growIfFull_elements (requests : Nat) : (growIfFull size a v requests).vec.elements = v.elements := by
  unfold growIfFull
  split
  · rfl
  · exact reserve_elements _ _

end Growing

section Calls
variable {α : Type} {size : Nat} {a : Allocator} {v : Vec α} {p : Pool α}

theorem resize_holds (holds : Holds size v) {count : Nat} (word : count < 2 ^ 64) (requests : Nat) (x : α) :
    Holds size (resize size a v requests count x).vec ↔ Suits size a v requests count := by
  have within := holds.within
  unfold resize
  by_cases fewer : count < v.elements.length
  · rw [if_pos fewer]
    exact iff_of_true (holds_fewer holds (by simp)) fun more => absurd more (by omega)
  · rw [if_neg fewer, fill_holds _ (reserve_within holds _ _), reserve_holds holds word]
    intro ok
    have room := reserve_room ok
    rw [List.length_append, List.length_replicate]
    omega

theorem copyOf_holds (holds : Holds size v) {elements : List α} (word : elements.length < 2 ^ 64)
    (requests : Nat) :
    Holds size (copyOf size a v requests elements).vec ↔ Suits size a v requests elements.length := by
  have cleared : Holds size (clear v) := holds_fewer holds (Nat.zero_le _)
  have reserved := reserve_holds (a := a) cleared word requests
  exact (fill_holds (fun ok => reserve_room ok) (reserve_within cleared _ _)).trans reserved

theorem insert_holds (holds : Holds size v) (requests index : Nat) (x : α) :
    Holds size (insert size a v requests index x).vec ↔
      (index ≤ v.elements.length → Grows size a v requests) := by
  unfold insert
  by_cases behind : index > v.elements.length
  · rw [if_pos behind]
    exact iff_of_true holds fun inside => absurd inside (by omega)
  · rw [if_neg behind, growIfFull_holds holds requests (List.length_insertIdx_of_le_length (by omega) _)]
    exact ⟨fun grows _ => grows, fun grows => grows (by omega)⟩

theorem take_vectors (p : Pool α) (i : Nat) (r : Result α) (k : Nat) :
    (p.take i r).1.vectors k = if k = i then r.vec else p.vectors k :=
      Function.update_apply p.vectors i r.vec k

theorem take_holds (all : ∀ k, Holds size (p.vectors k)) (i : Nat) (r : Result α) :
    (∀ k, Holds size ((p.take i r).1.vectors k)) ↔ Holds size r.vec := by
  constructor
  · intro after
    have here := after i
    rwa [take_vectors, if_pos rfl] at here
  · intro here k
    rw [take_vectors]
    by_cases same : k = i
    · rw [if_pos same]
      exact here
    · rw [if_neg same]
      exact all k

theorem set_holds (all : ∀ k, Holds size (p.vectors k)) {i : Nat} {v : Vec α} (here : Holds size v) :
    ∀ k, Holds size ((p.set i v).1.vectors k) := (take_holds all i ⟨v, p.requests, true⟩).mpr here

theorem eraseRange_holds (holds : Holds size v) {first last_ : Nat} {w : Vec α}
    (done : eraseRange v first last_ = some w) : Holds size w := by
  unfold eraseRange at done
  split at done
  · cases done
    exact holds
  · split at done
    · cases done
      apply holds_fewer holds
      rw [List.length_append, List.length_take, List.length_drop]
      omega
    · cases done

theorem step_holds (all : ∀ k, Holds size (p.vectors k)) {op : Op α} (words : Words op) {q : Pool α}
    {ok : Bool}
    (done : step size a p op = some (q, ok)) : (∀ k, Holds size (q.vectors k)) ↔ Fits size a p op := by
  cases op with
  | reserve i newCap =>
      cases done
      exact (take_holds all i _).trans (reserve_holds (all i) words p.requests)
  | pushBack i x =>
      cases done
      exact (take_holds all i _).trans (growIfFull_holds (all i) p.requests List.length_append)
  | popBack i =>
      cases done
      exact iff_of_true (set_holds all (holds_fewer (all i) (List.dropLast_sublist _).length_le)) trivial
  | resize i count x =>
      cases done
      exact (take_holds all i _).trans (resize_holds (all i) words p.requests x)
  | insert i index x =>
      cases done
      exact (take_holds all i _).trans (insert_holds (all i) p.requests index x)
  | eraseAt i index =>
      cases done
      refine iff_of_true (set_holds all ?_) trivial
      unfold eraseAt
      split
      · exact holds_fewer (all i) (List.eraseIdx_sublist _ _).length_le
      · exact all i
  | eraseRange i first last_ =>
      obtain ⟨w, erased, same⟩ := Option.map_eq_some_iff.mp done
      cases same
      exact iff_of_true (set_holds all (eraseRange_holds (all i) erased)) trivial
  | clear i =>
      cases done
      exact iff_of_true (set_holds all (holds_fewer (all i) (Nat.zero_le _))) trivial
  | swap i j =>
      cases done
      exact iff_of_true (set_holds (set_holds all (all j)) (all i)) trivial
  | copyAssign i j =>
      simp only [step] at done
      split at done
      · rename_i same
        cases done
        exact iff_of_true all fun other => absurd same other
      · rename_i other
        cases done
        have word := Nat.lt_of_le_of_lt (all j).within (all j).word
        have copied := (take_holds all i _).trans (copyOf_holds (a := a) (all i) word p.requests)
        exact ⟨fun after _ => copied.mp after, fun suits => copied.mpr (suits other)⟩
  | moveAssign i j =>
      simp only [step] at done
      split at done
      · cases done
        exact iff_of_true all trivial
      · cases done
        exact iff_of_true (set_holds (set_holds all (all j)) holds_empty) trivial
  | construct i =>
      cases done
      exact iff_of_true (set_holds all holds_empty) trivial
  | constructFilled i count x =>
      cases done
      exact (take_holds all i _).trans (resize_holds holds_empty words p.requests x)
  | constructList i elements =>
      cases done
      exact (take_holds all i _).trans (copyOf_holds holds_empty words p.requests)
  | constructCopy i j =>
      cases done
      have word := Nat.lt_of_le_of_lt (all j).within (all j).word
      exact (take_holds all i _).trans (copyOf_holds holds_empty word p.requests)
  | constructMoved i j =>
      cases done
      exact iff_of_true (set_holds (set_holds all (all j)) holds_empty) trivial

theorem fill_elements {r : Result α} {elements : List α} (same : r.vec.elements = v.elements)
    (failed : (r.fill elements).ok = false) : (r.fill elements).vec.elements = v.elements := by
  rw [fill_ok] at failed
  rw [fill_failed failed]
  exact same

theorem take_elements {i : Nat} {r : Result α} (same : r.vec.elements = (p.vectors i).elements) (k : Nat) :
    ((p.take i r).1.vectors k).elements = (p.vectors k).elements := by
  rw [take_vectors]
  by_cases here : k = i
  · rw [if_pos here, here]
    exact same
  · rw [if_neg here]

theorem step_failed {op : Op α} {q : Pool α} (done : step size a p op = some (q, false)) (k : Nat) :
    (q.vectors k).elements = (p.vectors k).elements := by
  cases op with
  | reserve i newCap =>
      cases (Prod.mk.inj (Option.some.inj done)).1
      exact take_elements (reserve_elements _ _) k
  | pushBack i x =>
      obtain ⟨rfl, failed⟩ := Prod.mk.inj (Option.some.inj done)
      exact take_elements (fill_elements (growIfFull_elements _) failed) k
  | resize i count x =>
      obtain ⟨rfl, failed⟩ := Prod.mk.inj (Option.some.inj done)
      apply take_elements
      simp only [resize] at failed ⊢
      split at failed
      · cases failed
      · rename_i more
        rw [if_neg more]
        exact fill_elements (reserve_elements _ _) failed
  | insert i index x =>
      obtain ⟨rfl, failed⟩ := Prod.mk.inj (Option.some.inj done)
      apply take_elements
      simp only [insert] at failed ⊢
      split at failed
      · rename_i behind
        rw [if_pos behind]
      · rename_i inside
        rw [if_neg inside]
        exact fill_elements (growIfFull_elements _) failed
  | eraseRange i first last_ =>
      obtain ⟨w, _, same⟩ := Option.map_eq_some_iff.mp done
      cases same
  | copyAssign i j =>
      simp only [step] at done
      split at done <;> cases done
  | moveAssign i j =>
      simp only [step] at done
      split at done <;> cases done
  | _ => cases done

end Calls

section Runs
variable {α : Type} {size : Nat} {a : Allocator} {p : Pool α}

theorem reached_holds (reached : Reached size a p) : ∀ k, Holds size (p.vectors k) := by
  induction reached with
  | start => exact fun _ => holds_empty
  | call _ words fits done ih => exact (step_holds ih words done).mpr fits

/-- In a run in which no wrapped byte count is granted and no doubled capacity wraps,
every block is large enough for its vector's capacity and every capacity for the size,
and the next call keeps it so if and only if that holds of it too. A call that reports
failure leaves all elements as they were. -/
theorem vectors_hold (reached : Reached size a p) {op : Op α} (words : Words op) {q : Pool α} {ok : Bool}
    (done : step size a p op = some (q, ok)) :
    (∀ k, Holds size (p.vectors k)) ∧ ((∀ k, Holds size (q.vectors k)) ↔ Fits size a p op) ∧
      (ok = false → ∀ k, (q.vectors k).elements = (p.vectors k).elements) := by
  refine ⟨reached_holds reached, step_holds (reached_holds reached) words done, ?_⟩
  intro failed k
  rw [failed] at done
  exact step_failed done k

def smallArena : Allocator where
  grant _ bytes := if bytes ≤ 4096 then some (max bytes 16) else none
  law _ bytes block granted := by
    split at granted
    · cases granted
      omega
    · cases granted

def onePushed : Pool Nat := ((({} : Pool Nat).take 0 (pushBack 8 smallArena {} 0 7))).1

/-- A thousand elements are too many for the arena. -/
def refused : Pool Nat := (onePushed.take 0 (resize 8 smallArena (onePushed.vectors 0) 1 1000 0)).1

theorem small_arena_refuses :
    ((∀ k, Holds 8 (onePushed.vectors k)) ∧
      ((∀ k, Holds 8 (refused.vectors k)) ↔ Fits 8 smallArena onePushed (.resize 0 1000 0)) ∧
      (false = false → ∀ k, (refused.vectors k).elements = (onePushed.vectors k).elements)) ∧
    (onePushed.vectors 0).cap = 4 := by
  have pushed : Reached 8 smallArena onePushed := by
    have words : Words (.pushBack 0 7 : Op Nat) := trivial
    refine .call .start words ?_ rfl
    intro _
    exact ⟨by decide, fun _ _ => by decide⟩
  have words : Words (.resize 0 1000 0 : Op Nat) := by
    unfold Words
    decide
  exact ⟨vectors_hold pushed words rfl, rfl⟩

/-- 2^60 elements of 16 bytes get the 16 bytes that no bytes get. -/
theorem wrapped_count_granted :
    ∃ q : Pool Nat, step 16 smallArena {} (.reserve 0 (2 ^ 60)) = some (q, true) ∧
      ¬(q.vectors 0).cap * 16 ≤ (q.vectors 0).block := by
  refine ⟨_, rfl, ?_⟩
  decide

end Runs

section Heap
open ByteMemory HeapArena HeapGrowth HeapRuns

variable {platform : Platform} {h h' : Heap} {live : List Nat} {bytes q : Nat}

theorem blockSize_lt (h : Heap) (q : Nat) : blockSize h q < 2 ^ 64 := by
  unfold blockSize
  split
  · decide
  · exact Nat.lt_of_le_of_lt Nat.and_le_left (load64_lt h.mem _)

theorem allocate_law (reached : HeapRuns.Reached h live) (honest : Honest platform h)
    (fits : bytes < wordSpan)
    (called : allocate platform h bytes = some (h', q)) (real : q ≠ 0) :
    bytes ≤ blockSize h' q ∧ blockSize h' q < 2 ^ 64 := by
  obtain ⟨used, holds⟩ := HeapRuns.reached_holds reached
  obtain ⟨h'', q', again, contract⟩ := allocate_meets_contract holds honest fits
  cases called.symm.trans again
  exact ⟨(contract.2 real).large, blockSize_lt h' q⟩

/-- The arena as it is at each request is an allocator, however it came there. -/
def arenaAllocator (platform : Nat → Platform) (heaps : Nat → Heap)
    (reached : ∀ k, ∃ live, HeapRuns.Reached (heaps k) live) (honest : ∀ k, Honest (platform k) (heaps k)) :
    Allocator where
  grant k bytes :=
    if bytes < wordSpan then
      (allocate (platform k) (heaps k) bytes).bind fun (h, q) => if q = 0 then none else some (blockSize h q)
    else none
  law k bytes block granted := by
    split at granted
    · next fits =>
        obtain ⟨⟨h, q⟩, called, block_⟩ := Option.bind_eq_some_iff.mp granted
        obtain ⟨live, reached⟩ := reached k
        simp only at block_
        by_cases null : q = 0
        · rw [if_pos null] at block_
          cases block_
        · rw [if_neg null] at block_
          cases block_
          exact allocate_law reached (honest k) fits called null
    · cases granted

end Heap

end R2Apps.VectorCapacity
