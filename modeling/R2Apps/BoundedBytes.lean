import R2Apps.BlockImages

/-! Accesses to buffers that have an end: one that reaches past it has no result. A program written with
them that always has one stays inside its buffers. -/
namespace R2Apps.BoundedBytes
open ByteMemory BlockImages

section Accesses

def within {α : Type} (limit address count : Nat) (value : α) : Option α :=
  if address + count ≤ limit then some value else none

def byteIn (limit : Nat) (m : Memory) (address : Nat) : Option UInt8 := within limit address 1 (m address)

def writeIn (limit : Nat) (m : Memory) (address : Nat) (byte : UInt8) : Option Memory :=
  within limit address 1 (writeByte m address byte)

def loadIn (limit : Nat) (m : Memory) (address count : Nat) : Option Nat :=
  within limit address count (loadBE m address count)

def storeIn (limit : Nat) (m : Memory) (address value count : Nat) : Option Memory :=
  within limit address count (storeBE m address value count)

/-- A copy between two buffers: `room` is the source's end. -/
def pasteIn (limit : Nat) (m : Memory) (target room : Nat) (source : Memory) (offset count : Nat) :
    Option Memory := do
  let source ← within room offset count source
  within limit target count (paste m target source offset count)

variable {limit room address target offset count : Nat} {m source : Memory}

theorem byteIn_inside (inside : address < limit) : byteIn limit m address = some (m address) := if_pos inside

theorem writeIn_inside (inside : address < limit) (byte : UInt8) :
    writeIn limit m address byte = some (writeByte m address byte) := if_pos inside

theorem loadIn_inside (inside : address + count ≤ limit) :
    loadIn limit m address count = some (loadBE m address count) := if_pos inside

theorem storeIn_inside (inside : address + count ≤ limit) (value : Nat) :
    storeIn limit m address value count = some (storeBE m address value count) := if_pos inside

theorem pasteIn_inside (read : offset + count ≤ room) (written : target + count ≤ limit) :
    pasteIn limit m target room source offset count = some (paste m target source offset count) := by
  have there : within room offset count source = some source := if_pos read
  rw [pasteIn, there]
  exact if_pos written

end Accesses

section Control
variable {α σ ι : Type}

theorem if_some {c : Prop} [Decidable c] {a b : Option α} {x y : α} (yes : c → a = some x)
    (no : ¬c → b = some y) : (if c then a else b) = some (if c then x else y) := by
  by_cases holds : c
  · rw [if_pos holds, if_pos holds]
    exact yes holds
  · rw [if_neg holds, if_neg holds]
    exact no holds

theorem foldlM_kept (Kept : σ → Prop) {f : σ → ι → Option σ} {g : σ → ι → σ} (l : List ι)
    (turn : ∀ a, Kept a → ∀ i ∈ l, f a i = some (g a i) ∧ Kept (g a i)) {a : σ} (kept : Kept a) :
    l.foldlM f a = some (l.foldl g a) ∧ Kept (l.foldl g a) := by
  induction l generalizing a with
  | nil => exact ⟨rfl, kept⟩
  | cons i rest ih =>
      obtain ⟨first, next⟩ := turn a kept i (List.mem_cons_self ..)
      have later := ih (fun b inv j member => turn b inv j (List.mem_cons_of_mem i member)) next
      rw [List.foldlM_cons, first, Option.bind_eq_bind, Option.bind_some, List.foldl_cons]
      exact later

theorem foldlM_some {f : σ → ι → Option σ} {g : σ → ι → σ} (l : List ι)
    (turn : ∀ a, ∀ i ∈ l, f a i = some (g a i)) (a : σ) : l.foldlM f a = some (l.foldl g a) :=
  (foldlM_kept (fun _ => True) l (fun a _ i member => ⟨turn a i member, trivial⟩) trivial).1

end Control

section Numbers

theorem loadBE_inj {m m' : Memory} {address address' : Nat} (count : Nat)
    (same : loadBE m address count = loadBE m' address' count) (i : Nat) (below : i < count) :
    m (address + i) = m' (address' + i) := by
  induction count generalizing i with
  | zero => exact absurd below (Nat.not_lt_zero i)
  | succ count ih =>
      have byte := (m (address + count)).toNat_lt
      have byte' := (m' (address' + count)).toNat_lt
      simp only [loadBE] at same
      have last : (m (address + count)).toNat = (m' (address' + count)).toNat := by omega
      have front : loadBE m address count = loadBE m' address' count := by omega
      rcases Nat.lt_succ_iff_lt_or_eq.mp below with earlier | rfl
      · exact ih front i earlier
      · exact UInt8.toNat_inj.mp last

theorem storeBE_loadBE (m out : Memory) (address count i : Nat) (below : i < count) :
    storeBE out address (loadBE m address count) count (address + i) = m (address + i) := by
  apply loadBE_inj count _ i below
  rw [loadBE_storeBE, Nat.mod_eq_of_lt (loadBE_lt m address count)]

end Numbers
end R2Apps.BoundedBytes
