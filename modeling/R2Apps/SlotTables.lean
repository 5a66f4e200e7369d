import Mathlib.Data.List.Basic

/-! Tables of slots, each empty or holding a key with its value. A table in
which no key stands twice is a partial map from keys: the first slot a search
finds is the only one. -/
namespace R2Apps.SlotTables
variable {Key Value : Type}

def Holds (table : List (Option (Key × Value))) (i : Nat) (key : Key) (value : Value) : Prop :=
  table[i]? = some (some (key, value))

def Once (table : List (Option (Key × Value))) : Prop :=
  ∀ i j key value value', Holds table i key value → Holds table j key value' → i = j

variable {table : List (Option (Key × Value))} {i : Nat} {key : Key} {value : Value}

theorem holds_iff : Holds table i key value ↔ table[i]? = some (some (key, value)) := Iff.rfl

theorem holds_set_ne {j : Nat} {entry : Option (Key × Value)} (apart : j ≠ i) :
    Holds (table.set i entry) j key value ↔ Holds table j key value := by
  simp only [holds_iff, List.getElem?_set_ne apart.symm]

theorem holds_set_self {entry : Option (Key × Value)} (held : Holds (table.set i entry) i key value) :
    entry = some (key, value) := by
  simp only [holds_iff, List.getElem?_set_self'] at held
  cases old : table[i]? with
  | none => simp [old] at held
  | some _ => simpa [old] using held

/-- Filling a slot changes nothing for a key that neither stood there nor is put there. -/
theorem holds_set_other {entry : Option (Key × Value)} (before : ∀ value, ¬ Holds table i key value)
    (after : ∀ value, entry ≠ some (key, value)) (j : Nat) (value : Value) :
    Holds (table.set i entry) j key value ↔ Holds table j key value := by
  by_cases hit : j = i
  · subst hit
    constructor
    · intro held
      exact absurd (holds_set_self held) (after value)
    · intro held
      exact absurd held (before value)
  · exact holds_set_ne hit

theorem holds_put (inside : i < table.length) : Holds (table.set i (some (key, value))) i key value := by
  rw [holds_iff, List.getElem?_set_self inside]

theorem once_clear (once : Once table) (i : Nat) : Once (table.set i none) := by
  have kept {j key value} (held : Holds (table.set i none) j key value) :
      Holds table j key value := by
    by_cases hit : j = i
    · subst hit
      exact absurd (holds_set_self held) (by simp)
    · exact (holds_set_ne hit).mp held
  intro j j' key value value' held held'
  exact once j j' key value value' (kept held) (kept held')

theorem once_put (once : Once table) (own : ∀ j value', Holds table j key value' → j = i) :
    Once (table.set i (some (key, value))) := by
  have stays {j key' value'} (held : Holds (table.set i (some (key, value))) j key' value') :
      j = i ∧ key' = key ∨ j ≠ i ∧ Holds table j key' value' := by
    by_cases hit : j = i
    · subst hit
      have same := holds_set_self held
      simp only [Option.some.injEq, Prod.mk.injEq] at same
      exact Or.inl ⟨rfl, same.1.symm⟩
    · exact Or.inr ⟨hit, (holds_set_ne hit).mp held⟩
  intro j j' key' v v' held held'
  rcases stays held with ⟨here, rfl⟩ | ⟨away, old⟩
  · rcases stays held' with ⟨here', _⟩ | ⟨away', old'⟩
    · rw [here, here']
    · exact absurd (own j' v' old') away'
  · rcases stays held' with ⟨here', rfl⟩ | ⟨away', old'⟩
    · exact absurd (own j v old) away
    · exact once j j' key' v v' old old'

/-! Searching. -/

variable [DecidableEq Key]

def isKey (key : Key) (entry : Option (Key × Value)) : Bool := entry.any fun p => p.1 == key

theorem isKey_iff {entry : Option (Key × Value)} :
    isKey key entry = true ↔ ∃ value, entry = some (key, value) := by
  cases entry with
  | none => simp [isKey]
  | some pair =>
      obtain ⟨key', value⟩ := pair
      simp [isKey]

theorem findIdx_holds (found : table.findIdx? (isKey key) = some i) :
    ∃ value, Holds table i key value := by
  obtain ⟨inside, hit, _⟩ := List.findIdx?_eq_some_iff_getElem.mp found
  obtain ⟨value, entry⟩ := Iff.mp isKey_iff hit
  exact ⟨value, by rw [holds_iff, List.getElem?_eq_getElem inside, entry]⟩

theorem findIdx_absent (missing : table.findIdx? (isKey key) = none) (i : Nat) (value : Value) :
    ¬ Holds table i key value := by
  intro held
  have miss := List.findIdx?_eq_none_iff.mp missing _ (List.mem_of_getElem? held)
  have hit : isKey key (some (key, value)) = true := Iff.mpr isKey_iff ⟨value, rfl⟩
  rw [miss] at hit
  exact absurd hit (by decide)

theorem findIdx_of_holds (once : Once table) (held : Holds table i key value) :
    table.findIdx? (isKey key) = some i := by
  cases found : table.findIdx? (isKey key) with
  | none => exact absurd held (findIdx_absent found i value)
  | some j =>
      obtain ⟨value', other⟩ := findIdx_holds found
      rw [once i j key value value' held other]

theorem find_of_holds (once : Once table) (held : Holds table i key value) :
    table.find? (isKey key) = some (some (key, value)) := by
  cases found : table.find? (isKey key) with
  | none =>
      have miss := List.find?_eq_none.mp found _ (List.mem_of_getElem? held)
      exact absurd (Iff.mpr isKey_iff ⟨value, rfl⟩) miss
  | some entry =>
      obtain ⟨value', rfl⟩ := Iff.mp isKey_iff (List.find?_some found)
      obtain ⟨j, other⟩ := List.mem_iff_getElem?.mp (List.mem_of_find?_eq_some found)
      have same := once i j key value value' held other
      subst same
      exact (held.symm.trans other).symm ▸ rfl

theorem find_of_absent (absent : ∀ i value, ¬ Holds table i key value) :
    table.find? (isKey key) = none := by
  rw [List.find?_eq_none]
  intro entry member hit
  obtain ⟨value, rfl⟩ := Iff.mp isKey_iff hit
  obtain ⟨j, held⟩ := List.mem_iff_getElem?.mp member
  exact absent j value held

end R2Apps.SlotTables
