import Mathlib.Algebra.Ring.Nat

/-! Programs that read a byte string and may give up with a reason. A read outside
has no result at all, so a program that always has one reads inside only; a loop
that runs out of turns has none either. -/
namespace R2Apps.PartialReads

abbrev Bytes := List UInt8

/-- `none` is a read outside, `error` the program's own refusal. -/
abbrev Reading (ε α : Type) := ExceptT ε Option α

section Accesses
variable {ε : Type}

/-- No result: outside the string, or for ever. -/
def outside {α : Type} : Reading ε α := ExceptT.mk none

def bytesAt (file : Bytes) (i count : Nat) : Reading ε Bytes :=
  if i + count ≤ file.length then pure ((file.drop i).take count) else outside

/-- The number that the bytes are, the first one the highest. -/
def bigEndian (bytes : Bytes) : Nat := bytes.foldl (fun v b => 256 * v + b.toNat) 0

def valueAt (file : Bytes) (i count : Nat) : Nat := bigEndian ((file.drop i).take count)

def be (file : Bytes) (i count : Nat) : Reading ε Nat := bigEndian <$> bytesAt file i count

end Accesses

section Rules
variable {ε α β : Type}

/-- The program has a result, and `P` holds of what it comes to unless it gives up. -/
def Yields (x : Reading ε α) (P : α → Prop) : Prop := ∃ r, x.run = some r ∧ ∀ a, r = .ok a → P a

theorem Yields.has {x : Reading ε α} {P : α → Prop} (yields : Yields x P) : ∃ r, x.run = some r := by
  obtain ⟨r, is, -⟩ := yields
  exact ⟨r, is⟩

theorem Yields.of_run {x : Reading ε α} {P : α → Prop} {a : α} (yields : Yields x P)
    (is : x.run = some (.ok a)) :
    P a := by
  obtain ⟨r, runs, holds⟩ := yields
  exact holds a (Option.some.inj (runs.symm.trans is))

theorem Yields.pure {P : α → Prop} {a : α} (holds : P a) : Yields (pure a : Reading ε α) P := by
  refine ⟨.ok a, rfl, ?_⟩
  rintro _ ⟨⟩
  exact holds

theorem Yields.throw {P : α → Prop} (why : ε) : Yields (throw why : Reading ε α) P :=
  ⟨.error why, rfl, fun _ is => (nomatch is)⟩

theorem Yields.bind {x : Reading ε α} {f : α → Reading ε β} {P : α → Prop} {Q : β → Prop} (first : Yields x P)
    (next : ∀ a, P a → Yields (f a) Q) : Yields (x >>= f) Q := by
  obtain ⟨r, runs, holds⟩ := first
  cases r with
  | error why =>
    refine ⟨.error why, ?_, fun _ is => (nomatch is)⟩
    change (x.run >>= ExceptT.bindCont f) = _
    rw [runs]
    rfl
  | ok a =>
    obtain ⟨r, runs', holds'⟩ := next a (holds a rfl)
    refine ⟨r, ?_, holds'⟩
    change (x.run >>= ExceptT.bindCont f) = _
    rw [runs]
    exact runs'

theorem run_bind {x : Reading ε α} {f : α → Reading ε β} {a : α} (is : x.run = some (.ok a)) :
    (x >>= f).run = (f a).run := by
  change (x.run >>= ExceptT.bindCont f) = _
  rw [is]
  rfl

theorem run_of_result {x : Reading ε α} {a : α} (is : x.run.bind Except.toOption = some a) :
    x.run = some (.ok a) := by
  cases runs : x.run with
  | none => rw [runs] at is; exact (nomatch is)
  | some r =>
    rw [runs] at is
    cases r with
    | error why => exact (nomatch is)
    | ok b => rw [Option.some.inj is]

theorem Yields.itself {x : Reading ε α} {P : α → Prop} (yields : Yields x P) :
    Yields x fun a => P a ∧ x.run = some (.ok a) := by
  obtain ⟨r, runs, holds⟩ := yields
  refine ⟨r, runs, ?_⟩
  rintro a rfl
  exact ⟨holds a rfl, runs⟩

theorem Yields.map {x : Reading ε α} {f : α → β} {P : α → Prop} {Q : β → Prop} (first : Yields x P)
    (next : ∀ a, P a → Q (f a)) : Yields (f <$> x) Q := by
  rw [map_eq_pure_bind]
  exact first.bind fun a holds => Yields.pure (next a holds)

theorem Yields.mono {x : Reading ε α} {P Q : α → Prop} (yields : Yields x P) (weaker : ∀ a, P a → Q a) :
    Yields x Q := by
  obtain ⟨r, runs, holds⟩ := yields
  exact ⟨r, runs, fun a is => weaker a (holds a is)⟩

theorem Yields.ite {c : Prop} [Decidable c] {x y : Reading ε α} {P : α → Prop} (yes : c → Yields x P)
    (no : ¬c → Yields y P) : Yields (if c then x else y) P := by
  by_cases holds : c
  · rw [if_pos holds]
    exact yes holds
  · rw [if_neg holds]
    exact no holds

theorem bigEndian_lt (bytes : Bytes) : bigEndian bytes < 256 ^ bytes.length := by
  have grows (rest : Bytes) : ∀ v k, v < 256 ^ k →
      rest.foldl (fun v b => 256 * v + b.toNat) v < 256 ^ (k + rest.length) := by
    induction rest with
    | nil => exact fun v k small => small
    | cons b rest ih =>
      intro v k small
      have turn : 256 * v + b.toNat < 256 ^ (k + 1) := by
        have := b.toNat_lt
        rw [Nat.pow_succ]
        omega
      have := ih _ (k + 1) turn
      rw [List.length_cons, Nat.add_comm rest.length 1, ← Nat.add_assoc]
      exact this
  simpa [bigEndian] using grows bytes 0 0 (by decide)

theorem valueAt_lt (file : Bytes) (i count : Nat) : valueAt file i count < 256 ^ count := by
  have short : ((file.drop i).take count).length ≤ count := List.length_take_le ..
  exact Nat.lt_of_lt_of_le (bigEndian_lt _) (Nat.pow_le_pow_right (by decide) short)

theorem Yields.be {file : Bytes} {i count : Nat} (inside : i + count ≤ file.length) :
    Yields (be file i count : Reading ε Nat) (· = valueAt file i count) := by
  refine ⟨.ok (valueAt file i count), ?_, ?_⟩
  · unfold PartialReads.be bytesAt
    rw [if_pos inside]
    rfl
  · rintro _ ⟨⟩
    rfl

end Rules

end R2Apps.PartialReads
