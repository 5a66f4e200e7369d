import Mathlib.Data.Nat.Bitwise
import Mathlib.Data.List.Perm.Subperm
import R2Apps.Rings

/-! The history of `c/libcr2/metrics.c`: three archives of 300 rows, of one, ten
and sixty seconds a row. Every push goes to the first; the other two average
it. Sums are those of 64 bits; `next`, `count` and `seen` stay small. -/
namespace R2Apps.MetricsHistory
open R2Apps.Rings

abbrev metricsRows : Nat := 300
abbrev metricsArchives : Nat := 3
abbrev metricsHeartbeatMs : Nat := 3000
abbrev metricCount : Nat := 8

abbrev metricRxBps : Nat := 0
abbrev metricTxBps : Nat := 1
abbrev metricHeapUsed : Nat := 2
abbrev metricHeapSize : Nat := 3
abbrev metricTasks : Nat := 4
abbrev metricUserTasks : Nat := 5
abbrev metricRunnable : Nat := 6
abbrev metricBlocked : Nat := 7

abbrev word : Nat := 2 ^ 64

/-- `valid` has a bit for each series. -/
structure R2MetricsRow where
  timestampMs : Nat
  value : Nat → Nat
  valid : Nat

structure R2MetricsArchive extends RoundRobin R2MetricsRow where
  stepSeconds : Nat
  bucketMs : Nat
  quotient : Nat → Nat
  remainder : Nat → Nat
  seen : Nat → Nat

structure R2MetricsInput where
  timestampMs : UInt64
  netTimestampMs : UInt64
  rxBytes : UInt64
  txBytes : UInt64
  heapUsed : UInt64
  heapSize : UInt64
  tasks : UInt64
  userTasks : UInt64
  runnable : UInt64
  blocked : UInt64
  available : UInt32

structure R2Metrics where
  archive : Nat → R2MetricsArchive
  lastMs : Nat
  netMs : Nat
  rxBytes : Nat
  txBytes : Nat
  started : Bool
  haveNet : Bool

def steps : Nat → Nat
  | 0 => 1
  | 1 => 10
  | _ => 60

def emptyRow (timestampMs : Nat) : R2MetricsRow := { timestampMs, value := fun _ => 0, valid := 0 }

def setValue (row : R2MetricsRow) (i value : Nat) : R2MetricsRow :=
  { row with valid := row.valid ||| 1 <<< i, value := fun k => if k = i then value else row.value k }

def r2MetricsInit : R2Metrics :=
  { archive := fun a =>
      { rows := fun _ => emptyRow 0, next := 0, count := 0, stepSeconds := steps a, bucketMs := 0,
        quotient := fun _ => 0, remainder := fun _ => 0, seen := fun _ => 0 }
    lastMs := 0, netMs := 0, rxBytes := 0, txBytes := 0, started := false, haveNet := false }

def r2MetricsDue (db : R2Metrics) (nowMs : Nat) : Bool :=
  !db.started || nowMs < db.lastMs || nowMs / 1000 > db.lastMs / 1000

def r2MetricsRow (db : R2Metrics) (archive index : Nat) : Option R2MetricsRow :=
  if archive ≥ metricsArchives then none else (db.archive archive).row metricsRows index

def store (a : R2MetricsArchive) (row : R2MetricsRow) : R2MetricsArchive :=
  { a with toRoundRobin := a.toRoundRobin.store metricsRows row }

/-- `for (; begin < end; begin += step)`, for at most `fuel` rounds. -/
def fill (a : R2MetricsArchive) (step begin_ end_ : Nat) : Nat → R2MetricsArchive
  | 0 => a
  | fuel + 1 =>
      if begin_ < end_ then
        fill (store a (emptyRow begin_)) step ((begin_ + step) % word) end_ fuel
      else a

def gaps (a : R2MetricsArchive) (begin_ end_ : Nat) : R2MetricsArchive :=
  let step := a.stepSeconds * 1000
  if end_ ≤ begin_ then a
  else if (end_ - begin_) / step ≥ metricsRows then
    fill { a with next := 0, count := 0 } step (end_ - metricsRows * step) end_ (metricsRows + 1)
  else fill a step begin_ end_ (metricsRows + 1)

/-- The row of the bucket that ends; a series needs all its seconds. -/
def average (a : R2MetricsArchive) : R2MetricsRow :=
  (List.range metricCount).foldl
    (fun row i =>
      if a.seen i = a.stepSeconds then
        setValue row i ((a.quotient i + a.remainder i / a.stepSeconds) % word)
      else row)
    (emptyRow a.bucketMs)

def clear (a : R2MetricsArchive) : R2MetricsArchive :=
  { a with quotient := fun _ => 0, remainder := fun _ => 0, seen := fun _ => 0 }

/-- One second goes into the running bucket. -/
def accumulate (a : R2MetricsArchive) (row : R2MetricsRow) : R2MetricsArchive :=
  { a with
    quotient := fun i => if row.valid.testBit i then (a.quotient i + row.value i / a.stepSeconds) % word
      else a.quotient i
    remainder := fun i => if row.valid.testBit i then (a.remainder i + row.value i % a.stepSeconds) % word
      else a.remainder i
    seen := fun i => if row.valid.testBit i then a.seen i + 1 else a.seen i }

def consolidate (a : R2MetricsArchive) (row : R2MetricsRow) (first : Bool) : R2MetricsArchive :=
  let step := a.stepSeconds * 1000
  let bucket := row.timestampMs / step * step
  let a := if first then { a with bucketMs := bucket } else a
  let a :=
    if bucket ≠ a.bucketMs then
      { gaps (store (clear a) (average a)) ((a.bucketMs + step) % word) bucket with bucketMs := bucket }
    else a
  accumulate a row

def rate (delta elapsed : Nat) : Nat :=
  let whole := delta / elapsed
  let fraction := (delta % elapsed) * 1000 % word / elapsed
  let max := word - 1
  if whole > max / 1000 ∨ whole * 1000 > max - fraction then max else whole * 1000 + fraction

def metricsNet : UInt32 := 1
def metricsMemory : UInt32 := 2
def metricsTasks : UInt32 := 4

/-- The row of one push: rates need an earlier reading that is not too old. -/
def sample (db : R2Metrics) (input : R2MetricsInput) : R2MetricsRow :=
  let row := emptyRow (input.timestampMs.toNat / 1000 * 1000)
  let elapsed := input.netTimestampMs.toNat - db.netMs
  let row :=
    if input.available &&& metricsNet ≠ 0 ∧ db.haveNet ∧ input.netTimestampMs.toNat > db.netMs ∧
        elapsed ≤ metricsHeartbeatMs then
      let row :=
        if input.rxBytes.toNat ≥ db.rxBytes then
          setValue row metricRxBps (rate (input.rxBytes.toNat - db.rxBytes) elapsed)
        else row
      if input.txBytes.toNat ≥ db.txBytes then
        setValue row metricTxBps (rate (input.txBytes.toNat - db.txBytes) elapsed)
      else row
    else row
  let row :=
    if input.available &&& metricsMemory ≠ 0 then
      setValue (setValue row metricHeapUsed input.heapUsed.toNat) metricHeapSize input.heapSize.toNat
    else row
  if input.available &&& metricsTasks ≠ 0 then
    setValue (setValue (setValue (setValue row metricTasks input.tasks.toNat)
      metricUserTasks input.userTasks.toNat) metricRunnable input.runnable.toNat)
      metricBlocked input.blocked.toNat
  else row

/-- Whether the clock went back, which resets the history. -/
def rolledBack (db : R2Metrics) (input : R2MetricsInput) : Bool :=
  db.started && input.timestampMs.toNat < db.lastMs

/-- An accepted push, on a history that has been reset if it had to be. -/
def accept (db : R2Metrics) (input : R2MetricsInput) : R2Metrics :=
  let row := sample db input
  let archive := fun a =>
    if a = 0 then
      store (if db.started then
          gaps (db.archive 0) ((db.lastMs / 1000 * 1000 + 1000) % word) row.timestampMs
        else db.archive 0) row
    else if a < metricsArchives then consolidate (db.archive a) row (!db.started)
    else db.archive a
  { archive, lastMs := input.timestampMs.toNat, netMs := input.netTimestampMs.toNat
    rxBytes := input.rxBytes.toNat, txBytes := input.txBytes.toNat, started := true
    haveNet := input.available &&& metricsNet ≠ 0 }

def r2MetricsPush (db : R2Metrics) (input : R2MetricsInput) : Bool × R2Metrics :=
  if !r2MetricsDue db input.timestampMs.toNat then (false, db)
  else (true, accept (if rolledBack db input then r2MetricsInit else db) input)

/-! The pushes behind the rows. -/

structure Accepted where
  input : R2MetricsInput
  row : R2MetricsRow

/-- The history and the pushes it has accepted since it was last reset. -/
structure Log where
  db : R2Metrics
  accepted : List Accepted

def Log.rows (x : Log) : List R2MetricsRow := x.accepted.map Accepted.row

def fresh : Log := { db := r2MetricsInit, accepted := [] }

def rewound (x : Log) (input : R2MetricsInput) : Log := if rolledBack x.db input then fresh else x

def push (x : Log) (input : R2MetricsInput) : Log :=
  let (taken, db) := r2MetricsPush x.db input
  if taken then
    let x := rewound x input
    { db, accepted := x.accepted ++ [⟨input, sample x.db input⟩] }
  else { x with db }

def run (inputs : List R2MetricsInput) : Log := inputs.foldl push fresh

theorem push_cases (x : Log) (input : R2MetricsInput) :
    push x input = x ∨
    r2MetricsDue (rewound x input).db input.timestampMs.toNat = true ∧
    rolledBack (rewound x input).db input = false ∧
    push x input = { db := accept (rewound x input).db input,
                     accepted := (rewound x input).accepted ++
                       [⟨input, sample (rewound x input).db input⟩] } := by
  by_cases due : r2MetricsDue x.db input.timestampMs.toNat = true
  · right
    have pushed : r2MetricsPush x.db input = (true, accept (rewound x input).db input) := by
      simp only [r2MetricsPush, due, Bool.not_true, Bool.false_eq_true, if_false, rewound,
        apply_ite Log.db, fresh]
    refine ⟨?_, ?_, ?_⟩
    · unfold rewound
      split
      · rfl
      · exact due
    · unfold rewound
      split
      · rfl
      · rename_i kept
        simpa using kept
    · simp only [push, pushed, if_true]
  · left
    simp [push, r2MetricsPush, due]

theorem run_induction {P : Log → Prop} (initial : P fresh)
    (kept : ∀ x input, P x → r2MetricsDue x.db input.timestampMs.toNat = true →
      rolledBack x.db input = false →
      P { db := accept x.db input, accepted := x.accepted ++ [⟨input, sample x.db input⟩] })
    (inputs : List R2MetricsInput) : P (run inputs) := by
  suffices all : ∀ x, P x → P (inputs.foldl push x) from all fresh initial
  induction inputs with
  | nil => exact fun x holds => holds
  | cons input rest ih =>
      intro x holds
      apply ih
      rcases push_cases x input with same | ⟨due, forward, is⟩
      · rw [same]
        exact holds
      · rw [is]
        refine kept _ input ?_ due forward
        unfold rewound
        split
        · exact initial
        · exact holds

end R2Apps.MetricsHistory
