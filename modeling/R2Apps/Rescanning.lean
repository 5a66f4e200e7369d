import Mathlib.Data.List.Basic

/-! Two ways to run a scanner over bytes that arrive one at a time: step it, or
keep what has arrived since the last event in a bounded buffer and scan that
again at every byte. They agree until the buffer is full. -/
namespace R2Apps.Rescanning

variable {State Item Event : Type} (scan : State → Item → State ⊕ Event) (start : State)

/-- The first event, or the state when there was none. -/
def rescan (state : State) : List Item → State ⊕ Event
  | [] => .inl state
  | item :: rest => match scan state item with
    | .inl next => rescan next rest
    | .inr event => .inr event

def stepped (state : State) (item : Item) : Option Event × State :=
  match scan state item with
  | .inl next => (none, next)
  | .inr event => (some event, start)

/-- An item that does not fit is dropped. -/
def kept (limit : Nat) (buffer : List Item) (item : Item) : List Item :=
  if buffer.length < limit then buffer ++ [item] else buffer

def buffered (limit : Nat) (buffer : List Item) (item : Item) : Option Event × List Item :=
  match rescan scan start (kept limit buffer item) with
  | .inl _ => (none, kept limit buffer item)
  | .inr event => (some event, [])

/-- The events of a whole stream, and the state after it. -/
def events {Memory : Type} (step : Memory → Item → Option Event × Memory) (memory : Memory) :
    List Item → List Event × Memory
  | [] => ([], memory)
  | item :: rest =>
      let (event, next) := step memory item
      let (later, last) := events step next rest
      (event.toList ++ later, last)

/-- Each item finds room in the buffer. -/
def Roomy (limit : Nat) (buffer : List Item) : List Item → Prop
  | [] => True
  | item :: rest => buffer.length < limit ∧ Roomy limit (buffered scan start limit buffer item).2 rest

section Agreement
variable {scan start} {limit : Nat} {buffer : List Item} {state : State}

theorem rescan_append (state : State) (buffer : List Item) (more : List Item) :
    rescan scan state (buffer ++ more) = match rescan scan state buffer with
      | .inl next => rescan scan next more
      | .inr event => .inr event := by
  induction buffer generalizing state with
  | nil => rfl
  | cons item rest ih =>
      simp only [List.cons_append, rescan]
      cases scan state item with
      | inl next => exact ih next
      | inr event => rfl

theorem buffered_follows (quiet : rescan scan start buffer = .inl state) (room : buffer.length < limit)
    (item : Item) :
    (buffered scan start limit buffer item).1 = (stepped scan start state item).1 ∧
    rescan scan start (buffered scan start limit buffer item).2 =
      .inl (stepped scan start state item).2 := by
  have again : rescan scan start (buffer ++ [item]) = scan state item := by
    rw [rescan_append, quiet]
    simp only [rescan]
    cases scan state item <;> rfl
  simp only [buffered, kept, if_pos room, again, stepped]
  cases found : scan state item with
  | inl next => exact ⟨rfl, again.trans found⟩
  | inr event => exact ⟨rfl, rfl⟩

theorem buffered_events (stream : List Item) (quiet : rescan scan start buffer = .inl state)
    (roomy : Roomy scan start limit buffer stream) :
    (events (buffered scan start limit) buffer stream).1 =
      (events (stepped scan start) state stream).1 ∧
    rescan scan start (events (buffered scan start limit) buffer stream).2 =
      .inl (events (stepped scan start) state stream).2 := by
  induction stream generalizing buffer state with
  | nil => exact ⟨rfl, quiet⟩
  | cons item rest ih =>
      obtain ⟨room, later⟩ := roomy
      obtain ⟨same, follows⟩ := buffered_follows quiet room item
      obtain ⟨tail, last⟩ := ih follows later
      simp only [events]
      exact ⟨by rw [same, tail], last⟩

theorem buffered_full (stream : List Item) (quiet : rescan scan start buffer = .inl state)
    (full : limit ≤ buffer.length) :
    events (buffered scan start limit) buffer stream = ([], buffer) := by
  induction stream with
  | nil => rfl
  | cons item rest ih =>
      have still : buffered scan start limit buffer item = (none, buffer) := by
        simp only [buffered, kept, if_neg (Nat.not_lt.mpr full), quiet]
      simp only [events, still, ih, Option.toList_none, List.nil_append]

theorem events_append {Memory : Type} (step : Memory → Item → Option Event × Memory) (memory : Memory)
    (first second : List Item) :
    events step memory (first ++ second) =
      ((events step memory first).1 ++ (events step (events step memory first).2 second).1,
        (events step (events step memory first).2 second).2) := by
  induction first generalizing memory with
  | nil => rfl
  | cons item rest ih =>
      simp only [List.cons_append, events, ih, List.append_assoc]

theorem events_filter {Memory Seen : Type} (step : Memory → Item → Option Event × Memory)
    (select : Event → Option Seen) (memory : Memory) (stream : List Item) :
    events (fun memory item => ((step memory item).1.bind select, (step memory item).2)) memory stream =
      ((events step memory stream).1.filterMap select, (events step memory stream).2) := by
  induction stream generalizing memory with
  | nil => rfl
  | cons item rest ih =>
      simp only [events, ih, List.filterMap_append]
      cases (step memory item).1 with
      | none => rfl
      | some event => cases found : select event <;> simp [found]

theorem full_of_not_roomy (stream : List Item) (quiet : rescan scan start buffer = .inl state)
    (cramped : ¬Roomy scan start limit buffer stream) :
    ∃ before item after, stream = before ++ item :: after ∧ Roomy scan start limit buffer before ∧
      limit ≤ (events (buffered scan start limit) buffer before).2.length := by
  induction stream generalizing buffer state with
  | nil => exact absurd trivial cramped
  | cons item rest ih =>
      by_cases room : buffer.length < limit
      · have later : ¬Roomy scan start limit (buffered scan start limit buffer item).2 rest :=
          fun roomy => cramped ⟨room, roomy⟩
        obtain ⟨before, last, after, rfl, roomy, full⟩ := ih (buffered_follows quiet room item).2 later
        exact ⟨item :: before, last, after, rfl, ⟨room, roomy⟩, full⟩
      · exact ⟨[], item, rest, rfl, trivial, Nat.not_lt.mp room⟩

theorem buffered_quiet (stream : List Item) (quiet : ∃ state, rescan scan start buffer = .inl state) :
    ∃ state, rescan scan start (events (buffered scan start limit) buffer stream).2 = .inl state := by
  induction stream generalizing buffer with
  | nil => exact quiet
  | cons item rest ih =>
      simp only [events]
      apply ih
      unfold buffered
      cases found : rescan scan start (kept limit buffer item) with
      | inl next => exact ⟨next, found⟩
      | inr event => exact ⟨start, rfl⟩

theorem stepped_quiet (stream : List Item) {last : State} (quiet : rescan scan state stream = .inl last) :
    events (stepped scan start) state stream = ([], last) := by
  induction stream generalizing state with
  | nil =>
      rw [rescan] at quiet
      rw [events, Sum.inl.inj quiet]
  | cons item rest ih =>
      rw [rescan] at quiet
      cases found : scan state item with
      | inl next =>
          rw [found] at quiet
          simp only [events, stepped, found, ih quiet, Option.toList_none, List.nil_append]
      | inr event =>
          rw [found] at quiet
          contradiction

theorem roomy_append (first second : List Item) :
    Roomy scan start limit buffer (first ++ second) ↔ Roomy scan start limit buffer first ∧
      Roomy scan start limit (events (buffered scan start limit) buffer first).2 second := by
  induction first generalizing buffer with
  | nil => simp [Roomy, events]
  | cons item rest ih =>
      simp only [List.cons_append, Roomy, events, ih, and_assoc]

theorem kept_length (item : Item) : (kept limit buffer item).length ≤ buffer.length + 1 := by
  unfold kept
  split
  · simp
  · omega

theorem roomy_of_short (stream : List Item) (short : buffer.length + stream.length ≤ limit) :
    Roomy scan start limit buffer stream := by
  induction stream generalizing buffer with
  | nil => trivial
  | cons item rest ih =>
      simp only [List.length_cons] at short
      refine ⟨by omega, ih ?_⟩
      have grown : (kept limit buffer item).length ≤ buffer.length + 1 := kept_length item
      unfold buffered
      cases rescan scan start (kept limit buffer item) with
      | inl next =>
          simp only
          omega
      | inr event =>
          simp only [List.length_nil]
          omega

theorem buffered_grows (stream : List Item) (quiet : ∃ last, rescan scan start (buffer ++ stream) = .inl last)
    (roomy : Roomy scan start limit buffer stream) :
    (events (buffered scan start limit) buffer stream).2 = buffer ++ stream := by
  induction stream generalizing buffer with
  | nil => simp [events]
  | cons item rest ih =>
      obtain ⟨room, later⟩ := roomy
      have split : buffer ++ item :: rest = (buffer ++ [item]) ++ rest := by simp
      rw [split] at quiet ⊢
      have still : buffered scan start limit buffer item = (none, buffer ++ [item]) := by
        obtain ⟨last, is⟩ := quiet
        rw [rescan_append] at is
        simp only [buffered, kept, if_pos room]
        cases found : rescan scan start (buffer ++ [item]) with
        | inl next => rfl
        | inr event =>
            rw [found] at is
            contradiction
      simp only [events, still]
      rw [still] at later
      exact ih quiet later

theorem last_of_cramped (stream : List Item) (last : Item) (quiet : rescan scan start buffer = .inl state)
    (cramped : ¬Roomy scan start limit buffer (stream ++ [last])) :
    (buffered scan start limit (events (buffered scan start limit) buffer stream).2 last).1 = none := by
  induction stream generalizing buffer state with
  | nil =>
      have full : ¬buffer.length < limit := fun room => cramped ⟨room, trivial⟩
      have dropped : kept limit buffer last = buffer := if_neg full
      simp only [events, buffered, dropped, quiet]
  | cons item rest ih =>
      by_cases room : buffer.length < limit
      · simp only [events]
        exact ih (buffered_follows quiet room item).2 fun roomy => cramped ⟨room, roomy⟩
      · rw [buffered_full (item :: rest) quiet (Nat.not_lt.mp room)]
        simp only [buffered, kept, if_neg room, quiet]

theorem last_of_roomy (stream : List Item) (last : Item) (quiet : rescan scan start buffer = .inl state)
    (roomy : Roomy scan start limit buffer (stream ++ [last])) :
    (buffered scan start limit (events (buffered scan start limit) buffer stream).2 last).1 =
      (stepped scan start (events (stepped scan start) state stream).2 last).1 := by
  obtain ⟨before, room, -⟩ := (roomy_append stream [last]).mp roomy
  exact (buffered_follows (buffered_events stream quiet before).2 room last).1

end Agreement

end R2Apps.Rescanning
