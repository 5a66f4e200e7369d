import R2Apps.MementoQueue

/-! A drain comes to its end, whatever the host does in between: each step that takes it on leaves fewer to
go. When it has returned, the callback has been given all that was accepted when it was called. -/
namespace R2Apps.MementoDrains
open MementoBlock MementoSnapshots MementoQueue

variable {W : Nat}

/-- Reading head and tail, and for each command its two words, three more steps and the callback's return. -/
def drainSteps : Nat := 2 + 6 * 32

/-- The event takes the drain a step on: in a copy, a word that is not there yet, or what comes after both. -/
def furthers (s : State W) : Event W → Bool
  | .client c =>
      match s.client.pc with
      | .drain (.copy _ _ _ done) =>
          match c with
          | .half i => !done i
          | .next => decide (∀ i, done i = true)
          | .word _ => false
      | .drain _ => true
      | _ => false
  | .callbackReturns => s.client.loop.isSome && s.free
  | _ => false

def furthered : State W → List (Event W) → Nat
  | _, [] => 0
  | s, e :: rest => (furthers s e).toNat + furthered (s.step e) rest

def missing (done : Fin 2 → Bool) : Nat := (!done 0).toNat + (!done 1).toNat

/-- The steps that the drain has still to take at most. -/
def toGo (s : State W) : Nat :=
  match s.client.loop with
  | some _ => 1 + 6 * (s.entry - s.taken)
  | none =>
      match s.client.pc with
      | .drain .head => drainSteps
      | .drain (.tail _) => 1 + 6 * (s.entry - s.taken)
      | .drain (.copy _ _ _ done) => 4 + missing done + 6 * (s.entry - s.taken - 1)
      | .drain (.store _ _ _) => 3 + 6 * (s.entry - s.taken - 1)
      | .drain (.handle _ _ _) => 2 + 6 * (s.entry - s.taken)
      | _ => 0

theorem missing_also (done : Fin 2 → Bool) (i : Fin 2) :
    missing (alsoDone done i) + (!done i).toNat = missing done := by
  obtain rfl | rfl : i = 0 ∨ i = 1 := by omega
  · simp [missing, alsoDone, Nat.add_comm]
  · simp [missing, alsoDone]

/-! ## One step -/

/-- What no step of the host changes, and no step of a call in a callback. -/
structure Beside (s t : State W) : Prop where
  loop : t.client.loop = s.client.loop
  taken : t.taken = s.taken
  entry : t.entry = s.entry
  called : t.called = s.called
  finished : t.finished = s.finished

theorem Beside.refl (s : State W) : Beside s s := ⟨rfl, rfl, rfl, rfl, rfl⟩

/-- The drain goes on. -/
structure Still (s t : State W) (steps : Nat) : Prop where
  draining : t.draining = true
  called : t.called = s.called
  finished : t.finished = s.finished
  fewer : toGo t + steps ≤ toGo s

structure Ends (s t : State W) : Prop where
  rests : t.draining = false
  called : t.called = s.called
  finished : t.finished = s.finished
  all : t.handled.length = t.entry

section Steps
variable {s t : State W}

theorem beside_loop (beside : Beside s t) (inside : s.client.loop.isSome = true) : Still s t 0 := by
  obtain ⟨loop, is⟩ := Option.isSome_iff_exists.mp inside
  refine ⟨?_, beside.called, beside.finished, ?_⟩
  · rw [State.draining, beside.loop, inside, Bool.true_or]
  · simp only [toGo, beside.loop, is, beside.entry, beside.taken]
    exact Nat.le_refl _

theorem beside_pc (beside : Beside s t) (drains : s.draining = true) (pc : t.client.pc = s.client.pc) :
    Still s t 0 := by
  refine ⟨?_, beside.called, beside.finished, ?_⟩
  · rw [State.draining, beside.loop, pc]
    exact drains
  · simp only [toGo, beside.loop, pc, beside.entry, beside.taken]
    exact Nat.le_refl _

theorem pollStep_beside (s : State W) (p : PollPc) : Beside s (s.pollStep p) := by
  cases p <;> simp only [State.pollStep]
  all_goals repeat' split
  all_goals exact ⟨rfl, rfl, rfl, rfl, rfl⟩

theorem publishStep_beside (s : State W) (c : Choice W) (p : PublishPc W) : Beside s (s.publishStep c p) := by
  cases p <;> simp only [State.publishStep]
  all_goals repeat' split
  all_goals exact ⟨rfl, rfl, rfl, rfl, rfl⟩

theorem hostStep_beside (s : State W) (c : Choice W) :
    Beside s (s.hostStep c) ∧ (s.hostStep c).client = s.client := by
  unfold State.hostStep
  split
  · exact ⟨Beside.refl s, rfl⟩
  · next p _ =>
    cases p <;> simp only [State.sendStep]
    all_goals repeat' split
    all_goals exact ⟨⟨rfl, rfl, rfl, rfl, rfl⟩, by trivial⟩
  · next r _ =>
    cases r <;> simp only [State.readStep]
    all_goals repeat' split
    all_goals exact ⟨⟨rfl, rfl, rfl, rfl, rfl⟩, by trivial⟩
  all_goals exact ⟨⟨rfl, rfl, rfl, rfl, rfl⟩, rfl⟩

theorem drainLoop_on {r : State W} {steps : Nat} (q : Queued s) (called : s.called = r.called)
    (finished : s.finished = r.finished) {head tail : UInt32}
    (counters : Counters s.taken s.entry s.sent.length head) (at_ : tail = UInt32.ofNat s.taken)
    (still : s.taken = s.handled.length) (fresh : s.client.loop = none)
    (fewer : 6 * (s.entry - s.taken) + steps ≤ toGo r) :
    Still r (s.drainLoop head tail) steps ∨ Ends r (s.drainLoop head tail) := by
  have close := q.close
  have behind := counters.behind
  have there := counters.there
  unfold State.drainLoop
  rw [counters.head, at_]
  split
  · next more =>
    rw [ofNat_ne_iff behind (by omega)] at more
    refine .inl ⟨Bool.or_true _, called, finished, ?_⟩
    have first : missing noneDone = 2 := rfl
    have next : toGo (s.setClient
      (.drain (.copy (UInt32.ofNat s.entry) (UInt32.ofNat s.taken) (fun _ => 0) noneDone))) =
        4 + 2 + 6 * (s.entry - s.taken - 1) := by
      simp only [toGo, State.setClient, fresh, first]
    rw [next]
    omega
  · next done =>
    rw [ofNat_ne_iff behind (by omega)] at done
    refine .inr ⟨rfl, called, finished, ?_⟩
    change s.handled.length = s.entry
    omega

theorem drainStep_on (q : Queued s) (c : Choice W) (d : DrainPc) (here : s.client.pc = .drain d) :
    Still s (s.drainStep c d) (furthers s (.client c)).toNat ∨ Ends s (s.drainStep c d) := by
  have ok := q.client
  have count := q.count
  have close := q.close
  have ordered := q.ordered
  rw [here] at ok count
  obtain ⟨ok, fresh⟩ := ok
  -- a place is worth the steps that are left of the drain from there
  have before : toGo s = match d with
      | .head => drainSteps
      | .tail _ => 1 + 6 * (s.entry - s.taken)
      | .copy _ _ _ done => 4 + missing done + 6 * (s.entry - s.taken - 1)
      | .store _ _ _ => 3 + 6 * (s.entry - s.taken - 1)
      | .handle _ _ _ => 2 + 6 * (s.entry - s.taken) := by
    cases d <;> simp only [toGo, fresh, here]
  cases d with
  | head =>
      refine .inl ⟨Bool.or_true _, rfl, rfl, ?_⟩
      rw [before]
      simp only [State.drainStep, toGo, fresh, furthers, here, Bool.toNat_true, drainSteps]
      omega
  | tail head =>
      have counters : Counters s.taken s.entry s.sent.length head := ok
      have behind := counters.behind
      have there := counters.there
      simp only [State.drainStep, q.tail]
      rw [counters.head, if_neg (size_lt_iff behind (by omega))]
      refine drainLoop_on q rfl rfl ⟨rfl, behind, there⟩ rfl count fresh ?_
      rw [before]
      simp only [furthers, here, Bool.toNat_true]
      omega
  | copy head tail got done =>
      obtain ⟨counters, at_, more, far⟩ := ok
      have drains : s.draining = true := by
        rw [State.draining, here, Bool.or_true]
      cases c with
      | word i =>
          simp only [furthers, here]
          exact .inl (beside_pc (Beside.refl s) drains rfl)
      | half i =>
          refine .inl ⟨Bool.or_true _, rfl, rfl, ?_⟩
          -- a half copied again brings the drain no further, and is not counted
          have fewer := missing_also done i
          rw [before]
          simp only [State.drainStep, State.setClient, toGo, fresh, furthers, here]
          omega
      | next =>
          simp only [State.drainStep, furthers, here]
          split
          · next all =>
            refine .inl ⟨Bool.or_true _, rfl, rfl, ?_⟩
            have none_ : missing done = 0 := by
              simp [missing, all]
            rw [before]
            simp only [State.setClient, toGo, fresh, all, none_, implies_true, decide_true, Bool.toNat_true]
            omega
          · next some_ =>
            have not_ : ¬ ∀ i, done i = true := some_
            rw [decide_eq_false not_]
            exact .inl (beside_pc (Beside.refl s) drains rfl)
  | store head tail command =>
      have more := ok.2.2.1
      refine .inl ⟨Bool.or_true _, rfl, rfl, ?_⟩
      rw [before]
      simp only [State.drainStep, toGo, fresh, furthers, here, Bool.toNat_true]
      omega
  | handle head tail command =>
      refine .inl ⟨rfl, rfl, rfl, ?_⟩
      rw [before]
      simp only [State.drainStep, toGo, furthers, here, Bool.toNat_true]
      omega

theorem still_touching {touched : Bool} {steps : Nat} (on : Still s t steps ∨ Ends s t) :
    Still s { t with touched := touched } steps ∨ Ends s { t with touched := touched } := by
  rcases on with still | ends
  · exact .inl ⟨still.draining, still.called, still.finished, still.fewer⟩
  · exact .inr ⟨ends.rests, ends.called, ends.finished, ends.all⟩

theorem clientStep_on (q : Queued s) (drains : s.draining = true) (c : Choice W) :
    Still s (s.clientStep c) (furthers s (.client c)).toNat ∨ Ends s (s.clientStep c) := by
  have inside (pc : ∀ d, s.client.pc ≠ .drain d) : s.client.loop.isSome = true := by
    rw [State.draining, Bool.or_eq_true] at drains
    rcases drains with loop | drain
    · exact loop
    · split at drain
      · next d here => exact absurd here (pc d)
      · cases drain
  unfold State.clientStep
  split
  · next here =>
    rw [show furthers s (.client c) = false by simp only [furthers, here]]
    exact .inl (beside_pc (Beside.refl s) drains rfl)
  · next p here =>
    rw [show furthers s (.client c) = false by simp only [furthers, here]]
    exact still_touching (.inl (beside_loop (pollStep_beside s p) (inside (by rw [here]; rintro _ ⟨⟩))))
  · next here => exact drainStep_on q c _ here
  · next d _ here => exact still_touching (drainStep_on q c d here)
  · next p here =>
    rw [show furthers s (.client c) = false by simp only [furthers, here]]
    exact still_touching (.inl (beside_loop (publishStep_beside s c p) (inside (by rw [here]; rintro _ ⟨⟩))))
  · next reason here =>
    rw [show furthers s (.client c) = false by simp only [furthers, here]]
    exact .inl (beside_loop ⟨rfl, rfl, rfl, rfl, rfl⟩ (inside (by rw [here]; rintro _ ⟨⟩)))
  · next here =>
    rw [show furthers s (.client c) = false by simp only [furthers, here]]
    exact .inl (beside_loop ⟨rfl, rfl, rfl, rfl, rfl⟩ (inside (by rw [here]; rintro _ ⟨⟩)))

theorem act_on (q : Queued s) (drains : s.draining = true) (e : Event W) :
    Still s (s.act e) (furthers s e).toNat ∨ Ends s (s.act e) := by
  have stays : Still s s 0 := beside_pc (Beside.refl s) drains rfl
  have inside (idle : s.client.pc = .idle) : s.client.loop.isSome = true := by
    rw [State.draining, idle, Bool.or_false] at drains
    exact drains
  have hostCall (pc : HostPc W) : Still s (s.setHost pc) 0 := beside_pc ⟨rfl, rfl, rfl, rfl, rfl⟩ drains rfl
  cases e with
  | poll now | publish now =>
      simp only [State.act]
      split
      · next running => exact .inl (beside_loop ⟨rfl, rfl, rfl, rfl, rfl⟩ (inside (running_free running)))
      · exact .inl stays
  | drain =>
      simp only [State.act]
      split
      · next fresh =>
        -- no drain begins while one runs
        have loop := inside (running_free fresh.1)
        rw [fresh.2] at loop
        cases loop
      · exact .inl stays
  | close =>
      simp only [State.act]
      split
      · next fresh =>
        have loop := inside (free_pc fresh.1)
        rw [fresh.2.2] at loop
        cases loop
      · exact .inl stays
  | callbackReturns =>
      simp only [State.act]
      split
      · next head tail loop =>
        split
        · next free =>
          -- the loop goes on where the callback left it
          have idle := free_pc free
          obtain ⟨counters, place⟩ := q.loop head tail loop
          have count := q.count
          rw [idle] at count
          have fresh : Queued ({ s with client := { s.client with loop := none } } : State W) := by
            refine ⟨q.head, q.tail, q.ordered, q.close, q.slots, q.handled, q.count, q.entered,
              by rintro _ _ ⟨⟩, ?_,
              q.sending, q.reason⟩
            simp only [idle]
            exact trivial
          have steps : (furthers s (.callbackReturns : Event W)).toNat = 1 := by
            rw [furthers, loop, free]
            rfl
          rw [steps]
          have before : toGo s = 1 + 6 * (s.entry - s.taken) := by simp only [toGo, loop]
          have fewer : 6 * (s.entry - s.taken) + 1 ≤ toGo s := by omega
          exact drainLoop_on (r := s) fresh rfl rfl counters place count rfl fewer
        · next free =>
          have steps : (furthers s (.callbackReturns : Event W)).toNat = 0 := by
            rw [furthers, Bool.eq_false_iff.mpr free, Bool.and_false]
            rfl
          rw [steps]
          exact .inl stays
      · next loop =>
        have steps : (furthers s (.callbackReturns : Event W)).toNat = 0 := by
          rw [furthers, loop]
          rfl
        rw [steps]
        exact .inl stays
  | client c => exact clientStep_on q drains c
  | send _ | read | keepAlive | requestClose =>
      simp only [State.act]
      split
      · exact .inl (hostCall _)
      · exact .inl stays
  | host c =>
      obtain ⟨beside, client⟩ := hostStep_beside s c
      exact .inl (beside_pc beside drains (congrArg _ client))

end Steps

/-! ## Runs -/

/-- A drain has returned: the callback has been given what was accepted when it was called, and all that
was there when it read the head. -/
structure Returned (called : Nat) (before : List Drained) (t : State W) : Prop where
  rests : t.draining = false
  noted : t.finished = before ++ [⟨called, t.handled.length, t.handled.length⟩]
  enough : called ≤ t.handled.length

section Runs
variable {s : State W}

theorem step_on (q : Queued s) (drains : s.draining = true) (e : Event W) :
    Still s (s.step e) (furthers s e).toNat ∨ Returned s.called s.finished (s.step e) := by
  have entered := (act_queued q e).entered.1
  simp only [State.step, drains, Bool.true_and]
  rcases act_on q drains e with still | ends
  · rw [still.draining, Bool.not_true, if_neg Bool.false_ne_true]
    exact .inl still
  · rw [ends.rests, Bool.not_false, if_pos rfl]
    refine .inr ⟨ends.rests, ?_, ?_⟩
    · simp only [ends.finished, ends.called, ends.all]
    · rw [← ends.called]
      exact Nat.le_trans entered (Nat.le_of_eq ends.all.symm)

theorem toGo_pos (drains : s.draining = true) : 0 < toGo s := by
  unfold toGo
  split
  · omega
  · next loop =>
    rw [State.draining, loop] at drains
    cases here : s.client.pc with
    | drain d => cases d <;> simp only [drainSteps] <;> omega
    | _ =>
        rw [here] at drains
        cases drains

theorem drain_run (events : List (Event W)) : ∀ {s : State W}, Queued s → s.draining = true →
    ((s.run events).draining = true ∧ furthered s events < toGo s) ∨
      ∃ before after, events = before ++ after ∧ Returned s.called s.finished (s.run before) := by
  induction events with
  | nil => exact fun _ drains => .inl ⟨drains, toGo_pos drains⟩
  | cons e rest ih =>
      intro s q drains
      rcases step_on q drains e with still | returned
      · rcases ih (step_queued q e) still.draining with ⟨going, few⟩ | ⟨before, after, split, returned⟩
        · have fewer := still.fewer
          refine .inl ⟨going, ?_⟩
          simp only [furthered]
          omega
        · rw [still.called, still.finished] at returned
          exact .inr ⟨e :: before, after, congrArg _ split, returned⟩
      · exact .inr ⟨[e], rest, rfl, returned⟩

theorem drainStep_finished (s : State W) (c : Choice W) (d : DrainPc) :
    (s.drainStep c d).finished = s.finished := by
  cases d <;> simp only [State.drainStep, State.drainLoop]
  all_goals repeat' split
  all_goals rfl

theorem clientStep_finished (s : State W) (c : Choice W) : (s.clientStep c).finished = s.finished := by
  unfold State.clientStep
  split
  · rfl
  · next p _ => exact (pollStep_beside s p).finished
  · exact drainStep_finished s c _
  · next d _ _ => exact drainStep_finished s c d
  · next p _ => exact (publishStep_beside s c p).finished
  · rfl
  · rfl

theorem act_finished (s : State W) (e : Event W) : (s.act e).finished = s.finished := by
  cases e with
  | client c => exact clientStep_finished s c
  | host c => exact (hostStep_beside s c).1.finished
  | callbackReturns =>
      simp only [State.act, State.drainLoop]
      repeat' split
      all_goals rfl
  | _ =>
      simp only [State.act]
      split
      all_goals rfl

/-- Every drain that has returned handed over what it had to. -/
def HandedOver (s : State W) : Prop := ∀ d ∈ s.finished, d.called ≤ d.handled ∧ d.handled = d.entry

theorem step_handed (q : Queued s) (handed : HandedOver s) (e : Event W) : HandedOver (s.step e) := by
  by_cases drains : s.draining = true
  · rcases step_on q drains e with still | returned
    · rw [HandedOver, still.finished]
      exact handed
    · rw [HandedOver, returned.noted]
      intro d member
      rcases List.mem_append.mp member with old | new
      · exact handed d old
      · obtain rfl := List.mem_singleton.mp new
        exact ⟨returned.enough, rfl⟩
  · simp only [State.step, drains, Bool.false_and, Bool.false_eq_true, if_false]
    rw [HandedOver, act_finished]
    exact handed

theorem run_handed (events : List (Event W)) :
    ∀ {s : State W}, Queued s → HandedOver s → HandedOver (s.run events) := by
  induction events with
  | nil => exact fun _ handed => handed
  | cons e rest ih => exact fun q handed => ih (step_queued q e) (step_handed q handed e)

theorem call_drains (running : s.running = true) (fresh : s.client.loop = none) :
    (s.step .drain).draining = true ∧ (s.step .drain).called = s.sent.length ∧
      (s.step .drain).finished = s.finished ∧ toGo (s.step .drain) = drainSteps := by
  have rests : s.draining = false := by
    rw [State.draining, fresh, running_free running]
    rfl
  have called : s.step .drain = { s with
      client := { s.client with pc := .drain .head }, called := s.sent.length, entry := s.sent.length } := by
    simp only [State.step, State.act, rests, Bool.false_and, Bool.false_eq_true, if_false]
    rw [if_pos ⟨running, fresh⟩]
  rw [called]
  refine ⟨Bool.or_true _, rfl, rfl, ?_⟩
  simp only [toGo, fresh]

end Runs

/-! ## The protocol -/

/-- What the block promises to both sides. -/
structure Safe (s : State W) : Prop where
  /-- What `read` returned is a snapshot that was published, and its number says which. -/
  whole : ∀ r ∈ s.returned, s.published[r.1]? = some r.2
  newer : s.returned.Pairwise fun r q => r.1 ≤ q.1
  inOrder : s.handled = s.sent.take s.handled.length
  drained : HandedOver s
  present : ∀ head tail command, s.client.pc = .drain (.handle head tail command) → s.handled.length < s.entry
  /-- A command that has not been read is still in its slot. -/
  unread : ∀ k, s.taken ≤ k → ∀ c, s.sent[k]? = some c → s.block.commands (slot k) = c
  bounded : s.client.reason ≠ .badQueue
  quiet : s.touched = false

theorem run_safe (W : Nat) (beat : UInt32) (now : UInt64) (events : List (Event W)) :
    Safe ((connected W beat now).run events) := by
  have p := run_published events (connected_published beat now)
  have q := run_queued events (connected_queued beat now)
  have handed := run_handed events (connected_queued (W := W) beat now) (by rintro d ⟨⟩)
  refine ⟨p.returned, p.sorted, q.handled, handed, ?_, q.slots, q.reason, ?_⟩
  · intro head tail command here
    have ok := q.client
    have count := q.count
    rw [here] at ok count
    have behind := ok.1.1.behind
    simp only [handing] at count
    omega
  · exact (run_quiet events (connected_quiet beat now)).untouched

/-- In every state of every run the block is safe, and a drain that is called there returns by the time it
has taken `drainSteps` steps, whatever happens in between, with all that had been accepted. -/
theorem shared_block_safe (W : Nat) (beat : UInt32) (now : UInt64) (events : List (Event W)) :
    let s := (connected W beat now).run events
    Safe s ∧ (s.running = true → s.client.loop = none → ∀ more,
      (((s.step .drain).run more).draining = true ∧ furthered (s.step .drain) more < drainSteps) ∨
        ∃ before after, more = before ++ after ∧
          Returned s.sent.length s.finished ((s.step .drain).run before)) := by
  refine ⟨run_safe W beat now events, fun running fresh more => ?_⟩
  have q := run_queued events (connected_queued beat now)
  obtain ⟨drains, called, finished, steps⟩ := call_drains running fresh
  have run := drain_run more (step_queued q .drain) drains
  rw [called, finished, steps] at run
  exact run

/-! A host sends two commands and reads a snapshot; a third command comes while the first is handled. -/

def pair (operation value : UInt32) : Command := fun i => if i = 0 then operation else value

def sending (command : Command) : List (Event 1) :=
  [.send command, .host .next, .host .next, .host .next, .host (.half 1), .host (.half 0),
    .host .next, .host .next]

def opening : List (Event 1) := sending (pair 7 1) ++ sending (pair 8 2) ++
  [.publish (fun _ => 42), .client .next, .client .next, .client (.word 0), .client .next,
    .client .next, .client .next,
    .read, .host .next, .host .next, .host .next, .host .next, .host (.word 0), .host .next, .host .next]

def draining : List (Event 1) :=
  [.client .next, .client .next, .client (.half 0), .client (.half 1), .client .next, .client .next,
    .client .next] ++
  sending (pair 9 3) ++
  [.callbackReturns, .client (.half 0), .client (.half 1), .client .next, .client .next,
    .client .next, .callbackReturns]

set_option maxRecDepth 8000 in
theorem two_commands_handed_over :
    let s := (connected 1 1 0).run opening
    s.returned.map (fun r => (r.1, r.2 0)) = [(0, 42)] ∧
      (((s.step .drain).run draining).handled.map fun c => (c 0, c 1)) = [(7, 1), (8, 2)] ∧
      ∃ before after, draining = before ++ after ∧ Returned 2 [] ((s.step .drain).run before) := by
  refine ⟨by decide, by decide, ?_⟩
  rcases (shared_block_safe 1 1 0 opening).2 (by decide) (by decide) draining with ⟨going, _⟩ | returned
  · exact absurd going (by decide)
  · exact returned

end R2Apps.MementoDrains
