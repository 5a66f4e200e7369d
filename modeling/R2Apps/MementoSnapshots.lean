import R2Apps.MementoBlock

/-! The two buffers of the shared block: what `read` returns is a snapshot that was published whole, and
none is older than one before it. The reader's lease is set before it looks at `Front` again, and the
writer looks at the lease before it fills the other buffer. -/
namespace R2Apps.MementoSnapshots
open MementoBlock

variable {W : Nat}

/-- What a copy has done so far. -/
def SoFar {n : Nat} (source target : Words n) (done : Fin n → Bool) : Prop :=
  ∀ i, done i = true → target i = source i

theorem soFar_none {n : Nat} (source target : Words n) : SoFar source target noneDone := by
  rintro i ⟨⟩

theorem soFar_word {n : Nat} {source target : Words n} {done : Fin n → Bool} (far : SoFar source target done)
    (i : Fin n) : SoFar source (copyWord source target i) (alsoDone done i) := by
  intro j is
  by_cases same : j = i
  · subst same
    rw [copyWord, Function.update_self]
  · rw [copyWord, Function.update_of_ne same]
    rw [alsoDone, Function.update_of_ne same] at is
    exact far j is

theorem soFar_all {n : Nat} {source target : Words n} {done : Fin n → Bool} (far : SoFar source target done)
    (all : ∀ i, done i = true) : target = source :=
  funext fun i => far i (all i)

/-- Which of the two a number names. -/
def Buffer (n : UInt32) : Prop := n = 0 ∨ n = 1

theorem other_buffer {n : UInt32} (b : Buffer n) : Buffer (1 - n) ∧ 1 - n ≠ n := by
  rcases b with rfl | rfl <;> exact ⟨by unfold Buffer; decide, by decide⟩

/-- The writer's side. -/
def PublishOk (b : Block W) (published : List (Words W)) : PublishPc W → Prop
  | .front _ => True
  | .reading _ front => front = b.front
  | .copy snapshot back done => back = 1 - b.front ∧ SoFar snapshot (b.snapshots back) done
  | .store snapshot back => back = 1 - b.front ∧ b.snapshots back = snapshot
  | .add => published ≠ []

/-- The client is not filling this buffer. -/
def Untouched (pc : ClientPc W) (front : UInt32) : Prop :=
  ∀ snapshot back done, pc = .publish (.copy snapshot back done) → back ≠ front

/-- The reader's side. -/
def ReadOk (b : Block W) (published : List (Words W)) (returned : List (Nat × Words W)) (pc : ClientPc W) :
    ReadPc W → Prop
  | .frame => True
  | .front _ => published ≠ []
  | .lease _ front => published ≠ [] ∧ Buffer front
  | .check _ front => published ≠ [] ∧ Buffer front ∧ b.reading = front
  | .copy _ front number got done =>
      b.reading = front ∧ published[number]? = some (b.snapshots front) ∧ SoFar (b.snapshots front) got done ∧
        Untouched pc front ∧ ∀ r ∈ returned, r.1 ≤ number
  | .release ready => ∀ r, ready = some r → published[r.1]? = some r.2 ∧ ∀ q ∈ returned, q.1 ≤ r.1

structure Published (s : State W) : Prop where
  front : Buffer s.block.front
  shown : s.published ≠ [] → s.published.getLast? = some (s.block.snapshots s.block.front)
  early : s.published = [] → s.block.frame = 0 ∧ s.host.lastFrame = 0
  returned : ∀ r ∈ s.returned, s.published[r.1]? = some r.2
  sorted : s.returned.Pairwise fun r q => r.1 ≤ q.1
  publishing : ∀ p, s.client.pc = .publish p → PublishOk s.block s.published p
  reading : ∀ r, s.host.pc = .read r → ReadOk s.block s.published s.returned s.client.pc r

/-- The words of a block that this is about. -/
structure SameBuffers (b b' : Block W) : Prop where
  front : b'.front = b.front
  frame : b'.frame = b.frame
  reading : b'.reading = b.reading
  snapshots : b'.snapshots = b.snapshots

theorem publishOk_congr {b b' : Block W} (same : SameBuffers b b') {published : List (Words W)}
    {p : PublishPc W}
    (ok : PublishOk b published p) : PublishOk b' published p := by
  cases p <;> simp only [PublishOk, same.front, same.snapshots] at ok ⊢ <;> exact ok

theorem readOk_congr {b b' : Block W} (same : SameBuffers b b') {published : List (Words W)}
    {returned : List (Nat × Words W)} {pc pc' : ClientPc W} {r : ReadPc W}
    (still : ∀ p, pc' = .publish p → pc = .publish p) (ok : ReadOk b published returned pc r) :
    ReadOk b' published returned pc' r := by
  cases r with
  | copy frame front number got done =>
      simp only [ReadOk, same.reading, same.snapshots] at ok ⊢
      refine ⟨ok.1, ok.2.1, ok.2.2.1, ?_, ok.2.2.2.2⟩
      exact fun snapshot back done is => ok.2.2.2.1 snapshot back done (still _ is)
  | check frame front =>
      simp only [ReadOk, same.reading] at ok ⊢
      exact ok
  | _ => exact ok

theorem published_frame {s t : State W} (p : Published s) (same : SameBuffers s.block t.block)
    (published : t.published = s.published) (returned : t.returned = s.returned)
    (lastFrame : t.host.lastFrame = s.host.lastFrame)
    (client : ∀ q, t.client.pc = .publish q → s.client.pc = .publish q)
    (host : ∀ r, t.host.pc = .read r → s.host.pc = .read r) : Published t := by
  constructor
  · rw [same.front]
    exact p.front
  · rw [published, same.front, same.snapshots]
    exact p.shown
  · rw [published, same.frame, lastFrame]
    exact p.early
  · rw [published, returned]
    exact p.returned
  · rw [returned]
    exact p.sorted
  · intro q is
    rw [published]
    exact publishOk_congr same (p.publishing q (client q is))
  · intro r is
    rw [published, returned]
    exact readOk_congr same client (p.reading r (host r is))

/-! ## The writer -/

theorem published_client {s : State W} (p : Published s) (pc : ClientPc W)
    (ok : ∀ q, pc = .publish q → PublishOk s.block s.published q)
    (free : ∀ r, s.host.pc = .read r → ReadOk s.block s.published s.returned pc r) :
    Published (s.setClient pc) :=
  ⟨p.front, p.shown, p.early, p.returned, p.sorted, ok, free⟩

theorem untouched_elsewhere {b : Block W} {published : List (Words W)} {returned : List (Nat × Words W)}
    {pc pc' : ClientPc W} {r : ReadPc W} (ok : ReadOk b published returned pc r)
    (elsewhere : ∀ snapshot back done, pc' ≠ .publish (.copy snapshot back done)) :
    ReadOk b published returned pc' r := by
  cases r with
  | copy frame front number got done =>
      refine ⟨ok.1, ok.2.1, ok.2.2.1, ?_, ok.2.2.2.2⟩
      exact fun snapshot back done is => absurd is (elsewhere snapshot back done)
  | _ => exact ok

theorem word_published {s : State W} (p : Published s) {snapshot : Words W} {done : Fin W → Bool}
    (here : s.client.pc = .publish (.copy snapshot (1 - s.block.front) done)) (i : Fin W)
    (far : SoFar snapshot (s.block.snapshots (1 - s.block.front)) done) :
    Published (s.publishStep (.word i) (.copy snapshot (1 - s.block.front) done)) := by
  obtain ⟨-, other⟩ := other_buffer p.front
  refine ⟨p.front, ?_, p.early, p.returned, p.sorted, ?_, ?_⟩
  · intro some_
    exact (p.shown some_).trans (congrArg some (Function.update_of_ne other.symm _ _).symm)
  · rintro _ ⟨⟩
    refine ⟨rfl, ?_⟩
    simp only [State.publishStep, Function.update_self]
    exact soFar_word far i
  · intro r is
    have reads := p.reading r is
    cases r with
    | copy frame leased number got filled =>
        have apart := reads.2.2.2.1 snapshot _ done here
        have same : Function.update s.block.snapshots (1 - s.block.front)
            (copyWord snapshot (s.block.snapshots (1 - s.block.front)) i) leased =
              s.block.snapshots leased :=
          Function.update_of_ne apart.symm _ _
        simp only [State.publishStep, ReadOk, same]
        refine ⟨reads.1, reads.2.1, reads.2.2.1, ?_, reads.2.2.2.2⟩
        rintro _ _ _ ⟨⟩
        exact apart
    | _ => exact reads

theorem store_published {s : State W} (p : Published s) (c : Choice W) {snapshot : Words W}
    (whole : s.block.snapshots (1 - s.block.front) = snapshot) :
    Published (s.publishStep c (.store snapshot (1 - s.block.front))) := by
  have kept {n : Nat} {x : Words W} (there : s.published[n]? = some x) :
      (s.published ++ [snapshot])[n]? = some x := by
    obtain ⟨inside, -⟩ := List.getElem?_eq_some_iff.mp there
    rw [List.getElem?_append_left inside, there]
  have some_ : s.published ++ [snapshot] ≠ [] :=
    List.append_ne_nil_of_right_ne_nil _ (List.cons_ne_nil _ _)
  refine ⟨(other_buffer p.front).1, fun _ => ?_, fun none_ =>
    absurd none_ some_, fun r member => ?_, p.sorted, ?_, ?_⟩
  · rw [State.publishStep, List.getLast?_concat]
    exact congrArg some whole.symm
  · exact kept (p.returned r member)
  · rintro _ ⟨⟩
    exact some_
  · intro r is
    have reads := p.reading r is
    cases r with
    | frame => exact trivial
    | front frame => exact some_
    | lease frame front => exact ⟨some_, reads.2⟩
    | check frame front => exact ⟨some_, reads.2⟩
    | copy frame front number got done =>
        exact ⟨reads.1, kept reads.2.1, reads.2.2.1, by rintro _ _ _ ⟨⟩, reads.2.2.2.2⟩
    | release ready => exact fun q is => ⟨kept (reads q is).1, (reads q is).2⟩

theorem publishStep_published {s : State W} (p : Published s) (c : Choice W) (q : PublishPc W)
    (here : s.client.pc = .publish q) : Published (s.publishStep c q) := by
  have ok := p.publishing q here
  cases q with
  | front snapshot =>
      simp only [State.publishStep]
      split
      · exact published_client p _ (by rintro _ ⟨⟩) fun r is =>
          untouched_elsewhere (p.reading r is) (by rintro _ _ _ ⟨⟩)
      · refine published_client p _ ?_ fun r is => untouched_elsewhere (p.reading r is) (by rintro _ _ _ ⟨⟩)
        rintro _ ⟨⟩
        rfl
  | reading snapshot front =>
      obtain rfl : front = s.block.front := ok
      simp only [State.publishStep]
      split
      · exact published_client p _ (by rintro _ ⟨⟩) fun r is =>
          untouched_elsewhere (p.reading r is) (by rintro _ _ _ ⟨⟩)
      · next unleased =>
        refine published_client p _ ?_ ?_
        · rintro _ ⟨⟩
          exact ⟨rfl, soFar_none _ _⟩
        · intro r is
          have reads := p.reading r is
          cases r with
          | copy frame leased number got done =>
              -- the lease was set before the writer looked at it
              refine ⟨reads.1, reads.2.1, reads.2.2.1, ?_, reads.2.2.2.2⟩
              rintro _ _ _ ⟨⟩ same
              exact unleased (reads.1.trans same.symm)
          | _ => exact reads
  | copy snapshot back done =>
      obtain ⟨rfl, far⟩ := ok
      cases c with
      | half i => exact p
      | next =>
          simp only [State.publishStep]
          split
          · next all =>
            refine published_client p _ ?_ fun r is =>
              untouched_elsewhere (p.reading r is) (by rintro _ _ _ ⟨⟩)
            rintro _ ⟨⟩
            exact ⟨rfl, soFar_all far all⟩
          · exact p
      | word i =>
          exact word_published p here i far
  | store snapshot back =>
      obtain ⟨rfl, whole⟩ := ok
      exact store_published p c whole
  | add =>
      refine ⟨p.front, p.shown, fun none_ => absurd none_ ok, p.returned, p.sorted, by rintro _ ⟨⟩, ?_⟩
      exact fun r is => untouched_elsewhere (readOk_congr ⟨rfl, rfl, rfl, rfl⟩ (fun _ => id) (p.reading r is))
        (by rintro _ _ _ ⟨⟩)

/-! ## The reader -/

theorem readStep_published {s : State W} (p : Published s) (c : Choice W) (r : ReadPc W)
    (here : s.host.pc = .read r) : Published (s.readStep c r) := by
  have ok := p.reading r here
  have moved (pc : HostPc W)
    (reads : ∀ q, pc = .read q → ReadOk s.block s.published s.returned s.client.pc q) :
      Published (s.setHost pc) := ⟨p.front, p.shown, p.early, p.returned, p.sorted, p.publishing, reads⟩
  cases r with
  | frame =>
      simp only [State.readStep]
      split
      · exact moved _ (by rintro _ ⟨⟩)
      · next new =>
        refine moved _ ?_
        rintro _ ⟨⟩ none_
        obtain ⟨zero, never⟩ := p.early none_
        exact new (zero.trans never.symm)
  | front frame =>
      simp only [State.readStep]
      split
      · exact moved _ (by rintro _ ⟨⟩)
      · refine moved _ ?_
        rintro _ ⟨⟩
        exact ⟨ok, p.front⟩
  | lease frame front =>
      refine ⟨p.front, p.shown, p.early, p.returned, p.sorted, ?_, ?_⟩
      · intro q is
        cases q <;> exact p.publishing _ is
      · rintro _ ⟨⟩
        exact ⟨ok.1, ok.2, rfl⟩
  | check frame front =>
      simp only [State.readStep]
      split
      · next same =>
        refine moved _ ?_
        rintro _ ⟨⟩
        have last := p.shown ok.1
        rw [List.getLast?_eq_getElem?, same] at last
        refine ⟨ok.2.2, last, soFar_none _ _, ?_, ?_⟩
        · intro snapshot back done is
          rw [(p.publishing _ is).1, ← same]
          exact (other_buffer p.front).2
        · intro q member
          obtain ⟨inside, -⟩ := List.getElem?_eq_some_iff.mp (p.returned q member)
          omega
      · exact moved _ (by rintro _ ⟨⟩ _ ⟨⟩)
  | copy frame front number got done =>
      obtain ⟨leased, there, far, untouched, older⟩ := ok
      cases c with
      | half i => exact p
      | word i =>
          refine moved _ ?_
          rintro _ ⟨⟩
          exact ⟨leased, there, soFar_word far i, untouched, older⟩
      | next =>
          simp only [State.readStep]
          split
          · next all =>
            refine ⟨p.front, p.shown, ?_, p.returned, p.sorted, p.publishing, ?_⟩
            · intro none_
              rw [none_] at there
              cases there
            · rintro _ ⟨⟩ _ ⟨⟩
              exact ⟨there.trans (congrArg some (soFar_all far all).symm), older⟩
          · exact p
  | release ready =>
      refine ⟨p.front, p.shown, p.early, ?_, ?_, ?_, by rintro _ ⟨⟩⟩
      · intro q member
        rcases List.mem_append.mp member with old | new
        · exact p.returned q old
        · exact (ok q (Option.mem_toList.mp new)).1
      · refine List.pairwise_append.mpr ⟨p.sorted, ?_, ?_⟩
        · cases ready <;> simp
        · exact fun q old r new => (ok r (Option.mem_toList.mp new)).2 q old
      · intro q is
        cases q <;> exact p.publishing _ is

/-! ## Everything else -/

theorem published_aside {s t : State W} (p : Published s) (same : SameBuffers s.block t.block)
    (published : t.published = s.published) (returned : t.returned = s.returned) (host : t.host = s.host)
    (client : ∀ q, t.client.pc = .publish q → s.client.pc = .publish q) : Published t :=
  published_frame p same published returned (by rw [host]) client fun r is => by rwa [host] at is

theorem pollStep_published {s : State W} (p : Published s) (q : PollPc) : Published (s.pollStep q) := by
  cases q <;> simp only [State.pollStep]
  all_goals repeat' split
  all_goals exact published_aside p ⟨rfl, rfl, rfl, rfl⟩ rfl rfl rfl (by rintro _ ⟨⟩)

theorem drainLoop_published {s : State W} (p : Published s) (head tail : UInt32) :
    Published (s.drainLoop head tail) := by
  unfold State.drainLoop
  split
  all_goals exact published_aside p ⟨rfl, rfl, rfl, rfl⟩ rfl rfl rfl (by rintro _ ⟨⟩)

theorem drainStep_published {s : State W} (p : Published s) (c : Choice W) (q : DrainPc) :
    Published (s.drainStep c q) := by
  have aside {t : State W} (same : SameBuffers s.block t.block) (published : t.published = s.published)
      (returned : t.returned = s.returned) (host : t.host = s.host) (pc : ∀ q, t.client.pc ≠ .publish q) :
      Published t := published_aside p same published returned host fun q is => absurd is (pc q)
  cases q with
  | head => exact aside ⟨rfl, rfl, rfl, rfl⟩ rfl rfl rfl (by rintro _ ⟨⟩)
  | tail head =>
      simp only [State.drainStep]
      split
      · exact aside ⟨rfl, rfl, rfl, rfl⟩ rfl rfl rfl (by rintro _ ⟨⟩)
      · exact drainLoop_published p _ _
  | copy head tail got done =>
      cases c with
      | word i => exact p
      | half i => exact aside ⟨rfl, rfl, rfl, rfl⟩ rfl rfl rfl (by rintro _ ⟨⟩)
      | next =>
          simp only [State.drainStep]
          split
          · exact aside ⟨rfl, rfl, rfl, rfl⟩ rfl rfl rfl (by rintro _ ⟨⟩)
          · exact p
  | store head tail command => exact aside ⟨rfl, rfl, rfl, rfl⟩ rfl rfl rfl (by rintro _ ⟨⟩)
  | handle head tail command => exact aside ⟨rfl, rfl, rfl, rfl⟩ rfl rfl rfl (by rintro _ ⟨⟩)

theorem sendStep_published {s : State W} (p : Published s) (c : Choice W) (q : SendPc) :
    Published (s.sendStep c q) := by
  have aside {t : State W} (same : SameBuffers s.block t.block) (published : t.published = s.published)
      (returned : t.returned = s.returned) (lastFrame : t.host.lastFrame = s.host.lastFrame)
      (client : t.client = s.client) (pc : ∀ r, t.host.pc ≠ .read r) : Published t :=
    published_frame p same published returned lastFrame (fun q is => by rwa [client] at is)
      fun r is => absurd is (pc r)
  cases q with
  | exited command =>
      simp only [State.sendStep]
      split
      all_goals exact aside ⟨rfl, rfl, rfl, rfl⟩ rfl rfl rfl rfl (by rintro _ ⟨⟩)
  | head command => exact aside ⟨rfl, rfl, rfl, rfl⟩ rfl rfl rfl rfl (by rintro _ ⟨⟩)
  | tail command head =>
      simp only [State.sendStep]
      split
      all_goals exact aside ⟨rfl, rfl, rfl, rfl⟩ rfl rfl rfl rfl (by rintro _ ⟨⟩)
  | copy command head done =>
      cases c with
      | word i => exact p
      | half i => exact aside ⟨rfl, rfl, rfl, rfl⟩ rfl rfl rfl rfl (by rintro _ ⟨⟩)
      | next =>
          simp only [State.sendStep]
          split
          · exact aside ⟨rfl, rfl, rfl, rfl⟩ rfl rfl rfl rfl (by rintro _ ⟨⟩)
          · exact p
  | store command head => exact aside ⟨rfl, rfl, rfl, rfl⟩ rfl rfl rfl rfl (by rintro _ ⟨⟩)

theorem published_touched {s : State W} (p : Published s) (touched : Bool) :
    Published { s with touched := touched } :=
  published_frame p ⟨rfl, rfl, rfl, rfl⟩ rfl rfl rfl (fun _ => id) fun _ => id

theorem clientStep_published {s : State W} (p : Published s) (c : Choice W) : Published (s.clientStep c) := by
  unfold State.clientStep
  split
  · exact p
  · exact published_touched (pollStep_published p _) _
  · exact drainStep_published p c _
  · exact published_touched (drainStep_published p c _) _
  · next q here => exact published_touched (publishStep_published p c q here) _
  · exact published_aside p ⟨rfl, rfl, rfl, rfl⟩ rfl rfl rfl (by rintro _ ⟨⟩)
  · exact published_aside p ⟨rfl, rfl, rfl, rfl⟩ rfl rfl rfl (by rintro _ ⟨⟩)

theorem hostStep_published {s : State W} (p : Published s) (c : Choice W) : Published (s.hostStep c) := by
  unfold State.hostStep
  split
  · exact p
  · exact sendStep_published p c _
  · next r here => exact readStep_published p c r here
  all_goals exact published_frame p ⟨rfl, rfl, rfl, rfl⟩ rfl rfl rfl (fun _ => id) (by rintro _ ⟨⟩)

theorem act_published {s : State W} (p : Published s) (e : Event W) : Published (s.act e) := by
  have call (pc : ClientPc W) (start : ∀ q, pc = .publish q → ∃ snapshot, q = .front snapshot) :
      Published (s.setClient pc) := by
    refine published_client p pc ?_ fun r is => untouched_elsewhere (p.reading r is) ?_
    · intro q is
      obtain ⟨snapshot, rfl⟩ := start q is
      exact trivial
    · intro snapshot back done is
      obtain ⟨_, same⟩ := start _ is
      cases same
  have hostCall (pc : HostPc W) (start : ∀ r, pc = .read r → r = .frame) : Published (s.setHost pc) := by
    refine ⟨p.front, p.shown, p.early, p.returned, p.sorted, p.publishing, fun r is => ?_⟩
    rw [start r is]
    exact trivial
  cases e with
  | poll now =>
      simp only [State.act]
      split
      · exact call _ (by rintro _ ⟨⟩)
      · exact p
  | drain =>
      simp only [State.act]
      split
      · exact published_aside p ⟨rfl, rfl, rfl, rfl⟩ rfl rfl rfl (by rintro _ ⟨⟩)
      · exact p
  | publish snapshot =>
      simp only [State.act]
      split
      · exact call _ (by rintro _ ⟨⟩; exact ⟨snapshot, rfl⟩)
      · exact p
  | close =>
      simp only [State.act]
      split
      · exact published_aside p ⟨rfl, rfl, rfl, rfl⟩ rfl rfl rfl (by rintro _ ⟨⟩)
      · exact p
  | callbackReturns =>
      simp only [State.act]
      split
      · split
        · refine drainLoop_published ?_ _ _
          exact published_aside p ⟨rfl, rfl, rfl, rfl⟩ rfl rfl rfl fun _ => id
        · exact p
      · exact p
  | client c => exact clientStep_published p c
  | send command =>
      simp only [State.act]
      split
      · exact hostCall _ (by rintro _ ⟨⟩)
      · exact p
  | read =>
      simp only [State.act]
      split
      · exact hostCall _ (by rintro _ ⟨⟩; rfl)
      · exact p
  | keepAlive =>
      simp only [State.act]
      split
      · exact hostCall _ (by rintro _ ⟨⟩)
      · exact p
  | requestClose =>
      simp only [State.act]
      split
      · exact hostCall _ (by rintro _ ⟨⟩)
      · exact p
  | host c => exact hostStep_published p c

theorem step_published {s : State W} (p : Published s) (e : Event W) : Published (s.step e) := by
  have next := act_published p e
  simp only [State.step]
  split
  · exact published_aside next ⟨rfl, rfl, rfl, rfl⟩ rfl rfl rfl fun _ => id
  · exact next

theorem run_published (events : List (Event W)) :
    ∀ {s : State W}, Published s → Published (s.run events) := by
  induction events with
  | nil => exact fun p => p
  | cons e rest ih => exact fun p => ih (step_published p e)

theorem connected_published (beat : UInt32) (now : UInt64) : Published (connected W beat now) := by
  refine ⟨.inl rfl, fun some_ => absurd rfl some_, fun _ =>
    ⟨rfl, rfl⟩, ?_, .nil, by rintro _ ⟨⟩, by rintro _ ⟨⟩⟩
  exact fun r member => absurd member List.not_mem_nil

end R2Apps.MementoSnapshots
