import Mathlib.Data.List.Nodup
import R2Apps.FrameMux
import R2Apps.Ledgers

/-! Frame routing: whoever pulls, every frame goes to the clients it is for, in
the kernel's order and at most once, and none is lost without being counted. -/
namespace R2Apps.FrameRouting
open R2Apps.FifoRings R2Apps.FrameMux R2Apps.Ledgers

section History

def deliveredTo (c : Client) (h : List Event) : List Frame :=
  h.filterMap fun
    | .delivered d f _ => if d = c then some f else none
    | _ => none

def droppedOf (c : Client) (h : List Event) : List Frame :=
  h.filterMap fun
    | .dropped d f => if d = c then some f else none
    | _ => none

def discardedOf (c : Client) (h : List Event) : List Frame :=
  h.filterMap fun
    | .discarded d f => if d = c then some f else none
    | _ => none

/-- The frames taken in for a client. -/
def assignedTo (c : Client) (h : List Event) : List Frame :=
  h.filterMap fun
    | .took f _ audience => if c ∈ audience then some f else none
    | _ => none

def takenFrom (h : List Event) : List Frame :=
  h.filterMap fun
    | .took f _ _ => some f
    | .skipped f => some f
    | _ => none

def deliveries (h : List Event) : List (Client × List UInt8) :=
  h.filterMap fun
    | .delivered d _ bytes => some (d, bytes)
    | _ => none

def waiting (s : Mux) (c : Client) : List Frame := (s.stash c).ring.contents

variable (c : Client) (h k : List Event)

@[simp] theorem discardedOf_append : discardedOf c (h ++ k) = discardedOf c h ++ discardedOf c k :=
  List.filterMap_append

variable {c h} {f : Frame}

theorem mem_assignedTo :
    f ∈ assignedTo c h ↔ ∃ a audience, .took f a audience ∈ h ∧ c ∈ audience := by
  simp only [assignedTo, List.mem_filterMap]
  constructor
  · rintro ⟨e, present, chosen⟩
    cases e with
    | took g a audience =>
      by_cases inside : c ∈ audience
      · obtain rfl : g = f := by simpa [inside] using chosen
        exact ⟨a, audience, present, inside⟩
      · simp [inside] at chosen
    | _ => simp at chosen
  · rintro ⟨a, audience, present, inside⟩
    exact ⟨_, present, by simp [inside]⟩

theorem mem_deliveredTo : f ∈ deliveredTo c h ↔ ∃ bytes, .delivered c f bytes ∈ h := by
  simp only [deliveredTo, List.mem_filterMap]
  constructor
  · rintro ⟨e, present, chosen⟩
    cases e with
    | delivered d g bytes =>
      by_cases same : d = c
      · subst same
        obtain rfl : g = f := by simpa using chosen
        exact ⟨bytes, present⟩
      · simp [same] at chosen
    | _ => simp at chosen
  · rintro ⟨bytes, present⟩
    exact ⟨_, present, by simp⟩

theorem assignedTo_taken : assignedTo c h ⊆ takenFrom h := by
  intro f assigned
  obtain ⟨a, audience, present, -⟩ := mem_assignedTo.mp assigned
  exact List.mem_filterMap.mpr ⟨_, present, rfl⟩

end History

/-- What the history of a mux says about its state. -/
structure Recorded (s : Mux) : Prop where
  queue : (takenFrom s.history ++ s.kernel).map Frame.id = List.range s.arrivals
  sized : ∀ f a audience, .took f a audience ∈ s.history →
    0 < f.bytes.length ∧ f.bytes.length ≤ frameSize
  classified : ∀ f a audience, .took f a audience ∈ s.history →
    (a = none ↔ isArp f.bytes = true) ∧ ∀ c, a = some c → audience = [c]
  skipped : ∀ f, .skipped f ∈ s.history → f.bytes.length = 0 ∨ frameSize < f.bytes.length
  whole : ∀ c f bytes, .delivered c f bytes ∈ s.history → bytes = f.bytes
  counted : ∀ c, s.stats.dropped c = UInt64.ofNat (droppedOf c s.history).length

/-- Every client's books, with the frame a pull has in hand at the moment. -/
def Books (s : Mux) (inHand : Client → List Frame) : Prop :=
  ∀ c, Ledger Frame.id (deliveredTo c s.history) (waiting s c) (inHand c)
    (discardedOf c s.history) (droppedOf c s.history) (assignedTo c s.history)

def noneInHand : Client → List Frame := fun _ => []

section Steps
variable {s : Mux} {who c : Client} {f : Frame} {rest : List Frame} {now : UInt64}
  {inHand : Client → List Frame}

theorem owner_arp : owner s f.bytes now = none ↔ isArp f.bytes = true := by
  simp only [owner, isArp]
  by_cases short : f.bytes.length < 14
  · simp [short]
  · by_cases arp : get16 f.bytes 12 = 0x0806
    · simp [short, arp, Nat.not_lt.mp short]
    · by_cases other : get16 f.bytes 12 ≠ 0x0800 ∨ f.bytes.length < 14 + 20 <;>
        simp [short, arp, other]

theorem owner_audience (chosen : owner s f.bytes now = some c) : audience s who now f = [c] := by
  simp [audience, chosen]

theorem taken_below (recorded : Recorded s) (head : s.kernel = f :: rest) :
    ∀ g ∈ takenFrom s.history, g.id < f.id := by
  intro g taken
  have ids := recorded.queue
  rw [head] at ids
  have sorted : ((takenFrom s.history ++ f :: rest).map Frame.id).Pairwise (· < ·) := by
    rw [ids]
    exact List.pairwise_lt_range
  rw [List.map_append, List.pairwise_append] at sorted
  exact sorted.2.2 g.id (List.mem_map_of_mem taken) f.id (by simp)

variable (who now) in
theorem take_recorded (recorded : Recorded s) (head : s.kernel = f :: rest)
    (filled : f.bytes.length ≠ 0) (fits : ¬frameSize < f.bytes.length) :
    Recorded (take s who now f rest) := by
  obtain ⟨queue, sized, classified, skipped, whole, counted⟩ := recorded
  constructor
  · rw [head] at queue
    simpa [take, Mux.log, takenFrom] using queue
  · intro g a audience taken
    rcases List.mem_append.mp taken with old | new
    · exact sized g a audience old
    · obtain ⟨rfl, -, -⟩ : g = f ∧ _ ∧ _ := by simpa using new
      omega
  · intro g a audience taken
    rcases List.mem_append.mp taken with old | new
    · exact classified g a audience old
    · obtain ⟨rfl, rfl, rfl⟩ : g = f ∧ _ ∧ _ := by simpa using new
      exact ⟨owner_arp, fun c chosen => owner_audience chosen⟩
  · intro g present
    exact skipped g (by simpa [take, Mux.log] using present)
  · intro c g bytes present
    exact whole c g bytes (by simpa [take, Mux.log] using present)
  · intro c
    simpa [take, Mux.log, droppedOf] using counted c

variable (who now) in
theorem take_books (recorded : Recorded s) (books : Books s noneInHand) (head : s.kernel = f :: rest) :
    Books (take s who now f rest) fun c => if c ∈ audience s who now f then [f] else [] := by
  intro c
  have below : ∀ g ∈ assignedTo c s.history, g.id < f.id := fun g assigned =>
    taken_below recorded head g (assignedTo_taken assigned)
  have grown := (books c).assign below
  by_cases inside : c ∈ audience s who now f
  · simpa [take, Mux.log, inside, deliveredTo, discardedOf, droppedOf, assignedTo, waiting] using grown
  · simpa [take, Mux.log, inside, deliveredTo, discardedOf, droppedOf, assignedTo, waiting, noneInHand]
      using books c

theorem skip_recorded (recorded : Recorded s) (head : s.kernel = f :: rest)
    (unfit : f.bytes.length = 0 ∨ frameSize < f.bytes.length) : Recorded (skip s f rest) := by
  obtain ⟨queue, sized, classified, skipped, whole, counted⟩ := recorded
  constructor
  · rw [head] at queue
    simpa [skip, Mux.log, takenFrom] using queue
  · intro g a audience taken
    exact sized g a audience (by simpa [skip, Mux.log] using taken)
  · intro g a audience taken
    exact classified g a audience (by simpa [skip, Mux.log] using taken)
  · intro g present
    rcases List.mem_append.mp present with old | new
    · exact skipped g old
    · obtain rfl : g = f := by simpa using new
      exact unfit
  · intro c g bytes present
    exact whole c g bytes (by simpa [skip, Mux.log] using present)
  · intro c
    simpa [skip, Mux.log, droppedOf] using counted c

theorem skip_books (books : Books s inHand) : Books (skip s f rest) inHand := by
  intro c
  simpa [skip, Mux.log, deliveredTo, discardedOf, droppedOf, assignedTo, waiting] using books c

theorem lose_recorded (recorded : Recorded s) : Recorded (lose s c f) := by
  obtain ⟨queue, sized, classified, skipped, whole, counted⟩ := recorded
  constructor
  · simpa [lose, Mux.log, takenFrom] using queue
  · intro g a audience taken
    exact sized g a audience (by simpa [lose, Mux.log] using taken)
  · intro g a audience taken
    exact classified g a audience (by simpa [lose, Mux.log] using taken)
  · intro g present
    exact skipped g (by simpa [lose, Mux.log] using present)
  · intro d g bytes present
    exact whole d g bytes (by simpa [lose, Mux.log] using present)
  · intro d
    by_cases same : c = d
    · subst same
      simp [lose, Mux.log, NetmuxStats.drop, counted c, droppedOf, UInt64.ofNat_add]
    · simp [lose, Mux.log, NetmuxStats.drop, Function.update_of_ne (Ne.symm same), counted d, droppedOf, same]

theorem lose_books (books : Books s inHand) (held : inHand c = [f]) :
    Books (lose s c f) (Function.update inHand c []) := by
  intro d
  have book := books d
  by_cases same : c = d
  · subst same
    rw [held] at book
    simpa [lose, Mux.log, deliveredTo, discardedOf, droppedOf, assignedTo, waiting] using book.lose
  · rw [Function.update_of_ne (Ne.symm same)]
    simpa [lose, Mux.log, deliveredTo, discardedOf, droppedOf, assignedTo, waiting, same] using book

theorem keep_recorded (recorded : Recorded s) (memory : Bool) : Recorded (keep s c f memory) := by
  simp only [keep]
  split
  · obtain ⟨queue, sized, classified, skipped, whole, counted⟩ := recorded
    exact ⟨queue, sized, classified, skipped, whole, counted⟩
  · apply lose_recorded
    obtain ⟨queue, sized, classified, skipped, whole, counted⟩ := recorded
    exact ⟨queue, sized, classified, skipped, whole, counted⟩

theorem keep_books (books : Books s inHand) (held : inHand c = [f]) (memory : Bool) :
    Books (keep s c f memory) (Function.update inHand c []) := by
  simp only [keep]
  split
  · rename_i room
    intro d
    have book := books d
    by_cases same : c = d
    · subst same
      rw [held] at book
      simpa [waiting, backed, Fifo.put_contents] using book.queue
    · rw [Function.update_of_ne (Ne.symm same)]
      simpa [waiting, Function.update_of_ne (Ne.symm same)] using book
  · apply lose_books _ held
    intro d
    have book := books d
    by_cases same : c = d
    · subst same
      simpa [waiting, backed] using book
    · simpa [waiting, Function.update_of_ne (Ne.symm same)] using book

theorem keep_waiting (memory : Bool) (other : who ≠ c) : waiting (keep s c f memory) who = waiting s who := by
  simp only [keep]
  split <;> simp [waiting, lose, Mux.log, Function.update_of_ne other]

theorem copies_recorded (memory : Client → Bool) (l : List Client) (recorded : Recorded s) :
    Recorded (copies memory f l s) := by
  induction l generalizing s with
  | nil => exact recorded
  | cons c more ih => exact ih (keep_recorded recorded (memory c))

theorem copies_waiting (memory : Client → Bool) (l : List Client) (absent : who ∉ l) :
    waiting (copies memory f l s) who = waiting s who := by
  induction l generalizing s with
  | nil => rfl
  | cons c more ih =>
    simp only [List.mem_cons, not_or] at absent
    rw [copies, ih absent.2, keep_waiting (memory c) absent.1]

theorem copies_books (memory : Client → Bool) (l : List Client) (books : Books s inHand)
    (held : ∀ c ∈ l, inHand c = [f]) (distinct : l.Nodup) :
    Books (copies memory f l s) fun c => if c ∈ l then [] else inHand c := by
  induction l generalizing s inHand with
  | nil => simpa [copies] using books
  | cons c more ih =>
    have kept := keep_books books (held c (by simp)) (memory c)
    obtain ⟨fresh, distinct⟩ := List.nodup_cons.mp distinct
    have later : ∀ d ∈ more, Function.update inHand c [] d = [f] := by
      intro d inside
      have apart : d ≠ c := fun same => fresh (same ▸ inside)
      rw [Function.update_of_ne apart]
      exact held d (List.mem_cons_of_mem c inside)
    have settled := ih kept later distinct
    intro d
    have book := settled d
    by_cases inside : d ∈ more
    · simpa [copies, inside] using book
    · by_cases same : d = c
      · subst same
        simpa [copies, inside] using book
      · simpa [copies, inside, same] using book

theorem setAside_recorded (recorded : Recorded s) (memory : Bool) :
    Recorded (setAside s c now f memory) := by
  simp only [setAside]
  split
  · exact keep_recorded recorded memory
  · exact lose_recorded recorded

variable (now) in
theorem setAside_books (books : Books s inHand) (held : inHand c = [f]) (memory : Bool) :
    Books (setAside s c now f memory) (Function.update inHand c []) := by
  simp only [setAside]
  split
  · exact keep_books books held memory
  · exact lose_books books held

theorem setAside_waiting (memory : Bool) (other : who ≠ c) :
    waiting (setAside s c now f memory) who = waiting s who := by
  simp only [setAside]
  split
  · exact keep_waiting memory other
  · rfl

theorem deliver_recorded (recorded : Recorded s) {cap : Nat} (fits : f.bytes.length ≤ cap) :
    Recorded (deliver s who f cap).1 := by
  obtain ⟨queue, sized, classified, skipped, whole, counted⟩ := recorded
  constructor
  · simpa [deliver, Mux.log, takenFrom] using queue
  · intro g a audience taken
    exact sized g a audience (by simpa [deliver, Mux.log] using taken)
  · intro g a audience taken
    exact classified g a audience (by simpa [deliver, Mux.log] using taken)
  · intro g present
    exact skipped g (by simpa [deliver, Mux.log] using present)
  · intro d g bytes present
    rcases List.mem_append.mp present with old | new
    · exact whole d g bytes old
    · obtain ⟨-, rfl, rfl⟩ : d = who ∧ g = f ∧ bytes = f.bytes.take cap := by simpa using new
      exact List.take_of_length_le fits
  · intro d
    simpa [deliver, Mux.log, NetmuxStats.give, droppedOf] using counted d

theorem deliver_books (books : Books s inHand) (held : inHand who = [f]) (idle : waiting s who = [])
    (cap : Nat) : Books (deliver s who f cap).1 (Function.update inHand who []) := by
  intro d
  have book := books d
  by_cases same : who = d
  · subst same
    have none_waits : (s.stash who).ring.contents = [] := idle
    rw [held, idle] at book
    simpa [deliver, Mux.log, deliveredTo, discardedOf, droppedOf, assignedTo, waiting, none_waits]
      using book.handOut
  · rw [Function.update_of_ne (Ne.symm same)]
    simpa [deliver, Mux.log, deliveredTo, discardedOf, droppedOf, assignedTo, waiting, same] using book

theorem give_books (books : Books s noneInHand) (waits : 0 < (s.stash who).ring.count) (cap : Nat) :
    Books (give s who cap).1 noneInHand := by
  intro d
  have book := books d
  by_cases same : who = d
  · subst same
    have front : waiting s who = (s.stash who).ring.front :: ((s.stash who).ring.discard 1).contents :=
      Fifo.contents_front _ waits
    rw [front] at book
    simpa [give, deliver, Mux.log, deliveredTo, discardedOf, droppedOf, assignedTo, waiting, noneInHand]
      using book.next
  · simpa [give, deliver, Mux.log, deliveredTo, discardedOf, droppedOf, assignedTo, waiting, same,
      Function.update_of_ne (Ne.symm same)] using book

theorem front_waits (waits : 0 < (s.stash who).ring.count) : (s.stash who).ring.front ∈ waiting s who := by
  rw [waiting, Fifo.contents_front _ waits]
  exact List.mem_cons_self

theorem waiting_sized (recorded : Recorded s) (books : Books s noneInHand) (present : f ∈ waiting s c) :
    0 < f.bytes.length ∧ f.bytes.length ≤ frameSize := by
  obtain ⟨a, audience, taken, -⟩ := mem_assignedTo.mp ((books c).mem_assigned (.inr present))
  exact recorded.sized f a audience taken

/-- What a pull returned is what the history says the client got. -/
def Reports (s : Mux) (who : Client) (r : Mux × List UInt8) : Prop :=
  r.1.returned = s.returned ∧
    deliveries r.1.history = deliveries s.history ++ if r.2 = [] then [] else [(who, r.2)]

theorem deliver_reports {cap : Nat} (filled : 0 < f.bytes.length) (room : 0 < cap) :
    Reports s who (deliver s who f cap) := by
  have given : f.bytes.take cap ≠ [] := by
    intro nothing
    have length := congrArg List.length nothing
    simp only [List.length_take, List.length_nil] at length
    omega
  constructor
  · rfl
  · simp [deliver, Mux.log, deliveries, given]

theorem Reports.after {s t : Mux} {r : Mux × List UInt8} (later : Reports t who r)
    (returned : t.returned = s.returned) (same : deliveries t.history = deliveries s.history) :
    Reports s who r := by
  constructor
  · rw [later.1, returned]
  · rw [later.2, same]

theorem keep_quiet (memory : Bool) : (keep s c f memory).returned = s.returned ∧
    deliveries (keep s c f memory).history = deliveries s.history := by
  simp only [keep]
  split
  · exact ⟨rfl, rfl⟩
  · exact ⟨rfl, by simp [lose, Mux.log, deliveries]⟩

theorem copies_quiet (memory : Client → Bool) (l : List Client) :
    (copies memory f l s).returned = s.returned ∧
      deliveries (copies memory f l s).history = deliveries s.history := by
  induction l generalizing s with
  | nil => exact ⟨rfl, rfl⟩
  | cons c more ih =>
    have kept := keep_quiet (s := s) (c := c) (f := f) (memory c)
    have rest := ih (s := keep s c f (memory c))
    exact ⟨rest.1.trans kept.1, rest.2.trans kept.2⟩

theorem others_nodup : (others s who now).Nodup := by
  have listed : clients.Nodup := by decide
  exact listed.filter _

theorem mem_others : who ∉ others s who now := by
  simp [others]

end Steps

/-- Between the calls nothing is in hand. -/
structure Routing (s : Mux) : Prop where
  recorded : Recorded s
  books : Books s noneInHand

section Pull
variable {s : Mux} {who : Client} {f : Frame} {rest : List Frame} {now : UInt64} {cap : Nat}

theorem inHand_settled {c : Client} {l : List Client} (alone : l = [c]) :
    Function.update (fun d => if d ∈ l then [f] else []) c [] = noneInHand := by
  subst alone
  funext d
  by_cases same : d = c
  · subst same
    simp [noneInHand]
  · simp [same, noneInHand]

theorem arp_routing (routing : Routing s) (idle : waiting s who = []) (head : s.kernel = f :: rest)
    (filled : f.bytes.length ≠ 0) (fits : ¬frameSize < f.bytes.length) (room : frameSize ≤ cap)
    (everyones : owner s f.bytes now = none) (memory : Client → Bool) :
    let r := deliver (copies memory f (others s who now) (take s who now f rest)) who f cap
    Routing r.1 ∧ Reports s who r := by
  intro r
  have for_all : audience s who now f = who :: others s who now := by simp [audience, everyones]
  have taken := take_books who now routing.recorded routing.books head
  have each : ∀ c ∈ others s who now,
      (fun c => if c ∈ audience s who now f then [f] else []) c = [f] := by
    intro c inside
    simp [for_all, inside]
  have copied := copies_books memory _ taken each others_nodup
  have still : waiting (copies memory f (others s who now) (take s who now f rest)) who = [] := by
    rw [copies_waiting memory _ mem_others]
    exact idle
  have recorded := copies_recorded (f := f) memory (others s who now)
    (take_recorded who now routing.recorded head filled fits)
  have mine : (if who ∈ others s who now then [] else if who ∈ audience s who now f then [f] else []) =
      [f] := by
    simp [mem_others, for_all]
  have handed := deliver_books copied mine still cap
  have quiet := copies_quiet (f := f) (s := take s who now f rest) memory (others s who now)
  constructor
  · refine ⟨deliver_recorded recorded (by omega), ?_⟩
    have settled : Function.update
        (fun c => if c ∈ others s who now then [] else if c ∈ audience s who now f then [f] else [])
        who [] = noneInHand := by
      funext d
      by_cases same : d = who
      · subst same
        simp [noneInHand]
      · by_cases inside : d ∈ others s who now <;> simp [inside, for_all, same, noneInHand]
    rw [settled] at handed
    exact handed
  · have wide : 0 < cap := by
      unfold frameSize at room
      omega
    have shown : Reports (copies memory f (others s who now) (take s who now f rest)) who r :=
      deliver_reports (by omega) wide
    apply shown.after (show _ = s.returned from quiet.1)
    rw [quiet.2]
    simp [take, Mux.log, deliveries]

theorem own_routing (routing : Routing s) (idle : waiting s who = []) (head : s.kernel = f :: rest)
    (filled : f.bytes.length ≠ 0) (fits : ¬frameSize < f.bytes.length) (room : frameSize ≤ cap)
    (own : owner s f.bytes now = some who) :
    let r := deliver (take s who now f rest) who f cap
    Routing r.1 ∧ Reports s who r := by
  intro r
  have alone : audience s who now f = [who] := owner_audience own
  have taken := take_books who now routing.recorded routing.books head
  have mine : (if who ∈ audience s who now f then [f] else []) = [f] := by simp [alone]
  have handed := deliver_books taken mine idle cap
  rw [inHand_settled alone] at handed
  have recorded := take_recorded who now routing.recorded head filled fits
  constructor
  · exact ⟨deliver_recorded recorded (by omega), handed⟩
  · have wide : 0 < cap := by
      unfold frameSize at room
      omega
    have shown : Reports (take s who now f rest) who r := deliver_reports (by omega) wide
    apply shown.after (show _ = s.returned from rfl)
    simp [take, Mux.log, deliveries]

variable (who) in
theorem other_routing {c : Client} (routing : Routing s) (head : s.kernel = f :: rest)
    (filled : f.bytes.length ≠ 0) (fits : ¬frameSize < f.bytes.length)
    (theirs : owner s f.bytes now = some c) (memory : Bool) :
    Routing (setAside (take s who now f rest) c now f memory) := by
  have alone : audience s who now f = [c] := owner_audience theirs
  have taken := take_books who now routing.recorded routing.books head
  have theirs : (if c ∈ audience s who now f then [f] else []) = [f] := by simp [alone]
  have aside := setAside_books now taken theirs memory
  rw [inHand_settled alone] at aside
  have recorded := take_recorded who now routing.recorded head filled fits
  exact ⟨setAside_recorded recorded memory, aside⟩

variable (now) in
theorem setAside_quiet {c : Client} (memory : Bool) :
    (setAside s c now f memory).returned = s.returned ∧
      deliveries (setAside s c now f memory).history = deliveries s.history := by
  simp only [setAside]
  split
  · exact keep_quiet memory
  · exact ⟨rfl, by simp [lose, Mux.log, deliveries]⟩

variable (now) in
theorem drain_routing (room : frameSize ≤ cap) (memory : Nat → Client → Bool) (rounds : Nat)
    (routing : Routing s) (idle : waiting s who = []) :
    Routing (drain who cap now memory rounds s).1 ∧ Reports s who (drain who cap now memory rounds s) := by
  induction rounds generalizing s with
  | zero => exact ⟨routing, rfl, by simp [drain]⟩
  | succ rounds ih =>
    simp only [drain]
    split
    · exact ⟨routing, rfl, by simp⟩
    · rename_i f rest head
      split
      · rename_i nothing
        have skipped := skip_recorded routing.recorded head (.inl nothing)
        exact ⟨⟨skipped, skip_books routing.books⟩, rfl, by simp [skip, Mux.log, deliveries]⟩
      · rename_i filled
        split
        · rename_i long
          have skipped := skip_recorded routing.recorded head (.inr long)
          have later := ih ⟨skipped, skip_books routing.books⟩ idle
          exact ⟨later.1, later.2.after rfl (by simp [skip, Mux.log, deliveries])⟩
        · rename_i fits
          split
          · rename_i everyones
            exact arp_routing routing idle head filled fits room everyones (memory rounds)
          · rename_i c theirs
            split
            · rename_i own
              subst own
              exact own_routing routing idle head filled fits room theirs
            · rename_i other
              have aside := other_routing who routing head filled fits theirs (memory rounds c)
              have still : waiting (setAside (take s who now f rest) c now f (memory rounds c)) who = [] := by
                rw [setAside_waiting _ (Ne.symm other)]
                exact idle
              have later := ih aside still
              have quiet := setAside_quiet (s := take s who now f rest) (f := f) (c := c) now
                (memory rounds c)
              refine ⟨later.1, later.2.after quiet.1 ?_⟩
              rw [quiet.2]
              simp [take, Mux.log, deliveries]

variable (who now) in
theorem asked_routing (routing : Routing s) : Routing (asked s who now) := by
  obtain ⟨⟨queue, sized, classified, skipped, whole, counted⟩, books⟩ := routing
  refine ⟨⟨queue, sized, classified, skipped, whole, counted⟩, ?_⟩
  intro c
  by_cases same : c = who
  · subst same
    simpa [asked, waiting] using books c
  · simpa [asked, waiting, Function.update_of_ne same] using books c

theorem give_routing (routing : Routing s) (waits : 0 < (s.stash who).ring.count) (room : frameSize ≤ cap) :
    Routing (give s who cap).1 ∧ Reports s who (give s who cap) := by
  have sized := waiting_sized routing.recorded routing.books (front_waits waits)
  have fits := sized.2.trans room
  obtain ⟨queue, old, classified, skipped, whole, counted⟩ := routing.recorded
  constructor
  · refine ⟨deliver_recorded ?_ fits, give_books routing.books waits cap⟩
    exact ⟨queue, old, classified, skipped, whole, counted⟩
  · exact (deliver_reports sized.1 (by omega)).after rfl rfl

variable (now) in
theorem pull_routing (memory : Nat → Client → Bool) (routing : Routing s) (room : frameSize ≤ cap) :
    Routing (netmuxPull s who cap now memory).1 ∧ Reports s who (netmuxPull s who cap now memory) := by
  have ready := asked_routing who now routing
  have count : ((asked s who now).stash who).ring.count = (s.stash who).ring.count := by simp [asked]
  simp only [netmuxPull]
  split
  · rename_i waits
    have given := give_routing ready (count.symm ▸ waits) room
    exact ⟨given.1, given.2.after rfl rfl⟩
  · rename_i empty
    have idle : waiting (asked s who now) who = [] := Fifo.contents_nil _ (by omega)
    have drained := drain_routing now room memory 64 ready idle
    exact ⟨drained.1, drained.2.after rfl rfl⟩

theorem claim_routing (k : Claim) (routing : Routing s) : Routing (netmuxClaim s k) := by
  obtain ⟨⟨queue, sized, classified, skipped, whole, counted⟩, books⟩ := routing
  simp only [netmuxClaim]
  split
  · exact ⟨⟨queue, sized, classified, skipped, whole, counted⟩, books⟩
  · split <;> exact ⟨⟨queue, sized, classified, skipped, whole, counted⟩, books⟩

section Forgetting
variable {c : Client} {l : List Frame}

theorem discarded_own : discardedOf c (l.map (Event.discarded c)) = l := by
  simp [discardedOf, List.filterMap_map]

theorem forget_recorded (recorded : Recorded s) : Recorded (netmuxForget s who) := by
  obtain ⟨queue, sized, classified, skipped, whole, counted⟩ := recorded
  constructor
  · simpa [netmuxForget, takenFrom, List.filterMap_map] using queue
  · intro f a audience taken
    exact sized f a audience (by simpa [netmuxForget] using taken)
  · intro f a audience taken
    exact classified f a audience (by simpa [netmuxForget] using taken)
  · intro f present
    exact skipped f (by simpa [netmuxForget] using present)
  · intro c f bytes present
    exact whole c f bytes (by simpa [netmuxForget] using present)
  · intro c
    simpa [netmuxForget, droppedOf, List.filterMap_map] using counted c

theorem forget_routing (routing : Routing s) : Routing (netmuxForget s who) := by
  refine ⟨forget_recorded routing.recorded, ?_⟩
  intro c
  have book := routing.books c
  by_cases same : c = who
  · subst same
    have thrown := book.throwAway
    rw [← discarded_own (c := c) (l := waiting s c), ← discardedOf_append] at thrown
    simpa [netmuxForget, waiting, deliveredTo, droppedOf, assignedTo, List.filterMap_map, noneInHand]
      using thrown
  · simpa [netmuxForget, waiting, Function.update_of_ne same, deliveredTo, droppedOf, assignedTo,
      discardedOf, List.filterMap_map, Ne.symm same] using book

end Forgetting
end Pull

section Runs

theorem selected_once {α β : Type} {p : α → Option β} {l : List α} (distinct : (l.filterMap p).Nodup)
    {a b : α} {x : β} (first : a ∈ l) (second : b ∈ l) (left : p a = some x) (right : p b = some x) :
    a = b := by
  induction l with
  | nil => cases first
  | cons e rest ih =>
    cases chosen : p e with
    | none =>
      rw [List.filterMap_cons_none chosen] at distinct
      have apart : ∀ d, p d = some x → d ∈ e :: rest → d ∈ rest := by
        intro d selected present
        rcases List.mem_cons.mp present with rfl | inside
        · rw [chosen] at selected
          cases selected
        · exact inside
      exact ih distinct (apart a left first) (apart b right second)
    | some y =>
      rw [List.filterMap_cons_some chosen, List.nodup_cons] at distinct
      have absent : y = x → ∀ d ∈ rest, p d ≠ some x := by
        rintro rfl d inside selected
        exact distinct.1 (List.mem_filterMap.mpr ⟨d, inside, selected⟩)
      rcases List.mem_cons.mp first with rfl | inside <;> rcases List.mem_cons.mp second with rfl | also
      · rfl
      · exact absurd right (absent (Option.some_injective _ (chosen.symm.trans left)) b also)
      · exact absurd left (absent (Option.some_injective _ (chosen.symm.trans right)) a inside)
      · exact ih distinct.2 inside also

/-- Everything the mux owes its clients, as its history tells it. -/
structure Routed (s : Mux) : Prop where
  queue : (takenFrom s.history ++ s.kernel).map Frame.id = List.range s.arrivals
  sorted : ∀ f ∈ takenFrom s.history, 0 < f.bytes.length → f.bytes.length ≤ frameSize →
    ∃ a audience, .took f a audience ∈ s.history
  sized : ∀ f a audience, .took f a audience ∈ s.history →
    0 < f.bytes.length ∧ f.bytes.length ≤ frameSize
  classified : ∀ f a audience, .took f a audience ∈ s.history →
    (a = none ↔ isArp f.bytes = true) ∧ ∀ c, a = some c → audience = [c]
  /-- a skipped frame does not fit, and nobody has it or loses it -/
  skipped : ∀ f, .skipped f ∈ s.history → (f.bytes.length = 0 ∨ frameSize < f.bytes.length) ∧
    ∀ c, f ∉ deliveredTo c s.history ++ waiting s c ++ discardedOf c s.history ++ droppedOf c s.history
  returned : s.returned = deliveries s.history
  whole : ∀ c f bytes, .delivered c f bytes ∈ s.history → bytes = f.bytes
  own : ∀ f c d audience bytes, .took f (some c) audience ∈ s.history →
    .delivered d f bytes ∈ s.history → d = c
  order : ∀ c, ((deliveredTo c s.history).map Frame.id).Pairwise (· < ·)
  settled : ∀ c, (deliveredTo c s.history ++ waiting s c ++ discardedOf c s.history ++
    droppedOf c s.history).Perm (assignedTo c s.history)
  counted : ∀ c, s.stats.dropped c = UInt64.ofNat (droppedOf c s.history).length

variable {s : Mux}

theorem own_frames (routing : Routing s) {f : Frame} {c d : Client} {l : List Client} {bytes : List UInt8}
    (taken : .took f (some c) l ∈ s.history) (given : .delivered d f bytes ∈ s.history) : d = c := by
  have assigned := (routing.books d).mem_assigned (.inl (mem_deliveredTo.mpr ⟨bytes, given⟩))
  obtain ⟨a, audience, also, inside⟩ := mem_assignedTo.mp assigned
  have distinct : (takenFrom s.history).Nodup := by
    have ids := routing.recorded.queue
    rw [List.map_append] at ids
    apply List.Nodup.of_map Frame.id
    have range : (List.range s.arrivals).Nodup := List.nodup_range
    rw [← ids] at range
    exact range.of_append_left
  have same : Event.took f a audience = .took f (some c) l := selected_once distinct also taken rfl rfl
  obtain ⟨rfl, rfl⟩ : a = some c ∧ audience = l := by simpa using same
  obtain rfl := (routing.recorded.classified f (some c) audience taken).2 c rfl
  simpa using inside

theorem Routing.routed (routing : Routing s) (returned : s.returned = deliveries s.history) : Routed s := by
  obtain ⟨queue, sized, classified, skipped, whole, counted⟩ := routing.recorded
  constructor
  · exact queue
  · intro f taken filled fits
    obtain ⟨e, present, chosen⟩ := List.mem_filterMap.mp taken
    cases e with
    | took g a audience =>
      obtain rfl : g = f := by simpa using chosen
      exact ⟨a, audience, present⟩
    | skipped g =>
      obtain rfl : g = f := by simpa using chosen
      have unfit := skipped g present
      omega
    | _ => simp at chosen
  · exact sized
  · exact classified
  · intro f present
    refine ⟨skipped f present, fun c placed => ?_⟩
    -- a frame that is somebody's was taken, so it fits
    have mine := (routing.books c).settled.mem_iff.mp (by simpa [noneInHand] using placed)
    obtain ⟨a, audience, taken, _⟩ := mem_assignedTo.mp mine
    have fits := sized f a audience taken
    have unfit := skipped f present
    omega
  · exact returned
  · exact whole
  · intro f c d audience bytes taken given
    exact own_frames routing taken given
  · exact fun c => (routing.books c).once
  · intro c
    simpa [noneInHand] using (routing.books c).settled
  · exact counted

theorem step_routing (routing : Routing s) (returned : s.returned = deliveries s.history) (op : Op) :
    Routing (step s op) ∧ (step s op).returned = deliveries (step s op).history := by
  cases op with
  | arrive bytes =>
    obtain ⟨⟨queue, sized, classified, skipped, whole, counted⟩, books⟩ := routing
    refine ⟨⟨⟨?_, sized, classified, skipped, whole, counted⟩, books⟩, returned⟩
    have longer : (takenFrom s.history ++ (s.kernel ++ [(⟨s.arrivals, bytes⟩ : Frame)])).map Frame.id =
        (takenFrom s.history ++ s.kernel).map Frame.id ++ [s.arrivals] := by
      simp
    simp only [step]
    rw [longer, queue, List.range_succ]
  | pull who now memory =>
    obtain ⟨⟨recorded, books⟩, kept, reported⟩ := pull_routing now memory routing (Nat.le_refl frameSize)
    constructor
    · obtain ⟨queue, sized, classified, skipped, whole, counted⟩ := recorded
      exact ⟨⟨queue, sized, classified, skipped, whole, counted⟩, books⟩
    · simp only [step, returns, kept, reported, returned]
  | claim k =>
    refine ⟨claim_routing k routing, ?_⟩
    simp only [step, netmuxClaim]
    split
    · exact returned
    · split <;> exact returned
  | forget who =>
    refine ⟨forget_routing routing, ?_⟩
    simpa [step, netmuxForget, deliveries, List.filterMap_map] using returned

theorem boot_routing : Routing boot := by
  refine ⟨⟨rfl, ?_, ?_, ?_, ?_, fun c => rfl⟩, fun c => Ledger.empty Frame.id⟩ <;>
    simp [boot]

theorem run_routing (ops : List Op) :
    Routing (run ops) ∧ (run ops).returned = deliveries (run ops).history := by
  suffices ∀ s, Routing s ∧ s.returned = deliveries s.history →
      Routing (ops.foldl step s) ∧ (ops.foldl step s).returned = deliveries (ops.foldl step s).history from
    this boot ⟨boot_routing, rfl⟩
  induction ops with
  | nil => exact fun s h => h
  | cons op ops ih => exact fun s h => ih (step s op) (step_routing h.1 h.2 op)

/-- Frame routing over every run: any frames, any interleaving of pulls with any
clocks, claims and forgets, whatever the heap answers. -/
theorem frame_routing (ops : List Op) : Routed (run ops) :=
  (run_routing ops).1.routed (run_routing ops).2

theorem long_skipped (bytes : List UInt8) (long : frameSize < bytes.length) :
    let s := run [.arrive bytes, .pull .nsk 0 fun _ _ => true]
    s.history = [.skipped ⟨0, bytes⟩] ∧ ∀ c, waiting s c = [] := by
  have filled : bytes ≠ [] := by
    rintro rfl
    exact absurd long (Nat.not_lt_zero _)
  constructor
  · simp [run, step, returns, netmuxPull, asked, boot, blankStash, drain, skip, Mux.log, filled, long]
  · intro c
    apply Fifo.contents_nil
    cases c <;> simp [run, step, returns, netmuxPull, asked, boot, blankStash, drain, skip, Mux.log,
      filled, long]

/-- A frame longer than the buffer leaves the kernel's queue and the books. -/
theorem oversized_uncounted : ¬∀ ops : List Op, ∀ f ∈ takenFrom (run ops).history, ∃ c : Client,
    f ∈ deliveredTo c (run ops).history ++ waiting (run ops) c ++ discardedOf c (run ops).history ++
      droppedOf c (run ops).history := by
  intro all
  obtain ⟨bytes, long⟩ : ∃ bytes : List UInt8, frameSize < bytes.length := by
    refine ⟨List.replicate 2049 0, ?_⟩
    rw [List.length_replicate]
    decide
  obtain ⟨history, idle⟩ := long_skipped bytes long
  have taken := all [.arrive bytes, .pull .nsk 0 fun _ _ => true] ⟨0, bytes⟩
  obtain ⟨c, settled⟩ := taken (by simp [history, takenFrom])
  simp [history, idle, deliveredTo, discardedOf, droppedOf] at settled

end Runs
end R2Apps.FrameRouting
