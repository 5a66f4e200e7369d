import Mathlib.Algebra.Ring.Int.Defs
import R2Apps.TelegramSending

/-! The updates of a bot are applied once and in order, and none is skipped, as long as a
token that is entered finds the offset at or below every update of its bot that has not
been applied. The offset is not set back when the bot changes, so that can fail. -/
namespace R2Apps.TelegramUpdates
open TelegramApp TelegramSession TelegramQueues TelegramSending

def number (u : Update) : Int := u.id.getD 0

/-- All updates of each bot, those to come included: numbered upwards, in 64 bits. -/
structure Feed where
  all : Bytes → List Update
  numbered : ∀ b, ∀ u ∈ all b, u.id = some (number u) ∧ 0 ≤ number u ∧ number u + 1 < 2 ^ 63
  upward : ∀ b, (all b).Pairwise fun u v => number u < number v

/-- What a server may answer to `getUpdates`: of the updates from the offset on, the first ones, as the
offsets a bot is asked with only grow and nothing above has been forgotten. An answer that is repeated,
or comes late, may bring any update below the offset again. -/
def Feed.answers (f : Feed) (b : Bytes) (offset : Int) (updates : List Update) : Prop :=
  (∀ u ∈ updates, u.id = some (number u)) ∧
    updates.filter (fun u => offset ≤ number u) <+: (f.all b).filter fun u => offset ≤ number u

/-- The updates applied with a token of this bot, in the order in which they were. -/
def appliedTo (b : Bytes) (log : List (Bytes × Update)) : List Update :=
  (log.filter fun p => bot p.1 = b).map Prod.snd

/-- Nothing of the bot is behind the offset but what has been applied. -/
def Unskipped (f : Feed) (b : Bytes) (offset : Int) (log : List (Bytes × Update)) : Prop :=
  ∀ u ∈ f.all b, u ∉ appliedTo b log → offset ≤ number u

structure Ledger (f : Feed) (token : Bytes) (offset : Int) (log : List (Bytes × Update)) : Prop where
  once : ∀ b, (appliedTo b log).Pairwise fun u v => number u < number v
  below : ∀ p ∈ log, number p.2 < offset
  unskipped : Unskipped f (bot token) offset log

section Lists
variable {f : Feed} {b token : Bytes} {offset : Int} {log : List (Bytes × Update)} {u : Update}

theorem appliedTo_snoc (b token : Bytes) (log : List (Bytes × Update)) (u : Update) :
    appliedTo b (log ++ [(token, u)]) = appliedTo b log ++ if bot token = b then [u] else [] := by
  by_cases same : bot token = b <;> simp [appliedTo, same]

theorem filter_next {l rest : List Update} (upward : l.Pairwise fun u v => number u < number v)
    (first : l.filter (fun v => offset ≤ number v) = u :: rest) :
    offset ≤ number u ∧ l.filter (fun v => number u + 1 ≤ number v) = rest := by
  have kept : offset ≤ number u := by
    have member : u ∈ l.filter fun v => offset ≤ number v := first ▸ List.mem_cons_self
    exact of_decide_eq_true (List.mem_filter.mp member).2
  have sorted : (u :: rest).Pairwise fun u v => number u < number v := first ▸ upward.filter _
  obtain ⟨above, -⟩ := List.pairwise_cons.mp sorted
  refine ⟨kept, ?_⟩
  calc l.filter (fun v => number u + 1 ≤ number v)
      = (l.filter fun v => offset ≤ number v).filter (fun v => number u + 1 ≤ number v) := by
        rw [List.filter_filter]
        refine List.filter_congr fun v _ => ?_
        by_cases high : number u + 1 ≤ number v
        · have low : offset ≤ number v := by omega
          simp [high, low]
        · simp [high]
    _ = rest := by
        rw [first, List.filter_cons_of_neg (by rw [decide_eq_true_iff]; omega)]
        refine List.filter_eq_self.mpr fun v member => ?_
        have := above v member
        exact decide_eq_true (by omega)

theorem ledger_apply {rest : List Update} (l : Ledger f token offset log)
    (first : (f.all (bot token)).filter (fun v => offset ≤ number v) = u :: rest) :
    Ledger f token (number u + 1) (log ++ [(token, u)]) := by
  obtain ⟨kept, tail⟩ := filter_next (f.upward (bot token)) first
  refine ⟨fun b => ?_, fun p member => ?_, fun v member unapplied => ?_⟩
  · rw [appliedTo_snoc]
    split
    · refine List.pairwise_append.mpr ⟨l.once b, List.pairwise_singleton _ _, fun v old w new => ?_⟩
      rw [List.mem_singleton.mp new]
      obtain ⟨p, logged, rfl⟩ := List.mem_map.mp old
      have := l.below p (List.mem_of_mem_filter logged)
      omega
    · rw [List.append_nil]
      exact l.once b
  · rcases List.mem_append.mp member with old | new
    · have := l.below p old
      omega
    · rw [List.mem_singleton.mp new]
      exact Int.lt_succ (number u)
  · rw [appliedTo_snoc, if_pos rfl, List.mem_append, List.mem_singleton, not_or] at unapplied
    have from_ := l.unskipped v member unapplied.1
    have inFilter : v ∈ u :: rest := first ▸ List.mem_filter.mpr ⟨member, decide_eq_true from_⟩
    rcases List.mem_cons.mp inFilter with here | later
    · exact absurd here unapplied.2
    · rw [← tail] at later
      exact of_decide_eq_true (List.mem_filter.mp later).2

end Lists

/-! An answer to the poll. -/
section Answer
variable {f : Feed} {a : App}

def Kept (f : Feed) (a : App) : Prop := Ledger f a.token a.offset a.applied

theorem Kept.of_session {b : App} (kept : Kept f a) (same : session b = session a) : Kept f b := by
  have token : b.token = a.token := congrArg (·.1) same
  have offset : b.offset = a.offset := congrArg (·.2.2.2.1) same
  have applied : b.applied = a.applied := congrArg (·.2.2.2.2.2.2.1) same
  unfold Kept
  rw [token, offset, applied]
  exact kept

theorem takeUpdate_next {u : Update} {n : Int} (fresh : a.offset ≤ n) (id : u.id = some n) :
    (takeUpdate a u).token = a.token ∧ (takeUpdate a u).offset = n + 1 ∧
      (takeUpdate a u).applied = a.applied ++ [(a.token, u)] := by
  have late : ¬n < a.offset := by omega
  simp only [takeUpdate, id, if_neg late]
  cases u.message with
  | none => exact ⟨rfl, rfl, rfl⟩
  | some m =>
      have same := takeMessage_session m { a with offset := n + 1, applied := a.applied ++ [(a.token, u)] }
      exact ⟨congrArg (·.1) same, congrArg (·.2.2.2.1) same, congrArg (·.2.2.2.2.2.2.1) same⟩

theorem takeUpdate_again {u : Update} {n : Int} (old : n < a.offset) (id : u.id = some n) :
    takeUpdate a u = a := by
  simp only [takeUpdate, id, if_pos old]

theorem updates_kept (updates : List Update) : ∀ {a : App}, Kept f a →
    f.answers (bot a.token) a.offset updates → Kept f (updates.foldl takeUpdate a) := by
  induction updates with
  | nil => exact fun kept _ => kept
  | cons u rest ih =>
      intro a kept answers
      obtain ⟨numbered, tail, whole⟩ := answers
      have id := numbered u List.mem_cons_self
      have later : ∀ v ∈ rest, v.id = some (number v) :=
        fun v member => numbered v (List.mem_cons_of_mem _ member)
      rw [List.foldl_cons]
      by_cases old : number u < a.offset
      -- an update told again is passed over
      · have passed : (u :: rest).filter (fun v => a.offset ≤ number v) = rest.filter fun v =>
            a.offset ≤ number v :=
          List.filter_cons_of_neg (by rw [decide_eq_true_iff]; omega)
        rw [passed] at whole
        rw [takeUpdate_again old id]
        exact ih kept ⟨later, tail, whole⟩
      · have taken : (u :: rest).filter (fun v => a.offset ≤ number v) =
            u :: rest.filter fun v => a.offset ≤ number v :=
          List.filter_cons_of_pos (decide_eq_true (Int.not_lt.mp old))
        rw [taken] at whole
        have first : (f.all (bot a.token)).filter (fun v => a.offset ≤ number v) =
            u :: (rest.filter (fun v => a.offset ≤ number v) ++ tail) := whole.symm
        obtain ⟨fresh, next⟩ := filter_next (f.upward (bot a.token)) first
        obtain ⟨token, offset, applied⟩ := takeUpdate_next fresh id
        refine ih ?_ ⟨later, tail, ?_⟩
        · unfold Kept
          rw [token, offset, applied]
          exact ledger_apply kept first
        · -- what is left of the answer stands behind the update just taken
          have sorted := (f.upward (bot a.token)).filter fun v => a.offset ≤ number v
          rw [first, List.pairwise_cons] at sorted
          have behind : rest.filter (fun v => number u + 1 ≤ number v) = rest.filter fun v =>
              a.offset ≤ number v := by
            refine List.filter_congr fun v member => ?_
            by_cases above : a.offset ≤ number v
            · have inside : v ∈ rest.filter (fun v => a.offset ≤ number v) ++ tail :=
                List.mem_append_left _ (List.mem_filter.mpr ⟨member, decide_eq_true above⟩)
              have := sorted.1 v inside
              have next : number u + 1 ≤ number v := by omega
              simp [above, next]
            · have next : ¬number u + 1 ≤ number v := by omega
              simp [above, next]
          rw [token, offset, behind]
          exact next.symm

end Answer

/-! A run against a server. -/
section Runs
variable {f : Feed} {a : App}

/-- The request in flight is the last submitted, with the token in use; a poll asks for the offset. -/
structure Flight (a : App) : Prop where
  poll : a.request = some .poll → a.stale = false →
    a.jobs.getLast? = some ⟨.poll, a.token, .getUpdates a.offset⟩
  owner : a.request ≠ none → a.stale = false → ∃ j, a.jobs.getLast? = some j ∧ j.token = a.token

structure Exact (f : Feed) (a : App) : Prop where
  kept : Kept f a
  flight : Flight a
  waiting : Waiting a

/-- The answer of a poll is one that the server may give to the last request. -/
def Serves (f : Feed) (a : App) : Event → Prop
  | .turn (some r) _ _ _ _ _ => a.request = some .poll → r.err = none → r.ok = true →
      ∀ j offset, a.jobs.getLast? = some j → j.call = .getUpdates offset →
        f.answers (bot j.token) offset r.payload.updates
  | _ => True

/-- A token that is entered finds its bot's updates at or above the offset. -/
def Fresh (f : Feed) (a : App) : Event → Prop
  | .key k _ => enters k a → Unskipped f (bot a.input) a.offset a.applied
  | _ => True

theorem Flight.of_session {b : App} (flight : Flight a) (same : session b = session a) : Flight b := by
  have token : b.token = a.token := congrArg (·.1) same
  have offset : b.offset = a.offset := congrArg (·.2.2.2.1) same
  have request : b.request = a.request := congrArg (·.2.2.2.2.1) same
  have stale : b.stale = a.stale := congrArg (·.2.2.2.2.2.1) same
  have jobs : b.jobs = a.jobs := congrArg (·.2.2.2.2.2.2.2) same
  constructor
  · rw [token, offset, request, stale, jobs]
    exact flight.poll
  · rw [token, request, stale, jobs]
    exact flight.owner

theorem Flight.idle {b : App} (free : b.request = none) : Flight b :=
  ⟨fun poll => absurd (free.symm.trans poll) (Option.some_ne_none _).symm, fun busy => absurd free busy⟩

theorem Exact.of_still {b : App} (exact_ : Exact f a) (same : still b = still a) : Exact f b := by
  have session_ : session b = session a := congrArg (·.2.2) same
  exact ⟨exact_.kept.of_session session_, exact_.flight.of_session session_,
    still_waiting same exact_.waiting⟩

theorem backToSetup_exact (exact_ : Exact f a) : Exact f (backToSetup a) := by
  refine ⟨?_, ?_, backToSetup_waiting a⟩
  · unfold backToSetup
    dsimp only
    split <;> exact exact_.kept
  · unfold backToSetup
    dsimp only
    split
    · exact ⟨fun _ fresh => absurd fresh.symm Bool.false_ne_true, fun _ fresh =>
        absurd fresh.symm Bool.false_ne_true⟩
    · next free => exact Flight.idle (Decidable.not_not.mp free)

theorem key_exact (k : Key) (clip : Clipboard) (exact_ : Exact f a) (fresh : Fresh f a (.key k clip)) :
    Exact f (key k clip a) := by
  rcases key_cases a k clip with same | ⟨enter, same⟩ | ⟨-, same⟩
  · exact exact_.of_still same
  · rw [same]
    -- a request in flight belongs to the token before, and its answer is not wanted
    have stale : a.request ≠ none → a.stale = true := exact_.waiting enter.2.2.2.2.2.2.2.1
    refine ⟨⟨exact_.kept.once, exact_.kept.below, fresh enter⟩,
      ⟨fun poll unstale => ?_, fun busy unstale => ?_⟩,
      fun setup => absurd setup Bool.false_ne_true⟩
    · have busy : a.request ≠ none := fun free => Option.some_ne_none _ ((poll.symm.trans free))
      exact absurd ((stale busy).symm.trans unstale).symm Bool.false_ne_true
    · exact absurd ((stale busy).symm.trans unstale).symm Bool.false_ne_true
  · rw [same]
    exact backToSetup_exact exact_

theorem accepted_kept (r : Result) (kept : Kept f a) (answers : a.request = some .poll →
    f.answers (bot a.token) a.offset r.payload.updates) :
    Kept f (accepted a.request r.payload { a with request := none }) := by
  have free : Kept f { a with request := none } := kept
  unfold accepted
  split
  · exact free
  · exact free.of_session (takeMessage_session r.payload.message (dropOut { a with request := none }))
  · unfold reacted
    split
    · exact free
    · unfold keepReaction
      split <;> exact free
  · exact free.of_session
      (takeMessage_session r.payload.message { a with request := none, photoQueued := false })
  · unfold gotPath
    split
    · exact free
    · split <;> exact free
  · next poll => exact updates_kept r.payload.updates free (answers poll)
  · exact free

theorem finished_kept (now : UInt64) (started : Bool) (r : Result) (kept : Kept f a)
    (answers : a.stale = false → r.err = none → r.ok = true → a.request = some .poll →
      f.answers (bot a.token) a.offset r.payload.updates) : Kept f (finished now started r a) := by
  have gives : ∀ (was : Option Request) (t : UInt64),
      Kept f { giveUp was { a with request := none } with retryAt := t } := fun was t =>
    Kept.of_session (a := { a with request := none }) kept (giveUp_session was { a with request := none }).1
  simp only [finished]
  by_cases stale : a.stale = true
  · rw [if_pos stale]
    exact kept
  · rw [if_neg stale]
    cases err : r.err with
    | some e =>
        dsimp only
        split
        · exact kept
        · exact gives _ _
    | none =>
        dsimp only
        split
        · exact kept
        · split
          · next ok => exact accepted_kept r kept (answers (Bool.eq_false_iff.mpr stale) err ok)
          · unfold refused
            split
            · unfold backToSetup
              dsimp only
              split <;> exact kept
            · exact gives _ _

theorem startNext_flight (a : App) : session (startNext a) = session a ∨ ∃ kind call,
    session (startNext a) = session (begin_ kind call a) ∧ (kind = .poll → call = .getUpdates a.offset) := by
  unfold startNext
  split
  · exact Or.inr ⟨_, _, rfl, fun no => Request.noConfusion no⟩
  · split
    · exact Or.inr ⟨_, _, rfl, fun no => Request.noConfusion no⟩
    · split
      · exact Or.inr ⟨_, _, rfl, fun no => Request.noConfusion no⟩
      · split
        · exact Or.inr ⟨_, _, rfl, fun no => Request.noConfusion no⟩
        · split
          · split
            · exact Or.inr ⟨_, _, rfl, fun no => Request.noConfusion no⟩
            · exact Or.inr ⟨_, _, rfl, fun no => Request.noConfusion no⟩
          · exact Or.inr ⟨_, _, rfl, fun _ => rfl⟩

theorem begin_exact {kind : Request} {call : Call} (exact_ : Exact f a) (chatting : a.setup = false)
    (poll : kind = .poll → call = .getUpdates a.offset) : Exact f (begin_ kind call a) := by
  refine ⟨exact_.kept,
    ⟨fun asked _ => ?_, fun _ _ => ⟨(⟨kind, a.token, call⟩ : Job), List.getLast?_concat, rfl⟩⟩,
    fun setup => absurd (chatting.symm.trans setup) Bool.false_ne_true⟩
  have same : kind = .poll := Option.some.inj asked
  change (a.jobs ++ [(⟨kind, a.token, call⟩ : Job)]).getLast? = _
  rw [List.getLast?_concat, same, poll same]
  rfl

theorem idle_exact (now : UInt64) (done : Bool) (exact_ : Exact f a) : Exact f (idle now done a) := by
  have decoded : still (if a.mp4Busy then decodeSome done a else a) = still a := by
    unfold decodeSome
    split
    · split
      · dsimp only
        split <;> rfl
      · rfl
    · rfl
  have next : ∀ b : App, Exact f b → b.setup = false →
      Exact f (if b.request ≠ none ∨ now < b.retryAt then b else startNext b) := by
    intro b exactB chatting
    split
    · exact exactB
    · rcases startNext_flight b with same | ⟨kind, call, same, poll⟩
      · exact ⟨exactB.kept.of_session same, exactB.flight.of_session same, fun setup =>
          absurd (chatting.symm.trans ((congrArg (·.2.1) same).symm.trans setup)) Bool.false_ne_true⟩
      · have begun := begin_exact exactB chatting poll
        exact ⟨begun.kept.of_session same, begun.flight.of_session same, fun setup =>
          absurd (chatting.symm.trans ((congrArg (·.2.1) same).symm.trans setup)) Bool.false_ne_true⟩
  by_cases setup : a.setup = true
  · rw [idle, if_pos setup]
    exact exact_
  · have chatting : a.setup = false := Bool.eq_false_iff.mpr setup
    rw [idle, if_neg setup]
    exact next _ (exact_.of_still decoded) ((congrArg (·.2.2.2.1) decoded).trans chatting)

theorem answer_exact {r : Result} {at_ now : UInt64} {started done : Bool} {layout : Layout}
    (exact_ : Exact f a)
    (serves : Serves f a (.turn (some r) at_ now started done layout)) :
    Exact f (finished at_ started r a) := by
  have kept : Kept f (finished at_ started r a) :=
      finished_kept at_ started r exact_.kept fun fresh err ok poll => by
    have asked := exact_.flight.poll poll fresh
    exact serves poll err ok _ a.offset asked rfl
  rcases finished_cases at_ started r a with ⟨same, -⟩ | ⟨-, same⟩
  · have free : (finished at_ started r a).request = none := congrArg (·.2.2.1) same
    exact ⟨kept, Flight.idle free, fun _ busy => absurd free busy⟩
  · rw [same]
    exact backToSetup_exact ⟨exact_.kept, Flight.idle rfl, fun _ busy => absurd rfl busy⟩

theorem step_exact {e : Event} (exact_ : Exact f a) (serves : Serves f a e) (fresh : Fresh f a e) :
    Exact f (step a e) := by
  cases e with
  | key k clip => exact key_exact k clip exact_ fresh
  | click x y right => exact exact_.of_still (click_still a x y right)
  | resize width height => exact exact_.of_still rfl
  | turn answer at_ now started done layout =>
      have answered : Exact f (takeAnswer answer at_ started a) := by
        cases answer with
        | none => exact exact_
        | some r => exact answer_exact exact_ serves
      have idled := idle_exact now done answered
      simp only [step]
      unfold paint
      split
      · exact idled
      · exact ⟨idled.kept, ⟨idled.flight.poll, idled.flight.owner⟩, idled.waiting⟩

theorem start_exact (token : Option Bytes) (width height : Int) (layout : Layout) (msgs : Nat → Msg) :
    Exact f (start token width height layout msgs) := by
  have ledger : ∀ token : Bytes, Ledger f token 0 [] := fun token =>
    ⟨fun _ => List.Pairwise.nil, fun _ member => absurd member List.not_mem_nil,
      fun u member _ => (f.numbered _ u member).2.1⟩
  have waits : ∀ a : App, a.request = none → Waiting a := fun _ free _ busy => absurd free busy
  unfold start
  dsimp only
  split
  · next t =>
    split
    · exact ⟨ledger t, Flight.idle rfl, waits _ rfl⟩
    · exact ⟨ledger [], Flight.idle rfl, waits _ rfl⟩
  · exact ⟨ledger [], Flight.idle rfl, waits _ rfl⟩

theorem reach_exact (reached : Reach (fun a e => Serves f a e ∧ Fresh f a e) a) : Exact f a := by
  induction reached with
  | start token width height layout msgs => exact start_exact token width height layout msgs
  | next e _ _ ok ih => exact step_exact ih ok.1 ok.2

/-- What the bots' updates may expect. -/
structure OnceEach (f : Feed) (a : App) : Prop where
  /-- each is applied at most once, in the order of the numbers -/
  ordered : ∀ b, (appliedTo b a.applied).Pairwise fun u v => number u < number v
  /-- a poll asks for no more than what has not been applied -/
  asked : a.request = some .poll → a.stale = false →
    a.jobs.getLast? = some ⟨.poll, a.token, .getUpdates a.offset⟩ ∧
      Unskipped f (bot a.token) a.offset a.applied
  /-- an answer that belongs to another token changes nothing -/
  ignored : ∀ now started r j, a.request ≠ none → a.jobs.getLast? = some j → j.token ≠ a.token →
    finished now started r a = { a with request := none, stale := false }

theorem Exact.onceEach (exact_ : Exact f a) : OnceEach f a := by
  refine ⟨exact_.kept.once, fun poll fresh => ⟨exact_.flight.poll poll fresh, exact_.kept.unskipped⟩,
    fun now started r j busy last foreign => ?_⟩
  by_cases stale : a.stale = true
  · exact finished_stale now started r stale
  · obtain ⟨mine, same, owned⟩ := exact_.flight.owner busy (Bool.eq_false_iff.mpr stale)
    rw [last] at same
    rw [← Option.some.inj same] at owned
    exact absurd owned foreign

/-- In every run against a server that answers so, repeating what it likes, in which a token finds its
bot's updates at or above the offset when it is entered, they are applied once each and none is skipped. -/
theorem updates_once : ∀ f a, Reach (fun a e => Serves f a e ∧ Fresh f a e) a → OnceEach f a :=
  fun _ _ reached => (reach_exact reached).onceEach

end Runs

/-! A second bot, whose numbers are lower. -/
section SecondBot

def firstToken : Bytes := [49, 58] ++ List.replicate 20 65
def secondToken : Bytes := [50, 58] ++ List.replicate 20 65

def numbered (n : Int) : Update := ⟨some n, none⟩

/-- The first bot has an update 100, the second one 5. -/
def twoBots : Feed where
  all b := if b = [49] then [numbered 100] else if b = [50] then [numbered 5] else []
  numbered := by
    intro b u member
    split at member
    · rw [List.mem_singleton.mp member]
      exact ⟨rfl, by decide, by decide⟩
    · split at member
      · rw [List.mem_singleton.mp member]
        exact ⟨rfl, by decide, by decide⟩
      · exact absurd member List.not_mem_nil
  upward := by
    intro b
    split
    · exact List.pairwise_singleton _ _
    · split
      · exact List.pairwise_singleton _ _
      · exact List.Pairwise.nil

def firstBegun : App := start (some firstToken) 600 340 blank fun _ => ⟨none, [], 0, none⟩

def named : Payload := { noPayload with username := [98] }

def polled : App := run firstBegun [waitTurn, answer named]

def firstUpdate : Event := answer { noPayload with updates := [numbered 100] }

def received : App := step polled firstUpdate

/-- The next poll is answered with the same update once more. -/
def repeated : App := step received firstUpdate

/-- Ctrl+T, the token taken off, the other pasted, and Enter. -/
def retyping : List Event :=
  [pressed { noKey with ctrl := true, isChar := true, char := 116 }] ++
    List.replicate 22 (pressed { noKey with backspace := true }) ++
    [.key { noKey with ctrl := true, isChar := true, char := 118 } ⟨secondToken, false, none⟩,
      pressed { noKey with enter := true }]

def retyped : App := run received retyping

/-- The dropped answer to the poll of the first bot, and the name of the second. -/
def second : App := step (step retyped (answer noPayload)) (answer named)

theorem keys_reached {f : Feed} (es : List Event) : ∀ a, Reach (Serves f) a →
    (∀ e ∈ es, ∃ k clip, e = .key k clip) → Reach (Serves f) (run a es) := by
  induction es with
  | nil => exact fun a reached _ => reached
  | cons e rest ih =>
      intro a reached keys
      obtain ⟨k, clip, rfl⟩ := keys e List.mem_cons_self
      exact ih _ (.next (.key k clip) reached trivial trivial) fun e' member =>
        keys e' (List.mem_cons_of_mem _ member)

theorem answer_reached {ok : App → Event → Prop} {a : App} {p : Payload} (reached : Reach ok a)
    (busy : a.request.isSome = true) (may : ok a (answer p)) : Reach ok (step a (answer p)) :=
  .next _ reached ⟨fun _ => Option.isSome_iff_ne_none.mp busy, blank_shows _⟩ may

theorem received_reached : Reach (fun a e => Serves twoBots a e ∧ Fresh twoBots a e) received := by
  have begun : Reach (fun a e => Serves twoBots a e ∧ Fresh twoBots a e) firstBegun := .start _ _ _ _ _
  have waited : Reach (fun a e => Serves twoBots a e ∧ Fresh twoBots a e) (step firstBegun waitTurn) :=
    .next waitTurn begun ⟨fun no => absurd rfl no, blank_shows _⟩ ⟨trivial, trivial⟩
  have polled_ : Reach (fun a e => Serves twoBots a e ∧ Fresh twoBots a e) polled :=
    answer_reached (p := named) waited (by decide) ⟨fun poll => absurd poll (by decide), trivial⟩
  refine answer_reached polled_ (by decide) ⟨fun _ _ _ j offset last call => ?_, trivial⟩
  have asked : polled.jobs.getLast? = some ⟨.poll, firstToken, .getUpdates 0⟩ := by decide
  rw [asked] at last
  rw [← Option.some.inj last] at call ⊢
  rw [← Call.getUpdates.inj call]
  exact ⟨by decide, [], by decide⟩

theorem repeated_reached : Reach (fun a e => Serves twoBots a e ∧ Fresh twoBots a e) repeated := by
  refine answer_reached received_reached (by decide) ⟨fun _ _ _ j offset last call => ?_, trivial⟩
  have asked : received.jobs.getLast? = some ⟨.poll, firstToken, .getUpdates 101⟩ := by decide
  rw [asked] at last
  rw [← Option.some.inj last] at call ⊢
  rw [← Call.getUpdates.inj call]
  exact ⟨by decide, [], by decide⟩

/-- The update that came twice has been applied once. -/
theorem updates_once_repeated : repeated.applied = [(firstToken, numbered 100)] ∧ OnceEach twoBots repeated :=
  ⟨by decide, updates_once twoBots repeated repeated_reached⟩

set_option maxRecDepth 100000 in
theorem second_reached : Reach (Serves twoBots) second := by
  have first : Reach (Serves twoBots) received := received_reached.weaken fun _ _ both => both.1
  have typed : Reach (Serves twoBots) retyped := by
    refine keys_reached retyping received first fun e member => ?_
    simp only [retyping, pressed, List.mem_append, List.mem_cons, List.mem_replicate,
      List.not_mem_nil, or_false]
      at member
    rcases member with (same | ⟨-, same⟩) | same | same <;> exact ⟨_, _, same⟩
  have dropped : Reach (Serves twoBots) (step retyped (answer noPayload)) :=
    answer_reached typed (by decide) fun _ _ _ _ _ _ _ =>
      ⟨fun _ member => absurd member List.not_mem_nil, List.nil_prefix⟩
  exact answer_reached dropped (by decide) fun poll => absurd poll (by decide)

/-- The second bot is asked for updates from 101 on, and its update 5 is never read. -/
theorem second_bot_skipped : ¬∀ f a, Reach (Serves f) a → OnceEach f a := by
  intro always
  obtain ⟨-, asked, -⟩ := always twoBots second second_reached
  have unskipped := (asked (by decide +kernel) (by decide +kernel)).2
  have token : second.token = secondToken := by decide +kernel
  have offset : second.offset = 101 := by decide +kernel
  have fifth : numbered 5 ∈ twoBots.all (bot second.token) := by decide +kernel
  have unread : numbered 5 ∉ appliedTo (bot second.token) second.applied := by decide +kernel
  have low := unskipped (numbered 5) fifth unread
  rw [offset] at low
  exact absurd low (by decide)

end SecondBot

end R2Apps.TelegramUpdates
