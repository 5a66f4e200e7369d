import R2Apps.TelegramClient

/-! What becomes of a job of `go/telegram/net.go`: how often the server acts on it, whether
the answer is its own, when the connection is kept, and who gives back the rooms that
`alloc` gave. -/
namespace R2Apps.TelegramPosts
open WireHttp TelegramClient
open WireBytes (ascii)

/-! One attempt. -/
section Attempts
variable (w : Outside) (fresh : Bool) (j : Job) (c : Client)

/-- The connection ends, other than by a stop, before anything is read back. -/
def Silent (e : Endpoint) : Prop :=
  match (send w e j).1 with
  | some err => isStopped err = false
  | none => isStopped w.broken = false ∧ old w c ++ w.sent = []

/-- What is on the kept connection already begins a complete answer. -/
structure Stale (e : Endpoint) : Prop where
  kept : opens w false j c = false
  uploaded : (send w e j).1 = none
  unread : old w c ≠ []
  complete : ∃ answer, (readAlloc w.broken (answerLimit j) (old w c ++ w.sent)).answer = .ok answer

theorem attempt_unparsed {err : Err} (api : parseAPI j.api = .error err) :
    attempt w fresh j c = ⟨⟨j.kind, -1, [], none, some err, 0, false⟩, c, false, 0⟩ := by
  rw [attempt, api]

theorem attempt_undialed {e : Endpoint} {err : Err} (api : parseAPI j.api = .ok e)
    (connected : connect w fresh j c = .error err) :
    attempt w fresh j c = ⟨⟨j.kind, -1, [], none, some err, 0, false⟩, c.drop, false, 0⟩ := by
  rw [attempt, api]
  dsimp only
  rw [connected]

theorem attempt_unsent {e : Endpoint} {d : Client} {unread : Bytes} {err : Err} (api : parseAPI j.api = .ok e)
    (connected : connect w fresh j c = .ok (unread, d)) (upload : (send w e j).1 = some err) :
    attempt w fresh j c =
      ⟨⟨j.kind, -1, [], none, some err, 0, opens w fresh j c⟩, d.drop, acts w e j, 0⟩ := by
  rw [attempt, api]
  dsimp only
  rw [connected]
  dsimp only
  rw [upload]

theorem attempt_received {e : Endpoint} {d : Client} {unread : Bytes} (api : parseAPI j.api = .ok e)
    (connected : connect w fresh j c = .ok (unread, d)) (upload : (send w e j).1 = none) :
    attempt w fresh j c =
      ⟨(receive w j ⟨j.kind, -1, [], none, none, 0, opens w fresh j c⟩ unread d).1,
        (receive w j ⟨j.kind, -1, [], none, none, 0, opens w fresh j c⟩ unread d).2.1, acts w e j,
        (receive w j ⟨j.kind, -1, [], none, none, 0, opens w fresh j c⟩ unread d).2.2⟩ := by
  rw [attempt, api]
  dsimp only
  rw [connected]
  dsimp only
  rw [upload]

theorem connect_kept (kept : opens w fresh j c = false) : connect w fresh j c = .ok (old w c, c) := by
  rw [connect, kept]
  rfl

theorem connect_refused {err : Err} (opened : opens w fresh j c = true) (dial : w.dial = some err) :
    connect w fresh j c = .error err := by
  rw [connect, if_pos opened, dial]

theorem connect_dialed (opened : opens w fresh j c = true) (dial : w.dial = none) :
    connect w fresh j c = .ok ([], { c with conn := some ⟨[], none⟩, key := j.api }) := by
  rw [connect, if_pos opened, dial]

theorem opens_fresh : opens w true j c = true := rfl

end Attempts

/-! The answer of one attempt. -/
section Receiving
variable (w : Outside) (j : Job) (r : Result) (unread : Bytes) (c : Client)

theorem receive_error {err : Err}
    (failed : (readAlloc w.broken (answerLimit j) (unread ++ w.sent)).answer = .error err) :
    (receive w j r unread c).1.fresh = r.fresh ∧
      (receive w j r unread c).1.status = (if unread ++ w.sent = [] then r.status else 0) ∧
      (receive w j r unread c).1.release = none ∧
      (∃ shown, (receive w j r unread c).1.err = some shown ∧ isStopped shown = isStopped err) ∧
      (receive w j r unread c).2.1.conn = none ∧ (receive w j r unread c).2.2 = 0 := by
  simp only [receive, failed, Result.free]
  refine ⟨trivial, trivial, trivial, ⟨_, rfl, ?_⟩, rfl, trivial⟩
  split
  · next large => rw [large]; rfl
  · rfl

theorem receive_ok {resp : Response} {rest : Bytes}
    (read : (readAlloc w.broken (answerLimit j) (unread ++ w.sent)).answer = .ok (resp, rest)) :
    (receive w j r unread c).1.err = r.err ∧
      (receive w j r unread c).2.2 = min unread.length ((unread ++ w.sent).length - rest.length) ∧
      (receive w j r unread c).2.1.conn =
        (if resp.reusable then some ⟨rest.drop w.ahead, some resp⟩ else none) := by
  simp only [receive, read]
  refine ⟨trivial, trivial, ?_⟩
  split <;> rfl

end Receiving

/-! How often the server acts. -/
section Acting
variable {w : Outside} {j : Job} {c : Client}

theorem attempt_acted (fresh : Bool) {e : Endpoint} (api : parseAPI j.api = .ok e) :
    (attempt w fresh j c).acted = true ↔
      (opens w fresh j c = true → w.dial = none) ∧ acts w e j = true := by
  cases opened : opens w fresh j c with
  | false =>
      have connected := connect_kept w fresh j c opened
      cases upload : (send w e j).1 with
      | some err => simp [attempt_unsent w fresh j c api connected upload]
      | none => simp [attempt_received w fresh j c api connected upload]
  | true =>
      cases dial : w.dial with
      | some err => simp [attempt_undialed w fresh j c api (connect_refused w fresh j c opened dial)]
      | none =>
          have connected := connect_dialed w fresh j c opened dial
          cases upload : (send w e j).1 with
          | some err => simp [attempt_unsent w fresh j c api connected upload]
          | none => simp [attempt_received w fresh j c api connected upload]

theorem retries_post {r : Result} (posts : j.body.isSome = true) :
    retries j r = true ↔ r.fresh = false ∧ r.status = -1 ∧ ∃ err, r.err = some err ∧
      isStopped err = false := by
  have body : j.body.isNone = false := by
    rw [← Option.not_isSome, posts]
    rfl
  unfold retries
  cases r.err with
  | none => simp
  | some err =>
      simp only [body, Bool.false_or, Bool.and_eq_true, Bool.not_eq_true', beq_iff_eq, Option.some.injEq,
        exists_eq_left']
      constructor
      · rintro ⟨⟨fresh, still⟩, status⟩
        exact ⟨fresh, status, still⟩
      · rintro ⟨fresh, status, still⟩
        exact ⟨⟨fresh, still⟩, status⟩

theorem retries_kept {e : Endpoint} (posts : j.body.isSome = true) (api : parseAPI j.api = .ok e)
    (kept : opens w false j c = false) :
    retries j (attempt w false j c).result = true ↔ Silent w j c e := by
  have connected := connect_kept w false j c kept
  rw [retries_post posts]
  unfold Silent
  cases upload : (send w e j).1 with
  | some err => simp [attempt_unsent w false j c api connected upload, kept]
  | none =>
      rw [attempt_received w false j c api connected upload]
      dsimp only
      cases read : (readAlloc w.broken (answerLimit j) (old w c ++ w.sent)).answer with
      | ok answer =>
          have received := (receive_ok w j ⟨j.kind, -1, [], none, none, 0, opens w false j c⟩
            (old w c) c read).1
          simp only [received, reduceCtorEq, false_and, exists_false, and_false, false_iff, not_and]
          intro still empty
          rw [empty, readAlloc_nil] at read
          cases read
      | error err =>
          obtain ⟨fresh, status, -, ⟨shown, same, stopped⟩, -⟩ :=
            receive_error w j ⟨j.kind, -1, [], none, none, 0, opens w false j c⟩ (old w c) c read
          rw [fresh, status, same, kept]
          by_cases empty : old w c ++ w.sent = []
          · rw [empty, readAlloc_nil] at read
            cases read
            simp [empty, stopped]
          · simp [empty]

/-- The job goes out on the kept connection, the server takes all of it, nothing comes back, and the
server takes all of it again on the new connection. -/
structure Repeated (t : Trip) (j : Job) (c : Client) (e : Endpoint) : Prop where
  kept : opens t.first false j c = false
  taken : acts t.first e j = true
  silent : Silent t.first j c e
  dialed : t.second.dial = none
  again : acts t.second e j = true

variable {t : Trip} {e : Endpoint}

theorem opened_unacted (posts : j.body.isSome = true) (api : parseAPI j.api = .ok e)
    (opened : opens w false j c = true) (again : retries j (attempt w false j c).result = true) :
    (attempt w false j c).acted = false := by
  cases dial : w.dial with
  | some err => rw [attempt_undialed w false j c api (connect_refused w false j c opened dial)]
  | none =>
      have connected := connect_dialed w false j c opened dial
      have fresh := ((retries_post posts).mp again).1
      cases upload : (send w e j).1 with
      | some err =>
          rw [attempt_unsent w false j c api connected upload, opened] at fresh
          cases fresh
      | none =>
          rw [attempt_received w false j c api connected upload] at again fresh
          cases read : (readAlloc w.broken (answerLimit j) ([] ++ w.sent)).answer with
          | ok answer =>
              obtain ⟨-, -, err, failed, -⟩ := (retries_post posts).mp again
              rw [(receive_ok w j _ [] _ read).1] at failed
              cases failed
          | error err =>
              rw [(receive_error w j _ [] _ read).1, opened] at fresh
              cases fresh

theorem do_retried (again : retries j (attempt t.first false j c).result = true) :
    (do_ t j c).acted = (attempt t.first false j c).acted.toNat + (attempt t.second true j
      ((attempt t.first false j c).result.free (attempt t.first false j c).client).2).acted.toNat := by
  rw [do_, if_pos again]

theorem do_single (single : retries j (attempt t.first false j c).result = false) :
    (do_ t j c).acted = (attempt t.first false j c).acted.toNat := by
  rw [do_, if_neg (Bool.eq_false_iff.mp single)]

theorem acted_once (posts : j.body.isSome = true) (api : parseAPI j.api = .ok e) :
    (do_ t j c).acted ≤ 1 ↔ ¬Repeated t j c e := by
  cases again : retries j (attempt t.first false j c).result with
  | false =>
      rw [do_single again]
      constructor
      · intro _ repeated
        rw [(retries_kept posts api repeated.kept).mpr repeated.silent] at again
        cases again
      · exact fun _ => Bool.toNat_le _
  | true =>
      rw [do_retried again]
      constructor
      · intro once repeated
        have first : (attempt t.first false j c).acted = true :=
          (attempt_acted false api).mpr
            ⟨fun opened => absurd (repeated.kept.symm.trans opened) Bool.false_ne_true,
            repeated.taken⟩
        have second : (attempt t.second true j
            ((attempt t.first false j c).result.free (attempt t.first false j c).client).2).acted = true :=
          (attempt_acted true api).mpr ⟨fun _ => repeated.dialed, repeated.again⟩
        rw [first, second] at once
        exact absurd once (by decide)
      · intro single
        by_contra twice
        have both : (attempt t.first false j c).acted = true ∧ (attempt t.second true j
            ((attempt t.first false j c).result.free (attempt t.first false j c).client).2).acted = true := by
          revert twice
          cases (attempt t.first false j c).acted <;> cases (attempt t.second true j
            ((attempt t.first false j c).result.free (attempt t.first false j c).client).2).acted <;> simp
        obtain ⟨first, second⟩ := both
        cases opened : opens t.first false j c with
        | true =>
            rw [opened_unacted posts api opened again] at first
            cases first
        | false =>
            have dialed := (attempt_acted true api).mp second
            exact single ⟨opened, ((attempt_acted false api).mp first).2,
              (retries_kept posts api opened).mp again,
              dialed.1 (opens_fresh _ _ _), dialed.2⟩

theorem unparsed_unacted {err : Err} (api : parseAPI j.api = .error err) : (do_ t j c).acted = 0 := by
  cases again : retries j (attempt t.first false j c).result with
  | false => rw [do_single again, attempt_unparsed _ _ _ _ api]; rfl
  | true => rw [do_retried again, attempt_unparsed _ _ _ _ api, attempt_unparsed _ _ _ _ api]; rfl

end Acting

/-! Whose answer is returned. -/
section Answering
variable {w : Outside} {j : Job} {c : Client} {t : Trip} {e : Endpoint}

theorem opened_stale {fresh : Bool} (opened : opens w fresh j c = true) :
    (attempt w fresh j c).stale = 0 := by
  cases api : parseAPI j.api with
  | error err => rw [attempt_unparsed w fresh j c api]
  | ok e =>
      cases dial : w.dial with
      | some err => rw [attempt_undialed w fresh j c api (connect_refused w fresh j c opened dial)]
      | none =>
          have connected := connect_dialed w fresh j c opened dial
          cases upload : (send w e j).1 with
          | some err => rw [attempt_unsent w fresh j c api connected upload]
          | none =>
              rw [attempt_received w fresh j c api connected upload]
              cases read : (readAlloc w.broken (answerLimit j) ([] ++ w.sent)).answer with
              | ok answer => exact (receive_ok w j _ [] _ read).2.1.trans (Nat.zero_min _)
              | error err => exact (receive_error w j _ [] _ read).2.2.2.2.2

theorem kept_stale (api : parseAPI j.api = .ok e) (kept : opens w false j c = false) :
    (attempt w false j c).stale = 0 ↔ ¬Stale w j c e := by
  have connected := connect_kept w false j c kept
  cases upload : (send w e j).1 with
  | some err =>
      rw [attempt_unsent w false j c api connected upload]
      simp only [true_iff]
      intro stale
      rw [stale.uploaded] at upload
      cases upload
  | none =>
      rw [attempt_received w false j c api connected upload]
      cases read : (readAlloc w.broken (answerLimit j) (old w c ++ w.sent)).answer with
      | error err =>
          simp only [(receive_error w j _ _ _ read).2.2.2.2.2, true_iff]
          intro stale
          obtain ⟨answer, complete⟩ := stale.complete
          rw [read] at complete
          cases complete
      | ok answer =>
          have front := (readAlloc_rest read).2
          simp only [(receive_ok w j _ _ _ read).2.1]
          constructor
          · intro zero stale
            have some_ := List.length_pos_iff.mpr stale.unread
            omega
          · intro clean
            by_contra positive
            refine clean ⟨kept, upload, fun empty => positive ?_, answer, read⟩
            rw [empty]
            exact Nat.zero_min _

theorem stale_answered (api : parseAPI j.api = .ok e) (stale : Stale w j c e) :
    (attempt w false j c).result.err = none := by
  obtain ⟨answer, complete⟩ := stale.complete
  rw [attempt_received w false j c api (connect_kept w false j c stale.kept) stale.uploaded]
  exact (receive_ok w j _ _ _ complete).1

theorem retries_answered {r : Result} (answered : r.err = none) : retries j r = false := by
  rw [retries, answered]

theorem answer_own (api : parseAPI j.api = .ok e) :
    ((do_ t j c).result.err = none → (do_ t j c).stale = 0) ↔ ¬Stale t.first j c e := by
  cases again : retries j (attempt t.first false j c).result with
  | true =>
      rw [do_, if_pos again]
      dsimp only
      constructor
      · intro _ stale
        rw [retries_answered (stale_answered api stale)] at again
        cases again
      · exact fun _ _ => opened_stale (opens_fresh _ _ _)
  | false =>
      rw [do_, if_neg (Bool.eq_false_iff.mp again)]
      dsimp only [finished]
      rw [Option.map_eq_none_iff]
      constructor
      · intro own stale
        exact (kept_stale api stale.kept).mp (own (stale_answered api stale)) stale
      · intro clean _
        cases opened : opens t.first false j c with
        | true => exact opened_stale opened
        | false => exact (kept_stale api opened).mpr clean

theorem unparsed_failed {err : Err} (api : parseAPI j.api = .error err) : (do_ t j c).result.err ≠ none := by
  cases again : retries j (attempt t.first false j c).result with
  | true =>
      rw [do_, if_pos again, attempt_unparsed t.second true j _ api]
      exact Option.some_ne_none _
  | false =>
      rw [do_, if_neg (Bool.eq_false_iff.mp again), attempt_unparsed t.first false j c api]
      exact Option.some_ne_none _

end Answering

/-! When the connection is kept. -/
section Keeping
variable {w : Outside} {j : Job} {c : Client} {t : Trip}

/-- The last answer on a kept connection was read without error, and says where it ends. -/
def KeptWhole (c : Client) : Prop :=
  ∀ k, c.conn = some k → ∃ r, k.answer = some r ∧ Explicit r ∧
    ∃ last limit s rest, (readAlloc last limit s).answer = .ok (r, rest)

theorem KeptWhole.of_none (closed : c.conn = none) : KeptWhole c := by
  intro k kept
  rw [closed] at kept
  cases kept

theorem receive_whole (r : Result) (unread : Bytes) : KeptWhole (receive w j r unread c).2.1 := by
  cases read : (readAlloc w.broken (answerLimit j) (unread ++ w.sent)).answer with
  | error err => exact .of_none (receive_error w j r unread c read).2.2.2.2.1
  | ok answer =>
      have conn := (receive_ok w j r unread c read).2.2
      intro k kept
      rw [conn] at kept
      split at kept
      · next reusable =>
        cases kept
        exact ⟨_, rfl, reusable_explicit read reusable, _, _, _, _, read⟩
      · cases kept

theorem attempt_whole (fresh : Bool) (whole : KeptWhole c) : KeptWhole (attempt w fresh j c).client := by
  cases api : parseAPI j.api with
  | error err =>
      rw [attempt_unparsed w fresh j c api]
      exact whole
  | ok e =>
      cases connected : connect w fresh j c with
      | error err =>
          rw [attempt_undialed w fresh j c api connected]
          exact .of_none rfl
      | ok pair =>
          cases upload : (send w e j).1 with
          | some err =>
              rw [attempt_unsent w fresh j c api connected upload]
              exact .of_none rfl
          | none =>
              rw [attempt_received w fresh j c api connected upload]
              exact receive_whole _ _

theorem do_whole (whole : KeptWhole c) : KeptWhole (do_ t j c).client := by
  unfold do_
  dsimp only
  split
  · exact attempt_whole true (attempt_whole false whole : KeptWhole _)
  · exact attempt_whole false whole

end Keeping

/-! Who gives the rooms back. -/
section Rooms
variable {w : Outside} {j : Job} {c : Client} {t : Trip} {r : Result} {held : List Nat}

/-- What `alloc` gave and `free` has not been called with is what is `held`. -/
def Owes (c : Client) (held : List Nat) : Prop := ∀ b, c.given.count b = c.back.count b + held.count b

theorem free_owes (owes : Owes c (r.release.toList ++ held)) : Owes (r.free c).2 held := by
  intro b
  have before := owes b
  simp only [Result.free, List.count_append] at before ⊢
  omega

theorem receive_owes (unread : Bytes) (owes : Owes c held) :
    Owes (receive w j r unread c).2.1 ((receive w j r unread c).1.release.toList ++ held) := by
  have given : ∀ big : Option Nat, Owes { c with given := big.toList ++ c.given } (big.toList ++ held) := by
    intro big b
    have before := owes b
    simp only [List.count_append] at before ⊢
    omega
  cases read : (readAlloc w.broken (answerLimit j) (unread ++ w.sent)).answer with
  | error err =>
      simp only [receive, read]
      exact free_owes (r := { r with release := _, status := _ }) (given _)
  | ok answer =>
      simp only [receive, read]
      by_cases reusable : answer.1.reusable = true
      · rw [if_pos reusable]
        exact given _
      · rw [if_neg reusable]
        exact given _

theorem attempt_owes (fresh : Bool) (owes : Owes c held) :
    Owes (attempt w fresh j c).client ((attempt w fresh j c).result.release.toList ++ held) := by
  cases api : parseAPI j.api with
  | error err =>
      rw [attempt_unparsed w fresh j c api]
      exact owes
  | ok e =>
      cases opened : opens w fresh j c with
      | false =>
          have connected := connect_kept w fresh j c opened
          cases upload : (send w e j).1 with
          | some err =>
              rw [attempt_unsent w fresh j c api connected upload]
              exact owes
          | none =>
              rw [attempt_received w fresh j c api connected upload]
              exact receive_owes _ owes
      | true =>
          cases dial : w.dial with
          | some err =>
              rw [attempt_undialed w fresh j c api (connect_refused w fresh j c opened dial)]
              exact owes
          | none =>
              have connected := connect_dialed w fresh j c opened dial
              have dialed : Owes { c with conn := some ⟨[], none⟩, key := j.api } held := owes
              cases upload : (send w e j).1 with
              | some err =>
                  rw [attempt_unsent w fresh j c api connected upload]
                  exact owes
              | none =>
                  rw [attempt_received w fresh j c api connected upload]
                  exact receive_owes _ dialed

theorem do_owes (owes : Owes c held) :
    Owes (do_ t j c).client ((do_ t j c).result.release.toList ++ held) := by
  have first := attempt_owes (w := t.first) (j := j) false owes
  unfold do_
  dsimp only
  split
  · exact attempt_owes true (free_owes first)
  · exact first

end Rooms

/-! Jobs one after another. -/
section Runs

/-- The client, and the results that have been returned. -/
structure World where
  client : Client
  held : List Result

inductive Event where
  | job (t : Trip) (j : Job)
  | free (i : Nat)

def step (w : World) : Event → World
  | .job t j => ⟨(do_ t j w.client).client, (do_ t j w.client).result :: w.held⟩
  | .free i =>
      match w.held[i]? with
      | none => w
      | some r => ⟨(r.free w.client).2, w.held.set i (r.free w.client).1⟩

inductive Reach : World → Prop where
  | start (allocs : Bool) : Reach ⟨⟨none, [], 0, allocs, [], []⟩, []⟩
  | next {w : World} (e : Event) : Reach w → Reach (step w e)

/-- The rooms that the results have. -/
def rooms (held : List Result) : List Nat := held.flatMap fun r => r.release.toList

theorem rooms_free {r : Result} (c : Client) (held : List Result) : ∀ i, held[i]? = some r → ∀ b,
    (rooms held).count b = r.release.toList.count b + (rooms (held.set i (r.free c).1)).count b := by
  induction held with
  | nil =>
      intro i found
      cases found
  | cons first rest ih =>
      intro i found b
      cases i with
      | zero =>
          cases found
          simp [rooms, Result.free]
      | succ i =>
          have behind := ih i found b
          simp only [rooms, List.flatMap_cons, List.set_cons_succ, List.count_append] at behind ⊢
          omega

/-- The connection is kept after a whole answer alone, and each room is with one result or given back. -/
structure Orderly (w : World) : Prop where
  whole : KeptWhole w.client
  owes : Owes w.client (rooms w.held)

theorem step_orderly {w : World} (orderly : Orderly w) (e : Event) : Orderly (step w e) := by
  cases e with
  | job t j => exact ⟨do_whole orderly.whole, do_owes orderly.owes⟩
  | free i =>
      cases found : w.held[i]? with
      | none =>
          simp only [step, found]
          exact orderly
      | some r =>
          simp only [step, found]
          refine ⟨orderly.whole, free_owes fun b => ?_⟩
          have before := orderly.owes b
          rw [rooms_free w.client w.held i found b] at before
          rw [List.count_append]
          exact before

theorem reach_orderly {w : World} (reached : Reach w) : Orderly w := by
  induction reached with
  | start allocs => exact ⟨.of_none rfl, fun b => rfl⟩
  | next e _ ih => exact step_orderly ih e

/-- A job with a body is acted on once at most and answered with its own answer, except where silence on
the kept connection hides that the server has taken it, and where that connection already holds a whole
answer. The connection is kept after an answer that says where it ends, and each room that `alloc` gave is
given back once or with one result. -/
theorem posts_once {w : World} (reached : Reach w) (t : Trip) {j : Job} (posts : j.body.isSome = true) :
    (((do_ t j w.client).acted ≤ 1 ∧ ((do_ t j w.client).result.err = none → (do_ t j w.client).stale = 0)) ↔
      ∀ e, parseAPI j.api = .ok e → ¬Repeated t j w.client e ∧ ¬Stale t.first j w.client e) ∧
    KeptWhole (do_ t j w.client).client ∧
    Owes (do_ t j w.client).client ((do_ t j w.client).result.release.toList ++ rooms w.held) := by
  have orderly := reach_orderly reached
  refine ⟨?_, do_whole orderly.whole, do_owes orderly.owes⟩
  cases api : parseAPI j.api with
  | ok e =>
      constructor
      · rintro ⟨once, own⟩ e' same
        rw [← Except.ok.inj same]
        exact ⟨(acted_once posts api).mp once, (answer_own api).mp own⟩
      · intro sound
        obtain ⟨single, clean⟩ := sound e rfl
        exact ⟨(acted_once posts api).mpr single, (answer_own api).mpr clean⟩
  | error err =>
      constructor
      · intro _ e same
        cases same
      · intro _
        constructor
        · rw [unparsed_unacted api]
          exact Nat.zero_le 1
        · exact fun answered => absurd answered (unparsed_failed api)

end Runs

/-! The server takes a message and closes the kept connection without a word. -/
section Silence

def api : Bytes := ascii "https://api.telegram.org"

def getMe : Job := ⟨.getMe, api, ascii "/botT/getMe", none, [], 0⟩

def message : Job := ⟨.send, api, ascii "/botT/sendMessage", some [ascii "text=hi"], [], 0⟩

/-- Everything gets there, and `sent` comes back before the connection ends. -/
def through (sent : Bytes) : Outside :=
  ⟨0, 0, none, fun _ => (65536, none), 65536, [], sent, .eof, 2048, none⟩

def whole : Bytes := ascii "HTTP/1.1 200 OK\r\nContent-Length: 2\r\n\r\n{}"

def kept : World := step ⟨⟨none, [], 0, false, [], []⟩, []⟩ (.job ⟨0, 0, through whole, through []⟩ getMe)

theorem kept_reached : Reach kept := .next _ (.start false)

theorem posts_once_kept :
    kept.client.conn.isSome = true ∧
      (do_ ⟨0, 0, through whole, through []⟩ message kept.client).acted ≤ 1 := by
  have once := (posts_once kept_reached ⟨0, 0, through whole, through []⟩ (j := message) rfl).1
  refine ⟨by decide +kernel, (once.mpr fun e api => ⟨fun repeated => ?_, fun stale => ?_⟩).1⟩
  · have silent := retries_kept rfl api repeated.kept
    exact absurd (silent.mpr repeated.silent) (by decide +kernel)
  · exact absurd stale.unread (by decide +kernel)

theorem message_twice : ¬∀ (w : World) (t : Trip) (j : Job), Reach w → j.body.isSome = true →
    (do_ t j w.client).acted ≤ 1 := by
  intro once
  exact absurd (once kept ⟨0, 0, through [], through whole⟩ message kept_reached rfl) (by decide +kernel)

end Silence

end R2Apps.TelegramPosts
