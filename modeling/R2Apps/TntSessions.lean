import Mathlib.Data.List.Induction
import R2Apps.TntAuth

/-! A telnet session of `tnt/main.c`: `telnet_byte`, `auth_line` and the body of the
loop over the bytes of one read. `line`, `lastLine` and `login` are the bytes of
those buffers up to their lengths. What a byte makes the loop do is its `Effect`;
`Talk` is a connection on its own. -/
namespace R2Apps.TntSessions
open TntAuth
open WireBytes (ascii)

def lineCap : Nat := 128
def authTries : Nat := 3

inductive Auth where
  | done | login | password
  deriving DecidableEq

inductive TelnetState where
  | data | iac | option | sb | sbIac
  deriving DecidableEq

structure Session where
  active : Bool := false
  line : Bytes := []
  lastLine : Bytes := []
  escState : Nat := 0
  telnet : Bool := false
  cr : Bool := false
  iacState : TelnetState := .data
  iacVerb : UInt8 := 0
  auth : Auth := .done
  tries : Nat := 0
  login : Bytes := []
  deriving DecidableEq

def tnSe : UInt8 := 0xF0
def tnSb : UInt8 := 0xFA
def tnWill : UInt8 := 0xFB
def tnWont : UInt8 := 0xFC
def tnDo : UInt8 := 0xFD
def tnDont : UInt8 := 0xFE
def tnIac : UInt8 := 0xFF
def tnOptEcho : UInt8 := 0x01

def echoOff : Bytes := [0xFF, 0xFB, 0x01]
def echoOn : Bytes := [0xFF, 0xFC, 0x01]

inductive Outcome where
  | tried (login pass : Bytes) (ok : Bool)
  | dispatched (line : Bytes)
  deriving DecidableEq

/-- What is written, and what comes of a line that ends. -/
structure Effect where
  writes : List Bytes := []
  outcome : Option Outcome := none

/-- The session, whether the byte belongs to a TELNET command, and the reply. -/
def telnetByte (sess : Session) (b : UInt8) : Session × Bool × List Bytes :=
  match sess.iacState with
  | .data =>
      if b ≠ tnIac then (sess, false, [])
      else ({ sess with telnet := true, iacState := .iac }, true, [])
  | .iac =>
      if b = tnIac then ({ sess with iacState := .data }, false, [])
      else if b ≥ tnWill then ({ sess with iacVerb := b, iacState := .option }, true, [])
      else ({ sess with iacState := if b = tnSb then .sb else .data }, true, [])
  | .option =>
      let reply : UInt8 :=
        if sess.iacVerb = tnWill then tnDont
        else if sess.iacVerb = tnDo ∧ b ≠ tnOptEcho then tnWont
        else 0
      ({ sess with iacState := .data }, true, if reply ≠ 0 then [[tnIac, reply, b]] else [])
  | .sb => (if b = tnIac then { sess with iacState := .sbIac } else sess, true, [])
  | .sbIac => ({ sess with iacState := if b = tnSe then .data else .sb }, true, [])

/-- `check` is `auth_check` with `SESSION.CFG` as it is. -/
def authLine (check : Bytes → Bytes → Bool) (sess : Session) : Session × Effect :=
  if sess.auth = .login then
    ({ sess with login := sess.line, auth := .password },
      { writes := (if sess.telnet then [echoOff] else []) ++ [ascii "password: "] })
  else
    let ok := check sess.login sess.line
    let outcome := some (.tried sess.login sess.line ok)
    let echo := if sess.telnet then [echoOn, ascii "\r\n"] else []
    let sess := { sess with line := [], login := [] }
    if ok then ({ sess with auth := .done, tries := 0 }, ⟨echo, outcome⟩)
    else
      let sess := { sess with tries := sess.tries + 1 }
      if sess.tries ≥ authTries then
        (sess, ⟨echo ++ [ascii "Login incorrect. Goodbye.\r\n"], outcome⟩)
      else
        ({ sess with auth := .login },
          ⟨echo ++ [ascii "Login incorrect.\r\n\r\nlogin: "], outcome⟩)

/-- A byte that is not of a TELNET command. -/
def lineByte (check : Bytes → Bytes → Bool) (sess : Session) (b : UInt8) : Session × Effect :=
  if sess.escState = 1 then ({ sess with escState := if b = 91 then 2 else 0 }, {})
  else if sess.escState = 2 then
    let sess := { sess with escState := 0 }
    -- the up arrow
    if b = 65 ∧ sess.lastLine ≠ [] ∧ sess.auth = .done then
      ({ sess with line := sess.lastLine },
        { writes := List.replicate sess.line.length [8, 32, 8] ++ [sess.lastLine] })
    else (sess, {})
  else if b = 0x1B then ({ sess with escState := 1 }, {})
  else
    let afterCr := sess.cr
    let sess := { sess with cr := b = 13 }
    if b = 0 ∨ b = 10 ∧ afterCr then (sess, {})
    else if b = 13 ∨ b = 10 then
      let sess := { sess with escState := 0 }
      if sess.auth ≠ .done then
        let (sess, effect) := authLine check sess
        ({ sess with line := [] }, effect)
      else
        let lastLine := if sess.line ≠ [] then sess.line else sess.lastLine
        ({ sess with lastLine := lastLine, line := [] },
          { outcome := some (.dispatched sess.line) })
    else if b = 0x7f ∨ b = 8 then ({ sess with escState := 0, line := sess.line.dropLast }, {})
    else if sess.line.length < lineCap - 1 then ({ sess with line := sess.line ++ [b] }, {})
    else (sess, {})

def takeByte (check : Bytes → Bytes → Bool) (sess : Session) (b : UInt8) : Session × Effect :=
  match telnetByte sess b with
  | (sess, true, reply) => (sess, { writes := reply })
  | (sess, false, _) => lineByte check sess b

/-- After a login that failed once too often the connection is closed. -/
def Effect.quits (effect : Effect) (sess : Session) : Bool :=
  match effect.outcome with
  | some (.tried _ _ false) => decide (sess.tries ≥ authTries)
  | _ => false

/-- What the scan of the sockets sets when it greets a connection. -/
def greeted (required : Bool) (sess : Session) : Session :=
  { sess with
    active := true, line := [], lastLine := [], escState := 0, tries := 0, telnet := false
    cr := false, iacState := .data, login := []
    auth := if required then .login else .done }

/-! One connection on its own: what its bytes lead to after its greeting. A byte
comes with what `SESSION.CFG` holds at that time. -/

structure Talk where
  session : Session
  outcomes : List Outcome := []
  ended : Bool := false

def Talk.next (t : Talk) (typed : UInt8 × Bytes) : Talk :=
  if t.ended then t
  else
    let (sess, effect) := takeByte (authCheck typed.2) t.session typed.1
    ⟨sess, t.outcomes ++ effect.outcome.toList, effect.quits sess⟩

def talk (required : Bool) (typed : List (UInt8 × Bytes)) : Talk :=
  typed.foldl Talk.next { session := greeted required {} }

theorem talk_append (required : Bool) (typed : List (UInt8 × Bytes)) (more : UInt8 × Bytes) :
    talk required (typed ++ [more]) = (talk required typed).next more := by
  simp only [talk, List.foldl_append, List.foldl_cons, List.foldl_nil]

/-! What a byte can do to the login. -/

/-- The four things a byte may come to. -/
inductive Turn (check : Bytes → Bytes → Bool) (sess : Session) : Session × Effect → Prop
  | quiet {sess' : Session} {effect : Effect} (nothing : effect.outcome = none)
      (login : sess'.auth = .done ↔ sess.auth = .done) (tries : sess'.tries = sess.tries) :
      Turn check sess (sess', effect)
  | admitted {sess' : Session} {effect : Effect} {login pass : Bytes} (asked : sess.auth ≠ .done)
      (tried : effect.outcome = some (.tried login pass true)) (ok : check login pass = true)
      (done : sess'.auth = .done) : Turn check sess (sess', effect)
  | refused {sess' : Session} {effect : Effect} {login pass : Bytes} (asked : sess.auth ≠ .done)
      (tried : effect.outcome = some (.tried login pass false)) (still : sess'.auth ≠ .done)
      (tries : sess'.tries = sess.tries + 1) : Turn check sess (sess', effect)
  | command {sess' : Session} {effect : Effect} {line : Bytes} (done : sess.auth = .done)
      (line : effect.outcome = some (.dispatched line)) (still : sess'.auth = .done) :
      Turn check sess (sess', effect)

variable {check : Bytes → Bytes → Bool}

theorem authLine_turn {sess : Session} (asked : sess.auth ≠ .done) :
    Turn check sess (authLine check sess) := by
  unfold authLine
  by_cases first : sess.auth = .login
  · rw [if_pos first]
    exact Turn.quiet rfl ⟨fun done => absurd done (by simp), fun done => absurd done asked⟩ rfl
  · rw [if_neg first]
    cases ok : check sess.login sess.line with
    | true => exact Turn.admitted asked rfl ok rfl
    | false =>
        simp only [Bool.false_eq_true, if_false]
        split
        · exact Turn.refused asked rfl asked rfl
        · exact Turn.refused asked rfl (by simp) rfl

theorem Turn.congr {sess sess' : Session} {result result' : Session × Effect}
    (turn : Turn check sess result) (auth : sess'.auth = sess.auth) (tries : sess'.tries = sess.tries)
    (auth' : result'.1.auth = result.1.auth) (tries' : result'.1.tries = result.1.tries)
    (outcome : result'.2.outcome = result.2.outcome) : Turn check sess' result' := by
  obtain ⟨next, effect⟩ := result'
  dsimp only at auth' tries' outcome
  cases turn with
  | quiet nothing login same =>
      exact Turn.quiet (outcome.trans nothing) (by rw [auth', auth, login]) (by rw [tries', same, tries])
  | admitted asked tried ok done =>
      exact Turn.admitted (auth ▸ asked) (outcome.trans tried) ok (auth'.trans done)
  | refused asked tried still more =>
      exact Turn.refused (auth ▸ asked) (outcome.trans tried) (auth' ▸ still) (by rw [tries', more, tries])
  | command done line still =>
      exact Turn.command (auth.trans done) (outcome.trans line) (auth'.trans still)

theorem lineByte_turn (sess : Session) (b : UInt8) : Turn check sess (lineByte check sess b) := by
  have still {sess' : Session} {effect : Effect} (nothing : effect.outcome = none)
      (auth : sess'.auth = sess.auth) (tries : sess'.tries = sess.tries) :
      Turn check sess (sess', effect) := Turn.quiet nothing (by rw [auth]) tries
  unfold lineByte
  by_cases escape : sess.escState = 1
  · rw [if_pos escape]
    exact still rfl rfl rfl
  rw [if_neg escape]
  by_cases bracket : sess.escState = 2
  · rw [if_pos bracket]
    dsimp only
    split <;> exact still rfl rfl rfl
  rw [if_neg bracket]
  by_cases esc : b = 0x1B
  · rw [if_pos esc]
    exact still rfl rfl rfl
  rw [if_neg esc]
  dsimp only
  by_cases skipped : b = 0 ∨ b = 10 ∧ sess.cr = true
  · rw [if_pos skipped]
    exact still rfl rfl rfl
  rw [if_neg skipped]
  by_cases ends : b = 13 ∨ b = 10
  · rw [if_pos ends]
    by_cases asked : sess.auth = .done
    · rw [if_neg (not_not.mpr asked)]
      exact Turn.command asked rfl asked
    · rw [if_pos asked]
      have turn : Turn check { sess with cr := decide (b = 13), escState := 0 } _ := authLine_turn asked
      exact turn.congr rfl rfl rfl rfl rfl
  rw [if_neg ends]
  split
  · exact still rfl rfl rfl
  · split <;> exact still rfl rfl rfl

theorem telnetByte_login (sess : Session) (b : UInt8) :
    (telnetByte sess b).1.auth = sess.auth ∧ (telnetByte sess b).1.tries = sess.tries := by
  unfold telnetByte
  cases sess.iacState <;> dsimp only <;> repeat' split
  all_goals exact ⟨rfl, rfl⟩

theorem takeByte_turn (sess : Session) (b : UInt8) : Turn check sess (takeByte check sess b) := by
  obtain ⟨auth, tries⟩ := telnetByte_login sess b
  unfold takeByte
  generalize telnetByte sess b = first at *
  obtain ⟨sess', taken, reply⟩ := first
  dsimp only at auth tries
  cases taken with
  | true => exact Turn.quiet rfl (by rw [auth]) tries
  | false =>
      dsimp only
      exact (lineByte_turn sess' b).congr auth.symm tries.symm rfl rfl rfl

/-! What a connection's own bytes can lead to. -/

def Outcome.isTry : Outcome → Bool
  | .tried _ _ _ => true
  | .dispatched _ => false

def attempts (outcomes : List Outcome) : Nat := outcomes.countP Outcome.isTry

/-- Nothing was asked, or a login and password were accepted. -/
def Admitted (required : Bool) (outcomes : List Outcome) : Prop :=
  required = false ∨ ∃ login pass, Outcome.tried login pass true ∈ outcomes

theorem Admitted.more {required : Bool} {outcomes : List Outcome} (admitted : Admitted required outcomes)
    (more : List Outcome) : Admitted required (outcomes ++ more) := by
  rcases admitted with free | ⟨login, pass, member⟩
  · exact Or.inl free
  · exact Or.inr ⟨login, pass, List.mem_append_left _ member⟩

structure Sane (required : Bool) (typed : List (UInt8 × Bytes)) (t : Talk) : Prop where
  admitted : t.session.auth = .done → Admitted required t.outcomes
  gated : ∀ before line after, t.outcomes = before ++ .dispatched line :: after →
    Admitted required before
  counted : t.session.auth ≠ .done → attempts t.outcomes = t.session.tries
  running : t.session.auth ≠ .done → t.ended = false → t.session.tries < authTries
  few : attempts t.outcomes ≤ authTries
  checked : ∀ login pass, Outcome.tried login pass true ∈ t.outcomes →
    ∃ x ∈ typed, authCheck x.2 login pass = true

theorem dispatched_split {old before after : List Outcome} {last : Outcome} {line : Bytes}
    (same : old ++ [last] = before ++ .dispatched line :: after) :
    (last = .dispatched line ∧ old = before) ∨ ∃ rest, old = before ++ .dispatched line :: rest := by
  induction after using List.reverseRecOn with
  | nil =>
      obtain ⟨front, back⟩ := List.append_inj' same rfl
      exact Or.inl ⟨(List.cons.inj back).1, front⟩
  | append_singleton rest x _ =>
      rw [← List.cons_append, ← List.append_assoc] at same
      exact Or.inr ⟨rest, (List.append_inj' same rfl).1⟩

theorem sane_start (required : Bool) : Sane required [] (talk required []) where
  admitted done := by
    cases required with
    | false => exact Or.inl rfl
    | true => exact absurd done (by simp [talk, greeted])
  gated before line after split := by simp [talk] at split
  counted _ := rfl
  running _ _ := by simp [talk, greeted, authTries]
  few := Nat.zero_le _
  checked login pass member := by simp [talk] at member

theorem sane_next {required : Bool} {typed : List (UInt8 × Bytes)} {t : Talk}
    (sane : Sane required typed t) (x : UInt8 × Bytes) : Sane required (typed ++ [x]) (t.next x) := by
  have before (login pass : Bytes) (member : Outcome.tried login pass true ∈ t.outcomes) :
      ∃ y ∈ typed ++ [x], authCheck y.2 login pass = true := by
    obtain ⟨y, inside, ok⟩ := sane.checked login pass member
    exact ⟨y, List.mem_append_left _ inside, ok⟩
  cases ended : t.ended with
  | true =>
      have same : t.next x = t := by simp only [Talk.next, ended, if_true]
      rw [same]
      exact { sane with checked := before }
  | false =>
      simp only [Talk.next, ended, Bool.false_eq_true, if_false]
      have turn : Turn (authCheck x.2) t.session (takeByte (authCheck x.2) t.session x.1) :=
        takeByte_turn t.session x.1
      generalize takeByte (authCheck x.2) t.session x.1 = result at *
      cases turn with
      | quiet nothing login tries =>
          simp only [nothing, Option.toList_none, List.append_nil, Effect.quits]
          exact ⟨fun done => sane.admitted (login.mp done), sane.gated,
            fun asked => (sane.counted (fun done => asked (login.mpr done))).trans tries.symm,
            fun asked _ => by rw [tries]; exact sane.running (fun done => asked (login.mpr done)) ended,
            sane.few, before⟩
      | admitted asked tried ok done =>
          rename_i login pass
          simp only [tried, Option.toList_some, Effect.quits]
          have member : Outcome.tried login pass true ∈ t.outcomes ++ [.tried login pass true] := by simp
          refine ⟨fun _ => Or.inr ⟨login, pass, member⟩, ?_, fun still => absurd done still,
            fun still => absurd done still, ?_, ?_⟩
          · intro front line after split
            rcases dispatched_split split with ⟨last, _⟩ | ⟨rest, there⟩
            · exact absurd last (by simp)
            · exact sane.gated front line rest there
          · have counted := sane.counted asked
            have room := sane.running asked ended
            simp only [attempts, List.countP_append] at *
            simp only [List.countP_singleton, Outcome.isTry, if_true]
            omega
          · intro login' pass' inside
            rcases List.mem_append.mp inside with old | new
            · exact before login' pass' old
            · cases List.mem_singleton.mp new
              exact ⟨x, by simp, ok⟩
      | refused asked tried still tries =>
          rename_i login pass
          simp only [tried, Option.toList_some]
          have counted := sane.counted asked
          have room := sane.running asked ended
          -- one try more, one left fewer
          have more : attempts (t.outcomes ++ [.tried login pass false]) = attempts t.outcomes + 1 := by
            simp [attempts, Outcome.isTry]
          refine ⟨fun done => absurd done still, ?_, ?_, ?_, ?_, ?_⟩
          · intro front line after split
            rcases dispatched_split split with ⟨last, _⟩ | ⟨rest, there⟩
            · exact absurd last (by simp)
            · exact sane.gated front line rest there
          · intro _
            rw [more, counted, tries]
          · intro _ going
            simpa [Effect.quits, tried] using going
          · rw [more, counted]
            exact room
          · intro login' pass' inside
            rcases List.mem_append.mp inside with old | new
            · exact before login' pass' old
            · exact absurd (List.mem_singleton.mp new) (by simp)
      | command done line still =>
          simp only [line, Option.toList_some, Effect.quits]
          refine ⟨fun _ => (sane.admitted done).more _, ?_, fun asked => absurd still asked,
            fun asked => absurd still asked, ?_, ?_⟩
          · intro front line' after split
            rcases dispatched_split split with ⟨_, rfl⟩ | ⟨rest, there⟩
            · exact sane.admitted done
            · exact sane.gated front line' rest there
          · simpa [attempts, Outcome.isTry] using sane.few
          · intro login' pass' inside
            rcases List.mem_append.mp inside with old | new
            · exact before login' pass' old
            · exact absurd (List.mem_singleton.mp new) (by simp)

theorem talk_sane (required : Bool) (typed : List (UInt8 × Bytes)) :
    Sane required typed (talk required typed) := by
  induction typed using List.reverseRecOn with
  | nil => exact sane_start required
  | append_singleton typed x ih =>
      rw [talk_append]
      exact sane_next ih x

/-! The verb of an earlier TELNET command is never looked at again. -/

/-- Two sessions that differ at most in a verb no option is waited for. -/
def Alike (sess sess' : Session) : Prop :=
  ∃ verb, sess' = { sess with iacVerb := verb } ∧ (sess.iacState = .option → verb = sess.iacVerb)

theorem authLine_verb (sess : Session) (verb : UInt8) :
    authLine check { sess with iacVerb := verb } =
      ({ (authLine check sess).1 with iacVerb := verb }, (authLine check sess).2) := by
  unfold authLine
  dsimp only
  repeat' split
  all_goals rfl

theorem lineByte_verb (sess : Session) (b : UInt8) (verb : UInt8) :
    lineByte check { sess with iacVerb := verb } b =
      ({ (lineByte check sess b).1 with iacVerb := verb }, (lineByte check sess b).2) := by
  have asked : authLine check { { sess with cr := decide (b = 13), escState := 0 } with
      iacVerb := verb } = _ := authLine_verb _ verb
  unfold lineByte
  dsimp only at asked ⊢
  rw [asked]
  repeat' split
  all_goals rfl

theorem lineByte_option (sess : Session) (b : UInt8) (data : sess.iacState ≠ .option) :
    (lineByte check sess b).1.iacState ≠ .option := by
  have asked (sess' : Session) : (authLine check sess').1.iacState = sess'.iacState := by
    unfold authLine
    dsimp only
    repeat' split
    all_goals rfl
  unfold lineByte
  dsimp only
  repeat' split
  all_goals first | exact data | (rw [asked]; exact data)

theorem telnetByte_alike {sess sess' : Session} (alike : Alike sess sess') (b : UInt8) :
    Alike (telnetByte sess b).1 (telnetByte sess' b).1 ∧
      (telnetByte sess' b).2 = (telnetByte sess b).2 ∧
      ((telnetByte sess b).2.1 = false → (telnetByte sess b).1.iacState ≠ .option) := by
  obtain ⟨verb, rfl, same⟩ := alike
  obtain ⟨active, line, lastLine, escState, telnet, cr, iacState, iacVerb, auth, tries, login⟩ := sess
  unfold telnetByte
  cases iacState with
  | data =>
      dsimp only
      split <;> exact ⟨⟨verb, rfl, fun option => absurd option (by simp)⟩, rfl, fun _ => by simp⟩
  | iac =>
      dsimp only
      split
      · exact ⟨⟨verb, rfl, fun option => absurd option (by simp)⟩, rfl, fun _ => by simp⟩
      · split
        · exact ⟨⟨b, rfl, fun _ => rfl⟩, rfl, fun line => absurd line (by simp)⟩
        · refine ⟨⟨verb, rfl, fun option => ?_⟩, rfl, fun line => absurd line (by simp)⟩
          dsimp only at option
          split at option <;> exact absurd option (by simp)
  | option =>
      cases same rfl
      exact ⟨⟨_, rfl, fun _ => rfl⟩, rfl, fun line => absurd line (by simp)⟩
  | sb =>
      dsimp only
      split <;>
        exact ⟨⟨verb, rfl, fun option => absurd option (by simp)⟩, rfl, fun line => absurd line (by simp)⟩
  | sbIac =>
      refine ⟨⟨verb, rfl, fun option => ?_⟩, rfl, fun line => absurd line (by simp)⟩
      dsimp only at option
      split at option <;> exact absurd option (by simp)

theorem takeByte_alike {sess sess' : Session} (alike : Alike sess sess') (b : UInt8) :
    Alike (takeByte check sess b).1 (takeByte check sess' b).1 ∧
      (takeByte check sess' b).2 = (takeByte check sess b).2 := by
  obtain ⟨next, taken, data⟩ := telnetByte_alike alike b
  unfold takeByte
  generalize telnetByte sess b = first at *
  generalize telnetByte sess' b = second at *
  obtain ⟨one, line, reply⟩ := first
  obtain ⟨other, line', reply'⟩ := second
  dsimp only at next taken data ⊢
  cases taken
  cases line with
  | true => exact ⟨next, rfl⟩
  | false =>
      obtain ⟨verb, rfl, _⟩ := next
      dsimp only
      rw [lineByte_verb one b verb]
      exact ⟨⟨verb, rfl, fun option => absurd option (lineByte_option one b (data rfl))⟩, rfl⟩

theorem greeted_alike (required : Bool) (sess : Session) :
    Alike (greeted required {}) (greeted required sess) :=
  ⟨sess.iacVerb, rfl, fun option => absurd option (by simp [greeted])⟩

end R2Apps.TntSessions
