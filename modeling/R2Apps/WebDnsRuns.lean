import Mathlib.Data.List.Nodup
import R2Apps.WebDns

/-! Whoever asks `resolve` for whatever hosts between whatever polls and answers: a
result is that of a query for the host it is given out for. -/
namespace R2Apps.WebDns
open PrefixRoutes WebDnsMessages
open WireBytes (labelBytes)
open WebTcpPorts (noNetwork)

/-! ## What a result rests on -/

/-- `n` was noted, and `P` holds of what had been noted before it. -/
def Since (past : List Note) (n : Note) (P : List Note → Prop) : Prop :=
  ∃ older, (n :: older) <:+ past ∧ P older

/-- An answer to `q` with this address came after `q` was asked. -/
def Answered (past : List Note) (q : Query) (ip : Ip4) : Prop :=
  ∃ m, Answer m q.id ip ∧ Since past (.heard m) (.asked q ∈ ·)

def Refused (past : List Note) (q : Query) : Prop :=
  ∃ m, Refusal m q.id ∧ Since past (.heard m) (.asked q ∈ ·)

/-- The name server could not be reached, made no sense or said nothing in time. -/
def Unanswered (why : String) : Prop := why = unreachable_ ∨ why = nonsense ∨ why = silent

/-- `q` was asked and has failed. -/
def Failed (past : List Note) (q : Query) (why : String) : Prop :=
  Since past (.failed q.id q.host why) fun older => .asked q ∈ older ∧ (Refused older q ∨ Unanswered why)

def Settled (past : List Note) (q : Query) (error : Option String) (ip : Ip4) : Prop :=
  match error with
  | none => Answered past q ip
  | some why => Failed past q why

def lifetime (error : Option String) : UInt64 := if error.isSome then 3000 else 60000

/-- `e` is the result of a query for its host, from when it was published. -/
def Published (past : List Note) (e : Entry) : Prop :=
  ∃ q now, q.host = e.host ∧ .asked q ∈ past ∧ e.expires = now + lifetime e.error ∧
    Since past (.published q.id q.host now) (Settled · q e.error e.ip)

/-- A query of the id and the host that the resolver waits for. -/
structure Current (past : List Note) (id : UInt16) (host : Bytes) (q : Query) : Prop where
  asked : .asked q ∈ past
  id : q.id = id
  host : q.host = host

def Busy (d : Dns) : Prop := d.phase = .udp1 ∨ d.phase = .udp2 ∨ d.phase = .tcp

/-- What is so after every call: a query in progress or just ended is the one asked
for `host`, and the cache holds what queries came to. -/
structure Credited (d : Dns) : Prop where
  asks : ∀ q, .asked q ∈ d.past → Asks q.message q.id q.host
  busy : Busy d → ∃ q, Current d.past d.id d.host q
  done : d.phase = .done → ∃ q, Current d.past d.id d.host q ∧ Answered d.past q d.answer
  failed : d.phase = .failed → ∃ q why, Current d.past d.id d.host q ∧ d.err = some why ∧ Failed d.past q why
  fits : d.host.length < hostCap
  cache : ∀ i, (d.cache i).host ≠ [] → Published d.past (d.cache i)

section Remembering

theorem Since.now {past : List Note} {n : Note} {P : List Note → Prop} (holds : P past) :
    Since (n :: past) n P :=
  ⟨past, List.suffix_refl _, holds⟩

theorem Since.later {past : List Note} {n k : Note} {P : List Note → Prop} (since : Since past n P) :
    Since (k :: past) n P := by
  obtain ⟨older, suffix, holds⟩ := since
  exact ⟨older, suffix.trans (List.suffix_cons k past), holds⟩

theorem Published.later {past : List Note} {e : Entry} (k : Note) (published : Published past e) :
    Published (k :: past) e := by
  obtain ⟨q, now, host, asked, expires, since⟩ := published
  exact ⟨q, now, host, List.mem_cons_of_mem k asked, expires, since.later⟩

theorem Current.later {past : List Note} {id : UInt16} {host : Bytes} {q : Query} (k : Note)
    (current : Current past id host q) : Current (k :: past) id host q :=
  ⟨List.mem_cons_of_mem k current.asked, current.id, current.host⟩

end Remembering

section Answers

def Dns.hears (d : Dns) (m : Bytes) : Dns := { d with past := .heard m :: d.past }

theorem dnsParse_cases (d : Dns) (m : Bytes) :
    d.dnsParse m = (d.hears m, false) ∨
    (∃ why, Refusal m d.id ∧ d.dnsParse m = ((d.hears m).fail why, true)) ∨
    ∃ ip, Answer m d.id ip ∧ d.dnsParse m = ({ d.hears m with answer := ip, phase := .done }, true) := by
  obtain ⟨r, is, answers, refuses⟩ := read_reads d.id m
  unfold Dns.dnsParse
  simp only [is, Option.get_some]
  cases r with
  | notOurs => exact .inl rfl
  | failed why => exact .inr (.inl ⟨why, refuses why rfl, rfl⟩)
  | done ip => exact .inr (.inr ⟨ip, answers ip rfl, rfl⟩)

theorem Credited.hears {d : Dns} (c : Credited d) (m : Bytes) (busy : Busy d) : Credited (d.hears m) := by
  obtain ⟨q, current⟩ := c.busy busy
  constructor
  case asks => exact fun q asked => c.asks q (List.mem_of_ne_of_mem (by simp) asked)
  case busy => exact fun _ => ⟨q, current.later _⟩
  case done =>
    intro ended
    rcases busy with is | is | is <;> exact (nomatch is.symm.trans ended)
  case failed =>
    intro ended
    rcases busy with is | is | is <;> exact (nomatch is.symm.trans ended)
  case fits => exact c.fits
  case cache => exact fun i named => (c.cache i named).later _

theorem Credited.fail {d : Dns} (c : Credited d) {why : String} {q : Query}
    (current : Current d.past d.id d.host q)
    (because : Refused d.past q ∨ Unanswered why) : Credited (d.fail why) := by
  constructor
  case asks => exact fun q asked => c.asks q (List.mem_of_ne_of_mem (by simp) asked)
  case busy => rintro (is | is | is) <;> exact (nomatch is)
  case done => exact fun is => (nomatch is)
  case failed =>
    intro _
    refine ⟨q, why, current.later _, rfl, ?_⟩
    unfold Failed
    rw [current.id, current.host]
    exact Since.now ⟨current.asked, because⟩
  case fits => exact c.fits
  case cache => exact fun i named => (c.cache i named).later _

theorem Credited.parsed {d : Dns} (c : Credited d) (m : Bytes) (busy : Busy d) :
    Credited (d.dnsParse m).1 := by
  obtain ⟨q, current⟩ := c.busy busy
  rcases dnsParse_cases d m with is | ⟨why, refusal, is⟩ | ⟨ip, answer, is⟩
  · rw [is]
    exact c.hears m busy
  · rw [is]
    refine (c.hears m busy).fail (current.later _) (.inl ⟨m, ?_, Since.now current.asked⟩)
    rwa [current.id]
  · rw [is]
    constructor
    case asks => exact fun q asked => (c.hears m busy).asks q asked
    case busy => rintro (is | is | is) <;> exact (nomatch is)
    case done =>
      intro _
      refine ⟨q, current.later _, m, ?_, Since.now current.asked⟩
      rwa [current.id]
    case failed => exact fun is => (nomatch is)
    case fits => exact c.fits
    case cache => exact fun i named => (c.cache i named).later _

theorem Credited.onUdp {d : Dns} (c : Credited d) (p : Bytes) : Credited (d.onUdp p) := by
  unfold Dns.onUdp
  split
  · exact c
  · split
    · exact c
    · split
      · exact c
      · next waiting =>
        apply c.parsed
        by_cases first : d.phase = .udp1
        · exact .inl first
        · by_cases second : d.phase = .udp2
          · exact .inr (.inl second)
          · exact absurd ⟨first, second⟩ waiting

end Answers

section Timers

theorem Credited.sends {d : Dns} (c : Credited d) (s : Sending) : Credited (d.dnsSendUdp s) :=
  ⟨c.asks, c.busy, c.done, c.failed, c.fits, c.cache⟩

theorem Credited.moves {d d' : Dns} (c : Credited d) (busy : Busy d) (busy' : Busy d') (id : d'.id = d.id)
    (host : d'.host = d.host) (cache : d'.cache = d.cache) (past : d'.past = d.past) : Credited d' := by
  obtain ⟨q, current⟩ := c.busy busy
  constructor
  case asks => exact past ▸ c.asks
  case busy =>
    intro _
    rw [past, id, host]
    exact ⟨q, current⟩
  case done =>
    intro ended
    rcases busy' with is | is | is <;> exact (nomatch is.symm.trans ended)
  case failed =>
    intro ended
    rcases busy' with is | is | is <;> exact (nomatch is.symm.trans ended)
  case fits => exact host ▸ c.fits
  case cache =>
    rw [cache, past]
    exact c.cache

theorem Credited.dnsTcpTurn {d : Dns} (c : Credited d) (busy : Busy d) (p : Polling) :
    Credited (d.dnsTcpTurn p) := by
  obtain ⟨q, current⟩ := c.busy busy
  unfold Dns.dnsTcpTurn
  split
  · generalize (d.tcp.drop 2).take (word d.tcp 0) = m
    have parsed := c.parsed m busy
    rcases dnsParse_cases d m with is | ⟨why, -, is⟩ | ⟨ip, -, is⟩
    · rw [is]
      exact (c.hears m busy).fail (current.later _) (.inr (.inr (.inl rfl)))
    · rw [is] at parsed ⊢
      exact parsed
    · rw [is] at parsed ⊢
      exact parsed
  · split
    · exact c.fail current (.inr (.inr (.inr rfl)))
    · exact c

theorem Credited.dnsTcp {d : Dns} (c : Credited d) (phase : d.phase = .tcp) (p : Polling) :
    Credited (d.dnsTcp p) := by
  unfold Dns.dnsTcp
  have received : Credited { d with tcp := d.tcp ++ p.bytes.take (tcpCap - d.tcp.length) } :=
    c.moves (.inr (.inr phase)) (.inr (.inr phase)) rfl rfl rfl rfl
  have turned := received.dnsTcpTurn (.inr (.inr phase)) p
  dsimp only
  split
  · exact ⟨turned.asks, turned.busy, turned.done, turned.failed, turned.fits, turned.cache⟩
  · exact turned

theorem Credited.dnsStep {d : Dns} (c : Credited d) (p : Polling) : Credited (d.dnsStep p) := by
  unfold Dns.dnsStep
  split
  · next phase =>
    split
    · have again : Credited { d with phase := .udp2, phaseAt := p.now } :=
        c.moves (.inl phase) (.inr (.inl rfl)) rfl rfl rfl rfl
      exact again.sends p.sending
    · split
      · exact c.sends p.sending
      · exact c
  · next phase =>
    split
    · -- the connection is there from the call on, whatever comes of it
      have connects : Credited { d with conn := p.connected, tcp := [], sentAt := p.now } :=
        c.moves (.inr (.inl phase)) (.inr (.inl phase)) rfl rfl rfl rfl
      dsimp only
      split
      · obtain ⟨q, current⟩ := connects.busy (.inr (.inl phase))
        exact connects.fail current (.inr (.inl rfl))
      · exact connects.moves (.inr (.inl phase)) (.inr (.inr rfl)) rfl rfl rfl rfl
    · split
      · exact c.sends p.sending
      · exact c
  · next phase => exact c.dnsTcp phase p
  · exact c

theorem Credited.poll {d : Dns} (c : Credited d) (p : Polling) : Credited (d.poll p) := by
  have taken (datagrams : List Bytes) : ∀ {d : Dns}, Credited d → Credited (datagrams.foldl Dns.onUdp d) := by
    induction datagrams with
    | nil => exact fun c => c
    | cons first rest ih => exact fun c => ih (c.onUdp first)
  unfold Dns.poll
  split
  · exact (taken p.datagrams c).dnsStep p
  · exact c

end Timers

section Callers

theorem scopy_fits {cap : Nat} {s : Bytes} (fits : s.length < cap) : scopy cap s = s := by
  unfold scopy
  rw [List.take_of_length_le (by omega)]

theorem overwrite_take (buf bytes : Bytes) : (overwrite buf bytes).take bytes.length = bytes := by
  simp [overwrite]

theorem Credited.publish {d : Dns} (c : Credited d) (now : UInt64) :
    Credited (d.publish now) ∧ ((d.publish now).phase = .idle ∨ Busy (d.publish now)) := by
  unfold Dns.publish
  split
  · next ended =>
    have settled : ∃ q, Current d.past d.id d.host q ∧
        Settled d.past q (if d.phase = .failed then some (d.err.getD lookupFailed) else none) d.answer := by
      rcases ended with done | failed
      · rw [if_neg (by rw [done]; exact fun is => (nomatch is))]
        exact c.done done
      · obtain ⟨q, why, current, err, because⟩ := c.failed failed
        rw [if_pos failed, err]
        exact ⟨q, current, because⟩
    obtain ⟨q, current, settled⟩ := settled
    refine ⟨?_, .inl rfl⟩
    constructor
    case asks => exact fun q asked => c.asks q (List.mem_of_ne_of_mem (by simp) asked)
    case busy => rintro (is | is | is) <;> exact (nomatch is)
    case done => exact fun is => (nomatch is)
    case failed => exact fun is => (nomatch is)
    case fits => exact c.fits
    case cache =>
      intro i named
      dsimp only at named ⊢
      by_cases new : i = d.next
      · rw [if_pos new] at named ⊢
        refine ⟨q, now, ?_, (current.later _).asked, rfl, ?_⟩
        · rw [scopy_fits c.fits, current.host]
        · rw [current.id, current.host]
          exact Since.now settled
      · rw [if_neg new] at named ⊢
        exact (c.cache i named).later _
  · next going =>
    refine ⟨c, ?_⟩
    cases phase : d.phase with
    | idle => exact .inl rfl
    | udp1 => exact .inr (.inl phase)
    | udp2 => exact .inr (.inr (.inl phase))
    | tcp => exact .inr (.inr (.inr phase))
    | done => exact absurd (.inl phase) going
    | failed => exact absurd (.inr phase) going

theorem Credited.begins {d : Dns} (c : Credited d) (idle : d.phase = .idle) {call : Ask}
    (fits : call.host.length < hostCap) : Credited (d.begins call).1 ∧
      ((d.begins call).2 = .pending ∨ (d.begins call).2 = .failure notValid ∧ ¬Valid call.host) := by
  unfold Dns.begins Dns.dnsBuild
  dsimp only
  generalize (call.first ^^^ (call.second >>> 16)).toUInt16 = id
  have short : (header id).length = 12 := rfl
  cases whole : (putLabels call.host.length call.host (header id)).2 with
  | false =>
    refine ⟨?_, .inr ⟨rfl, ?_⟩⟩
    · constructor
      case asks => exact c.asks
      case busy => rintro (is | is | is) <;> exact (nomatch idle.symm.trans is)
      case done => exact fun is => (nomatch idle.symm.trans is)
      case failed => exact fun is => (nomatch idle.symm.trans is)
      case fits =>
        change (scopy hostCap call.host).length < hostCap
        rwa [scopy_fits fits]
      case cache => exact c.cache
    · rintro ⟨labels, each, spelled⟩
      have room := wire_length spelled
      unfold hostCap at fits
      rw [putLabels_accepts spelled each _ _ (Nat.le_refl _) (by rw [short]; unfold queryCap; omega)] at whole
      exact (nomatch whole)
  | true =>
    refine ⟨Credited.sends ?_ _, .inl rfl⟩
    obtain ⟨labels, each, spelled, written⟩ := putLabels_writes _ _ _ whole
    rw [written]
    constructor
    case asks =>
      rintro q (_ | ⟨_, earlier⟩)
      · refine ⟨labels, each, spelled, ?_⟩
        change (overwrite d.query (header id ++ labelBytes labels ++ trailer)).take
          ((header id ++ labelBytes labels).length + trailer.length) = _
        rw [← List.length_append, overwrite_take]
        rfl
      · exact c.asks q earlier
    case busy => exact fun _ => ⟨_, List.mem_cons_self, rfl, (scopy_fits fits).symm⟩
    case done => exact fun is => (nomatch is)
    case failed => exact fun is => (nomatch is)
    case fits =>
      change (scopy hostCap call.host).length < hostCap
      rwa [scopy_fits fits]
    case cache => exact fun i named => (c.cache i named).later _

theorem lookup_finds {d : Dns} {host : Bytes} {now : UInt64} {e : Entry}
    (found : d.lookup host now = some e) :
    ∃ i, e = d.cache i ∧ e.host ≠ [] ∧ now < e.expires ∧ e.host = host := by
  have holds := List.find?_some found
  obtain ⟨i, -, is⟩ := List.mem_map.mp (List.mem_of_find?_eq_some found)
  exact ⟨i, is.symm, by simpa using holds⟩

theorem expires_within {now t life : UInt64} (fresh : now < t + life) : now.toNat < t.toNat + life.toNat := by
  rw [UInt64.lt_iff_toNat_lt, UInt64.toNat_add] at fresh
  exact Nat.lt_of_lt_of_le fresh (Nat.mod_le _ _)

/-- An answer without a query: an address written out, or this machine's name. -/
def Literal (host : Bytes) (ip : Ip4) : Prop := parseIPv4 host = some ip ∨ host = localhost ∧ ip = loopback

/-- What `resolve` may tell its caller, by what was noted until then. -/
def Deserved (past : List Note) (call : Ask) : Reply → Prop
  | .pending => True
  | .address ip => Literal call.host ip ∨ ∃ q now, q.host = call.host ∧ .asked q ∈ past ∧
      Since past (.published q.id q.host now) (Answered · q ip) ∧ call.now.toNat < now.toNat + 60000
  | .failure why => call.network = false ∨ ¬Valid call.host ∨ ∃ q now, q.host = call.host ∧ .asked q ∈ past ∧
      Since past (.published q.id q.host now) (Failed · q why) ∧ call.now.toNat < now.toNat + 3000

theorem deserved_entry {past : List Note} {call : Ask} {e : Entry} (published : Published past e)
    (fresh : call.now < e.expires) (same : e.host = call.host) : Deserved past call e.reply := by
  obtain ⟨q, now, host, asked, expires, since⟩ := published
  rw [expires] at fresh
  have within := expires_within fresh
  obtain ⟨host', ip, error, _⟩ := e
  cases error with
  | none => exact .inr ⟨q, now, host.trans same, asked, since, within⟩
  | some why => exact .inr (.inr ⟨q, now, host.trans same, asked, since, within⟩)

theorem Credited.resolve {d : Dns} (c : Credited d) {call : Ask} (fits : call.host.length < hostCap) :
    Credited (d.resolve call).1 ∧ Deserved (d.resolve call).1.past call (d.resolve call).2 := by
  unfold Dns.resolve
  split
  · next down => exact ⟨c, .inl down⟩
  · split
    · next ip literal => exact ⟨c, .inl (.inl literal)⟩
    · split
      · next named => exact ⟨c, .inl (.inr ⟨named, rfl⟩)⟩
      · obtain ⟨published, phase⟩ := c.publish call.now
        dsimp only
        split
        · next e found =>
          obtain ⟨i, rfl, named, fresh, same⟩ := lookup_finds found
          exact ⟨published, deserved_entry (published.cache i named) fresh same⟩
        · split
          · exact ⟨published, trivial⟩
          · next idle =>
            obtain ⟨begun, reply⟩ := published.begins (not_not.mp idle) fits
            refine ⟨begun, ?_⟩
            rcases reply with pending | ⟨refused, bad⟩
            · rw [pending]
              exact trivial
            · rw [refused]
              exact .inr (.inl bad)

end Callers

/-! ## Any interleaving -/

/-- A caller's host is one that `Url::host` can hold. -/
def Event.Fits : Event → Prop
  | .ask c => c.host.length < hostCap
  | .poll _ => True

theorem start_credited (portLocal : Nat) : Credited (start portLocal) := by
  constructor
  case asks => exact fun q asked => (nomatch asked)
  case busy => rintro (is | is | is) <;> exact (nomatch is)
  case done => exact fun is => (nomatch is)
  case failed => exact fun is => (nomatch is)
  case fits => exact Nat.zero_lt_succ _
  case cache => exact fun i named => absurd rfl named

theorem Credited.step {d : Dns} (c : Credited d) {e : Event} (fits : e.Fits) : Credited (d.step e) := by
  cases e with
  | ask call => exact (c.resolve fits).1
  | poll p => exact c.poll p

theorem Credited.run {events : List Event} : ∀ {d : Dns}, Credited d → (∀ e ∈ events, e.Fits) →
    Credited (d.run events) := by
  induction events with
  | nil => exact fun c _ => c
  | cons e rest ih =>
    intro d c fits
    exact ih (c.step (fits e List.mem_cons_self)) fun k member => fits k (List.mem_cons_of_mem e member)

theorem resolve_waits {d : Dns} (busy : Busy d) (call : Ask) : (d.resolve call).1 = d := by
  have going : d.publish call.now = d := by
    unfold Dns.publish
    rw [if_neg]
    rintro (ended | ended) <;> rcases busy with is | is | is <;> exact (nomatch is.symm.trans ended)
  unfold Dns.resolve
  split
  · rfl
  · split
    · rfl
    · split
      · rfl
      · rw [going]
        dsimp only
        split
        · rfl
        · rw [if_pos]
          intro idle
          rcases busy with is | is | is <;> exact (nomatch is.symm.trans idle)

def Note.query : Note → Option Query
  | .asked q => some q
  | _ => none

/-- The transaction ids of different queries are distinct. -/
def DistinctIds (past : List Note) : Prop := ((past.filterMap Note.query).map Query.id).Nodup

theorem DistinctIds.sole {past : List Note} (distinct : DistinctIds past) {a b : Query}
    (first : .asked a ∈ past)
    (second : .asked b ∈ past) (same : a.id = b.id) : a = b := by
  have listed {q : Query} (asked : .asked q ∈ past) : q ∈ past.filterMap Note.query :=
    List.mem_filterMap.mpr ⟨_, asked, rfl⟩
  exact List.inj_on_of_nodup_map distinct (listed first) (listed second) same

/-- `ip` is what a message said that came in answer to the query for the caller's
host and to no other query, and was published less than a minute ago. -/
def Credit (past : List Note) (call : Ask) (ip : Ip4) : Prop :=
  ∃ q m now, q.host = call.host ∧ Asks q.message q.id q.host ∧ Answer m q.id ip ∧
    Since past (.published q.id q.host now) (Since · (.heard m) (.asked q ∈ ·)) ∧
      call.now.toNat < now.toNat + 60000 ∧
    ∀ k, .asked k ∈ past → get16 m 0 = some k.id.toNat → k = q

/-- A query for the caller's host has failed, published less than three seconds ago. -/
def Blame (past : List Note) (call : Ask) (why : String) : Prop :=
  ∃ q now, q.host = call.host ∧ Asks q.message q.id q.host ∧
    Since past (.published q.id q.host now) (Failed · q why) ∧ call.now.toNat < now.toNat + 3000

theorem credit_of_deserved {d : Dns} (c : Credited d) (distinct : DistinctIds d.past) {call : Ask} {ip : Ip4}
    (deserved : Deserved d.past call (.address ip)) : Literal call.host ip ∨ Credit d.past call ip := by
  rcases deserved with literal | ⟨q, now, host, asked, ⟨older, suffix, m, answer, since⟩, within⟩
  · exact .inl literal
  · refine .inr ⟨q, m, now, host, c.asks q asked, answer, ⟨older, suffix, since⟩, within, ?_⟩
    intro k asked' id
    apply distinct.sole asked' asked
    rw [answer.id] at id
    exact (UInt16.toNat_inj.mp (Option.some.inj id)).symm

/-- Whatever was asked by whomever, polled and answered before: no message is read
outside its bounds, a query on the wire stands, and what `resolve` says is a literal
address or the answer to a query for that host, or that there is no network, no such
name or a query for that host that failed. -/
theorem resolutions_credited (portLocal : Nat) (events : List Event) (call : Ask)
    (fits : ∀ e ∈ events ++ [.ask call], e.Fits)
    (distinct : DistinctIds ((start portLocal).run (events ++ [.ask call])).past) :
    (∀ id m, ∃ r, read id m = some r) ∧
    (Busy ((start portLocal).run events) →
      (start portLocal).run (events ++ [.ask call]) = (start portLocal).run events) ∧
    (∀ ip, (((start portLocal).run events).resolve call).2 = .address ip →
      Literal call.host ip ∨ Credit ((start portLocal).run (events ++ [.ask call])).past call ip) ∧
    ∀ why, (((start portLocal).run events).resolve call).2 = .failure why →
      call.network = false ∨ ¬Valid call.host ∨
        Blame ((start portLocal).run (events ++ [.ask call])).past call why := by
  have last : (start portLocal).run (events ++ [.ask call]) =
      (((start portLocal).run events).resolve call).1 := by
    rw [Dns.run, List.foldl_append]
    rfl
  have before : Credited ((start portLocal).run events) :=
    (start_credited portLocal).run fun e member => fits e (List.mem_append_left _ member)
  have callFits : call.host.length < hostCap := fits (.ask call) (by simp)
  rw [last] at distinct ⊢
  generalize (start portLocal).run events = d at before distinct ⊢
  obtain ⟨after, deserved⟩ := before.resolve callFits
  refine ⟨?_, fun busy => resolve_waits busy call, ?_, ?_⟩
  · intro id m
    obtain ⟨r, is, -⟩ := read_reads id m
    exact ⟨r, is⟩
  · intro ip is
    rw [is] at deserved
    exact credit_of_deserved after distinct deserved
  · intro why is
    rw [is] at deserved
    rcases deserved with down | bad | ⟨q, now, host, asked, since, within⟩
    · exact .inl down
    · exact .inr (.inl bad)
    · exact .inr (.inr ⟨q, now, host, after.asks q asked, since, within⟩)

section Lookup

/-- A call for the host of these bytes, whose query gets the id 7. -/
def asks (host : Bytes) (now : UInt64) : Ask := ⟨host, true, now, 7, 0, ⟨true, now⟩⟩

/-- An answer of this id: one record behind a pointer to nowhere, 10.1.2.3. -/
def dangling (id : UInt16) : Bytes :=
  put16 id ++ [0x81, 0x80, 0, 0, 0, 1, 0, 0, 0, 0] ++ [0xC0, 0xFF, 0, 1, 0, 1, 0, 0, 0, 9, 0, 4, 10, 1, 2, 3]

def answered (m : Bytes) : Polling where
  network := true
  datagrams := [put16 53 ++ put16 47010 ++ put16 (UInt16.ofNat (8 + m.length)) ++ put16 0 ++ m]
  now := 20
  sending := ⟨true, 20⟩
  connected := none
  bytes := []
  over_ := false

/-- A lookup of "r2" from the first call to the one that gets the address. -/
theorem looked_up : Literal [114, 50] (dotted 10 1 2 3) ∨
    Credit ((start 47010).run [.ask (asks [114, 50] 10), .poll (answered (dangling 7)),
      .ask (asks [114, 50] 30)]).past
      (asks [114, 50] 30) (dotted 10 1 2 3) :=
  (resolutions_credited 47010 [.ask (asks [114, 50] 10), .poll (answered (dangling 7))] (asks [114, 50] 30)
    (by
      intro e member
      simp only [List.cons_append, List.nil_append, List.mem_cons, List.not_mem_nil, or_false] at member
      rcases member with rfl | rfl | rfl
      · exact (by decide : 2 < 128)
      · exact trivial
      · exact (by decide : 2 < 128))
    (by unfold DistinctIds; decide)).2.2.1 (dotted 10 1 2 3) (by decide)

/-- An address that no query was made for, a failure without network for a name that
is one, and an answer whose name is a pointer behind its end. -/
theorem unqueried :
    (((start 47010).resolve (asks [49, 46, 50, 46, 51, 46, 52] 10)).2 = .address (dotted 1 2 3 4) ∧
      ((start 47010).resolve (asks [49, 46, 50, 46, 51, 46, 52] 10)).1.past = []) ∧
    (((start 47010).resolve { asks [114, 50] 10 with network := false }).2 = .failure noNetwork ∧
      Valid [114, 50]) ∧
    (((start 47010).run [.ask (asks [114, 50] 10), .poll (answered (dangling 7))]).resolve
      (asks [114, 50] 30)).2 =
      .address (dotted 10 1 2 3) := by
  refine ⟨⟨by decide, by decide⟩, ⟨by decide, [[114, 50]], ?_, .last⟩, by decide⟩
  intro l member
  rw [List.mem_singleton.mp member]
  exact ⟨by decide, by decide, by decide⟩

end Lookup

end R2Apps.WebDns
