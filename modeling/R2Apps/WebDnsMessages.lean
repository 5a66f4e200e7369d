import Mathlib.Data.List.TakeWhile
import R2Apps.PrefixRoutes
import R2Apps.WireBytes

/-! The DNS messages of the browser's stack, `web/net_r2.cpp`: the query that
`dnsBuild` writes and the address that `dnsParse` takes from an answer. A read is
`m[i]?`, so `none` is a read outside the message; there is none. -/
namespace R2Apps.WebDnsMessages
open PrefixRoutes
open WireBytes (labelBytes)

abbrev Bytes := List UInt8

def dot : UInt8 := 46
def queryCap : Nat := 300 -- sizeof(dnsQuery_)

def put16 (v : UInt16) : Bytes := [(v >>> 8).toUInt8, v.toUInt8]

/-- `get16`, of a place that may not be there. -/
def get16 (m : Bytes) (i : Nat) : Option Nat := do
  let high ← m[i]?
  let low ← m[i + 1]?
  return 256 * high.toNat + low.toNat

section Queries

def header (id : UInt16) : Bytes := put16 id ++ put16 0x0100 ++ put16 1 ++ put16 0 ++ put16 0 ++ put16 0

/-- The label that a name begins with. -/
def label (s : Bytes) : Bytes := s.takeWhile (· ≠ dot)

/-- The loop of `dnsBuild` over the name: what it has written when it ends, and
whether it came to the end of the name. A turn takes a byte at least. -/
def putLabels : Nat → Bytes → Bytes → Bytes × Bool
  | _, [], q => (q, true)
  | 0, _ :: _, q => (q, false)
  | left_ + 1, b :: rest, q =>
    let s := b :: rest
    let l := (label s).length
    if l = 0 ∨ 63 < l ∨ queryCap - 6 < q.length + l + 2 then (q, false)
    else putLabels left_ (s.drop (l + 1)) (q ++ UInt8.ofNat l :: label s)

/-- The root's label, then A and IN. -/
def trailer : Bytes := 0 :: put16 1 ++ put16 1

end Queries

section Answers

/-- The loop of `skipName`: every turn moves on, so as many turns as the message
has bytes come to its end. -/
def skipFrom (m : Bytes) : Nat → Nat → Option Nat
  | 0, _ => some (m.length + 1)
  | turns + 1, off =>
    if off < m.length then do
      let l ← m[off]?
      if l &&& 0xC0 = 0xC0 then return off + 2
      if l = 0 then return off + 1
      skipFrom m turns (off + (1 + l.toNat))
    else some (m.length + 1)

def skipName (m : Bytes) (off : Nat) : Option Nat := skipFrom m m.length off

def skipQuestions (m : Bytes) : Nat → Nat → Option Nat
  | 0, off => some off
  | left_ + 1, off => do
    let off ← skipName m off
    skipQuestions m left_ (off + 4)

/-- The loop over the answers, to the first address or to where it stops. -/
def findAddress (m : Bytes) : Nat → Nat → Option (Option Ip4)
  | 0, _ => some none
  | left_ + 1, off =>
    if off < m.length then do
      let off ← skipName m off
      if off + 10 > m.length then return none
      let type ← get16 m off
      let cls ← get16 m (off + 2)
      let rdl ← get16 m (off + 8)
      let off := off + 10
      if off + rdl > m.length then return none
      if type = 1 ∧ cls = 1 ∧ rdl = 4 then
        return some (dotted (← m[off]?) (← m[off + 1]?) (← m[off + 2]?) (← m[off + 3]?))
      findAddress m left_ (off + rdl)
    else some none

/-- What `dnsParse` makes of a message: it is no answer to this query, it says no,
or it has the address. -/
inductive Reading where
  | notOurs
  | failed (why : String)
  | done (ip : Ip4)
deriving DecidableEq

def noSuchHost : String := "no such host"
def serverError : String := "the name server returned an error"
def noAddress : String := "the name has no IPv4 address"

def read (id : UInt16) (m : Bytes) : Option Reading :=
  if m.length < 12 then some .notOurs
  else do
    if (← get16 m 0) ≠ id.toNat then return .notOurs
    if (← m[2]?) &&& 0x80 = 0 then return .notOurs
    let rcode := (← m[3]?) &&& 0x0F
    if rcode ≠ 0 then return .failed (if rcode = 3 then noSuchHost else serverError)
    let off ← skipQuestions m (← get16 m 4) 12
    match ← findAddress m (← get16 m 6) off with
    | some ip => return .done ip
    | none => return .failed noAddress

end Answers

/-! ## What a message is -/

/-- A name in `m`, as `skipName` goes over it: labels, then a zero or a pointer. -/
inductive Name (m : Bytes) : Nat → Nat → Prop where
  | root {off : Nat} : m[off]? = some 0 → Name m off (off + 1)
  | pointer {off : Nat} {l : UInt8} : m[off]? = some l → l &&& 0xC0 = 0xC0 → Name m off (off + 2)
  | label {off stop : Nat} {l : UInt8} : m[off]? = some l → l ≠ 0 → l &&& 0xC0 ≠ 0xC0 →
      Name m (off + (1 + l.toNat)) stop → Name m off stop

/-- So many questions, each a name, a type and a class. -/
inductive Questions (m : Bytes) : Nat → Nat → Nat → Prop where
  | none {off : Nat} : Questions m 0 off off
  | one {left_ off stop last : Nat} : Name m off stop → Questions m left_ (stop + 4) last →
      Questions m (left_ + 1) off last

/-- A record's fixed part at `off`, whose data lies inside the message. -/
structure Fixed (m : Bytes) (off type cls rdl : Nat) : Prop where
  typed : get16 m off = some type
  classed : get16 m (off + 2) = some cls
  sized : get16 m (off + 8) = some rdl
  inside : off + 10 + rdl ≤ m.length

/-- The first address among so many records: the data of an A record of class IN
with no such record before it. -/
inductive FirstAddress (m : Bytes) (ip : Ip4) : Nat → Nat → Prop where
  | here {left_ off stop : Nat} : Name m off stop → Fixed m stop 1 1 4 →
      (m.drop (stop + 10)).take 4 = ip.toList → FirstAddress m ip (left_ + 1) off
  | later {left_ off stop type cls rdl : Nat} : Name m off stop → Fixed m stop type cls rdl →
      ¬(type = 1 ∧ cls = 1 ∧ rdl = 4) → FirstAddress m ip left_ (stop + 10 + rdl) →
      FirstAddress m ip (left_ + 1) off

/-- An answer to the query `id` whose first address is `ip`. -/
structure Answer (m : Bytes) (id : UInt16) (ip : Ip4) : Prop where
  id : get16 m 0 = some id.toNat
  response : ∃ flags, m[2]? = some flags ∧ flags &&& 0x80 ≠ 0
  rcode : ∃ flags, m[3]? = some flags ∧ flags &&& 0x0F = 0
  sections : ∃ questions answers off, get16 m 4 = some questions ∧ get16 m 6 = some answers ∧
    Questions m questions 12 off ∧ FirstAddress m ip answers off

/-- A message that says no to the query `id`. -/
structure Refusal (m : Bytes) (id : UInt16) : Prop where
  noAnswer : ∀ ip, ¬Answer m id ip
  id : get16 m 0 = some id.toNat
  response : ∃ flags, m[2]? = some flags ∧ flags &&& 0x80 ≠ 0

/-- How a host is written with labels: a dot behind each, which the last may lack. -/
inductive Spells : List Bytes → Bytes → Prop where
  | nil : Spells [] []
  | last {l : Bytes} : Spells [l] l
  | more {l : Bytes} {labels : List Bytes} {rest : Bytes} : Spells labels rest →
      Spells (l :: labels) (l ++ dot :: rest)

/-- What a label may be. -/
def Label (l : Bytes) : Prop := 1 ≤ l.length ∧ l.length ≤ 63 ∧ dot ∉ l

/-- A name that can be asked for. -/
def Valid (host : Bytes) : Prop := ∃ labels, (∀ l ∈ labels, Label l) ∧ Spells labels host

/-- A query of this id for the address of `host`. -/
def Asks (message : Bytes) (id : UInt16) (host : Bytes) : Prop :=
  ∃ labels, (∀ l ∈ labels, Label l) ∧ Spells labels host ∧
    message = header id ++ labelBytes labels ++ trailer

section Writing

theorem label_split (s : Bytes) : s = label s ∨ s = label s ++ dot :: s.drop ((label s).length + 1) := by
  induction s with
  | nil => exact .inl rfl
  | cons b rest ih =>
    by_cases is : b = dot
    · right
      simp [label, is]
    · have first : label (b :: rest) = b :: label rest := by simp [label, is]
      rw [first]
      rcases ih with whole | cut
      · left
        rw [← whole]
      · right
        simpa using cut

theorem label_dotless (s : Bytes) : dot ∉ label s := by
  intro has
  simpa using List.mem_takeWhile_imp has

theorem spells_nil {labels : List Bytes} (spelled : Spells labels []) (each : ∀ l ∈ labels, 1 ≤ l.length) :
    labels = [] := by
  generalize empty : ([] : Bytes) = s at spelled
  cases spelled with
  | nil => rfl
  | last =>
    have long := each s List.mem_cons_self
    rw [← empty] at long
    simp at long
  | more => simp at empty

theorem putLabels_writes (left_ : Nat) : ∀ s q : Bytes, (putLabels left_ s q).2 = true →
    ∃ labels, (∀ l ∈ labels, Label l) ∧ Spells labels s ∧
      (putLabels left_ s q).1 = q ++ labelBytes labels := by
  have ended (q : Bytes) : ∃ labels, (∀ l ∈ labels, Label l) ∧ Spells labels [] ∧
      q = q ++ labelBytes labels := ⟨[], by simp, .nil, by simp [labelBytes]⟩
  induction left_ with
  | zero =>
    intro s q accepted
    cases s with
    | nil => exact ended q
    | cons b rest => simp [putLabels] at accepted
  | succ left_ ih =>
    intro s q accepted
    cases s with
    | nil => exact ended q
    | cons b rest =>
      rw [putLabels] at accepted ⊢
      split at accepted
      · simp at accepted
      · next sized =>
        rw [if_neg sized]
        obtain ⟨labels, each, spelled, written⟩ := ih _ _ accepted
        refine ⟨label (b :: rest) :: labels, ?_, ?_, ?_⟩
        · rintro l (_ | ⟨_, later⟩)
          · exact ⟨by omega, by omega, label_dotless _⟩
          · exact each l later
        · rcases label_split (b :: rest) with whole | cut
          · -- the name ends here, so there is no label behind this one
            have nothing : (b :: rest).drop ((label (b :: rest)).length + 1) = [] := by
              rw [← whole]
              simp
            rw [nothing] at spelled
            rw [spells_nil spelled fun l member => (each l member).1, ← whole]
            exact .last
          · have more := Spells.more (l := label (b :: rest)) spelled
            rwa [← cut] at more
        · rw [written]
          simp [labelBytes]

theorem spelled_head {l rest : Bytes} (dotless : dot ∉ l) (ends : rest = [] ∨ rest.head? = some dot) :
    label (l ++ rest) = l := by
  unfold label
  rw [List.takeWhile_append_of_pos]
  · rcases ends with rfl | first
    · simp
    · cases rest with
      | nil => simp
      | cons b rest =>
        obtain rfl : b = dot := by simpa using first
        simp
  · intro b member
    simpa using fun is : b = dot => dotless (is ▸ member)

theorem putLabels_accepts {labels : List Bytes} {s : Bytes} (spelled : Spells labels s)
    (each : ∀ l ∈ labels, Label l) :
    ∀ left_ q, s.length ≤ left_ → q.length + (labelBytes labels).length + 1 ≤ queryCap - 6 →
      (putLabels left_ s q).2 = true := by
  -- one label with what is behind it
  have turn (l rest : Bytes) (labels : List Bytes) (is : Label l) (ends : rest = [] ∨ rest.head? = some dot)
      (left_ : Nat) (q : Bytes) (enough : (l ++ rest).length ≤ left_)
      (room : q.length + (labelBytes (l :: labels)).length + 1 ≤ queryCap - 6)
      (next : ∀ left_ q, (rest.drop 1).length ≤ left_ →
        q.length + (labelBytes labels).length + 1 ≤ queryCap - 6 →
        (putLabels left_ (rest.drop 1) q).2 = true) : (putLabels left_ (l ++ rest) q).2 = true := by
    obtain ⟨long, short, dotless⟩ := is
    have first := spelled_head dotless ends
    have taken : (labelBytes (l :: labels)).length = l.length + 1 + (labelBytes labels).length := by
      simp [labelBytes]; omega
    rw [taken] at room
    rw [List.length_append] at enough
    cases l with
    | nil => simp at long
    | cons b l =>
      cases left_ with
      | zero => simp at enough
      | succ left_ =>
        rw [List.cons_append] at first ⊢
        rw [putLabels, first, if_neg (by omega)]
        have behind : (b :: (l ++ rest)).drop ((b :: l).length + 1) = rest.drop 1 := by
          rw [← List.cons_append, ← List.drop_drop, List.drop_left]
        rw [behind]
        apply next
        · rw [List.length_drop]
          simp only [List.length_cons] at enough
          omega
        · rw [List.length_append, List.length_cons]
          omega
  induction spelled with
  | nil => intro left_ q _ _; cases left_ <;> rfl
  | @last l =>
    intro left_ q enough room
    have done (left_ : Nat) (q : Bytes) : (putLabels left_ [] q).2 = true := by cases left_ <;> rfl
    have := turn l [] [] (each l List.mem_cons_self) (.inl rfl) left_ q (by simpa using enough) room
      (fun left_ q _ _ => done left_ q)
    rwa [List.append_nil] at this
  | @more l labels rest _ ih =>
    intro left_ q enough room
    exact turn l (dot :: rest) labels (each l List.mem_cons_self) (.inr rfl) left_ q enough room
      (ih fun k member => each k (List.mem_cons_of_mem l member))

theorem wire_length {labels : List Bytes} {s : Bytes} (spelled : Spells labels s) :
    (labelBytes labels).length ≤ s.length + 1 := by
  induction spelled with
  | nil => simp [labelBytes]
  | last => simp [labelBytes]
  | more _ ih =>
    simp only [labelBytes, List.flatMap_cons, List.length_append, List.length_cons] at ih ⊢
    omega

end Writing

section Reading_

theorem get16_isSome {m : Bytes} {i : Nat} (inside : i + 2 ≤ m.length) : ∃ v, get16 m i = some v := by
  have high : m[i]? = some m[i] := List.getElem?_eq_getElem (by omega)
  have low : m[i + 1]? = some m[i + 1] := List.getElem?_eq_getElem (by omega)
  exact ⟨_, by rw [get16, high, low]; rfl⟩

theorem skipFrom_reads (m : Bytes) (turns : Nat) : ∀ off, m.length ≤ off + turns →
    ∃ stop, skipFrom m turns off = some stop ∧ (Name m off stop ∨ stop = m.length + 1) := by
  induction turns with
  | zero => exact fun off _ => ⟨_, rfl, .inr rfl⟩
  | succ turns ih =>
    intro off enough
    rw [skipFrom]
    by_cases inside : off < m.length
    · have here : m[off]? = some m[off] := List.getElem?_eq_getElem inside
      rw [if_pos inside, here]
      dsimp only [bind, Option.bind]
      split
      · next pointer => exact ⟨_, rfl, .inl (.pointer here pointer)⟩
      · next noPointer =>
        split
        · next zero => exact ⟨_, rfl, .inl (.root (by rw [here, zero]))⟩
        · next more =>
          obtain ⟨stop, skipped, ended⟩ := ih (off + (1 + m[off].toNat)) (by omega)
          refine ⟨stop, skipped, ?_⟩
          rcases ended with name | behind
          · exact .inl (.label here more noPointer name)
          · exact .inr behind
    · rw [if_neg inside]
      exact ⟨_, rfl, .inr rfl⟩

theorem skipFrom_turn {m : Bytes} {off turns : Nat} {l : UInt8} (here : m[off]? = some l)
    (enough : m.length ≤ off + turns) : ∃ left_, m.length ≤ off + left_ + 1 ∧ skipFrom m turns off =
      if l &&& 0xC0 = 0xC0 then some (off + 2) else if l = 0 then some (off + 1)
      else skipFrom m left_ (off + (1 + l.toNat)) := by
  obtain ⟨inside, -⟩ := List.getElem?_eq_some_iff.mp here
  cases turns with
  | zero => omega
  | succ left_ =>
    refine ⟨left_, by omega, ?_⟩
    rw [skipFrom, if_pos inside, here]
    rfl

theorem skipFrom_name {m : Bytes} {off stop : Nat} (name : Name m off stop) :
    ∀ turns, m.length ≤ off + turns → skipFrom m turns off = some stop := by
  induction name with
  | root here =>
    intro turns enough
    obtain ⟨_, -, turn⟩ := skipFrom_turn here enough
    rw [turn, if_neg (by decide), if_pos rfl]
  | pointer here is =>
    intro turns enough
    obtain ⟨_, -, turn⟩ := skipFrom_turn here enough
    rw [turn, if_pos is]
  | label here more noPointer name ih =>
    intro turns enough
    obtain ⟨left_, fewer, turn⟩ := skipFrom_turn here enough
    rw [turn, if_neg noPointer, if_neg more]
    exact ih left_ (by omega)

theorem skipName_reads (m : Bytes) (off : Nat) :
    ∃ stop, skipName m off = some stop ∧ (Name m off stop ∨ stop = m.length + 1) :=
  skipFrom_reads m m.length off (by omega)

theorem skipName_name {m : Bytes} {off stop : Nat} (name : Name m off stop) : skipName m off = some stop :=
  skipFrom_name name m.length (by omega)

theorem Name.inside {m : Bytes} {off stop : Nat} (name : Name m off stop) : off < m.length := by
  cases name with
  | root here | pointer here _ | label here _ _ _ => exact (List.getElem?_eq_some_iff.mp here).1

theorem skipName_behind {m : Bytes} {off : Nat} (behind : m.length ≤ off) :
    skipName m off = some (m.length + 1) := by
  obtain ⟨stop, skipped, name | at_⟩ := skipName_reads m off
  · have := name.inside
    omega
  · rw [skipped, at_]

theorem skipQuestions_behind {m : Bytes} (left_ : Nat) : ∀ off, m.length ≤ off →
    ∃ last, skipQuestions m left_ off = some last ∧ m.length ≤ last := by
  induction left_ with
  | zero => exact fun off behind => ⟨off, rfl, behind⟩
  | succ left_ ih =>
    intro off behind
    rw [skipQuestions, skipName_behind behind]
    exact ih _ (by omega)

theorem skipQuestions_reads (m : Bytes) (left_ : Nat) : ∀ off,
    ∃ last, skipQuestions m left_ off = some last ∧ (last < m.length → Questions m left_ off last) := by
  induction left_ with
  | zero => exact fun off => ⟨off, rfl, fun _ => .none⟩
  | succ left_ ih =>
    intro off
    obtain ⟨stop, skipped, name | behind⟩ := skipName_reads m off
    · obtain ⟨last, rest, walked⟩ := ih (stop + 4)
      refine ⟨last, ?_, fun inside => .one name (walked inside)⟩
      rw [skipQuestions, skipped]
      exact rest
    · obtain ⟨last, rest, far⟩ := skipQuestions_behind (m := m) left_ (stop + 4) (by omega)
      refine ⟨last, ?_, fun inside => absurd inside (by omega)⟩
      rw [skipQuestions, skipped]
      exact rest

theorem skipQuestions_walks {m : Bytes} {left_ off last : Nat} (walk : Questions m left_ off last) :
    skipQuestions m left_ off = some last := by
  induction walk with
  | none => rfl
  | one name _ ih =>
    rw [skipQuestions, skipName_name name]
    exact ih

end Reading_

section Records

theorem Fixed.reads {m : Bytes} {off : Nat} (inside : off + 10 ≤ m.length) :
    ∃ type cls rdl, get16 m off = some type ∧ get16 m (off + 2) = some cls ∧
      get16 m (off + 8) = some rdl := by
  obtain ⟨type, typed⟩ := get16_isSome (m := m) (i := off) (by omega)
  obtain ⟨cls, classed⟩ := get16_isSome (m := m) (i := off + 2) (by omega)
  obtain ⟨rdl, sized⟩ := get16_isSome (m := m) (i := off + 8) (by omega)
  exact ⟨type, cls, rdl, typed, classed, sized⟩

theorem four_bytes {m : Bytes} {off : Nat} (inside : off + 4 ≤ m.length) :
    ∃ a b c d, m[off]? = some a ∧ m[off + 1]? = some b ∧ m[off + 2]? = some c ∧ m[off + 3]? = some d ∧
      (m.drop off).take 4 = [a, b, c, d] := by
  refine ⟨m[off], m[off + 1], m[off + 2], m[off + 3], List.getElem?_eq_getElem _, List.getElem?_eq_getElem _,
    List.getElem?_eq_getElem _, List.getElem?_eq_getElem _, ?_⟩
  rw [List.drop_eq_getElem_cons (by omega), List.drop_eq_getElem_cons (by omega),
    List.drop_eq_getElem_cons (by omega), List.drop_eq_getElem_cons (by omega)]
  rfl

theorem findAddress_turn {m : Bytes} {off stop left_ : Nat} (inside : off < m.length)
    (skipped : skipName m off = some stop) : findAddress m (left_ + 1) off =
      if stop + 10 > m.length then some none
      else (do
        let type ← get16 m stop
        let cls ← get16 m (stop + 2)
        let rdl ← get16 m (stop + 8)
        if stop + 10 + rdl > m.length then some none
        else if type = 1 ∧ cls = 1 ∧ rdl = 4 then
          some (some (dotted (← m[stop + 10]?) (← m[stop + 10 + 1]?) (← m[stop + 10 + 2]?)
            (← m[stop + 10 + 3]?)))
        else findAddress m left_ (stop + 10 + rdl)) := by
  rw [findAddress, if_pos inside, skipped]
  rfl

theorem FirstAddress.inside {m : Bytes} {ip : Ip4} {left_ off : Nat} (first : FirstAddress m ip left_ off) :
    off < m.length := by
  cases first with
  | here name _ _ | later name _ _ _ => exact name.inside

theorem findAddress_finds {m : Bytes} {ip : Ip4} {left_ off : Nat} (first : FirstAddress m ip left_ off) :
    findAddress m left_ off = some (some ip) := by
  induction first with
  | here name fixed data =>
    have room := fixed.inside
    rw [findAddress_turn name.inside (skipName_name name), if_neg (by omega), fixed.typed,
      fixed.classed, fixed.sized]
    obtain ⟨a, b, c, d, first, second, third, fourth, bytes⟩ := four_bytes room
    rw [first, second, third, fourth]
    have is : dotted a b c d = ip := Vector.toList_inj.mp (bytes.symm.trans data)
    dsimp only [bind, Option.bind]
    rw [if_neg (by omega), if_pos ⟨rfl, rfl, rfl⟩, is]
  | later name fixed other _ ih =>
    have room := fixed.inside
    rw [findAddress_turn name.inside (skipName_name name), if_neg (by omega), fixed.typed,
      fixed.classed, fixed.sized]
    dsimp only [bind, Option.bind]
    rw [if_neg (by omega), if_neg other, ih]

theorem findAddress_reads (m : Bytes) (left_ : Nat) : ∀ off,
    ∃ r, findAddress m left_ off = some r ∧ ∀ ip, r = some ip → FirstAddress m ip left_ off := by
  have nothing (left_ off : Nat) : ∀ ip, (none : Option Ip4) = some ip → FirstAddress m ip left_ off :=
    fun ip is => (nomatch is)
  induction left_ with
  | zero => exact fun off => ⟨none, rfl, nothing 0 off⟩
  | succ left_ ih =>
    intro off
    by_cases inside : off < m.length
    · obtain ⟨stop, skipped, ended⟩ := skipName_reads m off
      rw [findAddress_turn inside skipped]
      by_cases short : stop + 10 > m.length
      · rw [if_pos short]
        exact ⟨none, rfl, nothing _ _⟩
      · -- so the name ended inside, and the fixed part can be read
        have name : Name m off stop := ended.resolve_right (by omega)
        obtain ⟨type, cls, rdl, typed, classed, sized⟩ := @Fixed.reads m stop (by omega)
        rw [if_neg short, typed, classed, sized]
        dsimp only [bind, Option.bind]
        by_cases cut : stop + 10 + rdl > m.length
        · rw [if_pos cut]
          exact ⟨none, rfl, nothing _ _⟩
        · have fixed : Fixed m stop type cls rdl := ⟨typed, classed, sized, by omega⟩
          rw [if_neg cut]
          by_cases address : type = 1 ∧ cls = 1 ∧ rdl = 4
          · obtain ⟨rfl, rfl, rfl⟩ := address
            obtain ⟨a, b, c, d, first, second, third, fourth, bytes⟩ := four_bytes fixed.inside
            rw [if_pos ⟨rfl, rfl, rfl⟩, first, second, third, fourth]
            refine ⟨some (dotted a b c d), rfl, ?_⟩
            rintro ip ⟨⟩
            exact .here name fixed bytes
          · obtain ⟨r, found, firsts⟩ := ih (stop + 10 + rdl)
            rw [if_neg address]
            exact ⟨r, found, fun ip is => .later name fixed address (firsts ip is)⟩
    · rw [findAddress, if_neg inside]
      exact ⟨none, rfl, nothing _ _⟩

end Records

section Parsing

theorem Answer.long {m : Bytes} {id : UInt16} {ip : Ip4} (answer : Answer m id ip) : 12 ≤ m.length := by
  obtain ⟨questions, answers, off, -, -, walk, first⟩ := answer.sections
  have inside := first.inside
  cases walk with
  | none => omega
  | one name _ =>
    have := name.inside
    omega

theorem Answer.read {m : Bytes} {id : UInt16} {ip : Ip4} (answer : Answer m id ip) :
    read id m = some (.done ip) := by
  obtain ⟨flags, second, response⟩ := answer.response
  obtain ⟨flags', third, fine⟩ := answer.rcode
  obtain ⟨questions, answers, off, asked, said, walk, first⟩ := answer.sections
  have long := answer.long
  rw [WebDnsMessages.read, if_neg (by omega), answer.id, second, third, asked, said]
  dsimp only [bind, Option.bind]
  rw [if_neg (fun other => other rfl), if_neg response, if_neg (fun bad => bad fine),
    skipQuestions_walks walk]
  dsimp only
  rw [findAddress_finds first]
  rfl

theorem read_reads (id : UInt16) (m : Bytes) : ∃ r, read id m = some r ∧
    (∀ ip, r = .done ip → Answer m id ip) ∧ (∀ why, r = .failed why → Refusal m id) := by
  -- what is no answer when it is read is none
  have refused (why : String) (is : read id m = some (.failed why)) (ip : Ip4) : ¬Answer m id ip := by
    intro answer
    rw [answer.read] at is
    exact (nomatch is)
  have neither : (∀ ip, Reading.notOurs = .done ip → Answer m id ip) ∧
      ∀ why, Reading.notOurs = .failed why → Refusal m id :=
        ⟨fun _ is => (nomatch is), fun _ is => (nomatch is)⟩
  by_cases short : m.length < 12
  · exact ⟨.notOurs, if_pos short, neither⟩
  · obtain ⟨v, first⟩ := get16_isSome (m := m) (i := 0) (by omega)
    have second : m[2]? = some m[2] := List.getElem?_eq_getElem (by omega)
    have third : m[3]? = some m[3] := List.getElem?_eq_getElem (by omega)
    obtain ⟨questions, asked⟩ := get16_isSome (m := m) (i := 4) (by omega)
    obtain ⟨answers, said⟩ := get16_isSome (m := m) (i := 6) (by omega)
    obtain ⟨off, skipped, walk⟩ := skipQuestions_reads m questions 12
    obtain ⟨r, found, firsts⟩ := findAddress_reads m answers off
    have run : read id m =
        if v ≠ id.toNat then some .notOurs
        else if m[2] &&& 0x80 = 0 then some .notOurs
        else if m[3] &&& 0x0F ≠ 0 then some (.failed (if m[3] &&& 0x0F = 3 then noSuchHost else serverError))
        else some (r.elim (.failed noAddress) .done) := by
      rw [read, if_neg short, first, second, third, asked, said]
      dsimp only [bind, Option.bind]
      rw [skipped]
      dsimp only
      rw [found]
      cases r <;> rfl
    by_cases other : v ≠ id.toNat
    · exact ⟨.notOurs, by rw [run, if_pos other], neither⟩
    · have ours : get16 m 0 = some id.toNat := first.trans (congrArg some (not_not.mp other))
      by_cases query : m[2] &&& 0x80 = 0
      · exact ⟨.notOurs, by rw [run, if_neg other, if_pos query], neither⟩
      · rw [if_neg other, if_neg query] at run
        by_cases bad : m[3] &&& 0x0F ≠ 0
        · rw [if_pos bad] at run
          exact ⟨_, run, fun _ is => (nomatch is), fun _ is => ⟨refused _ run, ours, _, second, query⟩⟩
        · rw [if_neg bad] at run
          cases r with
          | some ip =>
            refine ⟨_, run, ?_, fun _ is => (nomatch is)⟩
            rintro _ ⟨⟩
            have first := firsts ip rfl
            exact ⟨ours, ⟨_, second, query⟩, ⟨_, third, not_not.mp bad⟩, questions, answers, off, asked, said,
              walk first.inside, first⟩
          | none => exact ⟨_, run, fun _ is => (nomatch is), fun _ is =>
            ⟨refused _ run, ours, _, second, query⟩⟩

end Parsing

end R2Apps.WebDnsMessages
