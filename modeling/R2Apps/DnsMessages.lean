import R2Apps.GoSlices
import R2Apps.WireBytes

/-! `r2net/dns.go`: the query of a name and the first address of an answer. Go's `int` is
unbounded here: every value it takes is an offset that a message of that length has room for. -/
namespace R2Apps.DnsMessages
open GoSlices
open WireBytes (labelBytes)

abbrev Bytes := List UInt8

def dnsTypeA : UInt8 := 1
def dnsClassIN : UInt8 := 1
def dnsHeaderLen : Nat := 12
def maxDNSMessage : Nat := 512

def dot : UInt8 := 46

/-! ## The query -/

/-- `i < len(name) && name[i] != '.'` -/
def inLabel (name : Bytes) (i : Nat) : Checked Bool := do
  if i < name.length then return (← index name i) != dot else return false

/-- The loop over the name; `left` turns are left, the last one behind its end. The answer is the
buffer and where the next byte goes. -/
def putLabels (name : Bytes) : Nat → Nat → Bytes → Nat → Checked (Option (Bytes × Nat))
  | 0, _, buf, n => return some (buf, n)
  | left + 1, start, buf, n => do
      let i := name.length - left
      if ← inLabel name i then
        putLabels name left start buf n
      else
        let label ← slice name start i
        if label.length = 0 ∨ label.length > 63 then return none
        if n + 1 + label.length > buf.length - 5 then return none
        let buf ← store buf n (UInt8.ofNat label.length)
        let (buf, copied) := copyAt buf (n + 1) label
        putLabels name left (i + 1) buf (n + 1 + copied)

/-- The bytes of a list, one after another from `n` on. -/
def storeAll : Bytes → Nat → Bytes → Checked Bytes
  | buf, _, [] => return buf
  | buf, n, b :: rest => do storeAll (← store buf n b) (n + 1) rest

/-- The buffer and the length of the message in it. -/
def buildQuery (buf name : Bytes) (id : UInt16) : Checked (Option (Bytes × Nat)) := do
  if name.length = 0 ∨ name.length > 253 then return none
  let buf ← storeAll buf 0 [(id >>> 8).toUInt8, id.toUInt8, 0x01, 0x00, 0, 1, 0, 0, 0, 0, 0, 0]
  match ← putLabels name (name.length + 1) 0 buf dnsHeaderLen with
  | none => return none
  | some (buf, n) =>
      let buf ← storeAll buf n [0, 0, dnsTypeA, 0, dnsClassIN]
      return some (buf, n + 5)

/-! ## The answer -/

/-- Where the name at `off` ends. A pointer is two bytes and always the end of a name. -/
def skipName (msg : Bytes) (off : Nat) : Checked (Option Nat) := do
  if inside : off < msg.length then
    let length := (← index msg off).toNat
    if length = 0 then return some (off + 1)
    if length &&& 0xC0 = 0xC0 then return some (off + 2)
    if length > 63 then return none
    skipName msg (off + (1 + length))
  else return none
termination_by msg.length - off

def skipQuestions (msg : Bytes) : Nat → Nat → Checked (Option Nat)
  | 0, off => return some off
  | left + 1, off => do
      match ← skipName msg off with
      | none => return none
      | some n => if n + 4 > msg.length then return none else skipQuestions msg left (n + 4)

def findAddress (msg : Bytes) : Nat → Nat → Checked (Option Bytes)
  | 0, _ => return none
  | left + 1, off => do
      match ← skipName msg off with
      | none => return none
      | some n =>
          if n + 10 > msg.length then return none
          let rrType := join (← index msg n) (← index msg (n + 1))
          let class_ := join (← index msg (n + 2)) (← index msg (n + 3))
          let length := join (← index msg (n + 8)) (← index msg (n + 9))
          let off := n + 10
          if off + length > msg.length then return none
          if rrType = dnsTypeA.toNat ∧ class_ = dnsClassIN.toNat ∧ length = 4 then
            return some (← slice msg off (off + 4))
          findAddress msg left (off + length)

def parseAnswer (msg : Bytes) (idHi idLo : UInt8) : Checked (Option Bytes) := do
  if msg.length < dnsHeaderLen then return none
  if (← index msg 0) ≠ idHi ∨ (← index msg 1) ≠ idLo then return none
  if (← index msg 2) &&& 0x80 = 0 ∨ (← index msg 3) &&& 0x0F ≠ 0 then return none
  let questions := join (← index msg 4) (← index msg 5)
  let answers := join (← index msg 6) (← index msg 7)
  match ← skipQuestions msg questions dnsHeaderLen with
  | none => return none
  | some off => findAddress msg answers off

/-! ## What a message says -/

/-- A name in `msg`: labels of 1 to 63 bytes, and a zero or a pointer at its end. -/
inductive NameAt (msg : Bytes) : Nat → Nat → Prop where
  | root {off : Nat} : msg[off]? = some 0 → NameAt msg off (off + 1)
  | pointer {off : Nat} {b : UInt8} : msg[off]? = some b → 192 ≤ b.toNat → NameAt msg off (off + 2)
  | label {off stop : Nat} {b : UInt8} : msg[off]? = some b → 1 ≤ b.toNat → b.toNat ≤ 63 →
      NameAt msg (off + (1 + b.toNat)) stop → NameAt msg off stop

/-- So many questions from `off` to `stop`: each is a name, a type and a class. -/
inductive Questions (msg : Bytes) : Nat → Nat → Nat → Prop where
  | none {off : Nat} : Questions msg 0 off off
  | one {left off n stop : Nat} : NameAt msg off n → n + 4 ≤ msg.length → Questions msg left (n + 4) stop →
      Questions msg (left + 1) off stop

/-- A resource record from `off` to `stop`. -/
structure RecordAt (msg : Bytes) (off rrType class_ : Nat) (rdata : Bytes) (stop : Nat) where
  n : Nat
  name : NameAt msg off n
  fixed : n + 10 ≤ msg.length
  rrType : rrType = 256 * (at_ msg n).toNat + (at_ msg (n + 1)).toNat
  class_ : class_ = 256 * (at_ msg (n + 2)).toNat + (at_ msg (n + 3)).toNat
  ends : stop = n + 10 + (256 * (at_ msg (n + 8)).toNat + (at_ msg (n + 9)).toNat)
  inside : stop ≤ msg.length
  rdata : rdata = (msg.take stop).drop (n + 10)

inductive Records (msg : Bytes) : Nat → Nat → Nat → Prop where
  | none {off : Nat} : Records msg 0 off off
  | one {left off next stop t c : Nat} {rdata : Bytes} : Nonempty (RecordAt msg off t c rdata next) →
      Records msg left next stop → Records msg (left + 1) off stop

/-- The labels of an encoded name, followed one by one. -/
inductive Walks (msg : Bytes) : Nat → List Bytes → Nat → Prop where
  | root {off : Nat} : msg[off]? = some 0 → Walks msg off [] (off + 1)
  | label {off stop : Nat} {b : UInt8} {rest : List Bytes} : msg[off]? = some b → b ≠ 0 →
      off + 1 + b.toNat ≤ msg.length → Walks msg (off + 1 + b.toNat) rest stop →
      Walks msg off ((msg.take (off + 1 + b.toNat)).drop (off + 1) :: rest) stop

/-! ## Writing a query -/

theorem label_written {done left_ label : Bytes} (x : UInt8)
    (room : done.length + 1 + label.length ≤ (done ++ left_).length) :
    ∃ buf, store (done ++ left_) done.length x = .ok buf ∧
      copyAt buf (done.length + 1) label =
        (done ++ x :: label ++ left_.drop (1 + label.length), label.length) := by
  rw [List.length_append] at room
  cases left_ with
  | nil =>
      rw [List.length_nil] at room
      omega
  | cons y left_ =>
      rw [List.length_cons] at room
      refine ⟨done ++ x :: left_, ?_, ?_⟩
      · rw [store_ok x (by simp), set_next]
      · have enough : (left_.take label.length).length = label.length := by
          rw [List.length_take]
          omega
        have written : copyAt (done ++ [x] ++ (left_.take label.length ++ left_.drop label.length))
          (done ++ [x]).length label =
            (done ++ [x] ++ label ++ left_.drop label.length, label.length) := copyAt_next enough
        rw [List.take_append_drop, List.length_append, List.append_assoc, List.singleton_append] at written
        rw [Nat.add_comm 1]
        simpa using written

theorem putLabels_inside (pre cur rest buf : Bytes) (n : Nat) {c : UInt8} (other : c ≠ dot) :
    putLabels (pre ++ cur ++ c :: rest) (rest.length + 2) pre.length buf n =
      putLabels (pre ++ (cur ++ [c]) ++ rest) (rest.length + 1) pre.length buf n := by
  have same : pre ++ (cur ++ [c]) ++ rest = pre ++ cur ++ c :: rest := by simp
  have here : (pre ++ cur ++ c :: rest).length - (rest.length + 1) = (pre ++ cur).length := by
    rw [List.length_append, List.length_cons]
    omega
  have inside : (pre ++ cur).length < (pre ++ cur ++ c :: rest).length := by
    simp
  have more : inLabel (pre ++ cur ++ c :: rest) (pre ++ cur).length = .ok true := by
    unfold inLabel
    rw [if_pos inside, index_ok inside]
    simpa [at_, bind, Except.bind, pure, Except.pure] using other
  rw [putLabels, here, more, same]
  rfl

theorem putLabels_label (pre cur rest done left_ : Bytes) (ends : ∀ c ∈ rest.head?, c = dot) :
    putLabels (pre ++ cur ++ rest) (rest.length + 1) pre.length (done ++ left_) done.length =
      if cur.length = 0 ∨ cur.length > 63 then .ok none
      else if done.length + 1 + cur.length > (done ++ left_).length - 5 then .ok none
      else putLabels (pre ++ cur ++ rest) rest.length (pre.length + cur.length + 1)
        (done ++ UInt8.ofNat cur.length :: cur ++ left_.drop (1 + cur.length))
          (done.length + 1 + cur.length) := by
  have here : (pre ++ cur ++ rest).length - rest.length = (pre ++ cur).length := by
    rw [List.length_append]
    omega
  have last : inLabel (pre ++ cur ++ rest) (pre ++ cur).length = .ok false := by
    unfold inLabel
    cases rest with
    | nil => simp [pure, Except.pure]
    | cons c rest =>
        have inside : (pre ++ cur).length < (pre ++ cur ++ c :: rest).length := by
          simp
        rw [if_pos inside, index_ok inside, ends c rfl]
        simp [at_, bind, Except.bind, pure, Except.pure]
  have label : slice (pre ++ cur ++ rest) pre.length (pre ++ cur).length = .ok cur := by
    rw [slice_ok (by simp) (by simp), List.take_left, List.drop_left]
  rw [putLabels, here, last]
  simp only [bind, Except.bind, Bool.false_eq_true, if_false, label, pure, Except.pure]
  by_cases sized : cur.length = 0 ∨ cur.length > 63
  · rw [if_pos sized, if_pos sized]
  · rw [if_neg sized, if_neg sized]
    by_cases full : done.length + 1 + cur.length > (done ++ left_).length - 5
    · rw [if_pos full, if_pos full]
    · rw [if_neg full, if_neg full]
      have room : done.length + 1 + cur.length ≤ (done ++ left_).length := by omega
      obtain ⟨buf, stored, copied⟩ := label_written (UInt8.ofNat cur.length) room
      rw [stored]
      dsimp only
      rw [copied]
      simp only [List.length_append]

structure Filled (done left_ : Bytes) (labels : List Bytes) (buf : Bytes) (n : Nat) : Prop where
  sized : ∀ l ∈ labels, 1 ≤ l.length ∧ l.length ≤ 63
  next : n = done.length + (labelBytes labels).length
  room : n + 5 ≤ done.length + left_.length
  written : buf = done ++ labelBytes labels ++ left_.drop (labelBytes labels).length

theorem wire_cons (l : Bytes) (rest : List Bytes) :
    labelBytes (l :: rest) = UInt8.ofNat l.length :: l ++ labelBytes rest := rfl

theorem filled_cons {done left_ label : Bytes} {rest : List Bytes} {buf : Bytes} {n : Nat}
    (sized : 1 ≤ label.length ∧ label.length ≤ 63)
    (enough : done.length + 1 + label.length ≤ done.length + left_.length)
    (f : Filled (done ++ UInt8.ofNat label.length :: label) (left_.drop (1 + label.length)) rest buf n) :
    Filled done left_ (label :: rest) buf n := by
  have next := f.next
  have room := f.room
  simp only [List.length_append, List.length_cons, List.length_drop] at next room
  have long : (labelBytes (label :: rest)).length = 1 + label.length + (labelBytes rest).length := by
    rw [wire_cons, List.length_append, List.length_cons]
    omega
  refine ⟨?_, by omega, by omega, ?_⟩
  · intro l member
    rcases List.mem_cons.mp member with rfl | member
    · exact sized
    · exact f.sized l member
  · rw [f.written, wire_cons, List.drop_drop, ← wire_cons, long]
    simp [wire_cons]

theorem putLabels_spec (rest : Bytes) : ∀ (pre cur done left_ : Bytes), dot ∉ cur →
    ∃ r, putLabels (pre ++ cur ++ rest) (rest.length + 1) pre.length (done ++ left_) done.length = .ok r ∧
      ∀ buf n, r = some (buf, n) → Filled done left_ ((cur ++ rest).splitOn dot) buf n := by
  induction rest with
  | nil =>
      intro pre cur done left_ free
      rw [putLabels_label pre cur [] done left_ (by simp)]
      split
      · exact ⟨none, rfl, by rintro _ _ ⟨⟩⟩
      · next sized =>
        split
        · exact ⟨none, rfl, by rintro _ _ ⟨⟩⟩
        · next full =>
          refine ⟨_, rfl, ?_⟩
          rintro buf n ⟨rfl, rfl⟩
          rw [List.length_append] at full
          rw [List.append_nil, List.splitOn_eq_singleton free]
          refine filled_cons (by omega) (by omega) ⟨by simp, ?_, ?_, ?_⟩
          · simp [labelBytes]
            omega
          · simp only [List.length_append, List.length_cons, List.length_drop]
            omega
          · simp [labelBytes]
  | cons c rest ih =>
      intro pre cur done left_ free
      by_cases other : c = dot
      · subst other
        rw [putLabels_label pre cur (dot :: rest) done left_ (by simp),
          List.splitOn_append_cons_self_of_not_mem free]
        split
        · exact ⟨none, rfl, by rintro _ _ ⟨⟩⟩
        · next sized =>
          split
          · exact ⟨none, rfl, by rintro _ _ ⟨⟩⟩
          · next full =>
            rw [List.length_append] at full
            obtain ⟨r, run, filled⟩ := ih (pre ++ cur ++ [dot]) [] (done ++ UInt8.ofNat cur.length :: cur)
              (left_.drop (1 + cur.length)) List.not_mem_nil
            refine ⟨r, ?_, fun buf n is => filled_cons (by omega) (by omega) (filled buf n is)⟩
            rw [← run]
            congr 1
            · simp
            · simp
              omega
            · simp
              omega
      · have more : dot ∉ cur ++ [c] := by
          simp only [List.mem_append, List.mem_singleton, not_or]
          exact ⟨free, fun same => other same.symm⟩
        rw [List.length_cons, putLabels_inside pre cur rest _ _ other]
        obtain ⟨r, run, filled⟩ := ih pre (cur ++ [c]) done left_ more
        refine ⟨r, run, ?_⟩
        rw [List.append_assoc, List.singleton_append] at filled
        exact filled

theorem storeAll_spec (bytes : Bytes) : ∀ (done left_ : Bytes), bytes.length ≤ left_.length →
    storeAll (done ++ left_) done.length bytes = .ok (done ++ bytes ++ left_.drop bytes.length) := by
  induction bytes with
  | nil => exact fun done left_ _ => by simp [storeAll, pure, Except.pure]
  | cons b rest ih =>
      intro done left_ room
      cases left_ with
      | nil => exact absurd room (by simp)
      | cons y left_ =>
          have next := ih (done ++ [b]) left_ (Nat.le_of_succ_le_succ room)
          rw [List.length_append, List.append_assoc, List.singleton_append] at next
          rw [storeAll, store_ok b (by simp), set_next]
          simpa [bind, Except.bind] using next

theorem walks_wire (labels : List Bytes) : ∀ pre post : Bytes, (∀ l ∈ labels, 1 ≤ l.length ∧ l.length ≤ 63) →
    Walks (pre ++ labelBytes labels ++ 0 :: post) pre.length labels
      (pre.length + (labelBytes labels).length + 1) := by
  induction labels with
  | nil => exact fun pre post _ => .root (by simp [labelBytes])
  | cons l rest ih =>
      intro pre post sized
      have size := sized l List.mem_cons_self
      have byte : (UInt8.ofNat l.length).toNat = l.length := by
        rw [UInt8.toNat_ofNat']
        omega
      have nonzero : UInt8.ofNat l.length ≠ 0 := by
        intro zero
        have none_ : (UInt8.ofNat l.length).toNat = 0 := congrArg UInt8.toNat zero
        omega
      have walk := ih (pre ++ UInt8.ofNat l.length :: l) post fun k member =>
        sized k (List.mem_cons_of_mem l member)
      have same : pre ++ UInt8.ofNat l.length :: l ++ labelBytes rest ++ 0 :: post =
          pre ++ labelBytes (l :: rest) ++ 0 :: post := by
        simp [wire_cons]
      rw [same] at walk
      have next : (pre ++ UInt8.ofNat l.length :: l).length =
          pre.length + 1 + (UInt8.ofNat l.length).toNat := by
        rw [byte, List.length_append, List.length_cons]
        omega
      have stop : (pre ++ UInt8.ofNat l.length :: l).length + (labelBytes rest).length + 1 =
          pre.length + (labelBytes (l :: rest)).length + 1 := by
        simp only [wire_cons, List.length_append, List.length_cons]
        omega
      have label : ((pre ++ labelBytes (l :: rest) ++ 0 :: post).take
        (pre.length + 1 + (UInt8.ofNat l.length).toNat)).drop
          (pre.length + 1) = l := by
        rw [← next, ← same, List.append_assoc, List.take_left]
        simp
      rw [stop, next] at walk
      have first : (pre ++ labelBytes (l :: rest) ++ 0 :: post)[pre.length]? =
          some (UInt8.ofNat l.length) := by
        simp [wire_cons]
      have step := Walks.label first nonzero (by simp [wire_cons, byte]; omega) walk
      rwa [label] at step

/-- A query that is built is a message of the buffer whose question has the labels of the name. -/
def QueryAt (name : Bytes) (buf : Bytes) (n : Nat) : Prop :=
  n ≤ maxDNSMessage ∧ n ≤ buf.length ∧ (∀ l ∈ name.splitOn dot, 1 ≤ l.length ∧ l.length ≤ 63) ∧
    Walks (buf.take n) dnsHeaderLen (name.splitOn dot) (n - 4)

theorem buildQuery_spec (buf name : Bytes) (id : UInt16) (size : buf.length = maxDNSMessage) :
    ∃ r, buildQuery buf name id = .ok r ∧ ∀ out n, r = some (out, n) → QueryAt name out n := by
  unfold maxDNSMessage at size
  have header := storeAll_spec [(id >>> 8).toUInt8, id.toUInt8, 0x01, 0x00, 0, 1, 0, 0, 0, 0, 0, 0] [] buf
    (by simp [size])
  have twelve : [(id >>> 8).toUInt8, id.toUInt8, 0x01, 0x00, 0, 1, 0, 0, 0, 0, 0, 0].length =
    dnsHeaderLen := rfl
  unfold buildQuery
  split
  · exact ⟨none, rfl, by rintro _ _ ⟨⟩⟩
  · rw [List.nil_append, List.nil_append, List.length_nil] at header
    generalize [(id >>> 8).toUInt8, id.toUInt8, 0x01, 0x00, 0, 1, 0, 0, 0, 0, 0, 0] = fixed at header twelve
    obtain ⟨r, run, filled⟩ := putLabels_spec name [] [] fixed (buf.drop fixed.length) List.not_mem_nil
    rw [List.nil_append, List.nil_append, List.length_nil, twelve] at run
    rw [twelve] at header
    rw [header]
    simp only [bind, Except.bind, run, pure, Except.pure]
    cases r with
    | none => exact ⟨none, rfl, by rintro _ _ ⟨⟩⟩
    | some done =>
        obtain ⟨b, m⟩ := done
        have f := filled b m rfl
        have next := f.next
        have room := f.room
        rw [List.nil_append] at f next
        have tail := storeAll_spec [0, 0, dnsTypeA, 0, dnsClassIN] (fixed ++ labelBytes (name.splitOn dot))
          ((buf.drop fixed.length).drop (labelBytes (name.splitOn dot)).length) (by
            rw [List.length_drop]
            simp only [List.length_cons, List.length_nil]
            omega)
        rw [List.length_append, ← next, ← f.written] at tail
        dsimp only
        rw [tail]
        refine ⟨_, rfl, ?_⟩
        rintro out n ⟨rfl, rfl⟩
        have long : (fixed ++ labelBytes (name.splitOn dot) ++ [0, 0, dnsTypeA, 0, dnsClassIN]).length =
            m + 5 := by
          rw [List.length_append, List.length_append, ← next]
          rfl
        have walk := walks_wire (name.splitOn dot) fixed [0, dnsTypeA, 0, dnsClassIN] f.sized
        rw [twelve] at walk
        rw [List.length_drop] at room
        unfold dnsHeaderLen at twelve
        refine ⟨by unfold maxDNSMessage; omega, ?_, f.sized, ?_⟩
        · rw [List.length_append, long]
          omega
        · rw [← long, List.take_left, long]
          have stop : m + 5 - 4 = dnsHeaderLen + (labelBytes (name.splitOn dot)).length + 1 := by
            unfold dnsHeaderLen
            omega
          rw [stop]
          exact walk

/-! ## Reading an answer -/

theorem pointer_large (b : UInt8) (both : b.toNat &&& 0xC0 = 0xC0) : 192 ≤ b.toNat := by
  have le : b.toNat &&& 0xC0 ≤ b.toNat := Nat.and_le_left
  rwa [both] at le

theorem skipName_spec (msg : Bytes) (off : Nat) :
    ∃ r, skipName msg off = .ok r ∧ ∀ stop ∈ r, NameAt msg off stop := by
  induction h : msg.length - off using Nat.strong_induction_on generalizing off with
  | _ left ih =>
      unfold skipName
      split
      · next inside =>
        have byte : msg[off]? = some (at_ msg off) := by
          unfold at_
          rw [List.getD_eq_getElem?_getD, List.getElem?_eq_getElem inside]
          rfl
        rw [index_ok inside]
        simp only [bind, Except.bind, pure, Except.pure]
        split
        · next zero =>
          have root : at_ msg off = 0 := UInt8.toNat_inj.mp zero
          exact ⟨_, rfl, by rintro _ ⟨⟩; exact .root (root ▸ byte)⟩
        · next nonzero =>
          split
          · next both => exact ⟨_, rfl, by rintro _ ⟨⟩; exact .pointer byte (pointer_large _ both)⟩
          · split
            · exact ⟨none, rfl, by rintro _ ⟨⟩⟩
            · next short =>
              obtain ⟨r, run, name⟩ := ih _ (by omega) (off + (1 + (at_ msg off).toNat)) rfl
              exact ⟨r, run, fun stop is => .label byte (by omega) (by omega) (name stop is)⟩
      · exact ⟨none, rfl, by rintro _ ⟨⟩⟩

theorem skipQuestions_spec (msg : Bytes) (left : Nat) : ∀ off : Nat,
    ∃ r, skipQuestions msg left off = .ok r ∧ ∀ stop ∈ r, Questions msg left off stop := by
  induction left with
  | zero => exact fun off => ⟨some off, rfl, by rintro _ ⟨⟩; exact .none⟩
  | succ left ih =>
      intro off
      obtain ⟨r, run, name⟩ := skipName_spec msg off
      rw [skipQuestions, run]
      simp only [bind, Except.bind]
      cases r with
      | none => exact ⟨none, rfl, by rintro _ ⟨⟩⟩
      | some n =>
          dsimp only
          split
          · exact ⟨none, rfl, by rintro _ ⟨⟩⟩
          · obtain ⟨r, run, rest⟩ := ih (n + 4)
            exact ⟨r, run, fun stop is => .one (name n rfl) (by omega) (rest stop is)⟩

/-- What the code may return: the data of an IN A record that is one of the first `left` records
from `off` on. -/
def AddressAmong (msg : Bytes) (left off : Nat) (ip : Bytes) : Prop :=
  ∃ i < left, ∃ start stop, Records msg i off start ∧ Nonempty (RecordAt msg start 1 1 ip stop) ∧
    ip.length = 4

theorem address_behind {msg ip rdata : Bytes} {left off next t c : Nat}
    (record : RecordAt msg off t c rdata next) (among : AddressAmong msg left next ip) :
    AddressAmong msg (left + 1) off ip := by
  obtain ⟨i, inside, start, stop, before, found⟩ := among
  exact ⟨i + 1, Nat.succ_lt_succ inside, start, stop, .one ⟨record⟩ before, found⟩

theorem findAddress_spec (msg : Bytes) (left : Nat) : ∀ off : Nat,
    ∃ r, findAddress msg left off = .ok r ∧ ∀ ip ∈ r, AddressAmong msg left off ip := by
  induction left with
  | zero => exact fun off => ⟨none, rfl, by rintro _ ⟨⟩⟩
  | succ left ih =>
      intro off
      obtain ⟨r, run, name⟩ := skipName_spec msg off
      rw [findAddress, run]
      simp only [bind, Except.bind]
      cases r with
      | none => exact ⟨none, rfl, by rintro _ ⟨⟩⟩
      | some n =>
          dsimp only
          split
          · exact ⟨none, rfl, by rintro _ ⟨⟩⟩
          · next fixed =>
            rw [index_ok (by omega), index_ok (by omega), index_ok (by omega), index_ok (by omega),
              index_ok (by omega), index_ok (by omega)]
            simp only [join_eq, pure, Except.pure]
            split
            · exact ⟨none, rfl, by rintro _ ⟨⟩⟩
            · next inside =>
              -- the six bytes of the record that the loop reads
              have record : RecordAt msg off _ _ _ _ :=
                ⟨n, name n rfl, by omega, rfl, rfl, rfl, by omega, rfl⟩
              split
              · next match_ =>
                obtain ⟨a, in_, four⟩ := match_
                rw [slice_ok (by omega) (by omega)]
                refine ⟨_, rfl, ?_⟩
                rintro ip ⟨⟩
                rw [a, in_, four] at record
                refine ⟨0, Nat.succ_pos left, off, _, .none, ⟨record⟩, ?_⟩
                rw [List.length_drop, List.length_take]
                omega
              · obtain ⟨r, run, rest⟩ :=
                  ih (n + 10 + (256 * (at_ msg (n + 8)).toNat + (at_ msg (n + 9)).toNat))
                exact ⟨r, run, fun ip is => address_behind record (rest ip is)⟩

def qdcount (msg : Bytes) : Nat := 256 * (at_ msg 4).toNat + (at_ msg 5).toNat

def ancount (msg : Bytes) : Nat := 256 * (at_ msg 6).toNat + (at_ msg 7).toNat

theorem parseAnswer_spec (msg : Bytes) (idHi idLo : UInt8) :
    ∃ r, parseAnswer msg idHi idLo = .ok r ∧
      ∀ ip ∈ r, ∃ off, Questions msg (qdcount msg) dnsHeaderLen off ∧
        AddressAmong msg (ancount msg) off ip := by
  unfold parseAnswer
  split
  · exact ⟨none, rfl, by rintro _ ⟨⟩⟩
  · next header =>
    unfold dnsHeaderLen at header
    rw [index_ok (by omega), index_ok (by omega), index_ok (by omega), index_ok (by omega),
      index_ok (by omega),
      index_ok (by omega), index_ok (by omega), index_ok (by omega)]
    simp only [bind, Except.bind, pure, Except.pure, join_eq]
    split
    · exact ⟨none, rfl, by rintro _ ⟨⟩⟩
    · split
      · exact ⟨none, rfl, by rintro _ ⟨⟩⟩
      · obtain ⟨q, asked, questions⟩ := skipQuestions_spec msg (qdcount msg) dnsHeaderLen
        rw [qdcount] at asked
        rw [asked]
        cases q with
        | none => exact ⟨none, rfl, by rintro _ ⟨⟩⟩
        | some off =>
            obtain ⟨r, run, found⟩ := findAddress_spec msg (ancount msg) off
            exact ⟨r, run, fun ip is => ⟨off, questions off rfl, found ip is⟩⟩

/-- Any message is read inside its bounds, an address is the data of an IN A record among the
answers, and a query holds the labels of its name. -/
theorem dns_safe (msg buf name : Bytes) (idHi idLo : UInt8) (id : UInt16) :
    (∀ off, ∃ r, skipName msg off = .ok r) ∧
      (∃ r, parseAnswer msg idHi idLo = .ok r ∧
        ∀ ip ∈ r, ∃ off, Questions msg (qdcount msg) dnsHeaderLen off ∧
          AddressAmong msg (ancount msg) off ip) ∧
      (buf.length = maxDNSMessage →
        ∃ r, buildQuery buf name id = .ok r ∧ ∀ out n, r = some (out, n) → QueryAt name out n) := by
  refine ⟨fun off => ?_, parseAnswer_spec msg idHi idLo, buildQuery_spec buf name id⟩
  obtain ⟨r, run, -⟩ := skipName_spec msg off
  exact ⟨r, run⟩

end R2Apps.DnsMessages
