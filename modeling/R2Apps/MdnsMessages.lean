import Mathlib.Algebra.Ring.Nat
import R2Apps.WireBytes

/-! Names, records and messages of `c/mdnsd/mdns.c`. A name in wire format is kept as the list of its
labels; `wire` gives its bytes. A message is built as `Msg_T` builds it: bytes behind the last that
fits are dropped, and a record that does not fit is taken out again. -/
namespace R2Apps.MdnsMessages
open WireBytes

def mdnsPort : Nat := 5353
def labelMax : Nat := 63
def nameMax : Nat := 256
def hostMax : Nat := 32
def maxServices : Nat := 16
def frameMax : Nat := 1514
def hdrLen : Nat := 42
def dnsMax : Nat := frameMax - hdrLen

def typeA : Nat := 1
def typePtr : Nat := 12
def typeTxt : Nat := 16
def typeSrv : Nat := 33
def typeAny : Nat := 255
def classIn : Nat := 1
def classTop : Nat := 0x8000

def ttlHost : Nat := 120
def ttlOther : Nat := 4500
def legacyTtl : Nat := 10

/-! ## Names -/

abbrev Label := Bytes
abbrev Name := List Label

def lower (c : UInt8) : UInt8 := if 65 ≤ c ∧ c ≤ 90 then c + 32 else c

/-- A name without its ASCII case, as DNS compares names. -/
def folded (name : Name) : Name := name.map fun label => label.map lower

def nameEq (a b : Name) : Bool := folded a == folded b

def wire (name : Name) : Bytes := (name.flatMap fun label => UInt8.ofNat label.length :: label) ++ [0]

/-- Its zero included. -/
def wireLen (name : Name) : Nat := (name.map fun label => 1 + label.length).foldr (· + ·) 1

/-- As `read_name` leaves it and `put_name` takes it. -/
def NameOk (name : Name) : Prop := ∀ label ∈ name, 1 ≤ label.length ∧ label.length ≤ labelMax

/-- The loop of `read_name`. Every turn follows one of at most 16 pointers or makes the name longer. -/
def readNameFrom (msg : Bytes) : Nat → Nat → Nat → Nat → Option Nat → Name → Option (Name × Nat)
  | 0, _, _, _, _, _ => none
  | fuel + 1, off, n, jumps, past, out =>
      if off ≥ msg.length then none
      else
        let b := (byteAt msg off).toNat
        if b &&& 0xc0 = 0xc0 then
          if off + 1 ≥ msg.length ∨ jumps + 1 > 16 then none
          else
            let to_ := (b &&& 0x3f) <<< 8 ||| (byteAt msg (off + 1)).toNat
            readNameFrom msg fuel to_ n (jumps + 1) (past.or (some (off + 2))) out
        else if b &&& 0xc0 ≠ 0 then none
        else if off + 1 + b > msg.length ∨ n + 1 + b + 1 > nameMax then none
        else if b = 0 then some (out, past.getD (off + 1))
        else readNameFrom msg fuel (off + 1 + b) (n + 1 + b) jumps past (out ++ [(msg.drop (off + 1)).take b])

/-- The name at `off`, and the offset just past it where it sits in the message. -/
def readName (msg : Bytes) (off : Nat) : Option (Name × Nat) :=
  readNameFrom msg (16 + nameMax) off 0 0 none []

/-! ## Records -/

inductive RData where
  | a (ip : Bytes)
  | ptr (target : Name)
  | srv (port : UInt16) (target : Name)
  | txt

def RData.type : RData → Nat
  | .a _ => typeA
  | .ptr _ => typePtr
  | .srv _ _ => typeSrv
  | .txt => typeTxt

def RData.bytes : RData → Bytes
  | .a ip => ip
  | .ptr target => wire target
  | .srv port target => be16 0 ++ be16 0 ++ be16 port.toNat ++ wire target
  | .txt => [0]

structure Record where
  name : Name
  unique : Bool
  ttl : Nat
  data : RData

/-! ## Writing a message -/

structure Msg where
  buf : Bytes := []
  full : Bool := false
  legacy : Bool := false
  goodbye : Bool := false
  count : Nat := 0

def put8 (g : Msg) (v : UInt8) : Msg :=
  if g.buf.length < dnsMax then { g with buf := g.buf ++ [v] } else { g with full := true }

def puts (g : Msg) (bytes : Bytes) : Msg := bytes.foldl put8 g

def put16 (g : Msg) (v : Nat) : Msg := puts g (be16 v)

def putName (g : Msg) (name : Name) : Msg := puts g (wire name)

def wr16 (buf : Bytes) (off v : Nat) : Bytes := buf.take off ++ be16 v ++ buf.drop (off + 2)

/-- The TTL that a record goes out with. -/
def Msg.ttl (g : Msg) (ttl : Nat) : Nat :=
  if g.goodbye then 0 else if g.legacy ∧ ttl > legacyTtl then legacyTtl else ttl

/-- The class that a record goes out with. -/
def Msg.cls (g : Msg) (unique : Bool) : Nat := if unique && !g.legacy then classIn + classTop else classIn

def rrBegin (g : Msg) (name : Name) (type : Nat) (unique : Bool) (ttl : Nat) : Msg :=
  let ttl := g.ttl ttl
  let h := putName g name
  let h := put16 h type
  let h := put16 h (g.cls unique)
  let h := put16 h (ttl / 65536)
  let h := put16 h ttl
  put16 h 0

def rrEnd (g : Msg) (start data : Nat) : Msg :=
  if g.full then { g with buf := g.buf.take start }
  else { g with buf := wr16 g.buf (data - 2) (g.buf.length - data), count := g.count + 1 }

def rr (g : Msg) (r : Record) : Msg :=
  let h := rrBegin g r.name r.data.type r.unique r.ttl
  rrEnd (puts h r.data.bytes) g.buf.length h.buf.length

def beginMessage (id : Nat) : Msg :=
  { buf := be16 id ++ be16 0x8400 ++ be16 0 ++ be16 0 ++ be16 0 ++ be16 0 }

/-! ## Reading records -/

structure MdnsRecord where
  name : Name
  type : Nat
  ttl : Nat
  target : Name := []
  port : Nat := 0
  ip : Bytes := [0, 0, 0, 0]
deriving DecidableEq

/-- The data that is read for the types a browser uses. -/
def readData (msg : Bytes) (r : MdnsRecord) (data rdlen : Nat) : Option MdnsRecord :=
  if r.type = typePtr then
    (readName msg data).bind fun (target, past) =>
      if past > data + rdlen then none else some { r with target := target }
  else if r.type = typeSrv then
    if rdlen < 7 then none
    else (readName msg (data + 6)).bind fun (target, past) =>
      if past > data + rdlen then none else some { r with target := target, port := rd16 msg (data + 4) }
  else if r.type = typeA then
    if rdlen ≠ 4 then none else some { r with ip := (msg.drop data).take 4 }
  else some r

/-- `mdns_next_record` with `left` records to come at `off`: the record, and where it has got to. -/
def nextRecord (msg : Bytes) : Nat → Nat → Option (MdnsRecord × Nat × Nat)
  | 0, _ => none
  | left + 1, off =>
      match readName msg off with
      | none => none
      | some (name, p) =>
          let rdlen := rd16 msg (p + 8)
          let stop := p + 10 + rdlen
          if p + 10 > msg.length ∨ stop > msg.length then none
          else if rd16 msg (p + 2) % classTop ≠ classIn then nextRecord msg left stop
          else
            let r : MdnsRecord :=
              { name, type := rd16 msg p, ttl := rd16 msg (p + 4) * 65536 + rd16 msg (p + 6) }
            (readData msg r (p + 10) rdlen).map fun r => (r, stop, left)

/-- All that `mdns_next_record` gives until it is at the end; every turn has fewer records to come. -/
def allRecords (msg : Bytes) : Nat → Nat → Nat → List MdnsRecord
  | 0, _, _ => []
  | fuel + 1, left, off =>
      match nextRecord msg left off with
      | none => []
      | some (r, off, left) => r :: allRecords msg fuel left off

/-! ## Names are read back -/

theorem wireLen_cons (label : Label) (name : Name) :
    wireLen (label :: name) = 1 + label.length + wireLen name := rfl

theorem wire_cons (label : Label) (name : Name) :
    wire (label :: name) = UInt8.ofNat label.length :: label ++ wire name := by
  simp [wire]

theorem wire_length (name : Name) : (wire name).length = wireLen name := by
  induction name with
  | nil => rfl
  | cons label rest ih =>
      rw [wire_cons, wireLen_cons, List.length_append, List.length_cons, ih]
      omega

theorem wireLen_pos (name : Name) : 0 < wireLen name := by
  cases name with
  | nil => exact Nat.one_pos
  | cons label rest =>
      rw [wireLen_cons]
      omega

theorem nameOk_nil : NameOk [] := by rintro _ ⟨⟩

theorem nameOk_cons {label : Label} {name : Name} :
    NameOk (label :: name) ↔ (1 ≤ label.length ∧ label.length ≤ labelMax) ∧ NameOk name :=
      List.forall_mem_cons

theorem plain_length : ∀ n < 64, n &&& 0xc0 = 0 := by decide

theorem readNameFrom_stands (msg : Bytes) (name : Name) :
    ∀ (fuel off n jumps : Nat) (out : Name), NameOk name →
    Stands msg off (wire name) → n + wireLen name < nameMax → name.length < fuel →
    readNameFrom msg fuel off n jumps none out = some (out ++ name, off + wireLen name) := by
  induction name with
  | nil =>
      intro fuel off n jumps out ok there short enough
      have inside := stands_length there (List.cons_ne_nil _ _)
      have zero := byteAt_stands there
      obtain ⟨fuel, rfl⟩ := Nat.exists_eq_succ_of_ne_zero (Nat.ne_of_gt enough)
      simp only [wireLen, List.map_nil, List.foldr_nil] at short
      simp only [wire, List.flatMap_nil, List.nil_append, List.length_singleton] at inside
      have plain : (0 : UInt8).toNat &&& 0xc0 = 0 := rfl
      have room : ¬ (off + 1 + (0 : UInt8).toNat > msg.length ∨ n + 1 + (0 : UInt8).toNat + 1 > nameMax) := by
        rintro (over_ | long)
        · exact absurd over_ (Nat.not_lt.mpr inside)
        · exact absurd long (Nat.not_lt.mpr short)
      simp only [readNameFrom, zero, wireLen, List.map_nil, List.foldr_nil, List.append_nil, plain]
      rw [if_neg (Nat.not_le.mpr inside), if_neg (by decide), if_neg (by decide), if_neg room]
      rfl
  | cons label rest ih =>
      intro fuel off n jumps out ok there short enough
      obtain ⟨positive, small⟩ := ok label List.mem_cons_self
      obtain ⟨fuel, rfl⟩ := Nat.exists_eq_succ_of_ne_zero (Nat.ne_of_gt (Nat.zero_lt_of_lt enough))
      rw [wire_cons, List.cons_append] at there
      have first := byteAt_stands there
      obtain ⟨text, later⟩ := stands_append.mp (stands_tail there)
      have inside := stands_length text (List.length_pos_iff.mp positive)
      have length : (byteAt msg off).toNat = label.length := by
        rw [first, UInt8.toNat_ofNat']
        have := small
        simp only [labelMax] at this
        omega
      have plain : label.length &&& 0xc0 = 0 := plain_length _ (Nat.lt_succ_of_le small)
      rw [wireLen_cons] at short ⊢
      have more := wireLen_pos rest
      simp only [readNameFrom, length, plain]
      rw [if_neg (by omega), if_neg (by decide), if_neg (by decide), if_neg (by omega), if_neg (by omega)]
      rw [stands_take text, ih fuel _ _ jumps _
        (fun l member => ok l (List.mem_cons_of_mem _ member)) later (by omega)
        (Nat.lt_of_succ_lt_succ enough)]
      simp only [List.append_assoc, List.singleton_append, Option.some.injEq, Prod.mk.injEq, true_and]
      omega

theorem labels_few {name : Name} (ok : NameOk name) : 2 * name.length < wireLen name := by
  induction name with
  | nil => exact Nat.one_pos
  | cons label rest ih =>
      have positive := (ok label List.mem_cons_self).1
      have := ih fun l member => ok l (List.mem_cons_of_mem _ member)
      rw [wireLen_cons, List.length_cons]
      omega

theorem readName_stands {msg : Bytes} {off : Nat} {name : Name} (ok : NameOk name)
    (short : wireLen name < nameMax)
    (there : Stands msg off (wire name)) : readName msg off = some (name, off + wireLen name) := by
  have few := labels_few ok
  exact readNameFrom_stands msg name _ off 0 0 [] ok there (by omega) (by omega)

set_option maxRecDepth 100000 in
theorem readNameFrom_ok (msg : Bytes) (fuel : Nat) : ∀ (off n jumps : Nat) (past : Option Nat) (out : Name),
    NameOk out → n + 1 = wireLen out → ∀ name p, readNameFrom msg fuel off n jumps past out = some (name, p) →
    NameOk name ∧ wireLen name < nameMax := by
  induction fuel with
  | zero => rintro off n jumps past out - - name p ⟨⟩
  | succ fuel ih =>
      intro off n jumps past out ok length name p read
      simp only [readNameFrom] at read
      split at read
      · cases read
      · next inside =>
        split at read
        · split at read
          · cases read
          · exact ih _ _ _ _ _ ok length name p read
        · split at read
          · cases read
          · next plain =>
            split at read
            · cases read
            · next room =>
              split at read
              · next zero =>
                cases read
                rw [zero] at room
                exact ⟨ok, by omega⟩
              · next some_ =>
                have small : (byteAt msg off).toNat < 64 := by
                  have bound := UInt8.toNat_lt (byteAt msg off)
                  generalize (byteAt msg off).toNat = b at plain bound
                  by_contra large
                  have none_ : ∀ b < 256, 64 ≤ b → b &&& 0xc0 ≠ 0 := by decide
                  exact none_ b bound (Nat.not_lt.mp large) (not_not.mp plain)
                have taken : ((msg.drop (off + 1)).take (byteAt msg off).toNat).length =
                    (byteAt msg off).toNat := by
                  rw [List.length_take, List.length_drop]
                  omega
                refine ih _ _ _ _ _ ?_ ?_ name p read
                · intro label member
                  rcases List.mem_append.mp member with old | new
                  · exact ok label old
                  · obtain rfl := List.mem_singleton.mp new
                    rw [taken]
                    exact ⟨Nat.pos_of_ne_zero some_, Nat.le_of_lt_succ small⟩
                · have last : ∀ out : Name, wireLen
                    (out ++ [(msg.drop (off + 1)).take (byteAt msg off).toNat]) =
                      wireLen out + 1 + (byteAt msg off).toNat := by
                    intro out
                    induction out with
                    | nil =>
                        rw [List.nil_append, wireLen_cons, taken]
                        simp only [wireLen, List.map_nil, List.foldr_nil]
                        omega
                    | cons label rest more =>
                        rw [List.cons_append, wireLen_cons, wireLen_cons, more]
                        omega
                  rw [last]
                  omega

theorem readName_ok {msg : Bytes} {off p : Nat} {name : Name} (read : readName msg off = some (name, p)) :
    NameOk name ∧ wireLen name < nameMax :=
  readNameFrom_ok msg _ off 0 0 none [] nameOk_nil rfl name p read

/-! ## Records are written whole or not at all -/

theorem puts_append (g : Msg) (a b : Bytes) : puts g (a ++ b) = puts (puts g a) b := List.foldl_append ..

theorem puts_eq (bytes : Bytes) : ∀ g : Msg, g.buf.length ≤ dnsMax → puts g bytes =
    { g with
      buf := g.buf ++ bytes.take (dnsMax - g.buf.length)
      full := g.full || decide (dnsMax < g.buf.length + bytes.length) } := by
  induction bytes with
  | nil =>
      intro g small
      have fits : ¬ dnsMax < g.buf.length := by omega
      simp [puts, fits]
  | cons b rest ih =>
      intro g small
      rw [puts, List.foldl_cons, ← puts]
      by_cases room : g.buf.length < dnsMax
      · have longer : (put8 g b) = { g with buf := g.buf ++ [b] } := if_pos room
        rw [longer, ih _ (by simp; omega)]
        have left_ : dnsMax - g.buf.length = dnsMax - (g.buf.length + 1) + 1 := by omega
        have same : g.buf.length + 1 + rest.length = g.buf.length + (rest.length + 1) := by omega
        simp [left_, same]
      · have stuck : (put8 g b) = { g with full := true } := if_neg room
        have none_ : dnsMax - g.buf.length = 0 := by omega
        have much : dnsMax < g.buf.length + (rest.length + 1) := by omega
        rw [stuck, ih { g with full := true } small]
        simp [none_, much]

/-- Name, type, class, TTL and data length. -/
def headBytes (g : Msg) (r : Record) (rdlen : Nat) : Bytes :=
  wire r.name ++ be16 r.data.type ++ be16 (g.cls r.unique) ++ be16 (g.ttl r.ttl / 65536) ++
    be16 (g.ttl r.ttl) ++
    be16 rdlen

def recordBytes (g : Msg) (r : Record) : Bytes := headBytes g r r.data.bytes.length ++ r.data.bytes

def recordLen (r : Record) : Nat := wireLen r.name + 10 + r.data.bytes.length

theorem headBytes_length (g : Msg) (r : Record) (rdlen : Nat) :
    (headBytes g r rdlen).length = wireLen r.name + 10 := by
  simp [headBytes, wire_length]

theorem recordBytes_length (g : Msg) (r : Record) : (recordBytes g r).length = recordLen r := by
  rw [recordBytes, List.length_append, headBytes_length, recordLen]

theorem rrBegin_eq (g : Msg) (r : Record) :
    rrBegin g r.name r.data.type r.unique r.ttl = puts g (headBytes g r 0) := by
  simp only [rrBegin, put16, putName, headBytes, puts_append]

theorem wr16_length (before name : Bytes) (v : Nat) (data : Bytes) :
    wr16 (before ++ (name ++ be16 0) ++ data) ((before ++ (name ++ be16 0)).length - 2) v =
      before ++ (name ++ be16 v) ++ data := by
  have place : (before ++ (name ++ be16 0)).length - 2 = (before ++ name).length := by
    simp
    omega
  rw [place, wr16, ← List.append_assoc before name (be16 0), List.append_assoc (before ++ name)]
  rw [List.take_left, ← List.drop_drop, List.drop_left]
  simp [be16]

theorem rr_eq (g : Msg) (r : Record) (small : g.buf.length ≤ dnsMax) : rr g r =
    if g.full ∨ dnsMax < g.buf.length + recordLen r then { g with full := true }
    else { g with buf := g.buf ++ recordBytes g r, count := g.count + 1 } := by
  have head := headBytes_length g r 0
  have length : recordLen r = (headBytes g r 0).length + r.data.bytes.length := by rw [head, recordLen]
  simp only [rr, rrBegin_eq]
  rw [← puts_append, puts_eq _ g small, puts_eq _ g small]
  rw [List.length_append, ← length]
  by_cases full : g.full = true ∨ dnsMax < g.buf.length + recordLen r
  · rw [if_pos full]
    have stopped : (g.full || decide (dnsMax < g.buf.length + recordLen r)) = true := by
      rcases full with is | is <;> simp [is]
    simp [rrEnd, stopped]
  · rw [if_neg full]
    simp only [not_or, Bool.not_eq_true, Nat.not_lt] at full
    obtain ⟨open_, room⟩ := full
    have fits : decide (dnsMax < g.buf.length + recordLen r) = false := by simp [room]
    have whole : (headBytes g r 0 ++ r.data.bytes).take (dnsMax - g.buf.length) =
        headBytes g r 0 ++ r.data.bytes := by
      apply List.take_of_length_le
      rw [List.length_append, ← length]
      omega
    have start : (headBytes g r 0).take (dnsMax - g.buf.length) = headBytes g r 0 := by
      apply List.take_of_length_le
      omega
    simp only [rrEnd, open_, fits, whole, start, Bool.or_self, Bool.false_eq_true, if_false]
    have place := wr16_length g.buf (wire r.name ++ be16 r.data.type ++ be16 (g.cls r.unique) ++
      be16 (g.ttl r.ttl / 65536) ++ be16 (g.ttl r.ttl)) r.data.bytes.length r.data.bytes
    have rest : (g.buf ++ (headBytes g r 0 ++ r.data.bytes)).length - (g.buf ++ headBytes g r 0).length =
        r.data.bytes.length := by
      simp only [List.length_append]
      omega
    rw [rest]
    simp only [headBytes, recordBytes, List.append_assoc] at place ⊢
    rw [place]

/-! ## Records are read back -/

structure RecordOk (r : Record) : Prop where
  name : NameOk r.name
  short : wireLen r.name < nameMax
  ttl : r.ttl < 2 ^ 32
  data : match r.data with
    | .a ip => ip.length = 4
    | .ptr target | .srv _ target => NameOk target ∧ wireLen target < nameMax
    | .txt => True

/-- What a reader gets of a record. -/
def seen (g : Msg) (r : Record) : MdnsRecord :=
  match r.data with
  | .a ip => { name := r.name, type := typeA, ttl := g.ttl r.ttl, ip := ip }
  | .ptr target => { name := r.name, type := typePtr, ttl := g.ttl r.ttl, target := target }
  | .srv port target =>
    { name := r.name, type := typeSrv, ttl := g.ttl r.ttl, target := target, port := port.toNat }
  | .txt => { name := r.name, type := typeTxt, ttl := g.ttl r.ttl }

theorem ttl_small (g : Msg) {ttl : Nat} (small : ttl < 2 ^ 32) : g.ttl ttl < 2 ^ 32 := by
  unfold Msg.ttl legacyTtl
  by_cases bye : g.goodbye = true
  · rw [if_pos bye]
    omega
  · rw [if_neg bye]
    by_cases old : g.legacy = true ∧ ttl > 10
    · rw [if_pos old]
      omega
    · rw [if_neg old]
      exact small

theorem cls_in (g : Msg) (unique : Bool) : g.cls unique < 65536 ∧ g.cls unique % classTop = classIn := by
  simp only [Msg.cls]
  split <;> exact ⟨by decide, by decide⟩

theorem data_small {r : Record} (ok : RecordOk r) : r.data.bytes.length < 65536 := by
  have data := ok.data
  cases is : r.data with
  | a ip =>
      rw [is] at data
      simp only [RData.bytes]
      omega
  | ptr target =>
      rw [is] at data
      simp only [RData.bytes, wire_length]
      have := data.2
      simp only [nameMax] at this
      omega
  | srv port target =>
      rw [is] at data
      simp only [RData.bytes, List.length_append, be16_length, wire_length]
      have := data.2
      simp only [nameMax] at this
      omega
  | txt => decide

theorem rd32_stands {msg : Bytes} {off v : Nat} (high : Stands msg off (be16 (v / 65536)))
    (low : Stands msg (off + 2) (be16 v)) (small : v < 2 ^ 32) :
    rd16 msg off * 65536 + rd16 msg (off + 2) = v := by
  rw [rd16_stands high (by omega)]
  have hi := byteAt_stands low
  have lo := byteAt_stands (stands_tail low)
  rw [rd16, hi, lo]
  simp only [UInt8.toNat_ofNat']
  omega

theorem readData_stands {g : Msg} {r : Record} (ok : RecordOk r) {msg : Bytes} {data : Nat}
    (there : Stands msg data r.data.bytes) :
    readData msg { name := r.name, type := r.data.type, ttl := g.ttl r.ttl } data r.data.bytes.length =
      some (seen g r) := by
  have fits := ok.data
  cases is : r.data with
  | a ip =>
      rw [is] at fits there
      have four : ip.length = 4 := fits
      have taken : (msg.drop data).take 4 = ip := by
        rw [← four]
        exact stands_take there
      simp [readData, RData.type, RData.bytes, seen, is, typeA, typePtr, typeSrv, four, taken]
  | ptr target =>
      rw [is] at fits there
      have read := readName_stands fits.1 fits.2 there
      simp [readData, RData.type, RData.bytes, seen, is, typePtr, read, wire_length]
  | srv port target =>
      rw [is] at fits there
      simp only [RData.bytes] at there
      obtain ⟨fields, name⟩ := stands_append.mp there
      obtain ⟨-, number⟩ := stands_append.mp fields
      have positive := wireLen_pos target
      have port_ := rd16_stands number (UInt16.toNat_lt port)
      simp only [List.length_append, be16_length, Nat.reduceAdd] at number name port_
      have read := readName_stands fits.1 fits.2 name
      simp [readData, RData.type, RData.bytes, seen, is, typePtr, typeSrv, read, wire_length, port_]
      omega
  | txt => simp [readData, RData.type, seen, is, typeA, typePtr, typeSrv, typeTxt]

theorem type_small (data : RData) : data.type < 65536 := by
  cases data <;> simp [RData.type, typeA, typePtr, typeSrv, typeTxt]

theorem nextRecord_stands {g : Msg} {r : Record} (ok : RecordOk r) {msg : Bytes} {off : Nat} (left_ : Nat)
    (there : Stands msg off (recordBytes g r)) :
    nextRecord msg (left_ + 1) off = some (seen g r, off + recordLen r, left_) := by
  have whole := stands_length there (by
    intro nothing
    have length := recordBytes_length g r
    rw [nothing] at length
    simp [recordLen] at length
    omega)
  rw [recordBytes_length] at whole
  rw [recordBytes, headBytes] at there
  obtain ⟨head, data⟩ := stands_append.mp there
  obtain ⟨head, rdlen⟩ := stands_append.mp head
  obtain ⟨head, ttlLow⟩ := stands_append.mp head
  obtain ⟨head, ttlHigh⟩ := stands_append.mp head
  obtain ⟨head, cls⟩ := stands_append.mp head
  obtain ⟨name, type⟩ := stands_append.mp head
  simp only [List.length_append, wire_length, be16_length, ← Nat.add_assoc]
    at type cls ttlHigh ttlLow rdlen data
  have type_ := rd16_stands type (type_small r.data)
  obtain ⟨small, in_⟩ := cls_in g r.unique
  have cls_ := rd16_stands cls small
  have ttl_ := rd32_stands ttlHigh ttlLow (ttl_small g ok.ttl)
  have rdlen_ := rd16_stands rdlen (data_small ok)
  simp only [recordLen] at whole ⊢
  simp only [nextRecord, readName_stands ok.name ok.short name, Nat.add_assoc]
  simp only [Nat.add_assoc, Nat.reduceAdd] at type_ cls_ ttl_ rdlen_ data
  rw [rdlen_, type_, cls_, ttl_, in_, readData_stands ok data]
  rw [if_neg (by omega), if_neg (by simp)]
  simp

theorem allRecords_stands {g : Msg} (rs : List Record) : ∀ {msg : Bytes} {off : Nat}, (∀ r ∈ rs, RecordOk r) →
    Stands msg off (rs.flatMap (recordBytes g)) →
      allRecords msg rs.length rs.length off = rs.map (seen g) := by
  induction rs with
  | nil => exact fun _ _ => rfl
  | cons r rest ih =>
      intro msg off ok there
      rw [List.flatMap_cons] at there
      obtain ⟨first, later⟩ := stands_append.mp there
      rw [recordBytes_length] at later
      simp only [List.length_cons, allRecords]
      rw [nextRecord_stands (ok r List.mem_cons_self) rest.length first]
      dsimp only
      rw [ih (fun r member => ok r (List.mem_cons_of_mem _ member)) later, List.map_cons]

end R2Apps.MdnsMessages
