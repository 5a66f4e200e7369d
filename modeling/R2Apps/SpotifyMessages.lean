import R2Apps.Varints

/-! The messages of the playback session, `go/spotify/stream/protobuf.go`. Taking bytes off a slice
is checked: a
slice past the end is the absence of a result, as Go would stop there. -/
namespace R2Apps.SpotifyMessages
open Varints

abbrev Bytes := List UInt8

/-- The errors of `parse`, under the words of their texts. -/
inductive ParseError where
  | messageTooLarge
  | invalidTag
  | invalidInteger
  | truncatedBytes
  | truncatedFixedField
  | unsupportedWireType
  | tooManyFields
deriving DecidableEq

structure Field where
  id : Nat
  num : Nat := 0
  data : Bytes := []
deriving DecidableEq

structure Message where
  fields : List Field := []
  err : Option ParseError := none
deriving DecidableEq

section Code

/-- `b[n:]` -/
def sliceFrom (b : Bytes) (n : Nat) : Option Bytes := if n ≤ b.length then some (b.drop n) else none

/-- `b[:n]` -/
def sliceTo (b : Bytes) (n : Nat) : Option Bytes := if n ≤ b.length then some (b.take n) else none

/-- The switch of `parse` over the wire type: the field and what is left behind it, or the error that ends the
loop. -/
def parseValue (id : Nat) (b : Bytes) : Nat → Option (Except ParseError (Field × Bytes))
  | 0 =>
      match uvarint b with
      | none => some (.error .invalidInteger)
      | some (v, n) => do
          let b ← sliceFrom b n
          some (.ok ({ id, num := v }, b))
  | 2 =>
      match uvarint b with
      | none => some (.error .truncatedBytes)
      | some (size, n) =>
          if size > b.length - n then some (.error .truncatedBytes)
          else do
            let b ← sliceFrom b n
            let data ← sliceTo b size
            let b ← sliceFrom b size
            some (.ok ({ id, data }, b))
  | 1 => parseFixed 8
  | 5 => parseFixed 4
  | _ => some (.error .unsupportedWireType)
where
  parseFixed (size : Nat) :=
    if b.length < size then some (.error .truncatedFixedField)
    else do
      let b ← sliceFrom b size
      some (.ok ({ id }, b))

/-- A turn of the loop of `parse`. -/
def parseField (b : Bytes) : Option (Except ParseError (Field × Bytes)) :=
  match uvarint b with
  | none => some (.error .invalidTag)
  | some (tag, n) =>
      if tag >>> 3 = 0 ∨ tag >>> 3 > 0x1fffffff then some (.error .invalidTag)
      else do
        let b ← sliceFrom b n
        parseValue (tag >>> 3) b (tag &&& 7)

end Code

section Turns

theorem sliceFrom_append (front back : Bytes) {n : Nat} (size : n = front.length) :
    sliceFrom (front ++ back) n = some back := by
  rw [sliceFrom, if_pos (by rw [size, List.length_append]; exact Nat.le_add_right _ _), size, List.drop_left]

theorem sliceTo_append (front back : Bytes) {n : Nat} (size : n = front.length) :
    sliceTo (front ++ back) n = some front := by
  rw [sliceTo, if_pos (by rw [size, List.length_append]; exact Nat.le_add_right _ _), size, List.take_left]

/-- What reading comes to: no slice fails, and what is read is taken off the front and depends on
nothing else. -/
def Turned {α : Type} (read : Bytes → Option (Except ParseError (α × Bytes))) (b : Bytes) : Prop :=
  (∃ e, read b = some (.error e)) ∨
    ∃ a front back, b = front ++ back ∧ ∀ rest, read (front ++ rest) = some (.ok (a, rest))

theorem parseFixed_turned (id size : Nat) (b : Bytes) :
    Turned (fun b => parseValue.parseFixed id b size) b := by
  by_cases short : b.length < size
  · exact .inl ⟨_, if_pos short⟩
  · have taken : (b.take size).length = size := List.length_take_of_le (Nat.le_of_not_lt short)
    refine .inr ⟨{ id }, b.take size, b.drop size, (List.take_append_drop size b).symm, ?_⟩
    intro rest
    have long : ¬(b.take size ++ rest).length < size := by
      rw [List.length_append, taken]
      omega
    simp only [parseValue.parseFixed, if_neg long, sliceFrom_append _ rest taken.symm]
    rfl

theorem parseValue_turned (id kind : Nat) (b : Bytes) : Turned (parseValue id · kind) b := by
  match kind with
  | 0 =>
      cases number : uvarint b with
      | none => exact .inl ⟨.invalidInteger, by simp only [parseValue, number]⟩
      | some read =>
          obtain ⟨v, n⟩ := read
          obtain ⟨front, back, whole, -, size, again⟩ := uvarint_front number
          refine .inr ⟨{ id, num := v }, front, back, whole, ?_⟩
          intro rest
          simp only [parseValue, again, sliceFrom_append front rest size]
          rfl
  | 2 =>
      cases number : uvarint b with
      | none => exact .inl ⟨.truncatedBytes, by simp only [parseValue, number]⟩
      | some read =>
          obtain ⟨size, n⟩ := read
          obtain ⟨front, back, whole, -, length_, again⟩ := uvarint_front number
          by_cases long : size > b.length - n
          · exact .inl ⟨.truncatedBytes, by simp only [parseValue, number, if_pos long]⟩
          · have inside : size ≤ back.length := by
              rw [whole, List.length_append] at long
              omega
            have taken : (back.take size).length = size := List.length_take_of_le inside
            refine .inr ⟨{ id, data := back.take size }, front ++ back.take size, back.drop size, ?_, ?_⟩
            · rw [List.append_assoc, List.take_append_drop, whole]
            · intro rest
              have fits : ¬size > (front ++ (back.take size ++ rest)).length - n := by
                rw [List.length_append, List.length_append, taken]
                omega
              simp only [parseValue, List.append_assoc, again, if_neg fits, sliceFrom_append front _ length_]
              have data := sliceTo_append (back.take size) rest taken.symm
              have behind := sliceFrom_append (back.take size) rest taken.symm
              simp only [Option.bind_eq_bind, Option.bind_some, data, behind]
  | 1 => exact parseFixed_turned id 8 b
  | 5 => exact parseFixed_turned id 4 b
  | 3 => exact .inl ⟨.unsupportedWireType, rfl⟩
  | 4 => exact .inl ⟨.unsupportedWireType, rfl⟩
  | k + 6 => exact .inl ⟨.unsupportedWireType, rfl⟩

theorem parseField_turned (b : Bytes) :
    (∃ e, parseField b = some (.error e)) ∨
      ∃ f front back, b = front ++ back ∧ 0 < front.length ∧
        ∀ rest, parseField (front ++ rest) = some (.ok (f, rest)) := by
  cases tagged : uvarint b with
  | none => exact .inl ⟨.invalidTag, by simp only [parseField, tagged]⟩
  | some read =>
      obtain ⟨tag, n⟩ := read
      obtain ⟨head, back, whole, some_, size, again⟩ := uvarint_front tagged
      by_cases wild : tag >>> 3 = 0 ∨ tag >>> 3 > 0x1fffffff
      · exact .inl ⟨.invalidTag, by simp only [parseField, tagged, if_pos wild]⟩
      · rcases parseValue_turned (tag >>> 3) (tag &&& 7) back with ⟨e, fails⟩ |
          ⟨f, front, behind, tail, reads⟩
        · refine .inl ⟨e, ?_⟩
          rw [whole]
          simp only [parseField, again, if_neg wild, sliceFrom_append head back size]
          exact fails
        · refine .inr ⟨f, head ++ front, behind, by rw [whole, tail, List.append_assoc], ?_, ?_⟩
          · rw [List.length_append]
            exact Nat.lt_of_lt_of_le some_ (Nat.le_add_right _ _)
          · intro rest
            simp only [parseField, List.append_assoc, again, if_neg wild, sliceFrom_append head _ size]
            exact reads rest

theorem parseField_shorter {b rest : Bytes} {f : Field} (read : parseField b = some (.ok (f, rest))) :
    rest.length < b.length := by
  rcases parseField_turned b with ⟨e, fails⟩ | ⟨f', front, back, whole, some_, reads⟩
  · rw [fails] at read
    cases read
  · rw [whole, reads] at read
    cases read
    rw [whole, List.length_append]
    omega

end Turns

section Loop

def parseLoop (fields : List Field) (b : Bytes) : Option Message :=
  if b.length > 0 then
    match _turn : parseField b with
    | none => none
    | some (.error e) => some { fields, err := some e }
    | some (.ok (f, rest)) =>
        if (fields ++ [f]).length > 2048 then some { fields := fields ++ [f], err := some .tooManyFields }
        else parseLoop (fields ++ [f]) rest
  else some { fields }
termination_by b.length
decreasing_by exact parseField_shorter _turn

def parse (b : Bytes) : Option Message :=
  if b.length > 65536 then some { err := some .messageTooLarge } else parseLoop [] b

def Message.bytes (m : Message) (id : Nat) : Bytes :=
  match m.fields.find? (·.id = id) with
  | some f => f.data
  | none => []

def Message.sub (m : Message) (id : Nat) : Option Message :=
  match m.err with
  | some e => some { err := some e }
  | none => parse (m.bytes id)

def vint (v : Nat) : Bytes := putUvarint v

def number (id v : Nat) : Bytes := vint (id <<< 3) ++ vint v

def blob (id : Nat) (b : Bytes) : Bytes := vint (id <<< 3 ||| 2) ++ vint b.length ++ b

def join (parts : List Bytes) : Bytes := parts.flatten

theorem parseLoop_nil (fields : List Field) : parseLoop fields [] = some { fields } := by
  rw [parseLoop]
  rfl

theorem parseLoop_error {b : Bytes} {e : ParseError} (fields : List Field) (more : 0 < b.length)
    (turn : parseField b = some (.error e)) : parseLoop fields b = some { fields, err := some e } := by
  rw [parseLoop, if_pos more]
  split
  · rename_i read
    rw [turn] at read
    cases read
  · rename_i read
    rw [turn] at read
    cases read
    rfl
  · rename_i read
    rw [turn] at read
    cases read

theorem parseLoop_field {b rest : Bytes} {f : Field} (fields : List Field)
    (turn : parseField b = some (.ok (f, rest))) :
    parseLoop fields b =
      if (fields ++ [f]).length > 2048 then some { fields := fields ++ [f], err := some .tooManyFields }
      else parseLoop (fields ++ [f]) rest := by
  have more : b.length > 0 := Nat.lt_of_le_of_lt (Nat.zero_le _) (parseField_shorter turn)
  rw [parseLoop, if_pos more]
  split
  · rename_i read
    rw [turn] at read
    cases read
  · rename_i read
    rw [turn] at read
    cases read
  · rename_i read
    rw [turn] at read
    cases read
    rfl

end Loop

section RoundTrip

/-- What a field holds: a number or a byte string. -/
inductive Value where
  | num (v : Nat)
  | data (b : Bytes)

def encode : Nat × Value → Bytes
  | (id, .num v) => number id v
  | (id, .data b) => blob id b

def field : Nat × Value → Field
  | (id, .num v) => { id, num := v }
  | (id, .data b) => { id, data := b }

/-- The ids that a tag has room for, and numbers of 64 bits. -/
def Encodable : Nat × Value → Prop
  | (id, .num v) => 1 ≤ id ∧ id ≤ 0x1fffffff ∧ v < 2 ^ 64
  | (id, .data _) => 1 ≤ id ∧ id ≤ 0x1fffffff

/-- A list of fields that a message has room for. -/
structure Fits (l : List (Nat × Value)) : Prop where
  few : l.length ≤ 2048
  fields : ∀ f, f ∈ l → Encodable f
  short : (join (l.map encode)).length ≤ 65536

theorem tag_parts (id : Nat) {kind : Nat} (small : kind < 8) :
    (id <<< 3 ||| kind) >>> 3 = id ∧ (id <<< 3 ||| kind) &&& 7 = kind ∧
      id <<< 3 ||| kind = 8 * id + kind := by
  have whole : id <<< 3 ||| kind = 8 * id + kind := by
    rw [Nat.shiftLeft_eq, Nat.mul_comm]
    exact (Nat.two_pow_add_eq_or_of_lt (i := 3) small id).symm
  rw [whole, Nat.shiftRight_eq_div_pow, Nat.and_two_pow_sub_one_eq_mod _ 3]
  omega

theorem parseField_tag {id : Nat} (kind : Nat) (small : kind < 8) (first : 1 ≤ id)
    (last : id ≤ 0x1fffffff) (b : Bytes) :
    parseField (vint (id <<< 3 ||| kind) ++ b) = parseValue id b kind := by
  obtain ⟨high, low, whole⟩ := tag_parts id small
  have fits : id <<< 3 ||| kind < 2 ^ 64 := by omega
  have tame : ¬(id = 0 ∨ id > 0x1fffffff) := by omega
  simp only [parseField, vint, uvarint_put fits, high, low, if_neg tame, sliceFrom_append _ b rfl]
  rfl

theorem parseField_encode {f : Nat × Value} (good : Encodable f) (short : (encode f).length ≤ 65536)
    (rest : Bytes) :
    parseField (encode f ++ rest) = some (.ok (field f, rest)) := by
  obtain ⟨id, v | b⟩ := f
  · obtain ⟨first, last, fits⟩ := good
    have tag := parseField_tag 0 (by decide) first last (vint v ++ rest)
    rw [Nat.or_zero] at tag
    rw [encode, number, List.append_assoc, tag]
    simp only [parseValue, vint, uvarint_put fits, sliceFrom_append _ rest rfl]
    rfl
  · obtain ⟨first, last⟩ := good
    have fits : b.length < 2 ^ 64 := by
      simp only [encode, blob, List.length_append] at short
      omega
    have inside : ¬b.length > (vint b.length ++ (b ++ rest)).length - (vint b.length).length := by
      rw [List.length_append, List.length_append]
      omega
    rw [encode, blob, List.append_assoc, List.append_assoc, parseField_tag 2 (by decide) first last]
    simp only [vint] at inside ⊢
    simp only [parseValue, uvarint_put fits, if_neg inside, sliceFrom_append _ _ rfl, Option.bind_eq_bind,
      Option.bind_some, sliceTo_append b rest rfl]
    rfl

theorem parseLoop_join (l : List (Nat × Value)) : ∀ (fields : List Field), fields.length + l.length ≤ 2048 →
    (∀ f, f ∈ l → Encodable f) → (join (l.map encode)).length ≤ 65536 →
    parseLoop fields (join (l.map encode)) = some { fields := fields ++ l.map field } := by
  induction l with
  | nil =>
      intro fields _ _ _
      rw [List.map_nil, List.map_nil, List.append_nil]
      exact parseLoop_nil fields
  | cons f rest ih =>
      intro fields few good short
      have whole : join ((f :: rest).map encode) = encode f ++ join (rest.map encode) := rfl
      rw [whole, List.length_append] at short
      have turn := parseField_encode (good f List.mem_cons_self) (by omega) (join (rest.map encode))
      have room : (fields ++ [field f]).length + rest.length ≤ 2048 := by
        simp only [List.length_append, List.length_cons, List.length_nil] at few ⊢
        omega
      rw [whole, parseLoop_field fields turn, if_neg (by omega),
        ih _ room (fun g member => good g (List.mem_cons_of_mem f member)) (by omega)]
      rw [List.append_assoc, List.map_cons, List.singleton_append]

theorem parse_join {l : List (Nat × Value)} (fits : Fits l) :
    parse (join (l.map encode)) = some { fields := l.map field } := by
  rw [parse, if_neg (Nat.not_lt.mpr fits.short),
    parseLoop_join l [] (by rw [List.length_nil, Nat.zero_add]; exact fits.few) fits.fields fits.short]
  rfl

theorem sub_join {l inner : List (Nat × Value)} {id : Nat} (fits : Fits inner)
    (first : l.find? (·.1 = id) = some (id, .data (join (inner.map encode)))) :
    Message.sub { fields := l.map field } id = some { fields := inner.map field } := by
  have same : ((fun f : Field => decide (f.id = id)) ∘ field) = fun f : Nat × Value => decide (f.1 = id) := by
    funext ⟨n, v⟩
    cases v with
    | num v => rfl
    | data b => rfl
  have data : Message.bytes { fields := l.map field } id = join (inner.map encode) := by
    simp only [Message.bytes, List.find?_map, same, first, Option.map_some]
    rfl
  simp only [Message.sub, data]
  exact parse_join fits

end RoundTrip

section Tiling

theorem parseLoop_tiles (fields : List Field) (b : Bytes) : ∃ m, parseLoop fields b = some m ∧
    (m.err = none → ∃ (read : List Field) (pieces : List Bytes), m.fields = fields ++ read ∧
      pieces.flatten = b ∧
      List.Forall₂ (fun piece f => 0 < piece.length ∧
        ∀ rest, parseField (piece ++ rest) = some (.ok (f, rest)))
        pieces read) := by
  induction fields, b using parseLoop.induct with
  | case1 fields b more turn =>
      rcases parseField_turned b with ⟨e, fails⟩ | ⟨f, front, back, whole, -, reads⟩
      · rw [fails] at turn
        cases turn
      · rw [whole, reads] at turn
        cases turn
  | case2 fields b more e turn =>
      refine ⟨_, parseLoop_error fields more turn, ?_⟩
      intro fine
      cases fine
  | case3 fields b more f rest turn many =>
      refine ⟨_, by rw [parseLoop_field fields turn, if_pos many], ?_⟩
      intro fine
      cases fine
  | case4 fields b more f rest turn few ih =>
      obtain ⟨m, ran, tiles⟩ := ih
      refine ⟨m, by rw [parseLoop_field fields turn, if_neg few, ran], ?_⟩
      intro fine
      obtain ⟨read, pieces, all, flat, match_⟩ := tiles fine
      rcases parseField_turned b with ⟨e, fails⟩ | ⟨f', front, back, whole, some_, reads⟩
      · rw [fails] at turn
        cases turn
      · rw [whole, reads] at turn
        cases turn
        refine ⟨f :: read, front :: pieces, ?_, ?_, .cons ⟨some_, reads⟩ match_⟩
        · rw [all, List.append_assoc, List.singleton_append]
        · rw [List.flatten_cons, flat, whole]
  | case5 fields b done =>
      have empty : b = [] := List.eq_nil_of_length_eq_zero (Nat.eq_zero_of_not_pos done)
      subst empty
      refine ⟨_, parseLoop_nil fields, ?_⟩
      intro _
      exact ⟨[], [], (List.append_nil fields).symm, rfl, .nil⟩

theorem parse_tiles (b : Bytes) : ∃ m, parse b = some m ∧
    (m.err = none → ∃ pieces : List Bytes, pieces.flatten = b ∧
      List.Forall₂ (fun piece f => piece ≠ [] ∧ parse piece = some { fields := [f] }) pieces m.fields) := by
  by_cases long : b.length > 65536
  · refine ⟨_, if_pos long, ?_⟩
    intro fine
    cases fine
  · obtain ⟨m, ran, tiles⟩ := parseLoop_tiles [] b
    refine ⟨m, by rw [parse, if_neg long, ran], ?_⟩
    intro fine
    obtain ⟨read, pieces, all, flat, match_⟩ := tiles fine
    refine ⟨pieces, flat, ?_⟩
    rw [all, List.nil_append]
    have inside : ∀ piece, piece ∈ pieces → piece.length ≤ b.length := by
      intro piece member
      rw [← flat]
      exact List.Sublist.length_le (List.sublist_flatten_of_mem member)
    clear all flat ran tiles fine
    induction match_ with
    | nil => exact .nil
    | @cons piece f pieces read here _ ih =>
        have rest := ih fun p member => inside p (List.mem_cons_of_mem _ member)
        refine .cons ⟨List.ne_nil_of_length_pos here.1, ?_⟩ rest
        have short := inside piece List.mem_cons_self
        have turn := here.2 []
        rw [List.append_nil] at turn
        have one : ¬([] ++ [f]).length > 2048 := by
          rw [List.nil_append, List.length_singleton]
          decide
        rw [parse, if_neg (by omega), parseLoop_field [] turn, if_neg one, parseLoop_nil]
        rfl

end Tiling

end R2Apps.SpotifyMessages
