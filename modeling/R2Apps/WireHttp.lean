import R2Apps.WireBytes

/-! `go/r2tls/wire/http.go`: one HTTP answer read from a connection. The connection
is the bytes that still come on it and the error after them; what `bufio` reads ahead
of the answer is left to the caller. A header is kept with the newest value in front. -/
namespace R2Apps.WireHttp
open WireBytes (ascii)

abbrev Bytes := List UInt8

/-- `failed` is an error of the connection or the dialer. -/
inductive Err where
  | stopped
  | eof
  | unexpectedEof
  | shortWrite
  | bufferFull
  | tooLarge
  | failed (number : Nat)
  | text (s : String)
  | upload (sent total : Nat) (err : Err)
deriving DecidableEq

/-! Go's `strings` and `strconv`, as far as they are called here. -/
section Strings

/-- What `unicode.IsSpace` takes for white space, in UTF-8. -/
def spaces : List Bytes :=
  [[9], [10], [11], [12], [13], [32], [0xc2, 0x85], [0xc2, 0xa0], [0xe1, 0x9a, 0x80], [0xe2, 0x80, 0xa8],
    [0xe2, 0x80, 0xa9], [0xe2, 0x80, 0xaf], [0xe2, 0x81, 0x9f], [0xe3, 0x80, 0x80]] ++
  (List.range 11).map fun n => [0xe2, 0x80, 0x80 + UInt8.ofNat n]

/-- `s` without those of `cut` at its start; each takes a byte of it. -/
def trimLeft (cut : List Bytes) : Nat → Bytes → Bytes
  | 0, s => s
  | fuel + 1, s =>
      match cut.find? fun space => space.isPrefixOf s with
      | some space => trimLeft cut fuel (s.drop space.length)
      | none => s

def trimSpace (s : Bytes) : Bytes :=
  let left := trimLeft spaces s.length s
  (trimLeft (spaces.map List.reverse) left.length left.reverse).reverse

def lowerByte (b : UInt8) : UInt8 := if 65 ≤ b ∧ b ≤ 90 then b + 32 else b

/-- `s` with each of `letters`, a text and the byte for it, and the capitals of ASCII replaced. -/
def replaced (letters : List (Bytes × UInt8)) : Nat → Bytes → Bytes
  | 0, s => s
  | _ + 1, [] => []
  | fuel + 1, b :: rest =>
      match letters.find? fun letter => letter.1.isPrefixOf (b :: rest) with
      | some letter => letter.2 :: replaced letters fuel ((b :: rest).drop letter.1.length)
      | none => lowerByte b :: replaced letters fuel rest

/-- The Kelvin sign and the dotted capital I are the letters beyond ASCII that become one of it. -/
def toLower (s : Bytes) : Bytes := replaced [([0xe2, 0x84, 0xaa], 107), ([0xc4, 0xb0], 105)] s.length s

/-- Against a word of ASCII: beyond it, the Kelvin sign folds to k and the long s to s. -/
def equalFold (s word : Bytes) : Bool :=
  replaced [([0xe2, 0x84, 0xaa], 107), ([0xc5, 0xbf], 115)] s.length s == word

def split (separator : UInt8) : Bytes → List Bytes
  | [] => [[]]
  | b :: rest =>
      if b = separator then [] :: split separator rest
      else match split separator rest with
        | [] => [[b]]
        | first :: others => (b :: first) :: others

def digit (base : Nat) (b : UInt8) : Option Nat :=
  let value :=
    if 48 ≤ b ∧ b ≤ 57 then b.toNat - 48
    else if 97 ≤ b ∧ b ≤ 122 then b.toNat - 87
    else if 65 ≤ b ∧ b ≤ 90 then b.toNat - 55
    else base
  if value < base then some value else none

def number (base : Nat) (s : Bytes) : Option Nat :=
  if s.isEmpty then none else s.foldlM (fun value b => (digit base b).map (value * base + ·)) 0

/-- `strconv.ParseUint` of at most `max`. -/
def parseUint (base max : Nat) (s : Bytes) : Option Nat := (number base s).filter (· ≤ max)

def atoi : Bytes → Option Int
  | [] => none
  | b :: rest =>
      if b = 43 then (number 10 rest).map Int.ofNat
      else if b = 45 then (number 10 rest).map fun n => -Int.ofNat n
      else (number 10 (b :: rest)).map Int.ofNat

end Strings

abbrev uint32Max : Nat := 4294967295

/-- The size of the `bufio.Reader`, which a line has to fit in. -/
abbrev bufferSize : Nat := 2048

abbrev Header := List (Bytes × Bytes)

structure Response where
  status : Nat
  header : Header
  body : Bytes
deriving DecidableEq

/-- `Header[key]`, empty when it is not there. -/
def Response.get (r : Response) (key : String) : Bytes := (r.header.lookup (ascii key)).getD []

/-- What `ReadAlloc` returns, with the bytes behind the answer, and the length it asked room for. -/
structure Outcome where
  answer : Except Err (Response × Bytes)
  asked : Option Nat

section Reading
variable (last : Err)

def readSlice (s : Bytes) : Except Err (Bytes × Bytes) :=
  match (s.take bufferSize).findIdx? (· == 10) with
  | some i => .ok (s.take (i + 1), s.drop (i + 1))
  | none => .error (if bufferSize ≤ s.length then .bufferFull else last)

def readFull (n : Nat) (s : Bytes) : Except Err (Bytes × Bytes) :=
  if n ≤ s.length then .ok (s.take n, s.drop n)
  else .error (if s ≠ [] ∧ last = .eof then .unexpectedEof else last)

def setHeader (h : Header) (k v : Bytes) : Except Err Header :=
  match h.lookup k with
  | some old =>
      if k = ascii "content-length" ∧ old ≠ v then .error (.text "conflicting content lengths")
      else .ok ((k, old ++ [44] ++ v) :: h)
  | none => .ok ((k, v) :: h)

/-- The header lines. Each takes at least a byte, so that the stream's length is fuel enough. -/
def headers : Nat → Nat → Header → Bytes → Except Err (Header × Bytes)
  | 0, _, _, _ => .error last
  | fuel + 1, bytes, h, s =>
      match readSlice last s with
      | .error e => .error e
      | .ok (line, rest) =>
          if bytes + line.length > 8192 then .error (.text "HTTP headers exceed 8 KiB")
          else
            let text := trimSpace line
            if text = [] then .ok (h, rest)
            else
              match text.idxOf? 58 with
              | none => .error (.text "invalid HTTP header")
              | some 0 => .error (.text "invalid HTTP header")
              | some (i + 1) =>
                  match setHeader h (toLower (text.take (i + 1))) (trimSpace (text.drop (i + 2))) with
                  | .error e => .error e
                  | .ok h => headers fuel (bytes + line.length) h rest

def trailers : Nat → Nat → Bytes → Except Err Bytes
  | 0, _, _ => .error last
  | fuel + 1, total, s =>
      match readSlice last s with
      | .error e => .error e
      | .ok (trailer, rest) =>
          if total + trailer.length > 8192 then .error (.text "HTTP trailers exceed 8 KiB")
          else if trailer = [13, 10] then .ok rest
          else if 58 ∈ trailer then trailers fuel (total + trailer.length) rest
          else .error (.text "invalid HTTP trailer")

def chunkSize (line : Bytes) : Option Nat :=
  let text := trimSpace line
  parseUint 16 uint32Max (text.takeWhile (· != 59))

def chunks (limit : Nat) : Nat → Bytes → Bytes → Except Err (Bytes × Bytes)
  | 0, _, _ => .error last
  | fuel + 1, body, s =>
      match readSlice last s with
      | .error e => .error e
      | .ok (line, rest) =>
          match chunkSize line with
          | none => .error (.text "invalid HTTP chunk")
          | some 0 => (trailers last (rest.length + 1) 0 rest).map fun rest => (body, rest)
          | some (n + 1) =>
              if body.length + (n + 1) > limit then .error .tooLarge
              else
                match readFull last (n + 1) rest with
                | .error e => .error e
                | .ok (chunk, rest) =>
                    match readFull last 2 rest with
                    | .error e => .error e
                    | .ok (crlf, rest) =>
                        if crlf = [13, 10] then chunks limit fuel (body ++ chunk) rest
                        else .error (.text "invalid HTTP chunk terminator")

/-- `io.ReadAll` of at most `limit` bytes and one more. -/
def readAll (limit : Nat) (s : Bytes) : Except Err (Bytes × Bytes) :=
  if limit < s.length then .error .tooLarge
  else if last = .eof then .ok (s, [])
  else .error last

def statusOf (line : Bytes) : Option Nat :=
  match split 32 (trimSpace line) with
  | version :: status :: _ =>
      if version = ascii "HTTP/1.0" ∨ version = ascii "HTTP/1.1" then
        match atoi status with
        | some n => if n < 100 ∨ 599 < n then none else some n.toNat
        | none => none
      else none
  | _ => none

/-- The body, by what the header says of it. -/
def readBody (limit : Nat) (r : Response) (s : Bytes) : Outcome :=
  let coding := r.get "content-encoding"
  let transfer := r.get "transfer-encoding"
  let finish (read : Except Err (Bytes × Bytes)) : Except Err (Response × Bytes) :=
    read.map fun (body, rest) => ({ r with body := body }, rest)
  if r.status < 200 ∨ r.status = 204 ∨ r.status = 304 then ⟨.ok (r, s), none⟩
  else if coding ≠ [] ∧ coding ≠ ascii "identity" then
    ⟨.error (.text "compressed HTTP response unsupported"), none⟩
  else if transfer ≠ [] then
    if toLower transfer ≠ ascii "chunked" then ⟨.error (.text "unsupported HTTP transfer encoding"), none⟩
    else ⟨finish (chunks last limit (s.length + 1) [] s), none⟩
  else
    match r.header.lookup (ascii "content-length") with
    | none => ⟨finish (readAll last limit s), none⟩
    | some length =>
        match parseUint 10 uint32Max length with
        | none => ⟨.error (.text "invalid HTTP content length"), none⟩
        | some n =>
            if limit < n then ⟨.error .tooLarge, none⟩
            else ⟨finish (readFull last n s), some n⟩

def readAlloc (limit : Nat) (s : Bytes) : Outcome :=
  match readSlice last s with
  | .error e => ⟨.error e, none⟩
  | .ok (line, rest) =>
      match statusOf line with
      | none => ⟨.error (.text "invalid HTTP status"), none⟩
      | some status =>
          match headers last (rest.length + 1) line.length [] rest with
          | .error e => ⟨.error e, none⟩
          | .ok (h, rest) => readBody last limit ⟨status, h, []⟩ rest

end Reading

def Response.reusable (r : Response) : Bool :=
  !(split 44 (r.get "connection")).any (fun token => equalFold (trimSpace token) (ascii "close")) &&
    decide (200 ≤ r.status) &&
    (r.get "content-length" != [] || equalFold (r.get "transfer-encoding") (ascii "chunked"))

/-! An answer takes the front of the stream, at least a byte of it. -/
section Consumed
variable {last : Err} {s rest : Bytes} {limit : Nat} {r : Response}

theorem readSlice_rest {line : Bytes} (read : readSlice last s = .ok (line, rest)) :
    rest <:+ s ∧ rest.length < s.length := by
  unfold readSlice at read
  split at read
  · next i found =>
    obtain ⟨rfl, rfl⟩ := Prod.mk.inj (Except.ok.inj read)
    have within : i < (s.take bufferSize).length := (List.findIdx?_eq_some_iff_findIdx_eq.mp found).1
    rw [List.length_take] at within
    refine ⟨List.drop_suffix _ _, ?_⟩
    rw [List.length_drop]
    omega
  · cases read

theorem readFull_rest {n : Nat} {chunk : Bytes} (read : readFull last n s = .ok (chunk, rest)) :
    rest <:+ s ∧ chunk.length = n := by
  unfold readFull at read
  split at read
  · next enough =>
    obtain ⟨rfl, rfl⟩ := Prod.mk.inj (Except.ok.inj read)
    exact ⟨List.drop_suffix _ _, List.length_take_of_le enough⟩
  · cases read

theorem headers_rest (fuel : Nat) : ∀ (bytes : Nat) (h h' : Header) (s : Bytes),
    headers last fuel bytes h s = .ok (h', rest) → rest <:+ s := by
  induction fuel with
  | zero =>
      intro bytes h h' s read
      cases read
  | succ fuel ih =>
      intro bytes h h' s read
      unfold headers at read
      cases line : readSlice last s with
      | error e =>
          rw [line] at read
          cases read
      | ok first =>
          rw [line] at read
          have front := (readSlice_rest line).1
          dsimp only at read
          split at read
          · cases read
          · split at read
            · obtain ⟨rfl, rfl⟩ := Prod.mk.inj (Except.ok.inj read)
              exact front
            · split at read
              · cases read
              · cases read
              · split at read
                · cases read
                · exact (ih _ _ _ _ read).trans front

theorem trailers_rest (fuel : Nat) : ∀ (total : Nat) (s : Bytes),
    trailers last fuel total s = .ok rest → rest <:+ s := by
  induction fuel with
  | zero =>
      intro total s read
      cases read
  | succ fuel ih =>
      intro total s read
      unfold trailers at read
      cases line : readSlice last s with
      | error e =>
          rw [line] at read
          cases read
      | ok first =>
          rw [line] at read
          have front := (readSlice_rest line).1
          dsimp only at read
          split at read
          · cases read
          · split at read
            · exact Except.ok.inj read ▸ front
            · split at read
              · exact (ih _ _ read).trans front
              · cases read

theorem chunks_rest (fuel : Nat) : ∀ (body body' s : Bytes),
    chunks last limit fuel body s = .ok (body', rest) → rest <:+ s := by
  induction fuel with
  | zero =>
      intro body body' s read
      cases read
  | succ fuel ih =>
      intro body body' s read
      unfold chunks at read
      cases line : readSlice last s with
      | error e =>
          rw [line] at read
          cases read
      | ok first =>
          rw [line] at read
          have front := (readSlice_rest line).1
          dsimp only at read
          split at read
          · cases read
          · cases behind : trailers last (first.2.length + 1) 0 first.2 with
            | error e =>
                rw [behind] at read
                cases read
            | ok end_ =>
                rw [behind] at read
                obtain ⟨rfl, rfl⟩ := Prod.mk.inj (Except.ok.inj read)
                exact (trailers_rest _ _ _ behind).trans front
          · split at read
            · cases read
            · split at read
              · cases read
              · next chunk =>
                split at read
                · cases read
                · next crlf =>
                  split at read
                  · exact (ih _ _ _ read).trans
                      ((readFull_rest crlf).1.trans ((readFull_rest chunk).1.trans front))
                  · cases read

theorem finish_ok {q : Response} {body : Except Err (Bytes × Bytes)}
    (same : body.map (fun (b, rest) => ({ q with body := b }, rest)) = .ok (r, rest)) :
    ∃ b, body = .ok (b, rest) ∧ r = { q with body := b } := by
  cases body with
  | error e => cases same
  | ok pair =>
      obtain ⟨rfl, rfl⟩ := Prod.mk.inj (Except.ok.inj same)
      exact ⟨pair.1, rfl, rfl⟩

theorem readBody_rest {q : Response} (read : (readBody last limit q s).answer = .ok (r, rest)) :
    rest <:+ s := by
  unfold readBody at read
  dsimp only at read
  split at read
  · exact (Prod.mk.inj (Except.ok.inj read)).2 ▸ List.suffix_refl s
  · split at read
    · cases read
    · split at read
      · split at read
        · cases read
        · obtain ⟨b, body, -⟩ := finish_ok read
          exact chunks_rest _ _ _ _ body
      · split at read
        · obtain ⟨b, body, -⟩ := finish_ok read
          unfold readAll at body
          split at body
          · cases body
          · split at body
            · exact (Prod.mk.inj (Except.ok.inj body)).2 ▸ List.nil_suffix
            · cases body
        · split at read
          · cases read
          · split at read
            · cases read
            · obtain ⟨b, body, -⟩ := finish_ok read
              exact (readFull_rest body).1

theorem readAlloc_rest (read : (readAlloc last limit s).answer = .ok (r, rest)) :
    rest <:+ s ∧ rest.length < s.length := by
  unfold readAlloc at read
  split at read
  · cases read
  · next line =>
    have front := readSlice_rest line
    split at read
    · cases read
    · split at read
      · cases read
      · next header =>
        have within := (readBody_rest read).trans (headers_rest _ _ _ _ _ header)
        exact ⟨within.trans front.1, Nat.lt_of_le_of_lt within.length_le front.2⟩

theorem readAlloc_nil : readAlloc last limit [] = ⟨.error last, none⟩ := rfl

/-! The fuel lasts: past the stream's length, more of it changes nothing. -/

theorem headers_fuel (fuel : Nat) : ∀ (bytes : Nat) (h : Header) (s : Bytes), s.length < fuel →
    headers last (fuel + 1) bytes h s = headers last fuel bytes h s := by
  induction fuel with
  | zero => exact fun bytes h s long => absurd long (Nat.not_lt_zero _)
  | succ fuel ih =>
      intro bytes h s long
      rw [headers, headers]
      cases line : readSlice last s with
      | error e => rfl
      | ok first =>
          have shorter : first.2.length < fuel :=
            Nat.lt_of_lt_of_le (readSlice_rest line).2 (Nat.le_of_lt_succ long)
          dsimp only
          split
          · rfl
          · split
            · rfl
            · split
              · rfl
              · rfl
              · split
                · rfl
                · exact ih _ _ _ shorter

theorem trailers_fuel (fuel : Nat) : ∀ (total : Nat) (s : Bytes), s.length < fuel →
    trailers last (fuel + 1) total s = trailers last fuel total s := by
  induction fuel with
  | zero => exact fun total s long => absurd long (Nat.not_lt_zero _)
  | succ fuel ih =>
      intro total s long
      rw [trailers, trailers]
      cases line : readSlice last s with
      | error e => rfl
      | ok first =>
          have shorter : first.2.length < fuel :=
            Nat.lt_of_lt_of_le (readSlice_rest line).2 (Nat.le_of_lt_succ long)
          dsimp only
          rw [ih _ _ shorter]

theorem chunks_fuel (fuel : Nat) : ∀ (body s : Bytes), s.length < fuel →
    chunks last limit (fuel + 1) body s = chunks last limit fuel body s := by
  induction fuel with
  | zero => exact fun body s long => absurd long (Nat.not_lt_zero _)
  | succ fuel ih =>
      intro body s long
      rw [chunks, chunks]
      cases line : readSlice last s with
      | error e => rfl
      | ok first =>
          have shorter : first.2.length < fuel :=
            Nat.lt_of_lt_of_le (readSlice_rest line).2 (Nat.le_of_lt_succ long)
          dsimp only
          split
          · rfl
          · rfl
          · split
            · rfl
            · split
              · rfl
              · next chunk =>
                split
                · rfl
                · next crlf =>
                  split
                  · refine ih _ _ (Nat.lt_of_le_of_lt ?_ shorter)
                    exact Nat.le_trans (readFull_rest crlf).1.length_le (readFull_rest chunk).1.length_le
                  · rfl

end Consumed

/-- Where the answer ends is said by the answer: it has no body, it is in chunks, or its length is given. -/
def Explicit (r : Response) : Prop :=
  200 ≤ r.status ∧ (r.status = 204 ∨ r.status = 304 ∨ toLower (r.get "transfer-encoding") = ascii "chunked" ∨
    parseUint 10 uint32Max (r.get "content-length") = some r.body.length)

theorem readBody_explicit {last : Err} {limit : Nat} {s rest : Bytes} {q r : Response}
    (read : (readBody last limit q s).answer = .ok (r, rest)) (reusable : r.reusable = true) :
    Explicit r := by
  simp only [Response.reusable, Bool.and_eq_true, decide_eq_true_eq, Bool.or_eq_true] at reusable
  obtain ⟨⟨-, final⟩, bounded⟩ := reusable
  refine ⟨final, ?_⟩
  unfold readBody at read
  dsimp only at read
  split at read
  · next bare =>
    obtain ⟨rfl, -⟩ := Prod.mk.inj (Except.ok.inj read)
    rcases bare with early | bare | bare
    · exact absurd final (Nat.not_le.mpr early)
    · exact Or.inl bare
    · exact Or.inr (Or.inl bare)
  · split at read
    · cases read
    · split at read
      · split at read
        · cases read
        · next chunked =>
          obtain ⟨b, -, rfl⟩ := finish_ok read
          exact Or.inr (Or.inr (Or.inl (Decidable.not_not.mp chunked)))
      · next plain =>
        have transfer : q.get "transfer-encoding" = [] := Decidable.not_not.mp plain
        split at read
        · next absent =>
          -- without a length the answer ends with the connection, which is not kept then
          obtain ⟨b, -, rfl⟩ := finish_ok read
          have length : q.get "content-length" = [] := by rw [Response.get, absent]; rfl
          rcases bounded with bounded | bounded
          · exact absurd length (bne_iff_ne.mp bounded)
          · rw [show Response.get { q with body := b } "transfer-encoding" = [] from transfer] at bounded
            exact absurd bounded (by decide)
        · next length found =>
          split at read
          · cases read
          · next n parsed =>
            split at read
            · cases read
            · obtain ⟨b, body, rfl⟩ := finish_ok read
              have given : Response.get { q with body := b } "content-length" = length := by
                rw [Response.get, found]
                rfl
              rw [given, (readFull_rest body).2]
              exact Or.inr (Or.inr (Or.inr parsed))

theorem reusable_explicit {last : Err} {limit : Nat} {s rest : Bytes} {r : Response}
    (read : (readAlloc last limit s).answer = .ok (r, rest)) (reusable : r.reusable = true) : Explicit r := by
  unfold readAlloc at read
  split at read
  · cases read
  · split at read
    · cases read
    · split at read
      · cases read
      · exact readBody_explicit read reusable

end R2Apps.WireHttp
