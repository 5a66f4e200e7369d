import R2Apps.BrowserUrl

/-! The head of a request that is made for an address the user typed, or for one
reached from it by references. Its lines are those of the template, as long as
no part that is put into them brings a line end of its own. -/
namespace R2Apps.BrowserRequestHeads
open WireHttp (Bytes)
open WireBytes (ascii)
open BrowserUrl

/-- No CR and no LF. -/
def LineFree (b : Bytes) : Prop := 13 ∉ b ∧ 10 ∉ b

instance (b : Bytes) : Decidable (LineFree b) := inferInstanceAs (Decidable (_ ∧ _))

theorem lineFree_of {b d : Bytes} (inside : ∀ c ∈ b, c ∈ d) (free : LineFree d) : LineFree b :=
  ⟨fun member => free.1 (inside _ member), fun member => free.2 (inside _ member)⟩

theorem lineFree_append {b d : Bytes} : LineFree (b ++ d) ↔ LineFree b ∧ LineFree d := by
  simp only [LineFree, List.mem_append, not_or]
  exact and_and_and_comm

theorem lineFree_of_escaped {b : Bytes} (escaped : Escaped b) : LineFree b ∧ ch ' ' ∉ b := by
  refine ⟨⟨fun member => ?_, fun member => ?_⟩, fun member => ?_⟩
  · exact absurd (escaped _ member).1 (by decide)
  · exact absurd (escaped _ member).1 (by decide)
  · exact absurd (escaped _ member).1 (by decide)

/-! ## Hosts -/

/-- What follows the scheme in a typed text, unless it is searched for. Without
a scheme it is what is left of the text behind "https://". -/
def typedRest (text : Bytes) : Option Bytes :=
  let l := trimmed text
  if istarts l (ascii "https://") then some (l.drop 8)
  else if istarts l (ascii "http://") then some (l.drop 7)
  else if isSearch l then none
  else some (l.take (pathCap - 9))

/-- A reference with a host of its own. -/
def namesHost (r : Bytes) : Bool := absolute r || r.take 2 == [ch '/', ch '/']

/-- The host that is used in the end has no line end: it comes from a reference, or from a text
without one in it. -/
def HostFree (text : Bytes) (refs : List Bytes) : Prop :=
  (∃ r ∈ refs, namesHost (cleaned r) = true) ∨ ∀ rest ∈ typedRest text, LineFree (hostPart rest)

section Hosts

set_option maxRecDepth 100000 in
theorem lower_line (c : UInt8) : (lower c = 13 ↔ c = 13) ∧ (lower c = 10 ↔ c = 10) := by
  have all_ : ∀ n < 256, (lower (UInt8.ofNat n) = 13 ↔ UInt8.ofNat n = 13) ∧
      (lower (UInt8.ofNat n) = 10 ↔ UInt8.ofNat n = 10) := by decide
  have here := all_ c.toNat c.toNat_lt
  rwa [UInt8.ofNat_toNat] at here

theorem lineFree_lower (b : Bytes) : LineFree (b.map lower) ↔ LineFree b := by
  have mem_lower {c : UInt8} (same : ∀ d, lower d = c ↔ d = c) : c ∈ b.map lower ↔ c ∈ b := by
    rw [List.mem_map]
    constructor
    · rintro ⟨d, member, is⟩
      exact (same d).mp is ▸ member
    · exact fun member => ⟨c, member, (same c).mpr rfl⟩
  unfold LineFree
  rw [mem_lower fun d => (lower_line d).1, mem_lower fun d => (lower_line d).2]

theorem lineFree_dropDot (b : Bytes) : LineFree (dropDot b) ↔ LineFree b := by
  unfold dropDot
  split
  · rename_i last
    obtain ⟨front, rfl⟩ := List.getLast?_eq_some_iff.mp last
    rw [List.dropLast_concat, lineFree_append]
    exact (and_iff_left (by decide)).symm
  · exact Iff.rfl

theorem parseRest_free {s : Bytes} {u v : Url} (parsed : parseRest s u = some v) :
    LineFree v.host ↔ LineFree (hostPart s) := by
  rw [parseRest_host parsed, lineFree_dropDot, lineFree_lower]

theorem parseAbsolute_free {s : Bytes} {v : Url} (free : LineFree s) (parsed : parseAbsolute s = some v) :
    LineFree v.host := by
  have rest (n : Nat) : LineFree (hostPart (s.drop n)) :=
    lineFree_of (fun c member => List.mem_of_mem_drop (hostPart_subset _ c member)) free
  unfold parseAbsolute at parsed
  split at parsed
  · exact (parseRest_free parsed).mpr (rest 8)
  · split at parsed
    · exact (parseRest_free parsed).mpr (rest 7)
    · cases parsed

theorem cleaned_free (ref : Bytes) : LineFree (cleaned ref) := by
  have inside : ∀ c ∈ cleaned ref, (!(c == 10 || c == 13 || c == 9)) = true := by
    intro c member
    have back := (List.dropWhile_suffix _).subset (List.mem_reverse.mp member)
    exact (List.mem_filter.mp (List.mem_of_mem_take (List.mem_reverse.mp back))).2
  exact ⟨fun member => absurd (inside _ member) (by decide), fun member =>
    absurd (inside _ member) (by decide)⟩

theorem escape_free (c : UInt8) : LineFree (escape c) := (lineFree_of_escaped (escape_escaped c)).1

theorem searchLoop_free (l : Bytes) {q : Bytes} (free : LineFree q) : LineFree (searchLoop l q) := by
  induction l generalizing q with
  | nil => exact free
  | cons c rest ih =>
      unfold searchLoop
      split
      · refine ih (lineFree_append.mpr ⟨free, ?_⟩)
        unfold searchPut
        split
        · decide
        · split
          · rename_i plain
            refine ⟨fun member => ?_, fun member => ?_⟩
            · rw [← List.mem_singleton.mp member] at plain
              exact absurd plain (by decide)
            · rw [← List.mem_singleton.mp member] at plain
              exact absurd plain (by decide)
          · exact escape_free c
      · exact free

theorem scat_free {dst src : Bytes} (cap : Nat) (left_ : LineFree dst) (right_ : LineFree src) :
    LineFree (scat dst src cap) := by
  unfold scat
  split
  · exact lineFree_append.mpr ⟨left_, lineFree_of (fun c member => List.mem_of_mem_take member) right_⟩
  · exact left_

theorem urlFromInput_free {text : Bytes} {u : Url} (parsed : urlFromInput text = some u) :
    LineFree u.host ↔ ∀ rest ∈ typedRest text, LineFree (hostPart rest) := by
  unfold urlFromInput at parsed
  unfold typedRest
  generalize trimmed text = l at parsed ⊢
  dsimp only at parsed ⊢
  by_cases none_ : l = []
  · rw [if_pos none_] at parsed
    cases parsed
  rw [if_neg none_] at parsed
  by_cases secure : istarts l (ascii "https://") = true
  · have marked : absolute l = true := by simp [absolute, secure]
    rw [if_pos marked, parseAbsolute, if_pos secure] at parsed
    rw [if_pos secure, parseRest_free parsed]
    simp
  by_cases plain : istarts l (ascii "http://") = true
  · have marked : absolute l = true := by simp [absolute, plain]
    rw [if_pos marked, parseAbsolute, if_neg secure, if_pos plain] at parsed
    rw [if_neg secure, if_pos plain, parseRest_free parsed]
    simp
  have unmarked : ¬absolute l = true := by simp [absolute, secure, plain]
  rw [if_neg unmarked] at parsed
  rw [if_neg secure, if_neg plain]
  by_cases other : otherScheme l = true
  · rw [if_pos other] at parsed
    cases parsed
  rw [if_neg other] at parsed
  by_cases searched : isSearch l = true
  · rw [if_pos searched] at parsed ⊢
    have clean : LineFree (scat searchPrefix (searchLoop l []) pathCap) :=
      scat_free _ (by decide) (searchLoop_free l (by decide))
    exact ⟨fun _ rest member => (Option.not_mem_none _ member).elim, fun _ => parseAbsolute_free clean parsed⟩
  · rw [if_neg searched] at parsed ⊢
    have full : scat (ascii "https://") l pathCap = ascii "https://" ++ l.take (pathCap - 9) := by
      rw [scat, if_pos (by decide)]
      rfl
    have secure_ : istarts (scat (ascii "https://") l pathCap) (ascii "https://") = true := by
      rw [full]
      exact istarts_append _ _
    rw [parseAbsolute, if_pos secure_, full] at parsed
    have behind : (ascii "https://" ++ l.take (pathCap - 9)).drop 8 = l.take (pathCap - 9) := rfl
    rw [behind] at parsed
    rw [parseRest_free parsed]
    simp

theorem urlResolve_host {base u : Url} {ref : Bytes} (resolved : urlResolve base ref = some u) :
    if namesHost (cleaned ref) then LineFree u.host else u.host = base.host := by
  have free := cleaned_free ref
  unfold urlResolve at resolved
  generalize cleaned ref = r at free resolved ⊢
  dsimp only at resolved
  unfold namesHost
  by_cases marked : absolute r = true
  · rw [if_pos marked] at resolved
    rw [marked, Bool.true_or, if_pos rfl]
    exact parseAbsolute_free free resolved
  rw [if_neg marked] at resolved
  split at resolved
  · cases resolved
  · by_cases network : r.take 2 = [ch '/', ch '/']
    · rw [if_pos network] at resolved
      rw [beq_iff_eq.mpr network, Bool.or_true, if_pos rfl, parseRest_free resolved]
      exact lineFree_of (fun c member => List.mem_of_mem_drop (hostPart_subset _ c member)) free
    · rw [if_neg network] at resolved
      rw [Bool.eq_false_iff.mpr marked, beq_eq_false_iff_ne.mpr network, Bool.or_false,
        if_neg Bool.false_ne_true]
      split at resolved
      · cases resolved
        rfl
      · split at resolved
        · cases resolved
          rfl
        · split at resolved
          · cases resolved
            rfl
          · cases resolved
            rfl

theorem chain_host {base u : Url} (refs : List Bytes) (chained : refs.foldlM urlResolve base = some u) :
    if ∃ r ∈ refs, namesHost (cleaned r) = true then LineFree u.host else u.host = base.host := by
  induction refs generalizing base with
  | nil =>
      cases chained
      rw [if_neg (by simp)]
  | cons r refs ih =>
      rw [List.foldlM_cons] at chained
      obtain ⟨next, resolved, later⟩ := Option.bind_eq_some_iff.mp chained
      have step := urlResolve_host resolved
      have run := ih later
      by_cases after : ∃ r ∈ refs, namesHost (cleaned r) = true
      · obtain ⟨q, member, named⟩ := after
        rw [if_pos ⟨q, member, named⟩] at run
        rw [if_pos ⟨q, List.mem_cons_of_mem _ member, named⟩]
        exact run
      · rw [if_neg after] at run
        by_cases named : namesHost (cleaned r) = true
        · rw [if_pos named] at step
          rw [if_pos ⟨r, List.mem_cons_self .., named⟩, run]
          exact step
        · rw [if_neg named] at step
          rw [if_neg, run, step]
          rintro ⟨q, member, is⟩
          rcases List.mem_cons.mp member with rfl | later_
          · exact named is
          · exact after ⟨q, later_, is⟩

theorem visit_host {text : Bytes} {refs : List Bytes} {u : Url} (visited : visit text refs = some u) :
    LineFree u.host ↔ HostFree text refs := by
  obtain ⟨first, typed, chained⟩ := Option.bind_eq_some_iff.mp visited
  have host := chain_host refs chained
  unfold HostFree
  by_cases named : ∃ r ∈ refs, namesHost (cleaned r) = true
  · rw [if_pos named] at host
    exact ⟨fun _ => .inl named, fun _ => host⟩
  · rw [if_neg named] at host
    rw [host, urlFromInput_free typed, or_iff_right named]

theorem visit_path {text : Bytes} {refs : List Bytes} {u : Url} (visited : visit text refs = some u) :
    Escaped u.path := by
  obtain ⟨first, typed, chained⟩ := Option.bind_eq_some_iff.mp visited
  have start := urlFromInput_escaped typed
  clear visited typed
  induction refs generalizing first with
  | nil =>
      cases chained
      exact start
  | cons r refs ih =>
      rw [List.foldlM_cons] at chained
      obtain ⟨next, resolved, later⟩ := Option.bind_eq_some_iff.mp chained
      exact ih next later (urlResolve_escaped start resolved)

end Hosts

/-! ## Lines -/

def lineEnd : Bytes := [13, 10]

def written (lines : List Bytes) : Bytes := lines.flatMap (· ++ lineEnd)

section Template
variable (u : Url) (body : Bytes) (post : Bool) (contentType method : Option Bytes)

/-- Any method sends what body there is. -/
def sends : Bool := if (method.getD []).isEmpty then post else decide (0 < body.length) || post

def methodText : Bytes :=
  if (method.getD []).isEmpty then (if post then ascii "POST" else ascii "GET") else method.getD []

def typeText : Bytes := contentType.getD (ascii "application/x-www-form-urlencoded")

def requestLine : Bytes := methodText post method ++ ch ' ' :: u.path ++ ascii " HTTP/1.1"

/-- The host, and the port where it is not the default one. -/
def hostLine : Bytes :=
  ascii "Host: " ++ u.host ++ if u.defaultPort then [] else ch ':' :: intText 22 u.port.toNat []

def bodyLines : List Bytes :=
  if sends body post method then
    [ascii "Content-Type: " ++ typeText contentType, ascii "Content-Length: " ++ intText 22 body.length []]
  else []

def fixedLines : List Bytes :=
  [ascii "User-Agent: r2web/0.1 (rou2exOS; Memento)", ascii "Accept: text/html,text/plain;q=0.9,*/*;q=0.1",
    ascii "Accept-Language: en,cs;q=0.8", ascii "Accept-Encoding: identity", ascii "Connection: close"]

/-- The lines of a head without extra ones. -/
def headLines : List Bytes :=
  requestLine u post method :: hostLine u :: (bodyLines body post contentType method ++ fixedLines)

/-- The request is its head's lines and its body, whole. Only the lines' ends
have a CR or an LF, two spaces part the first line, and one line is a Host. -/
structure HeadOk (req : Bytes) : Prop where
  whole : req = written (headLines u body post contentType method) ++ lineEnd ++
    if sends body post method then body else []
  free : ∀ l ∈ headLines u body post contentType method, LineFree l
  spaces : (requestLine u post method).count (ch ' ') = 2
  single : (headLines u body post contentType method).tail.filter (istarts · (ascii "host:")) = [hostLine u]

variable {u body post contentType method}

theorem scat_take (b d : Bytes) {cap : Nat} (some_ : 0 < cap) :
    scat (b.take (cap - 1)) d cap = (b ++ d).take (cap - 1) := by
  unfold scat scopy
  rw [if_pos (by rw [List.length_take]; omega), List.take_append, List.length_take]
  congr 2
  omega

theorem scat_kept (b d : Bytes) :
    scat (b.take (requestCap - 1)) d requestCap = (b ++ d).take (requestCap - 1) := scat_take b d (by decide)

theorem put_method :
    (if !(method.getD []).isEmpty then scat (scat [] (method.getD []) requestCap) [ch ' '] requestCap
      else scat [] (if post then ascii "POST " else ascii "GET ") requestCap) =
    (methodText post method ++ [ch ' ']).take (requestCap - 1) := by
  have first (d : Bytes) : scat [] d requestCap = d.take (requestCap - 1) := by
    have := scat_kept [] d
    rwa [List.take_nil] at this
  unfold methodText
  rw [first, first, scat_kept]
  cases (method.getD []).isEmpty with
  | true => cases post <;> rfl
  | false => rfl

theorem put_port (b : Bytes) : (if u.defaultPort then b.take (requestCap - 1)
      else scatInt (scat (b.take (requestCap - 1)) [ch ':'] requestCap) u.port.toNat requestCap) =
    (b ++ if u.defaultPort then [] else ch ':' :: intText 22 u.port.toNat []).take (requestCap - 1) := by
  unfold scatInt
  rw [scat_kept, scat_kept]
  cases u.defaultPort with
  | true =>
      rw [if_pos rfl, if_pos rfl, List.append_nil]
  | false =>
      rw [if_neg Bool.false_ne_true, if_neg Bool.false_ne_true, List.append_assoc]
      rfl

theorem put_body (b : Bytes) (asked : Bool) : (if asked then
        scatInt (scat (scat (scat (b.take (requestCap - 1)) (ascii "\r\nContent-Type: ") requestCap)
          (typeText contentType) requestCap) (ascii "\r\nContent-Length: ") requestCap) body.length requestCap
      else b.take (requestCap - 1)) =
    (b ++ if asked then lineEnd ++ (ascii "Content-Type: " ++ typeText contentType) ++
      (lineEnd ++ (ascii "Content-Length: " ++ intText 22 body.length [])) else []).take
        (requestCap - 1) := by
  have type_ : ascii "\r\nContent-Type: " = lineEnd ++ ascii "Content-Type: " := rfl
  have length_ : ascii "\r\nContent-Length: " = lineEnd ++ ascii "Content-Length: " := rfl
  unfold scatInt
  rw [scat_kept, scat_kept, scat_kept, scat_kept, type_, length_]
  cases asked with
  | true => simp only [if_true, List.append_assoc]
  | false => simp only [Bool.false_eq_true, if_false, List.append_nil]

theorem httpBuildRequest_eq : httpBuildRequest u body post contentType method none =
    if (written (headLines u body post contentType method)).length + 1 ≥ requestCap then none
    else some (written (headLines u body post contentType method) ++ lineEnd ++
      if sends body post method then body else []) := by
  have asked : (if !(method.getD []).isEmpty then decide (0 < body.length) || post else post) =
      sends body post method := by
    unfold sends
    cases (method.getD []).isEmpty <;> rfl
  have named : (if !(method.getD []).isEmpty
    then scat (scat [] (method.getD []) requestCap) [ch ' '] requestCap
      else scat [] (if sends body post method then ascii "POST " else ascii "GET ") requestCap) =
      (methodText post method ++ [ch ' ']).take (requestCap - 1) := by
    rw [← put_method]
    unfold sends
    cases (method.getD []).isEmpty <;> rfl
  have middle : ascii " HTTP/1.1\r\nHost: " = ascii " HTTP/1.1" ++ lineEnd ++ ascii "Host: " := rfl
  have tail : lineEnd ++ written fixedLines = ascii "\r\nUser-Agent: r2web/0.1 (rou2exOS; Memento)\r\n" ++
      (ascii "Accept: text/html,text/plain;q=0.9,*/*;q=0.1\r\n" ++
        ascii "Accept-Language: en,cs;q=0.8\r\nAccept-Encoding: identity\r\nConnection: close\r\n") := by
    decide +kernel
  have lines : written (headLines u body post contentType method) =
      methodText post method ++ [ch ' '] ++ u.path ++ ascii " HTTP/1.1\r\nHost: " ++ u.host ++
        (if u.defaultPort then [] else ch ':' :: intText 22 u.port.toNat []) ++
        (if sends body post method then lineEnd ++ (ascii "Content-Type: " ++ typeText contentType) ++
          (lineEnd ++ (ascii "Content-Length: " ++ intText 22 body.length [])) else []) ++
        (lineEnd ++ written fixedLines) := by
    rw [middle]
    unfold headLines bodyLines requestLine hostLine written
    cases sends body post method with
    | true => simp
    | false => simp
  have body_ : (if (sends body post method && !body.isEmpty) = true then body else []) =
      if sends body post method then body else [] := by
    cases body with
    | nil => simp
    | cons c rest => simp
  unfold httpBuildRequest
  dsimp only
  rw [asked, named, scat_kept, scat_kept, scat_kept, put_port]
  have type_ : contentType.getD (ascii "application/x-www-form-urlencoded") = typeText contentType := rfl
  have plain : ownAccept ((none : Option Bytes).getD []).length ((none : Option Bytes).getD []) = false := rfl
  rw [type_, put_body, plain, if_neg Bool.false_ne_true, scat_kept, scat_kept, scat_kept, body_]
  rw [tail] at lines
  simp only [List.append_assoc] at lines ⊢
  rw [← lines]
  generalize written (headLines u body post contentType method) = all_
  have cap : requestCap = 1664 := rfl
  rw [List.length_take, cap]
  by_cases long : all_.length + 1 ≥ 1664
  · rw [if_pos long, if_pos (by omega)]
  · rw [if_neg long, if_neg (by omega), List.take_of_length_le (by omega)]
    rfl

theorem intText_free (turns n : Nat) {out : Bytes} (free : LineFree out) :
    LineFree (intText turns n out) := by
  induction turns generalizing n out with
  | zero => exact free
  | succ turns ih =>
      have digit : ∀ d < 10, LineFree [UInt8.ofNat (48 + d)] := by decide
      have next : LineFree (UInt8.ofNat (48 + n % 10) :: out) :=
        lineFree_append.mpr ⟨digit (n % 10) (Nat.mod_lt _ (by decide)), free⟩
      unfold intText
      dsimp only
      split
      · exact next
      · exact ih _ next

theorem hostLine_starts : istarts (hostLine u) (ascii "host:") = true := by
  have line : hostLine u = [72, 111, 115, 116, 58] ++
      (ch ' ' :: (u.host ++ if u.defaultPort then [] else ch ':' :: intText 22 u.port.toNat [])) := rfl
  have field : ascii "host:" = [104, 111, 115, 116, 58] := by decide
  rw [line, field]
  rfl

theorem other_field {name : Bytes} (rest : Bytes) (longer : 5 ≤ name.length)
    (other : istarts name (ascii "host:") = false) : istarts (name ++ rest) (ascii "host:") = false := by
  have field : ascii "host:" = [104, 111, 115, 116, 58] := by decide
  rw [field] at other ⊢
  match name, longer, other with
  | a :: b :: c :: d :: e :: name, _, other => simpa [istarts] using other

theorem single_host : (headLines u body post contentType method).tail.filter (istarts · (ascii "host:")) =
    [hostLine u] := by
  have fixed : fixedLines.filter (istarts · (ascii "host:")) = [] := by decide
  have body_ : (bodyLines body post contentType method).filter (istarts · (ascii "host:")) = [] := by
    unfold bodyLines
    split
    · rw [List.filter_cons_of_neg, List.filter_cons_of_neg, List.filter_nil]
      · rw [other_field _ (by decide) (by decide)]
        exact Bool.false_ne_true
      · rw [other_field _ (by decide) (by decide)]
        exact Bool.false_ne_true
    · rfl
  rw [headLines, List.tail_cons, List.filter_cons_of_pos (p := (istarts · (ascii "host:"))) hostLine_starts,
    List.filter_append, body_, fixed]
  rfl

/-- What the caller names for the method and the body's type is plain. -/
def CallerPlain (body : Bytes) (post : Bool) (contentType method : Option Bytes) : Prop :=
  LineFree (method.getD []) ∧ ch ' ' ∉ method.getD [] ∧
    (sends body post method = true → LineFree (contentType.getD []))

theorem methodText_plain : (LineFree (methodText post method) ↔ LineFree (method.getD [])) ∧
    (ch ' ' ∉ methodText post method ↔ ch ' ' ∉ method.getD []) := by
  unfold methodText
  cases method.getD [] with
  | nil => cases post <;> decide
  | cons c rest => exact ⟨Iff.rfl, Iff.rfl⟩

theorem typeText_free : LineFree (typeText contentType) ↔ LineFree (contentType.getD []) := by
  cases contentType with
  | none => decide
  | some t => exact Iff.rfl

theorem headLines_free (escaped : Escaped u.path) :
    (∀ l ∈ headLines u body post contentType method, LineFree l) ↔
    LineFree u.host ∧ LineFree (method.getD []) ∧
      (sends body post method = true → LineFree (contentType.getD [])) := by
  have fixed : ∀ l ∈ fixedLines, LineFree l := by decide
  have path := (lineFree_of_escaped escaped).1
  have number (n : Nat) : LineFree (intText 22 n []) := intText_free 22 n (by decide)
  have request : LineFree (requestLine u post method) ↔ LineFree (method.getD []) := by
    have front : LineFree (ch ' ' :: u.path) := lineFree_append.mpr ⟨(by decide : LineFree [ch ' ']), path⟩
    rw [requestLine, lineFree_append, lineFree_append, methodText_plain.1]
    exact ⟨fun all_ => all_.1.1, fun method_ => ⟨⟨method_, front⟩, by decide⟩⟩
  have host : LineFree (hostLine u) ↔ LineFree u.host := by
    have port : LineFree (if u.defaultPort then [] else ch ':' :: intText 22 u.port.toNat []) := by
      split
      · decide
      · exact lineFree_append.mpr ⟨(by decide : LineFree [ch ':']), number _⟩
    rw [hostLine, lineFree_append, lineFree_append]
    exact ⟨fun all_ => all_.1.2, fun host_ => ⟨⟨by decide, host_⟩, port⟩⟩
  have body_ : (∀ l ∈ bodyLines body post contentType method, LineFree l) ↔
      (sends body post method = true → LineFree (contentType.getD [])) := by
    unfold bodyLines
    cases sends body post method with
    | false => simp
    | true =>
        have type_ : LineFree (ascii "Content-Type: " ++ typeText contentType) ↔
            LineFree (contentType.getD []) := by
          rw [lineFree_append, typeText_free]
          exact and_iff_right (by decide)
        have length_ : LineFree (ascii "Content-Length: " ++ intText 22 body.length []) :=
          lineFree_append.mpr ⟨by decide, number _⟩
        rw [if_pos rfl, List.forall_mem_cons, List.forall_mem_singleton, type_]
        exact ⟨fun both _ => both.1, fun clean => ⟨clean rfl, length_⟩⟩
  rw [headLines, List.forall_mem_cons, List.forall_mem_cons, List.forall_mem_append, request, host, body_]
  constructor
  · rintro ⟨method_, host_, type_, _⟩
    exact ⟨host_, method_, type_⟩
  · rintro ⟨host_, method_, type_⟩
    exact ⟨method_, host_, type_, fixed⟩

theorem request_spaces (escaped : Escaped u.path) :
    (requestLine u post method).count (ch ' ') = 2 ↔ ch ' ' ∉ method.getD [] := by
  have path : u.path.count (ch ' ') = 0 := List.count_eq_zero.mpr (lineFree_of_escaped escaped).2
  have version : (ascii " HTTP/1.1").count (ch ' ') = 1 := by decide
  rw [requestLine, List.count_append, List.count_append, List.count_cons_self, path, version,
    ← (@methodText_plain post method).2, ← List.count_eq_zero]
  omega

theorem headOk_iff (escaped : Escaped u.path) {req : Bytes}
    (built : httpBuildRequest u body post contentType method none = some req) :
    HeadOk u body post contentType method req ↔
      LineFree u.host ∧ CallerPlain body post contentType method := by
  rw [httpBuildRequest_eq] at built
  have whole : written (headLines u body post contentType method) ++ lineEnd ++
      (if sends body post method then body else []) = req := by
    split at built
    · cases built
    · exact Option.some.inj built
  constructor
  · rintro ⟨_, free, spaces, _⟩
    obtain ⟨host, method_, type_⟩ := (headLines_free escaped).mp free
    exact ⟨host, method_, (request_spaces escaped).mp spaces, type_⟩
  · rintro ⟨host, method_, spaces, type_⟩
    exact ⟨whole.symm, (headLines_free escaped).mpr ⟨host, method_, type_⟩,
      (request_spaces escaped).mpr spaces,
      single_host⟩

end Template

/-! ## Every chain -/

/-- The head of a request is clean exactly when no line end came in with the
typed host or the caller's own words, and a head that does not fit is refused. -/
theorem request_heads {text : Bytes} {refs : List Bytes} {u : Url} (visited : visit text refs = some u)
    (body : Bytes) (post : Bool) (contentType method : Option Bytes) :
    (∀ req, httpBuildRequest u body post contentType method none = some req →
      (HeadOk u body post contentType method req ↔
        HostFree text refs ∧ CallerPlain body post contentType method)) ∧
    (httpBuildRequest u body post contentType method none = none ↔
      (written (headLines u body post contentType method)).length + 1 ≥ requestCap) := by
  constructor
  · intro req built
    rw [headOk_iff (visit_path visited) built, visit_host visited]
  · rw [httpBuildRequest_eq]
    split
    · rename_i long
      exact iff_of_true rfl long
    · rename_i fits
      exact iff_of_false (Option.some_ne_none _) fits

/-! A typed "http://a\nb/". -/

def brokenHost : Bytes := ascii "http://a\nb/"

def brokenUrl : Url := { https := false, host := ascii "a\nb", port := 80, path := [ch '/'] }

theorem broken_visited : visit brokenHost [] = some brokenUrl := by decide

/-- The head has a line of its own after the Host line. -/
theorem host_breaks : hostLine brokenUrl = ascii "Host: a\nb" ∧ visit brokenHost [] = some brokenUrl ∧
    ¬ ∀ (text : Bytes) (refs : List Bytes) (u : Url) (req : Bytes), visit text refs = some u →
      httpBuildRequest u [] false none none none = some req → HeadOk u [] false none none req := by
  refine ⟨by decide, broken_visited, fun claimed => ?_⟩
  have built := @httpBuildRequest_eq brokenUrl [] false none none
  rw [if_neg (by decide +kernel)] at built
  have host := ((headOk_iff (by decide +kernel) built).mp (claimed _ _ _ _ broken_visited built)).1
  exact absurd host (by decide)

def plainUrl : Url := { https := false, host := ascii "a", port := 80, path := [ch '/'] }

theorem plain_head : HeadOk plainUrl [] false none none
    (written (headLines plainUrl [] false none none) ++ lineEnd ++ []) ↔
      HostFree (ascii "http://a/") [] ∧ CallerPlain [] false none none :=
  (request_heads (show visit (ascii "http://a/") [] = some plainUrl by decide) [] false none none).1 _
    (by decide +kernel)

end R2Apps.BrowserRequestHeads
