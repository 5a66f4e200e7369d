import R2Apps.WireHttp

/-! `memento-hello/web/url.cpp` and the request of `http.cpp`. A string is its
bytes before the NUL, an array of `cap` bytes keeps `cap - 1` of them. A parse
that fails leaves a `Url` nobody reads, so it is no `Url` here. -/
namespace R2Apps.BrowserUrl
open WireHttp (Bytes)
open WireBytes (ascii)

def ch (c : Char) : UInt8 := UInt8.ofNat c.toNat

def pathCap : Nat := 1024

/-! ## `wbase.cpp` -/

def lower (c : UInt8) : UInt8 := if 65 ≤ c ∧ c ≤ 90 then c + 32 else c

def scopy (src : Bytes) (cap : Nat) : Bytes := src.take (cap - 1)

def istarts : Bytes → Bytes → Bool
  | _, [] => true
  | [], _ => false
  | a :: s, b :: p => lower a == lower b && istarts s p

def scat (dst src : Bytes) (cap : Nat) : Bytes :=
  if dst.length < cap then dst ++ scopy src (cap - dst.length) else dst

/-- `tmp` turned round; a 64-bit number has no more than 22 digits. -/
def intText : Nat → Nat → Bytes → Bytes
  | 0, _, out => out
  | turns + 1, u, out =>
      let out := UInt8.ofNat (48 + u % 10) :: out
      if u / 10 = 0 then out else intText turns (u / 10) out

def scatInt (dst : Bytes) (v cap : Nat) : Bytes := scat dst (intText 22 v []) cap

def isSpace (c : UInt8) : Bool := c == ch ' ' || c == 9 || c == 10 || c == 13 || c == 12

/-! ## `url.cpp` -/

def hostCap : Nat := 128

structure Url where
  https : Bool := true
  host : Bytes := []
  port : UInt16 := 443
  path : Bytes := [ch '/']
  deriving DecidableEq

def Url.defaultPort (u : Url) : Bool := u.port == if u.https then 443 else 80

def searchPrefix : Bytes := ascii "https://lite.duckduckgo.com/lite/?q="

def hexDigit (d : UInt8) : UInt8 := if d < 10 then 48 + d else 55 + d

def escape (c : UInt8) : Bytes := [ch '%', hexDigit (c >>> 4), hexDigit (c &&& 15)]

/-- What may not appear raw in a request line. -/
def raw (c : UInt8) : Bool :=
  decide (c ≤ ch ' ') || decide (0x7F ≤ c) ||
    [ch '"', ch '<', ch '>', ch '\\', ch '^', 0x60, ch '{', ch '|', ch '}'].contains c

def pathPut (cap : Nat) (out : Bytes) (c : UInt8) : Bytes :=
  if raw c then (if out.length + 3 < cap then out ++ escape c else out)
  else if out.length + 1 < cap then out ++ [c] else out

def maxSegs : Nat := 128

/-- `out`, and the stack of offsets at which its segments start, the last one first. -/
structure Kept where
  out : Bytes := []
  starts : List Nat := []
  trailing : Bool := false

def takeSegment (k : Kept) (seg : Bytes) (last : Bool) : Kept :=
  if seg = [ch '.'] then { k with trailing := last }
  else if seg = [ch '.', ch '.'] then
    match k.starts with
    | [] => { k with trailing := last }
    | n :: starts => { out := k.out.take n, starts, trailing := last }
  else if seg = [] then { k with trailing := last }
  else
    { out := scat k.out (ch '/' :: seg) pathCap
      starts := if k.starts.length < maxSegs then k.out.length :: k.starts else k.starts
      trailing := false }

/-- The loop of `normalizePath`; there are no more turns than bytes. -/
def normalizeLoop : Nat → Kept → Bytes → Kept
  | 0, k, _ => k
  | turns + 1, k, p =>
      if p.head? = some (ch '/') then
        let end_ := p.tail.dropWhile (· != ch '/')
        normalizeLoop turns (takeSegment k (p.tail.takeWhile (· != ch '/')) end_.isEmpty) end_
      else k

def normalizePath (path : Bytes) : Bytes :=
  let query := scopy (path.dropWhile (· != ch '?')) pathCap
  let p := path.takeWhile (· != ch '?')
  let k := normalizeLoop p.length {} p
  let out := if k.out = [] ∨ k.trailing = true then scat k.out [ch '/'] pathCap else k.out
  scat (scopy out pathCap) query pathCap

/-- Where the authority ends. -/
def ends (c : UInt8) : Bool := c == ch '/' || c == ch '?' || c == ch '#'

/-- The number after a ':', whether there is a digit, and the rest; more than a port is refused. -/
def portLoop : Bytes → Nat → Bool → Option (Nat × Bool × Bytes)
  | [], v, any_ => some (v, any_, [])
  | c :: s, v, any_ =>
      if ch '0' ≤ c ∧ c ≤ ch '9' then
        let v := v * 10 + (c.toNat - 48)
        if v > 65535 then none else portLoop s v true
      else some (v, any_, c :: s)

/-- What follows the last '@' of the authority. -/
def pastUser (s : Bytes) : Bytes :=
  ((s.takeWhile fun c => !ends c).reverse.takeWhile (· != ch '@')).reverse ++ s.dropWhile fun c => !ends c

def dropDot (host : Bytes) : Bytes := if host.getLast? = some (ch '.') then host.dropLast else host

def parseAuthority (s : Bytes) (u : Url) : Option (Url × Bytes) :=
  let s := pastUser s
  let named := s.takeWhile fun c => !(ends c || c == ch ':')
  let s := s.dropWhile fun c => !(ends c || c == ch ':')
  let u := { u with host := dropDot (scopy (named.map lower) hostCap), port := if u.https then 443 else 80 }
  if s.head? = some (ch ':') then
    (portLoop s.tail 0 false).map fun r =>
      (if r.2.1 = true ∧ r.1 ≠ 0 then { u with port := UInt16.ofNat r.1 } else u, r.2.2)
  else some (u, s)

def beforeFragment (s : Bytes) : Bytes := s.takeWhile (· != ch '#')

def setPath (u : Url) (s : Bytes) (addSlash : Bool) : Url :=
  let path := (beforeFragment s).foldl (pathPut pathCap) (if addSlash then [ch '/'] else [])
  { u with path := if path = [] then [ch '/'] else path }

def Url.normalized (u : Url) : Url := { u with path := normalizePath u.path }

theorem normalized_path (u : Url) : u.normalized.path = normalizePath u.path := rfl

/-- From the authority on, which `parseAbsolute` and `urlResolve` do alike. -/
def parseRest (s : Bytes) (u : Url) : Option Url :=
  (parseAuthority s u).bind fun r =>
    if r.1.host = [] then none else some (setPath r.1 r.2 (r.2.head? != some (ch '/'))).normalized

def parseAbsolute (s : Bytes) : Option Url :=
  if istarts s (ascii "https://") then parseRest (s.drop 8) { https := true }
  else if istarts s (ascii "http://") then parseRest (s.drop 7) { https := false }
  else none

def absolute (s : Bytes) : Bool := istarts s (ascii "http://") || istarts s (ascii "https://")

/-- Some other scheme is not something to guess at. -/
def otherScheme : Bytes → Bool
  | [] => false
  | c :: rest =>
      if c = ch ':' ∧ rest.take 2 = [ch '/', ch '/'] then true
      else if c = ch '/' ∨ c = ch '.' then false
      else otherScheme rest

def plainChar (c : UInt8) : Bool :=
  (decide (ch 'a' ≤ c) && decide (c ≤ ch 'z')) || (decide (ch 'A' ≤ c) && decide (c ≤ ch 'Z')) ||
    (decide (ch '0' ≤ c) && decide (c ≤ ch '9'))

def searchPut (c : UInt8) : Bytes :=
  if c = ch ' ' then [ch '+']
  else if plainChar c || [ch '-', ch '_', ch '.', ch '~'].contains c then [c]
  else escape c

def searchLoop : Bytes → Bytes → Bytes
  | [], q => q
  | c :: rest, q => if q.length + 4 < pathCap then searchLoop rest (q ++ searchPut c) else q

/-- `in`: the text without the space around it. -/
def trimmed (text : Bytes) : Bytes :=
  ((scopy (text.dropWhile isSpace) pathCap).reverse.dropWhile isSpace).reverse

/-- A text with a space, or without a dot and a colon, is searched for. -/
def isSearch (l : Bytes) : Bool := l.contains (ch ' ') || !(l.contains (ch '.') || l.contains (ch ':'))

def urlFromInput (text : Bytes) : Option Url :=
  let l := trimmed text
  if l = [] then none
  else if absolute l then parseAbsolute l
  else if otherScheme l then none
  else if isSearch l then parseAbsolute (scat searchPrefix (searchLoop l []) pathCap)
  else parseAbsolute (scat (ascii "https://") l pathCap)

/-- `r`: the reference without newlines and tabs, and without the space around it. -/
def cleaned (ref : Bytes) : Bytes :=
  let r := scopy ((ref.dropWhile isSpace).filter fun c => !(c == 10 || c == 13 || c == 9)) pathCap
  (r.reverse.dropWhile (· == ch ' ')).reverse

/-- A ':' after the characters of a scheme. -/
def refScheme : Bytes → Bool
  | [] => false
  | c :: rest =>
      if c = ch ':' then true
      else if plainChar c || [ch '+', ch '-', ch '.'].contains c then refScheme rest
      else false

def beforeQuery (path : Bytes) : Bytes := path.takeWhile (· != ch '?')

/-- The directory of a path. -/
def directory (path : Bytes) : Bytes :=
  let dir := beforeQuery (scopy path pathCap)
  if dir.contains (ch '/') then (dir.reverse.dropWhile (· != ch '/')).reverse else [ch '/']

def urlResolve (base : Url) (ref : Bytes) : Option Url :=
  let r := cleaned ref
  if absolute r then parseAbsolute r
  else if refScheme r then none
  else if r.take 2 = [ch '/', ch '/'] then parseRest (r.drop 2) base
  else if r = [] ∨ r.head? = some (ch '#') then some base
  else if r.head? = some (ch '/') then some (setPath base r false).normalized
  else if r.head? = some (ch '?') then
    -- the same path, a new query
    let p := beforeQuery (scopy base.path pathCap)
    let tmp := (beforeFragment r).foldl (pathPut pathCap) []
    some { base with path := if p.length + tmp.length + 1 < pathCap then scat p tmp pathCap else p }
  else
    let path := (beforeFragment r).foldl (pathPut pathCap) (directory base.path)
    some { base with path := normalizePath path }

/-! ## `httpBuildRequest` -/

def requestCap : Nat := pathCap + hostCap + 512

/-- The lines of `extraHeaders`, of which one may be an Accept. -/
def ownAccept : Nat → Bytes → Bool
  | 0, _ => false
  | turns + 1, h =>
      if h = [] then false
      else istarts h (ascii "accept:") || ownAccept turns (h.dropWhile (· != 10)).tail

/-- `Buf::failed` is left out: memory does not run out. -/
def httpBuildRequest (u : Url) (body : Bytes) (post : Bool) (contentType method extraHeaders : Option Bytes) :
    Option Bytes :=
  let cap := requestCap
  let named := !(method.getD []).isEmpty
  -- any method sends what body there is; a GET or HEAD has none
  let post := if named then decide (0 < body.length) || post else post
  let out := if named then scat (scat [] (method.getD []) cap) [ch ' '] cap
    else scat [] (if post then ascii "POST " else ascii "GET ") cap
  let out := scat out u.path cap
  let out := scat out (ascii " HTTP/1.1\r\nHost: ") cap
  let out := scat out u.host cap
  let out := if u.defaultPort then out else scatInt (scat out [ch ':'] cap) u.port.toNat cap
  let out := if post then
      let out := scat out (ascii "\r\nContent-Type: ") cap
      let out := scat out (contentType.getD (ascii "application/x-www-form-urlencoded")) cap
      scatInt (scat out (ascii "\r\nContent-Length: ") cap) body.length cap
    else out
  let extra := extraHeaders.getD []
  let out := scat out (ascii "\r\nUser-Agent: r2web/0.1 (rou2exOS; Memento)\r\n") cap
  let out := if ownAccept extra.length extra then out
    else scat out (ascii "Accept: text/html,text/plain;q=0.9,*/*;q=0.1\r\n") cap
  let out := scat out
    (ascii "Accept-Language: en,cs;q=0.8\r\nAccept-Encoding: identity\r\nConnection: close\r\n") cap
  if out.length + 1 ≥ cap then none
  else some (out ++ extra ++ [13, 10] ++ if post && !body.isEmpty then body else [])

/-! ## Every path is escaped -/

section Escaping

/-- Nothing that has to be escaped, and no fragment. -/
def Escaped (b : Bytes) : Prop := ∀ c ∈ b, raw c = false ∧ c ≠ ch '#'

instance (b : Bytes) : Decidable (Escaped b) :=
  inferInstanceAs (Decidable (∀ c ∈ b, raw c = false ∧ c ≠ ch '#'))

theorem escaped_append {b d : Bytes} (left_ : Escaped b) (right_ : Escaped d) : Escaped (b ++ d) := by
  intro c member
  rcases List.mem_append.mp member with before | after
  · exact left_ c before
  · exact right_ c after

theorem escaped_of {b d : Bytes} (inside : ∀ c ∈ b, c ∈ d) (escaped : Escaped d) : Escaped b :=
  fun c member => escaped c (inside c member)

theorem escape_escaped (c : UInt8) : Escaped (escape c) := by
  have all_ : ∀ n < 256, (escape (UInt8.ofNat n)).all (fun c => !raw c && c != ch '#') = true := by
    decide +kernel
  have here := all_ c.toNat c.toNat_lt
  rw [UInt8.ofNat_toNat, List.all_eq_true] at here
  exact fun d member => by simpa using here d member

theorem pathPut_escaped {cap : Nat} {out : Bytes} (escaped : Escaped out) {c : UInt8} (inside : c ≠ ch '#') :
    Escaped (pathPut cap out c) := by
  unfold pathPut
  split
  · split
    · exact escaped_append escaped (escape_escaped c)
    · exact escaped
  · rename_i plain
    split
    · refine escaped_append escaped fun d member => ?_
      rw [List.mem_singleton.mp member]
      exact ⟨Bool.eq_false_iff.mpr plain, inside⟩
    · exact escaped

theorem pathPuts_escaped (cap : Nat) {s : Bytes} (inside : ch '#' ∉ s) {out : Bytes} (escaped : Escaped out) :
    Escaped (s.foldl (pathPut cap) out) := by
  induction s generalizing out with
  | nil => exact escaped
  | cons c s ih =>
      rw [List.mem_cons, not_or] at inside
      exact ih inside.2 (pathPut_escaped escaped (Ne.symm inside.1))

theorem beforeFragment_inside (s : Bytes) : ch '#' ∉ beforeFragment s := by
  intro member
  have stop := List.all_eq_true.mp (List.all_takeWhile (p := (· != ch '#')) (l := s)) _ member
  exact absurd stop (by decide)

theorem slash_escaped : Escaped [ch '/'] := by
  intro c member
  rw [List.mem_singleton.mp member]
  decide

theorem scat_escaped {dst src : Bytes} (cap : Nat) (left_ : Escaped dst) (right_ : Escaped src) :
    Escaped (scat dst src cap) := by
  unfold scat
  split
  · exact escaped_append left_ (escaped_of (fun c member => List.mem_of_mem_take member) right_)
  · exact left_

theorem takeSegment_escaped {k : Kept} {seg : Bytes} (escaped : Escaped k.out) (seg_ : Escaped seg)
    (last : Bool) :
    Escaped (takeSegment k seg last).out := by
  unfold takeSegment
  split
  · exact escaped
  · split
    · cases k.starts with
      | nil => exact escaped
      | cons n starts => exact escaped_of (fun c member => List.mem_of_mem_take member) escaped
    · split
      · exact escaped
      · exact scat_escaped _ escaped (escaped_append slash_escaped seg_)

theorem normalizeLoop_escaped (turns : Nat) {k : Kept} {p : Bytes} (escaped : Escaped k.out)
    (rest : Escaped p) :
    Escaped (normalizeLoop turns k p).out := by
  induction turns generalizing k p with
  | zero => exact escaped
  | succ turns ih =>
      unfold normalizeLoop
      split
      · have tail : Escaped p.tail := escaped_of (fun c member => List.mem_of_mem_tail member) rest
        refine ih (takeSegment_escaped escaped (escaped_of (fun c member => ?_) tail) _)
          (escaped_of (fun c member => ?_) tail)
        · exact (List.takeWhile_prefix _).subset member
        · exact (List.dropWhile_suffix _).subset member
      · exact escaped

theorem normalizePath_escaped {path : Bytes} (escaped : Escaped path) : Escaped (normalizePath path) := by
  unfold normalizePath
  have query : Escaped (scopy (path.dropWhile (· != ch '?')) pathCap) :=
    escaped_of (fun c member => (List.dropWhile_suffix _).subset (List.mem_of_mem_take member)) escaped
  have front : Escaped (path.takeWhile (· != ch '?')) :=
    escaped_of (fun c member => (List.takeWhile_prefix _).subset member) escaped
  have loop := normalizeLoop_escaped (path.takeWhile (· != ch '?')).length
    (k := {}) (fun c member => absurd member List.not_mem_nil) front
  refine scat_escaped _ (escaped_of (fun c member => List.mem_of_mem_take member) ?_) query
  split
  · exact scat_escaped _ loop slash_escaped
  · exact loop

theorem setPath_escaped (u : Url) (s : Bytes) (addSlash : Bool) : Escaped (setPath u s addSlash).path := by
  have start : Escaped (if addSlash then [ch '/'] else []) := by
    cases addSlash with
    | true => exact slash_escaped
    | false => exact fun c member => absurd member List.not_mem_nil
  have put := pathPuts_escaped pathCap (beforeFragment_inside s) start
  unfold setPath
  generalize (beforeFragment s).foldl (pathPut pathCap) (if addSlash then [ch '/'] else []) = path at put ⊢
  dsimp only
  by_cases none_ : path = []
  · rw [if_pos none_]
    exact slash_escaped
  · rw [if_neg none_]
    exact put

theorem parseRest_escaped {s : Bytes} {u v : Url} (parsed : parseRest s u = some v) : Escaped v.path := by
  obtain ⟨r, _, made⟩ := Option.bind_eq_some_iff.mp parsed
  split at made
  · cases made
  · cases made
    rw [normalized_path]
    exact normalizePath_escaped (setPath_escaped _ _ _)

theorem parseAbsolute_escaped {s : Bytes} {v : Url} (parsed : parseAbsolute s = some v) : Escaped v.path := by
  unfold parseAbsolute at parsed
  split at parsed
  · exact parseRest_escaped parsed
  · split at parsed
    · exact parseRest_escaped parsed
    · cases parsed

theorem urlFromInput_escaped {text : Bytes} {v : Url} (parsed : urlFromInput text = some v) :
    Escaped v.path := by
  unfold urlFromInput at parsed
  dsimp only at parsed
  split at parsed
  · cases parsed
  · split at parsed
    · exact parseAbsolute_escaped parsed
    · split at parsed
      · cases parsed
      · split at parsed
        · exact parseAbsolute_escaped parsed
        · exact parseAbsolute_escaped parsed

theorem urlResolve_escaped {base v : Url} {ref : Bytes} (escaped : Escaped base.path)
    (resolved : urlResolve base ref = some v) : Escaped v.path := by
  have front : Escaped (beforeQuery (scopy base.path pathCap)) :=
    escaped_of (fun c member => List.mem_of_mem_take ((List.takeWhile_prefix _).subset member)) escaped
  unfold urlResolve at resolved
  dsimp only at resolved
  split at resolved
  · exact parseAbsolute_escaped resolved
  · split at resolved
    · cases resolved
    · split at resolved
      · exact parseRest_escaped resolved
      · split at resolved
        · cases resolved
          exact escaped
        · split at resolved
          · cases resolved
            rw [normalized_path]
            exact normalizePath_escaped (setPath_escaped _ _ _)
          · split at resolved
            · cases resolved
              dsimp only
              split
              · exact scat_escaped _ front (pathPuts_escaped _ (beforeFragment_inside _)
                  fun c member => absurd member List.not_mem_nil)
              · exact front
            · cases resolved
              dsimp only
              refine normalizePath_escaped (pathPuts_escaped _ (beforeFragment_inside _) ?_)
              unfold directory
              dsimp only
              split
              · refine escaped_of (fun c member => ?_) front
                exact List.mem_reverse.mp ((List.dropWhile_suffix _).subset (List.mem_reverse.mp member))
              · exact slash_escaped

end Escaping

/-! ## Hosts -/

/-- The host in what follows a scheme: the authority, past a user, up to a port, as far as it is kept. -/
def hostPart (rest : Bytes) : Bytes :=
  let authority := rest.takeWhile fun c => !ends c
  let named := (authority.reverse.takeWhile (· != ch '@')).reverse
  (named.takeWhile (· != ch ':')).take (hostCap - 1)

def visit (text : Bytes) (refs : List Bytes) : Option Url :=
  (urlFromInput text).bind fun u => refs.foldlM urlResolve u

section Hosts

theorem istarts_append (p t : Bytes) : istarts (p ++ t) p = true := by
  induction p with
  | nil => cases t <;> rfl
  | cons c p ih =>
      rw [List.cons_append, istarts, ih, beq_self_eq_true]
      rfl

theorem named_hostPart (s : Bytes) :
    scopy (((pastUser s).takeWhile fun c => !(ends c || c == ch ':')).map lower) hostCap =
      (hostPart s).map lower := by
  have authority : ∀ c ∈ ((s.takeWhile fun c => !ends c).reverse.takeWhile (· != ch '@')).reverse,
      (!ends c) = true := by
    intro c member
    have inside := (List.takeWhile_prefix _).subset (List.mem_reverse.mp member)
    exact List.all_eq_true.mp List.all_takeWhile c (List.mem_reverse.mp inside)
  have stop : ∀ c, (s.dropWhile fun c => !ends c).head? = some c → ends c = true := by
    intro c first
    cases rest : s.dropWhile fun c => !ends c with
    | nil =>
        rw [rest] at first
        cases first
    | cons d more =>
        have none_ : (s.dropWhile fun c => !ends c) ≠ [] := by simp [rest]
        have := List.head_dropWhile_not (fun c => !ends c) none_
        simp only [rest, List.head_cons] at this
        rw [rest, List.head?_cons, Option.some.injEq] at first
        rw [← first]
        simpa using this
  unfold scopy hostPart pastUser
  dsimp only
  generalize ((s.takeWhile fun c => !ends c).reverse.takeWhile (· != ch '@')).reverse = named at authority ⊢
  generalize (s.dropWhile fun c => !ends c) = rest at stop ⊢
  have same : ((named ++ rest).takeWhile fun c => !(ends c || c == ch ':')) =
      named.takeWhile (· != ch ':') := by
    induction named with
    | nil =>
        cases rest with
        | nil => rfl
        | cons d more =>
          rw [List.nil_append, List.takeWhile_cons_of_neg (by simp [stop d rfl]), List.takeWhile_nil]
    | cons c named ih =>
        have open_ := authority c (List.mem_cons_self ..)
        rw [Bool.not_eq_true'] at open_
        rw [List.cons_append]
        by_cases colon : c = ch ':'
        · rw [List.takeWhile_cons_of_neg (by simp [colon]), List.takeWhile_cons_of_neg (by simp [colon])]
        · rw [List.takeWhile_cons_of_pos (by simp [open_, colon]),
            List.takeWhile_cons_of_pos (by simp [colon]),
            ih fun c member => authority c (List.mem_cons_of_mem _ member)]
  rw [same, List.map_take]

theorem parseAuthority_host {s : Bytes} {u v : Url} {rest : Bytes}
    (parsed : parseAuthority s u = some (v, rest)) :
    v.host = dropDot ((hostPart s).map lower) := by
  unfold parseAuthority at parsed
  dsimp only at parsed
  rw [named_hostPart] at parsed
  split at parsed
  · obtain ⟨r, _, made⟩ := Option.map_eq_some_iff.mp parsed
    rw [Prod.mk.injEq] at made
    rw [← made.1]
    split <;> rfl
  · cases parsed
    rfl

theorem parseRest_host {s : Bytes} {u v : Url} (parsed : parseRest s u = some v) :
    v.host = dropDot ((hostPart s).map lower) := by
  obtain ⟨⟨named, rest⟩, read, made⟩ := Option.bind_eq_some_iff.mp parsed
  split at made
  · cases made
  · cases made
    exact parseAuthority_host (v := named) read

theorem hostPart_subset (s : Bytes) : ∀ c ∈ hostPart s, c ∈ s := by
  intro c member
  have named := (List.takeWhile_prefix _).subset (List.mem_of_mem_take member)
  have authority := (List.takeWhile_prefix _).subset (List.mem_reverse.mp named)
  exact (List.takeWhile_prefix _).subset (List.mem_reverse.mp authority)

end Hosts

end R2Apps.BrowserUrl
