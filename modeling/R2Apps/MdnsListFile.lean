import R2Apps.MdnsCache
import R2Apps.MdnsListing

/-! The list as the file that is written: all the bytes of the buffer, with the zeros behind the text
where a line has been wiped out again. -/
namespace R2Apps.MdnsListFile
open WireBytes MdnsMessages MdnsResponder MdnsBrowser MdnsCache MdnsListing

/-- `Text_T` with its buffer, written in place. -/
structure Page where
  bytes : Bytes
  len : Nat := 0
  cap : Nat
  full : Bool := false

def Page.put (o : Page) (c : UInt8) : Page :=
  if o.len < o.cap then { o with bytes := o.bytes.set o.len c, len := o.len + 1 } else { o with full := true }

def Page.putText (o : Page) (text : Bytes) : Page := text.foldl Page.put o

def zero (bytes : Bytes) (start n : Nat) : Bytes :=
  bytes.take start ++ List.replicate n 0 ++ bytes.drop (start + n)

def Page.putLine (o : Page) (line : Bytes) : Page × Nat :=
  let o' := o.putText line
  if o'.full then ({ o' with bytes := zero o'.bytes o.len (o'.len - o.len), len := o.len }, 0) else (o', 1)

def Page.putLines (o : Page) (lines : List Bytes) : Page × Nat :=
  lines.foldl (fun (o, n) line => if o.full then (o, n) else let (o, k) := o.putLine line; (o, n + k)) (o, 0)

/-- The buffer and the length that `browse_list` returns. -/
def browseListFile (b : Browse) (m : Mdns) (seq : Nat) : Bytes × Nat :=
  let o : Page := { bytes := List.replicate listSize 0, cap := listSize - trailerRoom }
  let o := o.putText (ascii "# mdnsd " ++ num seq ++ [10])
  let (o, lines) := o.putLines (m.services.map (ownLine m))
  let (o, more) := o.putLines (b.services.filterMap (foundLine b))
  let o := { o with cap := listSize - 1, full := false }.putText
    (ascii "# end " ++ num seq ++ ascii " " ++ num (lines + more) ++ [10])
  (o.bytes, o.len)

/-! ## The page holds the text and zeros -/

structure Holds (o : Page) (t : Text) : Prop where
  bytes : o.bytes = t.buf ++ List.replicate (listSize - t.buf.length) 0
  len : o.len = t.buf.length
  cap : o.cap = t.cap
  full : o.full = t.full
  inside : t.cap ≤ listSize
  short : t.buf.length ≤ t.cap

section Holds
variable {o : Page} {t : Text}

theorem put_holds (holds : Holds o t) (c : UInt8) : Holds (o.put c) (put t c) := by
  have inside := holds.inside
  unfold Page.put put
  by_cases room : t.buf.length < t.cap
  · have room' : o.len < o.cap := by rw [holds.len, holds.cap]; exact room
    have left_ : listSize - t.buf.length = listSize - (t.buf.length + 1) + 1 := by omega
    rw [if_pos room, if_pos room']
    refine ⟨?_, ?_, holds.cap, holds.full, inside, ?_⟩
    · dsimp only
      rw [holds.bytes, holds.len, List.set_append_right _ _ (Nat.le_refl _), Nat.sub_self, left_,
        List.replicate_succ,
        List.set_cons_zero, List.length_append, List.length_singleton, List.append_assoc,
          List.singleton_append]
    · rw [List.length_append, List.length_singleton, holds.len]
    · rw [List.length_append, List.length_singleton]
      exact room
  · have room' : ¬o.len < o.cap := by rw [holds.len, holds.cap]; exact room
    rw [if_neg room, if_neg room']
    exact ⟨holds.bytes, holds.len, holds.cap, rfl, inside, holds.short⟩

theorem putText_holds (text : Bytes) : ∀ {o : Page} {t : Text}, Holds o t →
    Holds (o.putText text) (putText t text) := by
  induction text with
  | nil => exact fun holds => holds
  | cons c rest ih => exact fun holds => ih (put_holds holds c)

theorem zero_behind (text more : Bytes) (n : Nat) (behind : text <+: more) :
    zero (more ++ List.replicate n 0) text.length (more.length - text.length) =
      text ++ List.replicate (more.length - text.length + n) 0 := by
  obtain ⟨rest, rfl⟩ := behind
  rw [List.length_append, Nat.add_sub_cancel_left, zero, ← List.length_append, List.drop_left,
    List.append_assoc text,
    List.take_left, List.append_assoc, ← List.replicate_add]

theorem putText_behind (text : Bytes) : ∀ t : Text, t.buf <+: (putText t text).buf := by
  induction text with
  | nil => exact fun t => List.prefix_refl _
  | cons c rest ih =>
      intro t
      have step : t.buf <+: (put t c).buf := by
        unfold put
        split
        · exact List.prefix_append _ _
        · exact List.prefix_refl _
      exact step.trans (ih (put t c))

theorem putLine_holds (holds : Holds o t) (line : Bytes) :
    Holds (o.putLine line).1 (putLine t line).1 ∧ (o.putLine line).2 = (putLine t line).2 := by
  have written := putText_holds line holds
  have behind := putText_behind line t
  simp only [Page.putLine, putLine]
  by_cases full : (putText t line).full = true
  · rw [if_pos full, if_pos (written.full.trans full)]
    have start : (putText t line).buf.take t.buf.length = t.buf := (List.prefix_iff_eq_take.mp behind).symm
    refine ⟨⟨?_, ?_, written.cap, ?_, written.inside, ?_⟩, rfl⟩
    · dsimp only
      have longer := behind.length_le
      have bound := Nat.le_trans written.short written.inside
      rw [start, holds.len, written.len, written.bytes, zero_behind _ _ _ behind]
      congr 2
      omega
    · rw [start]
      exact holds.len
    · exact written.full
    · rw [start]
      exact Nat.le_trans behind.length_le written.short
  · have room : ¬(o.putText line).full = true := fun is => full (written.full.symm.trans is)
    rw [if_neg full, if_neg room]
    exact ⟨written, rfl⟩

/-- One turn over the lines, in the page. -/
def Page.turn (a : Page × Nat) (line : Bytes) : Page × Nat :=
  if a.1.full then a else ((a.1.putLine line).1, a.2 + (a.1.putLine line).2)

theorem putLines_holds (holds : Holds o t) (lines : List Bytes) :
    Holds (o.putLines lines).1 (putLines t lines).1 ∧ (o.putLines lines).2 = (putLines t lines).2 := by
  have run : ∀ (lines : List Bytes) (p : Page × Nat) (a : Text × Nat), Holds p.1 a.1 ∧ p.2 = a.2 →
      Holds (lines.foldl Page.turn p).1 (lines.foldl turn a).1 ∧
        (lines.foldl Page.turn p).2 = (lines.foldl turn a).2 := by
    intro lines
    induction lines with
    | nil => exact fun _ _ alike => alike
    | cons line rest ih =>
        intro p a alike
        apply ih
        by_cases full : a.1.full = true
        · rw [turn, if_pos full, Page.turn, if_pos (alike.1.full.trans full)]
          exact alike
        · have room : ¬p.1.full = true := fun is => full (alike.1.full.symm.trans is)
          obtain ⟨kept, count⟩ := putLine_holds alike.1 line
          rw [turn, if_neg full, Page.turn, if_neg room]
          exact ⟨kept, by rw [alike.2, count]⟩
  exact run lines (o, 0) (t, 0) ⟨holds, rfl⟩

end Holds

section Cap

theorem putText_cap (text : Bytes) : ∀ t : Text, (putText t text).cap = t.cap := by
  induction text with
  | nil => exact fun _ => rfl
  | cons c rest ih =>
      intro t
      have step : (put t c).cap = t.cap := by
        unfold put
        split <;> rfl
      exact (ih (put t c)).trans step

theorem putLine_cap (t : Text) (line : Bytes) : (putLine t line).1.cap = t.cap := by
  simp only [putLine]
  split <;> exact putText_cap line t

theorem putLines_cap (t : Text) (lines : List Bytes) : (putLines t lines).1.cap = t.cap := by
  have run : ∀ (lines : List Bytes) (a : Text × Nat), (lines.foldl turn a).1.cap = a.1.cap := by
    intro lines
    induction lines with
    | nil => exact fun _ => rfl
    | cons line rest ih =>
        intro a
        have step : (turn a line).1.cap = a.1.cap := by
          unfold turn
          split
          · rfl
          · exact putLine_cap a.1 line
        exact (ih (turn a line)).trans step
  exact run lines (t, 0)

end Cap

theorem browseListFile_eq (b : Browse) (m : Mdns) (seq : Nat) : browseListFile b m seq =
    (browseList b m seq ++ List.replicate (listSize - (browseList b m seq).length) 0,
      (browseList b m seq).length) := by
  have empty_ : Holds { bytes := List.replicate listSize 0, cap := listSize - trailerRoom }
      { cap := listSize - trailerRoom } := by
    refine ⟨?_, rfl, rfl, rfl, Nat.sub_le _ _, Nat.zero_le _⟩
    rw [List.length_nil, Nat.sub_zero, List.nil_append]
  have begun := putText_holds (ascii "# mdnsd " ++ num seq ++ [10]) empty_
  obtain ⟨own, lines⟩ := putLines_holds begun (m.services.map (ownLine m))
  obtain ⟨found, more⟩ := putLines_holds own (b.services.filterMap (foundLine b))
  -- the trailer has room of its own
  have reopened : ∀ {o : Page} {t : Text}, Holds o t → t.cap = listSize - trailerRoom →
      Holds { o with cap := listSize - 1, full := false } { t with cap := listSize - 1, full := false } := by
    intro o t holds cap
    have short := holds.short
    rw [cap] at short
    exact ⟨holds.bytes, holds.len, rfl, rfl, Nat.sub_le _ _,
      Nat.le_trans short (by decide : listSize - trailerRoom ≤ listSize - 1)⟩
  have kept := reopened found (by rw [putLines_cap, putLines_cap, putText_cap])
  have last := putText_holds (ascii "# end " ++ num seq ++ ascii " " ++ num
    ((putLines (putText { cap := listSize - trailerRoom } (ascii "# mdnsd " ++ num seq ++ [10]))
      (m.services.map (ownLine m))).2 +
    (putLines (putLines (putText { cap := listSize - trailerRoom } (ascii "# mdnsd " ++ num seq ++ [10]))
      (m.services.map (ownLine m))).1 (b.services.filterMap (foundLine b))).2) ++ [10]) kept
  refine Prod.ext ?_ ?_
  · simp only [browseListFile, browseList]
    rw [lines, more]
    exact last.bytes
  · simp only [browseListFile, browseList]
    rw [lines, more]
    exact last.len

/-! ## The text -/

/-- A number as it is printed. -/
def decimal (v : Nat) : Bytes := ascii (Nat.repr v)

theorem digit_char : ∀ d < 10, UInt8.ofNat (48 + d) = UInt8.ofNat (Nat.digitChar d).toNat := by decide

theorem digits_decimal (fuel : Nat) : ∀ v, v < 10 ^ (fuel + 1) →
    (digits (fuel + 1) v).reverse = (Nat.toDigits 10 v).map fun c => UInt8.ofNat c.toNat := by
  induction fuel with
  | zero =>
      intro v small
      have digit : v < 10 := small
      rw [Nat.toDigits_of_lt_base digit, digits, if_pos (Nat.div_eq_of_lt digit), Nat.mod_eq_of_lt digit]
      exact congrArg (fun c => [c]) (digit_char v digit)
  | succ fuel ih =>
      intro v small
      have last := digit_char (v % 10) (Nat.mod_lt v (by decide))
      rw [digits]
      by_cases one : v < 10
      · rw [Nat.toDigits_of_lt_base one, if_pos (Nat.div_eq_of_lt one), Nat.mod_eq_of_lt one]
        exact congrArg (fun c => [c]) (digit_char v one)
      · have more : v / 10 ≠ 0 := by omega
        rw [if_neg more, List.reverse_cons, ih (v / 10) (by rw [Nat.pow_succ] at small; omega),
          Nat.toDigits_of_base_le (by decide) (Nat.not_lt.mp one), List.map_append, last]
        rfl

theorem num_decimal {v : Nat} (small : v < 10 ^ 10) : num v = decimal v := by
  rw [num, digits_decimal 9 v small, decimal, ascii, Nat.toList_repr]

/-- The first line, the first `k` lines of services, and the last line. -/
def listText (b : Browse) (m : Mdns) (seq k : Nat) : Bytes :=
  (ascii "# mdnsd " ++ decimal seq ++ [10]) ++ ((listLines b m).take k).flatten ++
    (ascii "# end " ++ decimal seq ++ ascii " " ++ decimal k ++ [10])

/-- What is asked of the file: its text and the zeros behind it, and of its lines that each is
well formed, that the next one would not have fitted, and that a sound cache has one for each
service that is resolved. -/
structure ListFile (b : Browse) (m : Mdns) (seq k : Nat) : Prop where
  lines : k ≤ (listLines b m).length
  bytes : (browseListFile b m seq).1 = listText b m seq k ++
    List.replicate (listSize - (listText b m seq k).length) 0
  returned : (browseListFile b m seq).2 = (listText b m seq k).length
  short : (listText b m seq k).length ≤ listSize - 1
  fields : ∀ line ∈ (listLines b m).take k, ListLine line
  next : ∀ line, (listLines b m)[k]? = some line →
    listSize - trailerRoom < (ascii "# mdnsd " ++ decimal seq ++ [10]).length +
      ((listLines b m).take k).flatten.length + line.length
  found : Sound b → (b.services.filterMap (foundLine b)).length = (b.services.filter listed).length

theorem found_resolved {b : Browse} (sound : Sound b) :
    (b.services.filterMap (foundLine b)).length = (b.services.filter listed).length := by
  have known : ∀ s ∈ b.services, s.type < b.types.length := fun s there => (sound.services s there).type
  generalize b.services = services at known
  induction services with
  | nil => rfl
  | cons s rest ih =>
      rw [List.forall_mem_cons] at known
      have more := ih known.2
      by_cases resolved : listed s = true
      · have type : b.types[s.type]? = some b.types[s.type] := List.getElem?_eq_getElem known.1
        simp [foundLine, resolved, type, more]
      · simp [foundLine, resolved, more]

theorem fitted_take (lines : List Bytes) : ∀ room, ∃ k ≤ lines.length, fitted room lines = lines.take k ∧
    ∀ line, lines[k]? = some line → room < (lines.take k).flatten.length + line.length := by
  induction lines with
  | nil => exact fun room => ⟨0, Nat.le_refl 0, rfl, fun _ none_ => by simp at none_⟩
  | cons first rest ih =>
      intro room
      rw [fitted]
      by_cases fits : first.length ≤ room
      · obtain ⟨k, few, same, next⟩ := ih (room - first.length)
        refine ⟨k + 1, Nat.succ_le_succ few, ?_, ?_⟩
        · rw [if_pos fits, same, List.take_succ_cons]
        · intro line there
          have over_ := next line there
          rw [List.take_succ_cons, List.flatten_cons, List.length_append]
          omega
      · refine ⟨0, Nat.zero_le _, if_neg fits, ?_⟩
        intro line there
        cases there
        simpa using Nat.not_le.mp fits

theorem lines_fewer (lines : List Bytes) (some_ : ∀ line ∈ lines, ListLine line) :
    lines.length ≤ lines.flatten.length := by
  induction lines with
  | nil => exact Nat.le_refl 0
  | cons line rest ih =>
      rw [List.forall_mem_cons] at some_
      obtain ⟨plain, rfl, -⟩ := some_.1.plain
      have := ih some_.2
      simp only [List.flatten_cons, List.length_append, List.length_cons, List.length_nil]
      omega

/-- Every list is whole: for any cache, any responder and any number. -/
theorem list_file_whole (b : Browse) (m : Mdns) (seq : UInt32) : ∃ k, ListFile b m seq.toNat k := by
  obtain ⟨k, few, same, next⟩ := fitted_take (listLines b m) (roomFor seq.toNat)
  have fields : ∀ line ∈ (listLines b m).take k, ListLine line :=
    fun line there => listLines_line (List.mem_of_mem_take there)
  have room := fitted_length (listLines b m) (roomFor seq.toNat)
  have first := header_length seq.toNat
  have count := lines_fewer _ fields
  rw [same] at room
  have length : ((listLines b m).take k).length = k := List.length_take_of_le few
  have number : num seq.toNat = decimal seq.toNat := num_decimal (Nat.lt_trans seq.toNat_lt (by decide))
  have number' : num k = decimal k := by
    apply num_decimal
    simp only [roomFor, listSize, trailerRoom] at room
    omega
  have text : browseList b m seq.toNat = listText b m seq.toNat k := by
    rw [browseList_eq, same, length, header, trailer, number, number', listText]
  have last := trailer_length seq.toNat k
  rw [trailer, number, number'] at last
  rw [header, number] at first
  have short : (listText b m seq.toNat k).length ≤ listSize - 1 := by
    rw [listText, List.length_append, List.length_append]
    simp only [roomFor, header, number, listSize, trailerRoom] at room ⊢
    omega
  refine ⟨k, few, ?_, ?_, short, fields, ?_, found_resolved⟩
  · rw [browseListFile_eq, text]
  · rw [browseListFile_eq, text]
  · intro line there
    have over_ := next line there
    rw [roomFor, header, number] at over_
    omega

end R2Apps.MdnsListFile
