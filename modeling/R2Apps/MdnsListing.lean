import R2Apps.MdnsBrowser

/-! The text of the list as its reader takes it: the lines between the first and the last, which are those
of the services in order as long as they fit. -/
namespace R2Apps.MdnsListing
open WireBytes MdnsMessages MdnsResponder MdnsBrowser

/-- What a reader gets of a list: its lines but the first and the last. -/
def serviceLines (text : Bytes) : List Bytes :=
  ((text.splitOn 10).drop 1).dropLast.dropLast.map fun line => line ++ [10]

/-- All the lines there are to list: this host's own services, then those found. -/
def listLines (b : Browse) (m : Mdns) : List Bytes :=
  m.services.map (ownLine m) ++ b.services.filterMap (foundLine b)

/-- The first line. -/
def header (seq : Nat) : Bytes := ascii "# mdnsd " ++ num seq ++ [10]

/-- The last line. -/
def trailer (seq lines : Nat) : Bytes := ascii "# end " ++ num seq ++ ascii " " ++ num lines ++ [10]

/-- The lines up to the first that does not fit. -/
def fitted : Nat → List Bytes → List Bytes
  | _, [] => []
  | room, line :: rest => if line.length ≤ room then line :: fitted (room - line.length) rest else []

theorem fitted_all {lines : List Bytes} : ∀ {room : Nat}, lines.flatten.length ≤ room →
    fitted room lines = lines := by
  induction lines with
  | nil => exact fun _ => rfl
  | cons line rest ih =>
      intro room fits
      rw [List.flatten_cons, List.length_append] at fits
      rw [fitted, if_pos (by omega), ih (by omega)]

/-! ## What is written -/

theorem putText_eq (text : Bytes) : ∀ o : Text, o.buf.length ≤ o.cap → putText o text =
    { o with
      buf := o.buf ++ text.take (o.cap - o.buf.length)
      full := o.full || decide (o.cap < o.buf.length + text.length) } := by
  induction text with
  | nil =>
      intro o small
      have fits : ¬o.cap < o.buf.length := Nat.not_lt.mpr small
      simp [putText, fits]
  | cons c rest ih =>
      intro o small
      rw [putText, List.foldl_cons, ← putText]
      by_cases room : o.buf.length < o.cap
      · have longer : put o c = { o with buf := o.buf ++ [c] } := if_pos room
        rw [longer, ih _ (by simp; omega)]
        have left_ : o.cap - o.buf.length = o.cap - (o.buf.length + 1) + 1 := by omega
        have same_ : o.buf.length + 1 + rest.length = o.buf.length + (rest.length + 1) := by omega
        simp [left_, same_]
      · have stuck : put o c = { o with full := true } := if_neg room
        have none_ : o.cap - o.buf.length = 0 := by omega
        have much : o.cap < o.buf.length + (rest.length + 1) := by omega
        rw [stuck, ih { o with full := true } small]
        simp [none_, much]

theorem putText_fits {o : Text} {text : Bytes} (fits : o.buf.length + text.length ≤ o.cap) :
    putText o text = { o with buf := o.buf ++ text } := by
  have small : ¬o.cap < o.buf.length + text.length := Nat.not_lt.mpr fits
  rw [putText_eq text o (by omega), List.take_of_length_le (by omega)]
  simp [small]

theorem putLine_eq {o : Text} (line : Bytes) (more : o.full = false) (small : o.buf.length ≤ o.cap) :
    putLine o line =
      if o.buf.length + line.length ≤ o.cap then ({ o with buf := o.buf ++ line }, 1)
        else ({ o with full := true }, 0) := by
  rw [putLine]
  by_cases fits : o.buf.length + line.length ≤ o.cap
  · rw [if_pos fits, putText_fits fits]
    simp [more]
  · have much : o.cap < o.buf.length + line.length := Nat.not_le.mp fits
    rw [if_neg fits, putText_eq line o small]
    simp [much]

/-- One turn over the lines. -/
def turn (a : Text × Nat) (line : Bytes) : Text × Nat :=
  if a.1.full then a else ((putLine a.1 line).1, a.2 + (putLine a.1 line).2)

theorem putLines_foldl (o : Text) (lines : List Bytes) : putLines o lines = lines.foldl turn (o, 0) := rfl

theorem turns_full {o : Text} (lines : List Bytes) (n : Nat) (full : o.full = true) :
    lines.foldl turn (o, n) = (o, n) := by
  induction lines with
  | nil => rfl
  | cons line rest ih => rw [List.foldl_cons, turn, if_pos full, ih]

theorem turns_eq (lines : List Bytes) : ∀ (o : Text) (n : Nat), o.full = false → o.buf.length ≤ o.cap →
    ∃ full, lines.foldl turn (o, n) =
      ({ o with buf := o.buf ++ (fitted (o.cap - o.buf.length) lines).flatten, full := full },
        n + (fitted (o.cap - o.buf.length) lines).length) := by
  induction lines with
  | nil => exact fun o n more _ => ⟨false, by simp [fitted, ← more]⟩
  | cons line rest ih =>
      intro o n more small
      rw [List.foldl_cons, turn, if_neg (by rw [more]; decide), putLine_eq line more small]
      by_cases fits : o.buf.length + line.length ≤ o.cap
      · have first : line.length ≤ o.cap - o.buf.length := by omega
        obtain ⟨full, whole⟩ :=
          ih { o with buf := o.buf ++ line } (n + 1) more (by rw [List.length_append]; exact fits)
        have left_ : o.cap - (o.buf.length + line.length) = o.cap - o.buf.length - line.length := by omega
        refine ⟨full, ?_⟩
        rw [if_pos fits, fitted, if_pos first]
        dsimp only at whole ⊢
        rw [whole]
        simp only [List.length_append, left_, List.flatten_cons, List.append_assoc,
          List.length_cons, Nat.add_assoc,
          Nat.add_comm 1]
      · have much : ¬line.length ≤ o.cap - o.buf.length := by omega
        refine ⟨true, ?_⟩
        rw [if_neg fits, fitted, if_neg much]
        dsimp only
        rw [turns_full rest _ rfl]
        simp

theorem turns_count (lines : List Bytes) : ∀ (o : Text) (n : Nat),
    lines.foldl turn (o, n) = ((lines.foldl turn (o, 0)).1, n + (lines.foldl turn (o, 0)).2) := by
  induction lines with
  | nil => exact fun o n => rfl
  | cons line rest ih =>
      intro o n
      rw [List.foldl_cons, List.foldl_cons]
      by_cases full : o.full = true
      · simp [turn, full, turns_full rest _ full]
      · simp only [turn, full, Bool.false_eq_true, if_false]
        rw [ih _ (n + _), ih _ (0 + _)]
        simp only [Nat.zero_add, Nat.add_assoc]

theorem digits_length (fuel : Nat) : ∀ v, (digits fuel v).length ≤ fuel := by
  induction fuel with
  | zero => exact fun _ => Nat.le_refl 0
  | succ fuel ih =>
      intro v
      rw [digits]
      split
      · exact Nat.succ_le_succ (Nat.zero_le fuel)
      · exact Nat.succ_le_succ (ih _)

theorem num_length (v : Nat) : (num v).length ≤ 10 := by
  rw [num, List.length_reverse]
  exact digits_length 10 v

theorem header_length (seq : Nat) : (header seq).length ≤ 19 := by
  have number := num_length seq
  have start : (ascii "# mdnsd ").length = 8 := rfl
  rw [header, List.length_append, List.length_append, start, List.length_singleton]
  omega

theorem trailer_length (seq lines : Nat) : (trailer seq lines).length ≤ 28 := by
  have number := num_length seq
  have count := num_length lines
  have start : (ascii "# end ").length = 6 := rfl
  have blank : (ascii " ").length = 1 := rfl
  simp only [trailer, List.length_append, start, blank, List.length_singleton]
  omega

theorem fitted_length (lines : List Bytes) : ∀ room, (fitted room lines).flatten.length ≤ room := by
  induction lines with
  | nil => exact fun room => Nat.zero_le room
  | cons line rest ih =>
      intro room
      rw [fitted]
      split
      · have := ih (room - line.length)
        rw [List.flatten_cons, List.length_append]
        omega
      · exact Nat.zero_le room

/-- How many bytes are left for the lines of services. -/
def roomFor (seq : Nat) : Nat := listSize - trailerRoom - (header seq).length

theorem browseList_eq (b : Browse) (m : Mdns) (seq : Nat) : browseList b m seq =
    header seq ++ (fitted (roomFor seq) (listLines b m)).flatten ++
      trailer seq (fitted (roomFor seq) (listLines b m)).length := by
  have first := header_length seq
  have room : 19 ≤ listSize - trailerRoom := by decide
  have begun : putText { cap := listSize - trailerRoom } (header seq) =
      { buf := header seq, cap := listSize - trailerRoom } := by
    rw [putText_fits]
    · rfl
    · rw [List.length_nil, Nat.zero_add]
      exact Nat.le_trans first room
  obtain ⟨full, whole⟩ := turns_eq (listLines b m) { buf := header seq, cap := listSize - trailerRoom } 0 rfl
    (Nat.le_trans first room)
  rw [Nat.zero_add, ← roomFor] at whole
  have short := fitted_length (listLines b m) (roomFor seq)
  have last := trailer_length seq (fitted (roomFor seq) (listLines b m)).length
  generalize fitted (roomFor seq) (listLines b m) = ls at whole short last ⊢
  rw [listLines, List.foldl_append] at whole
  simp only [browseList, putLines_foldl]
  rw [← header, begun]
  -- this host's own lines, then those found, each counted from none
  generalize (m.services.map (ownLine m)).foldl turn
    ({ buf := header seq, cap := listSize - trailerRoom }, 0) = own
    at whole ⊢
  obtain ⟨o, n⟩ := own
  rw [turns_count] at whole
  obtain ⟨text, count⟩ := Prod.mk.inj whole
  dsimp only at text count ⊢
  rw [text, count, ← trailer, putText_fits]
  dsimp only
  rw [List.length_append]
  simp only [roomFor, listSize, trailerRoom] at short ⊢
  omega

/-! ## What is read -/

theorem splitOn_lines (parts : List Bytes) (plain : ∀ part ∈ parts, 10 ∉ part) :
    ((parts.map fun part => part ++ [10]).flatten).splitOn 10 = parts ++ [[]] := by
  induction parts with
  | nil => rfl
  | cons part rest ih =>
      rw [List.forall_mem_cons] at plain
      rw [List.map_cons, List.flatten_cons, List.append_assoc, List.singleton_append,
        List.splitOn_append_cons_self_of_not_mem plain.1, ih plain.2, List.cons_append]

theorem digits_plain (fuel : Nat) : ∀ v, ∀ c ∈ digits fuel v, 48 ≤ c ∧ c ≤ 57 := by
  induction fuel with
  | zero => rintro v c ⟨⟩
  | succ fuel ih =>
      intro v c member
      rw [digits] at member
      rcases List.mem_cons.mp member with rfl | later
      · have small : v % 10 < 10 := Nat.mod_lt v (by decide)
        generalize v % 10 = d at small
        have all : ∀ d < 10, 48 ≤ UInt8.ofNat (48 + d) ∧ UInt8.ofNat (48 + d) ≤ 57 := by decide
        exact all d small
      · split at later
        · cases later
        · exact ih _ c later

/-- Printable ASCII. -/
def Printable (text : Bytes) : Prop := ∀ c ∈ text, 32 ≤ c ∧ c < 127

theorem printable_nil : Printable [] := by rintro _ ⟨⟩

theorem printable_append {a b : Bytes} (first : Printable a) (second : Printable b) : Printable (a ++ b) :=
  List.forall_mem_append.mpr ⟨first, second⟩

theorem printable_plain {text : Bytes} (printable : Printable text) {c : UInt8} (control : c < 32) :
    c ∉ text := by
  intro member
  exact absurd (printable c member).1 (UInt8.not_le.mpr control)

theorem num_printable (v : Nat) : Printable (num v) := by
  intro c member
  have digit := digits_plain 10 v c (List.mem_reverse.mp member)
  exact ⟨UInt8.le_trans (by decide) digit.1, UInt8.lt_of_le_of_lt digit.2 (by decide)⟩

theorem num_plain (v : Nat) : 10 ∉ num v := printable_plain (num_printable v) (by decide)

theorem labelText_printable (label : Label) : Printable (labelText label) := by
  intro c member
  obtain ⟨d, -, rfl⟩ := List.mem_map.mp member
  by_cases printable : 0x20 ≤ d ∧ d < 0x7f
  · rw [if_pos printable]
    exact printable
  · rw [if_neg printable]
    decide

theorem intercalate_printable {dot : UInt8} (separates : 32 ≤ dot ∧ dot < 127) (parts : List Bytes)
    (printable : ∀ part ∈ parts, Printable part) : Printable (List.intercalate [dot] parts) := by
  induction parts with
  | nil => exact printable_nil
  | cons part rest ih =>
      rw [List.forall_mem_cons] at printable
      cases rest with
      | nil => simpa [List.intercalate] using printable.1
      | cons next later =>
          have tail := ih printable.2
          simp only [List.intercalate, List.intersperse_cons_cons, List.flatten_cons] at tail ⊢
          exact printable_append printable.1 (printable_append (List.forall_mem_singleton.mpr separates) tail)

theorem targetLabels_printable (name : Name) : ∀ p, ∀ part ∈ targetLabels name p, Printable part := by
  induction name with
  | nil => rintro p part ⟨⟩
  | cons label rest ih =>
      intro p part member
      rw [targetLabels] at member
      split at member
      · rcases List.mem_cons.mp member with rfl | later
        · exact labelText_printable label
        · exact ih _ part later
      · cases member

theorem ipText_printable (ip : Bytes) : Printable (ipText ip) := by
  unfold ipText
  split
  · exact printable_nil
  · refine intercalate_printable (by decide) _ ?_
    intro part member
    obtain ⟨v, -, rfl⟩ := List.mem_map.mp member
    exact num_printable v.toNat

/-- Five fields of printable ASCII with tabs between them. -/
structure ListLine (line : Bytes) : Prop where
  fields : ∃ inst type host ip port, line = inst ++ [9] ++ type ++ [9] ++ host ++ [9] ++ ip ++
    [9] ++ port ++ [10] ∧
    Printable inst ∧ Printable type ∧ Printable host ∧ Printable ip ∧ Printable port

theorem lineText_fields (inst type : Label) (udp : Bool) (target : Name) (ip : Bytes) (port : Nat) :
    ListLine (lineText inst type udp target ip port) := by
  have proto : Printable (if udp then ascii "._udp" else ascii "._tcp") := by
    unfold Printable
    cases udp <;> decide +kernel
  have host := intercalate_printable (by decide : 32 ≤ (46 : UInt8) ∧ 46 < 127) _
    (targetLabels_printable target 0)
  refine ⟨_, _, _, _, _, ?_, labelText_printable inst,
    printable_append (labelText_printable type) proto, host,
    ipText_printable ip, num_printable port⟩
  simp only [lineText, List.append_assoc]

theorem ListLine.plain {line : Bytes} (ok : ListLine line) : ∃ plain, line = plain ++ [10] ∧ 10 ∉ plain := by
  obtain ⟨inst, type, host, ip, port, rfl, first, second, third, fourth, fifth⟩ := ok.fields
  refine ⟨_, rfl, ?_⟩
  have tab : (10 : UInt8) ∉ [(9 : UInt8)] := by decide
  have newline : (10 : UInt8) < 32 := by decide
  simp only [List.mem_append, tab, printable_plain first newline, printable_plain second newline,
    printable_plain third newline, printable_plain fourth newline, printable_plain fifth newline,
      or_self, not_false_iff]

theorem listLines_line {b : Browse} {m : Mdns} {line : Bytes} (there : line ∈ listLines b m) :
    ListLine line := by
  rcases List.mem_append.mp there with own | found
  · obtain ⟨s, -, rfl⟩ := List.mem_map.mp own
    exact lineText_fields ..
  · obtain ⟨s, -, is⟩ := List.mem_filterMap.mp found
    unfold foundLine at is
    split at is
    · obtain ⟨ty, -, rfl⟩ := Option.map_eq_some_iff.mp is
      exact lineText_fields ..
    · cases is

theorem fitted_before (lines : List Bytes) : ∀ room, fitted room lines <+: lines := by
  induction lines with
  | nil => exact fun _ => List.prefix_refl _
  | cons line rest ih =>
      intro room
      rw [fitted]
      split
      · exact List.cons_prefix_cons.mpr ⟨rfl, ih _⟩
      · exact List.nil_prefix

theorem plain_lines (ls : List Bytes) (lines : ∀ line ∈ ls, ∃ plain, line = plain ++ [10] ∧ 10 ∉ plain) :
    ∃ parts : List Bytes, ls = parts.map (fun part => part ++ [10]) ∧ ∀ part ∈ parts, 10 ∉ part := by
  induction ls with
  | nil => exact ⟨[], rfl, by rintro _ ⟨⟩⟩
  | cons line rest ih =>
      rw [List.forall_mem_cons] at lines
      obtain ⟨⟨part, rfl, plain⟩, more⟩ := lines
      obtain ⟨parts, rfl, all⟩ := ih more
      exact ⟨part :: parts, rfl, List.forall_mem_cons.mpr ⟨plain, all⟩⟩

theorem browseList_lines (b : Browse) (m : Mdns) (seq : Nat) :
    serviceLines (browseList b m seq) = fitted (roomFor seq) (listLines b m) := by
  rw [browseList_eq]
  have lines : ∀ line ∈ fitted (roomFor seq) (listLines b m), ∃ plain, line = plain ++ [10] ∧ 10 ∉ plain :=
    fun line there => (listLines_line ((fitted_before _ _).subset there)).plain
  generalize fitted (roomFor seq) (listLines b m) = ls at lines
  obtain ⟨parts, rfl, plain⟩ := plain_lines ls lines
  have first : 10 ∉ ascii "# mdnsd " ++ num seq := by
    have start : 10 ∉ ascii "# mdnsd " := by decide
    simp only [List.mem_append, start, num_plain, or_self, not_false_iff]
  have last : ∀ n, 10 ∉ ascii "# end " ++ num seq ++ ascii " " ++ num n := by
    intro n
    have start : 10 ∉ ascii "# end " := by decide
    have blank : 10 ∉ ascii " " := by decide
    simp only [List.mem_append, start, blank, num_plain, or_self, not_false_iff]
  have whole := splitOn_lines ((ascii "# mdnsd " ++ num seq) ::
    (parts ++ [ascii "# end " ++ num seq ++ ascii " " ++
      num (parts.map fun part => part ++ [10]).length])) (by
      rw [List.forall_mem_cons, List.forall_mem_append]
      exact ⟨first, plain, List.forall_mem_singleton.mpr (last _)⟩)
  simp only [List.map_cons, List.map_append, List.map_nil, List.flatten_cons, List.flatten_append,
    List.flatten_nil,
    List.append_nil] at whole
  rw [serviceLines, header, trailer, List.append_assoc, whole]
  simp

end R2Apps.MdnsListing
