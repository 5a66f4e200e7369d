import R2Apps.JugRegistry
import R2Apps.JugText

/-! The registry as a text: what `Registry::serialize` of `jug/lists.cpp` writes,
`Registry::parse` reads back. Memory does not run out. -/
namespace R2Apps.JugRegistryText
open Sha256 JugLists JugModel JugDigest JugStore JugInstall JugText
open NumberParsing (isSpace trim trim_solid parseUint parseUint_reads digitValue Spells Numeral
  value value_snoc
  spelled_solid)

section Code

/-- The record of a line, unless the line is damaged. -/
def recordOfLine (line : Text) : Option Record :=
  let name := word line
  let hex := word name.2
  let size := word hex.2
  let path := trim size.2
  let n := parseUint size.1 0 10
  match Digest.parse hex.1 with
  | none => none
  | some sum =>
      if validName name.1 && n.1 && decide (n.2 ≤ 0xFFFFFFFF) && !path.isEmpty &&
        decide (path.length < pathCap) then
        some ⟨name.1.map lower, sum, n.2, scopy path pathCap⟩
      else none

/-- What one line does to the flag and the records. -/
def readLine (state : Bool × Registry) (line : Text) : Bool × Registry :=
  if line.isEmpty || line.head? == some 35 then state
  else match recordOfLine line with
    | none => (false, state.2)
    | some r => (state.1, Registry.put state.2 r)

def Registry.parse (t : Text) : Bool × Registry := (eachLine t).foldl readLine (true, [])

end Code

/-- The changes a program makes to a registry. -/
inductive Edit where
  | put (r : Record)
  | erase (name : Text)

def Registry.edit (reg : Registry) : Edit → Registry
  | .put r => Registry.put reg r
  | .erase name => Registry.erase reg name

/-- What a directory lists are single components of paths. -/
def Components (media : Media) (scan : Scan) : Prop :=
  ∀ o, ∀ e ∈ listing media scan o, 47 ∉ e.name

/-- The paths that get into records. -/
inductive Located : Text → Prop where
  | download {file name : Text} (named : programName file = some name) : Located (jugPath name)
  | scanned {media : Media} {scan : Scan} {l : Local} (components : Components media scan)
      (listed : l ∈ scanLocal media scan) : Located l.path

/-- The records that jug makes. -/
structure Made (r : Record) : Prop where
  named : ∃ file, programName file = some r.name
  located : Located r.path
  size : r.size < 2 ^ 32

/-- What survives being written and read. -/
structure Writable (r : Record) : Prop where
  valid : validName r.name = true
  small : key r.name = r.name
  size : r.size ≤ 0xFFFFFFFF
  some_ : r.path ≠ []
  fits : r.path.length < pathCap
  solid : ∀ c ∈ r.path, isSpace c = false

section Paths

theorem solid_append {one other : Text} (solid : ∀ c ∈ one, isSpace c = false)
    (solid' : ∀ c ∈ other, isSpace c = false) : ∀ c ∈ one ++ other, isSpace c = false := by
  intro c member
  rcases List.mem_append.mp member with inside | inside
  · exact solid c inside
  · exact solid' c inside

set_option maxRecDepth 100000 in
theorem space_upper : ∀ c, isSpace (upper c) = isSpace c :=
  each_byte (by decide)

structure Path (path : Text) : Prop where
  some_ : path ≠ []
  fits : path.length < pathCap
  solid : ∀ c ∈ path, isSpace c = false

theorem jugPath_path {name : Text} (valid : validName name = true) : Path (jugPath name) := by
  have short := short_name valid
  have size := stem_length name
  have three : (text "ELF").length = 3 := by decide
  have dir : ∀ c ∈ dirPath ++ text "/", isSpace c = false := by decide +kernel
  have ending : ∀ c ∈ text ".", isSpace c = false := by decide +kernel
  have ending' : ∀ c ∈ text "ELF", isSpace c = false := by decide +kernel
  rw [jugPath_eq valid]
  constructor
  · intro nothing
    have none_ := congrArg List.length nothing
    rw [List.length_append, size, List.length_nil] at none_
    omega
  · rw [List.length_append, size, three, pathCap]
    omega
  · apply solid_append _ ending'
    apply solid_append _ ending
    apply solid_append dir
    intro c member
    obtain ⟨small, inside, rfl⟩ := List.mem_map.mp member
    rw [space_upper]
    exact valid_solid valid small inside

theorem pathIn_path (o : Origin) {file name : Text} (component : 47 ∉ file)
    (named : programName file = some name) : Path (pathIn o file) := by
  obtain ⟨base, extension, called, _⟩ := programName_some named
  have whole : lastPart file = withoutVersion file := by
    rw [lastPart, splitLast_none component]
    rfl
  rw [whole] at called
  obtain ⟨some_, short⟩ := called_length called
  have dir : scat (scopy o.dir pathCap) (text "/") pathCap = o.dir ++ text "/" := by
    cases o <;> decide
  have room : (o.dir ++ text "/").length ≤ 13 := by
    cases o <;> decide
  have solid : ∀ c ∈ o.dir ++ text "/", isSpace c = false := by
    cases o <;> decide +kernel
  have fits : (o.dir ++ text "/").length + (withoutVersion file).length < pathCap := by
    rw [pathCap]
    omega
  rw [pathIn, dir, scat_fits fits]
  constructor
  · intro nothing
    exact some_ (List.append_eq_nil_iff.mp nothing).2
  · rw [List.length_append]
    exact fits
  · exact solid_append solid (called_solid called)

theorem scanned_path {media : Media} {scan : Scan} {l : Local} (components : Components media scan)
    (listed : l ∈ scanLocal media scan) : Path l.path := by
  have found := List.mem_of_find?_eq_some (JugTrust.scanLocal_selected listed)
  obtain ⟨o, _, there⟩ := List.mem_flatMap.mp found
  obtain ⟨e, entry, made⟩ := List.mem_filterMap.mp there
  have path := (JugTrust.localAt_origin made).2.1
  rw [localAt] at made
  split at made
  · cases made
  · obtain ⟨name, named, _⟩ := Option.map_eq_some_iff.mp made
    rw [path]
    exact pathIn_path o (components o e entry) named

theorem located_path {path : Text} (located : Located path) : Path path := by
  cases located with
  | download named => exact jugPath_path (programName_valid named).1
  | scanned components listed => exact scanned_path components listed

theorem made_writable {r : Record} (made : Made r) : Writable r := by
  obtain ⟨⟨file, named⟩, located, size⟩ := made
  obtain ⟨valid, small⟩ := programName_valid named
  have path := located_path located
  exact ⟨valid, small, by omega, path.some_, path.fits, path.solid⟩

end Paths

section Numbers

def lowDigit (n : Nat) : UInt8 := UInt8.ofNat (Nat.digitChar n).toNat

theorem lowDigit_value : ∀ n < 10, digitValue (lowDigit n) 10 = some n := by
  decide

theorem decimal_spells (n : Nat) : ∃ digits, Spells 10 (decimal n) digits ∧ value 10 digits = n := by
  induction n using Nat.strong_induction_on with
  | _ n ih =>
      by_cases one : n < 10
      · refine ⟨[n], ⟨List.cons_ne_nil _ _, ?_⟩, by simp [value]⟩
        rw [decimal, Nat.toDigits_of_lt_base one]
        exact congrArg (fun v => [v]) (lowDigit_value n one)
      · obtain ⟨digits, spells, same⟩ := ih (n / 10) (by omega)
        refine ⟨digits ++ [n % 10], ⟨by simp, ?_⟩, ?_⟩
        · rw [decimal, Nat.toDigits_of_base_le (by decide) (Nat.le_of_not_lt one), List.map_append, ← decimal,
            List.map_append, List.map_append, spells.each]
          exact congrArg (fun v => digits.map some ++ [v])
            (lowDigit_value (n % 10) (Nat.mod_lt n (by decide)))
        · rw [value_snoc, same]
          omega

theorem decimal_solid (n : Nat) : ∀ c ∈ decimal n, isSpace c = false := by
  obtain ⟨_, spells, _⟩ := decimal_spells n
  exact spelled_solid spells

theorem decimal_some (n : Nat) : decimal n ≠ [] := by
  obtain ⟨digits, spells, _⟩ := decimal_spells n
  intro nothing
  have each := spells.each
  rw [nothing] at each
  exact spells.some_ (List.map_eq_nil_iff.mp each.symm)

theorem parseUint_decimal (n : Nat) (small : n ≤ 0xFFFFFFFF) : parseUint (decimal n) 0 10 = (true, n) := by
  obtain ⟨digits, spells, same⟩ := decimal_spells n
  have numeral : Numeral 10 (trim (decimal n)) digits := by
    rw [trim_solid (decimal_solid n)]
    exact .plain spells
  rw [parseUint_reads 0 (by decide) (by decide) numeral (by omega), same]

theorem hex_solid (sum : Digest) : ∀ c ∈ hex sum, isSpace c = false := by
  have digits : ∀ b : UInt8, isSpace (hexDigit (b >>> 4)) = false ∧ isSpace (hexDigit (b &&& 15)) = false :=
    each_byte (by decide +kernel)
  intro c member
  obtain ⟨b, _, inside⟩ := List.mem_flatMap.mp member
  rw [List.mem_cons, List.mem_singleton] at inside
  rcases inside with rfl | rfl
  · exact (digits b).1
  · exact (digits b).2

end Numbers

section Lines

/-- A record's line without its end. -/
def lineOf (r : Record) : Text := r.name ++ 32 :: (hex r.sum ++ 32 :: (decimal r.size ++ 32 :: r.path))

theorem serialize_lines (reg : Registry) :
    Registry.serialize reg =
      text "# jug registry: program, SHA-256, size, the file they are of" ++
        10 :: List.flatMap (fun r => lineOf r ++ [10]) reg := by
  have head : text "# jug registry: program, SHA-256, size, the file they are of\n" =
      text "# jug registry: program, SHA-256, size, the file they are of" ++ [10] := by decide
  have blank : text " " = [32] := by decide
  have ending : text "\n" = [10] := by decide
  rw [Registry.serialize, head, blank, ending, List.append_assoc, List.singleton_append]
  simp only [lineOf, List.append_assoc, List.cons_append, List.nil_append]

variable {r : Record}

theorem recordOfLine_lineOf (writable : Writable r) : recordOfLine (lineOf r) = some r := by
  have name : word (lineOf r) = (r.name, 32 :: (hex r.sum ++ 32 :: (decimal r.size ++ 32 :: r.path))) :=
    word_at (valid_some writable.valid) (valid_solid writable.valid) _
  have some_ : hex r.sum ≠ [] := by
    intro nothing
    have full := hex_length r.sum
    rw [nothing] at full
    cases full
  have sum := word_at some_ (hex_solid r.sum) (decimal r.size ++ 32 :: r.path)
  have size := word_at (decimal_some r.size) (decimal_solid r.size) r.path
  have path := trim_next writable.solid
  have checks : (validName r.name && true && decide (r.size ≤ 0xFFFFFFFF) && !r.path.isEmpty &&
      decide (r.path.length < pathCap)) = true := by
    simp [writable.valid, writable.size, writable.some_, writable.fits]
  simp only [recordOfLine, name, word_next, sum, size, path, parse_hex,
    parseUint_decimal _ writable.size, checks,
    if_true, scopy_fits writable.fits]
  rw [← key, writable.small]

theorem lineOf_one (writable : Writable r) : 10 ∉ lineOf r := by
  have ends {t : Text} (solid : ∀ c ∈ t, isSpace c = false) : 10 ∉ t := by
    intro member
    have blank := solid 10 member
    cases blank
  simp only [lineOf, List.mem_append, List.mem_cons, not_or]
  exact ⟨ends (valid_solid writable.valid),
    by decide, ends (hex_solid r.sum), by decide, ends (decimal_solid r.size),
    by decide, ends writable.solid⟩

theorem lineOf_first (writable : Writable r) : ∃ c rest, lineOf r = c :: rest ∧ nameChar c = true := by
  have valid := writable.valid
  simp only [validName, Bool.and_eq_true, List.all_eq_true] at valid
  cases named : r.name with
  | nil =>
      rw [named] at valid
      cases valid.1.1
  | cons c rest =>
      rw [lineOf, named]
      exact ⟨c, _, rfl, valid.2 c (named ▸ List.mem_cons_self)⟩

theorem trim_lineOf (writable : Writable r) : trim (lineOf r) = lineOf r := by
  obtain ⟨c, rest, starts, name⟩ := lineOf_first writable
  apply trim_ends
  · intro c' first
    rw [starts] at first
    cases first
    exact nameChar_solid c name
  · intro c' last_
    have whole : lineOf r = (r.name ++ 32 :: (hex r.sum ++ 32 :: (decimal r.size ++ [32]))) ++ r.path := by
      simp [lineOf]
    rw [whole, List.getLast?_append_of_ne_nil _ writable.some_] at last_
    exact writable.solid c' (List.mem_of_getLast? last_)

end Lines

section Edits
variable {reg : Registry}

/-- The records can be written, and no two are of one program. -/
structure Sound (reg : Registry) : Prop where
  writable : ∀ r ∈ reg, Writable r
  distinct : (reg.map fun r => key r.name).Nodup

theorem put_names (reg : Registry) (r : Record) :
    (Registry.put reg r).map (fun x => key x.name) =
      if key r.name ∈ reg.map (fun x => key x.name) then reg.map fun x => key x.name
      else reg.map (fun x => key x.name) ++ [key r.name] := by
  induction reg with
  | nil => rfl
  | cons x rest ih =>
      rw [JugRegistry.put_cons]
      simp only [List.map_cons, List.mem_cons]
      by_cases hit : key x.name = key r.name
      · rw [if_pos (ieq_iff.mpr hit), List.map_cons, if_pos (Or.inl hit.symm), hit]
      · have other : ¬key r.name = key x.name := fun same => hit same.symm
        rw [if_neg fun same => hit (ieq_iff.mp same), List.map_cons, ih]
        simp only [other, false_or]
        split <;> rfl

theorem put_sound (sound : Sound reg) {r : Record} (writable : Writable r) : Sound (Registry.put reg r) := by
  constructor
  · intro x member
    rcases JugTrust.mem_put member with old | rfl
    · exact sound.writable x old
    · exact writable
  · rw [put_names]
    split
    · exact sound.distinct
    · next fresh =>
        rw [List.nodup_append]
        refine ⟨sound.distinct, by simp, ?_⟩
        intro a member b last_ same
        rw [List.mem_singleton.mp last_] at same
        exact fresh (same ▸ member)

theorem edit_sound (sound : Sound reg) (e : Edit) (made : ∀ r, e = .put r → Made r) :
    Sound (Registry.edit reg e) := by
  cases e with
  | put r => exact put_sound sound (made_writable (made r rfl))
  | erase name =>
      constructor
      · exact fun r member => sound.writable r (JugTrust.mem_erase member)
      · exact sound.distinct.sublist (List.eraseP_sublist.map _)

theorem edits_sound (sound : Sound reg) (edits : List Edit) (made : ∀ r, .put r ∈ edits → Made r) :
    Sound (edits.foldl Registry.edit reg) := by
  induction edits generalizing reg with
  | nil => exact sound
  | cons e rest ih =>
      apply ih
      · exact edit_sound sound e fun r same => made r (same ▸ List.mem_cons_self)
      · exact fun r member => made r (List.mem_cons_of_mem e member)

theorem put_fresh {r : Record} (fresh : key r.name ∉ reg.map fun x => key x.name) :
    Registry.put reg r = reg ++ [r] := by
  induction reg with
  | nil => rfl
  | cons x rest ih =>
      rw [List.map_cons, List.mem_cons, not_or] at fresh
      rw [JugRegistry.put_cons, if_neg fun same =>
        fresh.1 (ieq_iff.mp same).symm, ih fresh.2, List.cons_append]

theorem readLine_lineOf {r : Record} (writable : Writable r) (state : Bool × Registry) :
    readLine state (lineOf r) = (state.1, Registry.put state.2 r) := by
  obtain ⟨c, rest, starts, name⟩ := lineOf_first writable
  have plain : ((lineOf r).isEmpty || (lineOf r).head? == some 35) = false := by
    rw [starts, List.isEmpty_cons, List.head?_cons, Bool.false_or, beq_eq_false_iff_ne]
    rintro same
    cases same
    cases name
  rw [readLine, plain, recordOfLine_lineOf writable]
  rfl

theorem readLines (rest : Registry) (good : Bool) (sound : Sound (reg ++ rest)) :
    (eachLine (rest.flatMap fun r => lineOf r ++ [10])).foldl readLine (good, reg) = (good, reg ++ rest) := by
  induction rest generalizing reg with
  | nil => rw [List.flatMap_nil, List.append_nil]; rfl
  | cons r rest ih =>
      have writable := sound.writable r (by simp)
      have fresh : key r.name ∉ reg.map fun x => key x.name := by
        have distinct := sound.distinct
        rw [List.map_append, List.nodup_append] at distinct
        exact fun member => distinct.2.2 _ member _ List.mem_cons_self rfl
      rw [List.flatMap_cons, List.append_assoc, List.singleton_append, eachLine_cons (lineOf_one writable),
        trim_lineOf writable, List.foldl_cons, readLine_lineOf writable, put_fresh fresh, ih]
      · rw [List.append_assoc, List.singleton_append]
      · rw [List.append_assoc, List.singleton_append]
        exact sound

theorem parse_serialize (sound : Sound reg) : Registry.parse (Registry.serialize reg) = (true, reg) := by
  have header : 10 ∉ text "# jug registry: program, SHA-256, size, the file they are of" := by decide
  have comment (state : Bool × Registry) :
      readLine state (trim (text "# jug registry: program, SHA-256, size, the file they are of")) =
        state := by
    have skipped : ((trim (text "# jug registry: program, SHA-256, size, the file they are of")).isEmpty ||
        (trim (text "# jug registry: program, SHA-256, size, the file they are of")).head? == some 35) =
          true := by
      decide
    rw [readLine, if_pos skipped]
  rw [Registry.parse, serialize_lines, eachLine_cons header, List.foldl_cons, comment]
  exact readLines reg true sound

end Edits

/-- However a registry came about, its records are of different programs, and its
text is read back as the same records in the same order. -/
theorem registry_round_trip (edits : List Edit) (made : ∀ r, .put r ∈ edits → Made r) :
    (edits.foldl Registry.edit []).Pairwise (fun a b => ieq a.name b.name = false) ∧
      Registry.parse (Registry.serialize (edits.foldl Registry.edit [])) =
        (true, edits.foldl Registry.edit []) := by
  have sound : Sound (edits.foldl Registry.edit []) :=
    edits_sound ⟨fun _ none_ => absurd none_ List.not_mem_nil, List.nodup_nil⟩ edits made
  refine ⟨?_, parse_serialize sound⟩
  refine (List.pairwise_map.mp sound.distinct).imp ?_
  intro a b apart
  exact Bool.eq_false_iff.mpr fun same => apart (ieq_iff.mp same)

def shell : List DirEntry := [⟨text "SH.ELF;1", false, 78968⟩]

/-- A shipped program and a download; the shipped one is erased and put again. -/
def someEdits : List Edit :=
  [.put ⟨text "sh", JugModel.noDigest, 78968, text "/mnt/iso/bin/SH.ELF"⟩,
    .put ⟨text "tnt", JugModel.noDigest, 4294967295, text "/mnt/tmp/jug/TNT.ELF"⟩,
    .erase (text "SH"),
    .put ⟨text "sh", JugModel.noDigest, 0, text "/mnt/iso/bin/SH.ELF"⟩]

theorem some_edits_round_trip :
    ((someEdits.foldl Registry.edit []).Pairwise (fun a b => ieq a.name b.name = false) ∧
      Registry.parse (Registry.serialize (someEdits.foldl Registry.edit [])) =
        (true, someEdits.foldl Registry.edit [])) ∧ (someEdits.foldl Registry.edit []).length = 2 := by
  have shipped : Located (text "/mnt/iso/bin/SH.ELF") := by
    have listed : (⟨text "sh", .iso, text "/mnt/iso/bin/SH.ELF", 78968⟩ : Local) ∈
        scanLocal ⟨[], shell, fun _ => none⟩ ⟨none, false, true⟩ := by
      have found : candidates ⟨[], shell, fun _ => none⟩ ⟨none, false, true⟩ =
          [⟨text "sh", .iso, text "/mnt/iso/bin/SH.ELF", 78968⟩] := by decide
      rw [scanLocal, found]
      simp [keepFirst]
    refine .scanned ?_ listed
    intro o e member
    cases o with
    | jug => cases member
    | tar => cases member
    | iso =>
        rw [List.mem_singleton.mp member]
        decide
  have loaded : Located (text "/mnt/tmp/jug/TNT.ELF") := by
    have path : text "/mnt/tmp/jug/TNT.ELF" = jugPath (text "tnt") := by decide
    have named : programName (text "tnt.elf") = some (text "tnt") := by decide
    rw [path]
    exact .download named
  have sh : ∃ file, programName file = some (text "sh") := ⟨text "SH.ELF;1", by decide⟩
  have tnt : ∃ file, programName file = some (text "tnt") := ⟨text "tnt.elf", by decide⟩
  refine ⟨registry_round_trip someEdits ?_, by decide⟩
  intro r member
  simp only [someEdits, List.mem_cons, Edit.put.injEq, reduceCtorEq, List.not_mem_nil, or_false,
    false_or] at member
  rcases member with rfl | rfl | rfl
  · exact ⟨sh, shipped, by decide⟩
  · exact ⟨tnt, loaded, by decide⟩
  · exact ⟨sh, shipped, by decide⟩

end R2Apps.JugRegistryText
