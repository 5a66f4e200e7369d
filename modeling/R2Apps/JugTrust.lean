import Mathlib.Data.List.Induction
import R2Apps.JugModel

/-! A row is current only if the local copy has the server's sum. A sum is taken
from a copy that was read, or from a record of a copy on the boot medium, which
does not change: a record that any jug saved says what reading the medium gives. -/
namespace R2Apps.JugTrust
open Sha256 JugLists JugStore JugInstall JugModel

/-! Scanning. -/

/-- The copy the search finds for a name: the first in the order of the directories. -/
def selected (media : Media) (scan : Scan) (name : Text) : Option Local :=
  (candidates media scan).find? fun l => l.name == name

theorem keepFirst_first (found : List Local) {out : List Local} {l : Local}
    (member : l ∈ found.foldl keepFirst out) :
    l ∈ out ∨ (∀ o ∈ out, o.name ≠ l.name) ∧ found.find? (fun o => o.name == l.name) = some l := by
  induction found generalizing out with
  | nil => exact Or.inl member
  | cons x rest ih =>
      rw [List.foldl_cons] at member
      by_cases seen : (out.any fun o => o.name == x.name) = true
      · have same : keepFirst out x = out := by simp only [keepFirst, seen, if_true]
        rw [same] at member
        rcases ih member with old | ⟨fresh, first⟩
        · exact Or.inl old
        · refine Or.inr ⟨fresh, ?_⟩
          obtain ⟨o, inside, named⟩ := List.any_eq_true.mp seen
          have other : x.name ≠ l.name := fun hit => fresh o inside ((beq_iff_eq.mp named).trans hit)
          rw [List.find?_cons_of_neg (by simpa using other)]
          exact first
      · have longer : keepFirst out x = out ++ [x] := by simp only [keepFirst, seen]; rfl
        rw [longer] at member
        have unseen : ∀ o ∈ out, o.name ≠ x.name := by
          intro o inside same
          exact seen (List.any_eq_true.mpr ⟨o, inside, beq_iff_eq.mpr same⟩)
        rcases ih member with old | ⟨fresh, first⟩
        · rcases List.mem_append.mp old with old | last
          · exact Or.inl old
          · cases List.mem_singleton.mp last
            exact Or.inr ⟨unseen, List.find?_cons_of_pos (by simp)⟩
        · refine Or.inr ⟨fun o inside => fresh o (List.mem_append_left _ inside), ?_⟩
          have other : x.name ≠ l.name := fresh x (List.mem_append_right _ (List.mem_singleton.mpr rfl))
          rw [List.find?_cons_of_neg (by simpa using other)]
          exact first

theorem scanLocal_selected {media : Media} {scan : Scan} {l : Local}
    (member : l ∈ scanLocal media scan) : selected media scan l.name = some l := by
  rcases keepFirst_first _ (List.mem_mergeSort.mp member) with none_ | ⟨_, first⟩
  · exact absurd none_ List.not_mem_nil
  · exact first

/-- The copy of a name in a directory of the boot medium. -/
def shipped (media : Media) (o : Origin) (name : Text) : Option Local :=
  ((listing media ⟨none, true, true⟩ o).filterMap (localAt o)).find? fun l => l.name == name

theorem localAt_origin {o : Origin} {e : DirEntry} {l : Local} (there : localAt o e = some l) :
    l.origin = o ∧ l.path = pathIn o e.name ∧ key l.name = l.name := by
  simp only [localAt] at there
  split at there
  · exact absurd there (by simp)
  · obtain ⟨name, named, same⟩ := Option.map_eq_some_iff.mp there
    subst same
    refine ⟨rfl, rfl, ?_⟩
    simp only [programName] at named
    split at named
    · exact absurd named (by simp)
    · split at named
      · rw [← Option.some.inj named]
        exact key_key _
      · exact absurd named (by simp)

theorem found_origin {entries : List DirEntry} {o : Origin} {name : Text} {l : Local}
    (found : (entries.filterMap (localAt o)).find? (fun k => k.name == name) = some l) :
    l.origin = o := by
  obtain ⟨e, _, there⟩ := List.mem_filterMap.mp (List.mem_of_find?_eq_some found)
  exact (localAt_origin there).1

theorem selected_shipped {media : Media} {scan : Scan} {name : Text} {l : Local}
    (found : selected media scan name = some l) (medium : l.origin ≠ .jug) :
    shipped media l.origin name = some l := by
  simp only [selected, candidates, searchOrder, List.flatMap_cons, List.flatMap_nil, List.append_nil,
    List.find?_append, Option.or_eq_some_iff] at found
  rcases found with jug | ⟨_, tar | ⟨_, iso⟩⟩
  · exact absurd (found_origin jug) medium
  · have from_ := found_origin tar
    cases there : scan.tar with
    | false => simp [listing, there] at tar
    | true =>
        rw [from_]
        simpa [shipped, listing, there] using tar
  · have from_ := found_origin iso
    cases there : scan.iso with
    | false => simp [listing, there] at iso
    | true =>
        rw [from_]
        simpa [shipped, listing, there] using iso

/-! Records. -/

/-- The path lies in the directory. -/
def InDir (o : Origin) (path : Text) : Prop := ∃ file, path = o.dir ++ text "/" ++ file

theorem pathIn_inDir (o : Origin) (file : Text) : InDir o (pathIn o file) := by
  have base : scat (scopy o.dir pathCap) (text "/") pathCap = o.dir ++ text "/" := by
    cases o <;> decide
  have room : (o.dir ++ text "/").length < pathCap := by
    cases o <;> decide
  exact ⟨_, by rw [pathIn, base, scat, if_pos room]⟩

theorem jugPath_inDir {name : Text} (valid : validName name = true) : InDir .jug (jugPath name) := by
  refine ⟨name.map upper ++ text "." ++ text "ELF", ?_⟩
  rw [jugPath_eq valid, stem]
  simp only [Origin.dir, List.append_assoc]

theorem inDir_unique {o o' : Origin} {path path' : Text} (one : InDir o path) (other : InDir o' path')
    (same : key path = key path') : o = o' := by
  obtain ⟨file, rfl⟩ := one
  obtain ⟨file', rfl⟩ := other
  have length (k : Origin) : (key (k.dir ++ text "/")).length = 13 := by
    cases k <;> decide
  have heads : key (o.dir ++ text "/") = key (o'.dir ++ text "/") := by
    have parts (t t' : Text) : key (t ++ t') = key t ++ key t' := List.map_append
    rw [parts _ file, parts _ file'] at same
    exact (List.append_inj same (by rw [length, length])).1
  revert heads
  cases o <;> cases o' <;> decide

theorem inDir_take {o o' : Origin} {path path' : Text} {n : Nat} (inside : InDir o path)
    (other : InDir o' path') (same : key (path.take n) = key path') : InDir o (path.take n) := by
  obtain ⟨file, rfl⟩ := inside
  obtain ⟨file', rfl⟩ := other
  have length (k : Origin) : (k.dir ++ text "/").length = 13 := by
    cases k <;> decide
  have long : 13 ≤ n := by
    have lengths := congrArg List.length same
    simp only [key, List.length_map, List.length_take, List.length_append] at lengths
    have dir := length o
    have dir' := length o'
    simp only [List.length_append] at dir dir'
    omega
  refine ⟨file.take (n - 13), ?_⟩
  rw [List.take_append, length, List.take_of_length_le (by rw [length]; exact long)]

/-- Reading `l` on the boot medium gives the sum. -/
def ReadsAs (media : Media) (l : Local) (sum : Digest) : Prop :=
  ∃ bytes, readWhole (media.bytes l.path) l.size = some bytes ∧ sum = sha bytes

theorem readWhole_fails {media : Media} {s : Machine} {fails : Bool} {l : Local} {bytes : List UInt8}
    (read : readWhole (s.reading media fails l) l.size = some bytes) :
    readWhole (s.reading media false l) l.size = some bytes := by
  cases fails with
  | false => exact read
  | true =>
      simp only [Machine.reading, if_true, readWhole, Option.getD_none, List.length_nil,
        Nat.le_zero_eq, List.take_nil] at read
      by_cases empty : l.size = 0
      · rw [if_pos empty] at read
        simpa [readWhole, empty] using read
      · rw [if_neg empty] at read
        exact absurd read (by simp)

/-- A record is of a download, or says what reading its shipped copy gives. Its path
may have been cut. -/
def Sound (media : Media) (r : Record) : Prop :=
  (∃ path n, InDir .jug path ∧ r.path = path.take n) ∨
    ∃ o l n, o ≠ .jug ∧ shipped media o r.name = some l ∧ r.path = l.path.take n ∧
      ReadsAs media l r.sum

theorem sound_download {media : Media} {r : Record} (inside : InDir .jug r.path) : Sound media r :=
  Or.inl ⟨r.path, r.path.length, inside, (List.take_length ..).symm⟩

theorem shipped_facts {media : Media} {o : Origin} {name : Text} {l : Local}
    (found : shipped media o name = some l) :
    l.origin = o ∧ l.name = name ∧ key l.name = l.name ∧ InDir o l.path := by
  obtain ⟨e, _, there⟩ := List.mem_filterMap.mp (List.mem_of_find?_eq_some found)
  obtain ⟨from_, path, lowered⟩ := localAt_origin there
  refine ⟨from_, by simpa using List.find?_some found, lowered, ?_⟩
  rw [path]
  exact pathIn_inDir o e.name

theorem knownSum_reads {media : Media} {reg : Registry} {l : Local} {sum : Digest}
    (sound : ∀ r ∈ reg, Sound media r) (here : shipped media l.origin l.name = some l)
    (known : knownSum reg l = some sum) : ReadsAs media l sum := by
  simp only [knownSum] at known
  split at known
  · exact absurd known (by simp)
  · rename_i medium
    split at known
    · rename_i r found
      split at known
      · rename_i matched
        cases known
        have named : key r.name = key l.name := by
          have hit := List.find?_some found
          exact ieq_iff.mp hit
        have placed := ieq_iff.mp matched.2
        obtain ⟨_, _, lowered, inside⟩ := shipped_facts here
        rcases sound r (List.mem_of_find?_eq_some found) with
          ⟨whole, n, download, path⟩ | ⟨o, k, n, _, other, path, reads⟩
        · rw [path] at placed
          exact absurd (inDir_unique (inDir_take download inside placed) inside placed).symm medium
        · obtain ⟨_, name', lowered', inside'⟩ := shipped_facts other
          have same : r.name = l.name := by
            rw [← name', lowered', lowered] at named
            rw [← name']
            exact named
          rw [path] at placed
          have dirs : o = l.origin := inDir_unique (inDir_take inside' inside placed) inside placed
          rw [dirs, same, here] at other
          cases other
          exact reads
      · exact absurd known (by simp)
    · exact absurd known (by simp)

theorem mem_put {reg : Registry} {r x : Record} (member : x ∈ reg.put r) : x ∈ reg ∨ x = r := by
  simp only [Registry.put] at member
  split at member
  · exact List.mem_or_eq_of_mem_set member
  · rcases List.mem_append.mp member with old | new
    · exact Or.inl old
    · exact Or.inr (List.mem_singleton.mp new)

theorem mem_erase {reg : Registry} {name : Text} {x : Record} (member : x ∈ reg.erase name) :
    x ∈ reg := List.mem_of_mem_eraseP member

/-! Rows. -/

/-- How the sum of a local copy came about: the process read the copy since its last
scan, or the copy is shipped. -/
def Evidence (media : Media) (reads : List (Nat × Local × List UInt8)) (i : Nat) (l : Local)
    (sum : Digest) : Prop :=
  (∃ bytes, (i, l, bytes) ∈ reads ∧ sum = sha bytes) ∨ (l.origin ≠ .jug ∧ ReadsAs media l sum)

structure RowOk (media : Media) (reads : List (Nat × Local × List UInt8)) (i : Nat) (m : Model)
    (r : Row) : Prop where
  listed : ∀ k, r.pkg = some k → ∃ p, m.catalog.packages[k]? = some p ∧ p.name = r.name
  found : ∀ j, r.here = some j → ∃ l, m.locals[j]? = some l ∧ l.name = r.name
  summed : r.hashed = true → ∀ j l, r.here = some j → m.locals[j]? = some l →
    Evidence media reads i l r.sum
  judged : r.state = (judge m.catalog r).state

structure ModelOk (media : Media) (reads : List (Nat × Local × List UInt8)) (i : Nat) (scan : Scan)
    (m : Model) : Prop where
  sound : ∀ r ∈ m.registry, Sound media r
  scanned : m.locals = scanLocal media scan
  rows : ∀ r ∈ m.rows, RowOk media reads i m r

structure Trusted (media : Media) (s : Machine) : Prop where
  saved : ∀ reg, s.registry = some reg → ∀ r ∈ reg, Sound media r
  models : ∀ i, ModelOk media s.reads i (s.scanned i) (s.models i)

variable {media : Media}

theorem local_shipped {scan : Scan} {l : Local} (member : l ∈ scanLocal media scan)
    (medium : l.origin ≠ .jug) : shipped media l.origin l.name = some l :=
  selected_shipped (scanLocal_selected member) medium

theorem local_inDir {scan : Scan} {l : Local} (member : l ∈ scanLocal media scan) :
    InDir l.origin l.path := by
  have inside := List.mem_of_find?_eq_some (scanLocal_selected member)
  obtain ⟨o, _, there⟩ := List.mem_flatMap.mp inside
  obtain ⟨e, _, made⟩ := List.mem_filterMap.mp there
  obtain ⟨from_, path, _⟩ := localAt_origin made
  rw [from_, path]
  exact pathIn_inDir o e.name

theorem judge_ok {reads : List (Nat × Local × List UInt8)} {i : Nat} {m : Model} {r : Row}
    (listed : ∀ k, r.pkg = some k → ∃ p, m.catalog.packages[k]? = some p ∧ p.name = r.name)
    (found : ∀ j, r.here = some j → ∃ l, m.locals[j]? = some l ∧ l.name = r.name)
    (summed : r.hashed = true → ∀ j l, r.here = some j → m.locals[j]? = some l →
      Evidence media reads i l r.sum) : RowOk media reads i m (judge m.catalog r) :=
  ⟨listed, found, summed, rfl⟩

theorem localOf_found {locals : List Local} {name : Text} {j : Nat}
    (found : localOf locals name = some j) : ∃ l, locals[j]? = some l ∧ l.name = name := by
  obtain ⟨inside, hit, _⟩ := List.findIdx?_eq_some_iff_getElem.mp found
  exact ⟨locals[j], List.getElem?_eq_getElem inside, by simpa using hit⟩

theorem bareRows_ok (m : Model) {r : Row} (member : r ∈ bareRows m) :
    r.hashed = false ∧
      (∀ k, r.pkg = some k → ∃ p, m.catalog.packages[k]? = some p ∧ p.name = r.name) ∧
      ∀ j, r.here = some j → ∃ l, m.locals[j]? = some l ∧ l.name = r.name := by
  rcases List.mem_append.mp member with listed | dropped
  · obtain ⟨⟨p, k⟩, inside, rfl⟩ := List.mem_map.mp listed
    have at_ := List.mem_zipIdx_iff_getElem?.mp inside
    refine ⟨rfl, ?_, fun j found => localOf_found found⟩
    intro k' same
    cases same
    exact ⟨p, at_, rfl⟩
  · obtain ⟨⟨l, j⟩, inside, made⟩ := List.mem_filterMap.mp dropped
    have at_ := List.mem_zipIdx_iff_getElem?.mp inside
    split at made
    · cases made
      refine ⟨rfl, by simp, ?_⟩
      intro j' same
      cases same
      exact ⟨l, at_, rfl⟩
    · exact absurd made (by simp)

theorem rebuild_ok {reads : List (Nat × Local × List UInt8)} {i : Nat} {scan : Scan} {m : Model}
    (sound : ∀ r ∈ m.registry, Sound media r) (scanned : m.locals = scanLocal media scan) :
    ModelOk media reads i scan (rebuild m) := by
  refine ⟨sound, scanned, ?_⟩
  intro r member
  obtain ⟨bare, inside, rfl⟩ := List.mem_map.mp member
  obtain ⟨unhashed, listed, found⟩ := bareRows_ok m inside
  simp only [recallRow]
  cases known : (bare.here.bind fun j => m.locals[j]?).bind (knownSum m.registry) with
  | none =>
      apply judge_ok (m := rebuild m) listed found
      intro hashed
      rw [unhashed] at hashed
      exact absurd hashed (by simp)
  | some sum =>
      refine judge_ok (m := rebuild m) (r := { bare with sum := sum, hashed := true }) listed found ?_
      intro _ j l here at_
      simp only at here
      have at' : m.locals[j]? = some l := at_
      simp only [here, Option.bind_some, at'] at known
      have medium : l.origin ≠ .jug := by
        intro jug
        simp [knownSum, jug] at known
      have inScan : l ∈ scanLocal media scan := scanned ▸ List.mem_of_getElem? at'
      exact Or.inr ⟨medium, knownSum_reads sound (local_shipped inScan medium) known⟩

/-! Steps. -/

theorem evidence_mono {reads reads' : List (Nat × Local × List UInt8)} {i : Nat} {l : Local}
    {sum : Digest} (more : ∀ e ∈ reads, e.1 = i → e ∈ reads') (evidence : Evidence media reads i l sum) :
    Evidence media reads' i l sum := by
  rcases evidence with ⟨bytes, read, same⟩ | medium
  · exact Or.inl ⟨bytes, more _ read rfl, same⟩
  · exact Or.inr medium

theorem modelOk_mono {reads reads' : List (Nat × Local × List UInt8)} {i : Nat} {scan : Scan}
    {m : Model} (more : ∀ e ∈ reads, e.1 = i → e ∈ reads') (ok : ModelOk media reads i scan m) :
    ModelOk media reads' i scan m := by
  refine ⟨ok.sound, ok.scanned, ?_⟩
  intro r member
  have row := ok.rows r member
  exact ⟨row.listed, row.found, fun hashed j l here at_ =>
    evidence_mono more (row.summed hashed j l here at_), row.judged⟩

theorem rowOk_congr {reads : List (Nat × Local × List UInt8)} {i : Nat} {m m' : Model} {r : Row}
    (ok : RowOk media reads i m r) (catalog : m'.catalog = m.catalog) (locals : m'.locals = m.locals) :
    RowOk media reads i m' r := by
  refine ⟨?_, ?_, ?_, ?_⟩
  · rw [catalog]
    exact ok.listed
  · rw [locals]
    exact ok.found
  · rw [locals]
    exact ok.summed
  · rw [catalog]
    exact ok.judged

theorem trusted_set {s : Machine} (trusted : Trusted media s) {i : Nat} {m : Model}
    {reads : List (Nat × Local × List UInt8)} {scanned : Nat → Scan} {registry : Option Registry}
    {downloads : Text → Option (List UInt8)} {installed : Text → Option Record}
    (saved : ∀ reg, registry = some reg → ∀ r ∈ reg, Sound media r)
    (others : ∀ j, j ≠ i → scanned j = s.scanned j ∧ ∀ e ∈ s.reads, e.1 = j → e ∈ reads)
    (here : ModelOk media reads i (scanned i) m) :
    Trusted media ⟨Function.update s.models i m, downloads, registry, scanned, reads, installed⟩ := by
  refine ⟨saved, ?_⟩
  intro j
  by_cases hit : j = i
  · subst hit
    simpa using here
  · simp only [Function.update_of_ne hit]
    rw [(others j hit).1]
    exact modelOk_mono (others j hit).2 (trusted.models j)

theorem cutAt_sound {reg : Registry} (sound : ∀ r ∈ reg, Sound media r) (n k : Nat) :
    ∀ r ∈ cutAt reg n k, Sound media r := by
  intro r member
  rcases List.mem_append.mp member with kept | last
  · exact sound r (List.mem_of_mem_take kept)
  · split at last
    · exact absurd last List.not_mem_nil
    · obtain ⟨whole, inside, rfl⟩ := List.mem_map.mp last
      have there : whole ∈ reg := List.mem_of_getElem? (Option.mem_toList.mp inside)
      rcases sound whole there with ⟨path, n', download, cut⟩ | ⟨o, l, n', medium, found, cut, reads⟩
      · exact Or.inl ⟨path, min k n', download, by simp only [cut, List.take_take]⟩
      · exact Or.inr ⟨o, l, min k n', medium, found, by simp only [cut, List.take_take], reads⟩

theorem apply_sound {saved : Saved} {old : Option Registry} {reg : Registry}
    (before : ∀ reg, old = some reg → ∀ r ∈ reg, Sound media r) (here : ∀ r ∈ reg, Sound media r) :
    ∀ reg', saved.apply old reg = some reg' → ∀ r ∈ reg', Sound media r := by
  intro reg' same
  cases saved with
  | written =>
      cases same
      exact here
  | unchanged => exact before reg' same
  | removed => exact absurd same (by simp [Saved.apply])
  | cut n k =>
      cases same
      exact cutAt_sound here n k

theorem loaded_sound {s : Machine} (trusted : Trusted media s) (reading : Reading) :
    ∀ r ∈ loaded reading s.registry, Sound media r := by
  have whole : ∀ r ∈ s.registry.getD [], Sound media r := by
    intro r member
    cases file : s.registry with
    | none => simp [file] at member
    | some reg => exact trusted.saved reg file r (by simpa [file] using member)
  cases reading with
  | whole => exact whole
  | cut n k => exact cutAt_sound whole n k

theorem trusted_scan {s : Machine} (trusted : Trusted media s) {i : Nat} {m : Model} (scan : Scan)
    (sound : ∀ r ∈ m.registry, Sound media r) : Trusted media (scanStep media s i m scan) := by
  apply trusted_set trusted trusted.saved
  · intro j apart
    refine ⟨Function.update_of_ne apart _ _, ?_⟩
    intro e member mine
    exact List.mem_filter.mpr ⟨member, by simpa [mine] using apart⟩
  · rw [Function.update_self]
    exact rebuild_ok sound rfl

theorem trusted_takeList {s : Machine} (trusted : Trusted media s) (i : Nat) (fresh : Option Catalog)
    (asked : Bool) : Trusted media (takeListStep s i fresh asked) := by
  simp only [takeListStep]
  cases fresh with
  | none => exact trusted
  | some fresh =>
      simp only
      split
      · exact trusted
      · apply trusted_set trusted trusted.saved
        · exact fun j _ => ⟨rfl, fun e member _ => member⟩
        · exact rebuild_ok (trusted.models i).sound (trusted.models i).scanned

theorem localDigest_ok {s : Machine} {i : Nat} {reg reg' : Registry} {l : Local} {sum : Digest}
    {read : Option (List UInt8)} {scan : Scan} (sound : ∀ r ∈ reg, Sound media r)
    (member : l ∈ scanLocal media scan)
    {fails : Bool} (hashed : localDigest (s.reading media fails l) reg l = some (sum, reg', read)) :
    (∀ r ∈ reg', Sound media r) ∧
      Evidence media (s.reads ++ (read.map fun bytes => (i, l, bytes)).toList) i l sum := by
  simp only [localDigest] at hashed
  split at hashed
  · rename_i known
    cases hashed
    have medium : l.origin ≠ .jug := by
      intro jug
      simp [knownSum, jug] at known
    exact ⟨sound, Or.inr ⟨medium, knownSum_reads sound (local_shipped member medium) known⟩⟩
  · split at hashed
    · exact absurd hashed (by simp)
    · rename_i bytes whole
      cases hashed
      refine ⟨?_, Or.inl ⟨bytes, by simp, rfl⟩⟩
      intro r inside
      rcases mem_put inside with old | rfl
      · exact sound r old
      · by_cases jug : l.origin = .jug
        · exact sound_download (jug ▸ local_inDir member)
        · have here := local_shipped member jug
          have read := readWhole_fails whole
          exact Or.inr ⟨l.origin, l, l.path.length, jug, here, (List.take_length ..).symm, bytes,
            by simpa [Machine.reading, jug] using read, rfl⟩

theorem trusted_hash {s : Machine} (trusted : Trusted media s) (i : Nat) (fails : Bool) (saved : Saved) :
    Trusted media (hashStep media s i fails saved) := by
  have ok := trusted.models i
  have same (j : Nat) (_ : j ≠ i) : s.scanned j = s.scanned j ∧ ∀ e ∈ s.reads, e.1 = j → e ∈ s.reads :=
    ⟨rfl, fun e member _ => member⟩
  simp only [hashStep]
  cases nextRow (s.models i) with
  | none =>
      simp only
      split
      · refine trusted_set trusted (apply_sound trusted.saved ok.sound) same ?_
        exact ⟨ok.sound, ok.scanned, fun r member => rowOk_congr (ok.rows r member) rfl rfl⟩
      · exact trusted
  | some k =>
      simp only
      cases row : (s.models i).rows[k]? with
      | none => exact trusted
      | some r =>
          simp only [Option.bind_some]
          cases copy : r.here.bind fun j => (s.models i).locals[j]? with
          | none => exact trusted
          | some l =>
              obtain ⟨j, here, at_⟩ := Option.bind_eq_some_iff.mp copy
              have rowOk := ok.rows r (List.mem_of_getElem? row)
              have inScan : l ∈ scanLocal media (s.scanned i) := ok.scanned ▸ List.mem_of_getElem? at_
              simp only
              cases digest : localDigest (s.reading media fails l) (s.models i).registry l with
              | none =>
                  refine trusted_set trusted trusted.saved same ⟨ok.sound, ok.scanned, ?_⟩
                  intro r' member
                  rcases List.mem_or_eq_of_mem_set member with old | rfl
                  · exact rowOk_congr (ok.rows r' old) rfl rfl
                  · exact judge_ok rowOk.listed rowOk.found rowOk.summed
              | some result =>
                  obtain ⟨sum, reg, read⟩ := result
                  obtain ⟨sound, evidence⟩ := localDigest_ok (i := i) ok.sound inScan digest
                  refine trusted_set trusted trusted.saved ?_ ⟨sound, ok.scanned, ?_⟩
                  · exact fun j _ => ⟨rfl, fun e member _ => List.mem_append_left _ member⟩
                  · intro r' member
                    rcases List.mem_or_eq_of_mem_set member with old | rfl
                    · have grown : ModelOk media (s.reads ++ (read.map fun bytes => (i, l, bytes)).toList)
                          i (s.scanned i) (s.models i) :=
                        modelOk_mono (fun e inside _ => List.mem_append_left _ inside) ok
                      exact rowOk_congr (grown.rows r' old) rfl rfl
                    · refine judge_ok rowOk.listed rowOk.found ?_
                      intro _ j' l' here' at'
                      have sameIndex : j' = j := by simpa [here] using here'.symm
                      subst sameIndex
                      have sameLocal : l' = l := by
                        have := at'.symm.trans at_
                        simpa using this
                      rw [sameLocal]
                      exact evidence

theorem trusted_registry {s : Machine} (trusted : Trusted media s) {i : Nat} {reg : Registry}
    {file : Option Registry} {downloads : Text → Option (List UInt8)}
    {installed : Text → Option Record} (sound : ∀ r ∈ reg, Sound media r)
    (saved : ∀ reg, file = some reg → ∀ r ∈ reg, Sound media r) :
    Trusted media ⟨Function.update s.models i { s.models i with registry := reg }, downloads, file,
      s.scanned, s.reads, installed⟩ := by
  have ok := trusted.models i
  apply trusted_set trusted saved
  · exact fun j _ => ⟨rfl, fun e member _ => member⟩
  · exact ⟨sound, ok.scanned, fun r member => rowOk_congr (ok.rows r member) rfl rfl⟩

theorem trusted_install {s : Machine} (trusted : Trusted media s) (i : Nat) (pkg : Package)
    (data : List UInt8) (ending : Ending) (saved : Saved) :
    Trusted media (installStep s i pkg data ending saved) := by
  simp only [installStep]
  cases refused : refusal pkg data with
  | some why => exact trusted
  | none =>
      obtain ⟨valid, _, _⟩ := refusal_none refused
      have sound : ∀ r ∈ (s.models i).registry.put (recordOf pkg data), Sound media r := by
        intro r member
        rcases mem_put member with old | rfl
        · exact (trusted.models i).sound r old
        · exact sound_download (jugPath_inDir valid)
      cases ending with
      | kept => exact trusted
      | lost => exact ⟨trusted.saved, trusted.models⟩
      | done => exact trusted_registry trusted sound (apply_sound trusted.saved sound)

theorem trusted_uninstall {s : Machine} (trusted : Trusted media s) (i : Nat) (name : Text)
    (removed : Bool) (saved : Saved) : Trusted media (uninstallStep s i name removed saved) := by
  have sound : ∀ r ∈ (s.models i).registry.erase name, Sound media r :=
    fun r member => (trusted.models i).sound r (mem_erase member)
  simp only [uninstallStep]
  split
  · exact trusted
  · exact trusted_registry trusted sound (apply_sound trusted.saved sound)

theorem trusted_step {s : Machine} (trusted : Trusted media s) (op : Op) :
    Trusted media (step media s op) := by
  cases op with
  | open_ i reading kept scan =>
      apply trusted_scan trusted scan
      cases kept with
      | none => exact loaded_sound trusted reading
      | some pair => exact loaded_sound trusted reading
  | takeList i fresh asked => exact trusted_takeList trusted i fresh asked
  | rescan i scan => exact trusted_scan trusted scan (trusted.models i).sound
  | reload i reading scan => exact trusted_scan trusted scan (loaded_sound trusted reading)
  | hashNext i fails saved => exact trusted_hash trusted i fails saved
  | load i reading => exact trusted_registry trusted (loaded_sound trusted reading) trusted.saved
  | save i saved => exact ⟨apply_sound trusted.saved (trusted.models i).sound, trusted.models⟩
  | install i pkg data ending saved => exact trusted_install trusted i pkg data ending saved
  | uninstall i name removed saved => exact trusted_uninstall trusted i name removed saved

theorem trusted_start : Trusted media {} := by
  refine ⟨by simp, fun i => ⟨by simp, ?_, by simp⟩⟩
  simp [scanLocal, candidates, searchOrder, listing]

theorem trusted_run {s : Machine} (trusted : Trusted media s) (ops : List Op) :
    Trusted media (run media s ops) := by
  induction ops generalizing s with
  | nil => exact trusted
  | cons op rest ih => exact ih (trusted_step trusted op)

/-! What was read. -/

/-- The step scans the directories for the process. -/
def Scans (i : Nat) : Op → Prop
  | .open_ j _ _ _ => j = i
  | .rescan j _ => j = i
  | .reload j _ _ => j = i
  | _ => False

/-- What the file gave when it was read for its sum. -/
def Hashed (media : Media) (s : Machine) (l : Local) (bytes : List UInt8) : Prop :=
  readWhole (s.reading media false l) l.size = some bytes

theorem localDigest_read {s : Machine} {reg reg' : Registry} {l : Local} {sum : Digest}
    {bytes : List UInt8} {fails : Bool}
    (hashed : localDigest (s.reading media fails l) reg l = some (sum, reg', some bytes)) :
    Hashed media s l bytes := by
  simp only [localDigest] at hashed
  split at hashed
  · cases hashed
  · split at hashed
    · exact absurd hashed (by simp)
    · rename_i read whole
      cases hashed
      exact readWhole_fails whole

theorem hash_reads {s : Machine} {i j : Nat} {fails : Bool} {saved : Saved} {l : Local} {bytes : List UInt8}
    (member : (j, l, bytes) ∈ (hashStep media s i fails saved).reads) :
    (j, l, bytes) ∈ s.reads ∨ i = j ∧ Hashed media s l bytes := by
  simp only [hashStep] at member
  cases next : nextRow (s.models i) with
  | none =>
      simp only [next] at member
      split at member <;> exact Or.inl member
  | some k =>
      simp only [next] at member
      split at member
      · split at member
        · rename_i k' _ _ sum reg read digest
          rcases List.mem_append.mp member with old | new
          · exact Or.inl old
          · cases read with
            | none => exact absurd new (by simp)
            | some got =>
                simp only [Option.map_some, Option.toList_some, List.mem_singleton] at new
                cases new
                exact Or.inr ⟨rfl, localDigest_read digest⟩
        · exact Or.inl member
      · exact Or.inl member

theorem step_reads {s : Machine} {op : Op} {i : Nat} {l : Local} {bytes : List UInt8}
    (member : (i, l, bytes) ∈ (step media s op).reads) :
    ((i, l, bytes) ∈ s.reads ∧ ¬ Scans i op) ∨
      ∃ fails saved, op = .hashNext i fails saved ∧ Hashed media s l bytes := by
  have scanning (j : Nat) (m : Model) (scan : Scan)
      (inside : (i, l, bytes) ∈ (scanStep media s j m scan).reads) :
      (i, l, bytes) ∈ s.reads ∧ ¬ j = i := by
    obtain ⟨old, other⟩ := List.mem_filter.mp inside
    exact ⟨old, fun same => by simp [same] at other⟩
  cases op with
  | open_ j reading kept scan => exact Or.inl (scanning j _ scan member)
  | takeList j fresh asked =>
      refine Or.inl ⟨?_, id⟩
      simp only [step, takeListStep] at member
      split at member
      · exact member
      · split at member <;> exact member
  | rescan j scan => exact Or.inl (scanning j _ scan member)
  | reload j reading scan => exact Or.inl (scanning j _ scan member)
  | hashNext j fails saved =>
      rcases hash_reads member with old | ⟨rfl, now⟩
      · exact Or.inl ⟨old, id⟩
      · exact Or.inr ⟨fails, saved, rfl, now⟩
  | load j reading => exact Or.inl ⟨member, id⟩
  | save j saved => exact Or.inl ⟨member, id⟩
  | install j pkg data ending saved =>
      refine Or.inl ⟨?_, id⟩
      simp only [step, installStep] at member
      split at member <;> exact member
  | uninstall j name removed saved =>
      refine Or.inl ⟨?_, id⟩
      simp only [step, uninstallStep] at member
      split at member <;> exact member

/-- The process hashed the copy at a step of the run, and has not scanned since. -/
def HashedIn (media : Media) (ops : List Op) (i : Nat) (l : Local) (bytes : List UInt8) : Prop :=
  ∃ before fails saved after, ops = before ++ Op.hashNext i fails saved :: after ∧
    (∀ op ∈ after, ¬ Scans i op) ∧
    Hashed media (run media {} before) l bytes

theorem run_append (s : Machine) (ops : List Op) (op : Op) :
    run media s (ops ++ [op]) = step media (run media s ops) op := by
  simp only [run, List.foldl_append, List.foldl_cons, List.foldl_nil]

theorem reads_hashedIn {ops : List Op} {i : Nat} {l : Local} {bytes : List UInt8}
    (member : (i, l, bytes) ∈ (run media {} ops).reads) : HashedIn media ops i l bytes := by
  induction ops using List.reverseRecOn with
  | nil => exact absurd member List.not_mem_nil
  | append_singleton ops op ih =>
      rw [run_append] at member
      rcases step_reads member with ⟨old, quiet⟩ | ⟨fails, saved, rfl, now⟩
      · obtain ⟨before, fails, saved, after, rfl, none_, then_⟩ := ih old
        refine ⟨before, fails, saved, after ++ [op], by simp, ?_, then_⟩
        intro x inside
        rcases List.mem_append.mp inside with earlier | last
        · exact none_ x earlier
        · rw [List.mem_singleton.mp last]
          exact quiet
      · exact ⟨ops, fails, saved, [], rfl, by simp, now⟩

/-- The bytes of a copy, as the model last read them: at a step of the run since the
last scan, or, for a shipped copy whose sum was on record, as the medium always has them. -/
def Content (media : Media) (ops : List Op) (i : Nat) (l : Local) (bytes : List UInt8) : Prop :=
  HashedIn media ops i l bytes ∨
    l.origin ≠ .jug ∧ readWhole (media.bytes l.path) l.size = some bytes

/-- A row of state current is of a package and of the copy the search found for its name,
and the copy has the sum of the package. -/
theorem current_rows_match (media : Media) (ops : List Op) (i : Nat) {r : Row}
    (member : r ∈ ((run media {} ops).models i).rows) (current : r.state = .current) :
    ∃ p l bytes, p ∈ ((run media {} ops).models i).catalog.packages ∧ p.name = r.name ∧
      selected media ((run media {} ops).scanned i) r.name = some l ∧
      Content media ops i l bytes ∧ sha bytes = p.sum := by
  have trusted : Trusted media (run media {} ops) := trusted_run trusted_start ops
  have ok := trusted.models i
  have row := ok.rows r member
  have judged := row.judged
  rw [current] at judged
  simp only [judge] at judged
  cases package : r.pkg.bind fun k => ((run media {} ops).models i).catalog.packages[k]? with
  | none => simp [package] at judged
  | some p =>
      obtain ⟨k, isPkg, at_⟩ := Option.bind_eq_some_iff.mp package
      obtain ⟨p', at', named⟩ := row.listed k isPkg
      cases at_.symm.trans at'
      simp only [package] at judged
      cases here : r.here with
      | none => simp [here] at judged
      | some j =>
          simp only [here] at judged
          obtain ⟨l, found, same⟩ := row.found j here
          have inScan : l ∈ scanLocal media ((run media {} ops).scanned i) :=
            ok.scanned ▸ List.mem_of_getElem? found
          have first := scanLocal_selected inScan
          rw [same] at first
          by_cases hashed : r.hashed = true
          · by_cases sums : r.sum = p.sum
            · rcases row.summed hashed j l here found with ⟨bytes, read, eq⟩ | ⟨medium, bytes, got, eq⟩
              · exact ⟨p, l, bytes, List.mem_of_getElem? at_, named, first, Or.inl (reads_hashedIn read),
                  eq.symm.trans sums⟩
              · exact ⟨p, l, bytes, List.mem_of_getElem? at_, named, first, Or.inr ⟨medium, got⟩,
                  eq.symm.trans sums⟩
            · simp [hashed, sums] at judged
          · simp [hashed] at judged

/-- A medium with one program of three bytes. -/
def oneProgram : Media where
  tar := [⟨text "TNT.ELF", false, 3⟩]
  iso := []
  bytes := fun path => if path = text "/mnt/tar/bin/TNT.ELF" then some [97, 98, 99] else none

/-- Its list is opened and its program hashed. -/
def openAndHash : List Op :=
  [.open_ 0 .whole (some (⟨[⟨text "tnt", text "tnt.elf", sha [97, 98, 99], none⟩], []⟩, true))
    ⟨none, true, false⟩, .hashNext 0 false .written]

theorem hashed_row_is_current : ∃ r ∈ ((run oneProgram {} openAndHash).models 0).rows,
    r.state = .current ∧
    ∃ p l bytes, p ∈ ((run oneProgram {} openAndHash).models 0).catalog.packages ∧ p.name = r.name ∧
      selected oneProgram ((run oneProgram {} openAndHash).scanned 0) r.name = some l ∧
      Content oneProgram openAndHash 0 l bytes ∧ sha bytes = p.sum := by
  have some_ : ∃ r, ((run oneProgram {} openAndHash).models 0).rows[0]? = some r ∧ r.state = .current := by
    have state : (((run oneProgram {} openAndHash).models 0).rows[0]?).map (·.state) = some .current := by
      decide +kernel
    exact Option.map_eq_some_iff.mp state
  obtain ⟨r, first, current⟩ := some_
  have member := List.mem_of_getElem? first
  exact ⟨r, member, current, current_rows_match oneProgram openAndHash 0 member current⟩

end R2Apps.JugTrust
