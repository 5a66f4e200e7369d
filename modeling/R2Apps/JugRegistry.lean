import R2Apps.JugDigest
import R2Apps.JugTrust

/-! Several jug processes and one `JUG.REG`. A process keeps the whole registry in
memory and writes all of it, so one that has not read the file since another installed
a program writes that program's record away. While no process does so, and none hashes
a download it has an older listing of, the record of every install stays. -/
namespace R2Apps.JugRegistry
open Sha256 JugLists JugDigest JugStore JugInstall JugModel JugTrust

/-- `JUG.REG` has, for every program, the record of its last install, unless it was
uninstalled later. -/
def Kept (s : Machine) : Prop :=
  ∀ name r, s.installed (key name) = some r → ∃ reg, s.registry = some reg ∧ reg.find name = some r

/-- Nothing is left to hash or to save. -/
def Idle (s : Machine) : Prop :=
  ∀ i, nextRow (s.models i) = none ∧ (s.models i).registryDirty = false

/-! The registry by name. -/

theorem put_cons (x : Record) (reg : Registry) (r : Record) :
    Registry.put (x :: reg) r = if ieq x.name r.name then r :: reg else x :: Registry.put reg r := by
  simp only [Registry.put, List.findIdx?_cons]
  by_cases hit : ieq x.name r.name = true
  · simp only [hit, if_true, List.set_cons_zero]
  · simp only [hit, Bool.false_eq_true, if_false]
    cases List.findIdx? (fun old => ieq old.name r.name) reg <;> rfl

theorem find_put (reg : Registry) (r : Record) (name : Text) :
    (Registry.put reg r).find name = if key r.name = key name then some r else reg.find name := by
  have hit (x : Record) (other : Text) : ieq x.name other = decide (key x.name = key other) := by
    by_cases same : key x.name = key other
    · simp only [same, decide_true]
      exact ieq_iff.mpr same
    · simp only [same, decide_false]
      exact Bool.eq_false_iff.mpr fun yes => same (ieq_iff.mp yes)
  induction reg with
  | nil =>
      simp only [Registry.put, List.findIdx?_nil, List.nil_append, Registry.find, List.find?_cons,
        List.find?_nil, hit]
      by_cases same : key r.name = key name <;> simp [same]
  | cons x rest ih =>
      rw [put_cons]
      simp only [Registry.find, hit] at ih ⊢
      by_cases replaced : key x.name = key r.name
      · simp only [replaced, decide_true, if_true, List.find?_cons]
        by_cases same : key r.name = key name <;> simp [same]
      · simp only [replaced, decide_false, Bool.false_eq_true, if_false, List.find?_cons]
        by_cases same : key x.name = key name
        · have other : key r.name ≠ key name := fun eq => replaced (same.trans eq.symm)
          simp [same, other]
        · simpa [same] using ih

theorem find_erase (reg : Registry) {name other : Text} (apart : key name ≠ key other) :
    (Registry.erase reg name).find other = reg.find other := by
  simp only [Registry.erase, Registry.find]
  induction reg with
  | nil => rfl
  | cons x rest ih =>
      rw [List.eraseP_cons]
      cases erased : ieq x.name name with
      | true =>
          rw [cond_true, List.find?_cons_of_neg]
          intro hit
          exact apart ((ieq_iff.mp erased).symm.trans (ieq_iff.mp hit))
      | false => rw [cond_false, List.find?_cons, List.find?_cons, ih]

/-! Where downloads are. -/

set_option maxRecDepth 100000 in
theorem lower_upper : ∀ c, lower (upper c) = lower c :=
  each_byte (by decide)

theorem jugPath_key {name other : Text} (valid : validName name = true)
    (valid' : validName other = true) (same : jugPath name = jugPath other) : key name = key other := by
  rw [jugPath_eq valid, jugPath_eq valid'] at same
  have stems : stem name = stem other := List.append_cancel_right same
  have uppers : name.map upper = other.map upper := by
    simp only [stem] at stems
    exact List.append_cancel_left (List.append_cancel_right stems)
  have lowers (t : Text) : key t = (t.map upper).map lower := by
    simp only [key, List.map_map]
    apply List.map_congr_left
    intro c _
    exact (lower_upper c).symm
  rw [lowers, lowers, uppers]

/-! The discipline. -/

/-- After the step, the processes that have read `JUG.REG` since another one last
installed a program. -/
def fresher (fresh : Nat → Bool) (op : Op) (j : Nat) : Bool :=
  match op with
  | .open_ i reading _ _ | .reload i reading _ | .load i reading =>
      if j = i then reading = .whole else fresh j
  | .install i pkg data ending _ =>
      if refusal pkg data = none ∧ ending = .done then fresh j && j = i else fresh j
  | _ => fresh j

/-- A process writes the registry only if it is fresh; a save may also leave the file alone. -/
def MaySave (fresh : Bool) (saved : Saved) : Prop :=
  saved = .unchanged ∨ saved = .written ∧ fresh = true

/-- The listed copy is the one the record is of. -/
def IsCopy (l : Local) (r : Record) : Prop :=
  l.origin = .jug ∧ l.name = r.name ∧ l.size = r.size ∧ l.path = r.path

/-- What is asked of a step, in the state before it. -/
def Careful (s : Machine) (fresh : Nat → Bool) : Op → Prop
  | .install i pkg data ending saved =>
      refusal pkg data = none → ending = .done → saved = .written ∧ fresh i = true
  | .uninstall i _ _ saved => MaySave (fresh i) saved
  | .save i saved => MaySave (fresh i) saved
  | .hashNext i _ saved =>
      match nextRow (s.models i) with
      | none => (s.models i).registryDirty = true → MaySave (fresh i) saved
      | some k => fresh i = true →
          ∀ l, ((s.models i).rows[k]?.bind fun r => r.here.bind fun j => (s.models i).locals[j]?) = some l →
            ∀ r, s.installed (key l.name) = some r → IsCopy l r
  | _ => True

def CarefulRun (media : Media) : Machine → (Nat → Bool) → List Op → Prop
  | _, _, [] => True
  | s, fresh, op :: rest => Careful s fresh op ∧ CarefulRun media (step media s op) (fresher fresh op) rest

/-! What a careful run keeps. -/

/-- The registry has the records of all installs. -/
def Knows (installed : Text → Option Record) (reg : Registry) : Prop :=
  ∀ name r, installed (key name) = some r → reg.find name = some r

/-- What was installed is still where it was put, or gone. -/
def Stored (downloads : Text → Option (List UInt8)) (r : Record) : Prop :=
  ∀ data, downloads r.path = some data → sha data = r.sum ∧ data.length = r.size

structure InStep (fresh : Nat → Bool) (s : Machine) : Prop where
  filed : Kept s
  known : ∀ i, fresh i = true → Knows s.installed (s.models i).registry
  named : ∀ k r, s.installed k = some r →
    key r.name = k ∧ validName r.name = true ∧ r.path = jugPath r.name ∧ r.size ≠ 0
  stored : ∀ k r, s.installed k = some r → Stored s.downloads r

variable {media : Media} {fresh : Nat → Bool} {s : Machine}

theorem kept_knows {reg : Registry} (same : s.registry = some reg) (known : Knows s.installed reg) :
    Kept s := fun name r installed => ⟨reg, same, known name r installed⟩

theorem knows_loaded (kept : Kept s) : Knows s.installed (loaded .whole s.registry) := by
  intro name r installed
  obtain ⟨reg, file, found⟩ := kept name r installed
  simpa [loaded, file] using found

theorem inStep_memory (ok : InStep fresh s) {fresh' : Nat → Bool} {i : Nat} {m : Model}
    {scanned : Nat → Scan} {reads : List (Nat × Local × List UInt8)}
    (others : ∀ j, j ≠ i → fresh' j = fresh j)
    (here : fresh' i = true → Knows s.installed m.registry) :
    InStep fresh' ⟨Function.update s.models i m, s.downloads, s.registry, scanned, reads,
      s.installed⟩ := by
  refine ⟨ok.filed, ?_, ok.named, ok.stored⟩
  intro j fresh_
  by_cases hit : j = i
  · subst hit
    simpa using here fresh_
  · simp only [Function.update_of_ne hit]
    exact ok.known j (others j hit ▸ fresh_)

theorem inStep_saved (ok : InStep fresh s) {i : Nat} {saved : Saved} {reg : Registry}
    (may : MaySave (fresh i) saved) (known : fresh i = true → Knows s.installed reg) :
    InStep fresh { s with registry := saved.apply s.registry reg } := by
  refine ⟨?_, ok.known, ok.named, ok.stored⟩
  rcases may with rfl | ⟨rfl, fresh_⟩
  · exact ok.filed
  · exact kept_knows rfl (known fresh_)

theorem inStep_loaded (ok : InStep fresh s) {fresh' : Nat → Bool} {i : Nat} (reading : Reading)
    {m : Model} {scanned : Nat → Scan} {reads : List (Nat × Local × List UInt8)}
    (fresher_ : ∀ j, fresh' j = if j = i then decide (reading = .whole) else fresh j)
    (read : m.registry = loaded reading s.registry) :
    InStep fresh' ⟨Function.update s.models i m, s.downloads, s.registry, scanned, reads,
      s.installed⟩ := by
  apply inStep_memory ok
  · intro j apart
    rw [fresher_, if_neg apart]
  · intro fresh_
    rw [fresher_, if_pos rfl] at fresh_
    rw [read, of_decide_eq_true fresh_]
    exact knows_loaded ok.filed

theorem inStep_takeList (ok : InStep fresh s) (i : Nat) (taken : Option Catalog) (asked : Bool) :
    InStep fresh (takeListStep s i taken asked) := by
  simp only [takeListStep]
  split
  · exact ok
  · split
    · exact ok
    · exact inStep_memory ok (fun _ _ => rfl) (ok.known i)

theorem rehashed (ok : InStep fresh s) {l : Local} {r : Record} {fails : Bool} {bytes : List UInt8}
    (installed : s.installed (key l.name) = some r) (copy : IsCopy l r)
    (read : readWhole (s.reading media fails l) l.size = some bytes) :
    (⟨l.name, sha bytes, l.size, l.path⟩ : Record) = r := by
  obtain ⟨origin, name, size, path⟩ := copy
  obtain ⟨_, _, _, some_⟩ := ok.named _ _ installed
  have whole := JugTrust.readWhole_fails read
  simp only [Machine.reading, Bool.false_eq_true, if_false, origin, if_true, readWhole, path, size] at whole
  cases there : s.downloads r.path with
  | none => simp [there, some_] at whole
  | some data =>
      obtain ⟨sum, length⟩ := ok.stored _ _ installed data there
      simp only [there, Option.getD_some, length, Nat.le_refl, if_true, Option.some.injEq] at whole
      rw [← whole, ← length, List.take_length, sum, name, size, path]

theorem knows_hashed (ok : InStep fresh s) {i : Nat} {l : Local} {fails : Bool} {sum : Digest}
    {reg : Registry} {read : Option (List UInt8)} (fresh_ : fresh i = true)
    (copy : ∀ r, s.installed (key l.name) = some r → IsCopy l r)
    (hashed : localDigest (s.reading media fails l) (s.models i).registry l = some (sum, reg, read)) :
    Knows s.installed reg := by
  have known := ok.known i fresh_
  simp only [localDigest] at hashed
  split at hashed
  · cases hashed
    exact known
  · split at hashed
    · exact absurd hashed (by simp)
    · rename_i bytes whole
      cases hashed
      intro name r installed
      rw [find_put]
      split
      · rename_i same
        rw [← same] at installed
        rw [rehashed ok installed (copy r installed) whole]
      · exact known name r installed

theorem inStep_hash (ok : InStep fresh s) (i : Nat) (fails : Bool) (saved : Saved)
    (careful : Careful s fresh (.hashNext i fails saved)) :
    InStep fresh (hashStep media s i fails saved) := by
  simp only [Careful] at careful
  simp only [hashStep]
  cases next : nextRow (s.models i) with
  | none =>
      simp only [next] at careful ⊢
      split
      · rename_i dirty
        exact inStep_memory (inStep_saved ok (careful dirty) (ok.known i)) (fun _ _ => rfl) (ok.known i)
      · exact ok
  | some k =>
      simp only [next] at careful ⊢
      split
      · rename_i row l _ found
        split
        · rename_i sum reg read hashed
          apply inStep_memory ok (fun _ _ => rfl)
          intro fresh_
          exact knows_hashed ok fresh_ (careful fresh_ l found) hashed
        · exact inStep_memory ok (fun _ _ => rfl) (ok.known i)
      · exact ok

theorem fresher_undone {i : Nat} {pkg : Package} {data : List UInt8} {ending : Ending} {saved : Saved}
    (undone : ¬ (refusal pkg data = none ∧ ending = .done)) :
    fresher fresh (.install i pkg data ending saved) = fresh := by
  funext j
  simp only [fresher, if_neg undone]

theorem installed_cases {pkg : Package} {data : List UInt8} {k : Text} {r : Record}
    (installed : Function.update s.installed (key pkg.name) (some (recordOf pkg data)) k = some r) :
    (k = key pkg.name ∧ r = recordOf pkg data) ∨ (k ≠ key pkg.name ∧ s.installed k = some r) := by
  by_cases same : k = key pkg.name
  · subst same
    rw [Function.update_self] at installed
    exact Or.inl ⟨rfl, (Option.some.inj installed).symm⟩
  · rw [Function.update_of_ne same] at installed
    exact Or.inr ⟨same, installed⟩

theorem knows_installed {reg : Registry} (known : Knows s.installed reg) (pkg : Package)
    (data : List UInt8) :
    Knows (Function.update s.installed (key pkg.name) (some (recordOf pkg data)))
      (Registry.put reg (recordOf pkg data)) := by
  intro name r installed
  rw [find_put]
  rcases installed_cases installed with ⟨same, rfl⟩ | ⟨apart, before⟩
  · exact if_pos same.symm
  · exact (if_neg (Ne.symm apart)).trans (known name r before)

theorem inStep_installed (ok : InStep fresh s) {i : Nat} {pkg : Package} {data : List UInt8}
    (accepted : refusal pkg data = none) (fresh_ : fresh i = true) :
    InStep (fresher fresh (.install i pkg data .done .written))
      (installStep s i pkg data .done .written) := by
  obtain ⟨valid, _, some_⟩ := refusal_none accepted
  have known := knows_installed (ok.known i fresh_) pkg data
  simp only [installStep, accepted]
  refine ⟨kept_knows rfl known, ?_, ?_, ?_⟩
  · -- the other processes are no longer fresh
    intro j freshJ
    have mine : j = i := by
      simp only [fresher, accepted, and_self, if_true, Bool.and_eq_true, decide_eq_true_eq] at freshJ
      exact freshJ.2
    subst mine
    simpa [Machine.set] using known
  · intro k r installed
    rcases installed_cases installed with ⟨rfl, rfl⟩ | ⟨_, before⟩
    · exact ⟨rfl, valid, rfl, by simpa [recordOf] using some_⟩
    · exact ok.named k r before
  · intro k r installed data' there
    rcases installed_cases installed with ⟨rfl, rfl⟩ | ⟨apart, before⟩
    · simp only [recordOf, Function.update_self, Option.some.injEq] at there
      subst there
      exact ⟨rfl, rfl⟩
    · obtain ⟨named, valid', path, _⟩ := ok.named k r before
      have elsewhere : r.path ≠ jugPath pkg.name := by
        intro hit
        exact apart (named.symm.trans (jugPath_key valid' valid (path.symm.trans hit)))
      simp only [Function.update_of_ne elsewhere] at there
      exact ok.stored k r before data' there

theorem inStep_install (ok : InStep fresh s) (i : Nat) (pkg : Package) (data : List UInt8)
    (ending : Ending) (saved : Saved) (careful : Careful s fresh (.install i pkg data ending saved)) :
    InStep (fresher fresh (.install i pkg data ending saved))
      (installStep s i pkg data ending saved) := by
  simp only [Careful] at careful
  by_cases done : refusal pkg data = none ∧ ending = .done
  · obtain ⟨accepted, rfl⟩ := done
    obtain ⟨rfl, fresh_⟩ := careful accepted rfl
    exact inStep_installed ok accepted fresh_
  · rw [fresher_undone done]
    cases refused : refusal pkg data with
    | some why =>
        simp only [installStep, refused]
        exact ok
    | none =>
        simp only [installStep, refused]
        cases ending with
        | kept => exact ok
        | done => exact absurd ⟨refused, rfl⟩ done
        | lost =>
            refine ⟨ok.filed, ok.known, ok.named, ?_⟩
            intro k r installed data' there
            by_cases path : r.path = jugPath pkg.name
            · simp [path] at there
            · simp only [Function.update_of_ne path] at there
              exact ok.stored k r installed data' there

theorem inStep_uninstall (ok : InStep fresh s) (i : Nat) (name : Text) (removed : Bool) (saved : Saved)
    (careful : MaySave (fresh i) saved) : InStep fresh (uninstallStep s i name removed saved) := by
  simp only [uninstallStep]
  split
  · exact ok
  · have fewer {k : Text} {r : Record}
        (installed : Function.update s.installed (key name) none k = some r) :
        k ≠ key name ∧ s.installed k = some r := by
      by_cases same : k = key name
      · simp [same] at installed
      · rw [Function.update_of_ne same] at installed
        exact ⟨same, installed⟩
    have known : fresh i = true → Knows (Function.update s.installed (key name) none)
        (Registry.erase (s.models i).registry name) := by
      intro fresh_ other r installed
      obtain ⟨apart, before⟩ := fewer installed
      rw [find_erase _ apart.symm]
      exact ok.known i fresh_ other r before
    refine ⟨?_, ?_, ?_, ?_⟩
    · rcases careful with rfl | ⟨rfl, fresh_⟩
      · exact fun other r installed => ok.filed other r (fewer installed).2
      · exact kept_knows rfl (known fresh_)
    · intro j freshJ
      by_cases hit : j = i
      · subst hit
        simpa [Machine.set] using known freshJ
      · simp only [Machine.set, Function.update_of_ne hit]
        exact fun other r installed => ok.known j freshJ other r (fewer installed).2
    · exact fun k r installed => ok.named k r (fewer installed).2
    · intro k r installed data there
      by_cases path : r.path = jugPath name
      · simp [path] at there
      · simp only [Function.update_of_ne path] at there
        exact ok.stored k r (fewer installed).2 data there

theorem inStep_step (ok : InStep fresh s) (op : Op) (careful : Careful s fresh op) :
    InStep (fresher fresh op) (step media s op) := by
  cases op with
  | open_ i reading kept scan =>
      refine inStep_loaded ok reading (fun _ => rfl) ?_
      cases kept <;> rfl
  | takeList i taken asked => exact inStep_takeList ok i taken asked
  | rescan i scan => exact inStep_memory ok (fun _ _ => rfl) (ok.known i)
  | reload i reading scan => exact inStep_loaded ok reading (fun _ => rfl) rfl
  | hashNext i fails saved => exact inStep_hash ok i fails saved careful
  | load i reading => exact inStep_loaded ok reading (fun _ => rfl) rfl
  | save i saved => exact inStep_saved ok careful (ok.known i)
  | install i pkg data ending saved => exact inStep_install ok i pkg data ending saved careful
  | uninstall i name removed saved => exact inStep_uninstall ok i name removed saved careful

theorem inStep_run (ok : InStep fresh s) (ops : List Op) (careful : CarefulRun media s fresh ops)
    {before after : List Op} (split : ops = before ++ after) : Kept (run media s before) := by
  induction before generalizing s fresh ops with
  | nil => exact ok.filed
  | cons op rest ih =>
      subst split
      exact ih (inStep_step ok op careful.1) (rest ++ after) careful.2 rfl

theorem inStep_start : InStep (fun _ => true) {} := by
  refine ⟨?_, ?_, ?_, ?_⟩
  · intro name r installed
    exact absurd installed (by simp)
  · intro i _ name r installed
    exact absurd installed (by simp)
  · intro k r installed
    exact absurd installed (by simp)
  · intro k r installed
    exact absurd installed (by simp)

/-- In every state of a careful run the registry on disk has the record of the last
install of every program. -/
theorem careful_installs_stay (media : Media) (before after : List Op)
    (careful : CarefulRun media {} (fun _ => true) (before ++ after)) : Kept (run media {} before) :=
  inStep_run inStep_start (before ++ after) careful rfl

/-! Two processes. -/

/-- An ELF of one segment. -/
def smallProgram : List UInt8 :=
  [0x7f, 69, 76, 70, 2, 1, 1] ++ List.replicate 9 0 ++ [2, 0, 0x3e, 0, 1, 0, 0, 0] ++
    [0, 0, 0x60, 0, 0, 0, 0, 0] ++ [64, 0, 0, 0, 0, 0, 0, 0] ++ List.replicate 12 0 ++
    [64, 0, 56, 0, 1, 0] ++ List.replicate 6 0 ++ [1, 0, 0, 0, 5, 0, 0, 0] ++
    [120, 0, 0, 0, 0, 0, 0, 0] ++ [0, 0, 0x60, 0, 0, 0, 0, 0] ++ List.replicate 8 0 ++
    [40, 0, 0, 0, 0, 0, 0, 0] ++ [64, 0, 0, 0, 0, 0, 0, 0] ++ List.replicate 48 1

def packageOf (name : Text) : Package := ⟨name, name ++ text ".elf", sha smallProgram, none⟩

def noMedia : Media := ⟨[], [], fun _ => none⟩

set_option maxRecDepth 100000 in
theorem packageOf_accepted {name : Text} (valid : validName name = true) :
    refusal (packageOf name) smallProgram = none := by
  have elf : elfProblem smallProgram = none := by decide
  simp [refusal, packageOf, valid, elf]

theorem hashStep_others {i j : Nat} (other : j ≠ i) (fails : Bool) (saved : Saved) :
    (hashStep media s i fails saved).models j = s.models j := by
  simp only [hashStep, Machine.set]
  split
  · split
    · exact Function.update_of_ne other _ _
    · rfl
  · split
    · split
      · exact Function.update_of_ne other _ _
      · exact Function.update_of_ne other _ _
    · rfl

/-- A console jug loads the registry and installs, and the window saves its own. -/
def crossing : List Op :=
  [.load 1 .whole, .install 1 (packageOf (text "sh")) smallProgram .done .written,
    .hashNext 0 false .written]

theorem crossed_state (media : Media) {pkg : Package} {program : List UInt8} {name : Text}
    (named : pkg.name = name)
    (accepted : refusal pkg program = none) (next : nextRow (s.models 0) = none)
    (dirty : (s.models 0).registryDirty = true) {ops : List Op}
    (are : ops = [.load 1 .whole, .install 1 pkg program .done .written, .hashNext 0 false .written]) :
    (run media s ops).registry = some (s.models 0).registry ∧
      (run media s ops).installed (key name) = some (recordOf pkg program) ∧
      ∀ i, ((run media s ops).models i).rows = (s.models i).rows ∧
        ((run media s ops).models i).registryDirty = if i = 0 then false else (s.models i).registryDirty := by
  subst are named
  refine ⟨?_, ?_, ?_⟩
  · simp [run, step, installStep, accepted, hashStep, Machine.set, Saved.apply, next, dirty]
  · simp [run, step, installStep, accepted, hashStep, Machine.set, next, dirty]
  · intro i
    by_cases window : i = 0
    · subst window
      simp [run, step, installStep, accepted, hashStep, Machine.set, next, dirty]
    · by_cases console : i = 1
      · subst console
        simp [run, step, installStep, accepted, hashStep, Machine.set, next, dirty]
      · simp [run, step, installStep, accepted, hashStep, Machine.set, next, dirty, window, console]

theorem crossing_state (media : Media) (next : nextRow (s.models 0) = none)
    (dirty : (s.models 0).registryDirty = true) :
    (run media s crossing).registry = some (s.models 0).registry ∧
      (run media s crossing).installed (key (text "sh")) =
        some (recordOf (packageOf (text "sh")) smallProgram) ∧
      ∀ i, ((run media s crossing).models i).rows = (s.models i).rows ∧
        ((run media s crossing).models i).registryDirty =
          if i = 0 then false else (s.models i).registryDirty := by
  have valid : validName (text "sh") = true := by decide
  have accepted : refusal (packageOf (text "sh")) smallProgram = none := packageOf_accepted valid
  have named : (packageOf (text "sh")).name = text "sh" := rfl
  have are : crossing = [.load 1 .whole, .install 1 (packageOf (text "sh")) smallProgram .done .written,
      .hashNext 0 false .written] := rfl
  exact crossed_state media named accepted next dirty are

/-- The window has hashed a shipped program and has yet to save. Once both are done the
console's record is gone. -/
theorem window_drops_console_install :
    Idle (run oneProgram {} (openAndHash ++ crossing)) ∧
      ¬ Kept (run oneProgram {} (openAndHash ++ crossing)) := by
  have parts : run oneProgram {} (openAndHash ++ crossing) =
      run oneProgram (run oneProgram {} openAndHash) crossing := List.foldl_append
  have dirty : ((run oneProgram {} openAndHash).models 0).registryDirty = true := by decide +kernel
  have next : nextRow ((run oneProgram {} openAndHash).models 0) = none := by decide +kernel
  have unknown : ((run oneProgram {} openAndHash).models 0).registry.find (text "sh") = none := by
    decide +kernel
  have others (i : Nat) (other : i ≠ 0) : (run oneProgram {} openAndHash).models i = {} :=
    (hashStep_others other false .written).trans (Function.update_of_ne other _ _)
  rw [parts]
  generalize run oneProgram {} openAndHash = s at *
  obtain ⟨registry, installed, models⟩ := crossing_state oneProgram next dirty
  constructor
  · intro i
    obtain ⟨rows, flag⟩ := models i
    by_cases window : i = 0
    · subst window
      exact ⟨by simpa only [nextRow, rows] using next, by simpa using flag⟩
    · rw [others i window] at rows flag
      exact ⟨by simp [nextRow, rows], by simpa [window] using flag⟩
  · intro kept
    obtain ⟨reg, file, found⟩ := kept _ _ installed
    cases registry.symm.trans file
    exact absurd (unknown.symm.trans found) (by simp)

/-- The window reads the registry again before it installs. -/
def takingTurns : List Op :=
  [.open_ 0 .whole none {}, .load 1 .whole, .install 1 (packageOf (text "tnt")) smallProgram .done .written,
    .reload 0 .whole {}, .install 0 (packageOf (text "sh")) smallProgram .done .written]

theorem turns_keep_both : Kept (run noMedia {} takingTurns) := by
  have careful : CarefulRun noMedia {} (fun _ => true) (takingTurns ++ []) := by
    simp only [takingTurns, List.append_nil, CarefulRun, Careful, fresher]
    simp
  exact careful_installs_stay noMedia takingTurns [] careful

end R2Apps.JugRegistry
