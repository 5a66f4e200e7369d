import R2Apps.MementoSession

/-! Memento and `tnt` on one `SESSION.CFG`: what each makes of any file, and which pairs
get in over a run of both. -/
namespace R2Apps.SessionCredentials
open Sha256 TntAuth MementoSession
open WireBytes (ascii)

/-! A field read over the NULs of the buffer, or in the text before the first of them. -/
section Fields
variable {key : Bytes} {len : Nat}

/-- The digits of a field that begin `p`. -/
def digits (len : Nat) (p : Bytes) : Option Bytes :=
  if (p.take len).length = len ∧ (p.take len).all lowerHex then some (p.take len) else none

theorem field_cons (b : UInt8) (rest : Bytes) : field key len (b :: rest) =
    if b = 0 then none
    else if key.isPrefixOf (b :: rest) then digits len ((b :: rest).drop key.length)
      else field key len rest := rfl

theorem sessionField_eq (text : Bytes) :
    sessionField text key len = (strstr key text).bind fun p => digits len (p.drop key.length) := by
  unfold sessionField
  cases strstr key text <;> rfl

abbrev beforeNul (s : Bytes) : Bytes := s.takeWhile (· != 0)

theorem beforeNul_cons {b : UInt8} (rest : Bytes) (nonzero : b ≠ 0) :
    beforeNul (b :: rest) = b :: beforeNul rest :=
  List.takeWhile_cons_of_pos (bne_iff_ne.mpr nonzero)

theorem beforeNul_front (s : Bytes) : beforeNul s <+: s := List.takeWhile_prefix _

theorem prefix_beforeNul (x : Bytes) (clean : 0 ∉ x) : ∀ s : Bytes, x <+: beforeNul s ↔ x <+: s := by
  induction x with
  | nil => exact fun s => ⟨fun _ => List.nil_prefix, fun _ => List.nil_prefix⟩
  | cons k rest ih =>
      intro s
      have later : 0 ∉ rest := fun member => clean (List.mem_cons_of_mem k member)
      constructor
      · exact fun starts => starts.trans (beforeNul_front s)
      · intro starts
        cases s with
        | nil => exact starts
        | cons b others =>
            obtain ⟨rfl, behind⟩ := List.cons_prefix_cons.mp starts
            rw [beforeNul_cons _ fun zero => clean (zero ▸ List.mem_cons_self)]
            exact List.cons_prefix_cons.mpr ⟨rfl, (ih later others).mpr behind⟩

theorem beforeNul_clean {s : Bytes} (clean : 0 ∉ s) : beforeNul s = s :=
  (beforeNul_front s).eq_of_length_le ((prefix_beforeNul s clean s).mpr (List.prefix_refl s)).length_le

theorem isPrefixOf_beforeNul (clean : 0 ∉ key) (s : Bytes) :
    key.isPrefixOf (beforeNul s) = key.isPrefixOf s := by
  rw [Bool.eq_iff_iff, List.isPrefixOf_iff_prefix, List.isPrefixOf_iff_prefix]
  exact prefix_beforeNul key clean s

theorem drop_beforeNul (key : Bytes) (clean : 0 ∉ key) : ∀ s : Bytes, key <+: s →
    (beforeNul s).drop key.length = beforeNul (s.drop key.length) := by
  induction key with
  | nil => exact fun s _ => rfl
  | cons k rest ih =>
      intro s starts
      have later : 0 ∉ rest := fun member => clean (List.mem_cons_of_mem k member)
      cases s with
      | nil => exact absurd (List.prefix_nil.mp starts) (List.cons_ne_nil _ _)
      | cons b others =>
          obtain ⟨rfl, behind⟩ := List.cons_prefix_cons.mp starts
          rw [beforeNul_cons _ fun zero => clean (zero ▸ List.mem_cons_self)]
          exact ih later others behind

theorem digits_some {p x : Bytes} :
    digits len p = some x ↔ x <+: p ∧ x.length = len ∧ x.all lowerHex = true := by
  unfold digits
  constructor
  · intro read
    split at read
    · next good =>
      cases read
      exact ⟨List.take_prefix _ _, good⟩
    · cases read
  · rintro ⟨starts, rfl, hex⟩
    have same : p.take x.length = x := (List.prefix_iff_eq_take.mp starts).symm
    rw [same, if_pos ⟨rfl, hex⟩]

theorem hex_clean {x : Bytes} (hex : x.all lowerHex = true) : 0 ∉ x :=
  fun member => absurd (List.all_eq_true.mp hex 0 member) (by decide)

theorem digits_beforeNul (p : Bytes) : digits len (beforeNul p) = digits len p := by
  apply Option.ext
  intro x
  rw [digits_some, digits_some]
  constructor
  · rintro ⟨starts, good⟩
    exact ⟨starts.trans (beforeNul_front p), good⟩
  · rintro ⟨starts, good⟩
    exact ⟨(prefix_beforeNul x (hex_clean good.2) p).mpr starts, good⟩

theorem field_text (clean : 0 ∉ key) (s : Bytes) : field key len s = sessionField (beforeNul s) key len := by
  rw [sessionField_eq]
  induction s with
  | nil => rfl
  | cons b rest ih =>
      rw [field_cons]
      by_cases zero : b = 0
      · rw [if_pos zero, zero]
        rfl
      · have starts := isPrefixOf_beforeNul clean (b :: rest)
        have text := beforeNul_cons rest zero
        rw [if_neg zero, text, strstr, ← text, starts]
        by_cases found : key.isPrefixOf (b :: rest) = true
        · rw [if_pos found, if_pos found, Option.bind_some,
            drop_beforeNul key clean _ (List.isPrefixOf_iff_prefix.mp found), digits_beforeNul]
        · rw [if_neg found, if_neg found]
          exact ih

theorem field_long : ∀ {s x : Bytes}, field key len s = some x → key.length + len ≤ s.length := by
  intro s
  induction s with
  | nil =>
      intro x read
      cases read
  | cons b rest ih =>
      intro x read
      rw [field_cons] at read
      split at read
      · cases read
      · split at read
        · next found =>
          obtain ⟨starts, length, -⟩ := digits_some.mp read
          have inside := starts.length_le
          have ahead := (List.isPrefixOf_iff_prefix.mp found).length_le
          rw [List.length_drop] at inside
          omega
        · exact Nat.le_succ_of_le (ih read)

theorem field_append (more : Bytes) : ∀ {s x : Bytes}, field key len s = some x →
    field key len (s ++ more) = some x := by
  intro s
  induction s with
  | nil =>
      intro x read
      cases read
  | cons b rest ih =>
      intro x read
      rw [List.cons_append, field_cons]
      rw [field_cons] at read
      split at read
      · cases read
      · next zero =>
        rw [if_neg zero]
        by_cases found : key.isPrefixOf (b :: rest) = true
        · have starts := List.isPrefixOf_iff_prefix.mp found
          have longer : key.isPrefixOf (b :: (rest ++ more)) = true :=
            List.isPrefixOf_iff_prefix.mpr (starts.trans (List.prefix_append (b :: rest) more))
          rw [if_pos found] at read
          rw [if_pos longer, ← List.cons_append, List.drop_append_of_le_length starts.length_le]
          obtain ⟨front, good⟩ := digits_some.mp read
          exact digits_some.mpr ⟨front.trans (List.prefix_append _ _), good⟩
        · rw [if_neg found] at read
          have long := field_long read
          have still : ¬key.isPrefixOf (b :: (rest ++ more)) = true := by
            intro crossing
            have starts := List.isPrefixOf_iff_prefix.mp crossing
            rw [← List.cons_append] at starts
            -- the key would end before `more` begins
            have within : key.length ≤ (b :: rest).length := by
              rw [List.length_cons]
              omega
            exact found (List.isPrefixOf_iff_prefix.mpr
              (List.prefix_of_prefix_length_le starts (List.prefix_append _ _) within))
          rw [if_neg still]
          exact ih read

end Fields

/-! One file, read by both. -/
section Files
variable {bytes : Bytes}

/-- A Memento that has just started. -/
def fresh : Session := ⟨false, [], []⟩

/-- Both fields are there. -/
def Fields (cfg : Bytes) : Prop := (field saltKey 32 cfg).isSome = true ∧ (field hashKey 64 cfg).isSome = true

instance (cfg : Bytes) : Decidable (Fields cfg) := inferInstanceAs (Decidable (_ ∧ _))

/-- What `tnt` takes the file for: without a session it asks nothing, and without the fields it lets
nobody in. -/
def tntStanding (file : Option Bytes) : SessionState :=
  let bytes := file.getD []
  if authRequired bytes bytes bytes = false then .none
  else if Fields (readSession bytes) then .ok else .bad

/-- The file means the same to both, and as a session it takes the same pairs. -/
def Agree (file : Option Bytes) : Prop :=
  (sessionLoad sha file fresh).1 = tntStanding file ∧
    ((sessionLoad sha file fresh).1 = .ok → ∀ login pass t tsc,
      (sessionAccepts sha login pass t tsc file fresh).1 = authCheck (file.getD []) login pass)

/-- The file does not begin with a NUL, and fields that Memento finds in 512 bytes are found by `tnt` in
511. -/
def SameView (file : Option Bytes) : Prop :=
  file.getD [] = [] ∨ (file.getD []).head? ≠ some 0 ∧
    (Fields ((file.getD []).take 512) → Fields ((file.getD []).take 511))

theorem salt_clean : 0 ∉ saltKey := by decide
theorem hash_clean : 0 ∉ hashKey := by decide

theorem load_text (sha : Bytes → Digest) {g : Session} (unset : g.set = false) (text : bytes ≠ [])
    (shown : bytes.head? ≠ some 0) :
    sessionLoad sha (some bytes) g =
      match field saltKey 32 (bytes.take 512), field hashKey 64 (bytes.take 512) with
      | some salt, some hash =>
          if sessionDigest sha salt [] [] = hash ∨ sessionDigest sha salt root [] = hash then
            (.none, { g with salt := salt, hash := hash })
          else (.ok, ⟨true, salt, hash⟩)
      | _, _ => (.bad, g) := by
  have some_ : beforeNul (bytes.take 512) ≠ [] := by
    cases bytes with
    | nil => exact absurd rfl text
    | cons b rest =>
        have nonzero : b ≠ 0 := fun zero => shown (zero ▸ rfl)
        rw [List.take_succ_cons, beforeNul_cons _ nonzero]
        exact List.cons_ne_nil _ _
  have open_ : ¬g.set = true := Bool.eq_false_iff.mp unset
  rw [field_text salt_clean, field_text hash_clean]
  unfold sessionLoad
  rw [if_neg open_]
  simp only [readText, Option.map_some]
  refine (if_neg some_).trans ?_
  cases sessionField (beforeNul (bytes.take 512)) saltKey 32 with
  | none => rfl
  | some salt => cases sessionField (beforeNul (bytes.take 512)) hashKey 64 <;> rfl

theorem load_hidden (sha : Bytes → Digest) {g : Session} (unset : g.set = false)
    (hidden : bytes = [] ∨ bytes.head? = some 0) : sessionLoad sha (some bytes) g = (.none, g) := by
  have nothing : beforeNul (bytes.take 512) = [] := by
    rcases hidden with rfl | zero
    · rfl
    · cases bytes with
      | nil => rfl
      | cons b rest =>
          rw [Option.some.inj zero]
          rfl
  unfold sessionLoad
  rw [unset, if_neg Bool.false_ne_true]
  simp only [readText, Option.map_some]
  rw [if_pos nothing]

theorem load_absent (sha : Bytes → Digest) {g : Session} (unset : g.set = false) :
    sessionLoad sha none g = (.none, g) := by
  unfold sessionLoad
  rw [unset, if_neg Bool.false_ne_true]
  rfl

theorem load_set (sha : Bytes → Digest) (file : Option Bytes) {g : Session} (set_ : g.set = true) :
    sessionLoad sha file g = (.ok, g) := by
  unfold sessionLoad
  rw [set_, if_pos rfl]

theorem field_wider {key x : Bytes} {len : Nat} (read : field key len (bytes.take 511) = some x) :
    field key len (bytes.take 512) = some x := by
  have wider : bytes.take (511 + 1) = bytes.take 511 ++ (bytes.drop 511).take 1 := List.take_add
  rw [wider]
  exact field_append _ read

theorem check_bytes (sha : Bytes → Digest) (login pass : Bytes) : authCheckWith sha (some bytes) login pass =
    if (bytes.take 511).isEmpty then false
    else
      match field saltKey 32 (bytes.take 511), field hashKey 64 (bytes.take 511) with
      | some salt, some want => sessionDigest sha salt login pass == want
      | _, _ => false := rfl

theorem check_fields (sha : Bytes → Digest) {salt want : Bytes}
    (saltRead : field saltKey 32 (bytes.take 511) = some salt)
    (hashRead : field hashKey 64 (bytes.take 511) = some want) (login pass : Bytes) :
    authCheckWith sha (some bytes) login pass = (sessionDigest sha salt login pass == want) := by
  have some_ : ¬(bytes.take 511).isEmpty = true := by
    cases bytes with
    | nil => cases saltRead
    | cons b rest => exact Bool.false_ne_true
  rw [check_bytes, if_neg some_, saltRead, hashRead]

theorem check_unread (sha : Bytes → Digest) (unread : ¬Fields (bytes.take 511)) (login pass : Bytes) :
    authCheckWith sha (some bytes) login pass = false := by
  rw [check_bytes]
  by_cases empty : (bytes.take 511).isEmpty = true
  · rw [if_pos empty]
  · rw [if_neg empty]
    cases salt : field saltKey 32 (bytes.take 511) with
    | none => rfl
    | some s =>
        cases hash : field hashKey 64 (bytes.take 511) with
        | none => rfl
        | some h => exact absurd ⟨salt ▸ rfl, hash ▸ rfl⟩ unread

theorem required_eq (text : bytes ≠ []) : authRequired bytes bytes bytes =
    (!authCheckWith sha (some bytes) [] [] && !authCheckWith sha (some bytes) root []) := by
  have some_ : (readSession bytes).isEmpty = false := by
    cases bytes with
    | nil => exact absurd rfl text
    | cons b rest => rfl
  rw [authRequired, some_, ← authCheck_eq, ← authCheck_eq]
  rfl

theorem standing_bytes : tntStanding (some bytes) =
    if authRequired bytes bytes bytes = false then .none
    else if Fields (bytes.take 511) then .ok else .bad := rfl

theorem agree_fields {salt hash : Bytes} (text : bytes ≠ []) (shown : bytes.head? ≠ some 0)
    (saltRead : field saltKey 32 (bytes.take 511) = some salt)
    (hashRead : field hashKey 64 (bytes.take 511) = some hash) : Agree (some bytes) := by
  have load := load_text sha (g := fresh) rfl text shown
  rw [field_wider saltRead, field_wider hashRead] at load
  dsimp only at load
  have check := check_fields sha saltRead hashRead
  have fields : Fields (bytes.take 511) := ⟨saltRead ▸ rfl, hashRead ▸ rfl⟩
  have standing : tntStanding (some bytes) =
      if (sessionDigest sha salt [] [] == hash) = true ∨
        (sessionDigest sha salt root [] == hash) = true then .none
      else .ok := by
    rw [standing_bytes, required_eq text, check, check, if_pos fields]
    cases sessionDigest sha salt [] [] == hash <;> cases sessionDigest sha salt root [] == hash <;> rfl
  simp only [beq_iff_eq] at standing
  by_cases default_ : sessionDigest sha salt [] [] = hash ∨ sessionDigest sha salt root [] = hash
  · rw [if_pos default_] at load standing
    refine ⟨by rw [load, standing], fun ok => ?_⟩
    rw [load] at ok
    cases ok
  · rw [if_neg default_] at load standing
    refine ⟨by rw [load, standing], fun _ login pass t tsc => ?_⟩
    rw [authCheck_eq, check]
    simp only [sessionAccepts, load]

theorem standing_unread (text : bytes ≠ []) (unread : ¬Fields (bytes.take 511)) :
    tntStanding (some bytes) = .bad := by
  have required : authRequired bytes bytes bytes = true := by
    rw [required_eq text, check_unread sha unread, check_unread sha unread]
    rfl
  rw [standing_bytes, required, if_neg Bool.noConfusion, if_neg unread]

theorem agree_iff (file : Option Bytes) : Agree file ↔ SameView file := by
  cases file with
  | none =>
      refine ⟨fun _ => Or.inl rfl, fun _ => ⟨?_, fun ok => ?_⟩⟩
      · rw [load_absent sha rfl]
        rfl
      · rw [load_absent sha rfl] at ok
        cases ok
  | some bytes =>
      by_cases text : bytes = []
      · refine ⟨fun _ => Or.inl text, fun _ => ⟨?_, fun ok => ?_⟩⟩
        · rw [load_hidden sha rfl (Or.inl text), text]
          rfl
        · rw [load_hidden sha rfl (Or.inl text)] at ok
          cases ok
      · by_cases zero : bytes.head? = some 0
        · -- Memento sees no text, `tnt` a file that makes no sense
          have unread : ¬Fields (bytes.take 511) := by
            cases bytes with
            | nil => exact absurd rfl text
            | cons b rest =>
                rw [Option.some.inj zero]
                exact fun both => absurd both.1 Bool.false_ne_true
          constructor
          · rintro ⟨same, -⟩
            rw [load_hidden sha rfl (Or.inr zero), standing_unread text unread] at same
            cases same
          · rintro (empty | ⟨shown, -⟩)
            · exact absurd empty text
            · exact absurd zero shown
        · by_cases fields : Fields (bytes.take 511)
          · obtain ⟨salt, saltRead⟩ := Option.isSome_iff_exists.mp fields.1
            obtain ⟨hash, hashRead⟩ := Option.isSome_iff_exists.mp fields.2
            exact ⟨fun _ => Or.inr ⟨zero, fun _ => fields⟩, fun _ => agree_fields text zero saltRead hashRead⟩
          · have standing := standing_unread text fields
            have load := load_text sha (g := fresh) rfl text zero
            by_cases wide : Fields (bytes.take 512)
            · obtain ⟨salt, saltRead⟩ := Option.isSome_iff_exists.mp wide.1
              obtain ⟨hash, hashRead⟩ := Option.isSome_iff_exists.mp wide.2
              rw [saltRead, hashRead] at load
              dsimp only at load
              constructor
              · rintro ⟨same, -⟩
                rw [standing, load] at same
                split at same <;> cases same
              · rintro (empty | ⟨-, both⟩)
                · exact absurd empty text
                · exact absurd (both wide) fields
            · have bad : sessionLoad sha (some bytes) fresh = (.bad, fresh) := by
                rw [load]
                cases saltRead : field saltKey 32 (bytes.take 512) with
                | none => rfl
                | some salt =>
                    cases hashRead : field hashKey 64 (bytes.take 512) with
                    | none => rfl
                    | some hash => exact absurd ⟨saltRead ▸ rfl, hashRead ▸ rfl⟩ wide
              refine ⟨fun _ => Or.inr ⟨zero, fun both => absurd both wide⟩, fun _ => ⟨?_, fun ok => ?_⟩⟩
              · rw [bad, standing]
              · rw [bad] at ok
                cases ok

end Files

/-! The file that the first login leaves. -/
section Created
variable {sha : Bytes → Digest} {salt hash : Bytes}

theorem hexDigit_lower : ∀ n : Fin 16, lowerHex (hexDigit (UInt8.ofNat n.val)) = true := by decide

theorem nibble_lower (n : UInt8) (small : n.toNat < 16) : lowerHex (hexDigit n) = true := by
  have lower := hexDigit_lower ⟨n.toNat, small⟩
  rwa [show UInt8.ofNat n.toNat = n from UInt8.ofNat_toNat] at lower

theorem high_nibble (b : UInt8) : (b >>> 4).toNat = b.toNat / 16 := by
  rw [UInt8.toNat_shiftRight, Nat.shiftRight_eq_div_pow]
  rfl

theorem low_nibble (b : UInt8) : (b &&& 15).toNat = b.toNat % 16 := by
  rw [UInt8.toNat_and]
  exact Nat.and_two_pow_sub_one_eq_mod b.toNat 4

theorem hex_lower (h : Bytes) : (hex h).all lowerHex = true := by
  induction h with
  | nil => rfl
  | cons b rest ih =>
      have high : (b >>> 4).toNat < 16 := by
        rw [high_nibble]
        exact Nat.div_lt_of_lt_mul b.toNat_lt
      have low : (b &&& 15).toNat < 16 := by
        rw [low_nibble]
        exact Nat.mod_lt _ (by decide)
      have behind : hex (b :: rest) = hexDigit (b >>> 4) :: hexDigit (b &&& 15) :: hex rest := rfl
      rw [behind, List.all_cons, List.all_cons, nibble_lower _ high, nibble_lower _ low, ih]
      rfl

theorem hex_length (h : Bytes) : (hex h).length = 2 * h.length := by
  induction h with
  | nil => rfl
  | cons b rest ih =>
      have behind : (hex (b :: rest)).length = (hex rest).length + 2 := rfl
      rw [behind, ih, List.length_cons]
      omega

variable (sha) in
theorem digest_length (salt login pass : Bytes) : (sessionDigest sha salt login pass).length = 64 := by
  have last : ∀ (f : Bytes → Bytes) (n : Nat) (a : Bytes), (∀ x, (f x).length = 32) →
      (Nat.repeat f (n + 1) a).length = 32 := fun f n a size => size _
  rw [sessionDigest, hex_length, show sessionRounds = 4095 + 1 from rfl, last _ _ _ fun x => Digest.size _]

theorem digest_lower (salt login pass : Bytes) : (sessionDigest sha salt login pass).all lowerHex = true :=
  hex_lower _

def header : Bytes := ascii "# Memento session: the first login since boot, hashed\nsalt="

theorem sessionText_eq (saltSize : salt.length = 32) (hashSize : hash.length = 64) :
    sessionText salt hash = header ++ (salt ++ (ascii "\nhash=" ++ (hash ++ ascii "\n"))) := by
  have start : (ascii "# Memento session: the first login since boot, hashed\nsalt=").take 255 =
    header := by decide
  have size : header.length = 59 := by decide
  have middle : (ascii "\nhash=").length = 6 := by decide
  have tail : (ascii "\n").length = 1 := by decide
  have whole : ∀ dst src : Bytes, dst.length + src.length < 256 → scat dst src 256 = dst ++ src := by
    intro dst src room
    rw [scat, if_pos (by omega), List.take_of_length_le (by omega)]
  simp only [sessionText, start]
  rw [whole header salt (by omega), whole _ (ascii "\nhash=") (by rw [List.length_append]; omega),
    whole _ hash (by rw [List.length_append, List.length_append]; omega),
    whole _ (ascii "\n") (by rw [List.length_append, List.length_append, List.length_append]; omega)]
  simp only [List.append_assoc]

/-- The key neither stands in the text nor begins in it. -/
def free (key : Bytes) : Bytes → Bool
  | [] => true
  | c :: rest => !key.isPrefixOf (c :: rest) && !(c :: rest).isPrefixOf key && free key rest

theorem strstr_free {key : Bytes} (more : Bytes) : ∀ s : Bytes, free key s = true →
    strstr key (s ++ more) = strstr key more := by
  intro s
  induction s with
  | nil => exact fun _ => rfl
  | cons c rest ih =>
      intro clean
      simp only [free, Bool.and_eq_true, Bool.not_eq_true'] at clean
      obtain ⟨⟨inside, across⟩, later⟩ := clean
      have other : ¬key.isPrefixOf (c :: (rest ++ more)) = true := by
        intro starts
        rw [List.isPrefixOf_iff_prefix, ← List.cons_append] at starts
        rcases List.prefix_or_prefix_of_prefix starts (List.prefix_append (c :: rest) more) with short | long
        · exact Bool.eq_false_iff.mp inside (List.isPrefixOf_iff_prefix.mpr short)
        · exact Bool.eq_false_iff.mp across (List.isPrefixOf_iff_prefix.mpr long)
      rw [List.cons_append, strstr, if_neg other, ih later]

theorem strstr_here {key : Bytes} (some_ : key ≠ []) (more : Bytes) :
    strstr key (key ++ more) = some (key ++ more) := by
  have starts : key.isPrefixOf (key ++ more) = true :=
    List.isPrefixOf_iff_prefix.mpr (List.prefix_append key more)
  cases key with
  | nil => exact absurd rfl some_
  | cons k rest =>
      rw [List.cons_append] at starts ⊢
      rw [strstr, if_pos starts]

theorem salt_found (more : Bytes) : strstr saltKey (header ++ more) = some (saltKey ++ more) := by
  have parts : header = ascii "# Memento session: the first login since boot, hashed\n" ++ saltKey := by
    decide
  rw [parts, List.append_assoc, strstr_free _ _ (by decide), strstr_here (by decide)]

theorem hash_not_in_header (more : Bytes) : strstr hashKey (header ++ more) = strstr hashKey more :=
  strstr_free more header (by decide)

theorem hash_not_in_digits {x : Bytes} (hex : x.all lowerHex = true) : free hashKey x = true := by
  induction x with
  | nil => rfl
  | cons c rest ih =>
      rw [List.all_cons, Bool.and_eq_true] at hex
      have differs : ((104 : UInt8) == c) = false := by
        apply beq_false_of_ne
        intro same
        rw [← same] at hex
        exact absurd hex.1 (by decide)
      have differs' : (c == (104 : UInt8)) = false := by
        rw [Bool.beq_comm]
        exact differs
      have key : hashKey = 104 :: hashKey.tail := by decide
      rw [free, ih hex.2, key, List.isPrefixOf_cons_cons, List.isPrefixOf_cons_cons, differs, differs']
      rfl

theorem hash_found (more : Bytes) : strstr hashKey (ascii "\nhash=" ++ more) = some (hashKey ++ more) := by
  have parts : ascii "\nhash=" = [10] ++ hashKey := by decide
  rw [parts, List.append_assoc, strstr_free _ [10] (by decide), strstr_here (by decide)]

theorem digits_front {x : Bytes} (hex : x.all lowerHex = true) (more : Bytes) :
    digits x.length (x ++ more) = some x :=
  digits_some.mpr ⟨List.prefix_append _ _, rfl, hex⟩

theorem sessionField_found {text key x : Bytes} (rest : Bytes)
    (found : strstr key text = some (key ++ (x ++ rest)))
    (hex : x.all lowerHex = true) : sessionField text key x.length = some x := by
  rw [sessionField_eq, found, Option.bind_some, List.drop_left]
  exact digits_front hex rest

theorem created_fields (saltSize : salt.length = 32) (hashSize : hash.length = 64)
    (saltHex : salt.all lowerHex = true)
    (hashHex : hash.all lowerHex = true) :
    field saltKey 32 ((sessionText salt hash).take 511) = some salt ∧
      field hashKey 64 ((sessionText salt hash).take 511) = some hash := by
  rw [sessionText_eq saltSize hashSize]
  have short : (header ++ (salt ++ (ascii "\nhash=" ++ (hash ++ ascii "\n")))).length ≤ 511 := by
    have size : header.length = 59 := by decide
    have middle : (ascii "\nhash=").length = 6 := by decide
    have tail : (ascii "\n").length = 1 := by decide
    simp only [List.length_append]
    omega
  have text : beforeNul (header ++ (salt ++ (ascii "\nhash=" ++ (hash ++ ascii "\n")))) =
      header ++ (salt ++ (ascii "\nhash=" ++ (hash ++ ascii "\n"))) := by
    apply beforeNul_clean
    have heads : 0 ∉ header := by decide
    have middle : 0 ∉ ascii "\nhash=" := by decide
    have tail : 0 ∉ ascii "\n" := by decide
    intro member
    simp only [List.mem_append] at member
    rcases member with member | member | member | member | member
    · exact heads member
    · exact hex_clean saltHex member
    · exact middle member
    · exact hex_clean hashHex member
    · exact tail member
  rw [List.take_of_length_le short, field_text salt_clean, field_text hash_clean, text]
  constructor
  · rw [← saltSize]
    exact sessionField_found _ (salt_found _) saltHex
  · rw [← hashSize]
    refine sessionField_found (ascii "\n") ?_ hashHex
    rw [hash_not_in_header, strstr_free _ _ (hash_not_in_digits saltHex), hash_found]

theorem created_shown (saltSize : salt.length = 32) (hashSize : hash.length = 64) :
    sessionText salt hash ≠ [] ∧ (sessionText salt hash).head? ≠ some 0 := by
  have first : header = 35 :: header.tail := by decide
  rw [sessionText_eq saltSize hashSize, first, List.cons_append]
  exact ⟨List.cons_ne_nil _ _, fun zero => absurd (Option.some.inj zero) (by decide)⟩

end Created

/-! Memento and `tnt` in a run. -/
section Runs
variable (sha : Bytes → Digest)

/-- A login and a password. -/
abbrev Pair := Bytes × Bytes

/-- The two as they are hashed. -/
def joined (p : Pair) : Bytes := p.1 ++ [10] ++ p.2

def Pair.isDefault (p : Pair) : Bool := sessionIsDefault p.1 p.2

/-- The file and the Mementos. `owner` is history: the first accepted pair that is not a default one. -/
structure World where
  file : Option Bytes
  session : Nat → Session
  owner : Option Pair

inductive Event where
  | start (i : Nat)
  | tries (i : Nat) (p : Pair) (t tsc : UInt64)
  | checks (p : Pair)

def settles (accepted : Bool) (p : Pair) (owner : Option Pair) : Option Pair :=
  if owner.isNone && accepted && !p.isDefault then some p else owner

/-- A Memento starts, a login or an unlock goes through one, or `tnt` is given a pair. -/
def step (w : World) : Event → World
  | .start i => { w with session := fun k => if k = i then fresh else w.session k }
  | .tries i p t tsc =>
      let r := sessionAccepts sha p.1 p.2 t tsc w.file (w.session i)
      ⟨r.2.1, fun k => if k = i then r.2.2 else w.session k, settles r.1 p w.owner⟩
  | .checks p => { w with owner := settles (authCheckWith sha w.file p.1 p.2) p w.owner }

/-- The pairs of an event are among those that anybody types. -/
def Typed (typed : Pair → Prop) : Event → Prop
  | .start _ => True
  | .tries _ p _ _ => typed p
  | .checks p => typed p

/-- The states of the runs from `file`, which makes no session. -/
inductive Reach (typed : Pair → Prop) (file : Option Bytes) : World → Prop
  | start : (sessionLoad sha file fresh).1 = .none → Reach typed file ⟨file, fun _ => fresh, none⟩
  | next {w : World} (e : Event) : Reach typed file w → Typed typed e → Reach typed file (step sha w e)

/-- Under a salt of 32 digits the hash tells apart what is joined of the typed pairs and the default ones. -/
def Apart (typed : Pair → Prop) : Prop := ∀ salt p q, salt.length = 32 → salt.all lowerHex = true →
  typed p ∨ p.isDefault = true → typed q ∨ q.isDefault = true →
    sessionDigest sha salt p.1 p.2 = sessionDigest sha salt q.1 q.2 → joined p = joined q

/-- No two of the typed pairs are joined to the same bytes. -/
def Unmistakable (typed : Pair → Prop) : Prop := ∀ p q, typed p → typed q → joined p = joined q → p = q

theorem default_cases (p : Pair) (default_ : p.isDefault = true) : p = ([], []) ∨ p = (root, []) := by
  obtain ⟨login, pass⟩ := p
  simp only [Pair.isDefault, sessionIsDefault, Bool.and_eq_true, List.isEmpty_iff, Bool.or_eq_true,
    beq_iff_eq]
    at default_
  rcases default_ with ⟨rfl, rfl | rfl⟩
  · exact Or.inl rfl
  · exact Or.inr rfl

theorem joined_default {p q : Pair} (default_ : q.isDefault = true) (same : joined p = joined q) :
    p.isDefault = true := by
  obtain ⟨login, pass⟩ := p
  have bytes : root = [114, 111, 111, 116] := by decide
  rcases default_cases q default_ with rfl | rfl <;> simp only [joined, bytes] at same <;>
    rcases login with _ | ⟨a, _ | ⟨b, _ | ⟨c, _ | ⟨d, _ | ⟨e, rest⟩⟩⟩⟩⟩ <;> simp at same
  · rw [same]
    rfl
  · obtain ⟨rfl, rfl, rfl, rfl, rfl⟩ := same
    decide

/-- The file holds the pair's hash, and a Memento that has a session has that one. -/
structure Held (w : World) (p : Pair) (bytes salt hash : Bytes) : Prop where
  file : w.file = some bytes
  text : bytes ≠ []
  shown : bytes.head? ≠ some 0
  saltRead : field saltKey 32 (bytes.take 511) = some salt
  hashRead : field hashKey 64 (bytes.take 511) = some hash
  made : hash = sessionDigest sha salt p.1 p.2
  keeps : ∀ i, (w.session i).set = true → w.session i = ⟨true, salt, hash⟩

/-- Until a pair is accepted that is not a default one there is no session; then it is that pair's. -/
structure Sound (typed : Pair → Prop) (w : World) : Prop where
  before : w.owner = none → (∀ i, (w.session i).set = false) ∧ (sessionLoad sha w.file fresh).1 = .none
  after : ∀ p, w.owner = some p → typed p ∧ p.isDefault = false ∧
    ∃ bytes salt hash, Held sha w p bytes salt hash

variable {sha} {typed : Pair → Prop} {w : World} {p : Pair} {bytes salt hash : Bytes}

theorem field_digits {key s x : Bytes} {len : Nat} (read : field key len s = some x) :
    x.length = len ∧ x.all lowerHex = true := by
  induction s with
  | nil => cases read
  | cons b rest ih =>
      rw [field_cons] at read
      split at read
      · cases read
      · split at read
        · exact (digits_some.mp read).2
        · exact ih read

theorem load_none {file : Option Bytes} {g : Session} (unset : g.set = false)
    (none_ : (sessionLoad sha file fresh).1 = .none) :
    (sessionLoad sha file g).1 = .none ∧ (sessionLoad sha file g).2.set = false := by
  have open_ : ¬g.set = true := Bool.eq_false_iff.mp unset
  have open' : ¬fresh.set = true := Bool.false_ne_true
  unfold sessionLoad at none_ ⊢
  rw [if_neg open'] at none_
  rw [if_neg open_]
  cases read : readText file 512 with
  | none => exact ⟨rfl, unset⟩
  | some text =>
      rw [read] at none_
      dsimp only at none_ ⊢
      by_cases empty : text = []
      · rw [if_pos empty]
        exact ⟨rfl, unset⟩
      · rw [if_neg empty] at none_ ⊢
        cases saltRead : sessionField text saltKey 32 with
        | none =>
            rw [saltRead] at none_
            cases none_
        | some salt =>
            cases hashRead : sessionField text hashKey 64 with
            | none =>
                rw [saltRead, hashRead] at none_
                cases none_
            | some hash =>
                rw [saltRead, hashRead] at none_
                dsimp only at none_ ⊢
                split at none_
                · next default_ =>
                  rw [if_pos default_]
                  exact ⟨rfl, unset⟩
                · cases none_

variable (apart : Apart sha typed) (unmistakable : Unmistakable typed)

include apart unmistakable in
theorem digest_typed (saltSize : salt.length = 32) (saltHex : salt.all lowerHex = true)
    (mine : typed p) {q : Pair}
    (theirs : typed q) :
    (sessionDigest sha salt q.1 q.2 == sessionDigest sha salt p.1 p.2) = decide (q = p) := by
  rw [Bool.eq_iff_iff, beq_iff_eq, decide_eq_true_iff]
  constructor
  · intro same
    exact unmistakable q p theirs mine (apart salt q p saltSize saltHex (Or.inl theirs) (Or.inl mine) same)
  · rintro rfl
    rfl

include apart in
theorem held_foreign (held : Held sha w p bytes salt hash) (mine : typed p) (foreign : p.isDefault = false) :
    ¬(sessionDigest sha salt [] [] = hash ∨ sessionDigest sha salt root [] = hash) := by
  obtain ⟨saltSize, saltHex⟩ := field_digits held.saltRead
  have other : ∀ q : Pair, q.isDefault = true → sessionDigest sha salt q.1 q.2 ≠ hash := by
    intro q default_ same
    have joins := apart salt p q saltSize saltHex (Or.inl mine) (Or.inr default_)
      (held.made.symm.trans same.symm)
    rw [joined_default default_ joins] at foreign
    cases foreign
  rintro (same | same)
  · exact other ([], []) rfl same
  · exact other (root, []) (by decide) same

include apart in
theorem held_loads (held : Held sha w p bytes salt hash) (mine : typed p) (foreign : p.isDefault = false)
    {g : Session} (unset : g.set = false) : sessionLoad sha w.file g = (.ok, ⟨true, salt, hash⟩) := by
  rw [held.file, load_text sha unset held.text held.shown, field_wider held.saltRead,
    field_wider held.hashRead]
  dsimp only
  rw [if_neg (held_foreign apart held mine foreign)]

include apart unmistakable in
theorem held_accepts (held : Held sha w p bytes salt hash) (mine : typed p) (foreign : p.isDefault = false)
    {g : Session} (its : g.set = true → g = ⟨true, salt, hash⟩) {q : Pair} (theirs : typed q)
    (t tsc : UInt64) :
    sessionAccepts sha q.1 q.2 t tsc w.file g = (decide (q = p), w.file, ⟨true, salt, hash⟩) := by
  obtain ⟨saltSize, saltHex⟩ := field_digits held.saltRead
  have loads : sessionLoad sha w.file g = (.ok, ⟨true, salt, hash⟩) := by
    cases set_ : g.set with
    | true => rw [load_set sha w.file set_, its set_]
    | false => exact held_loads apart held mine foreign set_
  unfold sessionAccepts
  rw [loads]
  dsimp only
  rw [held.made, digest_typed apart unmistakable saltSize saltHex mine theirs]

include apart unmistakable in
theorem held_checks (held : Held sha w p bytes salt hash) (mine : typed p) {q : Pair} (theirs : typed q) :
    authCheckWith sha w.file q.1 q.2 = decide (q = p) := by
  obtain ⟨saltSize, saltHex⟩ := field_digits held.saltRead
  rw [held.file, check_fields sha held.saltRead held.hashRead, held.made,
    digest_typed apart unmistakable saltSize saltHex mine theirs]

include apart in
theorem unheld_checks (none_ : (sessionLoad sha w.file fresh).1 = .none) {q : Pair} (theirs : typed q)
    (accepted : authCheckWith sha w.file q.1 q.2 = true) : q.isDefault = true := by
  cases file : w.file with
  | none =>
      rw [file] at accepted
      cases accepted
  | some bytes =>
      rw [file] at accepted none_
      cases saltRead : field saltKey 32 (bytes.take 511) with
      | none =>
          rw [check_unread sha (fun both => absurd both.1 (by rw [saltRead]; exact Bool.false_ne_true))]
            at accepted
          cases accepted
      | some salt =>
          cases hashRead : field hashKey 64 (bytes.take 511) with
          | none =>
              rw [check_unread sha
                (fun both => absurd both.2 (by rw [hashRead]; exact Bool.false_ne_true))] at accepted
              cases accepted
          | some hash =>
              obtain ⟨saltSize, saltHex⟩ := field_digits saltRead
              have text : bytes ≠ [] := by
                rintro rfl
                cases saltRead
              have shown : bytes.head? ≠ some 0 := by
                intro zero
                cases bytes with
                | nil => cases zero
                | cons b rest =>
                    rw [Option.some.inj zero] at saltRead
                    cases saltRead
              rw [load_text sha rfl text shown, field_wider saltRead, field_wider hashRead] at none_
              rw [check_fields sha saltRead hashRead, beq_iff_eq] at accepted
              dsimp only at none_
              split at none_
              · next default_ =>
                rcases default_ with same | same
                · exact joined_default (q := ([], [])) rfl
                    (apart salt q ([], []) saltSize saltHex (Or.inl theirs) (Or.inr rfl)
                      (accepted.trans same.symm))
                · have isRoot : Pair.isDefault (root, []) = true := by decide
                  exact joined_default isRoot
                    (apart salt q (root, []) saltSize saltHex (Or.inl theirs) (Or.inr isRoot)
                      (accepted.trans same.symm))
              · cases none_

theorem settles_some (accepted : Bool) (q : Pair) : settles accepted q (some p) = some p := rfl

theorem settles_none {accepted : Bool} {q : Pair} (other : accepted = true → q.isDefault = true) :
    settles accepted q none = none := by
  unfold settles
  cases accepted with
  | false => rfl
  | true =>
      rw [other rfl]
      rfl

theorem accepts_none {file : Option Bytes} {g : Session} {login pass : Bytes} {t tsc : UInt64}
    (none_ : (sessionLoad sha file g).1 = .none) : sessionAccepts sha login pass t tsc file g =
      if sessionIsDefault login pass then (true, file, (sessionLoad sha file g).2)
      else (true, some (sessionText (sessionCreate sha login pass t tsc).salt
        (sessionCreate sha login pass t tsc).hash),
        sessionCreate sha login pass t tsc) := by
  simp only [sessionAccepts, none_]

theorem created_held (login pass : Bytes) (t tsc : UInt64) (session : Nat → Session) (i : Nat)
    (unset : ∀ k, (session k).set = false) (owner : Option Pair) :
    Held sha ⟨some (sessionText (sessionCreate sha login pass t tsc).salt
      (sessionCreate sha login pass t tsc).hash),
        fun k => if k = i then sessionCreate sha login pass t tsc else session k, owner⟩ (login, pass)
      (sessionText (sessionCreate sha login pass t tsc).salt (sessionCreate sha login pass t tsc).hash)
      (sessionCreate sha login pass t tsc).salt (sessionCreate sha login pass t tsc).hash := by
  have saltSize : (sessionCreate sha login pass t tsc).salt.length = 32 := by
    rw [sessionCreate, hex_length, List.length_take, Digest.size]
    rfl
  have hashSize := digest_length sha (sessionCreate sha login pass t tsc).salt login pass
  obtain ⟨saltRead, hashRead⟩ := created_fields saltSize hashSize (hex_lower _) (digest_lower _ _ _)
  obtain ⟨text, shown⟩ := created_shown saltSize hashSize
  refine ⟨rfl, text, shown, saltRead, hashRead, rfl, fun k set_ => ?_⟩
  dsimp only at set_ ⊢
  by_cases its : k = i
  · rw [if_pos its]
    rfl
  · rw [if_neg its, unset k] at set_
    cases set_

section Steps
variable {i : Nat} {q : Pair} {t tsc : UInt64}

theorem Sound.start (sound : Sound sha typed w) : Sound sha typed (step sha w (.start i)) := by
  constructor
  · intro own
    obtain ⟨unset, none_⟩ := sound.before own
    refine ⟨fun k => ?_, none_⟩
    dsimp only [step]
    split
    · rfl
    · exact unset k
  · intro p own
    obtain ⟨mine, foreign, bytes, salt, hash, held⟩ := sound.after p own
    refine ⟨mine, foreign, bytes, salt, hash, { held with keeps := fun k set_ => ?_ }⟩
    dsimp only [step] at set_ ⊢
    by_cases its : k = i
    · rw [if_pos its] at set_
      cases set_
    · rw [if_neg its] at set_ ⊢
      exact held.keeps k set_

section Before
variable (owner : w.owner = none) (unset : ∀ k, (w.session k).set = false)
  (none_ : (sessionLoad sha w.file fresh).1 = .none)

include apart owner unset none_ in
theorem unset_checks (types : typed q) : Sound sha typed (step sha w (.checks q)) := by
  have still : (step sha w (.checks q)).owner = none := by
    dsimp only [step]
    rw [owner]
    exact settles_none (unheld_checks apart none_ types)
  refine ⟨fun _ => ⟨unset, none_⟩, fun p own => ?_⟩
  rw [still] at own
  cases own

include owner unset none_ in
theorem unset_default (default_ : q.isDefault = true) : Sound sha typed (step sha w (.tries i q t tsc)) := by
  obtain ⟨none', open_⟩ := load_none (unset i) none_
  have accepts : sessionAccepts sha q.1 q.2 t tsc w.file (w.session i) =
      (true, w.file, (sessionLoad sha w.file (w.session i)).2) := by
    rw [accepts_none none']
    exact if_pos default_
  have next : step sha w (.tries i q t tsc) = ⟨w.file,
      fun k => if k = i then (sessionLoad sha w.file (w.session i)).2 else w.session k, none⟩ := by
    dsimp only [step]
    rw [accepts, owner, settles_none fun _ => default_]
  rw [next]
  refine ⟨fun _ => ⟨fun k => ?_, none_⟩, fun p own => ?_⟩
  · dsimp only
    split
    · exact open_
    · exact unset k
  · cases own

include owner unset none_ in
theorem unset_foreign (foreign : q.isDefault = false) (types : typed q) :
    Sound sha typed (step sha w (.tries i q t tsc)) := by
  obtain ⟨none', _⟩ := load_none (unset i) none_
  have accepts : sessionAccepts sha q.1 q.2 t tsc w.file (w.session i) =
      (true, some (sessionText (sessionCreate sha q.1 q.2 t tsc).salt (sessionCreate sha q.1 q.2 t tsc).hash),
        sessionCreate sha q.1 q.2 t tsc) := by
    rw [accepts_none none']
    exact if_neg (Bool.eq_false_iff.mp foreign)
  have becomes : settles true q none = some q := by
    rw [settles, foreign]
    rfl
  have next : step sha w (.tries i q t tsc) =
      ⟨some (sessionText (sessionCreate sha q.1 q.2 t tsc).salt (sessionCreate sha q.1 q.2 t tsc).hash),
        fun k => if k = i then sessionCreate sha q.1 q.2 t tsc else w.session k, some q⟩ := by
    dsimp only [step]
    rw [accepts, owner, becomes]
  rw [next]
  refine ⟨fun own => ?_, fun p own => ?_⟩
  · cases own
  · cases own
    exact ⟨types, foreign, _, _, _, created_held q.1 q.2 t tsc w.session i unset (some q)⟩

end Before

include apart unmistakable in
theorem held_tries (owner : w.owner = some p) (mine : typed p) (foreign : p.isDefault = false)
    (held : Held sha w p bytes salt hash) (types : typed q) :
    Sound sha typed (step sha w (.tries i q t tsc)) := by
  have accepts := held_accepts apart unmistakable held mine foreign (held.keeps i) types t tsc
  have next : step sha w (.tries i q t tsc) =
      ⟨w.file, fun k => if k = i then ⟨true, salt, hash⟩ else w.session k, some p⟩ := by
    dsimp only [step]
    rw [accepts, owner, settles_some]
  rw [next]
  refine ⟨fun own => ?_, fun p' own => ?_⟩
  · cases own
  · cases own
    refine ⟨mine, foreign, bytes, salt, hash, { held with keeps := fun k set_ => ?_ }⟩
    dsimp only at set_ ⊢
    by_cases its : k = i
    · rw [if_pos its]
    · rw [if_neg its] at set_ ⊢
      exact held.keeps k set_

end Steps

include apart unmistakable in
theorem step_sound (sound : Sound sha typed w) {e : Event} (types : Typed typed e) :
    Sound sha typed (step sha w e) := by
  cases e with
  | start i => exact sound.start
  | checks q =>
      cases owner : w.owner with
      | none =>
          obtain ⟨unset, none_⟩ := sound.before owner
          exact unset_checks apart owner unset none_ types
      | some p =>
          have next : step sha w (.checks q) = w := by
            dsimp only [step]
            rw [owner, settles_some, ← owner]
          rw [next]
          exact sound
  | tries i q t tsc =>
      cases owner : w.owner with
      | none =>
          obtain ⟨unset, none_⟩ := sound.before owner
          by_cases default_ : q.isDefault = true
          · exact unset_default owner unset none_ default_
          · exact unset_foreign owner unset none_ (Bool.eq_false_iff.mpr default_) types
      | some p =>
          obtain ⟨mine, foreign, bytes, salt, hash, held⟩ := sound.after p owner
          exact held_tries apart unmistakable owner mine foreign held types

include apart unmistakable in
theorem reach_sound {file : Option Bytes} (reached : Reach sha typed file w) : Sound sha typed w := by
  induction reached with
  | start none_ => exact ⟨fun _ => ⟨fun _ => rfl, none_⟩, fun p own => by cases own⟩
  | next e _ types ih => exact step_sound apart unmistakable ih types

end Runs

/-- Memento and `tnt` take a file for the same, and as a session accept the same pairs, if and only if
the file does not begin with a NUL and its fields end within 511 bytes. And in a run from a file that
makes no session, the first accepted pair that is not a default one is from then on the one that every
Memento, lock screen and `tnt` accepts, and the file stays as it is. -/
theorem credentials_agree (file : Option Bytes) : (Agree file ↔ SameView file) ∧
    ∀ (sha : Bytes → Digest) (typed : Pair → Prop), Apart sha typed → Unmistakable typed →
      ∀ w, Reach sha typed file w → ∀ p, w.owner = some p → ∀ q, typed q →
        (∀ i t tsc, (sessionAccepts sha q.1 q.2 t tsc w.file (w.session i)).1 = decide (q = p)) ∧
        (∀ t tsc, (sessionAccepts sha q.1 q.2 t tsc w.file fresh).1 = decide (q = p)) ∧
        authCheckWith sha w.file q.1 q.2 = decide (q = p) ∧
        ∀ e, Typed typed e → (step sha w e).owner = some p ∧ (step sha w e).file = w.file := by
  refine ⟨agree_iff file, fun sha typed apart unmistakable w reached p owner q theirs => ?_⟩
  obtain ⟨mine, foreign, bytes, salt, hash, held⟩ := (reach_sound apart unmistakable reached).after p owner
  refine ⟨fun i t tsc => ?_, fun t tsc => ?_, held_checks apart unmistakable held mine theirs,
    fun e types => ?_⟩
  · rw [held_accepts apart unmistakable held mine foreign (held.keeps i) theirs]
  · rw [held_accepts apart unmistakable held mine foreign (g := fresh) Bool.noConfusion theirs]
  · cases e with
    | start i => exact ⟨owner, rfl⟩
    | checks p' =>
        dsimp only [step]
        rw [owner]
        exact ⟨rfl, rfl⟩
    | tries i p' t tsc =>
        dsimp only [step]
        rw [held_accepts apart unmistakable held mine foreign (held.keeps i) types, owner]
        exact ⟨rfl, rfl⟩

section Example

/-- A digest that is the end of the message. -/
def ending (m : Bytes) : Digest where
  bytes := (List.replicate 32 0 ++ m).drop m.length
  size := by rw [List.length_drop, List.length_append, List.length_replicate, Nat.add_sub_cancel]

def user : Pair := ([97], [98])

theorem ending_behind (front : Bytes) {salt : Bytes} (size : salt.length = 32) (rest : Bytes) :
    (ending (front ++ (salt ++ rest))).bytes = (salt ++ rest).drop rest.length := by
  have long : (front ++ (salt ++ rest)).length =
      (List.replicate 32 (0 : UInt8) ++ front).length + rest.length := by
    simp only [List.length_append, List.length_replicate, size]
    omega
  change (List.replicate 32 0 ++ (front ++ (salt ++ rest))).drop (front ++ (salt ++ rest)).length = _
  rw [long, ← List.append_assoc, ← List.drop_drop, List.drop_left]

theorem ending_digest {salt : Bytes} (size : salt.length = 32) (p : Pair) :
    sessionDigest ending salt p.1 p.2 = hex ((salt ++ joined p).drop (joined p).length) := by
  have last (h : Bytes) :
      (ending (h ++ salt ++ p.1 ++ [10] ++ p.2)).bytes = (salt ++ joined p).drop (joined p).length := by
    rw [← ending_behind h size]
    simp only [joined, List.append_assoc]
  have steady : ∀ (f : Bytes → Bytes) (x : Bytes) (n : Nat) (a : Bytes), (∀ h, f h = x) →
      Nat.repeat f (n + 1) a = x := fun f x n a same => same _
  rw [sessionDigest, show sessionRounds = 4095 + 1 from rfl, steady _ _ _ _ last]

theorem hex_injective {a b : Bytes} (same : hex a = hex b) : a = b := by
  have digit : ∀ m n : Fin 16, hexDigit (UInt8.ofNat m.val) = hexDigit (UInt8.ofNat n.val) →
    m = n := by decide
  have nibble {x y : UInt8} (small : x.toNat < 16) (small' : y.toNat < 16) (same : hexDigit x = hexDigit y) :
      x.toNat = y.toNat := by
    have is := digit ⟨x.toNat, small⟩ ⟨y.toNat, small'⟩
    rw [show UInt8.ofNat x.toNat = x from UInt8.ofNat_toNat,
      show UInt8.ofNat y.toNat = y from UInt8.ofNat_toNat] at is
    exact Fin.mk.inj (is same)
  induction a generalizing b with
  | nil =>
      cases b with
      | nil => rfl
      | cons y rest => cases same
  | cons x rest ih =>
      cases b with
      | nil => cases same
      | cons y rest' =>
          obtain ⟨high, low, later⟩ : hexDigit (x >>> 4) = hexDigit (y >>> 4) ∧
              hexDigit (x &&& 15) = hexDigit (y &&& 15) ∧ hex rest = hex rest' := by simpa [hex] using same
          have bound := x.toNat_lt
          have bound' := y.toNat_lt
          have highs := nibble (by rw [high_nibble]; omega) (by rw [high_nibble]; omega) high
          have lows := nibble (by rw [low_nibble]; omega) (by rw [low_nibble]; omega) low
          rw [high_nibble, high_nibble] at highs
          rw [low_nibble, low_nibble] at lows
          rw [ih later, UInt8.toNat_inj.mp (by omega : x.toNat = y.toNat)]

theorem user_apart : Apart ending (· = user) := by
  intro salt p q size digits mine theirs same
  rw [ending_digest size, ending_digest size] at same
  have same := hex_injective same
  have joins : ∀ p : Pair, p = user ∨ p.isDefault = true →
      joined p = [97, 10, 98] ∨ joined p = [10] ∨ joined p = [114, 111, 111, 116, 10] := by
    rintro p (rfl | default_)
    · exact .inl rfl
    · rcases default_cases p default_ with rfl | rfl
      · exact .inr (.inl rfl)
      · exact .inr (.inr (by decide))
  have foreign : salt[31] ≠ 116 := by
    intro t
    have digit := List.all_eq_true.mp digits _ (List.getElem_mem (l := salt) (n := 31) (by omega))
    rw [t] at digit
    cases digit
  -- the last byte tells the user from the default pairs, the one before it these two
  have last := congrArg (·[31]?) same
  have before := congrArg (·[30]?) same
  simp only [List.getElem?_drop] at last before
  rcases joins p mine with one | one | one <;> rcases joins q theirs with other | other | other <;>
    rw [one, other] at last before ⊢
  all_goals simp [size] at last before
  · exact absurd before foreign
  · exact absurd before.symm foreign

/-- The user is let in by a Memento, and from then on is the one pair that every Memento,
its lock screen and `tnt` accept. -/
theorem credentials_agree_user : ∃ w, Reach ending (· = user) none w ∧ w.owner = some user ∧
    (sessionAccepts ending user.1 user.2 0 0 w.file fresh).1 = true ∧
    authCheckWith ending w.file user.1 user.2 = true ∧ (step ending w (.checks user)).file = w.file := by
  have begun : Reach ending (· = user) none ⟨none, fun _ => fresh, none⟩ := .start rfl
  have reached := Reach.next (.tries 0 user 0 0) begun rfl
  have unmistakable : Unmistakable (· = user) := by
    rintro p q rfl rfl _
    rfl
  have owner : (step ending ⟨none, fun _ => fresh, none⟩ (.tries 0 user 0 0)).owner = some user := rfl
  obtain ⟨_, fresh_, checks, after⟩ :=
    (credentials_agree none).2 ending (· = user) user_apart unmistakable _ reached user owner user rfl
  exact ⟨_, reached, owner, by rw [fresh_]; rfl, by rw [checks]; rfl, (after (.checks user) rfl).2⟩

end Example

/-- A file of one NUL is no session to Memento and nonsense to `tnt`. -/
theorem nul_file_differs : ¬∀ file, Agree file := by
  intro all
  rcases (agree_iff (some [0])).mp (all _) with empty | ⟨shown, -⟩
  · exact absurd empty (List.cons_ne_nil _ _)
  · exact absurd rfl shown

end R2Apps.SessionCredentials
