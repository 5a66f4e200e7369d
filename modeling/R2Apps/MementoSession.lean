import R2Apps.BearSha256

/-! `memento-hello/windows/login_window.cpp`: the session's credentials. A text is its
bytes before the NUL. The hash is a parameter, which is `web_sha256` in the program: the
one of `tnt/auth.c` gives the same digests. What is left in `g_session` of a field that is
cut off is not kept, since nothing reads it before it is written again. -/
namespace R2Apps.MementoSession
open Sha256 TntAuth
open WireBytes (ascii)

structure Session where
  set : Bool
  salt : Bytes
  hash : Bytes
deriving DecidableEq

inductive SessionState where
  | none
  | ok
  | bad
deriving DecidableEq

/-- `r2::fs::read_text` of a file that may be absent. -/
def readText (file : Option Bytes) (max : Nat) : Option Bytes :=
  file.map fun bytes => (bytes.take max).takeWhile (· != 0)

/-- From the first place on where `text` goes on with `key`, which is not empty. -/
def strstr (key : Bytes) : Bytes → Option Bytes
  | [] => .none
  | c :: rest => if key.isPrefixOf (c :: rest) then some (c :: rest) else strstr key rest

def sessionField (text key : Bytes) (len : Nat) : Option Bytes :=
  match strstr key text with
  | .none => .none
  | some p =>
      let out := (p.drop key.length).take len
      if out.length = len ∧ out.all lowerHex then some out else .none

def saltKey : Bytes := ascii "salt="
def hashKey : Bytes := ascii "hash="
def root : Bytes := ascii "root"

def sessionIsDefault (login pass : Bytes) : Bool := pass.isEmpty && (login.isEmpty || login == root)

/-- The first `cap - 1` bytes of `dst` and `src`. -/
def scat (dst src : Bytes) (cap : Nat) : Bytes :=
  if dst.length < cap then dst ++ src.take (cap - dst.length - 1) else dst

def littleBytes (x : UInt64) : Bytes := (List.range 8).map fun i => (x >>> UInt64.ofNat (8 * i)).toUInt8

section Hashing
variable (sha : Bytes → Digest)

def sessionDigest (salt login pass : Bytes) : Bytes :=
  hex (Nat.repeat (fun h => (sha (h ++ salt ++ login ++ [10] ++ pass)).bytes) sessionRounds
    (List.replicate 32 0))

def sessionLoad (file : Option Bytes) (g : Session) : SessionState × Session :=
  if g.set then (.ok, g)
  else
    match readText file 512 with
    | .none => (.none, g)
    | some text =>
        if text = [] then (.none, g)
        else
          match sessionField text saltKey 32, sessionField text hashKey 64 with
          | some salt, some hash =>
              if sessionDigest sha salt [] [] = hash ∨ sessionDigest sha salt root [] = hash then
                (.none, { g with salt := salt, hash := hash })
              else (.ok, ⟨true, salt, hash⟩)
          | _, _ => (.bad, g)

def sessionText (salt hash : Bytes) : Bytes :=
  let text := (ascii "# Memento session: the first login since boot, hashed\nsalt=").take 255
  scat (scat (scat (scat text salt 256) (ascii "\nhash=") 256) hash 256) (ascii "\n") 256

/-- The new session; `t` is the time since boot and `tsc` the cycle counter. -/
def sessionCreate (login pass : Bytes) (t tsc : UInt64) : Session :=
  let salt := hex ((sha (littleBytes tsc ++ littleBytes t)).bytes.take 16)
  ⟨true, salt, sessionDigest sha salt login pass⟩

/-- Whether the pair gets in, the file and `g_session` after it. -/
def sessionAccepts (login pass : Bytes) (t tsc : UInt64) (file : Option Bytes) (g : Session) :
    Bool × Option Bytes × Session :=
  let loaded := sessionLoad sha file g
  match loaded.1 with
  | .none =>
      if sessionIsDefault login pass then (true, file, loaded.2)
      else
        let made := sessionCreate sha login pass t tsc
        (true, some (sessionText made.salt made.hash), made)
  | .bad => (false, file, loaded.2)
  | .ok => (sessionDigest sha loaded.2.salt login pass == loaded.2.hash, file, loaded.2)

/-- `auth_check` of `tnt`, the hash taken as it is here. -/
def authCheckWith (file : Option Bytes) (login pass : Bytes) : Bool :=
  let cfg := readSession (file.getD [])
  if cfg.isEmpty then false
  else
    match field saltKey 32 cfg, field hashKey 64 cfg with
    | some salt, some want => sessionDigest sha salt login pass == want
    | _, _ => false

end Hashing

theorem round_eq (salt login pass : Bytes) :
    TntAuth.round salt login pass = fun h => (sha (h ++ salt ++ login ++ [10] ++ pass)).bytes := by
  funext h
  have pieces := BearSha256.tntSha256_eq [h, salt, login, ascii "\n", pass]
  simp only [List.foldl_cons, List.foldl_nil, List.flatten_cons, List.flatten_nil, List.append_nil] at pieces
  have newline : ascii "\n" = [10] := by decide
  rw [TntAuth.round, pieces, newline]
  simp only [List.append_assoc]

theorem authCheck_eq (file : Option Bytes) (login pass : Bytes) :
    authCheck (file.getD []) login pass = authCheckWith sha file login pass := by
  unfold authCheck authCheckWith
  dsimp only
  rw [show saltKey = ascii "salt=" from rfl, show hashKey = ascii "hash=" from rfl]
  split
  · rfl
  · cases field (ascii "salt=") 32 (readSession (file.getD [])) with
    | none => rfl
    | some salt =>
        cases field (ascii "hash=") 64 (readSession (file.getD [])) with
        | none => rfl
        | some want =>
            dsimp only
            rw [round_eq, sessionDigest]

theorem sessionDigest_web (salt login pass : Bytes) : sessionDigest sha salt login pass =
    hex (Nat.repeat (fun h => BearSha256.webSha256 (h ++ salt ++ login ++ [10] ++ pass)) sessionRounds
      (List.replicate 32 0)) := by
  simp only [sessionDigest, BearSha256.webSha256_eq]

end R2Apps.MementoSession
