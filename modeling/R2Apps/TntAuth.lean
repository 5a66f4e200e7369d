import R2Apps.Sha256
import R2Apps.WireBytes

/-! `tnt/auth.c`: what `SESSION.CFG` asks of a new connection. `file` is what
reading the file gives, empty when it is not there. Its SHA-256 takes the message
byte by byte; the compression is the one of `Sha256`. -/
namespace R2Apps.TntAuth
open Sha256
open WireBytes (ascii)

abbrev Bytes := List UInt8

def sessionRounds : Nat := 4096

def updateByte (c : Sha) (b : UInt8) : Sha :=
  let block := c.block ++ [b]
  if block.length = 64 then { c with words := compress c.words block, block := [] }
  else { c with block := block }

def sha256Update (c : Sha) (p : Bytes) : Sha :=
  p.foldl updateByte { c with total := c.total + UInt64.ofNat p.length }

/-- Zeros up to the place of the length; less than a block of them. -/
def padding : Nat → Sha → Sha
  | 0, c => c
  | fuel + 1, c => if c.block.length = 56 then c else padding fuel (sha256Update c [0])

def sha256Final (c : Sha) : Digest :=
  let bits := c.total * 8
  digestOf (sha256Update (padding 64 (sha256Update c [0x80])) (lengthBytes bits)).words

/-- The bytes `read_session` leaves in `cfg`; none is no session. -/
def readSession (file : Bytes) : Bytes := file.take 511

def lowerHex (c : UInt8) : Bool := decide (48 ≤ c ∧ c ≤ 57) || decide (97 ≤ c ∧ c ≤ 102)

/-- The `len` lowercase hex digits after the first `key` of `cfg`, up to its end or a NUL. -/
def field (key : Bytes) (len : Nat) : Bytes → Option Bytes
  | [] => none
  | b :: rest =>
      if b = 0 then none
      else if key.isPrefixOf (b :: rest) then
        let out := ((b :: rest).drop key.length).take len
        if out.length = len ∧ out.all lowerHex then some out else none
      else field key len rest

def hexDigit (n : UInt8) : UInt8 := if n < 10 then 48 + n else 87 + n

def hex (h : Bytes) : Bytes := h.flatMap fun (b : UInt8) => [hexDigit (b >>> 4), hexDigit (b &&& 15)]

def round (salt login pass h : Bytes) : Bytes :=
  (sha256Final (sha256Update (sha256Update (sha256Update (sha256Update
    (sha256Update {} h) salt) login) (ascii "\n")) pass)).bytes

def authCheck (file login pass : Bytes) : Bool :=
  let cfg := readSession file
  if cfg.isEmpty then false
  else match field (ascii "salt=") 32 cfg, field (ascii "hash=") 64 cfg with
    | some salt, some want =>
        hex (Nat.repeat (round salt login pass) sessionRounds (List.replicate 32 0)) == want
    | _, _ => false

/-- The file is read once for itself and once for each check. -/
def authRequired (file file' file'' : Bytes) : Bool :=
  if (readSession file).isEmpty then false
  else !authCheck file' [] [] && !authCheck file'' (ascii "root") []

end R2Apps.TntAuth
