import R2Apps.JugLists

/-! A digest as text, `Digest::hex` and `Digest::parse` of `jug/sha256.cpp`. -/
namespace R2Apps.JugDigest
open Sha256 JugLists

def hexValue (c : UInt8) : Option UInt8 :=
  if 48 ≤ c ∧ c ≤ 57 then some (c - 48)
  else if 97 ≤ c ∧ c ≤ 102 then some (c - 97 + 10)
  else if 65 ≤ c ∧ c ≤ 70 then some (c - 65 + 10)
  else none

/-- The bytes of pairs of hex digits. -/
def parsePairs : Text → Option (List UInt8)
  | [] => some []
  | [_] => none
  | first :: second :: rest =>
      match hexValue first, hexValue second, parsePairs rest with
      | some hi, some lo, some bytes => some ((hi <<< 4 ||| lo) :: bytes)
      | _, _, _ => none

theorem parsePairs_length (t : Text) {bytes : List UInt8} (parsed : parsePairs t = some bytes) :
    t.length = 2 * bytes.length := by
  induction t using parsePairs.induct generalizing bytes with
  | case1 =>
      cases Option.some.inj parsed
      rfl
  | case2 => cases parsed
  | case3 first second rest hi lo tail found one other ih =>
      simp only [parsePairs, one, other, found, Option.some.injEq] at parsed
      subst parsed
      have := ih found
      simp only [List.length_cons]
      omega
  | case4 first second rest failed ih =>
      rw [parsePairs] at parsed
      split at parsed
      · next hi lo tail one other found => exact absurd found (failed hi lo tail one other)
      · cases parsed

/-- What a failed call leaves in `out` is not kept: no caller reads it. -/
def Digest.parse (hex : Text) : Option Digest :=
  if full : hex.length = 64 then
    match parsed : parsePairs hex with
    | some bytes => some ⟨bytes, by have := parsePairs_length hex parsed; omega⟩
    | none => none
  else none

theorem each_byte {p : UInt8 → Prop} (all : ∀ n < 256, p (UInt8.ofNat n)) (c : UInt8) : p c := by
  have here := all c.toNat c.toNat_lt
  rwa [UInt8.ofNat_toNat] at here

set_option maxRecDepth 100000 in
theorem hexValue_high : ∀ b : UInt8, hexValue (hexDigit (b >>> 4)) = some (b >>> 4) :=
  each_byte (by decide)

theorem hexValue_low : ∀ b : UInt8, hexValue (hexDigit (b &&& 15)) = some (b &&& 15) :=
  each_byte (by decide +kernel)

set_option maxRecDepth 100000 in
theorem halves : ∀ b : UInt8, (b >>> 4) <<< 4 ||| b &&& 15 = b :=
  each_byte (by decide)

theorem parsePairs_hex (bytes : List UInt8) :
    parsePairs (bytes.flatMap fun (b : UInt8) => [hexDigit (b >>> 4), hexDigit (b &&& 15)]) = some bytes := by
  induction bytes with
  | nil => rfl
  | cons b rest ih =>
      simp only [List.flatMap_cons, List.cons_append, List.nil_append, parsePairs, hexValue_high,
        hexValue_low, ih, halves]

theorem hex_length (sum : Digest) : (hex sum).length = 64 := by
  rw [hex, parsePairs_length _ (parsePairs_hex sum.bytes), sum.size]

theorem parse_hex (sum : Digest) : Digest.parse (hex sum) = some sum := by
  rw [Digest.parse, dif_pos (hex_length sum)]
  split
  · next bytes parsed =>
      have same : bytes = sum.bytes := Option.some.inj (parsed.symm.trans (parsePairs_hex sum.bytes))
      simp only [same]
  · next failed => exact absurd (failed.symm.trans (parsePairs_hex sum.bytes)) (by simp)

end R2Apps.JugDigest
