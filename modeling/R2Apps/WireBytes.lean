import Mathlib.Data.List.Basic
import Mathlib.Data.List.Infix

/-! Bytes at a place in a message: what is written one after the other is read back where it stands,
whatever is around it. Numbers have their high byte first. -/
namespace R2Apps.WireBytes

abbrev Bytes := List UInt8

def ascii (s : String) : Bytes := s.toList.map fun c => UInt8.ofNat c.toNat

/-- The labels of a name, without the zero after them. -/
def labelBytes (labels : List Bytes) : Bytes := labels.flatMap fun l => UInt8.ofNat l.length :: l

/-- `bytes` are in the message from `off` on. -/
def Stands (msg : Bytes) (off : Nat) (bytes : Bytes) : Prop := bytes <+: msg.drop off

def byteAt (msg : Bytes) (off : Nat) : UInt8 := msg.getD off 0

def rd16 (msg : Bytes) (off : Nat) : Nat := 256 * (byteAt msg off).toNat + (byteAt msg (off + 1)).toNat

def be16 (v : Nat) : Bytes := [UInt8.ofNat (v / 256), UInt8.ofNat v]

@[simp] theorem be16_length (v : Nat) : (be16 v).length = 2 := rfl

variable {msg : Bytes} {off : Nat}

theorem stands_append {a b : Bytes} :
    Stands msg off (a ++ b) ↔ Stands msg off a ∧ Stands msg (off + a.length) b := by
  constructor
  · rintro ⟨rest, whole⟩
    refine ⟨⟨b ++ rest, by rw [← whole, List.append_assoc]⟩, rest, ?_⟩
    rw [← List.drop_drop, ← whole, List.append_assoc, List.drop_left]
  · rintro ⟨⟨tail, first⟩, rest, second⟩
    refine ⟨rest, ?_⟩
    rw [← List.drop_drop, ← first, List.drop_left] at second
    rw [← first, ← second, List.append_assoc]

theorem stands_length {bytes : Bytes} (there : Stands msg off bytes) (some_ : bytes ≠ []) :
    off + bytes.length ≤ msg.length := by
  have inside := there.length_le
  rw [List.length_drop] at inside
  have positive := List.length_pos_iff.mpr some_
  omega

theorem stands_take {bytes : Bytes} (there : Stands msg off bytes) :
    (msg.drop off).take bytes.length = bytes :=
  (List.prefix_iff_eq_take.mp there).symm

theorem byteAt_stands {b : UInt8} {rest : Bytes} (there : Stands msg off (b :: rest)) :
    byteAt msg off = b := by
  obtain ⟨tail, whole⟩ := there
  have first : (msg.drop off)[0]? = some b := by
    rw [← whole]
    rfl
  rw [List.getElem?_drop, Nat.add_zero] at first
  rw [byteAt, List.getD_eq_getElem?_getD, first, Option.getD_some]

theorem stands_tail {b : UInt8} {rest : Bytes} (there : Stands msg off (b :: rest)) :
    Stands msg (off + 1) rest :=
  (stands_append (a := [b])).mp there |>.2

theorem rd16_stands {v : Nat} (there : Stands msg off (be16 v)) (small : v < 65536) : rd16 msg off = v := by
  have hi := byteAt_stands there
  have lo := byteAt_stands (stands_tail there)
  rw [rd16, hi, lo]
  simp only [UInt8.toNat_ofNat']
  omega

end R2Apps.WireBytes
