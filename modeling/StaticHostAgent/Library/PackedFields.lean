import StaticHostAgent.Library.Characters
import Mathlib.Data.List.Basic
import Mathlib.Algebra.BigOperators.Group.List.Basic
import Mathlib.Algebra.GroupWithZero.Nat
import Mathlib.Order.Lattice

/-!
# Packed fields

Little-endian integer fields of fixed widths, one after another. A value that does not fit its
field cannot be packed. Fields that were read at the right offsets pack to the bytes they were read
from.
-/

set_option autoImplicit false

namespace StaticHostAgent.Library

/-- A field of `width` bytes and its value. -/
structure Field where
  width : Nat
  value : Nat

/-- A field of two bytes. -/
def half (value : Nat) : Field := ⟨2, value⟩

/-- A field of four bytes. -/
def word (value : Nat) : Field := ⟨4, value⟩

def Field.Fits (field : Field) : Prop := field.value < 256 ^ field.width

instance (field : Field) : Decidable field.Fits := inferInstanceAs (Decidable (_ < _))

def littleEndian : Nat → Nat → List UInt8
  | 0, _ => []
  | width + 1, value => UInt8.ofNat (value % 256) :: littleEndian width (value / 256)

theorem littleEndian_length (width value : Nat) : (littleEndian width value).length = width := by
  induction width generalizing value with
  | zero => rfl
  | succ width ih => exact congrArg Nat.succ (ih (value / 256))

/-- The fields one after another. -/
def packed (fields : List Field) : List UInt8 :=
  fields.flatMap fun field => littleEndian field.width field.value

/-- The number of bytes of a record with these fields. -/
def packedSize (fields : List Field) : Nat := (fields.map Field.width).sum

theorem packed_length (fields : List Field) : (packed fields).length = packedSize fields := by
  unfold packed packedSize
  induction fields with
  | nil => rfl
  | cons field fields ih =>
      rw [List.flatMap_cons, List.length_append, littleEndian_length, ih, List.map_cons,
        List.sum_cons]

/-- The bytes of the fields, if every value fits. -/
def pack (fields : List Field) : Option (List UInt8) :=
  if ∀ field ∈ fields, field.Fits then some (packed fields) else none

theorem pack_of_fits {fields : List Field} (h : ∀ field ∈ fields, field.Fits) :
    pack fields = some (packed fields) := if_pos h

/-! ## Reading -/

/-- The number that bytes stand for. -/
def fromLittleEndian : List UInt8 → Nat
  | [] => 0
  | byte :: bytes => byte.toNat + 256 * fromLittleEndian bytes

theorem littleEndian_fromLittleEndian (bytes : List UInt8) :
    littleEndian bytes.length (fromLittleEndian bytes) = bytes := by
  induction bytes with
  | nil => rfl
  | cons byte bytes ih =>
      have hbyte := byte.toNat_lt
      have hlow : (byte.toNat + 256 * fromLittleEndian bytes) % 256 = byte.toNat := by omega
      have hhigh : (byte.toNat + 256 * fromLittleEndian bytes) / 256 = fromLittleEndian bytes := by
        omega
      rw [List.length_cons, littleEndian, fromLittleEndian, hlow, hhigh, ih, UInt8.ofNat_toNat]

/-- The value of a field of `width` bytes at an offset. -/
def fieldAt (data : List UInt8) (offset width : Nat) : Nat :=
  fromLittleEndian ((data.drop offset).take width)

/-- The two bytes at an offset. -/
def halfAt (data : List UInt8) (offset : Nat) : Nat := fieldAt data offset 2

/-- The four bytes at an offset. -/
def wordAt (data : List UInt8) (offset : Nat) : Nat := fieldAt data offset 4

theorem littleEndian_fieldAt (data : List UInt8) {offset width : Nat}
    (h : offset + width ≤ data.length) :
    littleEndian width (fieldAt data offset width) = (data.drop offset).take width := by
  have hlength : ((data.drop offset).take width).length = width := by
    rw [List.length_take, List.length_drop]
    omega
  have hround := littleEndian_fromLittleEndian ((data.drop offset).take width)
  rw [hlength] at hround
  exact hround

/-- Fields of these widths, read one after another from an offset on. -/
def readFields (data : List UInt8) : Nat → List Nat → List Field
  | _, [] => []
  | offset, width :: widths =>
      ⟨width, fieldAt data offset width⟩ :: readFields data (offset + width) widths

theorem packed_readFields {data : List UInt8} (widths : List Nat) :
    ∀ offset, offset + widths.sum ≤ data.length →
      packed (readFields data offset widths) = (data.drop offset).take widths.sum := by
  induction widths with
  | nil =>
      intro offset _
      rfl
  | cons width widths ih =>
      intro offset h
      rw [List.sum_cons] at h
      have hrest := ih (offset + width) (by omega)
      have hfirst : littleEndian width (fieldAt data offset width) = _ :=
        littleEndian_fieldAt data (by omega)
      unfold packed at hrest ⊢
      rw [readFields, List.flatMap_cons, hrest, hfirst, List.sum_cons, ← List.drop_drop,
        ← List.take_add]

/-- All bytes of a record. -/
theorem packed_readFields_all {data : List UInt8} (widths : List Nat)
    (h : data.length = widths.sum) : packed (readFields data 0 widths) = data := by
  rw [packed_readFields widths 0 (by omega), List.drop_zero, ← h, List.take_length]

end StaticHostAgent.Library
