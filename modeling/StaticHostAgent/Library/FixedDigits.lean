import Mathlib.Data.Nat.Digits.Lemmas
import Mathlib.Data.List.Basic
import Mathlib.Algebra.GroupWithZero.Nat
import Mathlib.Order.Lattice

/-!
# Numbers in fixed fields

Numbers written with a fixed number of digits, most significant first; numbers
in fixed numbers of bytes; and texts cut into fields of given widths.
Each way of writing has its reading as an exact inverse on the values and on the
texts of the right form.
-/

set_option autoImplicit false

namespace StaticHostAgent.Library

/-! ## Digits -/

/-- The digits of a number, most significant first. -/
def fixedDigits (base width n : Nat) : List Nat := (base.digitsAppend width n).reverse

/-- The number that the digits write. -/
def ofFixedDigits (base : Nat) (digits : List Nat) : Nat := Nat.ofDigits base digits.reverse

section Digits

variable {base width n : Nat} {digits : List Nat}

theorem fixedDigits_length (hbase : 1 < base) (hn : n < base ^ width) :
    (fixedDigits base width n).length = width := by
  rw [fixedDigits, List.length_reverse, Nat.length_digitsAppend hbase width hn]

theorem lt_of_mem_fixedDigits (hbase : 1 < base) {d : Nat} (hmem : d ∈ fixedDigits base width n) :
    d < base :=
  Nat.lt_of_mem_digitsAppend hbase width d (List.mem_reverse.mp hmem)

theorem ofFixedDigits_fixedDigits (hbase : 1 < base) (hn : n < base ^ width) :
    ofFixedDigits base (fixedDigits base width n) = n := by
  rw [ofFixedDigits, fixedDigits, List.reverse_reverse]
  exact (Nat.setInvOn_digitsAppend_ofDigits hbase width).2 hn

theorem fixedDigits_ofFixedDigits (hbase : 1 < base) (hlength : digits.length = width)
    (hdigits : ∀ d ∈ digits, d < base) :
    fixedDigits base width (ofFixedDigits base digits) = digits := by
  have hform : digits.reverse.length = width ∧ ∀ d ∈ digits.reverse, d < base :=
    ⟨by rw [List.length_reverse, hlength], fun d hmem => hdigits d (List.mem_reverse.mp hmem)⟩
  rw [fixedDigits, ofFixedDigits,
    (Nat.setInvOn_digitsAppend_ofDigits hbase width).1 hform, List.reverse_reverse]

theorem ofFixedDigits_lt (hbase : 1 < base) (hlength : digits.length = width)
    (hdigits : ∀ d ∈ digits, d < base) : ofFixedDigits base digits < base ^ width := by
  have h := Nat.ofDigits_lt_base_pow_length hbase (l := digits.reverse)
    (fun d hmem => hdigits d (List.mem_reverse.mp hmem))
  rwa [List.length_reverse, hlength] at h

end Digits

/-! ## Bytes -/

/-- A number in `width` bytes, most significant first. -/
def packBytes (width n : Nat) : List UInt8 := (fixedDigits 256 width n).map UInt8.ofNat

/-- The number that the bytes write. -/
def unpackBytes (raw : List UInt8) : Nat := ofFixedDigits 256 (raw.map UInt8.toNat)

section Bytes

variable {width n : Nat} {raw : List UInt8}

theorem packBytes_length (hn : n < 256 ^ width) : (packBytes width n).length = width := by
  rw [packBytes, List.length_map, fixedDigits_length (by omega) hn]

theorem byte_lt_of_mem {d : Nat} (hmem : d ∈ raw.map UInt8.toNat) : d < 256 := by
  obtain ⟨byte, _, rfl⟩ := List.mem_map.mp hmem
  exact byte.toNat_lt

theorem unpackBytes_packBytes (hn : n < 256 ^ width) : unpackBytes (packBytes width n) = n := by
  have hmap : (packBytes width n).map UInt8.toNat = fixedDigits 256 width n := by
    rw [packBytes, List.map_map]
    conv_rhs => rw [← List.map_id (fixedDigits 256 width n)]
    refine List.map_congr_left ?_
    intro d hmem
    have hlt : d < 256 := lt_of_mem_fixedDigits (by omega) hmem
    exact UInt8.toNat_ofNat_of_lt hlt
  rw [unpackBytes, hmap, ofFixedDigits_fixedDigits (by omega) hn]

theorem packBytes_unpackBytes (hlength : raw.length = width) :
    packBytes width (unpackBytes raw) = raw := by
  rw [packBytes, unpackBytes, fixedDigits_ofFixedDigits (by omega)
    (by rw [List.length_map, hlength]) (fun d hmem => byte_lt_of_mem hmem), List.map_map]
  conv_rhs => rw [← List.map_id raw]
  refine List.map_congr_left ?_
  intro byte _
  exact UInt8.ofNat_toNat

theorem unpackBytes_lt (hlength : raw.length = width) : unpackBytes raw < 256 ^ width :=
  ofFixedDigits_lt (by omega) (by rw [List.length_map, hlength]) fun _ hmem => byte_lt_of_mem hmem

end Bytes

/-! ## Fields -/

section Fields

variable {α : Type}

/-- Cut a text into fields of the given widths. -/
def splitFields : List Nat → List α → List (List α)
  | [], _ => []
  | width :: widths, raw => raw.take width :: splitFields widths (raw.drop width)

/-- Fields of the given widths are what their concatenation is cut into. -/
theorem splitFields_flatten (fields : List (List α)) :
    splitFields (fields.map List.length) fields.flatten = fields := by
  induction fields with
  | nil => rfl
  | cons field fields ih =>
      simp only [List.map_cons, List.flatten_cons, splitFields, List.take_left, List.drop_left, ih]

/-- A text of the right length is the concatenation of its fields. -/
theorem flatten_splitFields (widths : List Nat) :
    ∀ raw : List α, raw.length = widths.sum → (splitFields widths raw).flatten = raw := by
  induction widths with
  | nil =>
      intro raw hlength
      simp only [List.sum_nil, List.length_eq_zero_iff] at hlength
      rw [hlength]
      rfl
  | cons width widths ih =>
      intro raw hlength
      have hrest : (raw.drop width).length = widths.sum := by
        rw [List.length_drop, hlength, List.sum_cons]
        omega
      rw [splitFields, List.flatten_cons, ih _ hrest, List.take_append_drop]

theorem length_splitFields (widths : List Nat) :
    ∀ raw : List α, raw.length = widths.sum →
      (splitFields widths raw).map List.length = widths := by
  induction widths with
  | nil =>
      intro raw _
      rfl
  | cons width widths ih =>
      intro raw hlength
      rw [List.sum_cons] at hlength
      have hrest : (raw.drop width).length = widths.sum := by
        rw [List.length_drop]
        omega
      rw [splitFields, List.map_cons, ih _ hrest, List.length_take]
      congr 1
      omega

end Fields

end StaticHostAgent.Library
