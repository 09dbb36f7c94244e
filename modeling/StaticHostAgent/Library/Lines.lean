import Mathlib.Data.List.Basic
import Mathlib.Algebra.GroupWithZero.Nat
import Mathlib.Order.Lattice

/-!
# Lines of a byte string

`splitLines` breaks after a line feed, a carriage return, or the pair of both and keeps the breaks;
`splitNewlines` breaks after a line feed only. A `CleanLine` has one line feed, at its end, and no
carriage return. On a concatenation of clean lines both give the lines back
(`splitLines_flatten`, `splitNewlines_flatten`).
-/

set_option autoImplicit false

namespace StaticHostAgent.Library

/-- Put a byte in front of the first line. -/
def consLine (b : UInt8) : List (List UInt8) → List (List UInt8)
  | [] => [[b]]
  | line :: lines => (b :: line) :: lines

/-- Break after `\n`, `\r` and `\r\n`, keeping the breaks. -/
def splitLines : List UInt8 → List (List UInt8)
  | [] => []
  | b :: rest =>
      if b = 10 then [b] :: splitLines rest
      else if b = 13 ∧ rest.head? ≠ some 10 then [b] :: splitLines rest
      else consLine b (splitLines rest)

/-- Break after `\n` only, keeping the breaks. -/
def splitNewlines : List UInt8 → List (List UInt8)
  | [] => []
  | b :: rest =>
      if b = 10 then [b] :: splitNewlines rest else consLine b (splitNewlines rest)

/-- One line feed, at the end, and no carriage return. -/
def CleanLine (line : List UInt8) : Prop :=
  ∃ body : List UInt8, line = body ++ [10] ∧ 10 ∉ body ∧ 13 ∉ body

theorem CleanLine.ne_nil {line : List UInt8} (h : CleanLine line) : line ≠ [] := by
  obtain ⟨body, rfl, -, -⟩ := h
  simp

theorem CleanLine.endsWith {line : List UInt8} (h : CleanLine line) :
    line.getLast? = some 10 := by
  obtain ⟨body, rfl, -, -⟩ := h
  simp

theorem splitLines_plain {b : UInt8} (hlf : b ≠ 10) (hcr : b ≠ 13) (rest : List UInt8) :
    splitLines (b :: rest) = consLine b (splitLines rest) := by
  rw [splitLines]
  simp [hlf, hcr]

theorem splitLines_lf (rest : List UInt8) : splitLines (10 :: rest) = [10] :: splitLines rest := by
  rw [splitLines]
  simp

theorem splitNewlines_plain {b : UInt8} (hlf : b ≠ 10) (rest : List UInt8) :
    splitNewlines (b :: rest) = consLine b (splitNewlines rest) := by
  rw [splitNewlines]
  simp [hlf]

/-- A clean line in front is the first line. -/
theorem splitLines_clean_append {line : List UInt8} (h : CleanLine line) (rest : List UInt8) :
    splitLines (line ++ rest) = line :: splitLines rest := by
  obtain ⟨body, rfl, hlf, hcr⟩ := h
  induction body with
  | nil => exact splitLines_lf rest
  | cons b body ih =>
      rw [List.mem_cons, not_or] at hlf hcr
      have htail := ih hlf.2 hcr.2
      rw [List.cons_append, List.cons_append, splitLines_plain (Ne.symm hlf.1) (Ne.symm hcr.1),
        htail]
      rfl

theorem splitNewlines_clean_append {line : List UInt8} (h : CleanLine line) (rest : List UInt8) :
    splitNewlines (line ++ rest) = line :: splitNewlines rest := by
  obtain ⟨body, rfl, hlf, -⟩ := h
  induction body with
  | nil =>
      rw [List.nil_append, List.singleton_append, splitNewlines]
      simp
  | cons b body ih =>
      rw [List.mem_cons, not_or] at hlf
      have htail := ih hlf.2
      rw [List.cons_append, List.cons_append, splitNewlines_plain (Ne.symm hlf.1), htail]
      rfl

theorem splitLines_flatten {lines : List (List UInt8)} (h : ∀ l ∈ lines, CleanLine l) :
    splitLines lines.flatten = lines := by
  induction lines with
  | nil => rfl
  | cons line lines ih =>
      rw [List.flatten_cons, splitLines_clean_append (h line List.mem_cons_self),
        ih fun l hl => h l (List.mem_cons_of_mem line hl)]

theorem splitNewlines_flatten {lines : List (List UInt8)} (h : ∀ l ∈ lines, CleanLine l) :
    splitNewlines lines.flatten = lines := by
  induction lines with
  | nil => rfl
  | cons line lines ih =>
      rw [List.flatten_cons, splitNewlines_clean_append (h line List.mem_cons_self),
        ih fun l hl => h l (List.mem_cons_of_mem line hl)]

theorem flatten_consLine (b : UInt8) (lines : List (List UInt8)) :
    (consLine b lines).flatten = b :: lines.flatten := by
  cases lines <;> rfl

/-- Splitting loses nothing. -/
theorem flatten_splitNewlines (raw : List UInt8) : (splitNewlines raw).flatten = raw := by
  induction raw with
  | nil => rfl
  | cons b rest ih =>
      rw [splitNewlines]
      split
      · rw [List.flatten_cons, ih]
        rfl
      · rw [flatten_consLine, ih]

theorem flatten_splitLines (raw : List UInt8) : (splitLines raw).flatten = raw := by
  induction raw with
  | nil => rfl
  | cons b rest ih =>
      rw [splitLines]
      split
      · rw [List.flatten_cons, ih]
        rfl
      · split
        · rw [List.flatten_cons, ih]
          rfl
        · rw [flatten_consLine, ih]

/-- A clean line behind clean lines is one more line. -/
theorem splitLines_append_clean {raw line : List UInt8} (hraw : ∀ l ∈ splitLines raw, CleanLine l)
    (hline : CleanLine line) : splitLines (raw ++ line) = splitLines raw ++ [line] := by
  have hall : ∀ l ∈ splitLines raw ++ [line], CleanLine l := by
    intro l hl
    rcases List.mem_append.1 hl with hl | hl
    · exact hraw l hl
    · rw [List.mem_singleton.1 hl]
      exact hline
  have hflat : (splitLines raw ++ [line]).flatten = raw ++ line := by
    rw [List.flatten_append, flatten_splitLines]
    simp
  rw [← hflat, splitLines_flatten hall]

end StaticHostAgent.Library
