import Mathlib.Data.List.Basic
import Mathlib.Algebra.GroupWithZero.Nat
import Mathlib.Order.Lattice

/-!
# Statements about the elements of a list

A statement about the characters of a text is decided by going through the text. The instance has
priority because there is another one that goes through all characters there are.
-/

set_option autoImplicit false

namespace StaticHostAgent.Library

instance (priority := high) decidableForallMem {α : Type} (p : α → Prop) [DecidablePred p]
    (elements : List α) : Decidable (∀ c ∈ elements, p c) :=
  List.decidableBAll p elements

end StaticHostAgent.Library
