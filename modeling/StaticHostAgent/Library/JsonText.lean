import StaticHostAgent.Library.JsonSchema
import Mathlib.Data.List.Pairwise
import Mathlib.Data.String.Basic

/-!
# Canonical JSON texts

RFC 8785 serialization and JSON parsing are libraries outside the verified programs. `JsonText`
holds both with the one law such programs rely on: a canonical text is parsed into the document it
was written for. The law is about documents whose members are listed in the canonical order, which
for ASCII names is the order of the names.
-/

set_option autoImplicit false

namespace StaticHostAgent.Library

namespace Json

/-- Different ASCII names in the canonical order. -/
def NamesOrdered (names : List String) : Prop :=
  (∀ name ∈ names, ∀ c ∈ name.toList, c.toNat < 128) ∧ names.Pairwise (· < ·)

instance (names : List String) : Decidable (NamesOrdered names) := by
  unfold NamesOrdered
  infer_instance

/-- The members of every object stand in the canonical order. -/
inductive Ordered : Json → Prop where
  | null : Ordered .null
  | bool (value : Bool) : Ordered (.bool value)
  | number (value : ℚ) : Ordered (.number value)
  | string (value : String) : Ordered (.string value)
  | array (elements : List Json) (h : ∀ e ∈ elements, Ordered e) : Ordered (.array elements)
  | object (members : List (String × Json)) (hnames : NamesOrdered (members.map Prod.fst))
      (h : ∀ member ∈ members, Ordered member.2) : Ordered (.object members)

end Json

/-- A canonical serializer and a parser. The serializer is undefined on numbers that no canonical
text denotes, the parser on texts that denote no document; nesting is within the limits of both. -/
structure JsonText where
  /-- The RFC 8785 bytes of a document followed by one line feed. -/
  dumps : Json → Option (List UInt8)
  /-- The document a text denotes. -/
  loads : List UInt8 → Option Json
  loads_dumps : ∀ j raw, j.Ordered → dumps j = some raw → loads raw = some j

end StaticHostAgent.Library
