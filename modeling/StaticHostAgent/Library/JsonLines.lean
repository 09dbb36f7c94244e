import StaticHostAgent.Library.CanonicalJson

/-!
# Bounded JSON records

A record is the canonical text of a JSON object on one line, no longer than a bound. Decoding a
record gives the object back, so that different objects have different records.
-/

set_option autoImplicit false

namespace StaticHostAgent.Library

/-- A JSON object in its normal form. -/
structure JsonObject where
  members : List (String × Json)
  normal : (Json.object members).Normal

namespace JsonObject

/-- The object as a document. -/
def json (o : JsonObject) : Json := .object o.members

theorem json_injective {o o' : JsonObject} (h : o.json = o'.json) : o = o' := by
  cases o
  cases o'
  cases h
  rfl

end JsonObject

namespace CanonicalText

/-- The record of a document, if it has a canonical text that fits. -/
def encodeRecord (t : CanonicalText) (document : Json) (maximum : Nat) : Option (List UInt8) := do
  let text ← t.dumps document
  if text.length + 1 ≤ maximum then some (text ++ [10]) else none

/-- The members of the object that the bytes hold. -/
def decodeRecord (t : CanonicalText) (raw : List UInt8) (maximum : Nat) :
    Option (List (String × Json)) :=
  if raw.length ≤ maximum then
    match t.loads raw with
    | some (.object members) => some members
    | _ => none
  else none

variable {t : CanonicalText} {maximum : Nat} {raw : List UInt8}

theorem encodeRecord_eq_some {document : Json} :
    t.encodeRecord document maximum = some raw ↔
      ∃ text, t.dumps document = some text ∧ text.length + 1 ≤ maximum ∧ raw = text ++ [10] := by
  unfold encodeRecord
  rw [Option.bind_eq_bind, Option.bind_eq_some_iff]
  constructor
  · rintro ⟨text, htext, hraw⟩
    split at hraw
    · rename_i hsize
      exact ⟨text, htext, hsize, (Option.some.inj hraw).symm⟩
    · cases hraw
  · rintro ⟨text, htext, hsize, rfl⟩
    exact ⟨text, htext, if_pos hsize⟩

theorem encodeRecord_length {document : Json} (h : t.encodeRecord document maximum = some raw) :
    raw.length ≤ maximum := by
  obtain ⟨text, -, hsize, rfl⟩ := encodeRecord_eq_some.1 h
  rw [List.length_append]
  exact hsize

theorem decodeRecord_eq_some {members : List (String × Json)} :
    t.decodeRecord raw maximum = some members ↔
      raw.length ≤ maximum ∧ t.loads raw = some (.object members) := by
  unfold decodeRecord
  constructor
  · intro hdecode
    split at hdecode
    · rename_i hsize
      split at hdecode
      · rename_i members hloads
        obtain rfl := Option.some.inj hdecode
        exact ⟨hsize, hloads⟩
      · cases hdecode
    · cases hdecode
  · rintro ⟨hsize, hloads⟩
    rw [if_pos hsize, hloads]

theorem decodeRecord_normal {members : List (String × Json)}
    (h : t.decodeRecord raw maximum = some members) : (Json.object members).Normal :=
  t.loads_normal _ _ (decodeRecord_eq_some.1 h).2

/-- A record is read as the object it was written for. -/
theorem decodeRecord_encodeRecord {o : JsonObject} (h : t.encodeRecord o.json maximum = some raw) :
    t.decodeRecord raw maximum = some o.members := by
  refine decodeRecord_eq_some.2 ⟨encodeRecord_length h, ?_⟩
  obtain ⟨text, htext, -, rfl⟩ := encodeRecord_eq_some.1 h
  exact t.loads_line _ text o.normal htext

theorem encodeRecord_injective {o o' : JsonObject} (h : t.encodeRecord o.json maximum = some raw)
    (h' : t.encodeRecord o'.json maximum = some raw) : o = o' := by
  have hmembers := (decodeRecord_encodeRecord h).symm.trans (decodeRecord_encodeRecord h')
  exact JsonObject.json_injective (congrArg Json.object (Option.some.inj hmembers))

/-- The bytes are the record of some object. -/
def Recorded (t : CanonicalText) (maximum : Nat) (raw : List UInt8) : Prop :=
  ∃ o : JsonObject, t.encodeRecord o.json maximum = some raw

end CanonicalText

end StaticHostAgent.Library
