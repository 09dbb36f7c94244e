import StaticHostAgent.Library.JsonSchema

/-!
# Expansion of common references

Repeated references into the common definitions are replaced by the definitions themselves
(`expandCommonReferences`), so that a validator need not look them up. Only a bounded vocabulary is
expanded; otherwise the schema stays as it is.
-/

set_option autoImplicit false

namespace StaticHostAgent.Contracts

open Library

namespace SchemaExpansion

def draft : String := "https://json-schema.org/draft/2020-12/schema"

def commonId : String :=
  "https://schemas.lowerduckpond.net/static-publication/v1alpha1/common.schema.json"

def commonRef : String := "common.schema.json#/$defs/"

def localRef : String := "#/$defs/"

def maps : List String := ["$defs", "properties", "patternProperties", "dependentSchemas"]

def arrays : List String := ["allOf", "anyOf", "oneOf", "prefixItems"]

def singles : List String :=
  ["additionalProperties", "items", "contains", "propertyNames", "not", "if", "then", "else"]

def literals : List String :=
  ["type", "const", "enum", "required", "format", "pattern", "minimum", "maximum",
    "exclusiveMinimum", "exclusiveMaximum", "multipleOf", "minLength", "maxLength", "minItems",
    "maxItems", "uniqueItems", "minContains", "maxContains", "minProperties", "maxProperties",
    "dependentRequired", "title", "description", "default", "examples", "readOnly", "writeOnly",
    "deprecated", "$comment"]

/-- The number of nodes an expansion may visit. -/
def budget : ℕ := 4096

/-- The number of nested nodes: depth 0 to 64. -/
def maximumLevels : ℕ := 65

/-- An expansion counts the nodes it may still visit; `none` is the unsupported vocabulary. -/
abbrev Expansion := StateT ℕ Option

/-- Visit one node. -/
def spend : Expansion Unit := fun remaining =>
  match remaining with
  | 0 => none
  | remaining + 1 => some ((), remaining)

def unsupported {α : Type} : Expansion α := fun _ => none

/-- `str.removeprefix`, where the string has the prefix. -/
def removePrefix? (start text : String) : Option String :=
  if start.toList.isPrefixOf text.toList then
    some (String.ofList (text.toList.drop start.toList.length))
  else none

/-- The value of one keyword; `expand` is applied to every subschema in it. -/
def expandItem (expand : Json → Expansion Json) (root : Bool) (key : String) (item : Json) :
    Expansion Json :=
  if literals.contains key || root && ["$id", "$schema"].contains key then
    -- A literal example or constant containing "$ref" is data.
    pure item
  else if maps.contains key then
    match item with
    | .object children => do
        let children ← children.mapM fun e => do
          let child ← expand e.2
          pure (e.1, child)
        pure (.object children)
    | _ => unsupported
  else if arrays.contains key then
    match item with
    | .array children => do
        let children ← children.mapM expand
        pure (.array children)
    | _ => unsupported
  else if singles.contains key then
    expand item
  else
    unsupported

/-- What a reference into the definitions becomes, with the keywords beside it. -/
def inline (expanded : Json) (result : List (String × Json)) : Json :=
  if result = [] then
    match expanded with
    | .bool _ => .object [("allOf", .array [expanded])]
    | _ => expanded
  else
    .object [("allOf", .array [expanded, .object result])]

/-- Expand one schema. The stack holds the definitions being expanded, outermost first. -/
def expandSchema (definitions : List (String × Json)) :
    ℕ → Json → List String → Bool → Expansion Json
  | 0, _, _, _ => unsupported
  | levels + 1, value, stack, root => do
      spend
      match value with
      | .bool verdict => pure (.bool verdict)
      | .object entries => do
          let result ← (JsonSchema.withoutReference entries).mapM fun e => do
            let item ← expandItem (fun child => expandSchema definitions levels child stack false)
              root e.1 e.2
            pure (e.1, item)
          match entries.lookup "$ref" with
          | none => pure (.object result)
          | some (.string reference) =>
              match removePrefix? (if stack = [] then commonRef else localRef) reference with
              | none =>
                  if stack = [] then pure (.object (("$ref", .string reference) :: result))
                  else unsupported
              | some name =>
                  match definitions.lookup name with
                  | none => unsupported
                  | some definition =>
                      if stack.contains name || name.toList.any fun c => c = '/' || c = '~' then
                        unsupported
                      else do
                        let expanded ← expandSchema definitions levels definition (stack ++ [name])
                          false
                        pure (inline expanded result)
          | some _ => unsupported
      | _ => unsupported

/-- `identifier.rsplit("/", 1)[0]`. -/
def directory (identifier : String) : List Char :=
  if identifier.toList.contains '/' then
    ((identifier.toList.reverse.dropWhile (· ≠ '/')).drop 1).reverse
  else identifier.toList

/-- The definitions of a common document that a schema may be expanded with. -/
def admitted (schema common : List (String × Json)) : Option (List (String × Json)) :=
  match common.lookup "$id", common.lookup "$schema", schema.lookup "$schema",
      schema.lookup "$id", common.lookup "$defs" with
  | some (.string id), some (.string commonDraft), some (.string schemaDraft),
      some (.string identifier), some (.object definitions) =>
      if id = commonId ∧ commonDraft = draft ∧ schemaDraft = draft ∧
          schema.lookup "$ref" = none ∧ directory identifier = directory commonId ∧
          common.all (fun e => ["$id", "$schema", "$defs"].contains e.1) then
        some definitions
      else none
  | _, _, _, _, _ => none

/-- The expansion of a schema, where it is supported. -/
def expandedSchema (schema common : List (String × Json)) : Option Json := do
  let definitions ← admitted schema common
  let expanded ← expandSchema definitions maximumLevels (.object schema) [] true budget
  some expanded.1

/-- Expand only the bounded static vocabulary; otherwise use the exact original. -/
def expandCommonReferences (schema common : List (String × Json)) : Json :=
  (expandedSchema schema common).getD (.object schema)

end SchemaExpansion

end StaticHostAgent.Contracts
