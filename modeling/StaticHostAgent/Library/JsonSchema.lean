import StaticHostAgent.Library.Characters
import Mathlib.Data.Rat.Defs
import Mathlib.Data.List.Forall2
import Mathlib.Logic.Relation

/-!
# JSON Schema validation

Validation of a JSON instance against a schema of the 2020-12 draft, in a set of documents that
refer to one another. A validator is told by a `Dialect` what the keywords without subschemas
assert, which names a pattern matches and how references are read. Its outcome is undefined
(`none`) when it meets a keyword outside the vocabulary or a reference that leads to no schema, or
when the fuel does not suffice.

`EntriesRewritten` relates two schema objects that differ only in their subschemas, and
`assertions_congr` says that validation respects it.
-/

set_option autoImplicit false

namespace StaticHostAgent.Library

inductive Json where
  | null
  | bool (value : Bool)
  | number (value : ℚ)
  | string (value : String)
  | array (elements : List Json)
  | object (members : List (String × Json))

namespace Json

/-- The members of an object; anything else has none. -/
def members : Json → List (String × Json)
  | .object members => members
  | _ => []

/-- The elements of an array; anything else has none. -/
def elements : Json → List Json
  | .array elements => elements
  | _ => []

end Json

namespace JsonSchema

/-- What a keyword's value holds: schemas by name, a list of schemas, or one schema. -/
inductive Shape where
  | map | array | single
  deriving DecidableEq

/-- The keywords that hold subschemas. -/
inductive Applicator where
  | defs | properties | patternProperties | dependentSchemas
  | allOf | anyOf | oneOf | prefixItems
  | additionalProperties | items | contains | propertyNames | not | if | then | else
  deriving DecidableEq

def Applicator.shape : Applicator → Shape
  | .defs | .properties | .patternProperties | .dependentSchemas => .map
  | .allOf | .anyOf | .oneOf | .prefixItems => .array
  | .additionalProperties | .items | .contains | .propertyNames | .not | .if | .then | .else =>
      .single

def applicators : List (String × Applicator) :=
  [("$defs", .defs), ("properties", .properties), ("patternProperties", .patternProperties),
    ("dependentSchemas", .dependentSchemas), ("allOf", .allOf), ("anyOf", .anyOf),
    ("oneOf", .oneOf), ("prefixItems", .prefixItems),
    ("additionalProperties", .additionalProperties), ("items", .items), ("contains", .contains),
    ("propertyNames", .propertyNames), ("not", .not), ("if", .if), ("then", .then),
    ("else", .else)]

def applicator? (keyword : String) : Option Applicator := applicators.lookup keyword

/-- What validation takes from outside the schema language: the assertions of the other keywords
(none outside the vocabulary), the regular expressions, the resolution of a relative reference
against a base URI, and percent-decoding. -/
structure Dialect where
  asserts : String → Json → Json → Option Bool
  matchesPattern : String → String → Bool
  join : String → String → String
  unquote : List Char → List Char

/-! ## Keywords -/

/-- The names that a sibling keyword of `additionalProperties` speaks about. -/
def namesOf (entries : List (String × Json)) (keyword : String) : List String :=
  ((entries.lookup keyword).elim [] Json.members).map Prod.fst

/-- A bound on the count of `contains`. -/
def countBound (entries : List (String × Json)) (keyword : String) (default : Option ℚ) :
    Option ℚ :=
  match entries.lookup keyword with
  | some (.number bound) => some bound
  | _ => default

/-- The subschemas that a keyword applies, each with the value it is applied to. -/
def Applicator.tasks (dialect : Dialect) (entries : List (String × Json)) (item value : Json) :
    Applicator → List (Json × Json)
  | .defs | .then | .else => []
  | .properties => item.members.filterMap fun e =>
      (value.members.lookup e.1).map fun v => (e.2, v)
  | .patternProperties => item.members.flatMap fun e =>
      (value.members.filter fun m => dialect.matchesPattern e.1 m.1).map fun m => (e.2, m.2)
  | .dependentSchemas => item.members.filterMap fun e =>
      (value.members.lookup e.1).map fun _ => (e.2, value)
  | .allOf | .anyOf | .oneOf => item.elements.map fun child => (child, value)
  | .prefixItems => item.elements.zip value.elements
  | .additionalProperties => (value.members.filter fun m =>
      !(namesOf entries "properties").contains m.1 &&
        !(namesOf entries "patternProperties").any fun pattern =>
          dialect.matchesPattern pattern m.1).map fun m => (item, m.2)
  | .items => (value.elements.drop
      ((entries.lookup "prefixItems").elim [] Json.elements).length).map fun v => (item, v)
  | .contains => value.elements.map fun v => (item, v)
  | .propertyNames => value.members.map fun m => (item, .string m.1)
  | .not | .if => [(item, value)]

/-- What a keyword makes of the verdicts on its subschemas. -/
def Applicator.verdict (entries : List (String × Json)) (value : Json) (verdicts : List Bool) :
    Applicator → Bool
  | .anyOf => verdicts.any id
  | .oneOf => verdicts.count true = 1
  | .not => !verdicts.all id
  | .contains =>
      match value with
      | .array _ =>
          (countBound entries "minContains" (some 1)).all (fun bound =>
            bound ≤ (verdicts.count true : ℚ)) &&
          (countBound entries "maxContains" none).all fun bound =>
            (verdicts.count true : ℚ) ≤ bound
      | _ => true
  | _ => verdicts.all id

def Shape.fits : Shape → Json → Bool
  | .map, .object _ => true
  | .array, .array _ => true
  | .single, _ => true
  | _, _ => false

/-- The verdict of one keyword; `validate` judges a subschema. Of the branches of `if` only the
one chosen is judged. -/
def assertion (dialect : Dialect) (validate : Json → Json → Option Bool)
    (entries : List (String × Json)) (keyword : String) (item value : Json) : Option Bool :=
  match applicator? keyword with
  | none => dialect.asserts keyword item value
  | some .if => do
      let condition ← validate item value
      match entries.lookup (if condition then "then" else "else") with
      | none => some true
      | some branch => validate branch value
  | some applicator =>
      if applicator.shape.fits item then do
        let verdicts ← (applicator.tasks dialect entries item value).mapM fun task =>
          validate task.1 task.2
        some (applicator.verdict entries value verdicts)
      else none

/-- The verdict of all keywords of an object. -/
def assertions (dialect : Dialect) (validate : Json → Json → Option Bool)
    (entries : List (String × Json)) (value : Json) : Option Bool := do
  let verdicts ← entries.mapM fun e => assertion dialect validate entries e.1 e.2 value
  some (verdicts.all id)

/-- What the keywords of an object apply to a value: a subschema, with the value that it judges. Of
the branches of `if` it is the one that the verdict on the condition chooses. -/
inductive Applied (dialect : Dialect) (judged : Json → Json → Bool → Prop)
    (entries : List (String × Json)) (value : Json) : Json → Json → Prop
  | task {keyword : String} {item child v : Json} {applicator : Applicator}
      (hitem : (keyword, item) ∈ entries) (happlicator : applicator? keyword = some applicator)
      (hfits : applicator.shape.fits item = true)
      (htask : (child, v) ∈ applicator.tasks dialect entries item value) :
      Applied dialect judged entries value child v
  | branch {keyword : String} {condition branch : Json} {verdict : Bool}
      (hitem : (keyword, condition) ∈ entries) (happlicator : applicator? keyword = some .if)
      (hjudged : judged condition value verdict)
      (hbranch : entries.lookup (if verdict then "then" else "else") = some branch) :
      Applied dialect judged entries value branch value

theorem Applied.mono {dialect : Dialect} {judged judged' : Json → Json → Bool → Prop}
    {entries : List (String × Json)} {value child v : Json}
    (h : Applied dialect judged entries value child v)
    (hjudged : ∀ condition verdict, judged condition value verdict →
      judged' condition value verdict) : Applied dialect judged' entries value child v := by
  cases h with
  | task hitem happlicator hfits htask => exact .task hitem happlicator hfits htask
  | branch hitem happlicator hverdict hbranch =>
      exact .branch hitem happlicator (hjudged _ _ hverdict) hbranch

/-- The condition of an object is applied to the value itself. -/
theorem Applied.condition {dialect : Dialect} {judged : Json → Json → Bool → Prop}
    {entries : List (String × Json)} {keyword : String} {value condition : Json}
    (hitem : (keyword, condition) ∈ entries) (happlicator : applicator? keyword = some .if) :
    Applied dialect judged entries value condition value :=
  .task hitem happlicator rfl (List.mem_singleton.2 rfl)

/-! ## References -/

/-- An array index of a JSON pointer, without leading zeros. -/
def arrayIndex (segment : String) : Option ℕ :=
  match segment.toList with
  | ['0'] => some 0
  | c :: cs => if c ≠ '0' && (c :: cs).all Char.isDigit then segment.toNat? else none
  | [] => none

/-- Follow a JSON pointer through the schemas of a document. A pointer that leaves them has no
target. -/
def walk : List String → Json → Option Json
  | [], schema => some schema
  | keyword :: rest, .object entries =>
      match (applicator? keyword).map Applicator.shape, entries.lookup keyword, rest with
      | some .single, some child, rest => walk rest child
      | some .map, some (.object children), name :: rest =>
          match children.lookup name with
          | some child => walk rest child
          | none => none
      | some .array, some (.array children), index :: rest =>
          match (arrayIndex index).bind fun i => children[i]? with
          | some child => walk rest child
          | none => none
      | _, _, _ => none
  | _, _ => none

/-- `~1` stands for a slash and `~0` for a tilde. -/
def unescape : List Char → List Char
  | '~' :: '1' :: rest => '/' :: unescape rest
  | '~' :: '0' :: rest => '~' :: unescape rest
  | c :: rest => c :: unescape rest
  | [] => []

/-- The segments of a URI fragment that is a JSON pointer. -/
def pointerSegments : List Char → Option (List String)
  | [] => some []
  | '/' :: pointer => some ((pointer.splitOn '/').map fun s => String.ofList (unescape s))
  | _ => none

/-- The document and the pointer that a reference means in the document `base`. -/
def target (dialect : Dialect) (base reference : String) : Option (String × List String) := do
  let document := reference.toList.takeWhile (· ≠ '#')
  let fragment := (reference.toList.dropWhile (· ≠ '#')).drop 1
  let segments ← pointerSegments (dialect.unquote fragment)
  some (if document = [] then base else dialect.join base (String.ofList document), segments)

/-- The document of a reference and the schema it leads to. -/
def resolve (dialect : Dialect) (documents : String → Option Json) (base reference : String) :
    Option (String × Json) := do
  let (uri, segments) ← target dialect base reference
  let document ← documents uri
  let schema ← walk segments document
  some (uri, schema)

/-! ## Validation -/

def withoutReference (entries : List (String × Json)) : List (String × Json) :=
  entries.filter fun e => e.1 ≠ "$ref"

/-- The verdict of the schema that an object refers to, if it refers to one. -/
def referenced (dialect : Dialect) (documents : String → Option Json)
    (validate : String → Json → Json → Option Bool) (base : String)
    (entries : List (String × Json)) (value : Json) : Option Bool :=
  match entries.lookup "$ref" with
  | none => some true
  | some (.string reference) =>
      (resolve dialect documents base reference).bind fun found => validate found.1 found.2 value
  | some _ => none

/-- Validate a value against a schema of the document `base`; a reference and the keywords beside it
all have to accept. -/
def validate (dialect : Dialect) (documents : String → Option Json) :
    ℕ → String → Json → Json → Option Bool
  | 0, _, _, _ => none
  | fuel + 1, base, schema, value =>
      match schema with
      | .bool verdict => some verdict
      | .object entries => do
          let first ← referenced dialect documents (validate dialect documents fuel) base entries
            value
          let rest ← assertions dialect (validate dialect documents fuel base)
            (withoutReference entries) value
          some (first && rest)
      | _ => none

theorem validate_object_eq_some {dialect : Dialect} {documents : String → Option Json} {fuel : ℕ}
    {base : String} {entries : List (String × Json)} {value : Json} {verdict : Bool} :
    validate dialect documents (fuel + 1) base (.object entries) value = some verdict ↔
      ∃ first rest,
        referenced dialect documents (validate dialect documents fuel) base entries value =
          some first ∧
        assertions dialect (validate dialect documents fuel base) (withoutReference entries)
          value = some rest ∧
        (first && rest) = verdict := by
  show (do
    let first ← referenced dialect documents (validate dialect documents fuel) base entries value
    let rest ← assertions dialect (validate dialect documents fuel base)
      (withoutReference entries) value
    some (first && rest)) = some verdict ↔ _
  simp only [Option.bind_eq_bind, Option.bind_eq_some_iff, Option.some.injEq]
  constructor
  · rintro ⟨first, hfirst, rest, hrest, h⟩
    exact ⟨first, rest, hfirst, hrest, h⟩
  · rintro ⟨first, rest, hfirst, hrest, h⟩
    exact ⟨first, hfirst, rest, hrest, h⟩

/-- The outcome of validation with enough fuel. -/
def Outcome (dialect : Dialect) (documents : String → Option Json) (base : String)
    (schema value : Json) (verdict : Bool) : Prop :=
  ∃ fuel, validate dialect documents fuel base schema value = some verdict

theorem mem_of_lookup {entries : List (String × Json)} {key : String} {item : Json}
    (h : entries.lookup key = some item) : (key, item) ∈ entries := by
  induction entries with
  | nil => cases h
  | cons e es ih =>
      rw [List.lookup_cons] at h
      split at h
      · rename_i hkey
        cases h
        rw [beq_iff_eq.1 hkey]
        exact List.mem_cons_self
      · exact List.mem_cons_of_mem e (ih h)

/-! ## Schemas that differ in their subschemas -/

theorem forall₂_mem {α β : Type} {Rel : α → β → Prop} {xs : List α} {ys : List β}
    (h : List.Forall₂ Rel xs ys) :
    List.Forall₂ (fun x y => x ∈ xs ∧ y ∈ ys ∧ Rel x y) xs ys := by
  induction h with
  | nil => exact List.Forall₂.nil
  | cons hxy _ ih =>
      exact List.Forall₂.cons ⟨List.mem_cons_self, List.mem_cons_self, hxy⟩
        (ih.imp fun _ _ h => ⟨List.mem_cons_of_mem _ h.1, List.mem_cons_of_mem _ h.2.1, h.2.2⟩)

/-- What an element of the first list is related to. -/
theorem forall₂_exists {α β : Type} {Rel : α → β → Prop} {xs : List α} {ys : List β}
    (h : List.Forall₂ Rel xs ys) {x : α} (hx : x ∈ xs) : ∃ y ∈ ys, Rel x y := by
  induction h with
  | nil => cases hx
  | cons hxy _ ih =>
      rcases List.mem_cons.1 hx with rfl | hx
      · exact ⟨_, List.mem_cons_self, hxy⟩
      · obtain ⟨y, hy, hrel⟩ := ih hx
        exact ⟨y, List.mem_cons_of_mem _ hy, hrel⟩

section Rewriting

variable {R : Json → Json → Prop}

/-- The same value up to its subschemas; a value without the shape that its keyword asks for stays
as it is. -/
def ItemRewritten (R : Json → Json → Prop) (keyword : String) (item item' : Json) : Prop :=
  match (applicator? keyword).map Applicator.shape with
  | none => item = item'
  | some .map => (∃ children children', item = .object children ∧ item' = .object children' ∧
      List.Forall₂ (fun e e' => e.1 = e'.1 ∧ R e.2 e'.2) children children') ∨
      Shape.map.fits item = false ∧ item = item'
  | some .array => (∃ children children', item = .array children ∧ item' = .array children' ∧
      List.Forall₂ R children children') ∨ Shape.array.fits item = false ∧ item = item'
  | some .single => R item item'

/-- The same keywords in the same order, with the same values up to their subschemas. -/
def EntriesRewritten (R : Json → Json → Prop) (entries entries' : List (String × Json)) : Prop :=
  List.Forall₂ (fun e e' => e.1 = e'.1 ∧ ItemRewritten R e.1 e.2 e'.2) entries entries'

theorem itemRewritten_map {keyword : String} {item item' : Json} {applicator : Applicator}
    (ha : applicator? keyword = some applicator) (hshape : applicator.shape = .map)
    (h : ItemRewritten R keyword item item') :
    (∃ children children', item = .object children ∧ item' = .object children' ∧
      List.Forall₂ (fun e e' => e.1 = e'.1 ∧ R e.2 e'.2) children children') ∨
      Shape.map.fits item = false ∧ item = item' := by
  simpa only [ItemRewritten, ha, Option.map_some, hshape] using h

theorem itemRewritten_array {keyword : String} {item item' : Json} {applicator : Applicator}
    (ha : applicator? keyword = some applicator) (hshape : applicator.shape = .array)
    (h : ItemRewritten R keyword item item') :
    (∃ children children', item = .array children ∧ item' = .array children' ∧
      List.Forall₂ R children children') ∨ Shape.array.fits item = false ∧ item = item' := by
  simpa only [ItemRewritten, ha, Option.map_some, hshape] using h

theorem itemRewritten_single {keyword : String} {item item' : Json} {applicator : Applicator}
    (ha : applicator? keyword = some applicator) (hshape : applicator.shape = .single)
    (h : ItemRewritten R keyword item item') : R item item' := by
  simpa only [ItemRewritten, ha, Option.map_some, hshape] using h

theorem itemRewritten_literal {keyword : String} {item item' : Json}
    (ha : applicator? keyword = none) (h : ItemRewritten R keyword item item') : item = item' := by
  simpa only [ItemRewritten, ha, Option.map_none] using h

/-- Keywords are found in both objects or in neither. -/
theorem EntriesRewritten.lookup {entries entries' : List (String × Json)}
    (h : EntriesRewritten R entries entries') (keyword : String) :
    (entries.lookup keyword = none ∧ entries'.lookup keyword = none) ∨
      ∃ item item', entries.lookup keyword = some item ∧ entries'.lookup keyword = some item' ∧
        ItemRewritten R keyword item item' := by
  induction h with
  | nil => exact Or.inl ⟨rfl, rfl⟩
  | @cons e e' es es' he _ ih =>
      obtain ⟨k, item⟩ := e
      obtain ⟨k', item'⟩ := e'
      obtain ⟨hk, hitem⟩ := he
      change k = k' at hk
      subst hk
      rw [List.lookup_cons, List.lookup_cons]
      by_cases hsame : keyword = k
      · subst hsame
        right
        exact ⟨item, item', by simp, by simp, hitem⟩
      · rw [beq_eq_false_iff_ne.2 hsame]
        exact ih

theorem forall₂_keys {es es' : List (String × Json)}
    (h : List.Forall₂ (fun e e' => e.1 = e'.1 ∧ R e.2 e'.2) es es') :
    es.map Prod.fst = es'.map Prod.fst := by
  induction h with
  | nil => rfl
  | cons he _ ih => rw [List.map_cons, List.map_cons, he.1, ih]

variable {entries entries' : List (String × Json)}

theorem namesOf_rewritten (h : EntriesRewritten R entries entries') {keyword : String}
    {applicator : Applicator} (ha : applicator? keyword = some applicator)
    (hshape : applicator.shape = .map) : namesOf entries keyword = namesOf entries' keyword := by
  unfold namesOf
  rcases h.lookup keyword with ⟨hnone, hnone'⟩ | ⟨item, item', hsome, hsome', hitem⟩
  · rw [hnone, hnone']
  · rw [hsome, hsome']
    rcases itemRewritten_map ha hshape hitem with ⟨children, children', rfl, rfl, hchildren⟩ | h
    · exact forall₂_keys hchildren
    · rw [h.2]

theorem countBound_rewritten (h : EntriesRewritten R entries entries') {keyword : String}
    (ha : applicator? keyword = none) (default : Option ℚ) :
    countBound entries keyword default = countBound entries' keyword default := by
  unfold countBound
  rcases h.lookup keyword with ⟨hnone, hnone'⟩ | ⟨item, item', hsome, hsome', hitem⟩
  · rw [hnone, hnone']
  · rw [hsome, hsome', itemRewritten_literal ha hitem]

theorem prefixLength_rewritten (h : EntriesRewritten R entries entries') :
    ((entries.lookup "prefixItems").elim [] Json.elements).length =
      ((entries'.lookup "prefixItems").elim [] Json.elements).length := by
  rcases h.lookup "prefixItems" with ⟨hnone, hnone'⟩ | ⟨item, item', hsome, hsome', hitem⟩
  · rw [hnone, hnone']
  · rw [hsome, hsome']
    rcases (@itemRewritten_array _ _ _ _ .prefixItems) (by decide) rfl hitem with
      ⟨children, children', rfl, rfl, hchildren⟩ | h
    · exact hchildren.length_eq
    · rw [h.2]

theorem verdict_rewritten (h : EntriesRewritten R entries entries') (value : Json)
    (verdicts : List Bool) (applicator : Applicator) :
    applicator.verdict entries value verdicts = applicator.verdict entries' value verdicts := by
  cases applicator with
  | contains =>
      cases value with
      | array _ =>
          simp only [Applicator.verdict,
            (@countBound_rewritten _ _ _ h "minContains") (by decide),
            (@countBound_rewritten _ _ _ h "maxContains") (by decide)]
      | _ => rfl
  | _ => rfl

/-- The same values, each with a subschema and what it became. -/
def TasksRewritten (R : Json → Json → Prop) (ts ts' : List (Json × Json)) : Prop :=
  List.Forall₂ (fun t t' => R t.1 t'.1 ∧ t.2 = t'.2) ts ts'

theorem tasks_same_child {child child' : Json} (h : R child child') (values : List Json) :
    TasksRewritten R (values.map fun v => (child, v)) (values.map fun v => (child', v)) := by
  induction values with
  | nil => exact List.Forall₂.nil
  | cons v vs ih => exact List.Forall₂.cons ⟨h, rfl⟩ ih

theorem tasks_same_value {children children' : List Json} (h : List.Forall₂ R children children')
    (value : Json) : TasksRewritten R (children.map fun child => (child, value))
      (children'.map fun child => (child, value)) := by
  induction h with
  | nil => exact List.Forall₂.nil
  | cons hchild _ ih => exact List.Forall₂.cons ⟨hchild, rfl⟩ ih

theorem tasks_zip {children children' : List Json} (h : List.Forall₂ R children children') :
    ∀ values : List Json, TasksRewritten R (children.zip values) (children'.zip values) := by
  induction h with
  | nil => exact fun values => List.Forall₂.nil
  | cons hchild _ ih =>
      intro values
      cases values with
      | nil => exact List.Forall₂.nil
      | cons v vs => exact List.Forall₂.cons ⟨hchild, rfl⟩ (ih vs)

/-- Tasks collected from named subschemas, a list of values for each name. -/
theorem tasks_named {children children' : List (String × Json)}
    (h : List.Forall₂ (fun e e' => e.1 = e'.1 ∧ R e.2 e'.2) children children')
    (values : String → List Json) :
    TasksRewritten R (children.flatMap fun e => (values e.1).map fun v => (e.2, v))
      (children'.flatMap fun e => (values e.1).map fun v => (e.2, v)) := by
  induction h with
  | nil => exact List.Forall₂.nil
  | cons he _ ih =>
      rw [List.flatMap_cons, List.flatMap_cons, he.1]
      exact List.rel_append (tasks_same_child he.2 _) ih

theorem filterMap_eq_flatMap (children : List (String × Json)) (value : String → Option Json) :
    (children.filterMap fun e => (value e.1).map fun v => (e.2, v)) =
      children.flatMap fun e => (value e.1).toList.map fun v => (e.2, v) := by
  induction children with
  | nil => rfl
  | cons e es ih =>
      rw [List.flatMap_cons, ← ih]
      cases h : value e.1 with
      | none => rw [List.filterMap_cons_none (by simp [h])]; simp
      | some v => rw [List.filterMap_cons_some (b := (e.2, v)) (by simp [h])]; simp

theorem tasks_rewritten {keyword : String} {item item' : Json} {applicator : Applicator}
    (dialect : Dialect) (h : EntriesRewritten R entries entries')
    (ha : applicator? keyword = some applicator) (hitem : ItemRewritten R keyword item item')
    (hfits : applicator.shape.fits item = true) (value : Json) :
    TasksRewritten R (applicator.tasks dialect entries item value)
      (applicator.tasks dialect entries' item' value) := by
  have hmap : applicator.shape = .map → ∃ children children', item = .object children ∧
      item' = .object children' ∧
      List.Forall₂ (fun e e' => e.1 = e'.1 ∧ R e.2 e'.2) children children' := by
    intro hshape
    refine (itemRewritten_map ha hshape hitem).resolve_right fun h => ?_
    rw [hshape, h.1] at hfits
    cases hfits
  have harray : applicator.shape = .array → ∃ children children', item = .array children ∧
      item' = .array children' ∧ List.Forall₂ R children children' := by
    intro hshape
    refine (itemRewritten_array ha hshape hitem).resolve_right fun h => ?_
    rw [hshape, h.1] at hfits
    cases hfits
  -- by the shape of the keyword: maps go by name, arrays by position, single schemas to all values
  cases applicator with
  | defs | «then» | «else» => exact List.Forall₂.nil
  | properties =>
      obtain ⟨children, children', rfl, rfl, hchildren⟩ := hmap rfl
      show TasksRewritten R (children.filterMap _) (children'.filterMap _)
      rw [filterMap_eq_flatMap children fun name => value.members.lookup name,
        filterMap_eq_flatMap children' fun name => value.members.lookup name]
      exact tasks_named hchildren fun name => (value.members.lookup name).toList
  | dependentSchemas =>
      obtain ⟨children, children', rfl, rfl, hchildren⟩ := hmap rfl
      have hconstant : ∀ children : List (String × Json),
          (children.filterMap fun e => (value.members.lookup e.1).map fun _ => (e.2, value)) =
            children.filterMap fun e =>
              ((value.members.lookup e.1).map fun _ => value).map fun v => (e.2, v) := by
        intro children
        simp only [Option.map_map]
        rfl
      show TasksRewritten R (children.filterMap _) (children'.filterMap _)
      rw [hconstant, hconstant,
        filterMap_eq_flatMap children fun name => (value.members.lookup name).map fun _ => value,
        filterMap_eq_flatMap children' fun name => (value.members.lookup name).map fun _ => value]
      exact tasks_named hchildren fun name =>
        ((value.members.lookup name).map fun _ => value).toList
  | patternProperties =>
      obtain ⟨children, children', rfl, rfl, hchildren⟩ := hmap rfl
      have hvalues := tasks_named hchildren fun pattern =>
        (value.members.filter fun m => dialect.matchesPattern pattern m.1).map Prod.snd
      simp only [List.map_map] at hvalues
      exact hvalues
  | allOf | anyOf | oneOf =>
      obtain ⟨children, children', rfl, rfl, hchildren⟩ := harray rfl
      exact tasks_same_value hchildren value
  | prefixItems =>
      obtain ⟨children, children', rfl, rfl, hchildren⟩ := harray rfl
      exact tasks_zip hchildren value.elements
  | additionalProperties =>
      have hchild := itemRewritten_single ha rfl hitem
      unfold Applicator.tasks
      rw [(@namesOf_rewritten _ _ _ h _ .properties) (by decide) rfl,
        (@namesOf_rewritten _ _ _ h _ .patternProperties) (by decide) rfl]
      have hvalues := tasks_same_child hchild ((value.members.filter fun m =>
        !(namesOf entries' "properties").contains m.1 &&
          !(namesOf entries' "patternProperties").any fun pattern =>
            dialect.matchesPattern pattern m.1).map Prod.snd)
      rw [List.map_map, List.map_map] at hvalues
      exact hvalues
  | items =>
      unfold Applicator.tasks
      rw [prefixLength_rewritten h]
      exact tasks_same_child (itemRewritten_single ha rfl hitem) _
  | contains => exact tasks_same_child (itemRewritten_single ha rfl hitem) _
  | propertyNames =>
      have hvalues := tasks_same_child (itemRewritten_single ha rfl hitem)
        (value.members.map fun m => .string m.1)
      rw [List.map_map, List.map_map] at hvalues
      exact hvalues
  | not | «if» => exact List.Forall₂.cons ⟨itemRewritten_single ha rfl hitem, rfl⟩ List.Forall₂.nil

/-! ## Validation respects rewriting -/

theorem mapM_congr {α β γ : Type} {Rel : α → β → Prop} {f : α → Option γ} {g : β → Option γ}
    (hfg : ∀ x y, Rel x y → ∀ c, f x = some c → g y = some c) {xs : List α} {ys : List β}
    (h : List.Forall₂ Rel xs ys) : ∀ {cs : List γ}, xs.mapM f = some cs → ys.mapM g = some cs := by
  induction h with
  | nil => exact fun hcs => hcs
  | @cons x y xs ys hxy _ ih =>
      intro cs hcs
      rw [List.mapM_cons] at hcs ⊢
      obtain ⟨c, hc, hcs⟩ := Option.bind_eq_some_iff.1 hcs
      obtain ⟨rest, hrest, hcs⟩ := Option.bind_eq_some_iff.1 hcs
      exact Option.bind_eq_some_iff.2 ⟨c, hfg x y hxy c hc,
        Option.bind_eq_some_iff.2 ⟨rest, ih hrest, hcs⟩⟩

variable {validate validate' : Json → Json → Option Bool}

theorem fits_rewritten {keyword : String} {item item' : Json} {applicator : Applicator}
    (ha : applicator? keyword = some applicator) (hitem : ItemRewritten R keyword item item') :
    applicator.shape.fits item = applicator.shape.fits item' := by
  cases hshape : applicator.shape with
  | map =>
      rcases itemRewritten_map ha hshape hitem with ⟨_, _, rfl, rfl, -⟩ | h
      · rfl
      · rw [h.2]
  | array =>
      rcases itemRewritten_array ha hshape hitem with ⟨_, _, rfl, rfl, -⟩ | h
      · rfl
      · rw [h.2]
  | single => simp [Shape.fits]

/-- A branch of `if` is one schema, there in both objects or in neither. -/
theorem branch_rewritten (h : EntriesRewritten R entries entries') (condition : Bool) :
    (entries.lookup (if condition then "then" else "else") = none ∧
        entries'.lookup (if condition then "then" else "else") = none) ∨
      ∃ branch branch', entries.lookup (if condition then "then" else "else") = some branch ∧
        entries'.lookup (if condition then "then" else "else") = some branch' ∧
        R branch branch' := by
  have hsingle : ∃ a, applicator? (if condition then "then" else "else") = some a ∧
      a.shape = .single := by
    cases condition
    · exact ⟨.else, by decide, rfl⟩
    · exact ⟨.then, by decide, rfl⟩
  obtain ⟨a, ha, hshape⟩ := hsingle
  rcases h.lookup (if condition then "then" else "else") with
    hnone | ⟨branch, branch', hsome, hsome', hrewritten⟩
  · exact Or.inl hnone
  · exact Or.inr ⟨branch, branch', hsome, hsome', itemRewritten_single ha hshape hrewritten⟩

/-- The verdicts that a validator gives, as a relation. -/
def Judges (validate : Json → Json → Option Bool) (child v : Json) (verdict : Bool) : Prop :=
  validate child v = some verdict

/-- What the keywords of two objects apply to a value is judged alike. -/
def JudgedAlike (dialect : Dialect) (R : Json → Json → Prop)
    (validate validate' : Json → Json → Option Bool) (entries entries' : List (String × Json))
    (value : Json) : Prop :=
  ∀ child child' v, R child child' → Applied dialect (Judges validate) entries value child v →
    Applied dialect (Judges validate') entries' value child' v →
    ∀ verdict, validate child v = some verdict → validate' child' v = some verdict

theorem assertion_congr (dialect : Dialect) (h : EntriesRewritten R entries entries')
    {keyword : String} {item item' value : Json}
    (hvalidate : JudgedAlike dialect R validate validate' entries entries' value)
    (hmem : (keyword, item) ∈ entries) (hmem' : (keyword, item') ∈ entries')
    (hitem : ItemRewritten R keyword item item')
    {verdict : Bool} (hverdict : assertion dialect validate entries keyword item value =
      some verdict) :
    assertion dialect validate' entries' keyword item' value = some verdict := by
  -- every applicator but `if` judges its tasks and folds the verdicts
  have htasks : ∀ applicator, applicator? keyword = some applicator →
      (if applicator.shape.fits item then do
        let verdicts ← (applicator.tasks dialect entries item value).mapM fun task =>
          validate task.1 task.2
        some (applicator.verdict entries value verdicts)
      else none) = some verdict →
      (if applicator.shape.fits item' then do
        let verdicts ← (applicator.tasks dialect entries' item' value).mapM fun task =>
          validate' task.1 task.2
        some (applicator.verdict entries' value verdicts)
      else none) = some verdict := by
    intro applicator ha hsome
    have hfits := fits_rewritten ha hitem
    split at hsome
    · rename_i hfit
      rw [if_pos (hfits ▸ hfit)]
      obtain ⟨verdicts, hverdicts, hsome⟩ := Option.bind_eq_some_iff.1 hsome
      refine Option.bind_eq_some_iff.2 ⟨verdicts, ?_, ?_⟩
      · have hrewritten := tasks_rewritten dialect h ha hitem hfit value
        refine mapM_congr ?_ (forall₂_mem hrewritten) hverdicts
        rintro ⟨child, v⟩ ⟨child', v'⟩ ⟨htask, htask', hchild, hv⟩ c hc
        change v = v' at hv
        subst hv
        exact hvalidate child child' v hchild (.task hmem ha hfit htask)
          (.task hmem' ha (hfits ▸ hfit) htask') c hc
      · rw [← verdict_rewritten h]
        exact hsome
    · cases hsome
  unfold assertion at hverdict ⊢
  cases ha : applicator? keyword with
  | none =>
      rw [ha] at hverdict
      rw [← itemRewritten_literal ha hitem]
      exact hverdict
  | some applicator =>
      rw [ha] at hverdict
      -- `if` judges its condition first and then one branch, a sibling keyword
      by_cases hif : applicator = .if
      · subst hif
        obtain ⟨condition, hcondition, hbranch⟩ := Option.bind_eq_some_iff.1 hverdict
        have hcondition' := hvalidate _ _ _ (itemRewritten_single ha rfl hitem)
          (.condition hmem ha) (.condition hmem' ha) _ hcondition
        refine Option.bind_eq_some_iff.2 ⟨condition, hcondition', ?_⟩
        rcases branch_rewritten h condition with
          ⟨hnone, hnone'⟩ | ⟨branch, branch', hsome, hsome', hrewritten⟩
        · rw [hnone] at hbranch
          rw [hnone']
          exact hbranch
        · rw [hsome] at hbranch
          rw [hsome']
          exact hvalidate _ _ _ hrewritten (.branch hmem ha hcondition hsome)
            (.branch hmem' ha hcondition' hsome') _ hbranch
      · have hgoal := htasks applicator ha
        cases applicator <;> first | exact absurd rfl hif | exact hgoal hverdict

theorem assertions_congr (dialect : Dialect) (h : EntriesRewritten R entries entries')
    {value : Json} (hvalidate : JudgedAlike dialect R validate validate' entries entries' value)
    {verdict : Bool} (hverdict : assertions dialect validate entries value = some verdict) :
    assertions dialect validate' entries' value = some verdict := by
  obtain ⟨verdicts, hverdicts, hsome⟩ := Option.bind_eq_some_iff.1 hverdict
  refine Option.bind_eq_some_iff.2 ⟨verdicts, mapM_congr ?_ (forall₂_mem h) hverdicts, hsome⟩
  rintro ⟨keyword, item⟩ ⟨keyword', item'⟩ ⟨hmem, hmem', hkeyword, hitem⟩ c hc
  change keyword = keyword' at hkeyword
  subst hkeyword
  exact assertion_congr dialect h hvalidate hmem hmem' hitem hc

/-! ## What a verdict has judged -/

theorem mapM_defined {α β : Type} {f : α → Option β} {xs : List α} {ys : List β} {x : α}
    (h : xs.mapM f = some ys) (hx : x ∈ xs) : ∃ y, f x = some y := by
  induction xs generalizing ys with
  | nil => cases hx
  | cons a xs ih =>
      rw [List.mapM_cons] at h
      obtain ⟨y, hy, h⟩ := Option.bind_eq_some_iff.1 h
      obtain ⟨rest, hrest, -⟩ := Option.bind_eq_some_iff.1 h
      rcases List.mem_cons.1 hx with rfl | hx
      · exact ⟨y, hy⟩
      · exact ih hrest hx

/-- Where the keywords have a verdict, everything they apply has one. -/
theorem Applied.defined {dialect : Dialect} {value child v : Json} {verdict : Bool}
    (h : Applied dialect (Judges validate) entries value child v)
    (hverdict : assertions dialect validate entries value = some verdict) :
    ∃ c, validate child v = some c := by
  obtain ⟨verdicts, hverdicts, -⟩ := Option.bind_eq_some_iff.1 hverdict
  cases h with
  | @task keyword item child v applicator hitem happlicator hfits htask =>
      obtain ⟨c, hc⟩ := mapM_defined hverdicts hitem
      unfold assertion at hc
      simp only [happlicator] at hc
      by_cases hif : applicator = .if
      · subst hif
        obtain ⟨condition, hcondition, -⟩ := Option.bind_eq_some_iff.1 hc
        obtain ⟨rfl, rfl⟩ := Prod.mk.inj (List.mem_singleton.1 htask)
        exact ⟨condition, hcondition⟩
      · have hdefined : ∃ verdicts, ((applicator.tasks dialect entries item value).mapM
            fun task => validate task.1 task.2) = some verdicts := by
          cases applicator <;> first
            | exact absurd rfl hif
            | (simp only [hfits, if_true] at hc
               obtain ⟨verdicts, hverdicts, -⟩ := Option.bind_eq_some_iff.1 hc
               exact ⟨verdicts, hverdicts⟩)
        obtain ⟨verdicts, hverdicts⟩ := hdefined
        obtain ⟨c, hc⟩ := mapM_defined hverdicts htask
        exact ⟨c, hc⟩
  | branch hitem happlicator hjudged hbranch =>
      obtain ⟨c, hc⟩ := mapM_defined hverdicts hitem
      unfold assertion at hc
      simp only [happlicator] at hc
      obtain ⟨condition, hcondition, hchosen⟩ := Option.bind_eq_some_iff.1 hc
      have hsame : _ = some condition := hjudged.symm.trans hcondition
      obtain rfl := Option.some.inj hsame
      rw [hbranch] at hchosen
      exact ⟨c, hchosen⟩

/-- Where the other object has a verdict, what stands there for an applied schema has one, if the
conditions are judged alike. -/
theorem Applied.rewritten {dialect : Dialect} {judged : Json → Json → Bool → Prop}
    {value child v : Json} {verdict : Bool} (happlied : Applied dialect judged entries value child v)
    (h : EntriesRewritten R entries entries')
    (hverdict : assertions dialect validate' entries' value = some verdict)
    (hcondition : ∀ keyword condition condition' c c', (keyword, condition) ∈ entries →
      applicator? keyword = some .if → R condition condition' →
      judged condition value c → validate' condition' value = some c' → c' = c) :
    ∃ child' c, R child child' ∧ validate' child' v = some c := by
  cases happlied with
  | task hitem happlicator hfits htask =>
      obtain ⟨⟨keyword', item'⟩, hitem', hkeyword, hrewritten⟩ := forall₂_exists h hitem
      change _ = keyword' at hkeyword
      subst hkeyword
      have htasks := tasks_rewritten dialect h happlicator hrewritten hfits value
      obtain ⟨⟨child', v'⟩, htask', hchild, hv⟩ := forall₂_exists htasks htask
      change v = v' at hv
      subst hv
      have hfits' := hfits
      rw [fits_rewritten happlicator hrewritten] at hfits'
      have happlied' : Applied dialect (Judges validate') entries' value child' v :=
        .task hitem' happlicator hfits' htask'
      obtain ⟨c, hc⟩ := happlied'.defined hverdict
      exact ⟨child', c, hchild, hc⟩
  | branch hitem happlicator hjudged hbranch =>
      obtain ⟨⟨keyword', condition'⟩, hitem', hkeyword, hrewritten⟩ := forall₂_exists h hitem
      change _ = keyword' at hkeyword
      subst hkeyword
      have hsingle := itemRewritten_single happlicator rfl hrewritten
      have hcondition' : Applied dialect (Judges validate') entries' value condition' value :=
        .condition hitem' happlicator
      obtain ⟨c', hc'⟩ := hcondition'.defined hverdict
      obtain rfl := hcondition _ _ _ _ _ hitem happlicator hsingle hjudged hc'
      rcases branch_rewritten h c' with ⟨hnone, -⟩ | ⟨branch, branch', hsome, hsome', hbranches⟩
      · rw [hnone] at hbranch
        cases hbranch
      · rw [hsome] at hbranch
        obtain rfl := Option.some.inj hbranch
        obtain ⟨c, hc⟩ := (Applied.branch hitem' happlicator hc' hsome').defined hverdict
        exact ⟨branch', c, hbranches, hc⟩

end Rewriting

/-- What one object is rewritten into, the other is rewritten back from. -/
theorem entriesRewritten_flip {R : Json → Json → Prop} {entries entries' : List (String × Json)}
    (h : EntriesRewritten R entries entries') :
    EntriesRewritten (fun child child' => R child' child) entries' entries := by
  refine (List.Forall₂.flip h).imp fun e' e he => ?_
  obtain ⟨hkey, hitem⟩ := he
  refine ⟨hkey.symm, ?_⟩
  rw [← hkey]
  unfold ItemRewritten at hitem ⊢
  generalize (applicator? e.1).map Applicator.shape = shape at hitem ⊢
  cases shape with
  | none => exact hitem.symm
  | some shape =>
      cases shape with
      | single => exact hitem
      | map =>
          rcases hitem with ⟨children, children', hitem, hitem', hchildren⟩ | ⟨hfits, hsame⟩
          · exact Or.inl ⟨children', children, hitem', hitem,
              (List.Forall₂.flip hchildren).imp fun _ _ hc => ⟨hc.1.symm, hc.2⟩⟩
          · exact Or.inr ⟨hsame ▸ hfits, hsame.symm⟩
      | array =>
          rcases hitem with ⟨children, children', hitem, hitem', hchildren⟩ | ⟨hfits, hsame⟩
          · exact Or.inl ⟨children', children, hitem', hitem, List.Forall₂.flip hchildren⟩
          · exact Or.inr ⟨hsame ▸ hfits, hsame.symm⟩

/-- Every object is rewritten into itself. -/
theorem entriesRewritten_refl (entries : List (String × Json)) :
    EntriesRewritten (fun child child' => child = child') entries entries := by
  refine List.forall₂_same.2 fun e _ => ⟨rfl, ?_⟩
  unfold ItemRewritten
  cases (applicator? e.1).map Applicator.shape with
  | none => rfl
  | some shape =>
      cases shape with
      | single => rfl
      | map =>
          cases e.2 with
          | object children =>
              exact Or.inl ⟨children, children, rfl, rfl, List.forall₂_same.2 fun _ _ => ⟨rfl, rfl⟩⟩
          | _ => exact Or.inr ⟨rfl, rfl⟩
      | array =>
          cases e.2 with
          | array children =>
              exact Or.inl ⟨children, children, rfl, rfl, List.forall₂_same.2 fun _ _ => rfl⟩
          | _ => exact Or.inr ⟨rfl, rfl⟩

/-- More fuel changes no outcome. -/
theorem validate_succ (dialect : Dialect) (documents : String → Option Json) :
    ∀ (fuel : ℕ) (base : String) (schema value : Json) (verdict : Bool),
      validate dialect documents fuel base schema value = some verdict →
      validate dialect documents (fuel + 1) base schema value = some verdict := by
  intro fuel
  induction fuel with
  | zero => exact fun base schema value verdict h => (nomatch h)
  | succ fuel ih =>
      intro base schema value verdict h
      cases schema with
      | bool verdict' => exact h
      | object entries =>
          obtain ⟨first, rest, hfirst, hrest, h⟩ := validate_object_eq_some.1 h
          refine validate_object_eq_some.2 ⟨first, rest, ?_, ?_, h⟩
          · unfold referenced at hfirst ⊢
            split at hfirst
            · exact hfirst
            · obtain ⟨found, hfound, hfirst⟩ := Option.bind_eq_some_iff.1 hfirst
              exact Option.bind_eq_some_iff.2 ⟨found, hfound, ih _ _ _ _ hfirst⟩
            · cases hfirst
          · refine assertions_congr dialect (entriesRewritten_refl _) ?_ hrest
            rintro child _ v rfl - - c hc
            exact ih base child v c hc
      | _ => cases h

theorem validate_mono {dialect : Dialect} {documents : String → Option Json} {fuel fuel' : ℕ}
    (hle : fuel ≤ fuel') {base : String} {schema value : Json} {verdict : Bool}
    (h : validate dialect documents fuel base schema value = some verdict) :
    validate dialect documents fuel' base schema value = some verdict := by
  induction hle with
  | refl => exact h
  | step _ ih => exact validate_succ dialect documents _ base schema value verdict ih

/-! ## Subschemas -/

/-- The schemas that the keywords of an object hold. -/
inductive Child : Json → Json → Prop
  | named {entries children : List (String × Json)} {keyword name : String} {child : Json}
      (hshape : (applicator? keyword).map Applicator.shape = some .map)
      (hitem : (keyword, .object children) ∈ entries) (hchild : (name, child) ∈ children) :
      Child (.object entries) child
  | listed {entries : List (String × Json)} {keyword : String} {children : List Json}
      {child : Json} (hshape : (applicator? keyword).map Applicator.shape = some .array)
      (hitem : (keyword, .array children) ∈ entries) (hchild : child ∈ children) :
      Child (.object entries) child
  | single {entries : List (String × Json)} {keyword : String} {child : Json}
      (hshape : (applicator? keyword).map Applicator.shape = some .single)
      (hitem : (keyword, child) ∈ entries) : Child (.object entries) child

abbrev Subschema : Json → Json → Prop := Relation.ReflTransGen Child

/-- Every task of a keyword is one of the schemas in its value. -/
theorem mem_tasks {dialect : Dialect} {entries : List (String × Json)} {applicator : Applicator}
    {item value child v : Json} (h : (child, v) ∈ applicator.tasks dialect entries item value) :
    match applicator.shape with
    | .map => ∃ name, (name, child) ∈ item.members
    | .array => child ∈ item.elements
    | .single => child = item := by
  cases applicator with
  | defs | «then» | «else» => cases h
  | properties | dependentSchemas =>
      obtain ⟨e, he, htask⟩ := List.mem_filterMap.1 h
      obtain ⟨_, -, hpair⟩ := Option.map_eq_some_iff.1 htask
      cases hpair
      exact ⟨e.1, he⟩
  | patternProperties =>
      obtain ⟨e, he, htask⟩ := List.mem_flatMap.1 h
      obtain ⟨_, -, hpair⟩ := List.mem_map.1 htask
      cases hpair
      exact ⟨e.1, he⟩
  | allOf | anyOf | oneOf =>
      obtain ⟨child, hchild, hpair⟩ := List.mem_map.1 h
      cases hpair
      exact hchild
  | prefixItems => exact (List.of_mem_zip h).1
  | additionalProperties | items | contains | propertyNames =>
      obtain ⟨_, -, hpair⟩ := List.mem_map.1 h
      cases hpair
      rfl
  | not | «if» => exact congrArg Prod.fst (List.mem_singleton.1 h)

/-- What the keywords of an object apply are its subschemas. -/
theorem Applied.child {dialect : Dialect} {judged : Json → Json → Bool → Prop}
    {all entries : List (String × Json)} {value child v : Json}
    (h : Applied dialect judged entries value child v) (hall : ∀ e ∈ entries, e ∈ all) :
    Child (.object all) child := by
  cases h with
  | @task keyword item child v applicator hitem happlicator hfits htask =>
      have hshape : (applicator? keyword).map Applicator.shape = some applicator.shape := by
        rw [happlicator, Option.map_some]
      have hmem := mem_tasks htask
      cases happ : applicator.shape with
      | single =>
          rw [happ] at hmem hshape
          exact .single hshape (hmem ▸ hall _ hitem)
      | map =>
          rw [happ] at hmem hshape hfits
          cases item with
          | object children =>
              obtain ⟨name, hname⟩ := hmem
              exact .named hshape (hall _ hitem) hname
          | _ => cases hfits
      | array =>
          rw [happ] at hmem hshape hfits
          cases item with
          | array children => exact .listed hshape (hall _ hitem) hmem
          | _ => cases hfits
  | @branch keyword condition branch verdict _ _ _ hbranch =>
      cases verdict with
      | true =>
          exact (@Child.single _ "then") (by decide) (hall _ (mem_of_lookup hbranch))
      | false =>
          exact (@Child.single _ "else") (by decide) (hall _ (mem_of_lookup hbranch))

/-- The outcome of validation does not depend on the fuel. -/
theorem Outcome.unique {dialect : Dialect} {documents : String → Option Json} {base : String}
    {schema value : Json} {verdict verdict' : Bool}
    (h : Outcome dialect documents base schema value verdict)
    (h' : Outcome dialect documents base schema value verdict') : verdict = verdict' := by
  obtain ⟨fuel, hfuel⟩ := h
  obtain ⟨fuel', hfuel'⟩ := h'
  have hmore := validate_mono (Nat.le_max_left fuel fuel') hfuel
  rw [validate_mono (Nat.le_max_right fuel fuel') hfuel'] at hmore
  exact (Option.some.inj hmore).symm

/-- The rewritten subschemas are subschemas of every object with these keywords. -/
theorem EntriesRewritten.children {R : Json → Json → Prop}
    {all entries entries' : List (String × Json)} (h : EntriesRewritten R entries entries')
    (hall : ∀ e ∈ entries, e ∈ all) :
    EntriesRewritten (fun child child' => Child (.object all) child ∧ R child child') entries
      entries' := by
  refine (forall₂_mem h).imp fun e e' he => ?_
  obtain ⟨hmem, -, hkey, hitem⟩ := he
  refine ⟨hkey, ?_⟩
  have hentry : (e.1, e.2) ∈ all := hall e hmem
  unfold ItemRewritten at hitem ⊢
  cases hshape : (applicator? e.1).map Applicator.shape with
  | none => simpa only [hshape] using hitem
  | some shape =>
      rw [hshape] at hitem
      cases shape with
      | single => exact ⟨Child.single hshape hentry, hitem⟩
      | map =>
          rcases hitem with ⟨children, children', hitem, hitem', hchildren⟩ | hsame
          · refine Or.inl ⟨children, children', hitem, hitem', ?_⟩
            refine (forall₂_mem hchildren).imp fun c c' hc => ⟨hc.2.2.1, ?_, hc.2.2.2⟩
            exact (@Child.named _ _ _ c.1 _) hshape (hitem ▸ hentry) hc.1
          · exact Or.inr hsame
      | array =>
          rcases hitem with ⟨children, children', hitem, hitem', hchildren⟩ | hsame
          · refine Or.inl ⟨children, children', hitem, hitem', ?_⟩
            exact (forall₂_mem hchildren).imp fun c c' hc =>
              ⟨Child.listed hshape (hitem ▸ hentry) hc.1, hc.2.2⟩
          · exact Or.inr hsame

/-- One segment of a pointer. -/
theorem walk_object (keyword : String) (rest : List String) (entries : List (String × Json)) :
    walk (keyword :: rest) (.object entries) =
      match (applicator? keyword).map Applicator.shape, entries.lookup keyword, rest with
      | some .single, some child, rest => walk rest child
      | some .map, some (.object children), name :: rest =>
          match children.lookup name with
          | some child => walk rest child
          | none => none
      | some .array, some (.array children), index :: rest =>
          match (arrayIndex index).bind fun i => children[i]? with
          | some child => walk rest child
          | none => none
      | _, _, _ => none := by
  conv_lhs => unfold walk

/-- A pointer leads to subschemas. -/
theorem walk_subschema : ∀ {segments : List String} {schema node : Json},
    walk segments schema = some node → Subschema schema node
  | [], schema, node, h => by
      cases h
      exact Relation.ReflTransGen.refl
  | keyword :: rest, schema, node, h => by
      cases schema with
      | object entries =>
          rw [walk_object] at h
          split at h
          · rename_i hshape hitem
            exact Relation.ReflTransGen.head (Child.single hshape (mem_of_lookup hitem))
              (walk_subschema h)
          · rename_i hshape hitem
            split at h
            · rename_i hname
              exact Relation.ReflTransGen.head
                (Child.named hshape (mem_of_lookup hitem) (mem_of_lookup hname))
                (walk_subschema h)
            · cases h
          · rename_i hshape hitem
            split at h
            · rename_i hindex
              obtain ⟨i, -, hchild⟩ := Option.bind_eq_some_iff.1 hindex
              exact Relation.ReflTransGen.head
                (Child.listed hshape (mem_of_lookup hitem) (List.mem_of_getElem? hchild))
                (walk_subschema h)
            · cases h
          · cases h
      | _ => cases h

section Walk

variable {entries : List (String × Json)} {keyword : String}

theorem walk_single {child : Json}
    (hshape : (applicator? keyword).map Applicator.shape = some .single)
    (hitem : entries.lookup keyword = some child) (rest : List String) :
    walk (keyword :: rest) (.object entries) = walk rest child := by
  simp only [walk_object, hshape, hitem]

theorem walk_named {children : List (String × Json)}
    (hshape : (applicator? keyword).map Applicator.shape = some .map)
    (hitem : entries.lookup keyword = some (.object children)) (name : String)
    (rest : List String) :
    walk (keyword :: name :: rest) (.object entries) = (children.lookup name).bind (walk rest) := by
  simp only [walk_object, hshape, hitem]
  cases children.lookup name <;> rfl

theorem walk_listed {children : List Json}
    (hshape : (applicator? keyword).map Applicator.shape = some .array)
    (hitem : entries.lookup keyword = some (.array children)) (index : String)
    (rest : List String) :
    walk (keyword :: index :: rest) (.object entries) =
      ((arrayIndex index).bind fun i => children[i]?).bind (walk rest) := by
  simp only [walk_object, hshape, hitem]
  cases (arrayIndex index).bind fun i => children[i]? <;> rfl

/-- A pointer goes on where its front has led. -/
theorem walk_append : ∀ {front : List String} {schema node : Json}, walk front schema = some node →
    ∀ rest, walk (front ++ rest) schema = walk rest node
  | [], schema, node, h, rest => by
      cases h
      rfl
  | keyword :: front, schema, node, h, rest => by
      cases schema with
      | object entries =>
          rw [walk_object] at h
          split at h
          · rename_i hshape hitem
            rw [List.cons_append, walk_single hshape hitem]
            exact walk_append h rest
          · rename_i hshape hitem
            split at h
            · rename_i hname
              rw [List.cons_append, List.cons_append, walk_named hshape hitem, hname]
              exact walk_append h rest
            · cases h
          · rename_i hshape hitem
            split at h
            · rename_i hindex
              rw [List.cons_append, List.cons_append, walk_listed hshape hitem, hindex]
              exact walk_append h rest
            · cases h
          · cases h
      | _ => cases h

/-- A pointer does not go on below a value without the shape of its keyword. -/
theorem walk_misfit {shape : Shape} {item : Json}
    (hshape : (applicator? keyword).map Applicator.shape = some shape)
    (hitem : entries.lookup keyword = some item) (hfits : shape.fits item = false)
    (rest : List String) : walk (keyword :: rest) (.object entries) = none := by
  simp only [walk_object, hshape, hitem]
  cases shape with
  | single => cases hfits
  | map =>
      cases item with
      | object _ => cases hfits
      | _ => rfl
  | array =>
      cases item with
      | array _ => cases hfits
      | _ => rfl

/-- A pointer does not end at a map or an array of schemas. -/
theorem walk_end {shape : Shape}
    (hshape : (applicator? keyword).map Applicator.shape = some shape) (hmany : shape ≠ .single) :
    walk [keyword] (.object entries) = none := by
  simp only [walk_object, hshape]
  cases shape with
  | single => exact absurd rfl hmany
  | map | array =>
      cases entries.lookup keyword with
      | none => rfl
      | some item => cases item <;> rfl

theorem walk_absent (h : applicator? keyword = none ∨ entries.lookup keyword = none)
    (rest : List String) : walk (keyword :: rest) (.object entries) = none := by
  rw [walk_object]
  rcases h with h | h
  · simp only [h, Option.map_none]
  · cases (applicator? keyword).map Applicator.shape with
    | none => rfl
    | some shape => cases shape <;> simp only [h]

end Walk

end JsonSchema

end StaticHostAgent.Library
