import StaticHostAgent.Contracts.ExpansionCycles

/-!
# What validation of a value meets

`Met` lists the schemas that validation of one value against a schema judges, each with the value it
judges and the place where it stands. On it rest the conditions under which an expansion is faithful
on that value: the replaced references that are met lead to the definitions put in their place
(`LeadsToDefinitions`), and the pointers of the kept ones avoid replaced references
(`KeepsPointers`).
-/

set_option autoImplicit false

namespace StaticHostAgent.Contracts.SchemaExpansion

open Library Library.JsonSchema

/-- Where validation is: in the schema, in a definition that stands in the place of a reference, or
in another document. -/
inductive Place where
  | schema | definition | elsewhere
  deriving DecidableEq

/-- The name of the definition that the expansion puts in the place of a reference, if it replaces
the reference. -/
def Place.replaced : Place → String → Option String
  | .schema, reference => removePrefix? commonRef reference
  | .definition, reference => removePrefix? localRef reference
  | .elsewhere, _ => none

/-- The place of what a kept reference leads to. -/
def Place.target (identifier uri : String) : Place :=
  if uri = identifier then .schema else .elsewhere

section Meeting

variable (dialect : Dialect) (documents : String → Option Json) (identifier : String)
  (schema value : Json)

/-- The schemas that validation of the value meets, each with its document and the value it
judges. -/
inductive Met : Place → String → Json → Json → Prop
  | start : Met .schema identifier schema value
  | applied {place : Place} {base : String} {entries : List (String × Json)} {v child v' : Json}
      (h : Met place base (.object entries) v)
      (happlied : Applied dialect (Outcome dialect documents base) (withoutReference entries) v
        child v') : Met place base child v'
  | replaced {place : Place} {base uri reference name : String} {entries : List (String × Json)}
      {found v : Json} (h : Met place base (.object entries) v)
      (href : entries.lookup "$ref" = some (.string reference))
      (hname : place.replaced reference = some name)
      (hfound : resolve dialect documents base reference = some (uri, found)) :
      Met .definition uri found v
  | kept {place : Place} {base uri reference : String} {entries : List (String × Json)}
      {found v : Json} (h : Met place base (.object entries) v)
      (href : entries.lookup "$ref" = some (.string reference))
      (hkept : place.replaced reference = none)
      (hfound : resolve dialect documents base reference = some (uri, found)) :
      Met (Place.target identifier uri) uri found v

/-- Validation of the value meets a reference that the expansion replaces with a definition. -/
inductive MeetsReplaced : Place → String → String → String → Prop
  | intro {place : Place} {base reference name : String} {entries : List (String × Json)} {v : Json}
      (hmet : Met dialect documents identifier schema value place base (.object entries) v)
      (href : entries.lookup "$ref" = some (.string reference))
      (hname : place.replaced reference = some name) : MeetsReplaced place base reference name

/-- Every replaced reference that is met leads to the definition that is put in its place. -/
def LeadsToDefinitions (definitions : List (String × Json)) : Prop :=
  ∀ place base reference name definition,
    MeetsReplaced dialect documents identifier schema value place base reference name →
    definitions.lookup name = some definition →
    resolve dialect documents base reference = some (commonId, definition)

/-- The pointers into the schema of the kept references that are met. -/
inductive PointsInto : List String → Prop
  | intro {place : Place} {base reference : String} {entries : List (String × Json)} {v : Json}
      {segments : List String}
      (hmet : Met dialect documents identifier schema value place base (.object entries) v)
      (href : entries.lookup "$ref" = some (.string reference))
      (hkept : place.replaced reference = none)
      (htarget : target dialect base reference = some (identifier, segments)) :
      PointsInto segments

/-- No kept reference that is met has a pointer into the schema that goes on below a replaced
reference. -/
def KeepsPointers : Prop :=
  ∀ segments, PointsInto dialect documents identifier schema value segments →
    AvoidsReplaced segments schema

/-- Where a pointer goes on below a replaced reference, it goes on below keywords beside it, and not
by `allOf`. -/
def CutsPointers : Prop :=
  ∀ segments, PointsInto dialect documents identifier schema value segments →
    AvoidsReplaced segments schema ∨ CutBelow segments schema

end Meeting

section Places

variable {dialect : Dialect} {documents : String → Option Json} {identifier : String}
  {schema value : Json}

/-- The schema is met in its own document, and everything elsewhere in another one. -/
theorem Met.base {place : Place} {base : String} {node v : Json}
    (h : Met dialect documents identifier schema value place base node v) :
    (place = .schema → base = identifier) ∧ (place = .elsewhere → base ≠ identifier) := by
  induction h with
  | start => exact ⟨fun _ => rfl, fun h => (nomatch h)⟩
  | applied _ _ ih => exact ih
  | replaced _ _ _ _ _ => exact ⟨fun h => (nomatch h), fun h => (nomatch h)⟩
  | kept _ _ _ _ _ =>
      unfold Place.target
      constructor
      · intro hplace
        by_contra huri
        rw [if_neg huri] at hplace
        cases hplace
      · intro hplace huri
        rw [if_pos huri] at hplace
        cases hplace

theorem KeepsPointers.cuts (h : KeepsPointers dialect documents identifier schema value) :
    CutsPointers dialect documents identifier schema value :=
  fun segments hpoints => Or.inl (h segments hpoints)

variable {common definitions : List (String × Json)} {expanded : Json}

/-- Where the expansion has been at a place that validation meets. -/
def ExpandedAt (definitions : List (String × Json)) (place : Place) (node : Json) : Prop :=
  ∃ levels stack root node', (stack = [] ↔ place = .schema) ∧
    ExpandsTo definitions levels stack root node node'

/-- With the common document under its identifier, names that are their own percent-decoding lead to
their definitions. -/
theorem leadsToDefinitions_of_unquoted (hdocument : documents identifier = some schema)
    (hexpands : ExpandsTo definitions maximumLevels [] true schema expanded)
    (hcommon : documents commonId = some (.object common))
    (hdefs : common.lookup "$defs" = some (.object definitions))
    (hjoin : dialect.join identifier "common.schema.json" = commonId)
    (hunquoted : ∀ place base reference name,
      MeetsReplaced dialect documents identifier schema value place base reference name →
      dialect.unquote ("/$defs/".toList ++ name.toList) = "/$defs/".toList ++ name.toList) :
    LeadsToDefinitions dialect documents identifier schema value definitions := by
  -- one reference: the base decides whether the common document is joined or already current
  have hleads : ∀ {place : Place} {base reference name : String} {entries : List (String × Json)}
      {v : Json}, Met dialect documents identifier schema value place base (.object entries) v →
      (place = .definition → base = commonId) → ExpandedAt definitions place (.object entries) →
      entries.lookup "$ref" = some (.string reference) → place.replaced reference = some name →
      ∃ definition, definitions.lookup name = some definition ∧
        resolve dialect documents base reference = some (commonId, definition) ∧
        ExpandedAt definitions .definition definition := by
    intro place base reference name entries v hmet hdefinition ⟨levels, stack, root, node', hstack,
      hexpanded⟩ href hname
    have hreplaced : place ≠ .elsewhere →
        removePrefix? (expandedPrefix stack) reference = some name := by
      intro hplace
      unfold expandedPrefix
      cases place with
      | schema => rw [if_pos (hstack.2 rfl)]; exact hname
      | definition => rw [if_neg fun h => (nomatch hstack.1 h)]; exact hname
      | elsewhere => exact absurd rfl hplace
    have hunquote := hunquoted _ _ _ _ (.intro hmet href hname)
    have hplace : place ≠ .elsewhere := by
      rintro rfl
      cases hname
    obtain ⟨hplain, k, definition, inner, -, hlookup, hinner⟩ :=
      expandsTo_reference hexpanded href (hreplaced hplace)
    refine ⟨definition, hlookup, ?_, k, _, false, inner, ⟨by simp, fun h => (nomatch h)⟩, hinner⟩
    cases place with
    | schema =>
        rw [hmet.base.1 rfl, resolve_common hjoin hcommon hdefs hname hplain hunquote, hlookup]
        rfl
    | definition =>
        rw [hdefinition rfl, resolve_local hcommon hdefs hname hplain hunquote, hlookup]
        rfl
    | elsewhere => cases hname
  have hmeets : ∀ {place : Place} {base : String} {node v : Json},
      Met dialect documents identifier schema value place base node v →
      (place = .definition → base = commonId) ∧
        (place ≠ .elsewhere → ExpandedAt definitions place node) := by
    intro place base node v hmet
    -- on the way validation takes: the base of a definition and the state of its expansion go along
    induction hmet with
    | start =>
        exact ⟨fun h => (nomatch h), fun _ => ⟨maximumLevels, [], true, expanded, by simp, hexpands⟩⟩
    | applied _ happlied ih =>
        refine ⟨ih.1, fun hplace => ?_⟩
        obtain ⟨levels, stack, root, node', hstack, hexpanded⟩ := ih.2 hplace
        have hchild := happlied.child fun e he => List.mem_of_mem_filter he
        obtain ⟨k, root', child', -, hchild'⟩ :=
          expandsTo_subschema (Relation.ReflTransGen.single hchild) hexpanded
        exact ⟨k, stack, root', child', hstack, hchild'⟩
    | @replaced place _ _ _ _ _ _ _ h href hname hfound ih =>
        have hplace : place ≠ .elsewhere := by
          rintro rfl
          cases hname
        obtain ⟨definition, -, hdefinition, hexpanded⟩ := hleads h ih.1 (ih.2 hplace) href hname
        rw [hdefinition] at hfound
        cases hfound
        exact ⟨fun _ => rfl, fun _ => hexpanded⟩
    | @kept _ base uri reference _ found _ _ _ _ hfound _ =>
        -- a kept reference either stays in the schema, which was expanded whole, or leaves for
        -- elsewhere
        unfold Place.target
        split
        · rename_i huri
          subst huri
          refine ⟨fun h => (nomatch h), fun _ => ?_⟩
          obtain ⟨⟨uri', segments⟩, -, hfound⟩ := Option.bind_eq_some_iff.1 hfound
          obtain ⟨document, hdocument', hfound⟩ := Option.bind_eq_some_iff.1 hfound
          obtain ⟨node, hnode, hpair⟩ := Option.bind_eq_some_iff.1 hfound
          cases hpair
          rw [hdocument] at hdocument'
          cases hdocument'
          obtain ⟨k, root, node', -, hexpanded⟩ :=
            expandsTo_subschema (walk_subschema hnode) hexpands
          exact ⟨k, [], root, node', by simp, hexpanded⟩
        · exact ⟨fun h => (nomatch h), fun h => absurd rfl h⟩
  rintro place base reference name definition ⟨hmet, href, hname⟩ hdefinition
  have hplace : place ≠ .elsewhere := by
    rintro rfl
    cases hname
  obtain ⟨definition', hlookup, hresolve, -⟩ :=
    hleads hmet (hmeets hmet).1 ((hmeets hmet).2 hplace) href hname
  rw [hdefinition] at hlookup
  cases hlookup
  exact hresolve

end Places

end StaticHostAgent.Contracts.SchemaExpansion
