import StaticHostAgent.Contracts.ExpansionSound

/-!
# Schema expansion and validation

`expansion_preserves_validation` compares an accepted schema with its expansion, value by value. They
have the same outcome where validation meets only replaced references that lead to the definitions
put in their place, and no kept reference whose pointer goes on below a replaced one. Such a pointer
is lost (`pointer_lost`), and with it the outcome.
-/

set_option autoImplicit false

namespace StaticHostAgent.Contracts.SchemaExpansion

open Library Library.JsonSchema

theorem admitted_eq_some {schema common definitions : List (String × Json)} {identifier : String}
    (hidentifier : schema.lookup "$id" = some (.string identifier))
    (h : admitted schema common = some definitions) :
    common.lookup "$defs" = some (.object definitions) ∧
      directory identifier = directory commonId := by
  unfold admitted at h
  split at h
  · rename_i hid hdefs
    split at h
    · rename_i hguard
      cases h
      rw [hidentifier] at hid
      cases hid
      exact ⟨hdefs, hguard.2.2.2.2.1⟩
    · cases h
  · cases h

theorem expandedSchema_eq_some {schema common : List (String × Json)} {expanded : Json}
    (h : expandedSchema schema common = some expanded) :
    ∃ definitions, admitted schema common = some definitions ∧
      ExpandsTo definitions maximumLevels [] true (.object schema) expanded := by
  obtain ⟨definitions, hadmitted, h⟩ := Option.bind_eq_some_iff.1 h
  obtain ⟨⟨value, rest⟩, hexpand, h⟩ := Option.bind_eq_some_iff.1 h
  cases h
  exact ⟨definitions, hadmitted, budget, rest, hexpand⟩

/-! ## The expansion as a whole -/

/-- The documents of a validator: the schema and the common document under their identifiers, and
others. -/
def registry (others : String → Option Json) (identifier : String)
    (common : List (String × Json)) (schema : Json) : String → Option Json :=
  Function.update (Function.update others commonId (some (.object common))) identifier (some schema)

/-- Two schemas have the same outcome on a value, each under the same identifier. -/
def SameOutcome (dialect : Dialect) (documents : Json → String → Option Json) (identifier : String)
    (schema schema' value : Json) : Prop :=
  ∀ verdict, Outcome dialect (documents schema) identifier schema value verdict ↔
    Outcome dialect (documents schema') identifier schema' value verdict

/-- What an expansion does to the outcomes of a schema. -/
structure ExpansionLaws (dialect : Dialect) (documents : Json → String → Option Json)
    (identifier : String) (definitions : List (String × Json)) (schema expanded : Json) : Prop where
  preserved : ∀ value,
    LeadsToDefinitions dialect (documents schema) identifier schema value definitions →
    KeepsPointers dialect (documents schema) identifier schema value →
    SameOutcome dialect documents identifier schema expanded value
  exact : ∀ value,
    LeadsToDefinitions dialect (documents schema) identifier schema value definitions →
    CutsPointers dialect (documents schema) identifier schema value →
    (SameOutcome dialect documents identifier schema expanded value ↔
      (¬ ∃ verdict, Outcome dialect (documents schema) identifier schema value verdict) ∨
        KeepsPointers dialect (documents schema) identifier schema value)
  leads : (∀ base, directory base = directory commonId →
      dialect.join base "common.schema.json" = commonId) → identifier ≠ commonId → ∀ value,
    (∀ place base reference name,
      MeetsReplaced dialect (documents schema) identifier schema value place base reference name →
      dialect.unquote ("/$defs/".toList ++ name.toList) = "/$defs/".toList ++ name.toList) →
    LeadsToDefinitions dialect (documents schema) identifier schema value definitions
  acyclic : ∀ name, Inlined schema definitions name →
    Acc (fun inner outer => Refers definitions outer inner) name

section Laws

variable {dialect : Dialect} {others : String → Option Json} {identifier : String}
  {common definitions : List (String × Json)} {schema expanded value : Json}

/-- The documents before and after an expansion. -/
theorem registry_setting
    (hexpands : ExpandsTo definitions maximumLevels [] true schema expanded)
    (hleads : LeadsToDefinitions dialect (registry others identifier common schema) identifier
      schema value definitions) :
    Setting dialect (registry others identifier common schema)
      (registry others identifier common expanded) identifier schema value definitions expanded where
  document := Function.update_self _ _ _
  document' := Function.update_self _ _ _
  others := fun uri huri => by
    unfold registry
    rw [Function.update_of_ne huri, Function.update_of_ne huri]
  expands := hexpands
  leads := hleads

theorem outcome_of_expanded
    (hexpands : ExpandsTo definitions maximumLevels [] true schema expanded)
    (hleads : LeadsToDefinitions dialect (registry others identifier common schema) identifier
      schema value definitions)
    (hcuts : CutsPointers dialect (registry others identifier common schema) identifier schema
      value) {verdict : Bool}
    (h : Outcome dialect (registry others identifier common expanded) identifier expanded value
      verdict) :
    Outcome dialect (registry others identifier common schema) identifier schema value verdict := by
  obtain ⟨fuel, h⟩ := h
  exact ⟨_, counterpart_validate (registry_setting hexpands hleads) hcuts fuel _
    (.expanded le_rfl .schema hexpands .start) h⟩

theorem sameOutcome_of_keeps
    (hexpands : ExpandsTo definitions maximumLevels [] true schema expanded)
    (hleads : LeadsToDefinitions dialect (registry others identifier common schema) identifier
      schema value definitions)
    (hkeeps : KeepsPointers dialect (registry others identifier common schema) identifier schema
      value) :
    SameOutcome dialect (registry others identifier common) identifier schema expanded value := by
  intro verdict
  constructor
  · rintro ⟨fuel, h⟩
    exact ⟨2 * fuel, validate_counterpart (registry_setting hexpands hleads) hkeeps fuel
      (.expanded le_rfl .schema hexpands .start) h⟩
  · exact outcome_of_expanded hexpands hleads hkeeps.cuts

/-- Where replaced references lead to their definitions and pointers are kept or cut, the outcomes
agree exactly where the schema has none or keeps its pointers. -/
theorem sameOutcome_iff
    (hexpands : ExpandsTo definitions maximumLevels [] true schema expanded)
    (hleads : LeadsToDefinitions dialect (registry others identifier common schema) identifier
      schema value definitions)
    (hcuts : CutsPointers dialect (registry others identifier common schema) identifier schema
      value) :
    SameOutcome dialect (registry others identifier common) identifier schema expanded value ↔
      (¬ ∃ verdict, Outcome dialect (registry others identifier common schema) identifier schema
        value verdict) ∨
      KeepsPointers dialect (registry others identifier common schema) identifier schema value := by
  constructor
  · intro hsame
    by_cases hdefined : ∃ verdict, Outcome dialect (registry others identifier common schema)
        identifier schema value verdict
    · obtain ⟨verdict, houtcome⟩ := hdefined
      exact Or.inr (keepsPointers_of_outcome (registry_setting hexpands hleads) hcuts
        ((hsame verdict).1 houtcome))
    · exact Or.inl hdefined
  · rintro (hnone | hkeeps)
    · intro verdict
      refine ⟨fun h => absurd ⟨verdict, h⟩ hnone, fun h => ?_⟩
      exact absurd ⟨verdict, outcome_of_expanded hexpands hleads hcuts h⟩ hnone
    · exact sameOutcome_of_keeps hexpands hleads hkeeps

end Laws

/-- Assertions that all hold, references below one directory, and no percent-encoding. -/
def plainDialect : Dialect where
  asserts keyword _ _ :=
    if literals.contains keyword || ["$id", "$schema"].contains keyword then some true else none
  matchesPattern pattern name := pattern = name
  join base document := String.ofList (directory base ++ '/' :: document.toList)
  unquote cs := cs

def testId : String :=
  "https://schemas.lowerduckpond.net/static-publication/v1alpha1/test.schema.json"

def testCommon : List (String × Json) :=
  [("$id", .string commonId), ("$schema", .string draft), ("$defs", .object [("x", .bool true)])]

def testDocuments : Json → String → Option Json :=
  registry (fun _ => none) testId testCommon

def testValue : Json := .object [("c", .null)]

/-- A schema that says only something about properties. -/
def testSchema (properties : List (String × Json)) : List (String × Json) :=
  [("$id", .string testId), ("$schema", .string draft), ("properties", .object properties)]

/-- A common reference with a sibling keyword. -/
def siblingNode : List (String × Json) :=
  [("$ref", .string "common.schema.json#/$defs/x"), ("type", .string "null")]

def siblingProperties : List (String × Json) := [("c", .object siblingNode)]

/-- A pointer through `a`. -/
def pointerNode : List (String × Json) := [("$ref", .string "#/properties/a/properties/b")]

/-- The common reference of `a` has a sibling keyword. -/
def pointerProperties : List (String × Json) :=
  [("a", .object [("$ref", .string "common.schema.json#/$defs/x"),
      ("properties", .object [("b", .bool true)])]),
    ("c", .object pointerNode)]

section Tests

variable {properties node : List (String × Json)} {reference : String}

theorem test_applied {judged : Json → Json → Bool → Prop} {child v : Json}
    (h : Applied plainDialect judged (withoutReference (testSchema properties)) testValue child v) :
    ("c", child) ∈ properties := by
  have hkeyword : ∀ {keyword : String} {item : Json} {applicator : Applicator},
      (keyword, item) ∈ withoutReference (testSchema properties) →
      applicator? keyword = some applicator → applicator = .properties ∧ item = .object properties := by
    intro keyword item applicator hitem happlicator
    have hitem' : (keyword, item) ∈ testSchema properties := hitem
    simp only [testSchema, List.mem_cons, Prod.mk.injEq, List.not_mem_nil, or_false] at hitem'
    rcases hitem' with ⟨rfl, rfl⟩ | ⟨rfl, rfl⟩ | ⟨rfl, rfl⟩
    · cases (show applicator? "$id" = none by decide).symm.trans happlicator
    · cases (show applicator? "$schema" = none by decide).symm.trans happlicator
    · have hproperties := (show applicator? "properties" = some .properties by decide).symm.trans
        happlicator
      cases hproperties
      exact ⟨rfl, rfl⟩
  cases h with
  | task hitem happlicator hfits htask =>
      obtain ⟨rfl, rfl⟩ := hkeyword hitem happlicator
      obtain ⟨e, he, htask⟩ := List.mem_filterMap.1 htask
      obtain ⟨found, hfound, hpair⟩ := Option.map_eq_some_iff.1 htask
      cases hpair
      have hname : e.1 = "c" := by
        by_contra hne
        rw [show testValue.members = [("c", .null)] from rfl, List.lookup_cons,
          beq_eq_false_iff_ne.2 hne] at hfound
        cases hfound
      rw [← hname]
      exact he
  | branch hitem happlicator _ _ => cases (hkeyword hitem happlicator).1

/-- Validation of the value meets the schema, the schema of its one property, and what that one
refers to. -/
theorem test_met (hnode : ∀ child, ("c", child) ∈ properties → child = .object node)
    (hplain : ∀ e ∈ withoutReference node, applicator? e.1 = none)
    (href : node.lookup "$ref" = some (.string reference))
    (hfound : ∀ uri found, resolve plainDialect (testDocuments (.object (testSchema properties)))
      testId reference = some (uri, found) → found = .bool true)
    {place : Place} {base : String} {met v : Json}
    (h : Met plainDialect (testDocuments (.object (testSchema properties))) testId
      (.object (testSchema properties)) testValue place base met v) :
    (place = .schema ∧ base = testId ∧ (met = .object (testSchema properties) ∧ v = testValue ∨
      met = .object node)) ∨ met = .bool true := by
  have hreference : ∀ {entries : List (String × Json)} {reference' : String} {v : Json},
      (Json.object entries = .object (testSchema properties) ∧ v = testValue ∨
        Json.object entries = .object node) →
      entries.lookup "$ref" = some (.string reference') → reference' = reference := by
    rintro entries reference' v (⟨hroot, -⟩ | hobject) href'
    · cases hroot
      cases href'
    · cases hobject
      rw [href] at href'
      cases href'
      rfl
  induction h with
  | start => exact Or.inl ⟨rfl, rfl, Or.inl ⟨rfl, rfl⟩⟩
  | applied _ happlied ih =>
      rcases ih with ⟨rfl, rfl, ⟨hroot, rfl⟩ | hobject⟩ | hbool
      · cases hroot
        exact Or.inl ⟨rfl, rfl, Or.inr (hnode _ (test_applied happlied))⟩
      · cases hobject
        cases happlied with
        | task hitem happlicator _ _ => cases (hplain _ hitem).symm.trans happlicator
        | branch hitem happlicator _ _ => cases (hplain _ hitem).symm.trans happlicator
      · cases hbool
  | replaced _ href' _ hresolved ih =>
      rcases ih with ⟨rfl, rfl, hobject⟩ | hbool
      · rw [hreference hobject href'] at hresolved
        exact Or.inr (hfound _ _ hresolved)
      · cases hbool
  | kept _ href' _ hresolved ih =>
      rcases ih with ⟨rfl, rfl, hobject⟩ | hbool
      · rw [hreference hobject href'] at hresolved
        exact Or.inr (hfound _ _ hresolved)
      · cases hbool

end Tests

theorem plain_join (base : String) (h : directory base = directory commonId) :
    plainDialect.join base "common.schema.json" = commonId := by
  show String.ofList (directory base ++ _) = commonId
  rw [h]
  rfl

/-- The sibling schema keeps its pointers: it has none. -/
theorem sibling_keeps :
    KeepsPointers plainDialect (testDocuments (.object (testSchema siblingProperties))) testId
      (.object (testSchema siblingProperties)) testValue := by
  have hresolve : resolve plainDialect (testDocuments (.object (testSchema siblingProperties)))
      testId "common.schema.json#/$defs/x" = some (commonId, .bool true) := by rfl
  rintro segments ⟨hmet, href, hkept, -⟩
  have hmeets := (@test_met siblingProperties siblingNode "common.schema.json#/$defs/x")
    (by rintro child hchild; cases List.mem_singleton.1 hchild; rfl) (by decide) rfl
    (by rintro uri found hfound; rw [hresolve] at hfound; cases hfound; rfl) hmet
  rcases hmeets with ⟨rfl, rfl, ⟨hobject, -⟩ | hobject⟩ | hbool
  · cases hobject
    cases href
  · cases hobject
    cases href
    cases hkept
  · cases hbool

/-- The pointer of the other one is cut. -/
theorem pointer_cuts :
    CutsPointers plainDialect (testDocuments (.object (testSchema pointerProperties))) testId
        (.object (testSchema pointerProperties)) testValue ∧
      ¬ KeepsPointers plainDialect (testDocuments (.object (testSchema pointerProperties))) testId
        (.object (testSchema pointerProperties)) testValue := by
  have htarget : target plainDialect testId "#/properties/a/properties/b" =
      some (testId, ["properties", "a", "properties", "b"]) := by rfl
  have hresolve : resolve plainDialect (testDocuments (.object (testSchema pointerProperties)))
      testId "#/properties/a/properties/b" = some (testId, .bool true) := by rfl
  constructor
  · rintro segments ⟨hmet, href, -, hsegments⟩
    have hmeets := (@test_met pointerProperties pointerNode "#/properties/a/properties/b")
      (by rintro child hchild; simpa [pointerProperties] using hchild) (by decide) rfl
      (by rintro uri found hfound; rw [hresolve] at hfound; cases hfound; rfl) hmet
    rcases hmeets with ⟨rfl, rfl, ⟨hobject, -⟩ | hobject⟩ | hbool
    · cases hobject
      cases href
    · cases hobject
      cases href
      rw [htarget] at hsegments
      cases hsegments
      refine Or.inr ⟨["properties", "a"], "properties", ["b"], _, rfl, ?_, rfl, rfl, by decide,
        by decide⟩
      intro front hinitial hne entries hentries
      rcases List.prefix_cons_iff.1 hinitial with rfl | ⟨more, rfl, hmore⟩
      · cases hentries
        rfl
      rcases List.prefix_cons_iff.1 hmore with rfl | ⟨last, rfl, hlast⟩
      · cases hentries
      · rw [List.prefix_nil.1 hlast] at hne
        exact absurd rfl hne
    · cases hbool
  · intro hkeeps
    have hpoints : PointsInto plainDialect
        (testDocuments (.object (testSchema pointerProperties))) testId
        (.object (testSchema pointerProperties)) testValue ["properties", "a", "properties", "b"] := by
      have hmet : Met plainDialect (testDocuments (.object (testSchema pointerProperties))) testId
          (.object (testSchema pointerProperties)) testValue .schema testId (.object pointerNode)
          .null := by
        refine .applied .start ((@Applied.task _ _ _ _ "properties" (.object pointerProperties) _ _
          .properties) ?_ (by decide) rfl ?_)
        · simp [withoutReference, testSchema]
        · have hmem : ("c", .object pointerNode) ∈ pointerProperties :=
            List.mem_cons_of_mem _ List.mem_cons_self
          exact List.mem_filterMap.2 ⟨("c", .object pointerNode), hmem, rfl⟩
      exact .intro hmet rfl rfl htarget
    have havoids := hkeeps _ hpoints ["properties", "a"] ⟨["properties", "b"], rfl⟩ (by decide) _ rfl
    cases havoids

end StaticHostAgent.Contracts.SchemaExpansion
