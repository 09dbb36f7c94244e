import StaticHostAgent.Contracts.ExpansionMet

/-!
# An expanded schema validates the same values

Every schema that validation of a value meets is paired with what stands for it after the expansion
(`Counterpart`). Where no pointer goes on below a replaced reference, the counterpart has the same
outcome (`validate_counterpart`, `counterpart_validate`). Where the expansion has an outcome, the
counterpart of everything that is met has one (`Met.counterpart`), so that no pointer was cut
(`keepsPointers_of_outcome`).
-/

set_option autoImplicit false

namespace StaticHostAgent.Contracts.SchemaExpansion

open Library Library.JsonSchema

/-- Documents before and after the expansion of one of them, and a value whose validation meets no
replaced reference that leads elsewhere than to the definition put in its place. -/
structure Setting (dialect : Dialect) (documents documents' : String → Option Json)
    (identifier : String) (schema value : Json) (definitions : List (String × Json))
    (expanded : Json) : Prop where
  document : documents identifier = some schema
  document' : documents' identifier = some expanded
  others : ∀ uri, uri ≠ identifier → documents' uri = documents uri
  expands : ExpandsTo definitions maximumLevels [] true schema expanded
  leads : LeadsToDefinitions dialect documents identifier schema value definitions

/-- Where a schema and its expansion stand while the definitions on the stack are expanded. An
expanded definition refers to nothing, so that its document does not matter. -/
inductive Stands (identifier : String) : List String → Place → String → String → Prop
  | schema : Stands identifier [] .schema identifier identifier
  | definition {stack : List String} {base base' : String} (hstack : stack ≠ []) :
      Stands identifier stack .definition base base'

/-- What stands for a met schema after the expansion: its expansion, or the same schema in another
document. -/
inductive Counterpart (dialect : Dialect) (documents : String → Option Json) (identifier : String)
    (schema value : Json) (definitions : List (String × Json)) :
    Place → ℕ → String → Json → String → Json → Json → Prop
  | expanded {stack : List String} {place : Place} {levels : ℕ} {root : Bool}
      {base base' : String} {node node' v : Json} (hlevels : levels ≤ maximumLevels)
      (hstands : Stands identifier stack place base base')
      (hexpands : ExpandsTo definitions levels stack root node node')
      (hmet : Met dialect documents identifier schema value place base node v) :
      Counterpart dialect documents identifier schema value definitions place levels base node
        base' node' v
  | other {base : String} {node v : Json} (hbase : base ≠ identifier)
      (hmet : Met dialect documents identifier schema value .elsewhere base node v) :
      Counterpart dialect documents identifier schema value definitions .elsewhere 0 base node
        base node v

theorem Stands.replaced {identifier : String} {stack : List String} {place : Place}
    {base base' : String} (h : Stands identifier stack place base base') (reference : String) :
    place.replaced reference = removePrefix? (expandedPrefix stack) reference := by
  cases h with
  | schema => rfl
  | definition hstack =>
      unfold expandedPrefix
      rw [if_neg hstack]
      rfl

theorem Stands.base {identifier : String} {place : Place} {base base' : String}
    (h : Stands identifier [] place base base') : base' = base := by
  cases h with
  | schema => rfl
  | definition hstack => exact absurd rfl hstack

theorem Counterpart.levels_le {dialect : Dialect} {documents : String → Option Json}
    {identifier : String} {schema value : Json} {definitions : List (String × Json)}
    {place : Place} {levels : ℕ} {base base' : String} {node node' v : Json}
    (h : Counterpart dialect documents identifier schema value definitions place levels base node
      base' node' v) : levels ≤ maximumLevels := by
  cases h with
  | expanded hlevels => exact hlevels
  | other => exact Nat.zero_le _

section Sound

variable {dialect : Dialect} {documents documents' : String → Option Json} {identifier : String}
  {schema value expanded : Json} {definitions : List (String × Json)}
  (hs : Setting dialect documents documents' identifier schema value definitions expanded)
  (hcuts : CutsPointers dialect documents identifier schema value)

/-! ## Kept references -/

section Kept

variable {place : Place} {base reference : String} {entries : List (String × Json)} {v : Json}

include hs

/-- A kept reference leads to counterparts, or nowhere before and after. -/
theorem resolve_kept
    (hmet : Met dialect documents identifier schema value place base (.object entries) v)
    (href : entries.lookup "$ref" = some (.string reference))
    (hkept : place.replaced reference = none)
    (havoids : ∀ segments, target dialect base reference = some (identifier, segments) →
      AvoidsReplaced segments schema) :
    (resolve dialect documents base reference = none ∧
      resolve dialect documents' base reference = none) ∨
      ∃ uri found found' levels, resolve dialect documents base reference = some (uri, found) ∧
        resolve dialect documents' base reference = some (uri, found') ∧
        Counterpart dialect documents identifier schema value definitions
          (Place.target identifier uri) levels uri found uri found' v := by
  cases htarget : target dialect base reference with
  | none =>
      left
      unfold resolve
      rw [htarget]
      exact ⟨rfl, rfl⟩
  | some aim =>
      obtain ⟨uri, segments⟩ := aim
      have hmeets : ∀ {found : Json}, resolve dialect documents base reference = some (uri, found) →
          Met dialect documents identifier schema value (Place.target identifier uri) uri found v :=
        fun hfound => Met.kept hmet href hkept hfound
      rw [resolve_of_target htarget] at hmeets ⊢
      rw [resolve_of_target htarget]
      -- only the schema itself differs between the two document stores
      by_cases huri : uri = identifier
      · subst huri
        have hplace : Place.target uri uri = .schema := if_pos rfl
        rw [hplace] at hmeets
        rw [hs.document, Option.bind_some] at hmeets ⊢
        rw [hs.document', Option.bind_some]
        rcases walk_expanded segments hs.expands (havoids segments htarget) with
          ⟨hnone, hnone'⟩ | ⟨node, node', k, root, hk, hnode, hnode', hexpands⟩
        · left
          rw [hnone, hnone']
          exact ⟨rfl, rfl⟩
        · right
          rw [hnode] at hmeets ⊢
          rw [hnode']
          refine ⟨uri, node, node', k, rfl, rfl, ?_⟩
          rw [hplace]
          exact Counterpart.expanded hk .schema hexpands (hmeets rfl)
      · have hplace : Place.target identifier uri = .elsewhere := if_neg huri
        rw [hplace] at hmeets
        rw [hs.others uri huri]
        cases hfound : (documents uri).bind fun document =>
            (walk segments document).map fun found => (uri, found) with
        | none => exact Or.inl ⟨rfl, rfl⟩
        | some found =>
            obtain ⟨uri', node⟩ := found
            have huri' : uri' = uri := by
              obtain ⟨document, -, hfound⟩ := Option.bind_eq_some_iff.1 hfound
              obtain ⟨node', -, hpair⟩ := Option.map_eq_some_iff.1 hfound
              exact (congrArg Prod.fst hpair).symm
            subst huri'
            refine Or.inr ⟨uri', node, node, 0, rfl, rfl, ?_⟩
            rw [hplace]
            exact Counterpart.other huri (hmeets hfound)

/-- After the expansion a cut reference leads nowhere. -/
theorem resolve_cut {segments : List String}
    (htarget : target dialect base reference = some (identifier, segments))
    (hcut : CutBelow segments schema) : resolve dialect documents' base reference = none := by
  rw [resolve_of_target htarget, hs.document', Option.bind_some, walk_cut hs.expands hcut]
  rfl

/-- Where no pointer is cut, what a kept reference leads to has a counterpart. -/
theorem exists_counterpart (hkeeps : KeepsPointers dialect documents identifier schema value)
    (hmet : Met dialect documents identifier schema value place base (.object entries) v)
    (href : entries.lookup "$ref" = some (.string reference))
    (hkept : place.replaced reference = none) {uri : String} {found : Json}
    (hfound : resolve dialect documents base reference = some (uri, found)) :
    ∃ found' levels, resolve dialect documents' base reference = some (uri, found') ∧
      Counterpart dialect documents identifier schema value definitions
        (Place.target identifier uri) levels uri found uri found' v := by
  have havoids : ∀ segments, target dialect base reference = some (identifier, segments) →
      AvoidsReplaced segments schema :=
    fun segments htarget => hkeeps segments (.intro hmet href hkept htarget)
  rcases resolve_kept hs hmet href hkept havoids with
    ⟨hnone, -⟩ | ⟨uri', node, node', levels, hnode, hnode', hpair⟩
  · rw [hnone] at hfound
    cases hfound
  · rw [hnode, Option.some.injEq, Prod.mk.injEq] at hfound
    obtain ⟨rfl, rfl⟩ := hfound
    exact ⟨node', levels, hnode', hpair⟩

include hcuts in
/-- What a kept reference leads to after the expansion is a counterpart. -/
theorem exists_original
    (hmet : Met dialect documents identifier schema value place base (.object entries) v)
    (href : entries.lookup "$ref" = some (.string reference))
    (hkept : place.replaced reference = none) {uri : String} {found' : Json}
    (hfound' : resolve dialect documents' base reference = some (uri, found')) :
    ∃ found levels, resolve dialect documents base reference = some (uri, found) ∧
      Counterpart dialect documents identifier schema value definitions
        (Place.target identifier uri) levels uri found uri found' v := by
  have havoids : ∀ segments, target dialect base reference = some (identifier, segments) →
      AvoidsReplaced segments schema := by
    intro segments htarget
    refine (hcuts segments (.intro hmet href hkept htarget)).resolve_right fun hcut => ?_
    rw [resolve_cut hs htarget hcut] at hfound'
    cases hfound'
  rcases resolve_kept hs hmet href hkept havoids with
    ⟨-, hnone⟩ | ⟨uri', node, node', levels, hnode, hnode', hpair⟩
  · rw [hnone] at hfound'
    cases hfound'
  · rw [hnode', Option.some.injEq, Prod.mk.injEq] at hfound'
    obtain ⟨rfl, rfl⟩ := hfound'
    exact ⟨node, levels, hnode, hpair⟩

end Kept

/-! ## Objects of an expansion -/

theorem rewritten_keys {R : Json → Json → Prop} {entries entries' : List (String × Json)}
    (h : EntriesRewritten R entries entries') :
    entries.map Prod.fst = entries'.map Prod.fst := by
  induction h with
  | nil => rfl
  | cons he _ ih => rw [List.map_cons, List.map_cons, he.1, ih]

/-- The rewritten keywords hold no reference. -/
theorem rewritten_noReference {R : Json → Json → Prop} {entries result : List (String × Json)}
    (h : EntriesRewritten R (withoutReference entries) result) :
    withoutReference result = result ∧ result.lookup "$ref" = none := by
  have hkeys : ∀ e ∈ result, e.1 ≠ "$ref" := by
    intro e he
    have hmem := List.mem_map_of_mem (f := Prod.fst) he
    rw [← rewritten_keys h] at hmem
    obtain ⟨d, hd, hkey⟩ := List.mem_map.1 hmem
    rw [← hkey]
    exact of_decide_eq_true (List.mem_filter.1 hd).2
  have hsame : withoutReference result = result :=
    List.filter_eq_self.2 fun e he => decide_eq_true (hkeys e he)
  refine ⟨hsame, ?_⟩
  rw [← hsame]
  exact lookup_filter_reference result

theorem withoutReference_reference (target : Json) (entries : List (String × Json)) :
    withoutReference (("$ref", target) :: entries) = withoutReference entries :=
  List.filter_cons_of_neg (by simp)

section Objects

variable {fuel : ℕ} {base : String} {result : List (String × Json)} {value : Json} {verdict : Bool}

/-- An object without a reference is judged by its keywords. -/
theorem validate_plain (hresult : withoutReference result = result)
    (href : result.lookup "$ref" = none) :
    validate dialect documents (fuel + 1) base (.object result) value = some verdict ↔
      assertions dialect (validate dialect documents fuel base) result value = some verdict := by
  rw [validate_object_eq_some, hresult]
  unfold referenced
  rw [href]
  constructor
  · rintro ⟨first, rest, hfirst, hrest, rfl⟩
    cases hfirst
    rw [Bool.true_and]
    exact hrest
  · exact fun h => ⟨true, verdict, rfl, h, Bool.true_and _⟩

/-- `allOf` by itself is the conjunction of its schemas. -/
theorem validate_allOf {children : List Json} :
    validate dialect documents (fuel + 1) base (.object [("allOf", .array children)]) value =
        some verdict ↔
      ∃ verdicts, (children.mapM fun child => validate dialect documents fuel base child value) =
        some verdicts ∧ verdicts.all id = verdict := by
  rw [validate_plain (by simp [withoutReference]) (by rfl)]
  have hallOf : assertion dialect (validate dialect documents fuel base)
      [("allOf", .array children)] "allOf" (.array children) value =
      (children.mapM fun child => validate dialect documents fuel base child value).bind
        fun verdicts => some (verdicts.all id) := by
    have happlicator : applicator? "allOf" = some .allOf := by decide
    unfold assertion
    rw [happlicator]
    show ((children.map fun child => (child, value)).mapM fun task =>
      validate dialect documents fuel base task.1 task.2).bind _ = _
    rw [List.mapM_map]
    rfl
  unfold assertions
  rw [List.mapM_cons, List.mapM_nil]
  simp only [hallOf, Option.bind_eq_bind, Option.bind_eq_some_iff, Option.pure_def,
    Option.some.injEq]
  constructor
  · rintro ⟨all, ⟨each, ⟨verdicts, hverdicts, rfl⟩, rest, rfl, rfl⟩, h⟩
    exact ⟨verdicts, hverdicts, by simpa using h⟩
  · rintro ⟨verdicts, hverdicts, rfl⟩
    exact ⟨[verdicts.all id], ⟨verdicts.all id, ⟨verdicts, hverdicts, rfl⟩, [], rfl, rfl⟩, by simp⟩

theorem assertions_nil (judge : Json → Json → Option Bool) :
    assertions dialect judge [] value = some true := rfl

/-- The definition and the keywords beside a reference together make the verdict. -/
theorem validate_inline {expanded : Json} {first rest : Bool}
    (hresult : withoutReference result = result) (href : result.lookup "$ref" = none)
    (hfirst : validate dialect documents fuel base expanded value = some first)
    (hrest : assertions dialect (validate dialect documents fuel base) result value =
      some rest) :
    validate dialect documents (fuel + 2) base (inline expanded result) value =
      some (first && rest) := by
  have hfirst' := validate_mono (Nat.le_succ fuel) hfirst
  unfold inline
  split
  · rename_i hnil
    subst hnil
    rw [assertions_nil] at hrest
    cases hrest
    rw [Bool.and_true]
    cases expanded with
    | bool verdict =>
        refine validate_allOf.2 ⟨[first], ?_, by simp⟩
        rw [List.mapM_cons, List.mapM_nil, hfirst']
        rfl
    | _ => exact validate_mono (Nat.le_succ _) hfirst'
  · have hobject : validate dialect documents (fuel + 1) base (.object result) value = some rest :=
      (validate_plain hresult href).2 hrest
    refine validate_allOf.2 ⟨[first, rest], ?_, by simp⟩
    rw [List.mapM_cons, List.mapM_cons, List.mapM_nil, hfirst', hobject]
    rfl

/-- A verdict on an inlined definition comes from the definition and the keywords beside it. -/
theorem exists_of_validate_inline {expanded : Json}
    (hresult : withoutReference result = result) (href : result.lookup "$ref" = none)
    (h : validate dialect documents (fuel + 1) base (inline expanded result) value =
      some verdict) :
    ∃ first rest, validate dialect documents (fuel + 1) base expanded value = some first ∧
      assertions dialect (validate dialect documents fuel base) result value = some rest ∧
      (first && rest) = verdict := by
  unfold inline at h
  split at h
  · rename_i hnil
    subst hnil
    have hexpanded : validate dialect documents (fuel + 1) base expanded value = some verdict := by
      cases expanded with
      | bool judged =>
          obtain ⟨verdicts, hverdicts, hall⟩ := validate_allOf.1 h
          rw [List.mapM_cons, List.mapM_nil] at hverdicts
          obtain ⟨only, honly, hverdicts⟩ := Option.bind_eq_some_iff.1 hverdicts
          cases hverdicts
          rw [← hall, List.all_cons, List.all_nil, Bool.and_true]
          exact validate_mono (Nat.le_succ fuel) honly
      | _ => exact h
    exact ⟨verdict, true, hexpanded, rfl, Bool.and_true _⟩
  · obtain ⟨verdicts, hverdicts, hall⟩ := validate_allOf.1 h
    rw [List.mapM_cons, List.mapM_cons, List.mapM_nil] at hverdicts
    obtain ⟨first, hfirst, hverdicts⟩ := Option.bind_eq_some_iff.1 hverdicts
    obtain ⟨pair, hpair, hverdicts⟩ := Option.bind_eq_some_iff.1 hverdicts
    obtain ⟨rest, hrest, hpair⟩ := Option.bind_eq_some_iff.1 hpair
    cases hpair
    cases hverdicts
    refine ⟨first, rest, validate_mono (Nat.le_succ fuel) hfirst, ?_, by simpa using hall⟩
    cases fuel with
    | zero => cases hrest
    | succ fuel =>
        have hobject := (validate_plain hresult href).1 hrest
        refine assertions_congr dialect (entriesRewritten_refl result) ?_ hobject
        rintro child _ v rfl - - c hc
        exact validate_mono (Nat.le_succ fuel) hc

end Objects

/-! ## References -/

theorem referenced_none {judge : String → Json → Json → Option Bool} {base : String}
    {entries : List (String × Json)} {v : Json} (href : entries.lookup "$ref" = none) :
    referenced dialect documents judge base entries v = some true := by
  unfold referenced
  rw [href]

theorem referenced_eq_some {judge : String → Json → Json → Option Bool} {base reference : String}
    {entries : List (String × Json)} {v : Json} {first : Bool}
    (href : entries.lookup "$ref" = some (.string reference)) :
    referenced dialect documents judge base entries v = some first ↔
      ∃ uri found, resolve dialect documents base reference = some (uri, found) ∧
        judge uri found v = some first := by
  unfold referenced
  rw [href]
  show (resolve dialect documents base reference).bind _ = _ ↔ _
  rw [Option.bind_eq_some_iff, Prod.exists]

/-- The reference of one object is judged alike in two sets of documents where it leads to schemas
that are judged alike. -/
theorem referenced_congr {base : String} {entries : List (String × Json)} {v : Json} {first : Bool}
    {judge judge' : String → Json → Json → Option Bool}
    (hjudge : ∀ reference uri found, entries.lookup "$ref" = some (.string reference) →
      resolve dialect documents base reference = some (uri, found) →
      ∃ found', resolve dialect documents' base reference = some (uri, found') ∧
        (judge uri found v = some first → judge' uri found' v = some first))
    (h : referenced dialect documents judge base entries v = some first) :
    referenced dialect documents' judge' base entries v = some first := by
  cases href : entries.lookup "$ref" with
  | none =>
      rw [referenced_none href] at h ⊢
      exact h
  | some target =>
      cases target with
      | string reference =>
          obtain ⟨uri, found, hfound, h⟩ := (referenced_eq_some href).1 h
          obtain ⟨found', hfound', hjudged⟩ := hjudge reference uri found href hfound
          exact (referenced_eq_some href).2 ⟨uri, found', hfound', hjudged h⟩
      | _ =>
          unfold referenced at h
          rw [href] at h
          cases h

/-! ## One object -/

section OneObject

variable {k n m : ℕ} {stack : List String} {entries result : List (String × Json)}
  {base base' : String} {node' v : Json} {verdict : Bool}

/-- An object is judged like its expansion if its subschemas and its reference are. -/
theorem validate_assembled
    (hresult : EntriesRewritten (fun child child' => Child (.object entries) child ∧
      ExpandsTo definitions k stack false child child') (withoutReference entries) result)
    (hassembled : Assembled definitions k stack entries result node')
    (hchildren : JudgedAlike dialect (fun child child' => Child (.object entries) child ∧
      ExpandsTo definitions k stack false child child') (validate dialect documents n base)
      (validate dialect documents' m base') (withoutReference entries) result v)
    (hkept : ∀ reference uri found, entries.lookup "$ref" = some (.string reference) → stack = [] →
      removePrefix? commonRef reference = none →
      resolve dialect documents base reference = some (uri, found) →
      ∃ found', resolve dialect documents' base' reference = some (uri, found') ∧
        ∀ first, validate dialect documents n uri found v = some first →
          validate dialect documents' m uri found' v = some first)
    (hinlined : ∀ reference name definition expanded uri found,
      entries.lookup "$ref" = some (.string reference) →
      removePrefix? (expandedPrefix stack) reference = some name →
      definitions.lookup name = some definition →
      ExpandsTo definitions k (stack ++ [name]) false definition expanded →
      resolve dialect documents base reference = some (uri, found) →
      ∀ first, validate dialect documents n uri found v = some first →
        validate dialect documents' m base' expanded v = some first)
    (h : validate dialect documents (n + 1) base (.object entries) v = some verdict) :
    validate dialect documents' (m + 2) base' node' v = some verdict := by
  obtain ⟨first, rest, hfirst, hrest, rfl⟩ := validate_object_eq_some.1 h
  obtain ⟨hsame, hnone⟩ := rewritten_noReference hresult
  have hrest' : assertions dialect (validate dialect documents' m base') result v = some rest :=
    assertions_congr dialect hresult hchildren hrest
  cases hassembled with
  | plain href =>
      rw [referenced_none href] at hfirst
      cases hfirst
      rw [Bool.true_and]
      exact validate_mono (Nat.le_succ _) ((validate_plain hsame hnone).2 hrest')
  | kept href hstack hother =>
      obtain ⟨uri, found, hfound, hfirst⟩ := (referenced_eq_some href).1 hfirst
      obtain ⟨found', hfound', hjudged⟩ := hkept _ uri found href hstack hother hfound
      refine validate_mono (Nat.le_succ _) (validate_object_eq_some.2 ⟨first, rest, ?_, ?_, rfl⟩)
      · exact (referenced_eq_some (List.lookup_cons_self)).2
          ⟨uri, found', hfound', hjudged first hfirst⟩
      · rw [withoutReference_reference, hsame]
        exact hrest'
  | inlined href hname hdefinition hnew hplain hexpanded =>
      obtain ⟨uri, found, hfound, hfirst⟩ := (referenced_eq_some href).1 hfirst
      exact validate_inline hsame hnone
        (hinlined _ _ _ _ uri found href hname hdefinition hexpanded hfound first hfirst) hrest'

/-- What stands for the reference of an expanded object has been judged. -/
inductive ReferenceJudged (dialect : Dialect) (documents' : String → Option Json)
    (definitions : List (String × Json)) (k n : ℕ) (stack : List String)
    (entries : List (String × Json)) (base' : String) (v : Json) : Bool → Prop
  | plain (href : entries.lookup "$ref" = none) :
      ReferenceJudged dialect documents' definitions k n stack entries base' v true
  | kept {reference uri : String} {found' : Json} {first : Bool}
      (href : entries.lookup "$ref" = some (.string reference)) (hstack : stack = [])
      (hother : removePrefix? commonRef reference = none)
      (hfound' : resolve dialect documents' base' reference = some (uri, found'))
      (hfirst : validate dialect documents' n uri found' v = some first) :
      ReferenceJudged dialect documents' definitions k n stack entries base' v first
  | inlined {reference name : String} {definition expanded : Json} {first : Bool}
      (href : entries.lookup "$ref" = some (.string reference))
      (hname : removePrefix? (expandedPrefix stack) reference = some name)
      (hdefinition : definitions.lookup name = some definition)
      (hexpanded : ExpandsTo definitions k (stack ++ [name]) false definition expanded)
      (hfirst : validate dialect documents' (n + 1) base' expanded v = some first) :
      ReferenceJudged dialect documents' definitions k n stack entries base' v first

/-- A verdict on an expanded object comes from its keywords and from what stands for its
reference. -/
theorem Assembled.judged {R : Json → Json → Prop}
    (hassembled : Assembled definitions k stack entries result node')
    (hresult : EntriesRewritten R (withoutReference entries) result)
    (h : validate dialect documents' (n + 1) base' node' v = some verdict) :
    ∃ first rest, ReferenceJudged dialect documents' definitions k n stack entries base' v first ∧
      assertions dialect (validate dialect documents' n base') result v = some rest ∧
      (first && rest) = verdict := by
  obtain ⟨hsame, hnone⟩ := rewritten_noReference hresult
  cases hassembled with
  | plain href =>
      exact ⟨true, verdict, .plain href, (validate_plain hsame hnone).1 h, Bool.true_and _⟩
  | kept href hstack hother =>
      obtain ⟨first, rest, hfirst, hrest, rfl⟩ := validate_object_eq_some.1 h
      rw [withoutReference_reference, hsame] at hrest
      obtain ⟨uri, found', hfound', hfirst⟩ :=
        (referenced_eq_some (List.lookup_cons_self)).1 hfirst
      exact ⟨first, rest, .kept href hstack hother hfound' hfirst, hrest, rfl⟩
  | inlined href hname hdefinition hnew hplain hexpanded =>
      obtain ⟨first, rest, hfirst, hrest, rfl⟩ := exists_of_validate_inline hsame hnone h
      exact ⟨first, rest, .inlined href hname hdefinition hexpanded hfirst, hrest, rfl⟩

end OneObject

/-! ## Both directions -/

theorem Met.child {place : Place} {base : String} {entries : List (String × Json)}
    {child v v' : Json} {n : ℕ}
    (hmet : Met dialect documents identifier schema value place base (.object entries) v)
    (happlied : Applied dialect (Judges (validate dialect documents n base))
      (withoutReference entries) v child v') :
    Met dialect documents identifier schema value place base child v' :=
  .applied hmet (happlied.mono fun _ _ hjudged => ⟨n, hjudged⟩)

/-- The place of an expanded object tells which of its references are replaced. -/
theorem Stands.kept {stack : List String} {place : Place} {base base' reference : String}
    (h : Stands identifier stack place base base') (hstack : stack = [])
    (hother : removePrefix? commonRef reference = none) : place.replaced reference = none := by
  rw [h.replaced, expandedPrefix, if_pos hstack]
  exact hother

include hs in
/-- A replaced reference that is met leads to the definition in its place. -/
theorem Setting.found {stack : List String} {place : Place} {base base' reference name : String}
    {entries : List (String × Json)} {definition v : Json}
    (hstands : Stands identifier stack place base base')
    (hmet : Met dialect documents identifier schema value place base (.object entries) v)
    (href : entries.lookup "$ref" = some (.string reference))
    (hname : removePrefix? (expandedPrefix stack) reference = some name)
    (hdefinition : definitions.lookup name = some definition) :
    resolve dialect documents base reference = some (commonId, definition) ∧
      Met dialect documents identifier schema value .definition commonId definition v := by
  rw [← hstands.replaced] at hname
  have hfound := hs.leads place base reference name definition (.intro hmet href hname) hdefinition
  exact ⟨hfound, .replaced hmet href hname hfound⟩

include hs in
/-- Where no pointer is cut, the counterpart of a schema has its outcome. -/
theorem validate_counterpart (hkeeps : KeepsPointers dialect documents identifier schema value) :
    ∀ (n : ℕ) {place : Place} {levels : ℕ} {base base' : String} {node node' v : Json},
      Counterpart dialect documents identifier schema value definitions place levels base node
        base' node' v →
      ∀ {verdict : Bool}, validate dialect documents n base node v = some verdict →
      validate dialect documents' (2 * n) base' node' v = some verdict := by
  intro n
  induction n with
  | zero => exact fun _ _ h => (nomatch h)
  | succ n ih =>
      intro place levels base base' node node' v hcounterpart verdict h
      cases hcounterpart with
      | expanded hlevels hstands hexpands hmet =>
          obtain ⟨k, rfl, ⟨judged, rfl, rfl⟩ | ⟨entries, result, rfl, hresult, hassembled⟩⟩ :=
            expandsTo_cases hexpands
          · exact h
          have hk : k ≤ maximumLevels := by omega
          refine validate_assembled (m := 2 * n) hresult hassembled ?_ ?_ ?_ h
          · intro child child' v' hchild happlied _ c hc
            exact ih (.expanded hk hstands hchild.2 (hmet.child happlied)) hc
          · intro reference uri found href hstack hother hfound
            obtain ⟨found', i, hfound', hpair⟩ :=
              exists_counterpart hs hkeeps hmet href (hstands.kept hstack hother) hfound
            subst hstack
            exact ⟨found', hstands.base ▸ hfound', fun first hfirst => ih hpair hfirst⟩
          · intro reference name definition expanded' uri found href hname hdefinition hexpanded
              hfound first hfirst
            obtain ⟨hleads, hdefinitionMet⟩ := hs.found hstands hmet href hname hdefinition
            rw [hleads] at hfound
            cases hfound
            exact ih (.expanded hk (.definition (by simp)) hexpanded hdefinitionMet) hfirst
      | other hbase hmet =>
          cases node with
          | object entries =>
              obtain ⟨first, rest, hfirst, hrest, rfl⟩ := validate_object_eq_some.1 h
              refine (@validate_mono _ _ (2 * n + 1)) (by omega)
                (validate_object_eq_some.2 ⟨first, rest, ?_, ?_, rfl⟩)
              · refine referenced_congr ?_ hfirst
                intro reference uri found href hfound
                obtain ⟨found', i, hfound', hpair⟩ :=
                  exists_counterpart hs hkeeps hmet href rfl hfound
                exact ⟨found', hfound', fun hjudged => ih hpair hjudged⟩
              · refine assertions_congr dialect (entriesRewritten_refl _) ?_ hrest
                rintro child _ v' rfl happlied - c hc
                exact ih (.other hbase (hmet.child happlied)) hc
          | bool judged => exact h
          | _ => cases h

include hs hcuts in
/-- A schema has the outcome of its counterpart. The fuel grows with the nesting of the inlined
definitions, which cost the counterpart none. -/
theorem counterpart_validate :
    ∀ (n levels : ℕ) {place : Place} {base base' : String} {node node' v : Json},
      Counterpart dialect documents identifier schema value definitions place levels base node
        base' node' v →
      ∀ {verdict : Bool}, validate dialect documents' n base' node' v = some verdict →
      validate dialect documents ((maximumLevels + 1) * n + levels) base node v =
        some verdict := by
  intro n
  induction n with
  | zero => exact fun _ _ _ _ _ _ _ _ _ h => (nomatch h)
  | succ n ih =>
      have hgrow : (maximumLevels + 1) * (n + 1) = (maximumLevels + 1) * n + (maximumLevels + 1) :=
        Nat.mul_succ _ _
      intro levels
      -- an inlined definition is judged at the same fuel, at fewer levels
      induction levels using Nat.strong_induction_on with
      | _ levels ihlevels =>
      intro place base base' node node' v hcounterpart verdict h
      cases hcounterpart with
      | expanded hlevels hstands hexpands hmet =>
          obtain ⟨k, rfl, ⟨judged, rfl, rfl⟩ | ⟨entries, result, rfl, hresult, hassembled⟩⟩ :=
            expandsTo_cases hexpands
          · exact h
          have hk : k ≤ maximumLevels := by omega
          obtain ⟨first, rest, hreference, hrest, rfl⟩ := hassembled.judged hresult h
          refine (@validate_object_eq_some _ _ ((maximumLevels + 1) * (n + 1) + k)).2
            ⟨first, rest, ?_, ?_, rfl⟩
          · cases hreference with
            | plain href => exact referenced_none href
            | kept href hstack hother hfound' hfirst =>
                have hkept := hstands.kept hstack hother
                subst hstack
                rw [hstands.base] at hfound'
                obtain ⟨found, i, hfound, hpair⟩ :=
                  exists_original hs hcuts hmet href hkept hfound'
                have hi := hpair.levels_le
                exact (referenced_eq_some href).2
                  ⟨_, found, hfound, validate_mono (by omega) (ih i hpair hfirst)⟩
            | inlined href hname hdefinition hexpanded hfirst =>
                obtain ⟨hleads, hdefinitionMet⟩ := hs.found hstands hmet href hname hdefinition
                exact (referenced_eq_some href).2 ⟨_, _, hleads, ihlevels k (Nat.lt_succ_self k)
                  (.expanded hk (.definition (by simp)) hexpanded hdefinitionMet) hfirst⟩
          · refine assertions_congr dialect (entriesRewritten_flip hresult) ?_ hrest
            intro child' child v' hchild _ happlied c hc
            exact validate_mono (by omega)
              (ih k (.expanded hk hstands hchild.2 (hmet.child happlied)) hc)
      | other hbase hmet =>
          cases node with
          | object entries =>
              obtain ⟨first, rest, hfirst, hrest, rfl⟩ := validate_object_eq_some.1 h
              refine (@validate_mono _ _ ((maximumLevels + 1) * n + maximumLevels + 1))
                (by omega) (validate_object_eq_some.2 ⟨first, rest, ?_, ?_, rfl⟩)
              · refine referenced_congr ?_ hfirst
                intro reference uri found' href hfound'
                obtain ⟨found, i, hfound, hpair⟩ := exists_original hs hcuts hmet href rfl hfound'
                have hi := hpair.levels_le
                exact ⟨found, hfound, fun hjudged =>
                  validate_mono (by omega) (ih i hpair hjudged)⟩
              · refine assertions_congr dialect (entriesRewritten_refl _) ?_ hrest
                rintro child _ v' rfl - happlied c hc
                exact validate_mono (by omega) (ih 0 (.other hbase (hmet.child happlied)) hc)
          | bool judged => exact h
          | _ => cases h

/-! ## What an outcome of the expansion has judged -/

section Defined

/-- The counterpart of a schema has an outcome in the expansion. -/
def DefinedCounterpart (dialect : Dialect) (documents documents' : String → Option Json)
    (identifier : String) (schema value : Json) (definitions : List (String × Json))
    (place : Place) (base : String) (node v : Json) : Prop :=
  ∃ levels base' node' verdict, Counterpart dialect documents identifier schema value definitions
    place levels base node base' node' v ∧ Outcome dialect documents' base' node' v verdict

variable {place : Place} {base reference : String} {entries : List (String × Json)} {v : Json}

/-- A kept reference has been judged where its object has. -/
theorem DefinedCounterpart.kept
    (h : DefinedCounterpart dialect documents documents' identifier schema value definitions place
      base (.object entries) v)
    (href : entries.lookup "$ref" = some (.string reference))
    (hkept : place.replaced reference = none) :
    ∃ uri found' verdict, resolve dialect documents' base reference = some (uri, found') ∧
      Outcome dialect documents' uri found' v verdict := by
  obtain ⟨levels, base', node', verdict, hcounterpart, fuel, h⟩ := h
  cases fuel with
  | zero => cases h
  | succ n =>
  cases hcounterpart with
  | expanded hlevels hstands hexpands hmet =>
      obtain ⟨k, rfl, ⟨judged, hbool, -⟩ | ⟨entries', result, hobject, hresult, hassembled⟩⟩ :=
        expandsTo_cases hexpands
      · cases hbool
      cases hobject
      obtain ⟨first, rest, hreference, -, -⟩ := hassembled.judged hresult h
      cases hreference with
      | plain hnone =>
          rw [hnone] at href
          cases href
      | kept href' hstack _ hfound' hfirst =>
          rw [href'] at href
          cases href
          subst hstack
          rw [hstands.base] at hfound'
          exact ⟨_, _, first, hfound', n, hfirst⟩
      | inlined href' hname _ _ _ =>
          rw [href'] at href
          cases href
          rw [hstands.replaced, hname] at hkept
          cases hkept
  | other hbase hmet =>
      obtain ⟨first, rest, hfirst, -, -⟩ := validate_object_eq_some.1 h
      obtain ⟨uri, found', hfound', hfirst⟩ := (referenced_eq_some href).1 hfirst
      exact ⟨uri, found', first, hfound', n, hfirst⟩

include hs in
/-- The definition in the place of a reference has been judged where its object has. -/
theorem DefinedCounterpart.replaced
    (h : DefinedCounterpart dialect documents documents' identifier schema value definitions place
      base (.object entries) v)
    (href : entries.lookup "$ref" = some (.string reference)) {name uri : String} {found : Json}
    (hname : place.replaced reference = some name)
    (hfound : resolve dialect documents base reference = some (uri, found)) :
    DefinedCounterpart dialect documents documents' identifier schema value definitions .definition
      uri found v := by
  obtain ⟨levels, base', node', verdict, hcounterpart, fuel, h⟩ := h
  cases fuel with
  | zero => cases h
  | succ n =>
  cases hcounterpart with
  | expanded hlevels hstands hexpands hmet =>
      obtain ⟨k, rfl, ⟨judged, hbool, -⟩ | ⟨entries', result, hobject, hresult, hassembled⟩⟩ :=
        expandsTo_cases hexpands
      · cases hbool
      cases hobject
      obtain ⟨first, rest, hreference, -, -⟩ := hassembled.judged hresult h
      cases hreference with
      | plain hnone =>
          rw [hnone] at href
          cases href
      | kept href' hstack hother _ _ =>
          rw [href'] at href
          cases href
          rw [hstands.kept hstack hother] at hname
          cases hname
      | inlined href' _ hdefinition hexpanded hfirst =>
          obtain ⟨hleads, hdefinitionMet⟩ := hs.found hstands hmet href' ‹_› hdefinition
          rw [href'] at href
          cases href
          rw [hleads] at hfound
          cases hfound
          have hk : k ≤ maximumLevels := by omega
          exact ⟨k, base', _, first,
            .expanded hk (.definition (by simp)) hexpanded hdefinitionMet, n + 1, hfirst⟩
  | other hbase hmet => cases hname

include hs hcuts in
/-- What an object applies has been judged where the object has. -/
theorem DefinedCounterpart.applied
    (h : DefinedCounterpart dialect documents documents' identifier schema value definitions place
      base (.object entries) v) {child v' : Json}
    (happlied : Applied dialect (Outcome dialect documents base) (withoutReference entries) v child
      v') :
    DefinedCounterpart dialect documents documents' identifier schema value definitions place base
      child v' := by
  obtain ⟨levels, base', node', verdict, hcounterpart, fuel, h⟩ := h
  cases fuel with
  | zero => cases h
  | succ n =>
  cases hcounterpart with
  | expanded hlevels hstands hexpands hmet =>
      obtain ⟨k, rfl, ⟨judged, hbool, -⟩ | ⟨entries', result, hobject, hresult, hassembled⟩⟩ :=
        expandsTo_cases hexpands
      · cases hbool
      cases hobject
      have hk : k ≤ maximumLevels := by omega
      obtain ⟨first, rest, -, hrest, -⟩ := hassembled.judged hresult h
      have hchild := happlied.rewritten hresult hrest ?_
      · obtain ⟨child', c, hchild, hc⟩ := hchild
        exact ⟨k, base', child', c, .expanded hk hstands hchild.2 (.applied hmet happlied), n, hc⟩
      -- the condition of a branch has one outcome, before the expansion and after it
      · intro keyword condition condition' c c' hitem hif hchild hjudged hc'
        have hcondition := Met.applied hmet (.condition hitem hif)
        exact (Outcome.unique hjudged
          ⟨_, counterpart_validate hs hcuts n k (.expanded hk hstands hchild.2 hcondition) hc'⟩).symm
  | other hbase hmet =>
      obtain ⟨first, rest, -, hrest, -⟩ := validate_object_eq_some.1 h
      have hchild := happlied.rewritten (entriesRewritten_refl _) hrest ?_
      · obtain ⟨child', c, rfl, hc⟩ := hchild
        exact ⟨0, base, child, c, .other hbase (.applied hmet happlied), n, hc⟩
      · rintro keyword condition _ c c' hitem hif rfl hjudged hc'
        have hcondition := Met.applied hmet (.condition hitem hif)
        exact (Outcome.unique hjudged
          ⟨_, counterpart_validate hs hcuts n 0 (.other hbase hcondition) hc'⟩).symm

include hs hcuts in
/-- Where the expansion has an outcome, everything that is met has a counterpart with one. -/
theorem Met.counterpart {verdict : Bool}
    (houtcome : Outcome dialect documents' identifier expanded value verdict) {node : Json}
    (hmet : Met dialect documents identifier schema value place base node v) :
    DefinedCounterpart dialect documents documents' identifier schema value definitions place base
      node v := by
  induction hmet with
  | start =>
      exact ⟨maximumLevels, identifier, expanded, verdict,
        .expanded le_rfl .schema hs.expands .start, houtcome⟩
  | applied _ happlied ih => exact ih.applied hs hcuts happlied
  | replaced _ href hname hfound ih => exact ih.replaced hs href hname hfound
  | kept hmet href hkept hresolved ih =>
      obtain ⟨uri, found', verdict, hfound', houtcome⟩ := ih.kept href hkept
      obtain ⟨found, levels, hfound, hpair⟩ := exists_original hs hcuts hmet href hkept hfound'
      rw [hfound] at hresolved
      cases hresolved
      exact ⟨levels, _, found', verdict, hpair, houtcome⟩

include hs hcuts in
/-- Where the expansion has an outcome, no pointer was cut. -/
theorem keepsPointers_of_outcome {verdict : Bool}
    (houtcome : Outcome dialect documents' identifier expanded value verdict) :
    KeepsPointers dialect documents identifier schema value := by
  intro segments hpoints
  refine (hcuts segments hpoints).resolve_right fun hcut => ?_
  cases hpoints with
  | intro hmet href hkept htarget =>
      obtain ⟨uri, found', c, hfound', -⟩ := (hmet.counterpart hs hcuts houtcome).kept href hkept
      rw [resolve_cut hs htarget hcut] at hfound'
      cases hfound'

end Defined

end Sound

end StaticHostAgent.Contracts.SchemaExpansion
