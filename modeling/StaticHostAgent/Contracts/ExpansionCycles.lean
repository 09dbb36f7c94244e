import StaticHostAgent.Contracts.ExpansionReferences

/-!
# Accepted expansions have no cycle

An expansion expands every subschema (`expandsTo_subschema`) and every definition it puts in the
place of a reference (`expandsTo_reference`), each time with a level less. So the references between
the definitions it inlines end (`inlined_accessible`).
-/

set_option autoImplicit false

namespace StaticHostAgent.Contracts.SchemaExpansion

open Library Library.JsonSchema

/-- The definition `outer` refers to the definition `name`. -/
def Refers (definitions : List (String × Json)) (outer name : String) : Prop :=
  ∃ definition entries reference, definitions.lookup outer = some definition ∧
    Subschema definition (.object entries) ∧
    entries.lookup "$ref" = some (.string reference) ∧
    removePrefix? localRef reference = some name

/-- The names of the definitions that the expansion of `schema` puts in the place of references. -/
inductive Inlined (schema : Json) (definitions : List (String × Json)) : String → Prop
  | start {entries : List (String × Json)} {reference name : String}
      (hsub : Subschema schema (.object entries))
      (href : entries.lookup "$ref" = some (.string reference))
      (hname : removePrefix? commonRef reference = some name) : Inlined schema definitions name
  | next {outer reference name : String} {definition : Json} {entries : List (String × Json)}
      (houter : Inlined schema definitions outer)
      (hdefinition : definitions.lookup outer = some definition)
      (hsub : Subschema definition (.object entries))
      (href : entries.lookup "$ref" = some (.string reference))
      (hname : removePrefix? localRef reference = some name) : Inlined schema definitions name

section Cycles

variable {definitions : List (String × Json)} {levels : ℕ} {stack : List String} {root : Bool}
  {value value' : Json}

theorem rewritten_child {R : Json → Json → Prop} {entries result : List (String × Json)}
    {child : Json} (h : EntriesRewritten R (withoutReference entries) result)
    (hchild : Child (.object entries) child) : ∃ child', R child child' := by
  have hitem : ∀ {keyword : String} {item : Json} {shape : Shape},
      (applicator? keyword).map Applicator.shape = some shape → (keyword, item) ∈ entries →
      ∃ item', ItemRewritten R keyword item item' := by
    intro keyword item shape hshape hmem
    have hkey : keyword ≠ "$ref" := by
      rintro rfl
      rw [show (applicator? "$ref").map Applicator.shape = none by decide] at hshape
      cases hshape
    have hmem' : (keyword, item) ∈ withoutReference entries :=
      List.mem_filter.2 ⟨hmem, decide_eq_true hkey⟩
    obtain ⟨i, hi, hget⟩ := List.getElem_of_mem hmem'
    have hi' : i < result.length := List.Forall₂.length_eq h ▸ hi
    have hpair := (List.forall₂_iff_get.1 h).2 i hi hi'
    simp only [List.get_eq_getElem, hget] at hpair
    exact ⟨_, hpair.2⟩
  cases hchild with
  | named hshape hmem hname =>
      obtain ⟨item', hrewritten⟩ := hitem hshape hmem
      unfold ItemRewritten at hrewritten
      rw [hshape] at hrewritten
      rcases hrewritten with ⟨children, children', heq, -, hchildren⟩ | ⟨hfits, -⟩
      · cases heq
        obtain ⟨i, hi, hget⟩ := List.getElem_of_mem hname
        have hi' : i < children'.length := List.Forall₂.length_eq hchildren ▸ hi
        have hpair := (List.forall₂_iff_get.1 hchildren).2 i hi hi'
        simp only [List.get_eq_getElem, hget] at hpair
        exact ⟨_, hpair.2⟩
      · cases hfits
  | listed hshape hmem hlisted =>
      obtain ⟨item', hrewritten⟩ := hitem hshape hmem
      unfold ItemRewritten at hrewritten
      rw [hshape] at hrewritten
      rcases hrewritten with ⟨children, children', heq, -, hchildren⟩ | ⟨hfits, -⟩
      · cases heq
        obtain ⟨i, hi, hget⟩ := List.getElem_of_mem hlisted
        have hi' : i < children'.length := List.Forall₂.length_eq hchildren ▸ hi
        have hpair := (List.forall₂_iff_get.1 hchildren).2 i hi hi'
        simp only [List.get_eq_getElem, hget] at hpair
        exact ⟨_, hpair⟩
      · cases hfits
  | single hshape hmem =>
      obtain ⟨item', hrewritten⟩ := hitem hshape hmem
      unfold ItemRewritten at hrewritten
      rw [hshape] at hrewritten
      exact ⟨item', hrewritten⟩

/-- An expansion expands every subschema. -/
theorem expandsTo_subschema {node : Json} (hsub : Subschema value node) :
    ∀ {levels : ℕ} {root : Bool} {value' : Json},
      ExpandsTo definitions levels stack root value value' →
      ∃ k root' node', k ≤ levels ∧ ExpandsTo definitions k stack root' node node' := by
  induction hsub using Relation.ReflTransGen.head_induction_on with
  | refl => exact fun {levels root value'} h => ⟨levels, root, value', le_rfl, h⟩
  | head hchild _ ih =>
      intro levels root value' h
      obtain ⟨k, rfl, ⟨judged, rfl, -⟩ | ⟨entries, result, rfl, hresult, -⟩⟩ := expandsTo_cases h
      · cases hchild
      · obtain ⟨child', -, hexpands⟩ := rewritten_child hresult hchild
        obtain ⟨i, root', node', hi, hnode⟩ := ih hexpands
        exact ⟨i, root', node', Nat.le_succ_of_le hi, hnode⟩

/-- A replaced reference was replaced by the expansion of its definition, with one level less. -/
theorem expandsTo_reference {entries : List (String × Json)} {reference name : String}
    (h : ExpandsTo definitions levels stack root (.object entries) value')
    (href : entries.lookup "$ref" = some (.string reference))
    (hname : removePrefix? (expandedPrefix stack) reference = some name) :
    (∀ c ∈ name.toList, c ≠ '/' ∧ c ≠ '~') ∧
      ∃ k definition expanded, k < levels ∧ definitions.lookup name = some definition ∧
        ExpandsTo definitions k (stack ++ [name]) false definition expanded := by
  obtain ⟨k, rfl, ⟨judged, hvalue, -⟩ | ⟨entries', result, hvalue, -, hassembled⟩⟩ :=
    expandsTo_cases h
  · cases hvalue
  cases hvalue
  cases hassembled with
  | plain hnone =>
      rw [hnone] at href
      cases href
  | kept href' hstack hother =>
      rw [href'] at href
      cases href
      unfold expandedPrefix at hname
      rw [if_pos hstack, hother] at hname
      cases hname
  | inlined href' hname' hdefinition hnew hplain hexpanded =>
      rw [href'] at href
      cases href
      rw [hname'] at hname
      cases hname
      exact ⟨hplain, k, _, _, Nat.lt_succ_self k, hdefinition, hexpanded⟩

/-- The definitions that an expanded definition leads to end. -/
theorem accessible_of_expandsTo : ∀ {levels : ℕ} {stack : List String} {name : String}
    {definition expanded : Json}, stack ≠ [] →
    ExpandsTo definitions levels stack false definition expanded →
    definitions.lookup name = some definition →
    Acc (fun inner outer => Refers definitions outer inner) name := by
  intro levels
  induction levels using Nat.strong_induction_on with
  | _ levels ih =>
    intro stack name definition expanded hstack h hdefinition
    refine Acc.intro name ?_
    rintro inner ⟨definition', entries, reference, hdefinition', hsub, href, hname⟩
    rw [hdefinition] at hdefinition'
    cases hdefinition'
    obtain ⟨k, root', node', hk, hnode⟩ := expandsTo_subschema hsub h
    have hinitial : expandedPrefix stack = localRef := if_neg hstack
    obtain ⟨-, i, inner', expanded', hi, hinner, hexpanded⟩ :=
      expandsTo_reference hnode href (hinitial.symm ▸ hname)
    exact ih i (by omega) (by simp) hexpanded hinner

theorem inlined_expandsTo {schema : Json} {expanded : Json} {name : String}
    (hschema : ExpandsTo definitions levels [] true schema expanded)
    (h : Inlined schema definitions name) :
    ∃ k stack definition expanded', stack ≠ [] ∧ definitions.lookup name = some definition ∧
      ExpandsTo definitions k stack false definition expanded' := by
  induction h with
  | start hsub href hname =>
      obtain ⟨k, root', node', -, hnode⟩ := expandsTo_subschema hsub hschema
      obtain ⟨-, i, definition, expanded', -, hdefinition, hexpanded⟩ :=
        expandsTo_reference hnode href hname
      exact ⟨i, _, definition, expanded', by simp, hdefinition, hexpanded⟩
  | next _ hdefinition hsub href hname ih =>
      obtain ⟨k, stack, definition', expanded', hstack, hdefinition', hexpanded⟩ := ih
      rw [hdefinition] at hdefinition'
      cases hdefinition'
      obtain ⟨i, root', node', -, hnode⟩ := expandsTo_subschema hsub hexpanded
      have hinitial : expandedPrefix stack = localRef := if_neg hstack
      obtain ⟨-, j, inner, expanded'', -, hinner, hexpanded'⟩ :=
        expandsTo_reference hnode href (hinitial.symm ▸ hname)
      exact ⟨j, _, inner, expanded'', by simp, hinner, hexpanded'⟩

/-- Where an expansion succeeds, the references between the inlined definitions have no cycle. -/
theorem inlined_accessible {schema expanded : Json} {name : String}
    (hschema : ExpandsTo definitions levels [] true schema expanded)
    (h : Inlined schema definitions name) :
    Acc (fun inner outer => Refers definitions outer inner) name := by
  obtain ⟨k, stack, definition, expanded', hstack, hdefinition, hexpanded⟩ :=
    inlined_expandsTo hschema h
  exact accessible_of_expandsTo hstack hexpanded hdefinition

end Cycles

end StaticHostAgent.Contracts.SchemaExpansion
