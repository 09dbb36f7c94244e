import StaticHostAgent.Contracts.SchemaExpansion

/-!
# What an expansion does to a schema

`ExpandsTo` says that an expansion with some budget turns one schema into another. `expandsTo_cases`
lists every way it can: the keywords are rewritten, and a reference is absent, kept, or replaced by
the expanded definition.
-/

set_option autoImplicit false

namespace StaticHostAgent.Contracts.SchemaExpansion

open Library Library.JsonSchema

/-- The expansion succeeds with some budget. -/
def ExpandsTo (definitions : List (String × Json)) (levels : ℕ) (stack : List String)
    (root : Bool) (value value' : Json) : Prop :=
  ∃ n n', expandSchema definitions levels value stack root n = some (value', n')

/-- The prefix of the references that are replaced. -/
def expandedPrefix (stack : List String) : String := if stack = [] then commonRef else localRef

/-- How the object `entries` with the rewritten keywords `result` is expanded. -/
inductive Assembled (definitions : List (String × Json)) (levels : ℕ) (stack : List String)
    (entries result : List (String × Json)) : Json → Prop
  | plain (href : entries.lookup "$ref" = none) :
      Assembled definitions levels stack entries result (.object result)
  | kept {reference : String} (href : entries.lookup "$ref" = some (.string reference))
      (hstack : stack = []) (hother : removePrefix? commonRef reference = none) :
      Assembled definitions levels stack entries result
        (.object (("$ref", .string reference) :: result))
  | inlined {reference name : String} {definition expanded : Json}
      (href : entries.lookup "$ref" = some (.string reference))
      (hname : removePrefix? (expandedPrefix stack) reference = some name)
      (hdefinition : definitions.lookup name = some definition) (hnew : name ∉ stack)
      (hplain : ∀ c ∈ name.toList, c ≠ '/' ∧ c ≠ '~')
      (hexpanded : ExpandsTo definitions levels (stack ++ [name]) false definition expanded) :
      Assembled definitions levels stack entries result (inline expanded result)

section Monad

variable {α β : Type}

theorem expansion_bind_eq_some {x : Expansion α} {f : α → Expansion β} {n n' : ℕ} {b : β}
    (h : (x >>= f) n = some (b, n')) : ∃ a m, x n = some (a, m) ∧ f a m = some (b, n') := by
  obtain ⟨⟨a, m⟩, hx, hf⟩ := Option.bind_eq_some_iff.1 h
  exact ⟨a, m, hx, hf⟩

theorem expansion_pure_eq_some {a b : α} {n n' : ℕ}
    (h : (pure a : Expansion α) n = some (b, n')) : a = b := by
  cases h
  rfl

theorem expansion_mapM_eq_some {f : α → Expansion β} {xs : List α} :
    ∀ {n n' : ℕ} {ys : List β}, xs.mapM f n = some (ys, n') →
      List.Forall₂ (fun x y => ∃ m m', f x m = some (y, m')) xs ys := by
  induction xs with
  | nil =>
      intro n n' ys h
      rw [List.mapM_nil] at h
      obtain rfl := expansion_pure_eq_some h
      exact List.Forall₂.nil
  | cons x xs ih =>
      intro n n' ys h
      rw [List.mapM_cons] at h
      obtain ⟨y, m, hy, h⟩ := expansion_bind_eq_some h
      obtain ⟨rest, m', hrest, h⟩ := expansion_bind_eq_some h
      obtain rfl := expansion_pure_eq_some h
      exact List.Forall₂.cons ⟨n, m, hy⟩ (ih hrest)

end Monad

/-! ## Keywords -/

theorem shape_of_literals : ∀ key ∈ literals, (applicator? key).map Applicator.shape = none := by
  decide

theorem shape_of_identifiers :
    ∀ key ∈ ["$id", "$schema"], (applicator? key).map Applicator.shape = none := by
  decide

theorem shape_of_maps : ∀ key ∈ maps, (applicator? key).map Applicator.shape = some .map := by
  decide

theorem shape_of_arrays :
    ∀ key ∈ arrays, (applicator? key).map Applicator.shape = some .array := by
  decide

theorem shape_of_singles :
    ∀ key ∈ singles, (applicator? key).map Applicator.shape = some .single := by
  decide

/-- A keyword keeps its value up to the expanded subschemas. -/
theorem expandItem_rewritten {expand : Json → Expansion Json} {root : Bool} {key : String}
    {item item' : Json} {n n' : ℕ} (h : expandItem expand root key item n = some (item', n')) :
    ItemRewritten (fun child child' => ∃ m m', expand child m = some (child', m')) key item
      item' := by
  unfold expandItem at h
  unfold ItemRewritten
  split at h
  · rename_i hliteral
    have hshape : (applicator? key).map Applicator.shape = none := by
      rcases Bool.or_eq_true_iff.1 hliteral with hliteral | hidentifier
      · exact shape_of_literals key (List.contains_iff_mem.1 hliteral)
      · exact shape_of_identifiers key
          (List.contains_iff_mem.1 (Bool.and_eq_true_iff.1 hidentifier).2)
    rw [hshape]
    exact expansion_pure_eq_some h
  · split at h
    · rename_i hmap
      rw [shape_of_maps key (List.contains_iff_mem.1 hmap)]
      cases item with
      | object children =>
          obtain ⟨children', m, hchildren, h⟩ := expansion_bind_eq_some h
          obtain rfl := expansion_pure_eq_some h
          refine Or.inl ⟨children, children', rfl, rfl, ?_⟩
          refine (expansion_mapM_eq_some hchildren).imp fun e e' he => ?_
          obtain ⟨m, m', he⟩ := he
          obtain ⟨child, k, hchild, he⟩ := expansion_bind_eq_some he
          obtain rfl := expansion_pure_eq_some he
          exact ⟨rfl, m, k, hchild⟩
      | _ => cases h
    · split at h
      · rename_i harray
        rw [shape_of_arrays key (List.contains_iff_mem.1 harray)]
        cases item with
        | array children =>
            obtain ⟨children', m, hchildren, h⟩ := expansion_bind_eq_some h
            obtain rfl := expansion_pure_eq_some h
            exact Or.inl ⟨children, children', rfl, rfl, expansion_mapM_eq_some hchildren⟩
        | _ => cases h
      · split at h
        · rename_i hsingle
          rw [shape_of_singles key (List.contains_iff_mem.1 hsingle)]
          exact ⟨n, n', h⟩
        · cases h

/-! ## Schemas -/

section Cases

variable {definitions : List (String × Json)} {levels : ℕ} {stack : List String} {root : Bool}
  {value value' : Json}

/-- Every way a schema is expanded: a boolean stays, and an object is assembled from its rewritten
keywords. -/
theorem expandsTo_cases (h : ExpandsTo definitions levels stack root value value') :
    ∃ k, levels = k + 1 ∧
      ((∃ verdict, value = .bool verdict ∧ value' = .bool verdict) ∨
        ∃ entries result, value = .object entries ∧
          EntriesRewritten (fun child child' => Child value child ∧
            ExpandsTo definitions k stack false child child') (withoutReference entries) result ∧
          Assembled definitions k stack entries result value') := by
  obtain ⟨n, n', h⟩ := h
  cases levels with
  | zero => cases h
  | succ k =>
      refine ⟨k, rfl, ?_⟩
      unfold expandSchema at h
      obtain ⟨-, m, -, h⟩ := expansion_bind_eq_some h
      cases value with
      | bool verdict => exact Or.inl ⟨verdict, rfl, (expansion_pure_eq_some h).symm⟩
      | object entries =>
          right
          obtain ⟨result, m', hresult, h⟩ := expansion_bind_eq_some h
          have hrewritten : EntriesRewritten
              (fun child child' => ExpandsTo definitions k stack false child child')
              (withoutReference entries) result := by
            refine (expansion_mapM_eq_some hresult).imp fun e e' he => ?_
            obtain ⟨i, i', he⟩ := he
            obtain ⟨item, j, hitem, he⟩ := expansion_bind_eq_some he
            obtain rfl := expansion_pure_eq_some he
            exact ⟨rfl, expandItem_rewritten hitem⟩
          refine ⟨entries, result, rfl,
            hrewritten.children fun e he => List.mem_of_mem_filter he, ?_⟩
          -- no reference, one that stays, or one that is replaced by its definition
          cases href : entries.lookup "$ref" with
          | none =>
              simp only [href] at h
              obtain rfl := expansion_pure_eq_some h
              exact Assembled.plain href
          | some target =>
              cases target with
              | string reference =>
                  simp only [href] at h
                  cases hname : removePrefix? (expandedPrefix stack) reference with
                  | none =>
                      have hinitial := hname
                      unfold expandedPrefix at hinitial
                      simp only [hinitial] at h
                      split at h
                      · rename_i hstack
                        obtain rfl := expansion_pure_eq_some h
                        rw [if_pos hstack] at hinitial
                        exact Assembled.kept href hstack hinitial
                      · cases h
                  | some name =>
                      have hinitial := hname
                      unfold expandedPrefix at hinitial
                      simp only [hinitial] at h
                      cases hdefinition : definitions.lookup name with
                      | none => simp only [hdefinition] at h; cases h
                      | some definition =>
                          simp only [hdefinition] at h
                          split at h
                          · cases h
                          · rename_i hguard
                            obtain ⟨expanded, i, hexpanded, h⟩ := expansion_bind_eq_some h
                            obtain rfl := expansion_pure_eq_some h
                            simp only [Bool.or_eq_true, List.contains_iff_mem, List.any_eq_true,
                              decide_eq_true_eq, not_or, not_exists, not_and] at hguard
                            exact Assembled.inlined href hname hdefinition hguard.1
                              (fun c hc => hguard.2 c hc) ⟨_, _, hexpanded⟩
              | _ => simp only [href] at h; cases h
      | _ => cases h

end Cases

end StaticHostAgent.Contracts.SchemaExpansion
