import StaticHostAgent.Contracts.ExpansionCases

/-!
# References before and after an expansion

A reference that an expansion replaces leads to the definition it is replaced by
(`resolve_common`, `resolve_local`), and a pointer that goes through no replaced reference leads to
the expansion of what it led to (`walk_expanded`). A pointer that goes on below a replaced reference
with keywords beside it leads nowhere any more (`walk_cut`).
-/

set_option autoImplicit false

namespace StaticHostAgent.Contracts.SchemaExpansion

open Library Library.JsonSchema

/-! ## Replaced references -/

theorem removePrefix?_eq_some {start text name : String}
    (h : removePrefix? start text = some name) : text.toList = start.toList ++ name.toList := by
  unfold removePrefix? at h
  split at h
  · rename_i hinitial
    cases h
    obtain ⟨rest, hrest⟩ := List.isPrefixOf_iff_prefix.1 hinitial
    rw [← hrest]
    simp
  · cases h

theorem unescape_of_plain : ∀ {cs : List Char}, (∀ c ∈ cs, c ≠ '~') → unescape cs = cs
  | [], _ => rfl
  | c :: cs, h => by
      have hc := h c List.mem_cons_self
      have hrest := unescape_of_plain fun d hd => h d (List.mem_cons_of_mem c hd)
      unfold unescape
      split
      · rename_i heq
        cases heq
        exact absurd rfl hc
      · rename_i heq
        cases heq
        exact absurd rfl hc
      · rename_i heq
        cases heq
        rw [hrest]
      · rename_i heq
        cases heq

/-- The segments of a pointer into the definitions. -/
theorem pointerSegments_definition {name : String}
    (hplain : ∀ c ∈ name.toList, c ≠ '/' ∧ c ≠ '~') :
    pointerSegments ("/$defs/".toList ++ name.toList) = some ["$defs", name] := by
  have hsplit : ("$defs".toList ++ '/' :: name.toList).splitOn '/' =
      ["$defs".toList, name.toList] := by
    have h := @List.splitOn_intercalate _ ["$defs".toList, name.toList] _ _ '/' ?_ (by simp)
    · simpa [List.intercalate] using h
    · intro l hl
      rcases List.mem_cons.1 hl with rfl | hl
      · decide
      · rw [List.mem_singleton.1 hl]
        exact fun hslash => (hplain _ hslash).1 rfl
  have hlist : "/$defs/".toList ++ name.toList = '/' :: ("$defs".toList ++ '/' :: name.toList) := by
    rw [show "/$defs/".toList = '/' :: ("$defs".toList ++ ['/']) by decide]
    simp
  rw [hlist]
  show some ((("$defs".toList ++ '/' :: name.toList).splitOn '/').map
    fun s => String.ofList (unescape s)) = _
  rw [hsplit, List.map_cons, List.map_cons, List.map_nil,
    unescape_of_plain fun c hc => (hplain c hc).2,
    (@unescape_of_plain ("$defs".toList)) (by decide), String.ofList_toList,
    String.ofList_toList]

/-- A reference splits at its first `#`. -/
theorem target_split {dialect : Dialect} {base reference : String} {document pointer : List Char}
    (hreference : reference.toList = document ++ '#' :: pointer) (hdocument : '#' ∉ document) :
    target dialect base reference = (pointerSegments (dialect.unquote pointer)).map fun segments =>
      (if document = [] then base else dialect.join base (String.ofList document), segments) := by
  have hall : ∀ c ∈ document, decide (c ≠ '#') = true :=
    fun c hc => decide_eq_true fun h => hdocument (h ▸ hc)
  unfold target
  rw [hreference, List.takeWhile_append_of_pos hall, List.dropWhile_append_of_pos hall]
  simp only [List.takeWhile_cons, List.dropWhile_cons, ne_eq, not_true_eq_false, decide_false,
    Bool.false_eq_true, if_false, List.append_nil, List.drop_succ_cons, List.drop_zero]
  cases pointerSegments (dialect.unquote pointer) <;> rfl

section Replaced

variable {dialect : Dialect} {documents : String → Option Json}
  {common definitions : List (String × Json)} {base reference name : String}

theorem walk_definition (hdefs : common.lookup "$defs" = some (.object definitions)) :
    walk ["$defs", name] (.object common) = definitions.lookup name := by
  rw [walk_named (by decide) hdefs]
  cases definitions.lookup name <;> rfl

/-- A reference is resolved in the document that it names. -/
theorem resolve_of_target {uri : String} {segments : List String}
    (htarget : target dialect base reference = some (uri, segments)) :
    resolve dialect documents base reference = (documents uri).bind fun document =>
      (walk segments document).map fun found => (uri, found) := by
  unfold resolve
  rw [htarget]
  show ((documents uri).bind fun document => (walk segments document).bind fun found =>
    some (uri, found)) = _
  cases documents uri with
  | none => rfl
  | some document =>
      rw [Option.bind_some, Option.bind_some]
      cases walk segments document <;> rfl

/-- A common reference leads to the definition of its name. -/
theorem resolve_common (hjoin : dialect.join base "common.schema.json" = commonId)
    (hcommon : documents commonId = some (.object common))
    (hdefs : common.lookup "$defs" = some (.object definitions))
    (hname : removePrefix? commonRef reference = some name)
    (hplain : ∀ c ∈ name.toList, c ≠ '/' ∧ c ≠ '~')
    (hunquote : dialect.unquote ("/$defs/".toList ++ name.toList) =
      "/$defs/".toList ++ name.toList) :
    resolve dialect documents base reference =
      (definitions.lookup name).map fun definition => (commonId, definition) := by
  have hreference : reference.toList =
      "common.schema.json".toList ++ '#' :: ("/$defs/".toList ++ name.toList) := by
    rw [removePrefix?_eq_some hname,
      show commonRef.toList = "common.schema.json".toList ++ '#' :: "/$defs/".toList by decide]
    simp
  have htarget : target dialect base reference = some (commonId, ["$defs", name]) := by
    rw [target_split hreference (by decide), hunquote, pointerSegments_definition hplain,
      Option.map_some, if_neg (by decide), String.ofList_toList, hjoin]
  rw [resolve_of_target htarget, hcommon, Option.bind_some, walk_definition hdefs]

/-- So does a local reference inside the common document. -/
theorem resolve_local (hcommon : documents commonId = some (.object common))
    (hdefs : common.lookup "$defs" = some (.object definitions))
    (hname : removePrefix? localRef reference = some name)
    (hplain : ∀ c ∈ name.toList, c ≠ '/' ∧ c ≠ '~')
    (hunquote : dialect.unquote ("/$defs/".toList ++ name.toList) =
      "/$defs/".toList ++ name.toList) :
    resolve dialect documents commonId reference =
      (definitions.lookup name).map fun definition => (commonId, definition) := by
  have hreference : reference.toList = [] ++ '#' :: ("/$defs/".toList ++ name.toList) := by
    rw [removePrefix?_eq_some hname, show localRef.toList = '#' :: "/$defs/".toList by decide]
    simp
  have htarget : target dialect commonId reference = some (commonId, ["$defs", name]) := by
    rw [target_split hreference (by decide), hunquote, pointerSegments_definition hplain,
      Option.map_some, if_pos rfl]
  rw [resolve_of_target htarget, hcommon, Option.bind_some, walk_definition hdefs]

end Replaced

/-! ## Pointers into the expanded document -/

def hasCommonReference (entries : List (String × Json)) : Bool :=
  match entries.lookup "$ref" with
  | some (.string reference) => (removePrefix? commonRef reference).isSome
  | _ => false

/-- The pointer goes through no schema whose common reference is replaced; it may end at one. -/
def AvoidsReplaced (segments : List String) (schema : Json) : Prop :=
  ∀ front, front <+: segments → front ≠ segments → ∀ entries,
    walk front schema = some (.object entries) → hasCommonReference entries = false

theorem lookup_withoutReference {key : String} (hkey : key ≠ "$ref")
    (entries : List (String × Json)) :
    (withoutReference entries).lookup key = entries.lookup key := by
  induction entries with
  | nil => rfl
  | cons e es ih =>
      unfold withoutReference at ih ⊢
      by_cases he : e.1 = "$ref"
      · rw [List.filter_cons_of_neg (by simp [he]), ih, List.lookup_cons,
          beq_eq_false_iff_ne.2 (he ▸ hkey)]
      · rw [List.filter_cons_of_pos (by simpa using he), List.lookup_cons, List.lookup_cons, ih]

theorem lookup_filter_reference (entries : List (String × Json)) :
    (withoutReference entries).lookup "$ref" = none := by
  induction entries with
  | nil => rfl
  | cons e es ih =>
      unfold withoutReference at ih ⊢
      by_cases he : e.1 = "$ref"
      · rw [List.filter_cons_of_neg (by simp [he]), ih]
      · rw [List.filter_cons_of_pos (by simpa using he), List.lookup_cons,
          beq_eq_false_iff_ne.2 fun h => he h.symm, ih]

/-- The pointer goes on, by a keyword other than `allOf`, below the first schema on its way whose
common reference is replaced and that has keywords beside it. -/
def CutBelow (segments : List String) (schema : Json) : Prop :=
  ∃ front keyword rest entries, segments = front ++ keyword :: rest ∧
    AvoidsReplaced front schema ∧ walk front schema = some (.object entries) ∧
    hasCommonReference entries = true ∧ withoutReference entries ≠ [] ∧ keyword ≠ "allOf"

section Pointers

variable {definitions : List (String × Json)} {R : Json → Json → Prop}

/-- An object whose reference is not replaced stays an object with the rewritten keywords. -/
theorem Assembled.object {levels : ℕ} {entries result : List (String × Json)} {value' : Json}
    (h : Assembled definitions levels [] entries result value')
    (hreference : hasCommonReference entries = false) :
    ∃ entries', value' = .object entries' ∧
      ∀ key, key ≠ "$ref" → entries'.lookup key = result.lookup key := by
  cases h with
  | plain => exact ⟨result, rfl, fun _ _ => rfl⟩
  | kept href =>
      refine ⟨_, rfl, fun key hkey => ?_⟩
      rw [List.lookup_cons, beq_eq_false_iff_ne.2 hkey]
  | inlined href hname =>
      unfold hasCommonReference at hreference
      rw [href] at hreference
      change removePrefix? commonRef _ = _ at hname
      simp [hname] at hreference

theorem forall₂_lookup {es es' : List (String × Json)}
    (h : List.Forall₂ (fun e e' => e.1 = e'.1 ∧ R e.2 e'.2) es es') (name : String) :
    (es.lookup name = none ∧ es'.lookup name = none) ∨
      ∃ child child', es.lookup name = some child ∧ es'.lookup name = some child' ∧
        R child child' := by
  induction h with
  | nil => exact Or.inl ⟨rfl, rfl⟩
  | @cons e e' es es' he _ ih =>
      rw [List.lookup_cons, List.lookup_cons, ← he.1]
      by_cases hsame : name = e.1
      · rw [beq_iff_eq.2 hsame]
        exact Or.inr ⟨e.2, e'.2, rfl, rfl, he.2⟩
      · rw [beq_eq_false_iff_ne.2 hsame]
        exact ih

theorem forall₂_getElem? {xs xs' : List Json} (h : List.Forall₂ R xs xs') (i : ℕ) :
    (xs[i]? = none ∧ xs'[i]? = none) ∨
      ∃ child child', xs[i]? = some child ∧ xs'[i]? = some child' ∧ R child child' := by
  induction h generalizing i with
  | nil => exact Or.inl ⟨rfl, rfl⟩
  | @cons x x' xs xs' hx _ ih =>
      cases i with
      | zero => exact Or.inr ⟨x, x', rfl, rfl, hx⟩
      | succ i => simpa using ih i

/-- The rest of a pointer avoids what the whole pointer avoids. -/
theorem AvoidsReplaced.rest {front segments : List String} {schema child : Json}
    (h : AvoidsReplaced (front ++ segments) schema)
    (hwalk : ∀ rest, walk (front ++ rest) schema = walk rest child) :
    AvoidsReplaced segments child := by
  intro start hinitial hne entries hentries
  refine h (front ++ start) ((List.prefix_append_right_inj front).2 hinitial) ?_ entries ?_
  · exact fun hsame => hne (List.append_cancel_left hsame)
  · rw [hwalk start]
    exact hentries

/-- A pointer that avoids replaced references leads to the expansion of what it led to. -/
theorem walk_expanded : ∀ (segments : List String) {value value' : Json} {levels : ℕ}
    {root : Bool}, ExpandsTo definitions levels [] root value value' →
    AvoidsReplaced segments value →
    (walk segments value = none ∧ walk segments value' = none) ∨
      ∃ node node' k root', k ≤ levels ∧ walk segments value = some node ∧
        walk segments value' = some node' ∧ ExpandsTo definitions k [] root' node node'
  | [], value, value', levels, root, h, _ =>
      Or.inr ⟨value, value', levels, root, le_rfl, rfl, rfl, h⟩
  | keyword :: rest, value, value', levels, root, h, havoids => by
      obtain ⟨k, rfl, ⟨verdict, rfl, rfl⟩ | ⟨entries, result, rfl, hresult, hassembled⟩⟩ :=
        expandsTo_cases h
      · exact Or.inl ⟨rfl, rfl⟩
      have hreference : hasCommonReference entries = false :=
        havoids [] (List.nil_prefix) (List.cons_ne_nil keyword rest).symm entries rfl
      obtain ⟨entries', rfl, hlookup⟩ := hassembled.object hreference
      cases hshape : (applicator? keyword).map Applicator.shape with
      | none =>
          have habsent : applicator? keyword = none := by simpa using hshape
          exact Or.inl ⟨walk_absent (Or.inl habsent) rest, walk_absent (Or.inl habsent) rest⟩
      | some shape =>
          have hkey : keyword ≠ "$ref" := by
            rintro rfl
            rw [show (applicator? "$ref").map Applicator.shape = none by decide] at hshape
            cases hshape
          have hfound := hresult.lookup keyword
          rw [lookup_withoutReference hkey, ← hlookup keyword hkey] at hfound
          rcases hfound with ⟨hnone, hnone'⟩ | ⟨item, item', hitem, hitem', hrewritten⟩
          · exact Or.inl ⟨walk_absent (Or.inr hnone) rest, walk_absent (Or.inr hnone') rest⟩
          -- One step leads to a subschema and its expansion, or nowhere in both documents.
          unfold ItemRewritten at hrewritten
          rw [hshape] at hrewritten
          cases shape with
          | single =>
              rw [walk_single hshape hitem, walk_single hshape hitem']
              have hrest := walk_expanded rest hrewritten.2
                ((@AvoidsReplaced.rest [keyword]) havoids (walk_single hshape hitem))
              exact hrest.imp_right fun ⟨node, node', i, root', hi, hnodes⟩ =>
                ⟨node, node', i, root', Nat.le_succ_of_le hi, hnodes⟩
          | map =>
              rcases hrewritten with ⟨children, children', rfl, rfl, hchildren⟩ | ⟨hfits, rfl⟩
              · cases rest with
                | nil => exact Or.inl ⟨walk_end hshape (by decide), walk_end hshape (by decide)⟩
                | cons name rest =>
                    rw [walk_named hshape hitem, walk_named hshape hitem']
                    rcases forall₂_lookup (R := fun child child' => Child (.object entries) child ∧
                        ExpandsTo definitions k [] false child child') hchildren name with
                      ⟨hnone, hnone'⟩ | ⟨child, child', hchild, hchild', hexpands⟩
                    · rw [hnone, hnone']
                      exact Or.inl ⟨rfl, rfl⟩
                    · rw [hchild, hchild']
                      have hstep : ∀ rest, walk ([keyword, name] ++ rest) (.object entries) =
                          walk rest child := by
                        intro rest
                        show walk (keyword :: name :: rest) _ = _
                        rw [walk_named hshape hitem, hchild]
                        rfl
                      have hrest := walk_expanded rest hexpands.2
                        ((@AvoidsReplaced.rest [keyword, name]) havoids hstep)
                      exact hrest.imp_right fun ⟨node, node', i, root', hi, hnodes⟩ =>
                        ⟨node, node', i, root', Nat.le_succ_of_le hi, hnodes⟩
              · exact Or.inl ⟨walk_misfit hshape hitem hfits rest,
                  walk_misfit hshape hitem' hfits rest⟩
          | array =>
              rcases hrewritten with ⟨children, children', rfl, rfl, hchildren⟩ | ⟨hfits, rfl⟩
              · cases rest with
                | nil => exact Or.inl ⟨walk_end hshape (by decide), walk_end hshape (by decide)⟩
                | cons index rest =>
                    rw [walk_listed hshape hitem, walk_listed hshape hitem']
                    cases hindex : arrayIndex index with
                    | none => exact Or.inl ⟨rfl, rfl⟩
                    | some position =>
                        rw [Option.bind_some, Option.bind_some]
                        rcases forall₂_getElem? hchildren position with
                          ⟨hnone, hnone'⟩ | ⟨child, child', hchild, hchild', hexpands⟩
                        · rw [hnone, hnone']
                          exact Or.inl ⟨rfl, rfl⟩
                        · rw [hchild, hchild']
                          have hstep : ∀ rest, walk ([keyword, index] ++ rest) (.object entries) =
                              walk rest child := by
                            intro rest
                            show walk (keyword :: index :: rest) _ = _
                            rw [walk_listed hshape hitem, hindex, Option.bind_some, hchild]
                            rfl
                          have hrest := walk_expanded rest hexpands.2
                            ((@AvoidsReplaced.rest [keyword, index]) havoids hstep)
                          exact hrest.imp_right fun ⟨node, node', i, root', hi, hnodes⟩ =>
                            ⟨node, node', i, root', Nat.le_succ_of_le hi, hnodes⟩
              · exact Or.inl ⟨walk_misfit hshape hitem hfits rest,
                  walk_misfit hshape hitem' hfits rest⟩

/-- An object whose common reference is replaced has only `allOf`, if it has keywords beside it. -/
theorem Assembled.inlined_walk {levels : ℕ} {entries result : List (String × Json)} {value' : Json}
    (h : Assembled definitions levels [] entries result value')
    (hreference : hasCommonReference entries = true) (hresult : result ≠ []) {keyword : String}
    (hkeyword : keyword ≠ "allOf") (rest : List String) :
    walk (keyword :: rest) value' = none := by
  have hnone : ∀ reference, entries.lookup "$ref" = some (.string reference) →
      removePrefix? commonRef reference ≠ none := by
    intro reference href hnone
    unfold hasCommonReference at hreference
    rw [href] at hreference
    simp [hnone] at hreference
  cases h with
  | plain href =>
      unfold hasCommonReference at hreference
      rw [href] at hreference
      cases hreference
  | kept href _ hother => exact absurd hother (hnone _ href)
  | inlined _ _ _ _ _ _ =>
      unfold inline
      rw [if_neg hresult]
      refine walk_absent (Or.inr ?_) rest
      rw [List.lookup_cons, beq_eq_false_iff_ne.2 hkeyword]
      rfl

/-- In the expansion a cut pointer leads nowhere. -/
theorem walk_cut {segments : List String} {value value' : Json} {levels : ℕ} {root : Bool}
    (h : ExpandsTo definitions levels [] root value value') (hcut : CutBelow segments value) :
    walk segments value' = none := by
  obtain ⟨front, keyword, rest, entries, rfl, havoids, hfront, hreference, hbeside, hkeyword⟩ :=
    hcut
  rcases walk_expanded front h havoids with ⟨hnone, -⟩ | ⟨node, node', k, root', -, hnode, hnode',
    hexpands⟩
  · rw [hnone] at hfront
    cases hfront
  · rw [hnode] at hfront
    obtain rfl := Option.some.inj hfront
    rw [walk_append hnode']
    obtain ⟨i, rfl, ⟨verdict, hbool, -⟩ | ⟨entries', result, hobject, hresult, hassembled⟩⟩ :=
      expandsTo_cases hexpands
    · cases hbool
    · cases hobject
      refine hassembled.inlined_walk hreference ?_ hkeyword rest
      rintro rfl
      exact hbeside (List.forall₂_nil_right_iff.1 hresult)

end Pointers

end StaticHostAgent.Contracts.SchemaExpansion
