import Mathlib.Data.List.Basic
import Mathlib.Data.List.Infix
import Mathlib.Data.List.Lex
import Mathlib.Data.String.Basic
import Mathlib.Algebra.GroupWithZero.Nat
import Mathlib.Order.Lattice

/-!
# Paths as texts

A path is the text of its components with a slash between any two. Its ancestors are the paths of
its shorter prefixes; they are ordered as the prefixes of the component lists are.
-/

set_option autoImplicit false

namespace StaticHostAgent.Zip

/-- `path.split("/")` -/
def splitPath (path : String) : List String := (path.toList.splitOn '/').map String.ofList

/-- `"/".join(components)` -/
def joinPath (components : List String) : String :=
  String.ofList (['/'].intercalate (components.map String.toList))

theorem splitPath_ne_nil (path : String) : splitPath path ≠ [] := by
  intro h
  exact List.splitOn_ne_nil '/' path.toList (List.map_eq_nil_iff.1 h)

theorem joinPath_splitPath (path : String) : joinPath (splitPath path) = path := by
  unfold joinPath splitPath
  rw [List.map_map]
  have hid : String.toList ∘ String.ofList = id := by
    funext characters
    exact String.toList_ofList
  rw [hid, List.map_id, List.intercalate_splitOn, String.ofList_toList]

theorem splitPath_injective {a b : String} (h : splitPath a = splitPath b) : a = b := by
  rw [← joinPath_splitPath a, h, joinPath_splitPath b]

/-- No component holds a slash. -/
theorem not_mem_splitOn {characters piece : List Char} (h : piece ∈ characters.splitOn '/') :
    '/' ∉ piece := by
  induction characters generalizing piece with
  | nil =>
      rw [List.splitOn_nil, List.mem_singleton] at h
      rw [h]
      exact List.not_mem_nil
  | cons c characters ih =>
      rw [List.splitOn_cons_eq_if_modifyHead] at h
      by_cases hc : (c == '/') = true
      · rw [if_pos hc] at h
        rcases List.mem_cons.1 h with rfl | h
        · exact List.not_mem_nil
        · exact ih h
      · rw [if_neg hc] at h
        cases hpieces : characters.splitOn '/' with
        | nil => exact absurd hpieces (List.splitOn_ne_nil _ _)
        | cons first rest =>
            rw [hpieces, List.modifyHead_cons] at h
            rcases List.mem_cons.1 h with rfl | hrest
            · intro hslash
              rcases List.mem_cons.1 hslash with rfl | hfirst
              · exact hc rfl
              · exact ih (by rw [hpieces]; exact List.mem_cons_self) hfirst
            · exact ih (by rw [hpieces]; exact List.mem_cons_of_mem _ hrest)

/-- Components without a slash make a path again. -/
theorem splitPath_joinPath_of_noSlash {components : List String} (hne : components ≠ [])
    (hslash : ∀ component ∈ components, '/' ∉ component.toList) :
    splitPath (joinPath components) = components := by
  unfold splitPath joinPath
  rw [String.toList_ofList, List.splitOn_intercalate]
  · rw [List.map_map]
    have hid : String.ofList ∘ String.toList = id := by
      funext text
      exact String.ofList_toList
    rw [hid, List.map_id]
  · intro characters hcharacters
    obtain ⟨component, hcomponent, rfl⟩ := List.mem_map.1 hcharacters
    exact hslash component hcomponent
  · exact fun hnil => hne (List.map_eq_nil_iff.1 hnil)

theorem noSlash_of_mem_splitPath {path component : String} (h : component ∈ splitPath path) :
    '/' ∉ component.toList := by
  obtain ⟨piece, hpiece, rfl⟩ := List.mem_map.1 h
  rw [String.toList_ofList]
  exact not_mem_splitOn hpiece

/-- Components that came from a path make a path again. -/
theorem splitPath_joinPath {path : String} {components : List String} (hne : components ≠ [])
    (hsub : ∀ component ∈ components, component ∈ splitPath path) :
    splitPath (joinPath components) = components := by
  apply splitPath_joinPath_of_noSlash hne
  intro component hcomponent
  exact noSlash_of_mem_splitPath (hsub component hcomponent)

/-- The path of the first `depth` components. -/
def pathPrefix (path : String) (depth : Nat) : String := joinPath ((splitPath path).take depth)

/-- The depths of the ancestors of a path with `count` components, the root directory apart. -/
def ancestorDepths (count : Nat) : List Nat := List.range' 1 (count - 1)

theorem mem_ancestorDepths {count depth : Nat} :
    depth ∈ ancestorDepths count ↔ 1 ≤ depth ∧ depth < count := by
  unfold ancestorDepths
  rw [List.mem_range'_1]
  omega

/-- The directories above a path. -/
def ancestors (path : String) : List String :=
  (ancestorDepths (splitPath path).length).map (pathPrefix path)

theorem splitPath_pathPrefix {path : String} {depth : Nat} (hdepth : 1 ≤ depth) :
    splitPath (pathPrefix path depth) = (splitPath path).take depth := by
  apply splitPath_joinPath
  · intro hnil
    rcases List.take_eq_nil_iff.1 hnil with hzero | hempty
    · omega
    · exact splitPath_ne_nil path hempty
  · intro component hcomponent
    exact List.take_subset _ _ hcomponent

theorem mem_ancestors {path ancestor : String} :
    ancestor ∈ ancestors path ↔ splitPath ancestor <+: splitPath path ∧ ancestor ≠ path := by
  unfold ancestors
  constructor
  · intro h
    obtain ⟨depth, hdepth, rfl⟩ := List.mem_map.1 h
    obtain ⟨hone, hlt⟩ := mem_ancestorDepths.1 hdepth
    rw [splitPath_pathPrefix hone]
    refine ⟨List.take_prefix _ _, ?_⟩
    intro heq
    have hlength := congrArg (fun path => (splitPath path).length) heq
    simp only [splitPath_pathPrefix hone, List.length_take] at hlength
    omega
  · rintro ⟨hinitial, hne⟩
    have htake := List.prefix_iff_eq_take.1 hinitial
    have hle := hinitial.length_le
    have hpos := List.length_pos_iff.2 (splitPath_ne_nil ancestor)
    have hshort : (splitPath ancestor).length ≠ (splitPath path).length := by
      intro hsame
      rw [hsame, List.take_length] at htake
      exact hne (splitPath_injective htake)
    refine List.mem_map.2 ⟨(splitPath ancestor).length,
      mem_ancestorDepths.2 ⟨hpos, by omega⟩, ?_⟩
    unfold pathPrefix
    rw [← htake, joinPath_splitPath]

theorem ancestors_trans {a b c : String} (hab : a ∈ ancestors b) (hbc : b ∈ ancestors c) :
    a ∈ ancestors c := by
  obtain ⟨hinitial, hne⟩ := mem_ancestors.1 hab
  obtain ⟨hinitial', _⟩ := mem_ancestors.1 hbc
  refine mem_ancestors.2 ⟨hinitial.trans hinitial', ?_⟩
  rintro rfl
  exact hne (splitPath_injective (hinitial.eq_of_length_le hinitial'.length_le))

/-! ## The order of the encoded texts -/

/-- `path.encode("utf-8")` -/
def encoded (path : String) : List Nat := path.toUTF8.data.toList.map UInt8.toNat

theorem encoded_injective : Function.Injective encoded := by
  intro a b h
  unfold encoded at h
  have hlist := List.map_injective_iff.2 (fun x y hxy => UInt8.toNat_inj.1 hxy) h
  have hdata := Array.toList_inj.1 hlist
  exact String.toByteArray_inj.1 (ByteArray.ext hdata)

end StaticHostAgent.Zip
