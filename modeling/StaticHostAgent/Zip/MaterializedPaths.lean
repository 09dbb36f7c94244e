import StaticHostAgent.Library.Directory
import StaticHostAgent.Zip.MemberStream
import StaticHostAgent.Zip.Paths
import Mathlib.Data.List.Dedup
import Mathlib.Data.List.Perm.Subperm
import Mathlib.Data.List.Sort

/-!
# The paths an archive materializes

Every member claims its path, and the directories above it implicitly. A claim is refused if it
disagrees with an earlier one about the spelling or the kind of a path, if it collides with another
path up to case, or if it repeats an explicit one.

`materializedPaths_ok` says which members are admitted and what the list of their paths is.
-/

set_option autoImplicit false

namespace StaticHostAgent.Zip

open Library

inductive ZipEntryType where
  | directory
  | regularFile
  deriving DecidableEq

/-- The decoded part of a central record: its path as spelled and with normalized components. -/
structure CentralEntry where
  sourceName : String
  normalizedPath : String
  entryType : ZipEntryType
  sameDepth : (splitPath sourceName).length = (splitPath normalizedPath).length

structure PathClaim where
  sourcePath : String
  normalizedPath : String
  entryType : ZipEntryType
  explicit : Bool
  deriving DecidableEq

/-- The dictionaries of `_materialized_paths`. -/
structure Claims where
  claims : Directory String (List PathClaim)
  casefolded : Directory String PathClaim

def Claims.empty : Claims := ⟨Directory.empty, Directory.empty⟩

/-- `setdefault` of a dictionary. -/
def setdefault {V : Type} (dictionary : Directory String V) (key : String) (value : V) :
    Directory String V :=
  if (dictionary.find? key).isSome then dictionary else dictionary.insert key value

/-- The claim of an entry itself. -/
def explicitClaim (entry : CentralEntry) : PathClaim where
  sourcePath := entry.sourceName
  normalizedPath := entry.normalizedPath
  entryType := entry.entryType
  explicit := true

/-- The claim of the directory that the first `depth` components name. -/
def impliedClaim (entry : CentralEntry) (depth : Nat) : PathClaim where
  sourcePath := pathPrefix entry.sourceName depth
  normalizedPath := pathPrefix entry.normalizedPath depth
  entryType := .directory
  explicit := false

/-- All claims of an entry, in order. -/
def entryClaims (entry : CentralEntry) : List PathClaim :=
  (ancestorDepths (splitPath entry.sourceName).length).map (impliedClaim entry) ++
    [explicitClaim entry]

theorem setdefault_find? {V : Type} {dictionary : Directory String V} {key k : String}
    {value v : V} (h : (setdefault dictionary key value).find? k = some v) :
    dictionary.find? k = some v ∨ k = key ∧ v = value := by
  unfold setdefault at h
  by_cases hset : (dictionary.find? key).isSome = true
  · rw [if_pos hset] at h
    exact .inl h
  · rw [if_neg hset] at h
    by_cases hk : k = key
    · subst hk
      rw [Directory.find?_insert_self] at h
      exact .inr ⟨rfl, (Option.some.inj h).symm⟩
    · rw [Directory.find?_insert_of_ne _ hk] at h
      exact .inl h

theorem setdefault_kept {V : Type} {dictionary : Directory String V} {key k : String}
    {value v : V} (h : dictionary.find? k = some v) :
    (setdefault dictionary key value).find? k = some v := by
  unfold setdefault
  by_cases hset : (dictionary.find? key).isSome = true
  · rw [if_pos hset]
    exact h
  · rw [if_neg hset]
    have hk : k ≠ key := by
      rintro rfl
      rw [h] at hset
      exact hset rfl
    rw [Directory.find?_insert_of_ne _ hk]
    exact h

theorem setdefault_self {V : Type} (dictionary : Directory String V) (key : String) (value : V) :
    ∃ v, (setdefault dictionary key value).find? key = some v := by
  unfold setdefault
  by_cases hset : (dictionary.find? key).isSome = true
  · rw [if_pos hset]
    exact Option.isSome_iff_exists.1 hset
  · rw [if_neg hset]
    exact ⟨value, Directory.find?_insert_self _ _ _⟩

section Materialize

/- NFC normalization and case folding of the standard library, and the limit of the entries. -/
variable (normalizeNfc casefold : String → String) (maximumEntries : Nat)

/-- The text under which paths collide. -/
def folded (path : String) : String := normalizeNfc (casefold path)

def addClaim (state : Claims) (claim : PathClaim) : Except ZipError Claims := do
  let established := (state.claims.find? claim.normalizedPath).getD []
  require (!established.any fun item => decide (item.sourcePath ≠ claim.sourcePath))
    (.structure "ZIP member paths collide after NFC normalization")
  let key := folded normalizeNfc casefold claim.normalizedPath
  require ((state.casefolded.find? key).all fun other =>
      decide (other.normalizedPath = claim.normalizedPath) &&
        decide (other.sourcePath = claim.sourcePath))
    (.structure "ZIP member paths have a case-folding collision")
  require (!established.any fun item => decide (item.entryType ≠ claim.entryType))
    (.structure "ZIP member path is both a file and a directory")
  if !claim.explicit && !established.isEmpty then
    pure state
  else do
    require (!(claim.explicit && established.any PathClaim.explicit))
      (.structure "ZIP contains a duplicate explicit member")
    let claims := state.claims.insert claim.normalizedPath (established ++ [claim])
    let casefolded := setdefault state.casefolded key claim
    require (decide (claims.size ≤ maximumEntries))
      (.structure "ZIP materialized tree crosses its entry boundary")
    pure ⟨claims, casefolded⟩

/-- `_materialized_paths` -/
def materializedPaths (entries : List CentralEntry) : Except ZipError (List String) := do
  let state ← (entries.flatMap entryClaims).foldlM
    (addClaim normalizeNfc casefold maximumEntries) Claims.empty
  let indexClaims := (state.claims.find? "index.html").getD []
  require (indexClaims.any fun claim => claim.explicit && decide (claim.entryType = .regularFile))
    (.structure "deployment ZIP has no root-level index.html regular file")
  pure (state.claims.keys.insertionSort fun a b => encoded a ≤ encoded b)

end Materialize

/-! ## Claims that agree -/

/-- Claims that were admitted together. -/
structure Consistent (normalizeNfc casefold : String → String) (claims : List PathClaim) : Prop where
  alike : ∀ c ∈ claims, ∀ d ∈ claims, c.normalizedPath = d.normalizedPath →
    c.sourcePath = d.sourcePath ∧ c.entryType = d.entryType
  apart : ∀ c ∈ claims, ∀ d ∈ claims,
    folded normalizeNfc casefold c.normalizedPath = folded normalizeNfc casefold d.normalizedPath →
      c.normalizedPath = d.normalizedPath
  once : claims.Pairwise fun c d =>
    c.normalizedPath = d.normalizedPath → ¬ (c.explicit = true ∧ d.explicit = true)

/-- The dictionaries hold the claims made so far. -/
structure Holds (normalizeNfc casefold : String → String) (state : Claims)
    (made : List PathClaim) : Prop where
  keys : ∀ path, path ∈ state.claims.keys ↔ path ∈ made.map PathClaim.normalizedPath
  established : ∀ path items, state.claims.find? path = some items →
    items ≠ [] ∧ ∀ item ∈ items, item ∈ made ∧ item.normalizedPath = path
  explicit : ∀ c ∈ made, c.explicit = true →
    ∃ items, state.claims.find? c.normalizedPath = some items ∧ c ∈ items
  folds : ∀ key claim, state.casefolded.find? key = some claim →
    claim ∈ made ∧ folded normalizeNfc casefold claim.normalizedPath = key
  folding : ∀ c ∈ made,
    ∃ claim, state.casefolded.find? (folded normalizeNfc casefold c.normalizedPath) = some claim

section Adding

variable {normalizeNfc casefold : String → String} {maximumEntries : Nat} {state after : Claims}
  {made : List PathClaim} {claim : PathClaim}
  (holds : Holds normalizeNfc casefold state made)

/-- A claim agrees with those made before. -/
structure Agrees (normalizeNfc casefold : String → String) (made : List PathClaim)
    (claim : PathClaim) : Prop where
  alike : ∀ c ∈ made, c.normalizedPath = claim.normalizedPath →
    c.sourcePath = claim.sourcePath ∧ c.entryType = claim.entryType ∧
      ¬ (c.explicit = true ∧ claim.explicit = true)
  apart : ∀ c ∈ made, folded normalizeNfc casefold c.normalizedPath =
    folded normalizeNfc casefold claim.normalizedPath → c.normalizedPath = claim.normalizedPath

theorem Consistent.part {more : List PathClaim}
    (consistent : Consistent normalizeNfc casefold (made ++ more)) :
    Consistent normalizeNfc casefold made where
  alike := fun c hc d hd =>
    consistent.alike c (List.mem_append_left _ hc) d (List.mem_append_left _ hd)
  apart := fun c hc d hd =>
    consistent.apart c (List.mem_append_left _ hc) d (List.mem_append_left _ hd)
  once := (List.pairwise_append.1 consistent.once).1

theorem consistent_append :
    Consistent normalizeNfc casefold (made ++ [claim]) ↔
      Consistent normalizeNfc casefold made ∧ Agrees normalizeNfc casefold made claim := by
  constructor
  · intro h
    have hmade : ∀ c ∈ made, c ∈ made ++ [claim] := fun c hc => List.mem_append_left _ hc
    have hlast : claim ∈ made ++ [claim] := List.mem_append_right _ List.mem_cons_self
    obtain ⟨_, _, hcross⟩ := List.pairwise_append.1 h.once
    refine ⟨h.part, ?_, ?_⟩
    · intro c hc hsame
      obtain ⟨hsource, htype⟩ := h.alike c (hmade c hc) claim hlast hsame
      exact ⟨hsource, htype, hcross c hc claim List.mem_cons_self hsame⟩
    · intro c hc
      exact h.apart c (hmade c hc) claim hlast
  · rintro ⟨h, hagrees⟩
    constructor
    · intro c hc d hd hsame
      rcases List.mem_append.1 hc with hcold | hcnew
      · rcases List.mem_append.1 hd with hdold | hdnew
        · exact h.alike c hcold d hdold hsame
        · obtain rfl := List.mem_singleton.1 hdnew
          obtain ⟨hsource, htype, _⟩ := hagrees.alike c hcold hsame
          exact ⟨hsource, htype⟩
      · obtain rfl := List.mem_singleton.1 hcnew
        rcases List.mem_append.1 hd with hdold | hdnew
        · obtain ⟨hsource, htype, _⟩ := hagrees.alike d hdold hsame.symm
          exact ⟨hsource.symm, htype.symm⟩
        · obtain rfl := List.mem_singleton.1 hdnew
          exact ⟨rfl, rfl⟩
    · intro c hc d hd hsame
      rcases List.mem_append.1 hc with hcold | hcnew
      · rcases List.mem_append.1 hd with hdold | hdnew
        · exact h.apart c hcold d hdold hsame
        · obtain rfl := List.mem_singleton.1 hdnew
          exact hagrees.apart c hcold hsame
      · obtain rfl := List.mem_singleton.1 hcnew
        rcases List.mem_append.1 hd with hdold | hdnew
        · exact (hagrees.apart d hdold hsame.symm).symm
        · obtain rfl := List.mem_singleton.1 hdnew
          rfl
    · refine List.pairwise_append.2 ⟨h.once, List.pairwise_singleton _ _, ?_⟩
      intro c hc d hd hsame
      obtain rfl := List.mem_singleton.1 hd
      exact (hagrees.alike c hc hsame).2.2

/-- The claims recorded for a path. -/
def recorded (state : Claims) (path : String) : List PathClaim :=
  (state.claims.find? path).getD []

include holds

theorem Holds.mem_recorded {path : String} {item : PathClaim} (hitem : item ∈ recorded state path) :
    item ∈ made ∧ item.normalizedPath = path := by
  unfold recorded at hitem
  cases hfind : state.claims.find? path with
  | none =>
      rw [hfind] at hitem
      exact absurd hitem List.not_mem_nil
  | some items =>
      rw [hfind] at hitem
      exact (holds.established path items hfind).2 item hitem

/-- A path with a claim has a recorded one. -/
theorem Holds.recorded_of_mem {c : PathClaim} (hc : c ∈ made) :
    ∃ item, item ∈ recorded state c.normalizedPath := by
  have hkey := (holds.keys c.normalizedPath).2 (List.mem_map_of_mem hc)
  obtain ⟨items, hfind⟩ := Option.isSome_iff_exists.1 (Directory.mem_keys.1 hkey)
  obtain ⟨item, rest, hitems⟩ :=
    List.exists_cons_of_ne_nil (holds.established _ items hfind).1
  refine ⟨item, ?_⟩
  unfold recorded
  rw [hfind, hitems]
  exact List.mem_cons_self

theorem Holds.recorded_ne_nil {path : String} :
    recorded state path ≠ [] ↔ path ∈ made.map PathClaim.normalizedPath := by
  constructor
  · intro hne
    obtain ⟨item, rest, hitems⟩ := List.exists_cons_of_ne_nil hne
    obtain ⟨hmade, rfl⟩ := holds.mem_recorded (by rw [hitems]; exact List.mem_cons_self)
    exact List.mem_map_of_mem hmade
  · intro hmem
    obtain ⟨c, hc, rfl⟩ := List.mem_map.1 hmem
    obtain ⟨item, hitem⟩ := holds.recorded_of_mem hc
    exact List.ne_nil_of_mem hitem

/-- The three comparisons with what is recorded are the agreement with all that was claimed, the
repetition of an explicit claim apart. -/
theorem Holds.checks (consistent : Consistent normalizeNfc casefold made) :
    (∀ c ∈ made, c.normalizedPath = claim.normalizedPath →
        c.sourcePath = claim.sourcePath ∧ c.entryType = claim.entryType) ↔
      (∀ item ∈ recorded state claim.normalizedPath,
        item.sourcePath = claim.sourcePath ∧ item.entryType = claim.entryType) := by
  constructor
  · intro h item hitem
    obtain ⟨hmade, hpath⟩ := holds.mem_recorded hitem
    exact h item hmade hpath
  · intro h c hc hsame
    obtain ⟨item, hitem⟩ := holds.recorded_of_mem hc
    obtain ⟨hmade, hpath⟩ := holds.mem_recorded hitem
    obtain ⟨hsource, htype⟩ := consistent.alike c hc item hmade hpath.symm
    rw [hsame] at hitem
    obtain ⟨hsource', htype'⟩ := h item hitem
    exact ⟨hsource.trans hsource', htype.trans htype'⟩

/-- So is the comparison under the folded path. -/
theorem Holds.check_folded (consistent : Consistent normalizeNfc casefold made)
    (hsource : ∀ c ∈ made, c.normalizedPath = claim.normalizedPath →
      c.sourcePath = claim.sourcePath) :
    (∀ c ∈ made, folded normalizeNfc casefold c.normalizedPath =
        folded normalizeNfc casefold claim.normalizedPath →
          c.normalizedPath = claim.normalizedPath) ↔
      (state.casefolded.find? (folded normalizeNfc casefold claim.normalizedPath)).all
        (fun other => decide (other.normalizedPath = claim.normalizedPath) &&
          decide (other.sourcePath = claim.sourcePath)) = true := by
  constructor
  · intro h
    cases hfind : state.casefolded.find? (folded normalizeNfc casefold claim.normalizedPath) with
    | none => rfl
    | some other =>
        obtain ⟨hmade, hfold⟩ := holds.folds _ other hfind
        have hsame := h other hmade hfold
        rw [Option.all_some, decide_eq_true hsame, decide_eq_true (hsource other hmade hsame)]
        rfl
  · intro h c hc hfold
    obtain ⟨other, hother⟩ := holds.folding c hc
    obtain ⟨hmade, hkey⟩ := holds.folds _ other hother
    rw [hfold] at hother
    rw [hother, Option.all_some] at h
    have hsame := of_decide_eq_true (Bool.and_eq_true_iff.1 h).1
    rw [← hsame]
    exact consistent.apart c hc other hmade hkey.symm

theorem Holds.check_explicit :
    (∃ item ∈ recorded state claim.normalizedPath, item.explicit = true) ↔
      ∃ c ∈ made, c.normalizedPath = claim.normalizedPath ∧ c.explicit = true := by
  constructor
  · rintro ⟨item, hitem, hexplicit⟩
    obtain ⟨hmade, hpath⟩ := holds.mem_recorded hitem
    exact ⟨item, hmade, hpath, hexplicit⟩
  · rintro ⟨c, hc, hpath, hexplicit⟩
    obtain ⟨items, hfind, hmem⟩ := holds.explicit c hc hexplicit
    refine ⟨c, ?_, hexplicit⟩
    unfold recorded
    rw [← hpath, hfind]
    exact hmem

/-- The state with one more recorded claim. -/
def extend (normalizeNfc casefold : String → String) (state : Claims) (claim : PathClaim) :
    Claims where
  claims := state.claims.insert claim.normalizedPath
    (recorded state claim.normalizedPath ++ [claim])
  casefolded :=
    setdefault state.casefolded (folded normalizeNfc casefold claim.normalizedPath) claim

/-- An implied claim of a path that is recorded already. -/
def Repeats (state : Claims) (claim : PathClaim) : Prop :=
  claim.explicit = false ∧ recorded state claim.normalizedPath ≠ []

theorem addClaim_ok (consistent : Consistent normalizeNfc casefold made) :
    addClaim normalizeNfc casefold maximumEntries state claim = .ok after ↔
      Agrees normalizeNfc casefold made claim ∧
        (Repeats state claim ∧ after = state ∨
          ¬ Repeats state claim ∧ after = extend normalizeNfc casefold state claim ∧
            after.claims.size ≤ maximumEntries) := by
  have hrepeats : (!claim.explicit && !(recorded state claim.normalizedPath).isEmpty) = true ↔
      Repeats state claim := by
    unfold Repeats
    rw [Bool.and_eq_true, Bool.not_eq_true', Bool.not_eq_true', List.isEmpty_eq_false_iff]
  constructor
  · intro h
    obtain ⟨_, hsource, h⟩ := bind_eq_ok.1 h
    obtain ⟨_, hfolded, h⟩ := bind_eq_ok.1 h
    obtain ⟨_, htype, h⟩ := bind_eq_ok.1 h
    have hsource := require_eq_ok.1 hsource
    have htype := require_eq_ok.1 htype
    change (!(recorded state claim.normalizedPath).any _) = true at hsource
    change (!(recorded state claim.normalizedPath).any _) = true at htype
    -- the two checks of the source against the claims recorded for this path
    have hitems : ∀ item ∈ recorded state claim.normalizedPath,
        item.sourcePath = claim.sourcePath ∧ item.entryType = claim.entryType := by
      intro item hitem
      constructor
      · by_contra hne
        rw [List.any_eq_true.2 ⟨item, hitem, decide_eq_true hne⟩] at hsource
        exact nomatch hsource
      · by_contra hne
        rw [List.any_eq_true.2 ⟨item, hitem, decide_eq_true hne⟩] at htype
        exact nomatch htype
    have halike := (holds.checks consistent).2 hitems
    have hapart := (holds.check_folded consistent fun c hc hsame => (halike c hc hsame).1).2
      (require_eq_ok.1 hfolded)
    change (if (!claim.explicit && !(recorded state claim.normalizedPath).isEmpty) = true then
      _ else _) = _ at h
    -- an implied claim of a recorded path returns before anything is recorded
    by_cases hskip : Repeats state claim
    · rw [if_pos (hrepeats.2 hskip)] at h
      refine ⟨⟨fun c hc hsame => ?_, hapart⟩, .inl ⟨hskip, (pure_eq_ok.1 h).symm⟩⟩
      refine ⟨(halike c hc hsame).1, (halike c hc hsame).2, ?_⟩
      rintro ⟨_, hexplicit⟩
      rw [hskip.1] at hexplicit
      exact nomatch hexplicit
    · rw [if_neg fun hrep => hskip (hrepeats.1 hrep)] at h
      obtain ⟨_, honce, h⟩ := bind_eq_ok.1 h
      obtain ⟨_, hsize, h⟩ := bind_eq_ok.1 h
      obtain rfl := pure_eq_ok.1 h
      have honce := require_eq_ok.1 honce
      change (!(claim.explicit && (recorded state claim.normalizedPath).any _)) = true at honce
      refine ⟨⟨fun c hc hsame => ?_, hapart⟩,
        .inr ⟨hskip, rfl, of_decide_eq_true (require_eq_ok.1 hsize)⟩⟩
      refine ⟨(halike c hc hsame).1, (halike c hc hsame).2, ?_⟩
      rintro ⟨hc', hexplicit⟩
      have hany := List.any_eq_true.2 (holds.check_explicit.2 ⟨c, hc, hsame, hc'⟩)
      rw [hexplicit, hany] at honce
      exact nomatch honce
  · rintro ⟨hagrees, hcase⟩
    have hitems := (holds.checks consistent).1 fun c hc hsame =>
      ⟨(hagrees.alike c hc hsame).1, (hagrees.alike c hc hsame).2.1⟩
    have hfolded := (holds.check_folded consistent fun c hc hsame =>
      (hagrees.alike c hc hsame).1).1 hagrees.apart
    have hsource : (!(recorded state claim.normalizedPath).any fun item =>
        decide (item.sourcePath ≠ claim.sourcePath)) = true := by
      rw [Bool.not_eq_true', List.any_eq_false]
      intro item hitem hne
      exact of_decide_eq_true hne (hitems item hitem).1
    have htype : (!(recorded state claim.normalizedPath).any fun item =>
        decide (item.entryType ≠ claim.entryType)) = true := by
      rw [Bool.not_eq_true', List.any_eq_false]
      intro item hitem hne
      exact of_decide_eq_true hne (hitems item hitem).2
    refine bind_eq_ok.2 ⟨(), require_eq_ok.2 hsource, bind_eq_ok.2 ⟨(), require_eq_ok.2 hfolded,
      bind_eq_ok.2 ⟨(), require_eq_ok.2 htype, ?_⟩⟩⟩
    change (if (!claim.explicit && !(recorded state claim.normalizedPath).isEmpty) = true then
      _ else _) = _
    rcases hcase with ⟨hskip, rfl⟩ | ⟨hnew, rfl, hsize⟩
    · rw [if_pos (hrepeats.2 hskip)]
      rfl
    · rw [if_neg fun hrep => hnew (hrepeats.1 hrep)]
      have honce : (!(claim.explicit &&
          (recorded state claim.normalizedPath).any PathClaim.explicit)) = true := by
        rw [Bool.not_eq_true', Bool.and_eq_false_iff, or_iff_not_imp_left]
        intro hexplicit
        rw [List.any_eq_false]
        intro item hitem hitem'
        obtain ⟨hmade, hpath⟩ := holds.mem_recorded hitem
        exact (hagrees.alike item hmade hpath).2.2 ⟨hitem', Bool.eq_true_of_not_eq_false hexplicit⟩
      exact bind_eq_ok.2 ⟨(), require_eq_ok.2 honce,
        bind_eq_ok.2 ⟨(), require_eq_ok.2 (decide_eq_true hsize), rfl⟩⟩

theorem Holds.repeats (hrepeats : Repeats state claim) :
    Holds normalizeNfc casefold state (made ++ [claim]) := by
  have hpath := holds.recorded_ne_nil.1 hrepeats.2
  constructor
  · intro path
    rw [holds.keys, List.map_append, List.mem_append]
    constructor
    · exact Or.inl
    · rintro (hmem | hmem)
      · exact hmem
      · obtain rfl := List.mem_singleton.1 hmem
        exact hpath
  · intro path items hfind
    obtain ⟨hne, hitems⟩ := holds.established path items hfind
    exact ⟨hne, fun item hitem => ⟨List.mem_append_left _ (hitems item hitem).1,
      (hitems item hitem).2⟩⟩
  · intro c hc hexplicit
    rcases List.mem_append.1 hc with hold | hnew
    · exact holds.explicit c hold hexplicit
    · obtain rfl := List.mem_singleton.1 hnew
      rw [hrepeats.1] at hexplicit
      exact nomatch hexplicit
  · intro key other hfind
    obtain ⟨hmade, hkey⟩ := holds.folds key other hfind
    exact ⟨List.mem_append_left _ hmade, hkey⟩
  · intro c hc
    rcases List.mem_append.1 hc with hold | hnew
    · exact holds.folding c hold
    · obtain rfl := List.mem_singleton.1 hnew
      obtain ⟨d, hd, hsame⟩ := List.mem_map.1 hpath
      rw [← hsame]
      exact holds.folding d hd

theorem Holds.extend (claim : PathClaim) :
    Holds normalizeNfc casefold (extend normalizeNfc casefold state claim) (made ++ [claim]) := by
  constructor
  · intro path
    show path ∈ (state.claims.insert _ _).keys ↔ _
    rw [Directory.mem_keys_insert, holds.keys, List.map_append, List.mem_append, List.map_singleton,
      List.mem_singleton, or_comm]
  · intro path items hfind
    change (state.claims.insert _ _).find? path = some items at hfind
    by_cases hpath : path = claim.normalizedPath
    · subst hpath
      rw [Directory.find?_insert_self] at hfind
      obtain rfl := Option.some.inj hfind
      refine ⟨List.append_ne_nil_of_right_ne_nil _ (List.cons_ne_nil _ _), ?_⟩
      intro item hitem
      rcases List.mem_append.1 hitem with hold | hnew
      · obtain ⟨hmade, hsame⟩ := holds.mem_recorded hold
        exact ⟨List.mem_append_left _ hmade, hsame⟩
      · obtain rfl := List.mem_singleton.1 hnew
        exact ⟨List.mem_append_right _ List.mem_cons_self, rfl⟩
    · rw [Directory.find?_insert_of_ne _ hpath] at hfind
      obtain ⟨hne, hitems⟩ := holds.established path items hfind
      exact ⟨hne, fun item hitem => ⟨List.mem_append_left _ (hitems item hitem).1,
        (hitems item hitem).2⟩⟩
  · intro c hc hexplicit
    show ∃ items, (state.claims.insert _ _).find? c.normalizedPath = some items ∧ c ∈ items
    by_cases hpath : c.normalizedPath = claim.normalizedPath
    · rw [hpath, Directory.find?_insert_self]
      refine ⟨_, rfl, ?_⟩
      rcases List.mem_append.1 hc with hold | hnew
      · obtain ⟨items, hfind, hmem⟩ := holds.explicit c hold hexplicit
        apply List.mem_append_left
        unfold recorded
        rw [← hpath, hfind]
        exact hmem
      · exact List.mem_append_right _ hnew
    · rw [Directory.find?_insert_of_ne _ hpath]
      rcases List.mem_append.1 hc with hold | hnew
      · exact holds.explicit c hold hexplicit
      · obtain rfl := List.mem_singleton.1 hnew
        exact absurd rfl hpath
  · intro key other hfind
    -- `setdefault` keeps the claim that was recorded first under a folded path
    rcases setdefault_find? hfind with hold | ⟨rfl, rfl⟩
    · obtain ⟨hmade, hkey⟩ := holds.folds key other hold
      exact ⟨List.mem_append_left _ hmade, hkey⟩
    · exact ⟨List.mem_append_right _ List.mem_cons_self, rfl⟩
  · intro c hc
    rcases List.mem_append.1 hc with hold | hnew
    · obtain ⟨other, hother⟩ := holds.folding c hold
      exact ⟨other, setdefault_kept hother⟩
    · obtain rfl := List.mem_singleton.1 hnew
      exact setdefault_self _ _ _

/-- How many paths are claimed. -/
def distinctPaths (claims : List PathClaim) : Nat :=
  (claims.map PathClaim.normalizedPath).dedup.length

theorem Holds.size :
    state.claims.size = distinctPaths made := by
  unfold distinctPaths
  rw [← Directory.size_keys]
  apply List.Perm.length_eq
  apply (List.perm_ext_iff_of_nodup (state.claims.keys_sorted.imp ne_of_lt)
    (List.nodup_dedup _)).2
  intro path
  rw [holds.keys, List.mem_dedup]

omit holds in
theorem distinctPaths_le {claims more : List PathClaim} :
    distinctPaths claims ≤ distinctPaths (claims ++ more) := by
  unfold distinctPaths
  apply List.Subperm.length_le
  apply List.Nodup.subperm (List.nodup_dedup _)
  intro path hpath
  rw [List.mem_dedup] at hpath ⊢
  rw [List.map_append]
  exact List.mem_append_left _ hpath

omit holds in
theorem Holds.start : Holds normalizeNfc casefold Claims.empty [] where
  keys := fun _ => Iff.rfl
  established := fun _ _ h => nomatch h
  explicit := fun _ hc => absurd hc List.not_mem_nil
  folds := fun _ _ h => nomatch h
  folding := fun _ hc => absurd hc List.not_mem_nil

theorem Holds.added (hcase : Repeats state claim ∧ after = state ∨
      ¬ Repeats state claim ∧ after = Zip.extend normalizeNfc casefold state claim ∧
        after.claims.size ≤ maximumEntries) :
    Holds normalizeNfc casefold after (made ++ [claim]) := by
  rcases hcase with ⟨hrepeats, rfl⟩ | ⟨_, rfl, _⟩
  · exact holds.repeats hrepeats
  · exact holds.extend claim

/-- The run lemma of the claims: admitted ones are consistent and few enough, -/
theorem addClaims_sound {claims : List PathClaim}
    (consistent : Consistent normalizeNfc casefold made)
    (hsize : state.claims.size ≤ maximumEntries)
    (h : claims.foldlM (addClaim normalizeNfc casefold maximumEntries) state = .ok after) :
    Holds normalizeNfc casefold after (made ++ claims) ∧
      Consistent normalizeNfc casefold (made ++ claims) ∧
      distinctPaths (made ++ claims) ≤ maximumEntries := by
  induction claims generalizing state made with
  | nil =>
      obtain rfl := pure_eq_ok.1 h
      rw [List.append_nil, ← holds.size]
      exact ⟨holds, consistent, hsize⟩
  | cons claim claims ih =>
      rw [List.foldlM_cons] at h
      obtain ⟨next, hadd, hrest⟩ := bind_eq_ok.1 h
      obtain ⟨hagrees, hcase⟩ := (addClaim_ok holds consistent).1 hadd
      have hnext : next.claims.size ≤ maximumEntries := by
        rcases hcase with ⟨_, rfl⟩ | ⟨_, _, hbound⟩
        · exact hsize
        · exact hbound
      have hall := ih (holds.added hcase) (consistent_append.2 ⟨consistent, hagrees⟩) hnext hrest
      rw [List.append_assoc, List.singleton_append] at hall
      exact hall

/-- and claims that are consistent and few enough are admitted. -/
theorem addClaims_complete {claims : List PathClaim} (hsize : state.claims.size ≤ maximumEntries)
    (consistent : Consistent normalizeNfc casefold (made ++ claims))
    (hcount : distinctPaths (made ++ claims) ≤ maximumEntries) :
    ∃ after, claims.foldlM (addClaim normalizeNfc casefold maximumEntries) state = .ok after := by
  induction claims generalizing state made with
  | nil => exact ⟨state, rfl⟩
  | cons claim claims ih =>
      have hassoc : made ++ claim :: claims = made ++ [claim] ++ claims := by
        rw [List.append_assoc, List.singleton_append]
      rw [hassoc] at consistent hcount
      rw [List.foldlM_cons]
      -- the first claim agrees, as part of a consistent whole
      have hfirst := consistent.part
      obtain ⟨hmade, hagrees⟩ := consistent_append.1 hfirst
      have hbound := distinctPaths_le.trans hcount
      by_cases hrepeats : Repeats state claim
      · have hadd : addClaim normalizeNfc casefold maximumEntries state claim = .ok state :=
          (addClaim_ok holds hmade).2 ⟨hagrees, .inl ⟨hrepeats, rfl⟩⟩
        obtain ⟨after, hrest⟩ := ih (holds.repeats hrepeats) hsize consistent hcount
        exact ⟨after, bind_eq_ok.2 ⟨_, hadd, hrest⟩⟩
      · have hsize' : (Zip.extend normalizeNfc casefold state claim).claims.size ≤
            maximumEntries := by
          rw [(holds.extend claim).size]
          exact hbound
        have hadd : addClaim normalizeNfc casefold maximumEntries state claim =
            .ok (Zip.extend normalizeNfc casefold state claim) :=
          (addClaim_ok holds hmade).2 ⟨hagrees, .inr ⟨hrepeats, rfl, hsize'⟩⟩
        obtain ⟨after, hrest⟩ := ih (holds.extend claim) hsize' consistent hcount
        exact ⟨after, bind_eq_ok.2 ⟨_, hadd, hrest⟩⟩

end Adding

/-! ## The paths -/

/-- A path is a file if a member says so; whatever else is there is a directory. -/
def kindOf (entries : List CentralEntry) (path : String) : ZipEntryType :=
  if entries.any fun entry =>
      decide (entry.normalizedPath = path) && decide (entry.entryType = .regularFile)
  then .regularFile else .directory

/-- The list of the paths of some members. -/
structure Materialized (normalizeNfc casefold : String → String) (maximumEntries : Nat)
    (entries : List CentralEntry) (paths : List String) : Prop where
  sorted : paths.Pairwise fun a b => encoded a < encoded b
  claimed : ∀ path ∈ paths, ∃ entry ∈ entries,
    path = entry.normalizedPath ∨ path ∈ ancestors entry.normalizedPath
  explicit : ∀ entry ∈ entries, entry.normalizedPath ∈ paths
  once : (entries.map CentralEntry.normalizedPath).Nodup
  kinds : ∀ entry ∈ entries, kindOf entries entry.normalizedPath = entry.entryType
  parents : ∀ path ∈ paths, ∀ ancestor ∈ ancestors path, ancestor ∈ paths
  files : ∀ file ∈ paths, kindOf entries file = .regularFile →
    ∀ path ∈ paths, file ∉ ancestors path
  apart : ∀ a ∈ paths, ∀ b ∈ paths,
    folded normalizeNfc casefold a = folded normalizeNfc casefold b → a = b
  index : "index.html" ∈ paths ∧ kindOf entries "index.html" = .regularFile
  limit : paths.length ≤ maximumEntries

/-- Members and the directories above them have one spelling each. -/
def OneSpelling (entries : List CentralEntry) : Prop :=
  ∀ c ∈ entries.flatMap entryClaims, ∀ d ∈ entries.flatMap entryClaims,
    c.normalizedPath = d.normalizedPath → c.sourcePath = d.sourcePath

theorem kindOf_eq_regularFile {entries : List CentralEntry} {path : String} :
    kindOf entries path = .regularFile ↔
      ∃ entry ∈ entries, entry.normalizedPath = path ∧ entry.entryType = .regularFile := by
  unfold kindOf
  constructor
  · intro h
    by_cases hany : (entries.any fun entry =>
        decide (entry.normalizedPath = path) && decide (entry.entryType = .regularFile)) = true
    · obtain ⟨entry, hentry, hboth⟩ := List.any_eq_true.1 hany
      obtain ⟨hpath, htype⟩ := Bool.and_eq_true_iff.1 hboth
      exact ⟨entry, hentry, of_decide_eq_true hpath, of_decide_eq_true htype⟩
    · rw [if_neg hany] at h
      exact nomatch h
  · rintro ⟨entry, hentry, hpath, htype⟩
    rw [if_pos]
    apply List.any_eq_true.2 ⟨entry, hentry, ?_⟩
    rw [decide_eq_true hpath, decide_eq_true htype]
    rfl

theorem mem_claims {entries : List CentralEntry} {c : PathClaim} :
    c ∈ entries.flatMap entryClaims ↔ ∃ entry ∈ entries, c = explicitClaim entry ∨
      ∃ depth ∈ ancestorDepths (splitPath entry.normalizedPath).length,
        c = impliedClaim entry depth := by
  rw [List.mem_flatMap]
  constructor
  · rintro ⟨entry, hentry, hc⟩
    refine ⟨entry, hentry, ?_⟩
    rcases List.mem_append.1 hc with himplied | hexplicit
    · obtain ⟨depth, hdepth, rfl⟩ := List.mem_map.1 himplied
      rw [entry.sameDepth] at hdepth
      exact .inr ⟨depth, hdepth, rfl⟩
    · exact .inl (List.mem_singleton.1 hexplicit)
  · rintro ⟨entry, hentry, rfl | ⟨depth, hdepth, rfl⟩⟩
    · exact ⟨entry, hentry, List.mem_append_right _ List.mem_cons_self⟩
    · rw [← entry.sameDepth] at hdepth
      exact ⟨entry, hentry, List.mem_append_left _ (List.mem_map_of_mem hdepth)⟩

theorem mem_claimed {entries : List CentralEntry} {path : String} :
    path ∈ (entries.flatMap entryClaims).map PathClaim.normalizedPath ↔
      ∃ entry ∈ entries, path = entry.normalizedPath ∨ path ∈ ancestors entry.normalizedPath := by
  constructor
  · intro h
    obtain ⟨c, hc, rfl⟩ := List.mem_map.1 h
    obtain ⟨entry, hentry, rfl | ⟨depth, hdepth, rfl⟩⟩ := mem_claims.1 hc
    · exact ⟨entry, hentry, .inl rfl⟩
    · exact ⟨entry, hentry, .inr (List.mem_map_of_mem hdepth)⟩
  · rintro ⟨entry, hentry, rfl | hpath⟩
    · exact List.mem_map.2 ⟨explicitClaim entry, mem_claims.2 ⟨entry, hentry, .inl rfl⟩, rfl⟩
    · obtain ⟨depth, hdepth, rfl⟩ := List.mem_map.1 hpath
      exact List.mem_map.2 ⟨impliedClaim entry depth,
        mem_claims.2 ⟨entry, hentry, .inr ⟨depth, hdepth, rfl⟩⟩, rfl⟩

/-- Only the claims of the members themselves are explicit. -/
theorem once_iff {entries : List CentralEntry} :
    ((entries.flatMap entryClaims).Pairwise fun c d =>
        c.normalizedPath = d.normalizedPath → ¬ (c.explicit = true ∧ d.explicit = true)) ↔
      (entries.map CentralEntry.normalizedPath).Nodup := by
  rw [List.pairwise_flatMap]
  unfold List.Nodup
  rw [List.pairwise_map]
  constructor
  · rintro ⟨_, hcross⟩
    apply hcross.imp
    intro e f h hsame
    exact h (explicitClaim e) (List.mem_append_right _ List.mem_cons_self) (explicitClaim f)
      (List.mem_append_right _ List.mem_cons_self) hsame ⟨rfl, rfl⟩
  · intro h
    constructor
    · intro entry _
      refine List.pairwise_append.2 ⟨?_, List.pairwise_singleton _ _, ?_⟩
      · apply List.pairwise_map.2
        apply List.pairwise_of_forall
        rintro a b _ ⟨himplied, _⟩
        exact nomatch himplied
      · intro c hc d _ _
        obtain ⟨depth, _, rfl⟩ := List.mem_map.1 hc
        rintro ⟨himplied, _⟩
        exact nomatch himplied
    · apply h.imp
      intro e f hne c hc d hd hsame
      rcases List.mem_append.1 hc with himplied | hexplicit
      · obtain ⟨depth, _, rfl⟩ := List.mem_map.1 himplied
        rintro ⟨himplied, _⟩
        exact nomatch himplied
      · obtain rfl := List.mem_singleton.1 hexplicit
        rcases List.mem_append.1 hd with himplied' | hexplicit'
        · obtain ⟨depth, _, rfl⟩ := List.mem_map.1 himplied'
          rintro ⟨_, himplied'⟩
          exact nomatch himplied'
        · obtain rfl := List.mem_singleton.1 hexplicit'
          exact absurd hsame hne

/-- The claims of admitted members are consistent, and consistent claims are those of members whose
paths have one spelling and make a tree. -/
theorem consistent_iff {normalizeNfc casefold : String → String} {entries : List CentralEntry} :
    Consistent normalizeNfc casefold (entries.flatMap entryClaims) ↔
      OneSpelling entries ∧ (entries.map CentralEntry.normalizedPath).Nodup ∧
      (∀ entry ∈ entries, entry.entryType = .regularFile → ∀ other ∈ entries,
        entry.normalizedPath ∉ ancestors other.normalizedPath) ∧
      (∀ a ∈ (entries.flatMap entryClaims).map PathClaim.normalizedPath,
        ∀ b ∈ (entries.flatMap entryClaims).map PathClaim.normalizedPath,
        folded normalizeNfc casefold a = folded normalizeNfc casefold b → a = b) := by
  constructor
  · intro h
    refine ⟨fun c hc d hd hsame => (h.alike c hc d hd hsame).1, once_iff.1 h.once, ?_, ?_⟩
    · intro entry hentry hfile other hother hancestor
      obtain ⟨depth, hdepth, hpath⟩ := List.mem_map.1 hancestor
      have htype := (h.alike (explicitClaim entry) (mem_claims.2 ⟨entry, hentry, .inl rfl⟩)
        (impliedClaim other depth) (mem_claims.2 ⟨other, hother, .inr ⟨depth, hdepth, rfl⟩⟩)
        hpath.symm).2
      exact nomatch hfile.symm.trans htype
    · intro a ha b hb hfold
      obtain ⟨c, hc, rfl⟩ := List.mem_map.1 ha
      obtain ⟨d, hd, rfl⟩ := List.mem_map.1 hb
      exact h.apart c hc d hd hfold
  · rintro ⟨hspelling, honce, hfiles, hapart⟩
    refine ⟨?_, ?_, once_iff.2 honce⟩
    · intro c hc d hd hsame
      refine ⟨hspelling c hc d hd hsame, ?_⟩
      obtain ⟨e, he, rfl | ⟨depth, hdepth, rfl⟩⟩ := mem_claims.1 hc
      · obtain ⟨f, hf, rfl | ⟨depth', hdepth', rfl⟩⟩ := mem_claims.1 hd
        · obtain rfl := List.inj_on_of_nodup_map honce he hf hsame
          rfl
        · -- a member that is a directory above another is no file
          have hancestor : e.normalizedPath ∈ ancestors f.normalizedPath :=
            List.mem_map.2 ⟨depth', hdepth', hsame.symm⟩
          cases htype : e.entryType with
          | directory => exact htype
          | regularFile => exact absurd hancestor (hfiles e he htype f hf)
      · obtain ⟨f, hf, rfl | ⟨depth', hdepth', rfl⟩⟩ := mem_claims.1 hd
        · have hancestor : f.normalizedPath ∈ ancestors e.normalizedPath :=
            List.mem_map.2 ⟨depth, hdepth, hsame⟩
          cases htype : f.entryType with
          | directory => exact htype.symm
          | regularFile => exact absurd hancestor (hfiles f hf htype e he)
        · rfl
    · intro c hc d hd hfold
      exact hapart _ (List.mem_map_of_mem hc) _ (List.mem_map_of_mem hd) hfold

/-- What the check of the index asks for. -/
theorem Holds.index {normalizeNfc casefold : String → String} {state : Claims}
    {entries : List CentralEntry}
    (holds : Holds normalizeNfc casefold state (entries.flatMap entryClaims)) :
    ((recorded state "index.html").any fun claim =>
        claim.explicit && decide (claim.entryType = .regularFile)) = true ↔
      kindOf entries "index.html" = .regularFile := by
  rw [kindOf_eq_regularFile]
  constructor
  · intro h
    obtain ⟨item, hitem, hboth⟩ := List.any_eq_true.1 h
    obtain ⟨hexplicit, htype⟩ := Bool.and_eq_true_iff.1 hboth
    obtain ⟨hmade, hpath⟩ := holds.mem_recorded hitem
    obtain ⟨entry, hentry, rfl | ⟨depth, _, rfl⟩⟩ := mem_claims.1 hmade
    · exact ⟨entry, hentry, hpath, of_decide_eq_true htype⟩
    · exact nomatch hexplicit
  · rintro ⟨entry, hentry, hpath, htype⟩
    obtain ⟨items, hfind, hmem⟩ := holds.explicit (explicitClaim entry)
      (mem_claims.2 ⟨entry, hentry, .inl rfl⟩) rfl
    have hrecorded : explicitClaim entry ∈ recorded state "index.html" := by
      unfold recorded
      rw [← hpath]
      change state.claims.find? entry.normalizedPath = some items at hfind
      rw [hfind]
      exact hmem
    refine List.any_eq_true.2 ⟨_, hrecorded, ?_⟩
    show (true && decide (entry.entryType = .regularFile)) = true
    rw [htype]
    rfl

/-- The keys in the order of their encoding. -/
theorem encodedSort_pairwise {paths : List String} (hnodup : paths.Nodup) :
    (paths.insertionSort fun a b => encoded a ≤ encoded b).Pairwise
      fun a b => encoded a < encoded b := by
  have htotal : Std.Total fun a b : String => encoded a ≤ encoded b :=
    ⟨fun a b => le_total (encoded a) (encoded b)⟩
  have htrans : IsTrans String fun a b : String => encoded a ≤ encoded b :=
    ⟨fun _ _ _ => le_trans⟩
  have hle := List.pairwise_insertionSort (fun a b : String => encoded a ≤ encoded b) paths
  have hne := (List.perm_insertionSort (fun a b : String => encoded a ≤ encoded b)
    paths).nodup_iff.2 hnodup
  exact (hle.and hne).imp fun ⟨hle, hne⟩ =>
    lt_of_le_of_ne hle fun heq => hne (encoded_injective heq)

theorem encodedSort_unique {paths others : List String}
    (hpaths : paths.Pairwise fun a b => encoded a < encoded b) (hnodup : others.Nodup)
    (hmem : ∀ path, path ∈ paths ↔ path ∈ others) :
    (others.insertionSort fun a b => encoded a ≤ encoded b) = paths := by
  have hsorted := encodedSort_pairwise hnodup
  refine List.Perm.eq_of_pairwise (fun a b _ _ hab hba => absurd hab (lt_asymm hba)) hsorted
    hpaths ?_
  have hperm := List.perm_insertionSort (fun a b : String => encoded a ≤ encoded b) others
  have hnodup' : paths.Nodup := by
    apply hpaths.imp
    intro a b h heq
    rw [heq] at h
    exact lt_irrefl _ h
  refine (List.perm_ext_iff_of_nodup (hperm.nodup_iff.2 hnodup) hnodup').2 ?_
  intro path
  rw [hperm.mem_iff, hmem]

/-- The members that are admitted, and the list of their paths. -/
theorem materializedPaths_ok {normalizeNfc casefold : String → String} {maximumEntries : Nat}
    {entries : List CentralEntry} {paths : List String} :
    materializedPaths normalizeNfc casefold maximumEntries entries = .ok paths ↔
      Materialized normalizeNfc casefold maximumEntries entries paths ∧ OneSpelling entries := by
  have hempty : Consistent normalizeNfc casefold [] :=
    ⟨fun _ hc => absurd hc List.not_mem_nil, fun _ hc => absurd hc List.not_mem_nil,
      List.Pairwise.nil⟩
  constructor
  · intro h
    obtain ⟨state, hstate, h⟩ := bind_eq_ok.1 h
    obtain ⟨_, hindex, h⟩ := bind_eq_ok.1 h
    obtain rfl := pure_eq_ok.1 h
    -- acceptance leaves the invariant of the accumulator, from which each clause is read
    obtain ⟨holds, consistent, hcount⟩ :=
      addClaims_sound Holds.start hempty (Nat.zero_le maximumEntries) hstate
    rw [List.nil_append] at holds consistent hcount
    obtain ⟨hspelling, honce, hfiles, hapart⟩ := consistent_iff.1 consistent
    have hmem : ∀ path, path ∈ state.claims.keys.insertionSort
        (fun a b => encoded a ≤ encoded b) ↔
          ∃ entry ∈ entries, path = entry.normalizedPath ∨
            path ∈ ancestors entry.normalizedPath := by
      intro path
      rw [(List.perm_insertionSort _ _).mem_iff, holds.keys, mem_claimed]
    have hkind := holds.index.1 (require_eq_ok.1 hindex)
    refine ⟨⟨encodedSort_pairwise (state.claims.keys_sorted.imp ne_of_lt),
      fun path hpath => (hmem path).1 hpath, ?_, honce, ?_, ?_, ?_, ?_, ⟨?_, hkind⟩, ?_⟩,
      hspelling⟩
    · intro entry hentry
      exact (hmem _).2 ⟨entry, hentry, .inl rfl⟩
    · intro entry hentry
      cases htype : entry.entryType with
      | regularFile => exact kindOf_eq_regularFile.2 ⟨entry, hentry, rfl, htype⟩
      | directory =>
          cases hkind' : kindOf entries entry.normalizedPath with
          | directory => rfl
          | regularFile =>
              obtain ⟨other, hother, hpath, htype'⟩ := kindOf_eq_regularFile.1 hkind'
              obtain rfl := List.inj_on_of_nodup_map honce hother hentry hpath
              exact nomatch htype.symm.trans htype'
    · intro path hpath ancestor hancestor
      obtain ⟨entry, hentry, rfl | hpath⟩ := (hmem path).1 hpath
      · exact (hmem _).2 ⟨entry, hentry, .inr hancestor⟩
      · exact (hmem _).2 ⟨entry, hentry, .inr (ancestors_trans hancestor hpath)⟩
    · intro file _ hfile path hpath hancestor
      obtain ⟨entry, hentry, rfl, htype⟩ := kindOf_eq_regularFile.1 hfile
      obtain ⟨other, hother, rfl | hpath⟩ := (hmem path).1 hpath
      · exact hfiles entry hentry htype other hother hancestor
      · exact hfiles entry hentry htype other hother (ancestors_trans hancestor hpath)
    · intro a ha b hb
      exact hapart a (mem_claimed.2 ((hmem a).1 ha)) b (mem_claimed.2 ((hmem b).1 hb))
    · obtain ⟨entry, hentry, hpath, _⟩ := kindOf_eq_regularFile.1 hkind
      exact (hmem _).2 ⟨entry, hentry, .inl hpath.symm⟩
    · rw [List.length_insertionSort, Directory.size_keys, holds.size]
      exact hcount
  · rintro ⟨tree, hspelling⟩
    have hmem : ∀ path, path ∈ paths ↔
        path ∈ (entries.flatMap entryClaims).map PathClaim.normalizedPath := by
      intro path
      rw [mem_claimed]
      constructor
      · exact tree.claimed path
      · rintro ⟨entry, hentry, rfl | hancestor⟩
        · exact tree.explicit entry hentry
        · exact tree.parents _ (tree.explicit entry hentry) path hancestor
    -- conversely the claims of a tree are consistent, so no step of the fold refuses
    have consistent : Consistent normalizeNfc casefold (entries.flatMap entryClaims) := by
      refine consistent_iff.2 ⟨hspelling, tree.once, ?_, ?_⟩
      · intro entry hentry htype other hother
        exact tree.files _ (tree.explicit entry hentry)
          (kindOf_eq_regularFile.2 ⟨entry, hentry, rfl, htype⟩) _ (tree.explicit other hother)
      · intro a ha b hb
        exact tree.apart a ((hmem a).2 ha) b ((hmem b).2 hb)
    have hcount : distinctPaths (entries.flatMap entryClaims) ≤ maximumEntries := by
      refine Nat.le_trans ?_ tree.limit
      apply List.Subperm.length_le
      apply List.Nodup.subperm (List.nodup_dedup _)
      intro path hpath
      exact (hmem path).2 (List.mem_dedup.1 hpath)
    obtain ⟨state, hstate⟩ : ∃ state, (entries.flatMap entryClaims).foldlM
        (addClaim normalizeNfc casefold maximumEntries) Claims.empty = .ok state :=
      addClaims_complete Holds.start (Nat.zero_le maximumEntries) consistent hcount
    obtain ⟨holds, _, _⟩ :=
      addClaims_sound Holds.start hempty (Nat.zero_le maximumEntries) hstate
    rw [List.nil_append] at holds
    refine bind_eq_ok.2 ⟨state, hstate, bind_eq_ok.2 ⟨(),
      require_eq_ok.2 (holds.index.2 tree.index.2), ?_⟩⟩
    refine pure_eq_ok.2 (encodedSort_unique tree.sorted (state.claims.keys_sorted.imp ne_of_lt) ?_)
    intro path
    rw [hmem, holds.keys]

/-! ## One directory in two spellings -/

/-- The index and two files of a directory é, once in one character and once in two. -/
def twoSpellings : List CentralEntry :=
  [{ sourceName := "index.html", normalizedPath := "index.html", entryType := .regularFile,
     sameDepth := by rfl },
   { sourceName := "\u00e9/a", normalizedPath := "\u00e9/a", entryType := .regularFile,
     sameDepth := by rfl },
   { sourceName := "e\u0301/b", normalizedPath := "\u00e9/b", entryType := .regularFile,
     sameDepth := by rfl }]

/-- The paths make a tree: all is normalized and in lower case, so that normalization and folding
leave it as it is. The members are refused. -/
theorem materializedPaths_spelling :
    Materialized id id 5000 twoSpellings
      ["index.html", "\u00e9", "\u00e9/a", "\u00e9/b"] ∧
    materializedPaths id id 5000 twoSpellings =
      .error (.structure "ZIP member paths collide after NFC normalization") := by
  refine ⟨?_, by rfl⟩
  constructor <;> decide

end StaticHostAgent.Zip
