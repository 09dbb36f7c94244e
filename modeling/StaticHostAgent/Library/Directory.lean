import Mathlib.Order.Defs.LinearOrder
import Mathlib.Data.List.Pairwise
import Mathlib.Algebra.BigOperators.Group.List.Basic
import Mathlib.Algebra.GroupWithZero.Nat
import Mathlib.Order.Lattice

/-!
# Sorted directories

A `Directory K V` is a finite map kept as the list of its entries in strictly increasing key order,
which is how a sorted directory listing presents it. The order is a field, so a listing is always
sorted and free of repetitions, and two directories with the same bindings are equal
(`Directory.ext_find?`).
-/

set_option autoImplicit false

namespace StaticHostAgent.Library

variable {K V : Type} [LinearOrder K]

/-- A finite map as its sorted list of entries. -/
structure Directory (K V : Type) [LinearOrder K] where
  entries : List (K × V)
  sorted : entries.Pairwise fun a b => a.1 < b.1

namespace Directory

instance [DecidableEq V] : DecidableEq (Directory K V) := fun a b =>
  decidable_of_iff (a.entries = b.entries)
    ⟨fun h => by cases a; cases b; cases h; rfl, fun h => congrArg entries h⟩

/-- The directory without entries. -/
def empty : Directory K V := ⟨[], List.Pairwise.nil⟩

/-- The value bound to a key. -/
def find? (d : Directory K V) (k : K) : Option V := d.entries.lookup k

/-- The names in a listing, in order. -/
def keys (d : Directory K V) : List K := d.entries.map Prod.fst

/-- Bind `k` to `v` in a sorted list of entries. -/
def insertEntry (k : K) (v : V) : List (K × V) → List (K × V)
  | [] => [(k, v)]
  | e :: es => if k < e.1 then (k, v) :: e :: es
      else if k = e.1 then (k, v) :: es
      else e :: insertEntry k v es

theorem mem_insertEntry {k : K} {v : V} {es : List (K × V)} {e : K × V}
    (h : e ∈ insertEntry k v es) : e = (k, v) ∨ e ∈ es := by
  induction es with
  | nil => exact Or.inl (List.mem_singleton.1 h)
  | cons f fs ih =>
      unfold insertEntry at h
      split at h
      · exact (List.mem_cons.1 h)
      · split at h
        · rcases List.mem_cons.1 h with rfl | h
          · exact Or.inl rfl
          · exact Or.inr (List.mem_cons_of_mem f h)
        · rcases List.mem_cons.1 h with rfl | h
          · exact Or.inr List.mem_cons_self
          · exact (ih h).imp_right (List.mem_cons_of_mem f)

theorem sorted_insertEntry (k : K) (v : V) {es : List (K × V)}
    (h : es.Pairwise fun a b => a.1 < b.1) :
    (insertEntry k v es).Pairwise fun a b => a.1 < b.1 := by
  induction es with
  | nil => exact List.pairwise_singleton _ _
  | cons e es ih =>
      obtain ⟨hhead, htail⟩ := List.pairwise_cons.1 h
      unfold insertEntry
      split
      · rename_i hlt
        refine List.pairwise_cons.2 ⟨fun f hf => ?_, h⟩
        rcases List.mem_cons.1 hf with rfl | hf
        · exact hlt
        · exact hlt.trans (hhead f hf)
      · rename_i hge
        split
        · rename_i heq
          exact List.pairwise_cons.2 ⟨fun f hf => heq ▸ hhead f hf, htail⟩
        · rename_i hne
          refine List.pairwise_cons.2 ⟨fun f hf => ?_, ih htail⟩
          rcases mem_insertEntry hf with rfl | hf
          · exact lt_of_le_of_ne (not_lt.1 hge) (Ne.symm hne)
          · exact hhead f hf

/-- Bind `k` to `v`, replacing an earlier binding. -/
def insert (d : Directory K V) (k : K) (v : V) : Directory K V :=
  ⟨insertEntry k v d.entries, sorted_insertEntry k v d.sorted⟩

/-- Remove a binding. -/
def erase (d : Directory K V) (k : K) : Directory K V :=
  ⟨d.entries.filter fun e => e.1 ≠ k, d.sorted.filter _⟩

theorem lookup_cons_self (e : K × V) (es : List (K × V)) : (e :: es).lookup e.1 = some e.2 :=
  List.lookup_cons_self

theorem lookup_cons_of_ne {k : K} {e : K × V} (h : k ≠ e.1) (es : List (K × V)) :
    (e :: es).lookup k = es.lookup k := by
  rw [List.lookup_cons, beq_eq_false_iff_ne.2 h]

theorem find?_empty (k : K) : (empty : Directory K V).find? k = none := rfl

theorem lookup_insertEntry_self (k : K) (v : V) (es : List (K × V)) :
    (insertEntry k v es).lookup k = some v := by
  induction es with
  | nil => simp [insertEntry]
  | cons e es ih =>
      unfold insertEntry
      split
      · simp
      · split
        · simp
        · rename_i hne
          rw [lookup_cons_of_ne hne]
          exact ih

theorem lookup_insertEntry_of_ne {k j : K} (hj : j ≠ k) (v : V) (es : List (K × V)) :
    (insertEntry k v es).lookup j = es.lookup j := by
  induction es with
  | nil => exact lookup_cons_of_ne (e := (k, v)) hj []
  | cons e es ih =>
      unfold insertEntry
      split
      · exact lookup_cons_of_ne (e := (k, v)) hj (e :: es)
      · split
        · rename_i heq
          rw [lookup_cons_of_ne (e := (k, v)) hj, lookup_cons_of_ne (heq ▸ hj)]
        · rw [List.lookup_cons, List.lookup_cons, ih]

@[simp] theorem find?_insert_self (d : Directory K V) (k : K) (v : V) :
    (d.insert k v).find? k = some v := lookup_insertEntry_self k v d.entries

theorem find?_insert_of_ne (d : Directory K V) {k j : K} (hj : j ≠ k) (v : V) :
    (d.insert k v).find? j = d.find? j := lookup_insertEntry_of_ne hj v d.entries

theorem lookup_filter_self (k : K) (es : List (K × V)) :
    (es.filter fun e => e.1 ≠ k).lookup k = none := by
  induction es with
  | nil => rfl
  | cons e es ih =>
      by_cases he : e.1 = k
      · rw [List.filter_cons_of_neg (by simpa using he)]
        exact ih
      · rw [List.filter_cons_of_pos (by simpa using he), lookup_cons_of_ne (Ne.symm he)]
        exact ih

theorem lookup_filter_of_ne {k j : K} (hj : j ≠ k) (es : List (K × V)) :
    (es.filter fun e => e.1 ≠ k).lookup j = es.lookup j := by
  induction es with
  | nil => rfl
  | cons e es ih =>
      by_cases he : e.1 = k
      · rw [List.filter_cons_of_neg (by simpa using he), lookup_cons_of_ne (he ▸ hj)]
        exact ih
      · rw [List.filter_cons_of_pos (by simpa using he), List.lookup_cons, List.lookup_cons, ih]

@[simp] theorem find?_erase_self (d : Directory K V) (k : K) : (d.erase k).find? k = none :=
  lookup_filter_self k d.entries

theorem find?_erase_of_ne (d : Directory K V) {k j : K} (hj : j ≠ k) :
    (d.erase k).find? j = d.find? j := lookup_filter_of_ne hj d.entries

/-- The bindings of the kept names. -/
def restrict (keep : K → Bool) (d : Directory K V) : Directory K V :=
  ⟨d.entries.filter fun e => keep e.1, d.sorted.filter _⟩

theorem find?_restrict (keep : K → Bool) (d : Directory K V) (k : K) :
    (d.restrict keep).find? k = if keep k then d.find? k else none := by
  show (d.entries.filter fun e => keep e.1).lookup k = if keep k then d.entries.lookup k else none
  induction d.entries with
  | nil => simp
  | cons e es ih =>
      by_cases hk : k = e.1
      · subst hk
        cases hkeep : keep e.1 with
        | true => 
            rw [List.filter_cons_of_pos (by simpa using hkeep), lookup_cons_self,
              lookup_cons_self, if_pos rfl]
        | false =>
            rw [List.filter_cons_of_neg (by simp [hkeep]), ih, hkeep]
            rfl
      · rw [lookup_cons_of_ne hk, ← ih]
        cases hkeep : keep e.1 with
        | true => rw [List.filter_cons_of_pos (by simpa using hkeep), lookup_cons_of_ne hk]
        | false => rw [List.filter_cons_of_neg (by simp [hkeep])]

theorem lookup_eq_none_of_lt {k : K} {es : List (K × V)} (h : ∀ e ∈ es, k < e.1) :
    es.lookup k = none := by
  induction es with
  | nil => rfl
  | cons e es ih =>
      rw [lookup_cons_of_ne (h e List.mem_cons_self).ne]
      exact ih fun f hf => h f (List.mem_cons_of_mem e hf)

/-- Sorted lists of entries with the same bindings are equal. -/
theorem entries_eq_of_lookup : ∀ {es fs : List (K × V)},
    es.Pairwise (fun a b => a.1 < b.1) → fs.Pairwise (fun a b => a.1 < b.1) →
      (∀ k, es.lookup k = fs.lookup k) → es = fs := by
  intro es
  induction es with
  | nil =>
      intro fs _ _ h
      cases fs with
      | nil => rfl
      | cons f fs =>
          have := h f.1
          rw [lookup_cons_self] at this
          cases this
  | cons e es ih =>
      intro fs hes hfs h
      cases fs with
      | nil =>
          have := h e.1
          rw [lookup_cons_self] at this
          cases this
      | cons f fs =>
          obtain ⟨hehead, hetail⟩ := List.pairwise_cons.1 hes
          obtain ⟨hfhead, hftail⟩ := List.pairwise_cons.1 hfs
          -- the smaller of two different heads would be bound in one list only
          have hfirst : e.1 = f.1 := by
            rcases lt_trichotomy e.1 f.1 with hlt | heq | hgt
            · have habsent : (f :: fs).lookup e.1 = none := by
                refine lookup_eq_none_of_lt fun g hg => ?_
                rcases List.mem_cons.1 hg with rfl | hg
                · exact hlt
                · exact hlt.trans (hfhead g hg)
              have := h e.1
              rw [habsent, lookup_cons_self] at this
              cases this
            · exact heq
            · have habsent : (e :: es).lookup f.1 = none := by
                refine lookup_eq_none_of_lt fun g hg => ?_
                rcases List.mem_cons.1 hg with rfl | hg
                · exact hgt
                · exact hgt.trans (hehead g hg)
              have := h f.1
              rw [habsent, lookup_cons_self] at this
              cases this
          have hvalue : e.2 = f.2 := by
            have := h e.1
            rw [lookup_cons_self, hfirst, lookup_cons_self] at this
            exact Option.some.inj this
          have htails : es = fs := by
            refine ih hetail hftail fun k => ?_
            by_cases hk : k = e.1
            · rw [hk, lookup_eq_none_of_lt hehead, hfirst, lookup_eq_none_of_lt hfhead]
            · have := h k
              rwa [lookup_cons_of_ne hk, lookup_cons_of_ne (hfirst ▸ hk)] at this
          rw [htails, Prod.ext hfirst hvalue]

/-- A directory is determined by its bindings. -/
theorem ext_find? {d d' : Directory K V} (h : ∀ k, d.find? k = d'.find? k) : d = d' := by
  have := entries_eq_of_lookup d.sorted d'.sorted h
  cases d
  cases d'
  cases this
  rfl

theorem lookup_of_mem {e : K × V} : ∀ {es : List (K × V)}, es.Pairwise (fun a b => a.1 < b.1) →
    e ∈ es → es.lookup e.1 = some e.2 := by
  intro es
  induction es with
  | nil => exact fun _ he => (nomatch he)
  | cons f fs ih =>
      intro h he
      obtain ⟨hhead, htail⟩ := List.pairwise_cons.1 h
      rcases List.mem_cons.1 he with rfl | he
      · exact lookup_cons_self e fs
      · rw [lookup_cons_of_ne (ne_of_gt (hhead e he))]
        exact ih htail he

theorem find?_of_mem (d : Directory K V) {e : K × V} (h : e ∈ d.entries) :
    d.find? e.1 = some e.2 := lookup_of_mem d.sorted h

theorem mem_entries {d : Directory K V} {k : K} {v : V} :
    (k, v) ∈ d.entries ↔ d.find? k = some v := by
  refine ⟨fun h => d.find?_of_mem h, fun h => ?_⟩
  obtain ⟨before, behind, hsplit, -⟩ := List.lookup_eq_some_iff.1 h
  rw [hsplit]
  exact List.mem_append_right _ List.mem_cons_self

theorem keys_sorted (d : Directory K V) : d.keys.Pairwise (· < ·) :=
  List.pairwise_map.2 d.sorted

theorem mem_keys {d : Directory K V} {k : K} : k ∈ d.keys ↔ (d.find? k).isSome = true := by
  unfold keys find?
  induction d.entries with
  | nil => simp
  | cons e es ih =>
      rw [List.map_cons, List.mem_cons]
      by_cases hk : k = e.1
      · simp [hk]
      · rw [lookup_cons_of_ne hk]
        simp [hk, ih]

theorem not_mem_keys {d : Directory K V} {k : K} : k ∉ d.keys ↔ d.find? k = none := by
  rw [mem_keys]
  cases d.find? k <;> simp

/-- A sorted list with the right members is the listing. -/
theorem keys_eq {d : Directory K V} {ks : List K} (hsorted : ks.Pairwise (· < ·))
    (h : ∀ k, k ∈ ks ↔ (d.find? k).isSome = true) : d.keys = ks := by
  refine List.Perm.eq_of_pairwise (fun a b _ _ hab hba => absurd hab (lt_asymm hba)) d.keys_sorted
    hsorted ?_
  refine (List.perm_ext_iff_of_nodup (d.keys_sorted.imp ne_of_lt) (hsorted.imp ne_of_lt)).2 ?_
  intro k
  rw [mem_keys, h]

theorem mem_keys_insert {d : Directory K V} {k j : K} {v : V} :
    j ∈ (d.insert k v).keys ↔ j = k ∨ j ∈ d.keys := by
  rw [mem_keys, mem_keys]
  by_cases hj : j = k
  · simp [hj]
  · simp [find?_insert_of_ne d hj, hj]

theorem mem_keys_erase {d : Directory K V} {k j : K} :
    j ∈ (d.erase k).keys ↔ j ≠ k ∧ j ∈ d.keys := by
  rw [mem_keys, mem_keys]
  by_cases hj : j = k
  · simp [hj]
  · simp [find?_erase_of_ne d hj, hj]

/-- Writing a binding that is already there changes nothing. -/
theorem insert_of_find? {d : Directory K V} {k : K} {v : V} (h : d.find? k = some v) :
    d.insert k v = d := by
  refine ext_find? fun j => ?_
  by_cases hj : j = k
  · rw [hj, find?_insert_self, h]
  · rw [find?_insert_of_ne d hj]

theorem insert_insert (d : Directory K V) (k : K) (v w : V) :
    (d.insert k v).insert k w = d.insert k w := by
  refine ext_find? fun j => ?_
  by_cases hj : j = k
  · rw [hj, find?_insert_self, find?_insert_self]
  · rw [find?_insert_of_ne _ hj, find?_insert_of_ne _ hj, find?_insert_of_ne _ hj]

/-- A new binding is one more entry, at its place in the order. -/
theorem entries_insert_perm {d : Directory K V} {k : K} (h : d.find? k = none) (v : V) :
    (d.insert k v).entries.Perm ((k, v) :: d.entries) := by
  have hperm : ∀ {es : List (K × V)}, es.lookup k = none →
      (insertEntry k v es).Perm ((k, v) :: es) := by
    intro es
    induction es with
    | nil => exact fun _ => List.Perm.refl _
    | cons e es ih =>
        intro hnone
        have hne : k ≠ e.1 := by
          rintro rfl
          rw [lookup_cons_self] at hnone
          cases hnone
        rw [lookup_cons_of_ne hne] at hnone
        unfold insertEntry
        by_cases hlt : k < e.1
        · rw [if_pos hlt]
        · rw [if_neg hlt, if_neg hne]
          exact ((ih hnone).cons e).trans (List.Perm.swap _ _ _)
  exact hperm h

/-- A binding behind all others is appended to the entries. -/
theorem entries_insert_beyond {d : Directory K V} {k : K} (h : ∀ j ∈ d.keys, j < k) (v : V) :
    (d.insert k v).entries = d.entries ++ [(k, v)] := by
  have general : ∀ es : List (K × V), (∀ e ∈ es, e.1 < k) → insertEntry k v es = es ++ [(k, v)] := by
    intro es
    induction es with
    | nil => intro _; rfl
    | cons e es ih =>
        intro hlt
        have he := hlt e List.mem_cons_self
        rw [insertEntry, if_neg (lt_asymm he), if_neg (ne_of_gt he),
          ih fun f hf => hlt f (List.mem_cons_of_mem e hf)]
        rfl
  exact general d.entries fun e he => h e.1 (List.mem_map_of_mem he)

/-- Rewriting the last binding changes the last entry only. -/
theorem entries_insert_last {d : Directory K V} {init : List (K × V)} {k : K} {w : V}
    (h : d.entries = init ++ [(k, w)]) (v : V) : (d.insert k v).entries = init ++ [(k, v)] := by
  have general : ∀ es : List (K × V), (∀ e ∈ es, e.1 < k) →
      insertEntry k v (es ++ [(k, w)]) = es ++ [(k, v)] := by
    intro es
    induction es with
    | nil =>
        intro _
        rw [List.nil_append, insertEntry, if_neg (lt_irrefl k), if_pos rfl]
        rfl
    | cons e es ih =>
        intro hlt
        have he := hlt e List.mem_cons_self
        rw [List.cons_append, insertEntry, if_neg (lt_asymm he), if_neg (ne_of_gt he),
          ih fun f hf => hlt f (List.mem_cons_of_mem e hf)]
        rfl
  have hsorted := d.sorted
  rw [h, List.pairwise_append] at hsorted
  show insertEntry k v d.entries = _
  rw [h]
  exact general init fun e he => hsorted.2.2 e he (k, w) (List.mem_singleton_self _)

/-- The sum of a weight over all entries. -/
def total (weight : K → V → ℕ) (d : Directory K V) : ℕ :=
  (d.entries.map fun e => weight e.1 e.2).sum

theorem sum_insertEntry (weight : K → V → ℕ) {k : K} {v : V} :
    ∀ {es : List (K × V)}, es.Pairwise (fun a b => a.1 < b.1) →
      ((insertEntry k v es).map fun e => weight e.1 e.2).sum +
          ((es.lookup k).elim 0 (weight k)) =
        (es.map fun e => weight e.1 e.2).sum + weight k v := by
  intro es
  induction es with
  | nil => intro _; simp [insertEntry]
  | cons e es ih =>
      intro hes
      obtain ⟨hhead, htail⟩ := List.pairwise_cons.1 hes
      unfold insertEntry
      split
      · rename_i hlt
        have habsent : (e :: es).lookup k = none := by
          refine lookup_eq_none_of_lt fun f hf => ?_
          rcases List.mem_cons.1 hf with rfl | hf
          · exact hlt
          · exact hlt.trans (hhead f hf)
        rw [habsent]
        simp only [List.map_cons, List.sum_cons, Option.elim]
        omega
      · split
        · rename_i heq
          rw [heq, List.lookup_cons, beq_self_eq_true]
          simp only [List.map_cons, List.sum_cons, Option.elim]
          omega
        · rename_i hne
          rw [lookup_cons_of_ne hne]
          have := ih htail
          simp only [List.map_cons, List.sum_cons]
          omega

/-- The total after a write: the old value's weight is exchanged for the new one's. -/
theorem total_insert (weight : K → V → ℕ) (d : Directory K V) (k : K) (v : V) :
    (d.insert k v).total weight + (d.find? k).elim 0 (weight k) =
      d.total weight + weight k v :=
  sum_insertEntry weight d.sorted

theorem sum_filter_key (weight : K → V → ℕ) {k : K} :
    ∀ {es : List (K × V)}, es.Pairwise (fun a b => a.1 < b.1) →
      ((es.filter fun e => decide (e.1 ≠ k)).map fun e => weight e.1 e.2).sum +
          ((es.lookup k).elim 0 (weight k)) =
        (es.map fun e => weight e.1 e.2).sum := by
  intro es
  induction es with
  | nil =>
      intro _
      rfl
  | cons e es ih =>
      intro h
      obtain ⟨hhead, htail⟩ := List.pairwise_cons.1 h
      by_cases hk : e.1 = k
      · have hfilter : (es.filter fun f => decide (f.1 ≠ k)) = es := by
          refine List.filter_eq_self.2 fun f hf => decide_eq_true fun hfk => ?_
          have hlt := hhead f hf
          rw [hk, hfk] at hlt
          exact lt_irrefl k hlt
        rw [← hk] at hfilter ⊢
        rw [List.filter_cons_of_neg (by simp), hfilter, lookup_cons_self]
        simp only [List.map_cons, List.sum_cons, Option.elim]
        exact Nat.add_comm _ _
      · rw [List.filter_cons_of_pos (by simpa using hk), lookup_cons_of_ne fun h => hk h.symm]
        have := ih htail
        simp only [List.map_cons, List.sum_cons]
        omega

/-- The total after a removal. -/
theorem total_erase (weight : K → V → ℕ) (d : Directory K V) (k : K) :
    (d.erase k).total weight + (d.find? k).elim 0 (weight k) = d.total weight :=
  sum_filter_key weight d.sorted

/-- One binding weighs at most the total. -/
theorem weight_le_total (weight : K → V → ℕ) {d : Directory K V} {k : K} {v : V}
    (h : d.find? k = some v) : weight k v ≤ d.total weight := by
  have herase := total_erase weight d k
  rw [h] at herase
  change _ + weight k v = _ at herase
  omega

/-- The number of entries. -/
def size (d : Directory K V) : ℕ := d.entries.length

theorem size_eq_total (d : Directory K V) : d.size = d.total fun _ _ => 1 := by
  simp [size, total]

theorem size_keys (d : Directory K V) : d.keys.length = d.size := by simp [keys, size]

theorem size_insert_new {d : Directory K V} {k : K} (h : d.find? k = none) (v : V) :
    (d.insert k v).size = d.size + 1 := by
  have := total_insert (fun _ _ => 1) d k v
  rw [h, ← size_eq_total, ← size_eq_total] at this
  simpa using this

theorem size_insert_old {d : Directory K V} {k : K} {w : V} (h : d.find? k = some w) (v : V) :
    (d.insert k v).size = d.size := by
  have := total_insert (fun _ _ => 1) d k v
  rw [h, ← size_eq_total, ← size_eq_total] at this
  simpa using this

/-- Rewriting a bound key keeps the listing. -/
theorem keys_insert_old {d : Directory K V} {k : K} {w : V} (h : d.find? k = some w) (v : V) :
    (d.insert k v).keys = d.keys := by
  refine List.Perm.eq_of_pairwise (fun a b _ _ hab hba => absurd hab (lt_asymm hba))
    (d.insert k v).keys_sorted d.keys_sorted ?_
  refine (List.perm_ext_iff_of_nodup ((d.insert k v).keys_sorted.imp ne_of_lt)
    (d.keys_sorted.imp ne_of_lt)).2 fun j => ?_
  rw [mem_keys_insert]
  refine ⟨fun hj => hj.elim (fun e => ?_) id, Or.inr⟩
  rw [e, mem_keys, h]
  rfl

end Directory

end StaticHostAgent.Library
