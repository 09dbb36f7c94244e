import StaticHostAgent.Isolation.Journal
import Mathlib.Data.List.ReduceOption

/-!
# Publication keeps the journal readable, as long as there is room

`Readable` says when a listing is accepted, and with which records. A publication adds at most one
item, so the journal stays readable when the writer's checks imply the reader's. They do for the
schema, the cross-record check and the title. They do not for the bounds of the reader: a writer
posts a fact on top of a full journal or a full vault, and nobody can read the journal from then on.
-/

set_option autoImplicit false

namespace StaticHostAgent.Isolation

open Library Contracts

variable {h : IsolationHost} {m : Manifest}

/-! ## The records of a listing -/

variable (h) in
/-- The records found, by their digests; a later one replaces an earlier one. -/
def journalOf (values : List (Option Record)) : Directory String Record :=
  values.foldl (addRecord h) Directory.empty

/-- The records of a result in the order of their digests. -/
def recordsIn (result : Directory String Record) : List Record := result.entries.map Prod.snd

variable (h) in
/-- Different records have different digests. -/
def CollisionFree (records : List Record) : Prop :=
  ∀ r ∈ records, ∀ r' ∈ records, h.digest (.record r) = h.digest (.record r') → r = r'

variable {values values' : List (Option Record)} {record : Record}

theorem mem_reduceOption : record ∈ values.reduceOption ↔ some record ∈ values :=
  List.reduceOption_mem_iff

theorem journalOf_concat (values : List (Option Record)) (value : Option Record) :
    journalOf h (values ++ [value]) = addRecord h (journalOf h values) value := by
  unfold journalOf
  rw [List.foldl_append]
  rfl

/-- What the result holds was found, under its digest. -/
theorem find?_journalOf {k : String} (hfound : (journalOf h values).find? k = some record) :
    some record ∈ values ∧ h.digest (.record record) = k := by
  induction values using List.reverseRecOn with
  | nil => cases hfound
  | append_singleton values value ih =>
      rw [journalOf_concat] at hfound
      cases value with
      | none =>
          obtain ⟨hmem, hkey⟩ := ih hfound
          exact ⟨List.mem_append_left _ hmem, hkey⟩
      | some last =>
          by_cases hkey : k = h.digest (.record last)
          · subst hkey
            have hlast : last = record :=
              Option.some.inj ((Directory.find?_insert_self _ _ _).symm.trans hfound)
            rw [← hlast]
            exact ⟨List.mem_append_right _ (List.mem_singleton_self _), rfl⟩
          · have hearlier := (Directory.find?_insert_of_ne _ hkey _).symm.trans hfound
            obtain ⟨hmem, hdigest⟩ := ih hearlier
            exact ⟨List.mem_append_left _ hmem, hdigest⟩

/-- The last record is in the result. -/
theorem find?_journalOf_last (values : List (Option Record)) (record : Record) :
    (journalOf h (values ++ [some record])).find? (h.digest (.record record)) = some record := by
  rw [journalOf_concat]
  exact Directory.find?_insert_self _ _ _

/-- Every digest that was found is in the result. -/
theorem find?_journalOf_isSome (hmem : some record ∈ values) :
    ((journalOf h values).find? (h.digest (.record record))).isSome = true := by
  induction values using List.reverseRecOn with
  | nil => cases hmem
  | append_singleton values value ih =>
      rw [journalOf_concat]
      cases value with
      | none =>
          rcases List.mem_append.1 hmem with hmem | hmem
          · exact ih hmem
          · cases List.mem_singleton.1 hmem
      | some last =>
          by_cases hkey : h.digest (.record record) = h.digest (.record last)
          · rw [hkey]
            show ((Directory.insert _ _ _).find? _).isSome = true
            rw [Directory.find?_insert_self]
            rfl
          · show ((Directory.insert _ _ _).find? _).isSome = true
            rw [Directory.find?_insert_of_ne _ hkey]
            rcases List.mem_append.1 hmem with hmem | hmem
            · exact ih hmem
            · cases List.mem_singleton.1 hmem
              exact absurd rfl hkey

theorem mem_recordsIn :
    record ∈ recordsIn (journalOf h values) ↔
      (journalOf h values).find? (h.digest (.record record)) = some record := by
  unfold recordsIn
  rw [List.mem_map]
  constructor
  · rintro ⟨⟨k, _⟩, hentry, rfl⟩
    have hfound := Directory.mem_entries.1 hentry
    rw [(find?_journalOf hfound).2]
    exact hfound
  · intro hfound
    exact ⟨_, Directory.mem_entries.2 hfound, rfl⟩

/-- The records of one result have different digests. -/
theorem recordsIn_collisionFree : CollisionFree h (recordsIn (journalOf h values)) := by
  intro r hr r' hr' hdigest
  have hfound := mem_recordsIn.1 hr
  rw [hdigest, mem_recordsIn.1 hr'] at hfound
  exact (Option.some.inj hfound).symm

/-- Without collisions, the result holds exactly what was found. -/
theorem find?_journalOf_iff (hfree : CollisionFree h values.reduceOption) {k : String} :
    (journalOf h values).find? k = some record ↔
      some record ∈ values ∧ h.digest (.record record) = k := by
  constructor
  · exact find?_journalOf
  · rintro ⟨hmem, rfl⟩
    obtain ⟨other, hother⟩ := Option.isSome_iff_exists.1 (find?_journalOf_isSome hmem)
    obtain ⟨hmem', hdigest⟩ := find?_journalOf hother
    rw [hother, hfree other (mem_reduceOption.2 hmem') record
      (mem_reduceOption.2 hmem) hdigest]

/-- Without collisions, the result depends on the set of records only. -/
theorem journalOf_congr (hfree : CollisionFree h values.reduceOption)
    (hsame : ∀ r, some r ∈ values ↔ some r ∈ values') : journalOf h values = journalOf h values' := by
  have hfree' : CollisionFree h values'.reduceOption := by
    intro r hr r' hr'
    rw [mem_reduceOption] at hr hr'
    exact hfree r (mem_reduceOption.2 ((hsame r).2 hr)) r'
      (mem_reduceOption.2 ((hsame r').2 hr'))
  refine Directory.ext_find? fun k => ?_
  apply Option.ext
  intro r
  rw [find?_journalOf_iff hfree, find?_journalOf_iff hfree', hsame r]

theorem size_le_addRecord (result : Directory String Record) (value : Option Record) :
    result.size ≤ (addRecord h result value).size := by
  cases value with
  | none => exact Nat.le_refl _
  | some record =>
      show result.size ≤ (result.insert _ record).size
      cases hfound : result.find? (h.digest (.record record)) with
      | none =>
          rw [Directory.size_insert_new hfound]
          exact Nat.le_succ _
      | some old => exact (Directory.size_insert_old hfound record).ge

/-! ## Accepted listings -/

/-- The listing is accepted and these are the records of its rows. -/
structure Readable (h : IsolationHost) (m : Manifest) (items : List Item) (listing : List Listed)
    (values : List (Option Record)) : Prop where
  complete : listing.length ≤ maxItems
  identities : ∀ row ∈ listing, isConnectIdentity row.id = true
  distinct : (listing.map Listed.id).Nodup
  rows : listing.mapM (rowRecord h m items) = .ok values
  bounded : (journalOf h values).size ≤ maxRecords
  bound : collect h m (recordsIn (journalOf h values)) = .ok (recordsIn (journalOf h values))

/-- Where a listing is left after its rows. -/
theorem collectRows_eq_ok {items : List Item} {listing : List Listed} {state : Listing} :
    listing.foldlM (collectRow h m items) ⟨[], Directory.empty⟩ = .ok state ↔
      (∀ row ∈ listing, isConnectIdentity row.id = true) ∧ (listing.map Listed.id).Nodup ∧
        ∃ values, listing.mapM (rowRecord h m items) = .ok values ∧
          (journalOf h values).size ≤ maxRecords ∧
          state = ⟨(listing.map Listed.id).reverse, journalOf h values⟩ := by
  -- the accumulator is a left fold, so the induction takes the last row off
  induction listing using List.reverseRecOn generalizing state with
  | nil =>
      rw [List.foldlM_nil, pure_eq_ok]
      constructor
      · rintro rfl
        exact ⟨nofun, List.nodup_nil, [], rfl, Nat.zero_le _, rfl⟩
      · rintro ⟨-, -, values, hvalues, -, rfl⟩
        cases hvalues
        rfl
  | append_singleton listing row ih =>
      rw [foldlM_append_eq_ok]
      simp only [ih, foldlM_singleton, List.map_append, List.map_singleton, mapM_concat_eq_ok]
      constructor
      · rintro ⟨before, ⟨hids, hnodup, values, hvalues, hsize, rfl⟩, hrow⟩
        obtain ⟨_, hid, hrow⟩ := bind_eq_ok.1 hrow
        obtain ⟨_, hfresh, hrow⟩ := bind_eq_ok.1 hrow
        obtain ⟨found, hfound, hrow⟩ := bind_eq_ok.1 hrow
        obtain ⟨_, hbounded, hstate⟩ := bind_eq_ok.1 hrow
        have hnew : row.id ∉ listing.map Listed.id := by
          have hseen := require_eq_ok.1 hfresh
          rw [Bool.not_eq_true', ← Bool.not_eq_true, List.contains_iff_mem,
            List.mem_reverse] at hseen
          exact hseen
        refine ⟨?_, ?_, values ++ [found], ⟨values, found, hvalues, hfound, rfl⟩, ?_, ?_⟩
        · intro other hother
          rcases List.mem_append.1 hother with hother | hother
          · exact hids other hother
          · rw [List.mem_singleton.1 hother]
            exact require_eq_ok.1 hid
        · exact List.nodup_append'.2 ⟨hnodup, List.nodup_singleton _,
            List.disjoint_singleton.2 hnew⟩
        · rw [journalOf_concat]
          cases found with
          | none => exact hsize
          | some record => exact of_decide_eq_true (require_eq_ok.1 hbounded)
        · rw [journalOf_concat, List.reverse_append]
          exact (Except.ok.inj hstate).symm
      · rintro ⟨hids, hnodup, all, ⟨values, found, hvalues, hfound, rfl⟩, hsize, rfl⟩
        obtain ⟨hbefore, _, hnew⟩ := List.nodup_append'.1 hnodup
        rw [journalOf_concat] at hsize
        refine ⟨⟨(listing.map Listed.id).reverse, journalOf h values⟩, ⟨?_, hbefore, values, hvalues,
          Nat.le_trans (size_le_addRecord _ found) hsize, rfl⟩, ?_⟩
        · exact fun other hother => hids other (List.mem_append_left _ hother)
        · refine bind_eq_ok.2 ⟨(), ?_, bind_eq_ok.2 ⟨(), ?_, bind_eq_ok.2 ⟨found, hfound,
            bind_eq_ok.2 ⟨(), ?_, ?_⟩⟩⟩⟩
          · exact require_eq_ok.2 (hids row (List.mem_append_right _ (List.mem_singleton_self _)))
          · apply require_eq_ok.2
            rw [Bool.not_eq_true', ← Bool.not_eq_true, List.contains_iff_mem, List.mem_reverse]
            exact List.disjoint_singleton.1 hnew
          · exact checkIf_eq_ok.2 fun _ => require_eq_ok.2 (decide_eq_true hsize)
          · rw [journalOf_concat, List.reverse_append]
            rfl

/-- A listing is accepted exactly if it is readable, and its records are returned. -/
theorem allRecords_eq_ok {items : List Item} {listing : List Listed} {facts : List Record} :
    allRecords h m listing items = .ok facts ↔
      ∃ values, Readable h m items listing values ∧ facts = recordsIn (journalOf h values) := by
  unfold allRecords
  rw [bind_eq_ok]
  constructor
  · rintro ⟨_, hcomplete, hrest⟩
    obtain ⟨state, hstate, hcollect⟩ := bind_eq_ok.1 hrest
    obtain ⟨hids, hnodup, values, hvalues, hsize, rfl⟩ := collectRows_eq_ok.1 hstate
    have hfacts : facts = recordsIn (journalOf h values) := collect_eq_ok hcollect
    subst hfacts
    exact ⟨values, ⟨of_decide_eq_true (require_eq_ok.1 hcomplete), hids, hnodup, hvalues, hsize,
      hcollect⟩, rfl⟩
  · rintro ⟨values, hr, rfl⟩
    refine ⟨(), require_eq_ok.2 (decide_eq_true hr.complete), bind_eq_ok.2
      ⟨⟨(listing.map Listed.id).reverse, journalOf h values⟩, ?_, hr.bound⟩⟩
    exact collectRows_eq_ok.2 ⟨hr.identities, hr.distinct, values, hr.rows, hr.bounded, rfl⟩

/-! ## The order of a listing -/

variable {items : List Item} {listing listing' : List Listed} {facts : List Record}

/-- Without collisions, a readable listing is readable in every order, with the same result. -/
theorem Readable.perm (hr : Readable h m items listing values)
    (hfree : CollisionFree h values.reduceOption) (hperm : listing.Perm listing') :
    ∃ values', Readable h m items listing' values' ∧ journalOf h values' = journalOf h values := by
  obtain ⟨values', hrows, hvalues⟩ := mapM_perm hperm hr.rows
  have hsame : journalOf h values = journalOf h values' :=
    journalOf_congr hfree fun r => hvalues.mem_iff
  refine ⟨values', ⟨?_, ?_, ?_, hrows, ?_, ?_⟩, hsame.symm⟩
  · rw [← hperm.length_eq]
    exact hr.complete
  · exact fun row hrow => hr.identities row (hperm.mem_iff.2 hrow)
  · exact (hperm.map _).nodup_iff.1 hr.distinct
  · rw [← hsame]
    exact hr.bounded
  · rw [← hsame]
    exact hr.bound

/-- A record of a row is in the result of the listing that ends with this row. -/
theorem mem_of_last {row : Listed}
    (hlast : allRecords h m (listing ++ [row]) items = .ok facts)
    (hrow : rowRecord h m items row = .ok (some record)) : record ∈ facts := by
  obtain ⟨values, hr, rfl⟩ := allRecords_eq_ok.1 hlast
  obtain ⟨before, found, _, hfound, rfl⟩ := mapM_concat_eq_ok.1 hr.rows
  rw [hrow] at hfound
  cases hfound
  exact mem_recordsIn.2 (find?_journalOf_last before record)

/-- The row of a record that was found. -/
theorem row_of_mem (hrows : listing.mapM (rowRecord h m items) = .ok values)
    {found : Option Record} (hmem : found ∈ values) :
    ∃ row ∈ listing, rowRecord h m items row = .ok found := by
  have hall := mapM_eq_ok_iff.1 hrows
  induction hall with
  | nil => cases hmem
  | @cons row value listing values hrow _ ih =>
      rcases List.mem_cons.1 hmem with rfl | hmem
      · exact ⟨row, List.mem_cons_self, hrow⟩
      · obtain ⟨other, hother, hfound⟩ := ih (mapM_eq_ok_iff.2 ‹_›) hmem
        exact ⟨other, List.mem_cons_of_mem _ hother, hfound⟩

theorem found_of_row {row : Listed} (hrows : listing.mapM (rowRecord h m items) = .ok values)
    (hrow : row ∈ listing) : ∃ found ∈ values, rowRecord h m items row = .ok found := by
  have hall := mapM_eq_ok_iff.1 hrows
  clear hrows
  induction hall with
  | nil => cases hrow
  | @cons other value listing values hvalue _ ih =>
      rcases List.mem_cons.1 hrow with rfl | hrow
      · exact ⟨value, List.mem_cons_self, hvalue⟩
      · obtain ⟨found, hmem, hfound⟩ := ih hrow
        exact ⟨found, List.mem_cons_of_mem _ hmem, hfound⟩

/-- A listing whose result does not depend on its order holds every record that it lists. -/
theorem mem_of_every_order (hr : Readable h m items listing values)
    (hevery : ∀ listing', listing'.Perm listing → allRecords h m listing' items = .ok facts)
    (hmem : some record ∈ values) : record ∈ facts := by
  obtain ⟨row, hrow, hfound⟩ := row_of_mem hr.rows hmem
  obtain ⟨before, after, rfl⟩ := List.append_of_mem hrow
  refine mem_of_last (hevery ((before ++ after) ++ [row]) ?_) hfound
  rw [List.append_assoc]
  have hswap : (after ++ [row]).Perm ([row] ++ after) := List.perm_append_comm
  exact hswap.append_left before

theorem collisionFree_of_every_order (hr : Readable h m items listing values)
    (hevery : ∀ listing', listing'.Perm listing → allRecords h m listing' items = .ok facts) :
    CollisionFree h values.reduceOption := by
  obtain ⟨_, _, rfl⟩ := allRecords_eq_ok.1 (hevery listing (List.Perm.refl _))
  intro r hrecord r' hrecord' hdigest
  rw [mem_reduceOption] at hrecord hrecord'
  exact recordsIn_collisionFree r (mem_of_every_order hr hevery hrecord) r'
    (mem_of_every_order hr hevery hrecord') hdigest

variable (h m) in
/-- The records that the rows of a listing lead to. -/
def listedRecords (items : List Item) (listing : List Listed) : List Record :=
  listing.filterMap fun row =>
    match rowRecord h m items row with
    | .ok found => found
    | .error _ => none

theorem listedRecords_eq (hrows : listing.mapM (rowRecord h m items) = .ok values) :
    listedRecords h m items listing = values.reduceOption := by
  have hall := mapM_eq_ok_iff.1 hrows
  clear hrows
  induction hall with
  | nil => rfl
  | @cons row value listing values hrow _ ih =>
      unfold listedRecords at ih ⊢
      rw [List.filterMap_cons, hrow]
      cases value with
      | none => exact ih
      | some record =>
          rw [List.reduceOption_cons_of_some]
          exact congrArg _ ih

/-- The result is independent of the order exactly if no two listed records collide. -/
theorem allRecords_order (hread : allRecords h m listing items = .ok facts) :
    (∀ listing', listing'.Perm listing → allRecords h m listing' items = .ok facts) ↔
      CollisionFree h (listedRecords h m items listing) := by
  obtain ⟨values, hr, rfl⟩ := allRecords_eq_ok.1 hread
  rw [listedRecords_eq hr.rows]
  constructor
  · exact collisionFree_of_every_order hr
  · intro hfree listing' hperm
    obtain ⟨values', hr', hsame⟩ := hr.perm hfree hperm.symm
    exact allRecords_eq_ok.2 ⟨values', hr', by rw [hsame]⟩

/-! ## Accepted vaults -/

variable (h m) in
/-- The vault is read as these facts, in whatever order it is listed. -/
def Accepts (items : List Item) (facts : List Record) : Prop :=
  ∀ listing, listing.Perm (items.map Item.listed) → allRecords h m listing items = .ok facts

/-- What an accepted vault gives on its own order. -/
theorem Accepts.readable (hacc : Accepts h m items facts) :
    ∃ values, Readable h m items (items.map Item.listed) values ∧
      facts = recordsIn (journalOf h values) ∧ CollisionFree h values.reduceOption := by
  obtain ⟨values, hr, hfacts⟩ := allRecords_eq_ok.1 (hacc _ (List.Perm.refl _))
  exact ⟨values, hr, hfacts, collisionFree_of_every_order hr fun listing hperm => hacc listing hperm⟩

theorem accepts_iff : Accepts h m items facts ↔
    ∃ values, Readable h m items (items.map Item.listed) values ∧
      facts = recordsIn (journalOf h values) ∧ CollisionFree h values.reduceOption := by
  constructor
  · exact Accepts.readable
  · rintro ⟨values, hr, rfl, hfree⟩ listing hperm
    obtain ⟨values', hr', hsame⟩ := hr.perm hfree hperm.symm
    exact allRecords_eq_ok.2 ⟨values', hr', by rw [hsame]⟩

/-- In an accepted vault, the facts are the records that are listed. -/
theorem mem_facts_iff (hfree : CollisionFree h values.reduceOption) :
    record ∈ recordsIn (journalOf h values) ↔ some record ∈ values := by
  rw [mem_recordsIn, find?_journalOf_iff hfree]
  exact and_iff_left rfl

/-! ## One more item -/

variable {new : Item} {found : Option Record}

theorem find?_append_old {id : String} (hid : id ∈ items.map Item.id) :
    (items ++ [new]).find? (fun item => item.id == id) = items.find? fun item => item.id == id := by
  rw [List.find?_append]
  obtain ⟨item, hitem, rfl⟩ := List.mem_map.1 hid
  have hfound : (items.find? fun other => other.id == item.id).isSome = true :=
    List.find?_isSome.2 ⟨item, hitem, beq_self_eq_true _⟩
  obtain ⟨other, hother⟩ := Option.isSome_iff_exists.1 hfound
  rw [hother]
  rfl

variable (new) in
theorem find?_append_new (hfresh : new.id ∉ items.map Item.id) :
    (items ++ [new]).find? (fun item => item.id == new.id) = some new := by
  have hnone : (items.find? fun item => item.id == new.id) = none := by
    refine List.find?_eq_none.2 fun item hitem heq => hfresh ?_
    exact List.mem_map.2 ⟨item, hitem, eq_of_beq heq⟩
  rw [List.find?_append, hnone, List.find?_singleton, beq_self_eq_true]
  rfl

/-- The rows of the items that were there are read as before. -/
theorem rowRecord_append {row : Listed} (hrow : row ∈ items.map Item.listed) :
    rowRecord h m (items ++ [new]) row = rowRecord h m items row := by
  have hid : row.id ∈ items.map Item.id := by
    obtain ⟨item, hitem, rfl⟩ := List.mem_map.1 hrow
    exact List.mem_map.2 ⟨item, hitem, rfl⟩
  unfold rowRecord read
  rw [find?_append_old hid]

theorem mapM_rowRecord_append :
    (items.map Item.listed).mapM (rowRecord h m (items ++ [new])) =
      (items.map Item.listed).mapM (rowRecord h m items) := by
  have hcongr : ∀ rows : List Listed, (∀ row ∈ rows, row ∈ items.map Item.listed) →
      rows.mapM (rowRecord h m (items ++ [new])) = rows.mapM (rowRecord h m items) := by
    intro rows
    induction rows with
    | nil => exact fun _ => rfl
    | cons row rows ih =>
        intro hrows
        rw [List.mapM_cons, List.mapM_cons, rowRecord_append (hrows row List.mem_cons_self),
          ih fun other hother => hrows other (List.mem_cons_of_mem row hother)]
  exact hcongr _ fun _ hrow => hrow

/-- The vault with one more item is readable exactly if the bounds and the cross-record check
admit what the item adds. -/
theorem readable_append_iff (hr : Readable h m items (items.map Item.listed) values)
    (hid : isConnectIdentity new.id = true) (hfresh : new.id ∉ items.map Item.id)
    (hfound : rowRecord h m (items ++ [new]) new.listed = .ok found) (all : List (Option Record)) :
    Readable h m (items ++ [new]) ((items ++ [new]).map Item.listed) all ↔
      all = values ++ [found] ∧ items.length < maxItems ∧
        (addRecord h (journalOf h values) found).size ≤ maxRecords ∧
        collect h m (recordsIn (addRecord h (journalOf h values) found)) =
          .ok (recordsIn (addRecord h (journalOf h values) found)) := by
  have hlisting : (items ++ [new]).map Item.listed = items.map Item.listed ++ [new.listed] := by
    rw [List.map_append, List.map_singleton]
  have hids : (items.map Item.listed).map Listed.id = items.map Item.id := by
    rw [List.map_map]
    rfl
  have hlength : (items.map Item.listed ++ [new.listed]).length = items.length + 1 := by
    rw [List.length_append, List.length_map, List.length_singleton]
  have hrows : (items.map Item.listed ++ [new.listed]).mapM (rowRecord h m (items ++ [new])) =
      .ok all ↔ all = values ++ [found] := by
    rw [mapM_concat_eq_ok, mapM_rowRecord_append, hr.rows, hfound]
    constructor
    · rintro ⟨_, _, hvalues, hlast, rfl⟩
      cases hvalues
      cases hlast
      rfl
    · rintro rfl
      exact ⟨_, _, rfl, rfl, rfl⟩
  rw [hlisting, ← journalOf_concat]
  constructor
  · intro hr'
    obtain rfl := hrows.1 hr'.rows
    have hcomplete := hr'.complete
    rw [hlength] at hcomplete
    exact ⟨rfl, hcomplete, hr'.bounded, hr'.bound⟩
  · rintro ⟨rfl, hroom, hsize, hcollect⟩
    refine ⟨?_, ?_, ?_, hrows.2 rfl, hsize, hcollect⟩
    · rw [hlength]
      exact hroom
    · intro row hrow
      rcases List.mem_append.1 hrow with hrow | hrow
      · exact hr.identities row hrow
      · rw [List.mem_singleton.1 hrow]
        exact hid
    · rw [List.map_append, hids, List.map_singleton]
      exact List.nodup_append'.2 ⟨hids ▸ hr.distinct, List.nodup_singleton _,
        List.disjoint_singleton.2 hfresh⟩

/-- An identity of an item is an identity of a row. -/
theorem isConnectIdentity_of_item {id : String} (hid : isItemIdentity id = true) :
    isConnectIdentity id = true := by
  obtain ⟨hlength, hclass⟩ := fullmatch_replicate.1 hid
  refine fullmatch_replicate.2 ⟨hlength, fun c hc => ?_⟩
  have hc := hclass c hc
  rw [Bool.or_eq_true] at hc
  unfold Char.isAlphanum Char.isAlpha
  rcases hc with hlower | hdigit
  · rw [hlower, Bool.or_true, Bool.true_or]
  · rw [hdigit, Bool.or_true]

theorem inNamespace_title (record : Record) : inNamespace m (title h m record) = true := by
  unfold inNamespace title
  rw [List.isPrefixOf_iff_prefix, String.toList_append]
  exact List.prefix_append _ _

/-- A posted item reads back as its record. -/
theorem rowRecord_post {id : String} (hvalid : validate h record m = .ok ())
    (hid : isItemIdentity id = true) (hfresh : id ∉ items.map Item.id) :
    rowRecord h m (items ++ [itemOf h m record id]) (itemOf h m record id).listed =
      .ok (some record) := by
  have hread : readItem h m (itemOf h m record id) = .ok record := by
    unfold readItem
    refine bind_eq_ok.2 ⟨(), rfl, bind_eq_ok.2 ⟨(), hvalid, bind_eq_ok.2 ⟨(), ?_, rfl⟩⟩⟩
    exact require_eq_ok.2 (decide_eq_true rfl)
  have hfind : (items ++ [itemOf h m record id]).find? (fun item => item.id == id) =
      some (itemOf h m record id) := find?_append_new (itemOf h m record id) hfresh
  have htitle : inNamespace m (itemOf h m record id).listed.title = true := inNamespace_title record
  unfold rowRecord
  rw [if_pos htitle]
  refine bind_eq_ok.2 ⟨(), require_eq_ok.2 (decide_eq_true rfl), bind_eq_ok.2 ⟨record, ?_, ?_⟩⟩
  · show read h m (items ++ [itemOf h m record id]) id = .ok record
    refine bind_eq_ok.2 ⟨(), require_eq_ok.2 hid, ?_⟩
    rw [hfind]
    exact hread
  · exact bind_eq_ok.2 ⟨(), require_eq_ok.2 (decide_eq_true rfl), rfl⟩

/-! ## Room for one more fact -/

/-- The vault and the journal have room, and no other fact has the digest of the new one. -/
structure Room (h : IsolationHost) (items : List Item) (facts : List Record) (record : Record) :
    Prop where
  vault : items.length < maxItems
  journal : facts.length < maxRecords
  digest : ∀ r ∈ facts, h.digest (.record r) ≠ h.digest (.record record)

theorem find?_of_digest (hdigest : ∀ r ∈ recordsIn (journalOf h values),
    h.digest (.record r) ≠ h.digest (.record record)) :
    (journalOf h values).find? (h.digest (.record record)) = none := by
  cases hfound : (journalOf h values).find? (h.digest (.record record)) with
  | none => rfl
  | some other =>
      have hkey := (find?_journalOf hfound).2
      refine absurd hkey (hdigest other (mem_recordsIn.2 ?_))
      rw [hkey]
      exact hfound

/-- A new digest adds exactly its record. -/
theorem recordsIn_insert (hnone : (journalOf h values).find? (h.digest (.record record)) = none) :
    (recordsIn (addRecord h (journalOf h values) (some record))).Perm
      (recordsIn (journalOf h values) ++ [record]) := by
  have hentries := (Directory.entries_insert_perm hnone record).map Prod.snd
  have hswap : ([record] ++ recordsIn (journalOf h values)).Perm
      (recordsIn (journalOf h values) ++ [record]) := List.perm_append_comm
  exact hentries.trans hswap

theorem length_recordsIn (result : Directory String Record) :
    (recordsIn result).length = result.size := List.length_map _

/-- With room, the vault after the POST is read as the facts and the new one. -/
theorem Accepts.post (hacc : Accepts h m items facts) (hvalid : validate h record m = .ok ())
    (hcollect : collect h m (facts ++ [record]) = .ok (facts ++ [record])) {id : String}
    (hid : isItemIdentity id = true) (hfresh : id ∉ items.map Item.id)
    (room : Room h items facts record) :
    ∃ facts', facts'.Perm (facts ++ [record]) ∧
      Accepts h m (items ++ [itemOf h m record id]) facts' := by
  obtain ⟨values, hr, rfl, hfree⟩ := hacc.readable
  have hnone := find?_of_digest room.digest
  have hperm := recordsIn_insert hnone
  refine ⟨recordsIn (addRecord h (journalOf h values) (some record)), hperm, accepts_iff.2
    ⟨values ++ [some record], ?_, by rw [journalOf_concat], ?_⟩⟩
  · refine (readable_append_iff hr (isConnectIdentity_of_item hid) hfresh
      (rowRecord_post hvalid hid hfresh) _).2
      ⟨rfl, room.vault, ?_, collect_perm hperm.symm hcollect⟩
    rw [← length_recordsIn, hperm.length_eq, List.length_append, List.length_singleton]
    exact room.journal
  · -- the old records do not collide with one another, nor with the new one
    intro r hrecord r' hrecord' hdigest
    rw [mem_reduceOption, List.mem_append, List.mem_singleton] at hrecord hrecord'
    rcases hrecord with hrecord | hrecord <;> rcases hrecord' with hrecord' | hrecord'
    · exact hfree r (mem_reduceOption.2 hrecord) r' (mem_reduceOption.2 hrecord') hdigest
    · cases hrecord'
      exact absurd hdigest (room.digest r ((mem_facts_iff hfree).2 hrecord))
    · cases hrecord
      exact absurd hdigest.symm (room.digest r' ((mem_facts_iff hfree).2 hrecord'))
    · cases hrecord
      cases hrecord'
      rfl

/-- If the vault after the POST is still read, there was room. -/
theorem Accepts.room (hacc : Accepts h m items facts) (hvalid : validate h record m = .ok ())
    (hnew : record ∉ facts) {id : String} (hid : isItemIdentity id = true)
    (hfresh : id ∉ items.map Item.id) {facts' : List Record}
    (hacc' : Accepts h m (items ++ [itemOf h m record id]) facts') : Room h items facts record := by
  obtain ⟨values, hr, rfl, hfree⟩ := hacc.readable
  obtain ⟨all, hr', _, hfree'⟩ := hacc'.readable
  obtain ⟨rfl, hroom, hsize, _⟩ :=
    (readable_append_iff hr (isConnectIdentity_of_item hid) hfresh
      (rowRecord_post hvalid hid hfresh) _).1 hr'
  have hdigest : ∀ r ∈ recordsIn (journalOf h values),
      h.digest (.record r) ≠ h.digest (.record record) := by
    intro r hrecord heq
    have hold : r ∈ (values ++ [some record]).reduceOption :=
      mem_reduceOption.2 (List.mem_append_left _ ((mem_facts_iff hfree).1 hrecord))
    have hlast : record ∈ (values ++ [some record]).reduceOption :=
      mem_reduceOption.2 (List.mem_append_right _ (List.mem_singleton_self _))
    rw [hfree' r hold record hlast heq] at hrecord
    exact hnew hrecord
  refine ⟨hroom, ?_, hdigest⟩
  have hperm := recordsIn_insert (find?_of_digest hdigest)
  rw [← length_recordsIn, hperm.length_eq, List.length_append, List.length_singleton] at hsize
  exact hsize

/-- A row of the run that was read has an identity of an item. -/
theorem rowRecord_identity {row : Listed} {found : Option Record}
    (hrow : rowRecord h m items row = .ok found) (hname : inNamespace m row.title = true) :
    isItemIdentity row.id = true := by
  unfold rowRecord at hrow
  rw [if_pos hname] at hrow
  obtain ⟨_, _, hrest⟩ := bind_eq_ok.1 hrow
  obtain ⟨_, hread, _⟩ := bind_eq_ok.1 hrest
  obtain ⟨_, hidentity, _⟩ := bind_eq_ok.1 hread
  exact require_eq_ok.1 hidentity

/-- A copy of an item under another identity of an item is read as the item. -/
theorem rowRecord_copy {original : Item} {id : String} {found : Option Record}
    (hnodup : (items.map Item.id).Nodup) (horiginal : original ∈ items)
    (hfresh : id ∉ items.map Item.id)
    (hid : inNamespace m original.title = true → isItemIdentity id = true)
    (hrow : rowRecord h m items original.listed = .ok found) :
    rowRecord h m (items ++ [{ original with id := id }])
      ({ original with id := id } : Item).listed = .ok found := by
  have hold : (items.find? fun item => item.id == original.id) = some original := by
    have hsome : (items.find? fun item => item.id == original.id).isSome = true :=
      List.find?_isSome.2 ⟨original, horiginal, beq_self_eq_true _⟩
    obtain ⟨other, hother⟩ := Option.isSome_iff_exists.1 hsome
    have hmem := List.mem_of_find?_eq_some hother
    have htest := List.find?_some hother
    rw [hother, List.inj_on_of_nodup_map hnodup hmem horiginal (eq_of_beq htest)]
  have hnew := find?_append_new { original with id := id } hfresh
  rw [← hrow]
  by_cases hname : inNamespace m original.title = true
  · have hname' : inNamespace m ({ original with id := id } : Item).listed.title = true := hname
    have holdId : isItemIdentity original.id = true := rowRecord_identity hrow hname
    have hreadNew : read h m (items ++ [{ original with id := id }]) id =
        readItem h m { original with id := id } := by
      unfold read
      rw [hid hname, hnew]
      rfl
    have hreadOld : read h m items original.id = readItem h m original := by
      unfold read
      rw [holdId, hold]
      rfl
    unfold rowRecord
    rw [if_pos hname', if_pos (show inNamespace m original.listed.title = true from hname)]
    dsimp only [Item.listed]
    rw [hreadNew, hreadOld]
    rfl
  · unfold rowRecord
    rw [if_neg (show ¬ inNamespace m ({ original with id := id } : Item).listed.title = true
      from hname), if_neg (show ¬ inNamespace m original.listed.title = true from hname)]

/-- A second copy of an item, under another identity, changes nothing while the vault has room and
the identity can be read. -/
theorem accepts_copy_iff (hacc : Accepts h m items facts) {original : Item}
    (horiginal : original ∈ items) {id : String} (hid : isConnectIdentity id = true)
    (hfresh : id ∉ items.map Item.id) :
    Accepts h m (items ++ [{ original with id := id }]) facts ↔
      items.length < maxItems ∧
        (inNamespace m original.title = true → isItemIdentity id = true) := by
  obtain ⟨values, hr, rfl, hfree⟩ := hacc.readable
  have hnodup : (items.map Item.id).Nodup := by
    have hdistinct := hr.distinct
    rw [List.map_map] at hdistinct
    exact hdistinct
  obtain ⟨found, hmem, hfound⟩ :=
    found_of_row hr.rows (List.mem_map.2 ⟨original, horiginal, rfl⟩)
  have hjournal : addRecord h (journalOf h values) found = journalOf h values := by
    rw [← journalOf_concat]
    refine (journalOf_congr hfree fun r => ?_).symm
    rw [List.mem_append, List.mem_singleton]
    refine ⟨Or.inl, fun hlisted => hlisted.elim (fun hold => hold) ?_⟩
    rintro rfl
    exact hmem
  have hiff : (inNamespace m original.title = true → isItemIdentity id = true) → _ := fun hread =>
    readable_append_iff hr
      (show isConnectIdentity ({ original with id := id } : Item).id = true from hid) hfresh
      (rowRecord_copy hnodup horiginal hfresh hread hfound)
  rw [hjournal] at hiff
  constructor
  · intro hacc'
    obtain ⟨all, hr', _, _⟩ := hacc'.readable
    have hread : inNamespace m original.title = true → isItemIdentity id = true := by
      obtain ⟨_, -, hrow⟩ := found_of_row hr'.rows
        (List.mem_map.2 ⟨_, List.mem_append_right _ (List.mem_singleton_self _), rfl⟩)
      exact rowRecord_identity hrow
    exact ⟨((hiff hread all).1 hr').2.1, hread⟩
  · rintro ⟨hroom, hread⟩
    refine accepts_iff.2
      ⟨values ++ [found], (hiff hread _).2 ⟨rfl, hroom, hr.bounded, hr.bound⟩, ?_, ?_⟩
    · rw [journalOf_concat, hjournal]
    · intro r hrecord r' hrecord'
      have hold : ∀ x, x ∈ (values ++ [found]).reduceOption → x ∈ values.reduceOption := by
        intro x hx
        rw [mem_reduceOption, List.mem_append, List.mem_singleton] at hx
        rw [mem_reduceOption]
        rcases hx with hx | hx
        · exact hx
        · exact hx ▸ hmem
      exact hfree r (hold r hrecord) r' (hold r' hrecord')

end StaticHostAgent.Isolation
