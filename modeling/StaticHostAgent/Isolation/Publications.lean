import StaticHostAgent.Isolation.JournalRuns
import Mathlib.Data.List.Perm.Subperm

/-!
# Publications against a readable journal

Everything that one `put` does is in `put_cases`: it changes nothing, or it has checked `MayPost` and
then notes the fact and sends it. From there, a publication keeps the journal readable exactly if
what it may post has room (`keepsReadable_iff`), and one spool posts no fact twice (`posts_once`).
-/

set_option autoImplicit false

namespace StaticHostAgent.Isolation

open Library Contracts

variable {h : IsolationHost} {m : Manifest} {w : JournalWorld} {facts : List Record}
  {spooled : Bool} {fact : Fact} {answers : PutAnswers} {record : Record}

/-! ## Identities -/

/-- One identity for each number. -/
def connectId (n : Nat) : String := String.ofList ((fixedDigits 16 26 n).map hexDigit)

theorem isItemIdentity_connectId {n : Nat} (hn : n < 16 ^ 26) :
    isItemIdentity (connectId n) = true := by
  have hclass : ∀ c ∈ hexDigits, (c.isLower || c.isDigit) = true := by decide
  refine fullmatch_replicate.2 ⟨?_, ?_⟩
  · rw [connectId, String.toList_ofList, List.length_map, fixedDigits_length (by omega) hn]
  · intro c hc
    rw [connectId, String.toList_ofList] at hc
    obtain ⟨d, hd, rfl⟩ := List.mem_map.1 hc
    exact hclass _ (hexDigit_mem (lt_of_mem_fixedDigits (by omega) hd))

theorem connectId_injective {n k : Nat} (hn : n < 16 ^ 26) (hk : k < 16 ^ 26)
    (hsame : connectId n = connectId k) : n = k :=
  fixedHex_injective hn hk (String.ofList_injective hsame)

/-- Some identity is not in use. -/
theorem exists_fresh_id (ids : List String) (hfew : ids.length < 16 ^ 26) :
    ∃ id, isItemIdentity id = true ∧ id ∉ ids := by
  by_contra hnone
  have hused : ∀ n, n < 16 ^ 26 → connectId n ∈ ids := by
    intro n hn
    by_contra hfresh
    exact hnone ⟨connectId n, isItemIdentity_connectId hn, hfresh⟩
  have hbelow : ∀ n ∈ List.range (ids.length + 1), n < 16 ^ 26 := by
    intro n hn
    exact lt_of_le_of_lt (Nat.lt_succ_iff.1 (List.mem_range.1 hn)) hfew
  have hnodup : ((List.range (ids.length + 1)).map connectId).Nodup := by
    refine List.Nodup.map_on ?_ List.nodup_range
    intro n hn k hk hsame
    exact connectId_injective (hbelow n hn) (hbelow k hk) hsame
  have hsubset : (List.range (ids.length + 1)).map connectId ⊆ ids := by
    intro id hid
    obtain ⟨n, hn, rfl⟩ := List.mem_map.1 hid
    exact hused n (hbelow n hn)
  have hlength := (hnodup.subperm hsubset).length_le
  rw [List.length_map, List.length_range] at hlength
  omega

/-! ## What one publication does -/

/-- What `put` has checked when it sends the fact, against the facts that it read. -/
structure MayPost (h : IsolationHost) (m : Manifest) (w : JournalWorld) (facts : List Record)
    (spooled : Bool) (fact : Fact) : Prop where
  valid : validate h (recordOf h m fact) m = .ok ()
  new : recordOf h m fact ∉ facts
  bound : collect h m (facts ++ [recordOf h m fact]) = .ok (facts ++ [recordOf h m fact])
  spool : spooled = true
  unposted : w.spool.find? (h.digest (.record (recordOf h m fact))) = none
  fits : h.fits (recordOf h m fact) = true

variable (h) in
/-- The fact is noted, torn or complete. -/
def noted (record : Record) (cell : Cell Record) (w : JournalWorld) : JournalWorld :=
  { w with spool := Directory.insert w.spool (h.digest (.record record)) cell }

variable (h m) in
/-- The fact is noted and sent. -/
def sent (record : Record) (answer : Option String) (w : JournalWorld) : JournalWorld :=
  post h m record answer (noted h record (.complete record) w)

theorem publish_run (hfits : h.fits record = true) :
    publish h m record answers w = ⟨[noted h record .torn w, noted h record (.complete record) w,
      sent h m record answers.stored w], sent h m record answers.stored w,
      requireStored h m record answers (sent h m record answers.stored w)⟩ := by
  have hquery : (Durable.query (fun _ : JournalWorld => require (h.fits record)
      (IsolationError.value "combined private inputs exceed their byte bound"))) w =
        ⟨[], w, .ok ()⟩ := by
    rw [Durable.query_run, hfits]
    rfl
  have htwice : noted h record (.complete record) (noted h record .torn w) =
      noted h record (.complete record) w := by
    unfold noted
    rw [Directory.insert_insert]
  have hpending : writePending h record w = ⟨[noted h record .torn w,
      noted h record (.complete record) w], noted h record (.complete record) w, .ok ()⟩ := by
    unfold writePending
    rw [Durable.bind_ok hquery, Durable.effect_bind, Durable.effect_run]
    show (⟨[noted h record .torn w, noted h record (.complete record) (noted h record .torn w)],
      noted h record (.complete record) (noted h record .torn w), .ok ()⟩ :
        Run JournalWorld IsolationError Unit) = _
    rw [htwice]
  unfold publish
  rw [Durable.bind_ok hpending, Durable.effect_bind]
  rfl

/-- A fact beyond the byte bound is not noted. -/
theorem publish_refused (hfits : h.fits record = false) :
    ∃ e, publish h m record answers w = ⟨[], w, .error e⟩ := by
  have hpending : writePending h record w =
      ⟨[], w, .error (.value "combined private inputs exceed their byte bound")⟩ := by
    unfold writePending
    apply Durable.query_bind_error
    rw [hfits]
    rfl
  exact ⟨_, Durable.bind_error hpending⟩

section Checks

variable (hvalid : validate h (recordOf h m fact) m = .ok ())
  (hread : readRecords h m answers.listing w = .ok facts) (hnew : recordOf h m fact ∉ facts)
  (hbound : collect h m (facts ++ [recordOf h m fact]) = .ok (facts ++ [recordOf h m fact]))

/-- What is left of a publication when the fact is valid and the journal was read. -/
def afterReading (h : IsolationHost) (m : Manifest) (spooled : Bool) (fact : Fact)
    (answers : PutAnswers) (facts : List Record) : Durable JournalWorld IsolationError Unit :=
  if recordOf h m fact ∈ facts then pure ()
  else do
    let _ ← Durable.query fun _ => collect h m (facts ++ [recordOf h m fact])
    Durable.query fun _ => require spooled
      (.value "isolated journal publication needs its private pending spool")
    Durable.query (requireUnposted h (recordOf h m fact))
    publish h m (recordOf h m fact) answers

include hvalid hread in
theorem put_read : put h m spooled fact answers w =
    afterReading h m spooled fact answers facts w := by
  refine (Durable.query_bind_ok (f := fun _ => validate h (recordOf h m fact) m) hvalid).trans ?_
  exact Durable.query_bind_ok hread

include hvalid hread hnew hbound in
/-- What is left when the new fact agrees with the others. -/
theorem put_bound : put h m spooled fact answers w =
    (do
      Durable.query fun _ => require spooled
        (.value "isolated journal publication needs its private pending spool")
      Durable.query (requireUnposted h (recordOf h m fact))
      publish h m (recordOf h m fact) answers : Durable JournalWorld IsolationError Unit) w := by
  rw [put_read hvalid hread]
  unfold afterReading
  rw [if_neg hnew]
  exact Durable.query_bind_ok (f := fun _ => collect h m (facts ++ [recordOf h m fact])) hbound

end Checks

theorem requireUnposted_eq_ok {u : Unit} : requireUnposted h record w = .ok u ↔
    w.spool.find? (h.digest (.record record)) = none := by
  unfold requireUnposted
  cases w.spool.find? (h.digest (.record record)) with
  | none => exact iff_of_true rfl rfl
  | some cell => cases cell <;> exact ⟨fun hok => (nomatch hok), fun hnone => (nomatch hnone)⟩

/-- A publication that passes its checks notes and sends the fact. -/
theorem put_run (hread : readRecords h m answers.listing w = .ok facts)
    (hmay : MayPost h m w facts spooled fact) :
    put h m spooled fact answers w = publish h m (recordOf h m fact) answers w := by
  have hspooled : require spooled
      (IsolationError.value "isolated journal publication needs its private pending spool") =
        .ok () := require_eq_ok.2 hmay.spool
  rw [put_bound hmay.valid hread hmay.new hmay.bound]
  refine (Durable.query_bind_ok (f := fun _ => require spooled _) (s := w) hspooled).trans ?_
  exact Durable.query_bind_ok (a := ()) (requireUnposted_eq_ok.2 hmay.unposted)

/-- A publication that changes nothing; it succeeds only if the fact is there. -/
def Unchanged (h : IsolationHost) (m : Manifest) (w : JournalWorld) (spooled : Bool) (fact : Fact)
    (answers : PutAnswers) : Prop :=
  ∃ result, put h m spooled fact answers w = ⟨[], w, result⟩ ∧ (result = .ok () →
    ∃ facts, readRecords h m answers.listing w = .ok facts ∧ recordOf h m fact ∈ facts)

theorem Unchanged.refused {e : IsolationError}
    (hrun : put h m spooled fact answers w = ⟨[], w, .error e⟩) :
    Unchanged h m w spooled fact answers :=
  ⟨_, hrun, fun hok => (nomatch hok)⟩

/-- Everything that a publication does. -/
theorem put_cases (h : IsolationHost) (m : Manifest) (w : JournalWorld) (spooled : Bool)
    (fact : Fact) (answers : PutAnswers) :
    Unchanged h m w spooled fact answers ∨
    ∃ facts, readRecords h m answers.listing w = .ok facts ∧ MayPost h m w facts spooled fact := by
  -- the checks of `put` in their order: each refuses before anything is posted
  cases hvalid : validate h (recordOf h m fact) m with
  | error e =>
      left
      exact .refused (Durable.query_bind_error
        (f := fun _ => validate h (recordOf h m fact) m) hvalid)
  | ok u =>
  cases hread : readRecords h m answers.listing w with
  | error e =>
      left
      apply Unchanged.refused
      refine (Durable.query_bind_ok (f := fun _ => validate h (recordOf h m fact) m) hvalid).trans ?_
      exact Durable.query_bind_error hread
  | ok facts =>
  -- the record is there already: the call succeeds without a post
  by_cases hmem : recordOf h m fact ∈ facts
  · left
    refine ⟨.ok (), ?_, fun _ => ⟨facts, hread, hmem⟩⟩
    rw [put_read hvalid hread]
    unfold afterReading
    rw [if_pos hmem]
    rfl
  cases hbound : collect h m (facts ++ [recordOf h m fact]) with
  | error e =>
      left
      apply Unchanged.refused
      rw [put_read hvalid hread]
      unfold afterReading
      rw [if_neg hmem]
      exact Durable.query_bind_error
        (f := fun _ => collect h m (facts ++ [recordOf h m fact])) hbound
  | ok bound =>
  rw [collect_eq_ok hbound] at hbound
  have hrun : put h m spooled fact answers w = _ := put_bound hvalid hread hmem hbound
  cases hspooled : spooled with
  | false =>
      left
      subst hspooled
      exact .refused hrun
  | true =>
  subst hspooled
  cases hunposted : requireUnposted h (recordOf h m fact) w with
  | error e =>
      left
      apply Unchanged.refused
      rw [hrun]
      refine (Durable.query_bind_ok (f := fun _ => require true _) (s := w) (require_true _)).trans ?_
      exact Durable.query_bind_error hunposted
  | ok v =>
  cases hfits : h.fits (recordOf h m fact) with
  | false =>
      left
      obtain ⟨e, hrefused⟩ : ∃ e, publish h m (recordOf h m fact) answers w = ⟨[], w, .error e⟩ :=
        publish_refused hfits
      apply Unchanged.refused
      rw [hrun, ← hrefused]
      refine (Durable.query_bind_ok (f := fun _ => require true _) (s := w) (require_true _)).trans ?_
      exact Durable.query_bind_ok hunposted
  | true =>
      exact Or.inr ⟨facts, rfl, hvalid, hmem, hbound, rfl, requireUnposted_eq_ok.1 hunposted, hfits⟩

/-! ## The states that a publication leaves behind -/

/-- The publication ended in `t`, or stopped there. -/
def Reached (p : Durable JournalWorld IsolationError Unit) (w t : JournalWorld) : Prop :=
  Durable.Crashed p w t ∨ t = (p w).state

theorem put_reached {t : JournalWorld} (hreached : Reached (put h m spooled fact answers) w t) :
    t = w ∨ ∃ facts, readRecords h m answers.listing w = .ok facts ∧
      MayPost h m w facts spooled fact ∧
      ((∃ cell, t = noted h (recordOf h m fact) cell w) ∨
        t = sent h m (recordOf h m fact) answers.stored w) := by
  unfold Reached Durable.Crashed at hreached
  rcases put_cases h m w spooled fact answers with ⟨result, hrun, -⟩ | ⟨facts, hread, hmay⟩
  · rw [hrun] at hreached
    rcases hreached with (rfl | ht) | rfl
    · exact Or.inl rfl
    · cases ht
    · exact Or.inl rfl
  · rw [put_run hread hmay, publish_run hmay.fits] at hreached
    rcases hreached with (rfl | ht) | rfl
    · exact Or.inl rfl
    · right
      refine ⟨facts, hread, hmay, ?_⟩
      simp only [List.mem_cons, List.not_mem_nil, or_false] at ht
      rcases ht with rfl | rfl | rfl
      · exact Or.inl ⟨_, rfl⟩
      · exact Or.inl ⟨_, rfl⟩
      · exact Or.inr rfl
    · exact Or.inr ⟨facts, hread, hmay, Or.inr rfl⟩

/-! ## What stays readable -/

/-- The store lists the items that it has, in some order, or gives no listing. -/
def Honest (answers : PutAnswers) (w : JournalWorld) : Prop :=
  ∀ listing, answers.listing = some listing → listing.Perm (w.items.map Item.listed)

variable (h m) in
/-- Wherever the publication ends or stops, the journal is read as the same facts or as these and
the new one. -/
def KeepsReadable (w : JournalWorld) (facts : List Record) (spooled : Bool) (fact : Fact) : Prop :=
  ∀ answers t, Honest answers w → Reached (put h m spooled fact answers) w t →
    ∃ facts', (facts' = facts ∨ facts'.Perm (facts ++ [recordOf h m fact])) ∧
      Accepts h m t.items facts'

/-- An accepted vault is read as its facts. -/
theorem Accepts.reads (hacc : Accepts h m w.items facts) (hhonest : Honest answers w)
    {facts' : List Record} (hread : readRecords h m answers.listing w = .ok facts') :
    facts' = facts := by
  unfold readRecords at hread
  cases hlisting : answers.listing with
  | none =>
      rw [hlisting] at hread
      cases hread
  | some listing =>
      rw [hlisting] at hread
      exact Except.ok.inj (hread.symm.trans (hacc listing (hhonest listing hlisting)))

theorem Accepts.few (hacc : Accepts h m w.items facts) : w.items.length ≤ maxItems := by
  obtain ⟨values, hr, -⟩ := hacc.readable
  have hcomplete := hr.complete
  rw [List.length_map] at hcomplete
  exact hcomplete

/-- A fact that is sent with room leaves the journal readable. -/
theorem Accepts.sent (hacc : Accepts h m w.items facts) (hmay : MayPost h m w facts spooled fact)
    (room : Room h w.items facts (recordOf h m fact)) (answer : Option String) :
    ∃ facts', (facts' = facts ∨ facts'.Perm (facts ++ [recordOf h m fact])) ∧
      Accepts h m (sent h m (recordOf h m fact) answer w).items facts' := by
  have hitems : (Isolation.sent h m (recordOf h m fact) answer w).items =
      stored h m (recordOf h m fact) w.items answer := rfl
  rw [hitems]
  cases answer with
  | none => exact ⟨facts, Or.inl rfl, hacc⟩
  | some id =>
      unfold stored
      dsimp only
      by_cases hstored : (isItemIdentity id && !((w.items.map Item.id).contains id)) = true
      · rw [if_pos hstored]
        obtain ⟨hid, hfresh⟩ := Bool.and_eq_true_iff.1 hstored
        rw [Bool.not_eq_true', ← Bool.not_eq_true, List.contains_iff_mem] at hfresh
        obtain ⟨facts', hperm, hacc'⟩ := hacc.post hmay.valid hmay.bound hid hfresh room
        exact ⟨facts', Or.inr hperm, hacc'⟩
      · rw [if_neg hstored]
        exact ⟨facts, Or.inl rfl, hacc⟩

/-- A publication keeps the journal readable exactly if there is room for what it may send. -/
theorem keepsReadable_iff (hacc : Accepts h m w.items facts) :
    KeepsReadable h m w facts spooled fact ↔
      (MayPost h m w facts spooled fact → Room h w.items facts (recordOf h m fact)) := by
  constructor
  · intro hkeeps hmay
    -- the store takes the fact under a fresh identity, and the response is lost
    obtain ⟨id, hid, hfresh⟩ := exists_fresh_id (w.items.map Item.id) (by
      have hfew := hacc.few
      have hmax : maxItems = 10000 := rfl
      rw [List.length_map]
      omega)
    have hread : readRecords h m (some (w.items.map Item.listed)) w = .ok facts :=
      hacc _ (List.Perm.refl _)
    have hhonest : Honest ⟨some (w.items.map Item.listed), some id, none, false⟩ w := by
      rintro listing hlisting
      cases hlisting
      exact List.Perm.refl _
    obtain ⟨facts', -, hacc'⟩ := hkeeps
      ⟨some (w.items.map Item.listed), some id, none, false⟩ _ hhonest (Or.inr rfl)
    rw [put_run hread hmay, publish_run hmay.fits] at hacc'
    have hitems : (sent h m (recordOf h m fact) (some id) w).items =
        w.items ++ [itemOf h m (recordOf h m fact) id] := by
      have hnot : ((w.items.map Item.id).contains id) = false := by
        rw [← Bool.not_eq_true, List.contains_iff_mem]
        exact hfresh
      show stored h m (recordOf h m fact) w.items (some id) = _
      unfold stored
      dsimp only
      rw [hid, hnot]
      rfl
    rw [hitems] at hacc'
    exact hacc.room hmay.valid hmay.new hid hfresh hacc'
  · intro hroom answers t hhonest hreached
    rcases put_reached hreached with rfl | ⟨facts', hread, hmay, hstate⟩
    · exact ⟨facts, Or.inl rfl, hacc⟩
    · rw [hacc.reads hhonest hread] at hmay
      rcases hstate with ⟨cell, rfl⟩ | rfl
      · exact ⟨facts, Or.inl rfl, hacc⟩
      · exact hacc.sent hmay (hroom hmay) answers.stored

/-! ## Runs of publications -/

variable (h m) in
/-- The vault after publications by any actors, one after another, each with the spool that it has,
as long as each has room for what it may send. -/
inductive Published : List Item → List Item → Prop where
  | start (items : List Item) : Published items items
  | put {items : List Item} {w t : JournalWorld} {spooled : Bool} {fact : Fact}
      {answers : PutAnswers} (before : Published items w.items) (honest : Honest answers w)
      (room : ∀ facts, Accepts h m w.items facts → MayPost h m w facts spooled fact →
        Room h w.items facts (recordOf h m fact))
      (reached : Reached (put h m spooled fact answers) w t) : Published items t.items

/-- A readable journal stays readable, and loses no fact. -/
theorem Published.accepts {items items' : List Item} (hrun : Published h m items items')
    (hacc : Accepts h m items facts) :
    ∃ facts', (∀ r ∈ facts, r ∈ facts') ∧ Accepts h m items' facts' := by
  induction hrun with
  | start => exact ⟨facts, fun _ hr => hr, hacc⟩
  | put before honest room reached ih =>
      obtain ⟨middle, hkept, hmiddle⟩ := ih
      obtain ⟨facts', hfacts, hacc'⟩ :=
        (keepsReadable_iff hmiddle).2 (room middle hmiddle) _ _ honest reached
      refine ⟨facts', ?_, hacc'⟩
      intro r hr
      rcases hfacts with rfl | hperm
      · exact hkept r hr
      · exact hperm.mem_iff.2 (List.mem_append_left _ (hkept r hr))

/-! ## A publication that returns -/

/-- A record that was read is behind an item. -/
theorem read_eq_ok {items : List Item} {id : String} (hread : read h m items id = .ok record) :
    ∃ item ∈ items, item.id = id ∧ readItem h m item = .ok record := by
  obtain ⟨_, _, hread⟩ := bind_eq_ok.1 hread
  cases hfound : items.find? fun item => item.id == id with
  | none =>
      rw [hfound] at hread
      cases hread
  | some item =>
      rw [hfound] at hread
      have htest := List.find?_some hfound
      exact ⟨item, List.mem_of_find?_eq_some hfound, eq_of_beq htest, hread⟩

theorem rowRecord_eq_ok {items : List Item} {row : Listed}
    (hrow : rowRecord h m items row = .ok (some record)) :
    ∃ item ∈ items, item.id = row.id ∧ readItem h m item = .ok record := by
  unfold rowRecord at hrow
  by_cases htitle : inNamespace m row.title = true
  · rw [if_pos htitle] at hrow
    obtain ⟨_, _, hrest⟩ := bind_eq_ok.1 hrow
    obtain ⟨found, hread, hrest⟩ := bind_eq_ok.1 hrest
    obtain ⟨_, _, hsame⟩ := bind_eq_ok.1 hrest
    cases hsame
    exact read_eq_ok hread
  · rw [if_neg htitle] at hrow
    cases hrow

/-- The record behind an item that reads as one is among the facts of an accepted vault. -/
theorem Accepts.mem {items : List Item} (hacc : Accepts h m items facts) {item : Item}
    (hitem : item ∈ items) (hread : readItem h m item = .ok record) : record ∈ facts := by
  obtain ⟨values, hr, rfl, hfree⟩ := hacc.readable
  have hnodup : (items.map Item.id).Nodup := by
    have hdistinct := hr.distinct
    rw [List.map_map] at hdistinct
    exact hdistinct
  have hlisted : item.listed ∈ items.map Item.listed := List.mem_map_of_mem hitem
  obtain ⟨found, hmem, hfound⟩ := found_of_row hr.rows hlisted
  have htitle : item.title = title h m record := by
    unfold readItem at hread
    obtain ⟨_, _, hrest⟩ := bind_eq_ok.1 hread
    cases hcontent : item.content with
    | none =>
        rw [hcontent] at hrest
        cases hrest
    | some content =>
        rw [hcontent] at hrest
        cases content with
        | other text => cases hrest
        | canonical stored =>
            obtain ⟨_, _, hrest⟩ := bind_eq_ok.1 hrest
            obtain ⟨_, hsame, hrest⟩ := bind_eq_ok.1 hrest
            cases hrest
            exact of_decide_eq_true (require_eq_ok.1 hsame)
  have hnamespace : inNamespace m item.listed.title = true := by
    show inNamespace m item.title = true
    rw [htitle]
    exact inNamespace_title record
  have hself : read h m items item.id = .ok record := by
    have hsome : (items.find? fun other => other.id == item.id).isSome = true :=
      List.find?_isSome.2 ⟨item, hitem, beq_self_eq_true _⟩
    obtain ⟨other, hother⟩ := Option.isSome_iff_exists.1 hsome
    have htest := List.find?_some hother
    have hsame : other = item := List.inj_on_of_nodup_map hnodup
      (List.mem_of_find?_eq_some hother) hitem (eq_of_beq htest)
    refine bind_eq_ok.2 ⟨(), require_eq_ok.2 (rowRecord_identity hfound hnamespace), ?_⟩
    rw [hother, hsame]
    exact hread
  unfold rowRecord at hfound
  rw [if_pos hnamespace] at hfound
  obtain ⟨_, _, hrest⟩ := bind_eq_ok.1 hfound
  obtain ⟨other, hother, hrest⟩ := bind_eq_ok.1 hrest
  have hsame : other = record := Except.ok.inj (hother.symm.trans hself)
  obtain ⟨_, _, hresult⟩ := bind_eq_ok.1 hrest
  cases hresult
  rw [hsame] at hmem
  exact (mem_facts_iff hfree).2 hmem

/-- A record of a reading is behind an item of the vault. -/
theorem item_of_mem {listing : List Listed} {items : List Item}
    (hread : allRecords h m listing items = .ok facts) (hmem : record ∈ facts) :
    ∃ item ∈ items, readItem h m item = .ok record := by
  obtain ⟨values, hr, rfl⟩ := allRecords_eq_ok.1 hread
  obtain ⟨hvalue, -⟩ := find?_journalOf (mem_recordsIn.1 hmem)
  obtain ⟨row, -, hrow⟩ := row_of_mem hr.rows hvalue
  obtain ⟨item, hitem, -, hitemRead⟩ := rowRecord_eq_ok hrow
  exact ⟨item, hitem, hitemRead⟩

/-- A publication that returns leaves the fact behind an item of the vault. -/
theorem put_stored (hok : (put h m spooled fact answers w).result = .ok ()) :
    ∃ item ∈ (put h m spooled fact answers w).state.items,
      readItem h m item = .ok (recordOf h m fact) := by
  rcases put_cases h m w spooled fact answers with ⟨result, hrun, hthere⟩ | ⟨facts, hread, hmay⟩
  · rw [hrun] at hok ⊢
    obtain ⟨facts, hread, hmem⟩ := hthere hok
    unfold readRecords at hread
    cases hlisting : answers.listing with
    | none =>
        rw [hlisting] at hread
        cases hread
    | some listing =>
        rw [hlisting] at hread
        exact item_of_mem hread hmem
  · rw [put_run hread hmay, publish_run hmay.fits] at hok ⊢
    change requireStored h m (recordOf h m fact) answers _ = .ok () at hok
    unfold requireStored at hok
    cases hacknowledged : answers.acknowledged with
    | none =>
        rw [hacknowledged] at hok
        cases hok
    | some id =>
        rw [hacknowledged] at hok
        obtain ⟨_, _, hrest⟩ := bind_eq_ok.1 hok
        obtain ⟨value, hvalue, hsame⟩ := bind_eq_ok.1 hrest
        obtain ⟨item, hitem, -, hitemRead⟩ := read_eq_ok hvalue
        have hitem : item ∈ (sent h m (recordOf h m fact) answers.stored w).items := by
          split at hitem
          · exact hitem
          · cases hitem
        rw [of_decide_eq_true (require_eq_ok.1 hsame)] at hitemRead
        exact ⟨item, hitem, hitemRead⟩

/-! ## One spool -/

/-- What the owner of a spool may ask for. -/
inductive JournalCall where
  | put (fact : Fact)
  | persist (value : Obligation)
  | reserve (runId : String) (consume : Option (Except IsolationError Unit)) (value : Obligation)

/-- The call as a program. -/
def program (h : IsolationHost) (m : Manifest) (spooled : Bool) (answers : PutAnswers) :
    JournalCall → Durable JournalWorld IsolationError Unit
  | .put fact => put h m spooled fact answers
  | .persist value => persist h m spooled value answers
  | .reserve runId consume value => reserve h m spooled runId consume value answers

/-- A call with the number of durable changes after which its process stops, if it does; or other
actors change the vault. -/
inductive JournalAction where
  | call (call : JournalCall) (answers : PutAnswers) (crash : Option Nat)
  | others (items : List Item)

/-- One action. -/
def act (h : IsolationHost) (m : Manifest) (spooled : Bool) (w : JournalWorld) :
    JournalAction → JournalWorld
  | .call call answers crash => (program h m spooled answers call).left w crash
  | .others items => { w with items := items }

/-- The world after a sequence of actions. -/
def execute (h : IsolationHost) (m : Manifest) (spooled : Bool) (w : JournalWorld)
    (actions : List JournalAction) : JournalWorld :=
  actions.foldl (act h m spooled) w

variable (h) in
/-- No fact was posted twice, and every posted fact is noted. -/
structure Once (w : JournalWorld) : Prop where
  distinct : w.posts.Nodup
  held : ∀ r ∈ w.posts, (w.spool.find? (h.digest (.record r))).isSome = true

theorem Once.note (hw : Once h w) (record : Record) (cell : Cell Record) :
    Once h (noted h record cell w) := by
  refine ⟨hw.distinct, fun r hr => ?_⟩
  show ((Directory.insert w.spool _ cell).find? _).isSome = true
  by_cases hkey : h.digest (.record r) = h.digest (.record record)
  · rw [hkey, Directory.find?_insert_self]
    rfl
  · rw [Directory.find?_insert_of_ne _ hkey]
    exact hw.held r hr

/-- A fact that was not noted was not posted. -/
theorem Once.send (hw : Once h w) (hfree : w.spool.find? (h.digest (.record record)) = none)
    (answer : Option String) : Once h (sent h m record answer w) := by
  have hnew : record ∉ w.posts := by
    intro hposted
    have hnoted := hw.held record hposted
    rw [hfree] at hnoted
    cases hnoted
  have hthere := hw.note record (.complete record)
  refine ⟨?_, fun r hr => ?_⟩
  · exact List.nodup_append'.2 ⟨hw.distinct, List.nodup_singleton _,
      List.disjoint_singleton.2 hnew⟩
  · rcases List.mem_append.1 hr with hr | hr
    · exact hthere.held r hr
    · rw [List.mem_singleton.1 hr]
      show ((Directory.insert w.spool _ _).find? _).isSome = true
      rw [Directory.find?_insert_self]
      rfl

theorem Once.reached {t : JournalWorld} (hw : Once h w)
    (hreached : Reached (put h m spooled fact answers) w t) : Once h t := by
  rcases put_reached hreached with rfl | ⟨facts, -, hmay, ⟨cell, rfl⟩ | rfl⟩
  · exact hw
  · exact hw.note _ cell
  · exact hw.send hmay.unposted _

/-- The other entry points refuse, or publish. -/
theorem program_run (call : JournalCall) (answers : PutAnswers) (w : JournalWorld) :
    (∃ e, program h m spooled answers call w = ⟨[], w, .error e⟩) ∨
      ∃ fact, program h m spooled answers call w = put h m spooled fact answers w := by
  have hpersist : ∀ value, (∃ e, persist h m spooled value answers w = ⟨[], w, .error e⟩) ∨
      persist h m spooled value answers w = put h m spooled value.fact answers w := by
    intro value
    cases hvalue : require (decide (value.format = coreFormat) &&
        decide (value.planSha256 = m.plan.sha256 h) && value.fact.isCore)
        (IsolationError.value "isolated credential fact escaped its manifest") with
    | error e => exact Or.inl ⟨e, Durable.query_bind_error (f := fun _ => require _ _) hvalue⟩
    | ok u => exact Or.inr (Durable.query_bind_ok (f := fun _ => require _ _) hvalue)
  cases call with
  | put fact => exact Or.inr ⟨fact, rfl⟩
  | persist value => exact (hpersist value).imp_right fun hrun => ⟨_, hrun⟩
  | reserve runId consume value =>
      cases hnative : require (decide (runId = m.plan.runId) && consume.isSome)
          (IsolationError.value "isolated creation needs its native global reservation") with
      | error e =>
          exact Or.inl ⟨e, Durable.query_bind_error (f := fun _ => require _ _) hnative⟩
      | ok u =>
          have hrun : program h m spooled answers (.reserve runId consume value) w =
              (do
                Durable.query fun _ => consume.getD (.ok ())
                persist h m spooled value answers : Durable JournalWorld IsolationError Unit) w :=
            Durable.query_bind_ok (f := fun _ => require _ _) hnative
          rw [hrun]
          cases hconsume : consume.getD (.ok ()) with
          | error e =>
              exact Or.inl ⟨e, Durable.query_bind_error (f := fun _ => Except.error e) rfl⟩
          | ok v =>
              rw [Durable.query_bind_ok (f := fun _ => Except.ok v) (s := w) rfl]
              exact (hpersist value).imp_right fun hrun => ⟨_, hrun⟩

theorem Once.act (hw : Once h w) (action : JournalAction) : Once h (act h m spooled w action) := by
  cases action with
  | others items => exact ⟨hw.distinct, hw.held⟩
  | call call answers crash =>
      have hreached : Reached (program h m spooled answers call) w
          ((program h m spooled answers call).left w crash) := by
        cases crash with
        | none => exact Or.inr rfl
        | some changes => exact Or.inl (Durable.left_crashed _ w changes)
      show Once h ((program h m spooled answers call).left w crash)
      unfold Reached Durable.Crashed at hreached
      rcases program_run (h := h) (m := m) call answers w with ⟨e, hrun⟩ | ⟨fact, hrun⟩
      · rw [hrun] at hreached
        rcases hreached with (hstart | hnone) | hend
        · rw [hstart]
          exact hw
        · cases hnone
        · rw [hend]
          exact hw
      · rw [hrun] at hreached
        exact hw.reached hreached

/-- From one spool, no fact is posted twice, whatever stops and is tried again. -/
theorem posts_once (h : IsolationHost) (m : Manifest) (spooled : Bool) (items : List Item)
    (spool : WriteOnce String Record) (actions : List JournalAction) :
    (execute h m spooled ⟨items, spool, []⟩ actions).posts.Nodup := by
  have hall : ∀ (actions : List JournalAction) (w : JournalWorld), Once h w →
      Once h (execute h m spooled w actions) := by
    intro actions
    induction actions with
    | nil => exact fun _ hw => hw
    | cons action actions ih => exact fun w hw => ih _ (hw.act action)
  exact (hall actions _ ⟨List.nodup_nil, fun _ hr => absurd hr List.not_mem_nil⟩).distinct

/-! ## The laws of the journal -/

/-- What holds of the journal: when it stays readable, over one publication and over a run of them;
when the order and the duplication of items do not matter; what a publication that returns has
stored; and that one spool posts a fact once. -/
structure JournalLaws (h : IsolationHost) (m : Manifest) : Prop where
  readable : ∀ w facts spooled fact, Accepts h m w.items facts →
    (KeepsReadable h m w facts spooled fact ↔
      (MayPost h m w facts spooled fact → Room h w.items facts (recordOf h m fact)))
  runs : ∀ items items' facts, Accepts h m items facts → Published h m items items' →
    ∃ facts', (∀ r ∈ facts, r ∈ facts') ∧ Accepts h m items' facts'
  ordered : ∀ listing items facts, allRecords h m listing items = .ok facts →
    ((∀ listing', listing'.Perm listing → allRecords h m listing' items = .ok facts) ↔
      CollisionFree h (listedRecords h m items listing))
  duplicated : ∀ items facts original id, Accepts h m items facts → original ∈ items →
    isConnectIdentity id = true → id ∉ items.map Item.id →
    (Accepts h m (items ++ [{ original with id := id }]) facts ↔
      items.length < maxItems ∧ (inNamespace m original.title = true → isItemIdentity id = true))
  stored : ∀ w spooled fact answers, (put h m spooled fact answers w).result = .ok () →
    (∃ item ∈ (put h m spooled fact answers w).state.items,
      readItem h m item = .ok (recordOf h m fact)) ∧
    ∀ facts, Accepts h m (put h m spooled fact answers w).state.items facts →
      recordOf h m fact ∈ facts
  once : ∀ spooled items spool actions,
    (execute h m spooled ⟨items, spool, []⟩ actions).posts.Nodup

/-- The journal satisfies its laws. -/
theorem journal_laws (h : IsolationHost) (m : Manifest) : JournalLaws h m := by
  refine ⟨?_, ?_, ?_, ?_, ?_, ?_⟩
  · intro w facts spooled fact hacc
    exact keepsReadable_iff hacc
  · intro items items' facts hacc hrun
    exact hrun.accepts hacc
  · intro listing items facts hread
    exact allRecords_order hread
  · intro items facts original id hacc horiginal hid hfresh
    exact accepts_copy_iff hacc horiginal hid hfresh
  · intro w spooled fact answers hok
    obtain ⟨item, hitem, hread⟩ := put_stored hok
    exact ⟨⟨item, hitem, hread⟩, fun facts hacc => hacc.mem hitem hread⟩
  · intro spooled items spool actions
    exact posts_once h m spooled items spool actions

/-! ## A full journal -/

namespace FullJournal

/-- A plan whose members are not compared with anything here. -/
def plan : Plan :=
  ⟨"run", "nonce", "", "", "", "", "", "", "", "", "", ⟨"", []⟩, "", "", "", "", ""⟩

def intent (role : Role) : Intent := ⟨plan, role, "", "", "", [], [], "", "", ""⟩

def manifest : Manifest where
  intents := ⟨intent .audit, intent .caddy, intent .observer⟩
  journalVault := "vault"
  independentServerId := "server"
  details := ""
  roles := by rintro (_ | _ | _) <;> rfl
  onePlan := by rintro (_ | _ | _) <;> rfl

/-- The digests of the facts of this journal differ. -/
def digest : Document → String
  | .record ⟨_, _, .covered actor⟩ => sha256Text (Fin.ofNat _ actor.runId.toNat)
  | _ => sha256Text 0

def host : IsolationHost := ⟨digest, fun _ => true, fun _ => some 0⟩

/-- A watch that covered the run. -/
def covered (n : Nat) : Fact :=
  .covered ⟨n + 1, 1, "schedule", "", "", "server",
    "0000000000000000000000000000000000000000000000000000000000000000"⟩

/-- The manifest and some watches. -/
def journal (n : Nat) : List Record :=
  recordOf host manifest (.manifest manifest) ::
    (List.range n).map fun k => recordOf host manifest (covered k)

/-- The items behind them. -/
def vault : Nat → List Item
  | 0 => [itemOf host manifest (recordOf host manifest (.manifest manifest)) (connectId 0)]
  | n + 1 => vault n ++ [itemOf host manifest (recordOf host manifest (covered n)) (connectId (n + 1))]

theorem valid_covered (n : Nat) :
    validate host (recordOf host manifest (covered n)) manifest = .ok () := by
  have hrun : decide ((1 : Int) ≤ (n : Int) + 1) = true := decide_eq_true (by omega)
  have hauthentication : isSha256
      "0000000000000000000000000000000000000000000000000000000000000000" = true := by
    rfl
  refine bind_eq_ok.2 ⟨(), rfl, bind_eq_ok.2 ⟨(), ?_, bind_eq_ok.2 ⟨0, rfl, ?_⟩⟩⟩
  · apply require_eq_ok.2
    show (decide ((1 : Int) ≤ (n : Int) + 1) && _ && _ && _ && _) = true
    rw [hrun]
    rfl
  · exact require_eq_ok.2 hauthentication

/-- The watches add nothing to what the check reads. -/
theorem filterMap_journal {α : Type} (kind : Fact → Option α)
    (hcovered : ∀ actor, kind (.covered actor) = none) (n : Nat) :
    (journal n).filterMap (fun record => kind record.fact) =
      (journal 0).filterMap fun record => kind record.fact := by
  have hnone : ((List.range n).map fun k => recordOf host manifest (covered k)).filterMap
      (fun record => kind record.fact) = [] := by
    rw [List.filterMap_eq_nil_iff]
    intro record hrecord
    obtain ⟨k, -, rfl⟩ := List.mem_map.1 hrecord
    exact hcovered _
  unfold journal
  rw [List.filterMap_cons, hnone, List.filterMap_cons]
  rfl

theorem single_journal {α : Type} [DecidableEq α] (kind : Fact → Option α)
    (hcovered : ∀ actor, kind (.covered actor) = none) (n : Nat) :
    single kind (journal n) = single kind (journal 0) := by
  unfold single
  rw [filterMap_journal kind hcovered]

theorem any_journal (test : Fact → Bool) (hcovered : ∀ actor, test (.covered actor) = false)
    (n : Nat) : ((journal n).any fun record => test record.fact) =
      (journal 0).any fun record => test record.fact := by
  have hnone : (((List.range n).map fun k => recordOf host manifest (covered k)).any
      fun record => test record.fact) = false := by
    rw [List.any_eq_false]
    intro record hrecord
    obtain ⟨k, -, rfl⟩ := List.mem_map.1 hrecord
    rw [show test (recordOf host manifest (covered k)).fact = false from hcovered _]
    exact Bool.false_ne_true
  unfold journal
  rw [List.any_cons, hnone, List.any_cons]
  rfl

theorem requireBound_journal (n : Nat) :
    requireBound host manifest (journal n) = requireBound host manifest (journal 0) := by
  have hcore := any_journal Fact.isCore (fun _ => rfl) n
  have hconfirmed := any_journal Fact.isConfirmed (fun _ => rfl) n
  have hentered := filterMap_journal Fact.enteredIntent? (fun _ => rfl) n
  have hcreation := filterMap_journal Fact.creation? (fun _ => rfl) n
  have hreadback := filterMap_journal Fact.readback? (fun _ => rfl) n
  unfold requireBound requirePrepared creations enteredIntents requireReadbacks
  rw [hcore, hconfirmed, hentered, hcreation, hreadback,
    single_journal Fact.document? (fun _ => rfl) n,
    single_journal Fact.preparation? (fun _ => rfl) n,
    single_journal Fact.issued? (fun _ => rfl) n, single_journal Fact.closure? (fun _ => rfl) n,
    single_journal Fact.context? (fun _ => rfl) n, single_journal Fact.phase? (fun _ => rfl) n,
    single_journal Fact.functional? (fun _ => rfl) n, single_journal Fact.stop? (fun _ => rfl) n,
    single_journal Fact.clean? (fun _ => rfl) n]

theorem collect_journal (n : Nat) : collect host manifest (journal n) = .ok (journal n) := by
  have hbound : requireBound host manifest (journal n) = .ok () := by
    rw [requireBound_journal]
    rfl
  exact bind_eq_ok.2 ⟨(), hbound, rfl⟩

theorem journal_succ (n : Nat) :
    journal (n + 1) = journal n ++ [recordOf host manifest (covered n)] := by
  unfold journal
  rw [List.range_succ, List.map_append, List.map_singleton, List.cons_append]

theorem length_journal (n : Nat) : (journal n).length = n + 1 := by
  unfold journal
  rw [List.length_cons, List.length_map, List.length_range]

theorem length_vault (n : Nat) : (vault n).length = n + 1 := by
  induction n with
  | zero => rfl
  | succ n ih => rw [vault, List.length_append, ih, List.length_singleton]

theorem mem_vault {n : Nat} {item : Item} (hitem : item ∈ vault n) :
    ∃ k ≤ n, item.id = connectId k := by
  induction n with
  | zero =>
      rw [vault, List.mem_singleton] at hitem
      exact ⟨0, Nat.le_refl 0, by rw [hitem]; rfl⟩
  | succ n ih =>
      rw [vault, List.mem_append, List.mem_singleton] at hitem
      rcases hitem with hitem | rfl
      · obtain ⟨k, hk, hid⟩ := ih hitem
        exact ⟨k, Nat.le_succ_of_le hk, hid⟩
      · exact ⟨n + 1, Nat.le_refl _, rfl⟩

/-- The next identity is not in use. -/
theorem fresh_vault {n : Nat} (hn : n + 1 < 16 ^ 26) :
    connectId (n + 1) ∉ (vault n).map Item.id := by
  intro hmem
  obtain ⟨item, hitem, hid⟩ := List.mem_map.1 hmem
  obtain ⟨k, hk, hitemId⟩ := mem_vault hitem
  have hsame := connectId_injective (by omega) hn (hitemId.symm.trans hid)
  omega

/-- The digests of the facts differ, as those of different texts do. -/
theorem digest_journal {n : Nat} (hn : n < 1000) : ∀ r ∈ journal n,
    host.digest (.record r) ≠ host.digest (.record (recordOf host manifest (covered n))) := by
  intro r hr
  have hnumber : ∀ k < 1000, host.digest (.record (recordOf host manifest (covered k))) =
      sha256Text (Fin.ofNat _ (k + 1)) := fun _ _ => rfl
  have hvalue : ∀ k < 1000, (Fin.ofNat (2 ^ 256) (k + 1)).val = k + 1 := by
    intro k hk
    exact Nat.mod_eq_of_lt (by omega)
  rw [hnumber n hn]
  intro hsame
  rcases List.mem_cons.1 hr with rfl | hr
  · have hzero := congrArg Fin.val (sha256Text_injective (a := 0) hsame)
    rw [hvalue n hn] at hzero
    cases hzero
  · obtain ⟨k, hk, rfl⟩ := List.mem_map.1 hr
    have hless := List.mem_range.1 hk
    rw [hnumber k (by omega)] at hsame
    have hequal := congrArg Fin.val (sha256Text_injective hsame)
    rw [hvalue k (by omega), hvalue n hn] at hequal
    omega

/-- Up to the bound, every vault is accepted. -/
theorem accepts_vault (n : Nat) (hn : n < maxRecords) :
    ∃ facts, facts.Perm (journal n) ∧ Accepts host manifest (vault n) facts := by
  have hmax : maxRecords = 256 := rfl
  have hroomy : maxItems = 10000 := rfl
  induction n with
  | zero =>
      have hempty : Accepts host manifest [] [] := by
        intro listing hlisting
        rw [List.map_nil] at hlisting
        rw [hlisting.eq_nil]
        rfl
      have hvalid : validate host (recordOf host manifest (.manifest manifest)) manifest = .ok () := rfl
      exact hempty.post hvalid (collect_journal 0) (isItemIdentity_connectId (by norm_num))
        List.not_mem_nil
        ⟨by rw [hroomy]; exact Nat.zero_lt_succ _, by rw [hmax]; exact Nat.zero_lt_succ _,
          fun _ hr => absurd hr List.not_mem_nil⟩
  | succ n ih =>
      obtain ⟨facts, hfacts, hacc⟩ := ih (by omega)
      have hroom : Room host (vault n) facts (recordOf host manifest (covered n)) := by
        refine ⟨?_, ?_, ?_⟩
        · rw [length_vault]
          omega
        · rw [hfacts.length_eq, length_journal]
          exact hn
        · exact fun r hr => digest_journal (by omega) r (hfacts.mem_iff.1 hr)
      have hcollect : collect host manifest (facts ++ [recordOf host manifest (covered n)]) =
          .ok (facts ++ [recordOf host manifest (covered n)]) := by
        have hjournal := collect_journal (n + 1)
        rw [journal_succ] at hjournal
        exact collect_perm (hfacts.symm.append_right _) hjournal
      obtain ⟨facts', hfacts', hacc'⟩ := hacc.post (valid_covered n) hcollect
        (isItemIdentity_connectId (by omega)) (fresh_vault (by omega)) hroom
      refine ⟨facts', ?_, hacc'⟩
      rw [journal_succ]
      exact hfacts'.trans (hfacts.append_right _)

end FullJournal

/-- A full journal is readable, and one more watch makes it unreadable. -/
theorem full_journal_lost : ∃ w facts, Accepts FullJournal.host FullJournal.manifest w.items facts ∧
    facts.length = 256 ∧
    ¬ KeepsReadable FullJournal.host FullJournal.manifest w facts true (FullJournal.covered 255) := by
  obtain ⟨facts, hfacts, hacc⟩ := FullJournal.accepts_vault 255 (by decide)
  have hlength : facts.length = 256 := by
    rw [hfacts.length_eq, FullJournal.length_journal]
  refine ⟨⟨FullJournal.vault 255, Directory.empty, []⟩, facts, hacc, hlength, ?_⟩
  intro hkeeps
  have hcollect := FullJournal.collect_journal 256
  rw [FullJournal.journal_succ] at hcollect
  have hnew : recordOf FullJournal.host FullJournal.manifest (FullJournal.covered 255) ∉ facts :=
    fun hmem => FullJournal.digest_journal (by omega) _ (hfacts.mem_iff.1 hmem) rfl
  have hroom := (keepsReadable_iff (w := ⟨FullJournal.vault 255, Directory.empty, []⟩) hacc).1 hkeeps
    ⟨FullJournal.valid_covered 255, hnew, collect_perm (hfacts.symm.append_right _) hcollect, rfl,
      rfl, rfl⟩
  have hfull := hroom.journal
  rw [hlength] at hfull
  exact absurd hfull (by decide)

end StaticHostAgent.Isolation
