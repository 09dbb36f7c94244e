import StaticHostAgent.Archives.RemoteListing
import Mathlib.Data.List.Nodup

/-!
# Remote listings are complete

What a listing asks for is a walk over different markers within the page bound
(`pagesFrom_walks`). Against a server that shows a listing chunk by chunk, a listing that returns
has every requested entry once (`listVersions_complete`). A purge deletes only what it listed, and
returns only after an empty listing (`purgeUnbound_empty`).
-/

set_option autoImplicit false

namespace StaticHostAgent.Archives

open Library Contracts

variable {client : ArchiveClient} {keyPrefix : String} {log t : Traffic}

theorem send_bind {α : Type} {request : Request} {f : Response → Durable Traffic RemoteError α}
    {response : Response} (hanswer : client log request = .ok response) :
    (send client request >>= f) log =
      ⟨(log ++ [⟨request, .ok response⟩]) :: (f response (log ++ [⟨request, .ok response⟩])).trace,
        (f response (log ++ [⟨request, .ok response⟩])).state,
        (f response (log ++ [⟨request, .ok response⟩])).result⟩ := by
  have hrun : send client request log = ⟨[log ++ [⟨request, .ok response⟩]],
      log ++ [⟨request, .ok response⟩], .ok response⟩ := by
    unfold send
    rw [hanswer]
  exact Durable.bind_ok hrun

/-- One request with what it leads to. -/
theorem send_spec {request : Request} {Visited : Traffic → Prop} {Post : Response → Traffic → Prop}
    {Raised : RemoteError → Traffic → Prop}
    (hvisited : Visited (log ++ [⟨request, client log request⟩]))
    (hok : ∀ response, client log request = .ok response →
      Post response (log ++ [⟨request, .ok response⟩]))
    (herror : ∀ e, client log request = .error e → Raised e (log ++ [⟨request, .error e⟩])) :
    Durable.Spec log (send client request) Visited Post Raised := by
  refine ⟨fun t ht => ?_, fun response hresponse => ?_, fun e he => ?_⟩
  · rw [List.mem_singleton.1 ht]
    exact hvisited
  · have hsame : client log request = .ok response := hresponse
    show Post response (log ++ [⟨request, client log request⟩])
    rw [hsame]
    exact hok response hsame
  · have hsame : client log request = .error e := he
    show Raised e (log ++ [⟨request, client log request⟩])
    rw [hsame]
    exact herror e hsame

/-! ## The walk over the pages -/

/-- The traffic since `log` is a listing of these markers. -/
def Asked (keyPrefix : String) (log t : Traffic) (markers : List (Option Marker)) : Prop :=
  ∃ exchanges, t = log ++ exchanges ∧
    exchanges.map Exchange.request = markers.map (Request.listObjectVersions keyPrefix)

/-- The markers of the rest of a listing: none twice, none that was seen, no more than the bound. -/
structure Walk (fuel : Nat) (marker : Option Marker) (seen : List Marker)
    (markers : List (Option Marker)) : Prop where
  distinct : markers.Nodup
  bounded : markers.length ≤ fuel
  unseen : ∀ next ∈ markers, next = marker ∨ ∃ p, next = some p ∧ p ∉ seen

/-- The marker at hand was seen, unless it is the first one. -/
def Current (marker : Option Marker) (seen : List Marker) : Prop :=
  ∀ p, marker = some p → p ∈ seen

theorem Walk.nil (fuel : Nat) (marker : Option Marker) (seen : List Marker) :
    Walk fuel marker seen [] :=
  ⟨List.nodup_nil, Nat.zero_le fuel, fun _ h => absurd h List.not_mem_nil⟩

theorem Walk.single (fuel : Nat) (marker : Option Marker) (seen : List Marker) :
    Walk (fuel + 1) marker seen [marker] := by
  refine ⟨List.nodup_singleton _, Nat.succ_le_succ (Nat.zero_le fuel), fun next hnext => ?_⟩
  exact Or.inl (List.mem_singleton.1 hnext)

/-- A page in front of the rest of the listing. -/
theorem Walk.cons {fuel : Nat} {marker : Option Marker} {seen : List Marker} {p : Marker}
    {markers : List (Option Marker)} (hcurrent : Current marker seen) (hfresh : p ∉ seen)
    (hrest : Walk fuel (some p) (p :: seen) markers) :
    Walk (fuel + 1) marker seen (marker :: markers) := by
  have hunseen : ∀ next ∈ markers, ∃ q, next = some q ∧ q ∉ seen := by
    intro next hnext
    rcases hrest.unseen next hnext with rfl | ⟨q, rfl, hq⟩
    · exact ⟨p, rfl, hfresh⟩
    · exact ⟨q, rfl, fun hseen => hq (List.mem_cons_of_mem p hseen)⟩
  refine ⟨List.nodup_cons.2 ⟨?_, hrest.distinct⟩, Nat.succ_le_succ hrest.bounded, ?_⟩
  · intro hagain
    obtain ⟨q, hq, hnot⟩ := hunseen marker hagain
    exact hnot (hcurrent q hq)
  · intro next hnext
    rcases List.mem_cons.1 hnext with rfl | hnext
    · exact Or.inl rfl
    · exact Or.inr (hunseen next hnext)

theorem Asked.single (marker : Option Marker) (answer : Except RemoteError Response) :
    Asked keyPrefix log (log ++ [⟨.listObjectVersions keyPrefix marker, answer⟩]) [marker] :=
  ⟨_, rfl, rfl⟩

theorem Asked.cons {marker : Option Marker} {answer : Except RemoteError Response}
    {markers : List (Option Marker)}
    (hrest : Asked keyPrefix (log ++ [⟨.listObjectVersions keyPrefix marker, answer⟩]) t markers) :
    Asked keyPrefix log t (marker :: markers) := by
  obtain ⟨exchanges, rfl, hrequests⟩ := hrest
  refine ⟨⟨.listObjectVersions keyPrefix marker, answer⟩ :: exchanges, ?_, ?_⟩
  · rw [List.append_assoc, List.singleton_append]
  · rw [List.map_cons, List.map_cons, hrequests]

theorem continuation_fresh {seen : List Marker} {response : Response} {p : Marker}
    (hcontinues : continuation keyPrefix seen response = .ok (some p)) : p ∉ seen := by
  unfold continuation at hcontinues
  split at hcontinues
  · cases hcontinues
  · obtain ⟨key, _, hrest⟩ := bind_eq_ok.1 hcontinues
    obtain ⟨versionId, _, hrest⟩ := bind_eq_ok.1 hrest
    obtain ⟨_, hcheck, hsome⟩ := bind_eq_ok.1 hrest
    cases hsome
    have hfresh := (Bool.and_eq_true_iff.1 (require_eq_ok.1 hcheck)).2
    rw [Bool.not_eq_true', ← Bool.not_eq_true, List.contains_iff_mem] at hfresh
    exact hfresh
  · cases hcontinues

/-- Whatever the server answers, the listing walks over different markers within its bound. -/
theorem pagesFrom_walks (fuel : Nat) (marker : Option Marker) (seen : List Marker) (log : Traffic)
    (hcurrent : Current marker seen) :
    Durable.Spec log (pagesFrom client keyPrefix fuel marker seen)
      (fun t => ∃ markers, Asked keyPrefix log t markers ∧ Walk fuel marker seen markers)
      (fun _ t => ∃ markers, Asked keyPrefix log t markers ∧ Walk fuel marker seen markers)
      (fun _ t => ∃ markers, Asked keyPrefix log t markers ∧ Walk fuel marker seen markers) := by
  induction fuel generalizing marker seen log with
  | zero =>
      exact Durable.Spec.fail ⟨[], ⟨[], (List.append_nil log).symm, rfl⟩, Walk.nil 0 marker seen⟩
  | succ fuel ih =>
      have hone : ∀ answer, ∃ markers, Asked keyPrefix log
          (log ++ [⟨.listObjectVersions keyPrefix marker, answer⟩]) markers ∧
            Walk (fuel + 1) marker seen markers :=
        fun answer => ⟨[marker], Asked.single marker answer, Walk.single fuel marker seen⟩
      refine Durable.Spec.bind (M := fun response t =>
        t = log ++ [⟨.listObjectVersions keyPrefix marker, .ok response⟩]) ?_ ?_
      · exact send_spec (hone _) (fun _ _ => rfl) fun e _ => hone _
      · rintro response t rfl
        refine Durable.Spec.query_bind (fun _ _ => hone _) fun _ _ => ?_
        refine Durable.Spec.query_bind (fun _ _ => hone _) fun following hfollowing => ?_
        cases following with
        | none => exact Durable.Spec.pure (hone _)
        | some next =>
            have hfresh := continuation_fresh hfollowing
            have hnext : Current (some next) (next :: seen) := by
              rintro p hp
              cases hp
              exact List.mem_cons_self
            have hwhole : ∀ t, (∃ markers, Asked keyPrefix
                (log ++ [⟨.listObjectVersions keyPrefix marker, .ok response⟩]) t markers ∧
                  Walk fuel (some next) (next :: seen) markers) →
                ∃ markers, Asked keyPrefix log t markers ∧ Walk (fuel + 1) marker seen markers := by
              rintro t ⟨markers, hasked, hwalk⟩
              exact ⟨marker :: markers, hasked.cons, hwalk.cons hcurrent hfresh⟩
            refine Durable.Spec.bind (M := fun _ t => ∃ markers, Asked keyPrefix log t markers ∧
              Walk (fuel + 1) marker seen markers) ?_ ?_
            · exact (ih (some next) (next :: seen) _ hnext).weaken (fun t ht => hwhole t ht)
                (fun _ t ht => hwhole t ht) fun _ t ht => hwhole t ht
            · exact fun rest t ht => Durable.Spec.pure ht

/-! ## The entries of the pages -/

/-- The item shows the entry; a delete marker is charged nothing. -/
structure Shown (deleteMarker : Bool) (item : Response) (entry : RemoteVersion) : Prop where
  key : item.lookup "Key" = some (.text entry.key)
  versionId : item.lookup "VersionId" = some (.text entry.versionId)
  kind : entry.deleteMarker = deleteMarker
  size : if deleteMarker then entry.size = 0 else item.lookup "Size" = some (.integer entry.size)

theorem Shown.unique {deleteMarker : Bool} {item : Response} {entry other : RemoteVersion}
    (hentry : Shown deleteMarker item entry) (hother : Shown deleteMarker item other) :
    entry = other := by
  have hkey := hentry.key.symm.trans hother.key
  have hversion := hentry.versionId.symm.trans hother.versionId
  have hkind := hentry.kind.trans hother.kind.symm
  have hsize : entry.size = other.size := by
    have hone := hentry.size
    have htwo := hother.size
    cases deleteMarker with
    | true => exact hone.trans htwo.symm
    | false =>
        exact Value.integer.inj (Option.some.inj (hone.symm.trans htwo))
  obtain ⟨k, v, n, d⟩ := entry
  obtain ⟨k', v', n', d'⟩ := other
  simp only [Option.some.injEq, Value.text.injEq] at hkey hversion
  obtain ⟨rfl, rfl⟩ := And.intro hkey hversion
  obtain ⟨rfl, rfl⟩ := And.intro hkind hsize
  rfl

theorem stringOf_eq_ok {response : Response} {field text : String}
    (hok : stringOf response field = .ok text) : response.lookup field = some (.text text) := by
  unfold stringOf at hok
  split at hok
  · next value hvalue =>
      obtain ⟨_, _, hsame⟩ := bind_eq_ok.1 hok
      cases hsame
      exact hvalue
  · cases hok

theorem lengthOf_eq_ok {response : Response} {field : String} {n : Int}
    (hok : lengthOf response field = .ok n) : response.lookup field = some (.integer n) := by
  unfold lengthOf at hok
  split at hok
  · next value hvalue =>
      obtain ⟨_, _, hsame⟩ := bind_eq_ok.1 hok
      cases hsame
      exact hvalue
  · cases hok

variable {exactKey : Option String} {deleteMarker : Bool} {found found' : Found}

/-- The entries that a listing keeps. -/
def wanted (exactKey : Option String) (entry : RemoteVersion) : Bool := requested exactKey entry.key

/-- The entries were taken one after another. -/
structure Takes (exactKey : Option String) (entries : List RemoteVersion) (found found' : Found) :
    Prop where
  seen : found'.seen = (entries.map RemoteVersion.identity).reverse ++ found.seen
  distinct : found.seen.Nodup → found'.seen.Nodup
  versions : found'.versions = found.versions ++ entries.filter (wanted exactKey)

theorem Takes.nil (found : Found) : Takes exactKey [] found found :=
  ⟨rfl, fun h => h, (List.append_nil _).symm⟩

theorem Takes.append {entries entries' : List RemoteVersion} {found'' : Found}
    (h : Takes exactKey entries found found') (h' : Takes exactKey entries' found' found'') :
    Takes exactKey (entries ++ entries') found found'' := by
  refine ⟨?_, fun hnodup => h'.distinct (h.distinct hnodup), ?_⟩
  · rw [h'.seen, h.seen, List.map_append, List.reverse_append, List.append_assoc]
  · rw [h'.versions, h.versions, List.filter_append, List.append_assoc]

/-- An item that is taken shows an entry that was not seen. -/
theorem addItem_takes {item : Response}
    (hok : addItem keyPrefix exactKey deleteMarker found item = .ok found') :
    ∃ entry, Shown deleteMarker item entry ∧ Takes exactKey [entry] found found' := by
  obtain ⟨key, hkey, hrest⟩ := bind_eq_ok.1 hok
  obtain ⟨_, _, hrest⟩ := bind_eq_ok.1 hrest
  obtain ⟨versionId, hversion, hrest⟩ := bind_eq_ok.1 hrest
  obtain ⟨_, hfresh, hrest⟩ := bind_eq_ok.1 hrest
  obtain ⟨size, hsize, hfound⟩ := bind_eq_ok.1 hrest
  cases hfound
  have hnew : (key, versionId) ∉ found.seen := by
    have hseen := require_eq_ok.1 hfresh
    rw [Bool.not_eq_true', ← Bool.not_eq_true, List.contains_iff_mem] at hseen
    exact hseen
  refine ⟨⟨key, versionId, size, deleteMarker⟩, ⟨stringOf_eq_ok hkey, stringOf_eq_ok hversion, rfl,
    ?_⟩, ⟨rfl, fun hnodup => List.nodup_cons.2 ⟨hnew, hnodup⟩, ?_⟩⟩
  · unfold chargedSize at hsize
    cases deleteMarker with
    | true => exact (Except.ok.inj hsize).symm
    | false => exact lengthOf_eq_ok hsize
  · rw [List.filter_singleton]
    unfold wanted
    cases requested exactKey key with
    | true => rfl
    | false => exact (List.append_nil _).symm

theorem addItems_takes {items : List Response}
    (hok : items.foldlM (addItem keyPrefix exactKey deleteMarker) found = .ok found') :
    ∃ entries, List.Forall₂ (Shown deleteMarker) items entries ∧
      Takes exactKey entries found found' := by
  induction items generalizing found with
  | nil =>
      cases hok
      exact ⟨[], .nil, Takes.nil _⟩
  | cons item items ih =>
      obtain ⟨middle, hitem, hrest⟩ := bind_eq_ok.1 ((List.foldlM_cons ..).symm.trans hok)
      obtain ⟨entry, hshown, htakes⟩ := addItem_takes hitem
      obtain ⟨entries, hall, hothers⟩ := ih hrest
      exact ⟨entry :: entries, .cons hshown hall, htakes.append hothers⟩

/-- The entries of a response, the versions before the delete markers. -/
def PageShows (response : Response) (versions markers : List RemoteVersion) : Prop :=
  ∃ items items', itemsOf response "Versions" = .ok items ∧
    itemsOf response "DeleteMarkers" = .ok items' ∧
    List.Forall₂ (Shown false) items versions ∧ List.Forall₂ (Shown true) items' markers

theorem addPage_takes {response : Response}
    (hok : addPage keyPrefix exactKey found response = .ok found') :
    ∃ versions markers, PageShows response versions markers ∧
      Takes exactKey (versions ++ markers) found found' := by
  obtain ⟨items, hitems, hrest⟩ := bind_eq_ok.1 hok
  obtain ⟨middle, hversions, hrest⟩ := bind_eq_ok.1 hrest
  obtain ⟨items', hitems', hmarkers⟩ := bind_eq_ok.1 hrest
  obtain ⟨versions, hshown, htakes⟩ := addItems_takes hversions
  obtain ⟨markers, hshown', htakes'⟩ := addItems_takes hmarkers
  exact ⟨versions, markers, ⟨items, items', hitems, hitems', hshown, hshown'⟩,
    htakes.append htakes'⟩

theorem forall₂_unique {α β : Type} {R : α → β → Prop} (hunique : ∀ a b b', R a b → R a b' → b = b')
    {xs : List α} {ys zs : List β} (hys : List.Forall₂ R xs ys) (hzs : List.Forall₂ R xs zs) :
    ys = zs := by
  induction hys generalizing zs with
  | nil =>
      cases hzs
      rfl
  | cons h _ ih =>
      cases hzs with
      | cons h' hrest => rw [hunique _ _ _ h h', ih hrest]

theorem PageShows.unique {response : Response} {versions markers versions' markers' : List RemoteVersion}
    (h : PageShows response versions markers) (h' : PageShows response versions' markers') :
    versions = versions' ∧ markers = markers' := by
  obtain ⟨items, items₁, hitems, hitems₁, hversions, hmarkers⟩ := h
  obtain ⟨others, others₁, hothers, hothers₁, hversions', hmarkers'⟩ := h'
  cases hitems.symm.trans hothers
  cases hitems₁.symm.trans hothers₁
  have hone : ∀ mark item a b, Shown mark item a → Shown mark item b → a = b :=
    fun _ _ _ _ ha hb => ha.unique hb
  exact ⟨forall₂_unique (hone false) hversions hversions',
    forall₂_unique (hone true) hmarkers hmarkers'⟩

/-! ## A server that shows a listing -/

/-- The response shows this part of a listing. -/
def ShowsChunk (response : Response) (chunk : List RemoteVersion) : Prop :=
  PageShows response (chunk.filter fun entry => !entry.deleteMarker)
    (chunk.filter fun entry => entry.deleteMarker)

/-- After this traffic, the server answers a listing from the marker with these chunks, one page
after another; each page but the last says where the next one starts. -/
inductive Serves (client : ArchiveClient) (keyPrefix : String) :
    Traffic → Option Marker → List (List RemoteVersion) → Prop where
  | last {log : Traffic} {marker : Option Marker} {response : Response} {chunk : List RemoteVersion}
      (answer : client log (.listObjectVersions keyPrefix marker) = .ok response)
      (shows : ShowsChunk response chunk)
      (complete : response.lookup "IsTruncated" = some (.flag false)) :
      Serves client keyPrefix log marker [chunk]
  | page {log : Traffic} {marker : Option Marker} {response : Response} {chunk : List RemoteVersion}
      {key versionId : String} {chunks : List (List RemoteVersion)}
      (answer : client log (.listObjectVersions keyPrefix marker) = .ok response)
      (shows : ShowsChunk response chunk)
      (truncated : response.lookup "IsTruncated" = some (.flag true))
      (nextKey : response.lookup "NextKeyMarker" = some (.text key))
      (nextVersion : response.lookup "NextVersionIdMarker" = some (.text versionId))
      (rest : Serves client keyPrefix
        (log ++ [⟨.listObjectVersions keyPrefix marker, .ok response⟩]) (some (key, versionId))
        chunks) :
      Serves client keyPrefix log marker (chunk :: chunks)

/-- The pages that a listing returns show the chunks. -/
theorem pagesFrom_shows {marker : Option Marker} {chunks : List (List RemoteVersion)}
    (hserves : Serves client keyPrefix log marker chunks) (fuel : Nat) (seen : List Marker)
    {responses : List Response}
    (hok : (pagesFrom client keyPrefix fuel marker seen log).result = .ok responses) :
    List.Forall₂ ShowsChunk responses chunks := by
  induction hserves generalizing fuel seen responses with
  | @last log marker response chunk answer shows complete =>
      cases fuel with
      | zero => cases hok
      | succ fuel =>
          have hcontinues : continuation keyPrefix seen response = .ok none := by
            unfold continuation
            rw [complete]
          unfold pagesFrom at hok
          rw [send_bind answer] at hok
          obtain ⟨_, _, hrest⟩ := Durable.query_bind_result_ok hok
          obtain ⟨following, hfollowing, hrest⟩ := Durable.query_bind_result_ok hrest
          cases hcontinues.symm.trans hfollowing
          cases hrest
          exact .cons shows .nil
  | @page log marker response chunk key versionId chunks answer shows truncated nextKey nextVersion
      rest ih =>
      cases fuel with
      | zero => cases hok
      | succ fuel =>
          unfold pagesFrom at hok
          rw [send_bind answer] at hok
          obtain ⟨_, _, hrest⟩ := Durable.query_bind_result_ok hok
          obtain ⟨following, hfollowing, hrest⟩ := Durable.query_bind_result_ok hrest
          have hnext : following = some (key, versionId) := by
            unfold continuation at hfollowing
            rw [truncated] at hfollowing
            obtain ⟨key', hkey, hmore⟩ := bind_eq_ok.1 hfollowing
            obtain ⟨version', hversion, hmore⟩ := bind_eq_ok.1 hmore
            obtain ⟨_, _, hsome⟩ := bind_eq_ok.1 hmore
            cases hsome
            cases nextKey.symm.trans (stringOf_eq_ok hkey)
            cases nextVersion.symm.trans (stringOf_eq_ok hversion)
            rfl
          subst hnext
          obtain ⟨others, hothers, hall⟩ := Durable.bind_result_ok hrest
          cases hall
          exact .cons shows (ih fuel _ hothers)

/-- The fold over pages that show some chunks takes the entries of the chunks. -/
theorem addPages_takes {responses : List Response} {chunks : List (List RemoteVersion)}
    (hshows : List.Forall₂ ShowsChunk responses chunks)
    (hok : responses.foldlM (addPage keyPrefix exactKey) found = .ok found') :
    ∃ entries, entries.Perm chunks.flatten ∧ Takes exactKey entries found found' := by
  induction hshows generalizing found with
  | nil =>
      cases hok
      exact ⟨[], .refl _, Takes.nil _⟩
  | @cons response chunk responses chunks hchunk _ ih =>
      obtain ⟨middle, hpage, hrest⟩ := bind_eq_ok.1 ((List.foldlM_cons ..).symm.trans hok)
      obtain ⟨versions, markers, hentries, htakes⟩ := addPage_takes hpage
      obtain ⟨rfl, rfl⟩ := hentries.unique hchunk
      obtain ⟨entries, hperm, hothers⟩ := ih hrest
      have hparts : ((chunk.filter fun entry => !entry.deleteMarker) ++
          chunk.filter fun entry => entry.deleteMarker).Perm chunk := by
        refine List.perm_append_comm.trans ?_
        exact List.filter_append_perm (fun entry : RemoteVersion => entry.deleteMarker) chunk
      rw [List.flatten_cons]
      exact ⟨_, hparts.append hperm, htakes.append hothers⟩

/-- Every fold over pages takes the entries of some chunks. -/
theorem addPages_ok {responses : List Response}
    (hok : responses.foldlM (addPage keyPrefix exactKey) found = .ok found') :
    ∃ entries, Takes exactKey entries found found' := by
  induction responses generalizing found with
  | nil =>
      cases hok
      exact ⟨[], Takes.nil _⟩
  | cons response responses ih =>
      obtain ⟨middle, hpage, hrest⟩ := bind_eq_ok.1 ((List.foldlM_cons ..).symm.trans hok)
      obtain ⟨versions, markers, _, htakes⟩ := addPage_takes hpage
      obtain ⟨entries, hothers⟩ := ih hrest
      exact ⟨_, htakes.append hothers⟩

/-! ## Listings -/

variable {versions : List RemoteVersion}

/-- What a listing that returns went through. -/
theorem listVersions_ok (hok : (listVersions client exactKey log).result = .ok versions) :
    ∃ keyPrefix responses found, listedPrefix exactKey = .ok keyPrefix ∧
      (pages client keyPrefix log).result = .ok responses ∧
      responses.foldlM (addPage keyPrefix exactKey) ⟨[], []⟩ = .ok found ∧
      versions = found.versions := by
  obtain ⟨keyPrefix, hpre, hrest⟩ := Durable.query_bind_result_ok hok
  obtain ⟨responses, hresponses, hrest⟩ := Durable.bind_result_ok hrest
  obtain ⟨found, hfound, hsame⟩ := Durable.query_bind_result_ok hrest
  cases hsame
  exact ⟨keyPrefix, responses, found, hpre, hresponses, hfound, rfl⟩

/-- Whatever the server answers, no identity is returned twice, and only the requested key. -/
theorem listVersions_distinct (hok : (listVersions client exactKey log).result = .ok versions) :
    (versions.map RemoteVersion.identity).Nodup ∧
      ∀ entry ∈ versions, requested exactKey entry.key = true := by
  obtain ⟨keyPrefix, responses, found, -, -, hfound, rfl⟩ := listVersions_ok hok
  obtain ⟨entries, htakes⟩ := addPages_ok hfound
  have hversions : found.versions = entries.filter (wanted exactKey) := htakes.versions
  have hseen : found.seen = (entries.map RemoteVersion.identity).reverse :=
    htakes.seen.trans (List.append_nil _)
  have hnodup := htakes.distinct List.nodup_nil
  rw [hseen, List.nodup_reverse] at hnodup
  rw [hversions]
  refine ⟨hnodup.sublist (List.filter_sublist.map _), fun entry hentry => ?_⟩
  exact (List.mem_filter.1 hentry).2

theorem listedPrefix_eq_ok {exactKey : Option String} {keyPrefix : String}
    (hok : listedPrefix exactKey = .ok keyPrefix) :
    exactKey = none ∧ keyPrefix = "" ∨ exactKey = some keyPrefix := by
  cases exactKey with
  | none =>
      cases hok
      exact Or.inl ⟨rfl, rfl⟩
  | some key =>
      obtain ⟨_, _, hsame⟩ := bind_eq_ok.1 hok
      cases hsame
      exact Or.inr rfl

/-- What is requested is below the prefix that is listed. -/
theorem startsWith_of_requested (hpre : listedPrefix exactKey = .ok keyPrefix) {key : String}
    (hrequested : requested exactKey key = true) : startsWith key keyPrefix = true := by
  unfold startsWith
  rw [List.isPrefixOf_iff_prefix]
  rcases listedPrefix_eq_ok hpre with ⟨rfl, rfl⟩ | rfl
  · exact List.nil_prefix
  · rw [of_decide_eq_true hrequested]

/-- Against a server that shows a listing in chunks, every requested entry is returned once, and
nothing else. -/
theorem listVersions_complete {listing : List RemoteVersion} {chunks : List (List RemoteVersion)}
    (hpre : listedPrefix exactKey = .ok keyPrefix)
    (hserves : Serves client keyPrefix log none chunks)
    (hsplit : chunks.flatten = listing.filter fun entry => startsWith entry.key keyPrefix)
    (hok : (listVersions client exactKey log).result = .ok versions) :
    versions.Perm (listing.filter (wanted exactKey)) := by
  obtain ⟨keyPrefix', responses, found, hpre', hresponses, hfound, rfl⟩ := listVersions_ok hok
  cases hpre.symm.trans hpre'
  have hshows := pagesFrom_shows hserves maxPages [] hresponses
  obtain ⟨entries, hperm, htakes⟩ := addPages_takes hshows hfound
  have hversions : found.versions = entries.filter (wanted exactKey) := htakes.versions
  rw [hversions]
  refine (hperm.filter _).trans ?_
  rw [hsplit, List.filter_filter]
  have hsame : ∀ entry ∈ listing, (wanted exactKey entry && startsWith entry.key keyPrefix) =
      wanted exactKey entry := by
    intro entry _
    cases hwanted : wanted exactKey entry with
    | false => rfl
    | true => exact startsWith_of_requested hpre hwanted
  rw [List.filter_congr hsame]

/-- Whatever the server answers, a listing asks for different markers within the page bound. -/
theorem listVersions_walks (client : ArchiveClient) (exactKey : Option String) (log : Traffic) :
    ∃ keyPrefix markers, Asked keyPrefix log (listVersions client exactKey log).state markers ∧
      markers.Nodup ∧ markers.length ≤ maxPages := by
  have hstay : ∃ keyPrefix markers, Asked keyPrefix log log markers ∧
      Walk maxPages none [] markers :=
    ⟨"", [], ⟨[], (List.append_nil log).symm, rfl⟩, Walk.nil _ _ _⟩
  have hspec : Durable.Spec log (listVersions client exactKey) (fun _ => True)
      (fun _ t => ∃ keyPrefix markers, Asked keyPrefix log t markers ∧ Walk maxPages none [] markers)
      (fun _ t => ∃ keyPrefix markers, Asked keyPrefix log t markers ∧
        Walk maxPages none [] markers) := by
    refine Durable.Spec.query_bind (fun _ _ => hstay) fun keyPrefix _ => ?_
    refine Durable.Spec.bind (M := fun _ t => ∃ markers, Asked keyPrefix log t markers ∧
      Walk maxPages none [] markers) ?_ ?_
    · have hwalks : Durable.Spec log (pagesFrom client keyPrefix maxPages none [])
          (fun t => ∃ markers, Asked keyPrefix log t markers ∧ Walk maxPages none [] markers)
          (fun _ t => ∃ markers, Asked keyPrefix log t markers ∧ Walk maxPages none [] markers)
          (fun _ t => ∃ markers, Asked keyPrefix log t markers ∧ Walk maxPages none [] markers) :=
        pagesFrom_walks maxPages none [] log fun p hp => nomatch hp
      exact hwalks.weaken (fun _ _ => trivial) (fun _ _ ht => ht) fun _ _ ht => ⟨keyPrefix, ht⟩
    · intro responses t ht
      refine Durable.Spec.query_bind (fun _ _ => ⟨keyPrefix, ht⟩) fun found _ => ?_
      exact Durable.Spec.pure ⟨keyPrefix, ht⟩
  have hend : ∃ keyPrefix markers, Asked keyPrefix log (listVersions client exactKey log).state
      markers ∧ Walk maxPages none [] markers := by
    cases hresult : (listVersions client exactKey log).result with
    | ok versions => exact hspec.post versions hresult
    | error e => exact hspec.raised e hresult
  obtain ⟨keyPrefix, markers, hasked, hwalk⟩ := hend
  exact ⟨keyPrefix, markers, hasked, hwalk.distinct, hwalk.bounded⟩

/-! ## Purges -/

/-- The version was listed under the key, by a listing that began after `log` and ended before `t`. -/
def Listed (client : ArchiveClient) (key versionId : String) (log t : Traffic) : Prop :=
  ∃ start versions entry, log <+: start ∧
    (listVersions client (some key) start).result = .ok versions ∧
    (listVersions client (some key) start).state <+: t ∧
    entry ∈ versions ∧ entry.key = key ∧ entry.versionId = versionId

/-- Since `log`, only listed versions of the key were deleted. -/
def DeletesListed (client : ArchiveClient) (key : String) (log t : Traffic) : Prop :=
  ∃ exchanges, t = log ++ exchanges ∧ ∀ before e after, exchanges = before ++ e :: after →
    ∀ other versionId, e.request = .deleteObject other versionId →
      other = key ∧ Listed client key versionId log (log ++ before)

theorem DeletesListed.refl (client : ArchiveClient) (key : String) (log : Traffic) :
    DeletesListed client key log log := by
  refine ⟨[], (List.append_nil log).symm, ?_⟩
  intro before e after hsplit
  exact absurd hsplit (by cases before <;> nofun)

theorem DeletesListed.prefix_of {key : String} (h : DeletesListed client key log t) : log <+: t := by
  obtain ⟨exchanges, rfl, -⟩ := h
  exact List.prefix_append _ _

/-- More traffic, each deletion of which is of a version listed before. -/
theorem DeletesListed.append {key : String} {more : List Exchange}
    (h : DeletesListed client key log t)
    (hmore : ∀ e ∈ more, ∀ other versionId, e.request = .deleteObject other versionId →
      other = key ∧ Listed client key versionId log t) :
    DeletesListed client key log (t ++ more) := by
  obtain ⟨exchanges, rfl, hdeletes⟩ := h
  refine ⟨exchanges ++ more, List.append_assoc _ _ _, ?_⟩
  intro before e after hsplit other versionId hrequest
  rcases List.append_eq_append_iff.1 hsplit with ⟨mid, rfl, hafter⟩ | ⟨mid, rfl, hafter⟩
  · -- the deletion is in the new part
    have hmem : e ∈ more := by
      rw [hafter]
      exact List.mem_append_right _ List.mem_cons_self
    obtain ⟨hkey, start, versions, entry, hstart, hlisted, hstate, hentry⟩ :=
      hmore e hmem other versionId hrequest
    refine ⟨hkey, start, versions, entry, hstart, hlisted, hstate.trans ?_, hentry⟩
    rw [← List.append_assoc]
    exact List.prefix_append _ _
  · cases mid with
    | nil =>
        have hmem : e ∈ more := by
          rw [List.nil_append] at hafter
          rw [← hafter]
          exact List.mem_cons_self
        obtain ⟨hkey, hlisted⟩ := hmore e hmem other versionId hrequest
        rw [List.append_nil] at hlisted
        exact ⟨hkey, hlisted⟩
    | cons e' mid =>
        cases (List.cons.inj hafter).1
        exact hdeletes before e mid rfl other versionId hrequest

/-- A listing deletes nothing. -/
theorem DeletesListed.list {key : String} (h : DeletesListed client key log t)
    (exactKey : Option String) :
    DeletesListed client key log (listVersions client exactKey t).state := by
  obtain ⟨keyPrefix, markers, ⟨exchanges, hstate, hrequests⟩, -, -⟩ :=
    listVersions_walks client exactKey t
  rw [hstate]
  apply h.append
  intro e he other versionId hrequest
  have hmem : e.request ∈ markers.map (Request.listObjectVersions keyPrefix) := by
    rw [← hrequests]
    exact List.mem_map_of_mem he
  obtain ⟨marker, -, hmarker⟩ := List.mem_map.1 hmem
  rw [hrequest] at hmarker
  cases hmarker

/-- The traffic ends with a listing, begun after `log`, that showed nothing under the key. -/
def EmptyListing (client : ArchiveClient) (key : String) (log t : Traffic) : Prop :=
  ∃ start, log <+: start ∧ (listVersions client (some key) start).result = .ok [] ∧
    t = (listVersions client (some key) start).state

variable {requireUnbound : String → Traffic → Except RemoteError Unit} {key : String}

/-- The outcome of a listing as a rule. -/
theorem listVersions_spec (exactKey : Option String) (t : Traffic) :
    Durable.Spec t (listVersions client exactKey) (fun _ => True)
      (fun versions u => (listVersions client exactKey t).result = .ok versions ∧
        u = (listVersions client exactKey t).state)
      (fun _ u => u = (listVersions client exactKey t).state) :=
  ⟨fun _ _ => trivial, fun _ hresult => ⟨hresult, rfl⟩, fun _ _ => rfl⟩

theorem requireAbsent_spec (h : DeletesListed client key log t) :
    Durable.Spec t (requireAbsent client key) (fun _ => True)
      (fun _ u => DeletesListed client key log u ∧ EmptyListing client key log u)
      (fun _ u => DeletesListed client key log u) := by
  refine Durable.Spec.bind ((listVersions_spec (some key) t).weaken (fun _ ht => ht)
    (fun _ _ hu => hu) fun _ u hu => ?_) ?_
  · rw [hu]
    exact h.list _
  · rintro versions u ⟨hresult, rfl⟩
    refine Durable.Spec.query (fun _ hnone => ?_) fun _ _ => h.list _
    have hempty : versions = [] := List.isEmpty_iff.1 (require_eq_ok.1 hnone)
    rw [hempty] at hresult
    exact ⟨h.list _, t, h.prefix_of, hresult, rfl⟩

/-- One deletion, of a version that was listed. -/
theorem deleteVersion_spec {entry : RemoteVersion} {u : Traffic}
    (h : DeletesListed client key log u) (hlisted : Listed client key entry.versionId log u) :
    Durable.Spec u (deleteVersion client requireUnbound key entry) (fun _ => True)
      (fun _ v => DeletesListed client key log v ∧ u <+: v)
      (fun _ v => DeletesListed client key log v) := by
  have hnext : ∀ answer, DeletesListed client key log
      (u ++ [⟨.deleteObject key entry.versionId, answer⟩]) := by
    intro answer
    apply h.append
    intro e he other versionId hrequest
    rw [List.mem_singleton.1 he] at hrequest
    cases hrequest
    exact ⟨rfl, hlisted⟩
  refine Durable.Spec.query_bind (fun _ _ => h) fun _ _ => ?_
  refine Durable.Spec.bind (M := fun _ v => DeletesListed client key log v ∧ u <+: v) ?_ ?_
  · exact send_spec trivial (fun response _ => ⟨hnext _, List.prefix_append _ _⟩) fun e _ => hnext _
  · rintro response v ⟨hv, hpre⟩
    exact Durable.Spec.query (fun _ _ => ⟨hv, hpre⟩) fun _ _ => hv

/-- The rounds delete listed versions only, and end with an empty listing. -/
theorem purgeRounds_spec (rounds : Nat) (h : DeletesListed client key log t) :
    Durable.Spec t (purgeRounds client requireUnbound key rounds) (fun _ => True)
      (fun _ u => DeletesListed client key log u ∧ EmptyListing client key log u)
      (fun _ u => DeletesListed client key log u) := by
  induction rounds generalizing t with
  | zero => exact requireAbsent_spec h
  | succ rounds ih =>
      refine Durable.Spec.query_bind (fun _ _ => h) fun _ _ => ?_
      refine Durable.Spec.bind ((listVersions_spec (some key) t).weaken (fun _ ht => ht)
        (fun _ _ hu => hu) fun _ u hu => ?_) ?_
      · rw [hu]
        exact h.list _
      · rintro versions u ⟨hresult, rfl⟩
        cases hempty : versions.isEmpty with
        | true =>
            rw [if_pos rfl]
            rw [List.isEmpty_iff.1 hempty] at hresult
            exact Durable.Spec.pure ⟨h.list _, t, h.prefix_of, hresult, rfl⟩
        | false =>
            rw [if_neg Bool.false_ne_true]
            refine Durable.Spec.bind (M := fun _ v => DeletesListed client key log v ∧
              (listVersions client (some key) t).state <+: v) ?_ ?_
            · refine Durable.Spec.forM (I := fun v => DeletesListed client key log v ∧
                (listVersions client (some key) t).state <+: v) ⟨h.list _, List.prefix_refl _⟩ ?_
              rintro entry hentry v ⟨hv, hpre⟩
              have hkey : entry.key = key :=
                of_decide_eq_true ((listVersions_distinct hresult).2 entry hentry)
              have hlisted : Listed client key entry.versionId log v :=
                ⟨t, versions, entry, h.prefix_of, hresult, hpre, hentry, hkey, rfl⟩
              exact (deleteVersion_spec hv hlisted).weaken (fun _ hx => hx)
                (fun _ _ hx => ⟨hx.1, hpre.trans hx.2⟩) fun _ _ hx => hx
            · rintro _ v ⟨hv, -⟩
              exact ih hv

theorem purgeUnbound_spec (client : ArchiveClient)
    (requireUnbound : String → Traffic → Except RemoteError Unit) (key : String) (log : Traffic) :
    Durable.Spec log (purgeUnbound client requireUnbound key) (fun _ => True)
      (fun _ u => DeletesListed client key log u ∧ EmptyListing client key log u)
      (fun _ u => DeletesListed client key log u) :=
  Durable.Spec.query_bind (fun _ _ => DeletesListed.refl client key log)
    fun _ _ => purgeRounds_spec 3 (DeletesListed.refl client key log)

/-! ## The laws of remote listings -/

/-- What holds of listings and purges, whatever was exchanged before: a listing that returns is
complete against every server that shows a listing in chunks, distinct and bounded against every
server; a purge deletes what it listed and returns after an empty listing. -/
structure RemoteListingLaws (client : ArchiveClient) : Prop where
  complete : ∀ log exactKey keyPrefix (listing : List RemoteVersion) chunks versions,
    listedPrefix exactKey = .ok keyPrefix → Serves client keyPrefix log none chunks →
    chunks.flatten = (listing.filter fun entry => startsWith entry.key keyPrefix) →
    (listVersions client exactKey log).result = .ok versions →
    versions.Perm (listing.filter (wanted exactKey)) ∧
      (versions.map RemoteVersion.identity).Nodup
  distinct : ∀ log exactKey versions, (listVersions client exactKey log).result = .ok versions →
    (versions.map RemoteVersion.identity).Nodup ∧
      ∀ entry ∈ versions, requested exactKey entry.key = true
  walks : ∀ log exactKey, ∃ keyPrefix markers,
    Asked keyPrefix log (listVersions client exactKey log).state markers ∧
      markers.Nodup ∧ markers.length ≤ maxPages
  purged : ∀ log requireUnbound key,
    (purgeUnbound client requireUnbound key log).result = .ok () →
    EmptyListing client key log (purgeUnbound client requireUnbound key log).state
  deletes : ∀ log requireUnbound key,
    DeletesListed client key log (purgeUnbound client requireUnbound key log).state

/-- Every client satisfies the laws. -/
theorem remote_listing_laws (client : ArchiveClient) : RemoteListingLaws client := by
  refine ⟨?_, ?_, ?_, ?_, ?_⟩
  · intro log exactKey keyPrefix listing chunks versions hpre hserves hsplit hok
    exact ⟨listVersions_complete hpre hserves hsplit hok, (listVersions_distinct hok).1⟩
  · intro log exactKey versions hok
    exact listVersions_distinct hok
  · intro log exactKey
    exact listVersions_walks client exactKey log
  · intro log requireUnbound key hok
    exact ((purgeUnbound_spec client requireUnbound key log).post () hok).2
  · intro log requireUnbound key
    have hspec := purgeUnbound_spec client requireUnbound key log
    cases hresult : (purgeUnbound client requireUnbound key log).result with
    | ok u => exact (hspec.post u hresult).1
    | error e => exact hspec.raised e hresult

/-- A listing of two versions and a marker, with an empty page between them. -/
example :
    let page (key : String) (more : Bool) (next : String) (fields : Response) : Response :=
      [("IsTruncated", .flag more), ("NextKeyMarker", .text key),
        ("NextVersionIdMarker", .text next)] ++ fields
    let item (version : String) : Value :=
      .mapping [("Key", .text "a"), ("VersionId", .text version), ("Size", .integer 5)]
    let client : ArchiveClient := fun _ request =>
      match request with
      | .listObjectVersions _ none => .ok (page "a" true "1" [("Versions", .items [item "1"])])
      | .listObjectVersions _ (some ("a", "1")) => .ok (page "a" true "2" [])
      | .listObjectVersions _ _ => .ok (page "" false "" [("Versions", .items [item "2"]),
          ("DeleteMarkers", .items [item "3"])])
      | .deleteObject _ _ => .ok []
    (listVersions client none []).result =
      .ok [⟨"a", "1", 5, false⟩, ⟨"a", "2", 5, false⟩, ⟨"a", "3", 0, true⟩] := by
  rfl

end StaticHostAgent.Archives
