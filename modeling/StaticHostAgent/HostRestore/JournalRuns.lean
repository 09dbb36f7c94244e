import StaticHostAgent.HostRestore.Journal
import StaticHostAgent.Library.Handlers
import StaticHostAgent.Library.Restartable

/-!
# Crashes and retries of the restore journal

`Recorded` says that the files hold a journal with its whole history: its predecessors, each of them
linked by its digest, and its receipts. The reader accepts exactly the recorded heads
(`read_eq_some`). Writing evidence of the next phase keeps what is recorded, so that every surviving
state of a call has the journal before or the journal after it.
-/

set_option autoImplicit false

namespace StaticHostAgent.HostRestore

open Library Contracts Backup

variable {h : BackupHost}

/-! ## Phases and names -/

theorem phases_nodup : phases.Nodup := by decide

theorem mem_phases (phase : RestorePhase) : phase ∈ phases := by cases phase <;> decide

theorem index_lt (phase : RestorePhase) : phase.index < phases.length :=
  List.idxOf_lt_length_iff.2 (mem_phases phase)

theorem phases_index (phase : RestorePhase) (h : phase.index < phases.length) :
    phases[phase.index] = phase :=
  List.getElem_idxOf h

theorem index_phases {i : Nat} (hi : i < phases.length) : (phases[i]).index = i :=
  phases_nodup.idxOf_getElem i hi

theorem index_injective : Function.Injective RestorePhase.index := by
  intro p q h
  cases p <;> cases q <;> first | rfl | exact absurd h (by decide)

theorem ofText_value (phase : RestorePhase) : RestorePhase.ofText phase.value = some phase := by
  cases phase <;> decide

theorem take_index (phase : RestorePhase) :
    phases.take (phase.index + 1) = phases.take phase.index ++ [phase] := by
  rw [← List.take_concat_get' phases phase.index (index_lt phase),
    phases_index phase (index_lt phase)]

theorem journalName_injective : Function.Injective journalName := by
  intro p q h
  cases p <;> cases q <;> first | rfl | exact absurd h (by decide)

theorem receiptName_injective : Function.Injective receiptName := by
  intro p q h
  cases p <;> cases q <;> first | rfl | exact absurd h (by decide)

theorem journalName_ne_receiptName (p q : RestorePhase) : journalName p ≠ receiptName q := by
  cases p <;> cases q <;> decide

theorem journalName_ne_head (p : RestorePhase) : journalName p ≠ journalHead := by
  cases p <;> decide

theorem receiptName_ne_head (p : RestorePhase) : receiptName p ≠ journalHead := by
  cases p <;> decide

/-! ## Bytes of a journal -/

theorem digests_normal (digests : List FramedDigest) :
    (Json.array (digests.map FramedDigest.json)).Normal := by
  refine .array _ fun e he => ?_
  obtain ⟨digest, -, rfl⟩ := List.mem_map.1 he
  exact digest.json_normal

theorem RestoreBindings.json_normal (b : RestoreBindings) : b.json.Normal := by
  have hnames : Json.NamesAscend ["backupDescriptor", "destination", "originalArtifact",
    "repository", "sourceFence", "trustedInputs"] := by decide
  refine .object _ hnames ?_
  simp only [List.forall_mem_cons]
  exact ⟨b.backupDescriptor.json_normal, b.destination.json_normal, b.originalArtifact.json_normal,
    b.repository.json_normal, b.sourceFence.json_normal, b.trustedInputs.json_normal,
    fun _ hmem => absurd hmem List.not_mem_nil⟩

theorem previousJson_normal (previous : Option FramedDigest) : (previousJson previous).Normal := by
  cases previous with
  | none => exact .null
  | some digest => exact digest.json_normal

/-- A journal as a JSON object. -/
def RestoreJournal.object (j : RestoreJournal) : JsonObject where
  members := j.members
  normal := by
    have hnames : Json.NamesAscend ["bindings", "captureId", "lineageId", "phase",
      "previousJournalDigest", "receipts", "restoreId", "schema", "snapshotId"] := by decide
    refine .object _ hnames ?_
    simp only [RestoreJournal.members, List.forall_mem_cons]
    exact ⟨j.bindings.json_normal, .string _, .string _, .string _, previousJson_normal _,
      digests_normal _, .string _, .string _, .string _, fun _ hmem => absurd hmem List.not_mem_nil⟩

/-- What `to_bytes` checks. -/
structure WellFormed (j : RestoreJournal) : Prop where
  authority : RestoreJournal.requireAuthority j = .ok ()
  progress : RestoreJournal.requireProgress j = .ok ()

/-- One more receipt belongs to the next phase. -/
theorem mem_zip_receipts {receipts : List FramedDigest} {digest : FramedDigest}
    {phase : RestorePhase} (hphase : phase.index = receipts.length + 1)
    {pair : RestorePhase × FramedDigest}
    (hpair : pair ∈ List.zip (phases.drop 1) (receipts ++ [digest])) :
    pair ∈ List.zip (phases.drop 1) receipts ∨ pair = (phase, digest) := by
  obtain ⟨i, hi, rfl⟩ := List.mem_iff_getElem.1 hpair
  rw [List.length_zip, lt_min_iff, List.length_append, List.length_singleton] at hi
  obtain ⟨hdropped, hlt⟩ := hi
  rw [List.getElem_zip]
  rcases Nat.lt_or_ge i receipts.length with hold | hnew
  · refine Or.inl (List.mem_iff_getElem.2 ⟨i, List.length_zip ▸ lt_min hdropped hold, ?_⟩)
    rw [List.getElem_zip, List.getElem_append_left hold]
  · have hlast : i = receipts.length := by omega
    have hdrop : (phases.drop 1)[i] = phase := by
      rw [List.getElem_drop]
      simp only [show 1 + i = phase.index by omega]
      exact phases_index phase (index_lt phase)
    refine Or.inr (Prod.ext hdrop ?_)
    simp only [hlast, List.getElem_concat_length]

/-- A journal that goes on from a well-formed one is well formed. -/
theorem WellFormed.advanced {before : RestoreJournal} {phase : RestorePhase} {digest : FramedDigest}
    (hbefore : WellFormed before) (hphase : phase.index = before.phase.index + 1)
    (hdigest : digest.hasFormat restoreSchema = true) (receipt : Bytes) :
    WellFormed (HostRestore.advanced h before digest phase receipt) := by
  refine ⟨hbefore.authority, ?_⟩
  have hprogress := hbefore.progress
  unfold RestoreJournal.requireProgress at hprogress ⊢
  simp only [bind_eq_ok, require_eq_ok, decide_eq_true_eq] at hprogress ⊢
  obtain ⟨⟨⟩, hlength, ⟨⟩, hreceipts, -⟩ := hprogress
  have hindex : phase.index ≠ 0 := by omega
  refine ⟨(), ?_, (), List.all_eq_true.2 fun pair hpair => ?_, ?_⟩
  · rw [HostRestore.advanced, List.length_append, List.length_singleton, hlength, hphase]
  · rcases mem_zip_receipts (by rw [hlength, hphase]) hpair with hold | rfl
    · exact List.all_eq_true.1 hreceipts pair hold
    · exact FramedDigest.hasFormat_sha256Text _ _
  · show (if phase.index = 0 then _ else require (digest.hasFormat restoreSchema) _) = _
    rw [if_neg hindex, hdigest]
    rfl
theorem toBytes_eq_ok {j : RestoreJournal} {raw : Bytes} :
    RestoreJournal.toBytes h j = .ok raw ↔
      WellFormed j ∧ h.encodeRecord j.object.json maxRestoreBytes = some raw := by
  unfold RestoreJournal.toBytes
  simp only [bind_eq_ok]
  constructor
  · rintro ⟨⟨⟩, hauthority, ⟨⟩, hprogress, hraw⟩
    refine ⟨⟨hauthority, hprogress⟩, ?_⟩
    split at hraw
    · cases hraw
    · rename_i found hfound
      rw [← pure_eq_ok.1 hraw]
      exact hfound
  · rintro ⟨hj, hraw⟩
    refine ⟨(), hj.authority, (), hj.progress, ?_⟩
    rw [show h.encodeRecord (.object j.members) maxRestoreBytes = some raw from hraw]
    rfl

theorem toBytes_length {j : RestoreJournal} {raw : Bytes} (hraw : RestoreJournal.toBytes h j = .ok raw) :
    raw.length ≤ maxRestoreBytes :=
  CanonicalText.encodeRecord_length (toBytes_eq_ok.1 hraw).2

theorem receipts_length {j : RestoreJournal} {raw : Bytes}
    (hraw : RestoreJournal.toBytes h j = .ok raw) : j.receipts.length = j.phase.index := by
  have hprogress := (toBytes_eq_ok.1 hraw).1.progress
  unfold RestoreJournal.requireProgress at hprogress
  obtain ⟨_, hlength, -⟩ := bind_eq_ok.1 hprogress
  exact of_decide_eq_true (require_eq_ok.1 hlength)

theorem digests_ofJson (digests : List FramedDigest) :
    (digests.map FramedDigest.json).mapM FramedDigest.ofJson = some digests := by
  induction digests with
  | nil => rfl
  | cons digest rest ih =>
      rw [List.map_cons, List.mapM_cons, FramedDigest.ofJson_json, ih]
      rfl

theorem previousOfJson_previousJson (previous : Option FramedDigest) :
    previousOfJson (previousJson previous) = some previous := by
  cases previous <;> rfl

theorem journalOfMembers_members (j : RestoreJournal) : journalOfMembers j.members = .ok j := by
  have hbindings : RestoreBindings.ofJson j.bindings.json = some j.bindings := rfl
  unfold RestoreJournal.members journalOfMembers
  simp only [decide_true, require_true, ok_bind, ofText_value, hbindings, digests_ofJson,
    previousOfJson_previousJson, orRaise]
  rfl

/-- A journal is read from its bytes, and from no others. -/
theorem fromBytes_eq_ok {raw : Bytes} {j : RestoreJournal} :
    RestoreJournal.fromBytes h raw = .ok j ↔ RestoreJournal.toBytes h j = .ok raw := by
  unfold RestoreJournal.fromBytes
  constructor
  · intro hj
    simp only [bind_eq_ok, require_eq_ok, decide_eq_true_eq, pure_eq_ok] at hj
    obtain ⟨members, -, result, -, canonical, hcanonical, -, rfl, rfl⟩ := hj
    exact hcanonical
  · intro hraw
    have hdecoded := CanonicalText.decodeRecord_encodeRecord (toBytes_eq_ok.1 hraw).2
    rw [hdecoded]
    show (journalOfMembers j.members >>= _) = _
    rw [journalOfMembers_members, ok_bind, hraw, ok_bind, decide_eq_true rfl]
    rfl

/-! ## What is recorded -/

theorem readBytes_eq_ok {name : String} {files : RestoreFiles} {raw : Bytes} :
    readBytes name files = .ok raw ↔
      files.find? name = some raw ∧ raw.length ≤ maxRestoreBytes := by
  unfold readBytes
  cases files.find? name with
  | none =>
      constructor
      · intro hraw
        cases hraw
      · rintro ⟨hfound, -⟩
        cases hfound
  | some found =>
      simp only [bind_eq_ok, require_eq_ok, decide_eq_true_eq, pure_eq_ok, Option.some_inj]
      constructor
      · rintro ⟨_, hsize, rfl⟩
        exact ⟨rfl, hsize⟩
      · rintro ⟨rfl, hsize⟩
        exact ⟨(), hsize, rfl⟩

/-- The files hold the journal, every journal before it and every receipt of it, each journal with
the digest of the one before. -/
inductive Recorded (h : BackupHost) (files : RestoreFiles) : RestoreJournal → Prop where
  | prepared {j : RestoreJournal} {raw : Bytes} (hphase : j.phase = .prepared)
      (hraw : RestoreJournal.toBytes h j = .ok raw)
      (hstored : files.find? (journalName .prepared) = some raw) : Recorded h files j
  | advanced {before : RestoreJournal} {phase : RestorePhase} {digest : FramedDigest}
      {receipt raw : Bytes} (hbefore : Recorded h files before)
      (hphase : phase.index = before.phase.index + 1)
      (hreceipt : files.find? (receiptName phase) = some receipt)
      (hcanonical : h.Recorded maxRestoreBytes receipt)
      (hdigest : RestoreJournal.digest h before = .ok digest)
      (hraw : RestoreJournal.toBytes h (HostRestore.advanced h before digest phase receipt) = .ok raw)
      (hstored : files.find? (journalName phase) = some raw) :
      Recorded h files (HostRestore.advanced h before digest phase receipt)

namespace Recorded

variable {files files' : RestoreFiles} {j journal : RestoreJournal}

theorem stored (hj : Recorded h files j) :
    ∃ raw, RestoreJournal.toBytes h j = .ok raw ∧ files.find? (journalName j.phase) = some raw := by
  cases hj with
  | prepared hphase hraw hstored => exact ⟨_, hraw, hphase ▸ hstored⟩
  | advanced _ _ _ _ _ hraw hstored => exact ⟨_, hraw, hstored⟩

/-- Every phase so far has its journal. -/
theorem exists_journal (hj : Recorded h files j) {phase : RestorePhase}
    (hphase : phase.index ≤ j.phase.index) : (files.find? (journalName phase)).isSome = true := by
  induction hj with
  | prepared hprepared _ hstored =>
      rw [hprepared] at hphase
      have hfirst : phase = .prepared := index_injective (Nat.le_zero.1 hphase)
      rw [hfirst, hstored]
      rfl
  | @advanced before next digest receipt raw hbefore hnext _ _ _ _ hstored ih =>
      rcases Nat.lt_or_ge phase.index next.index with hlt | hge
      · exact ih (by omega)
      · have hsame : phase = next := index_injective (le_antisymm hphase hge)
        rw [hsame, hstored]
        rfl

/-- Files of later phases do not matter. -/
theorem frame (hj : Recorded h files j)
    (hsame : ∀ phase : RestorePhase, phase.index ≤ j.phase.index →
      files'.find? (journalName phase) = files.find? (journalName phase) ∧
        files'.find? (receiptName phase) = files.find? (receiptName phase)) :
    Recorded h files' j := by
  induction hj with
  | prepared hphase hraw hstored =>
      have hfirst := (hsame .prepared (Nat.zero_le _)).1
      exact .prepared hphase hraw (hfirst.trans hstored)
  | @advanced before next digest receipt raw _ hnext hreceipt hcanonical hdigest hraw hstored ih =>
      obtain ⟨hjournal, hevidence⟩ := hsame next le_rfl
      have hbefore := ih fun phase hphase => hsame phase
        (show phase.index ≤ next.index by omega)
      exact .advanced hbefore hnext (hevidence.trans hreceipt) hcanonical hdigest hraw
        (hjournal.trans hstored)

/-- The reader walks through the history. -/
theorem history (hj : Recorded h files j)
    (hreceipts : journal.receipts.take j.phase.index = j.receipts) :
    (phases.take (j.phase.index + 1)).foldlM (readHistory h files journal) none =
      .ok (some j) := by
  induction hj with
  | @prepared j raw hphase hraw hstored =>
      rw [hphase]
      show (readHistory h files journal none .prepared >>= fun a => pure a) = _
      unfold readHistory
      rw [readBytes_eq_ok.2 ⟨hstored, toBytes_length hraw⟩, ok_bind, fromBytes_eq_ok.2 hraw, ok_bind,
        hphase]
      rfl
  | @advanced before next digest receipt raw hbefore hnext hreceipt hcanonical hdigest hraw hstored
      ih =>
      have hlength : before.receipts.length = before.phase.index := by
        obtain ⟨bytes, hbytes, -⟩ := hbefore.stored
        exact receipts_length hbytes
      have htake : journal.receipts.take next.index =
          before.receipts ++ [framedDigest h (receiptFormat next) receipt] := hreceipts
      have hinitial : journal.receipts.take before.phase.index = before.receipts := by
        have hcut := congrArg (List.take before.phase.index) htake
        rw [List.take_take, hnext, Nat.min_eq_left (Nat.le_succ _), ← hlength,
          List.take_left] at hcut
        rw [← hlength]
        exact hcut
      show (phases.take (next.index + 1)).foldlM _ none = _
      rw [take_index, hnext, List.foldlM_append, ih hinitial, ok_bind]
      show (readHistory h files journal (some before) next >>= fun a => pure a) = _
      unfold readHistory
      rw [readBytes_eq_ok.2 ⟨hstored, toBytes_length hraw⟩, ok_bind, fromBytes_eq_ok.2 hraw, ok_bind]
      have hcontinues : requireContinuation h journal
          (HostRestore.advanced h before digest next receipt) next (some before) = .ok () := by
        show (RestoreJournal.digest h before >>= _) = _
        rw [hdigest, ok_bind, htake]
        exact require_eq_ok.2 (decide_eq_true rfl)
      show ((require (decide (next = next)) _ >>= _) >>= _) = _
      rw [decide_eq_true rfl, require_true, ok_bind, hcontinues]
      rfl

/-- The reader accepts every receipt. -/
theorem receipts (hj : Recorded h files j) :
    ∀ receipt ∈ List.zip (phases.drop 1) j.receipts, readReceipt h files receipt = .ok () := by
  induction hj with
  | @prepared j raw hphase hraw hstored =>
      have hlength := receipts_length hraw
      rw [hphase] at hlength
      rw [List.length_eq_zero_iff.1 hlength, List.zip_nil_right]
      exact fun _ hmem => absurd hmem List.not_mem_nil
  | @advanced before next digest receipt raw hbefore hnext hreceipt hcanonical hdigest hraw hstored
      ih =>
      intro pair hpair
      have hlength : before.receipts.length = before.phase.index := by
        obtain ⟨bytes, hbytes, -⟩ := hbefore.stored
        exact receipts_length hbytes
      rcases mem_zip_receipts (by rw [hlength, hnext]) hpair with hold | rfl
      · exact ih pair hold
      · obtain ⟨object, hobject⟩ := hcanonical
        unfold readReceipt
        rw [readBytes_eq_ok.2 ⟨hreceipt, CanonicalText.encodeRecord_length hobject⟩, ok_bind,
          CanonicalText.decodeRecord_encodeRecord hobject]
        show (require (decide (h.encodeRecord object.json maxRestoreBytes = some receipt)) _ >>= _) =
          _
        rw [hobject, decide_eq_true rfl, require_true, ok_bind, decide_eq_true rfl]
        rfl

end Recorded

/-! ## Reading -/

section Reading

variable {files : RestoreFiles} {journal j : RestoreJournal}

theorem readReceipt_eq_ok {phase : RestorePhase} {digest : FramedDigest} {u : Unit}
    (hread : readReceipt h files (phase, digest) = .ok u) :
    ∃ raw, files.find? (receiptName phase) = some raw ∧ h.Recorded maxRestoreBytes raw ∧
      framedDigest h (receiptFormat phase) raw = digest := by
  unfold readReceipt at hread
  simp only [bind_eq_ok, require_eq_ok, decide_eq_true_eq] at hread
  obtain ⟨raw, hraw, members, hmembers, -, hcanonical, hdigest⟩ := hread
  have hdecoded : h.decodeRecord raw maxRestoreBytes = some members := by
    cases hdecode : h.decodeRecord raw maxRestoreBytes with
    | none =>
        rw [hdecode] at hmembers
        cases hmembers
    | some found =>
        rw [hdecode] at hmembers
        rw [pure_eq_ok.1 hmembers]
  exact ⟨raw, (readBytes_eq_ok.1 hraw).1,
    ⟨⟨members, CanonicalText.decodeRecord_normal hdecoded⟩, hcanonical⟩, hdigest⟩

theorem readHistory_eq_ok {predecessor found : Option RestoreJournal} {phase : RestorePhase}
    (hread : readHistory h files journal predecessor phase = .ok found) :
    ∃ raw historical, files.find? (journalName phase) = some raw ∧
      RestoreJournal.toBytes h historical = .ok raw ∧ historical.phase = phase ∧
      requireContinuation h journal historical phase predecessor = .ok () ∧
      found = some historical := by
  unfold readHistory at hread
  simp only [bind_eq_ok, require_eq_ok, decide_eq_true_eq, pure_eq_ok] at hread
  obtain ⟨raw, hraw, historical, hhistorical, -, hphase, ⟨⟩, hcontinues, rfl⟩ := hread
  exact ⟨raw, historical, (readBytes_eq_ok.1 hraw).1, fromBytes_eq_ok.1 hhistorical, hphase,
    hcontinues, rfl⟩

/-- The first phases of a history that was read are recorded. -/
theorem recorded_of_history
    (hreceipts : ∀ pair ∈ List.zip (phases.drop 1) journal.receipts,
      readReceipt h files pair = .ok ()) :
    ∀ (i : Nat) (hi : i < phases.length) (found : Option RestoreJournal),
      (phases.take (i + 1)).foldlM (readHistory h files journal) none = .ok found →
        ∃ j, found = some j ∧ Recorded h files j ∧ j.phase = phases[i] ∧
          j.receipts = journal.receipts.take i := by
  intro i
  induction i with
  | zero =>
      intro hi found hfold
      change (readHistory h files journal none .prepared >>= fun a => pure a) = _ at hfold
      obtain ⟨found', hread, hpure⟩ := bind_eq_ok.1 hfold
      obtain rfl := pure_eq_ok.1 hpure
      obtain ⟨raw, j, hstored, hraw, hphase, -, rfl⟩ := readHistory_eq_ok hread
      have hlength := receipts_length hraw
      rw [hphase] at hlength
      exact ⟨j, rfl, .prepared hphase hraw hstored, hphase, List.length_eq_zero_iff.1 hlength⟩
  | succ i ih =>
      intro hi found hfold
      rw [← List.take_concat_get' phases (i + 1) hi, List.foldlM_append] at hfold
      obtain ⟨before', hbefore', hlast⟩ := bind_eq_ok.1 hfold
      obtain ⟨before, rfl, hbefore, hphase, hinitial⟩ := ih (Nat.lt_of_succ_lt hi) _ hbefore'
      change (readHistory h files journal (some before) (phases[i + 1]) >>= fun a => pure a) = _
        at hlast
      obtain ⟨found', hread, hpure⟩ := bind_eq_ok.1 hlast
      obtain rfl := pure_eq_ok.1 hpure
      obtain ⟨raw, j, hstored, hraw, hnext, hcontinues, rfl⟩ := readHistory_eq_ok hread
      change (RestoreJournal.digest h before >>= _) = _ at hcontinues
      obtain ⟨digest, hdigest, hcontinues⟩ := bind_eq_ok.1 hcontinues
      have hsame := of_decide_eq_true (require_eq_ok.1 hcontinues)
      have hindex : (phases[i + 1]).index = i + 1 := index_phases hi
      rw [hindex] at hsame
      -- the journal has a receipt for the phase, since its history has
      have hlength : (journal.receipts.take (i + 1)).length = i + 1 := by
        have hcount := receipts_length hraw
        rw [hnext, hindex, hsame] at hcount
        exact hcount
      have hi' : i < journal.receipts.length := by
        rw [List.length_take] at hlength
        omega
      have hmem : (phases[i + 1], journal.receipts[i]) ∈
          List.zip (phases.drop 1) journal.receipts := by
        refine List.mem_iff_getElem.2 ⟨i, ?_, ?_⟩
        · rw [List.length_zip, List.length_drop]
          exact lt_min (by omega) hi'
        · rw [List.getElem_zip, List.getElem_drop]
          simp only [Nat.add_comm 1 i]
      obtain ⟨receipt, hreceipt, hcanonical, hbound⟩ := readReceipt_eq_ok (hreceipts _ hmem)
      have hadvanced : j = advanced h before digest (phases[i + 1]) receipt := by
        rw [hsame, advanced, hinitial, hbound, List.take_concat_get' _ _ hi']
      refine ⟨j, rfl, ?_, hnext, ?_⟩
      · rw [hadvanced] at hraw ⊢
        refine .advanced hbefore ?_ hreceipt hcanonical hdigest hraw hstored
        rw [hindex, hphase, index_phases]
      · rw [hsame]

/-- The reader accepts exactly the heads whose whole history is recorded. -/
theorem read_eq_some : read h files = .ok (some j) ↔ ∃ raw,
    files.find? journalHead = some raw ∧ RestoreJournal.toBytes h j = .ok raw ∧
      Recorded h files j := by
  unfold read
  constructor
  · intro hread
    split at hread
    · cases hread
    · cases hread
    · rename_i raw hraw
      obtain ⟨journal, hjournal, hpure⟩ := bind_eq_ok.1 hread
      obtain rfl := Option.some.inj (pure_eq_ok.1 hpure)
      unfold readJournal at hjournal
      simp only [bind_eq_ok, require_eq_ok, decide_eq_true_eq, pure_eq_ok] at hjournal
      obtain ⟨head, hhead, last, hlast, -, rfl, ⟨⟩, hreceipts, rfl⟩ := hjournal
      obtain ⟨j, hsome, hrecorded, -, -⟩ :=
        recorded_of_history (forM_eq_ok.1 hreceipts) _ (index_lt _) _ hlast
      obtain rfl := Option.some.inj hsome
      exact ⟨raw, (readBytes_eq_ok.1 hraw).1, fromBytes_eq_ok.1 hhead, hrecorded⟩
  · rintro ⟨raw, hstored, hraw, hrecorded⟩
    rw [readBytes_eq_ok.2 ⟨hstored, toBytes_length hraw⟩]
    have htake : j.receipts.take j.phase.index = j.receipts :=
      List.take_of_length_le (receipts_length hraw).le
    show (readJournal h raw files >>= fun journal => pure (some journal)) = _
    unfold readJournal
    rw [fromBytes_eq_ok.2 hraw, ok_bind, hrecorded.history htake, ok_bind, decide_eq_true rfl,
      require_true, ok_bind, forM_eq_ok.2 hrecorded.receipts]
    rfl

theorem read_eq_none : read h files = .ok none ↔ files.find? journalHead = none := by
  unfold read readBytes
  cases files.find? journalHead with
  | none => exact iff_of_true rfl rfl
  | some raw =>
      refine iff_of_false (fun hread => ?_) fun hnone => (nomatch hnone)
      split at hread
      · rename_i hmissing
        simp only [require] at hmissing
        split at hmissing <;> cases hmissing
      · cases hread
      · obtain ⟨journal, -, hpure⟩ := bind_eq_ok.1 hread
        cases hpure

end Reading

/-! ## Writing -/

section Writing

variable {files s : RestoreFiles} {before : RestoreJournal} {phase : RestorePhase}
  {name : String} {raw : Bytes}

/-- The name of a file that belongs to no phase up to the journal's. -/
structure LaterName (before : RestoreJournal) (name : String) : Prop where
  head : name ≠ journalHead
  journals : ∀ phase : RestorePhase, phase.index ≤ before.phase.index → name ≠ journalName phase
  receipts : ∀ phase : RestorePhase, phase.index ≤ before.phase.index → name ≠ receiptName phase

theorem laterName_journal (hphase : phase.index = before.phase.index + 1) :
    LaterName before (journalName phase) := by
  refine ⟨journalName_ne_head phase, fun earlier hearlier heq => ?_, fun earlier _ =>
    journalName_ne_receiptName phase earlier⟩
  rw [journalName_injective heq] at hphase
  omega

theorem laterName_receipt (hphase : phase.index = before.phase.index + 1) :
    LaterName before (receiptName phase) := by
  refine ⟨receiptName_ne_head phase, fun earlier _ heq =>
    journalName_ne_receiptName earlier phase heq.symm, fun earlier hearlier heq => ?_⟩
  rw [receiptName_injective heq] at hphase
  omega

theorem Recorded.insert_later (hrecorded : Recorded h files before)
    (hname : LaterName before name) : Recorded h (files.insert name raw) before :=
  hrecorded.frame fun earlier hearlier =>
    ⟨Directory.find?_insert_of_ne _ (hname.journals earlier hearlier).symm _,
      Directory.find?_insert_of_ne _ (hname.receipts earlier hearlier).symm _⟩

/-- Evidence of a later phase does not change what is read. -/
theorem read_insert_later (hread : read h files = .ok (some before))
    (hname : LaterName before name) : read h (files.insert name raw) = .ok (some before) := by
  obtain ⟨bytes, hstored, hbytes, hrecorded⟩ := read_eq_some.1 hread
  refine read_eq_some.2 ⟨bytes, ?_, hbytes, hrecorded.insert_later hname⟩
  rw [Directory.find?_insert_of_ne _ hname.head.symm]
  exact hstored

/-- The head names no phase, so that replacing it keeps every history. -/
theorem Recorded.insert_head (hrecorded : Recorded h files before) :
    Recorded h (files.insert journalHead raw) before :=
  hrecorded.frame fun earlier _ =>
    ⟨Directory.find?_insert_of_ne _ (journalName_ne_head earlier) _,
      Directory.find?_insert_of_ne _ (receiptName_ne_head earlier) _⟩

theorem evidenceMissing_eq_true : evidenceMissing name raw files = .ok true ↔
    raw.length ≤ maxRestoreBytes ∧ files.find? name = none := by
  unfold evidenceMissing readBytes
  cases files.find? name with
  | none =>
      simp only [bind_eq_ok, require_eq_ok, decide_eq_true_eq]
      exact ⟨fun ⟨_, hsize, _⟩ => ⟨hsize, trivial⟩, fun hmissing => ⟨(), hmissing.1, rfl⟩⟩
  | some found =>
      refine iff_of_false (fun hmissing => ?_) fun hmissing => (nomatch hmissing.2)
      obtain ⟨_, -, hrest⟩ := bind_eq_ok.1 hmissing
      split at hrest
      · rename_i herror
        simp only [require] at herror
        split at herror <;> cases herror
      · cases hrest
      · obtain ⟨_, -, hfalse⟩ := bind_eq_ok.1 hrest
        cases hfalse

theorem evidenceMissing_eq_false : evidenceMissing name raw files = .ok false ↔
    raw.length ≤ maxRestoreBytes ∧ files.find? name = some raw := by
  unfold evidenceMissing
  simp only [bind_eq_ok, require_eq_ok, decide_eq_true_eq]
  constructor
  · rintro ⟨-, hsize, hrest⟩
    split at hrest
    · cases hrest
    · cases hrest
    · rename_i existing hexisting
      obtain ⟨_, hsame, -⟩ := bind_eq_ok.1 hrest
      have hbytes := of_decide_eq_true (require_eq_ok.1 hsame)
      exact ⟨hsize, hbytes ▸ (readBytes_eq_ok.1 hexisting).1⟩
  · rintro ⟨hsize, hstored⟩
    refine ⟨(), hsize, ?_⟩
    rw [readBytes_eq_ok.2 ⟨hstored, hsize⟩]
    show (require (decide (raw = raw)) _ >>= _) = _
    rw [decide_eq_true rfl]
    rfl

/-- The three ways of a write of evidence: it is made, it was made before, or it is refused. -/
theorem immutable_cases (name : String) (raw : Bytes) (s : RestoreFiles) :
    (s.find? name = none ∧ raw.length ≤ maxRestoreBytes ∧
        immutable name raw s = ⟨[s.insert name raw], s.insert name raw, .ok ()⟩) ∨
      (s.find? name = some raw ∧ immutable name raw s = ⟨[], s, .ok ()⟩) ∨
      ((s.find? name ≠ some raw) ∧ ∃ e, immutable name raw s = ⟨[], s, .error e⟩) ∨
      (maxRestoreBytes < raw.length ∧ ∃ e, immutable name raw s = ⟨[], s, .error e⟩) := by
  unfold immutable
  cases hmissing : evidenceMissing name raw s with
  | error e =>
      rcases Nat.lt_or_ge maxRestoreBytes raw.length with hlarge | hsmall
      · exact Or.inr (Or.inr (Or.inr ⟨hlarge, e, Durable.query_bind_error hmissing⟩))
      · refine Or.inr (Or.inr (Or.inl ⟨fun hstored => ?_, e, Durable.query_bind_error hmissing⟩))
        rw [evidenceMissing_eq_false.2 ⟨hsmall, hstored⟩] at hmissing
        cases hmissing
  | ok missing =>
      rw [Durable.query_bind_ok hmissing]
      cases missing with
      | true =>
          obtain ⟨hsize, hnone⟩ := evidenceMissing_eq_true.1 hmissing
          exact Or.inl ⟨hnone, hsize, rfl⟩
      | false => exact Or.inr (Or.inl ⟨(evidenceMissing_eq_false.1 hmissing).2, rfl⟩)

variable (raw) in
/-- Evidence that exists is not written again. -/
theorem immutable_present (hstored : (s.find? name).isSome = true) :
    (immutable name raw s).trace = [] ∧ (immutable name raw s).state = s := by
  rcases immutable_cases name raw s with
    ⟨hnone, -, -⟩ | ⟨-, hrun⟩ | ⟨-, e, hrun⟩ | ⟨-, e, hrun⟩
  · rw [hnone] at hstored
    cases hstored
  all_goals
    rw [hrun]
    exact ⟨rfl, rfl⟩

end Writing

/-! ## Calls -/

section Calls

variable {s t : RestoreFiles} {before previous : RestoreJournal} {phase : RestorePhase}
  {receipt : JsonObject} {name : String} {raw : Bytes}

/-- The journal that advancing with the receipt leads to. -/
structure Next (h : BackupHost) (before : RestoreJournal) (phase : RestorePhase)
    (receipt : JsonObject) (j : RestoreJournal) : Prop where
  forward : phase.index = before.phase.index + 1
  value : ∃ raw digest, h.encodeRecord receipt.json maxRestoreBytes = some raw ∧
    RestoreJournal.digest h before = .ok digest ∧ j = advanced h before digest phase raw

theorem Next.phase_eq {j : RestoreJournal} (hnext : Next h before phase receipt j) :
    j.phase = phase := by
  obtain ⟨raw, digest, -, -, rfl⟩ := hnext.value
  rfl

/-- What a write of evidence may leave. -/
theorem immutable_spec (name : String) (raw : Bytes) (s : RestoreFiles) :
    Durable.Spec s (immutable name raw) (fun t => t = s.insert name raw)
      (fun _ t => t.find? name = some raw ∧ (t = s ∨ t = s.insert name raw))
      fun _ t => t = s := by
  rcases immutable_cases name raw s with
    ⟨-, -, hrun⟩ | ⟨hstored, hrun⟩ | ⟨-, e, hrun⟩ | ⟨-, e, hrun⟩
  · refine ⟨?_, ?_, ?_⟩ <;> rw [hrun]
    · exact fun t ht => List.mem_singleton.1 ht
    · exact fun _ _ => ⟨Directory.find?_insert_self _ _ _, Or.inr rfl⟩
    · exact fun _ he => (nomatch he)
  · refine ⟨?_, ?_, ?_⟩ <;> rw [hrun]
    · exact fun t ht => (nomatch ht)
    · exact fun _ _ => ⟨hstored, Or.inl rfl⟩
    · exact fun _ he => (nomatch he)
  all_goals
    refine ⟨?_, ?_, ?_⟩ <;> rw [hrun]
    · exact fun t ht => (nomatch ht)
    · exact fun _ ha => (nomatch ha)
    · exact fun _ _ => rfl

theorem compareJournal_eq_ok {u : Unit} : compareJournal h previous phase s = .ok u ↔
    read h s = .ok (some previous) ∧ phase.index = previous.phase.index + 1 := by
  unfold compareJournal
  simp only [bind_eq_ok, require_eq_ok, Bool.and_eq_true, decide_eq_true_eq]
  constructor
  · rintro ⟨current, hread, rfl, hphase⟩
    exact ⟨hread, hphase⟩
  · rintro ⟨hread, hphase⟩
    exact ⟨_, hread, rfl, hphase⟩

theorem orRaise_eq_ok {α : Type} {error : RestoreError} {x : Option α} {a : α} :
    orRaise error x = .ok a ↔ x = some a := by
  cases x with
  | none => exact iff_of_false (fun hx => (nomatch hx)) fun hx => (nomatch hx)
  | some b =>
      exact ⟨fun hx => congrArg some (pure_eq_ok.1 hx), fun hx => congrArg _ (Option.some.inj hx)⟩

/-- With its receipt and its journal stored, the next journal becomes the head. -/
theorem read_next {digest : FramedDigest} {canonical : Bytes}
    (hread : read h s = .ok (some before)) (hphase : phase.index = before.phase.index + 1)
    (hraw : h.encodeRecord receipt.json maxRestoreBytes = some raw)
    (hdigest : RestoreJournal.digest h before = .ok digest)
    (hcanonical : RestoreJournal.toBytes h (advanced h before digest phase raw) = .ok canonical)
    (hreceipt : s.find? (receiptName phase) = some raw)
    (hjournal : s.find? (journalName phase) = some canonical) :
    read h (s.insert journalHead canonical) =
      .ok (some (advanced h before digest phase raw)) := by
  obtain ⟨bytes, -, -, hrecorded⟩ := read_eq_some.1 hread
  refine read_eq_some.2 ⟨canonical, Directory.find?_insert_self _ _ _, hcanonical, ?_⟩
  refine .advanced hrecorded.insert_head hphase ?_ ⟨receipt, hraw⟩ hdigest hcanonical ?_
  · rw [Directory.find?_insert_of_ne _ (receiptName_ne_head phase)]
    exact hreceipt
  · rw [Directory.find?_insert_of_ne _ (journalName_ne_head phase)]
    exact hjournal

variable (previous phase receipt) in
/-- Every state of an advance has the journal before it or the one it leads to. -/
theorem advance_spec (hread : read h s = .ok (some before)) :
    Durable.Spec s (advance h previous phase receipt)
      (fun t => read h t = .ok (some before) ∨
        previous = before ∧ ∃ j, Next h before phase receipt j ∧ read h t = .ok (some j))
      (fun j t => previous = before ∧ Next h before phase receipt j ∧ read h t = .ok (some j))
      fun _ t => read h t = .ok (some before) := by
  refine Durable.Spec.query_bind (fun _ _ => hread) fun _ hcompare => ?_
  obtain ⟨hprevious, hphase⟩ := compareJournal_eq_ok.1 hcompare
  obtain rfl := Option.some.inj (Except.ok.inj (hprevious.symm.trans hread))
  refine Durable.Spec.query_bind (fun _ _ => hread) fun raw hraw => ?_
  rw [orRaise_eq_ok] at hraw
  -- the receipt is stored, and nothing of the journals up to here has changed
  refine Durable.Spec.bind (M := fun _ t => read h t = .ok (some previous) ∧
    t.find? (receiptName phase) = some raw) ?_ ?_
  · refine (immutable_spec _ _ _).weaken ?_ ?_ ?_
    · rintro t rfl
      exact Or.inl (read_insert_later hread (laterName_receipt hphase))
    · rintro - t ⟨hstored, rfl | rfl⟩
      · exact ⟨hread, hstored⟩
      · exact ⟨read_insert_later hread (laterName_receipt hphase), hstored⟩
    · rintro - t rfl
      exact hread
  rintro - t ⟨hread, hreceipt⟩
  refine Durable.Spec.query_bind (fun _ _ => hread) fun digest hdigest => ?_
  refine Durable.Spec.query_bind (fun _ _ => hread) fun canonical hcanonical => ?_
  refine Durable.Spec.bind (M := fun _ t => read h t = .ok (some previous) ∧
    t.find? (receiptName phase) = some raw ∧ t.find? (journalName phase) = some canonical) ?_ ?_
  · refine (immutable_spec _ _ _).weaken ?_ ?_ ?_
    · rintro t rfl
      exact Or.inl (read_insert_later hread (laterName_journal hphase))
    · rintro - t ⟨hstored, rfl | rfl⟩
      · exact ⟨hread, hreceipt, hstored⟩
      · refine ⟨read_insert_later hread (laterName_journal hphase), ?_, hstored⟩
        rw [Directory.find?_insert_of_ne _ (journalName_ne_receiptName phase phase).symm]
        exact hreceipt
    · rintro - t rfl
      exact hread
  rintro - t ⟨hread, hreceipt, hjournal⟩
  have hnext := read_next hread hphase hraw hdigest hcanonical hreceipt hjournal
  have hvalue : Next h previous phase receipt (advanced h previous digest phase raw) :=
    ⟨hphase, raw, digest, hraw, hdigest, rfl⟩
  refine Durable.Spec.bind (M := fun _ t =>
    read h t = .ok (some (advanced h previous digest phase raw)))
    (Durable.Spec.effect (Or.inr ⟨rfl, _, hvalue, hnext⟩) hnext) fun _ t hfinal => ?_
  exact Durable.Spec.pure ⟨rfl, hvalue, hfinal⟩

/-- A begin changes nothing once a journal can be read. -/
theorem begin_spec_after (hread : read h s = .ok (some before)) (journal : RestoreJournal) :
    Durable.Spec s (begin h journal) (fun t => t = s)
      (fun _ t => t = s ∧ journal = before) fun _ t => t = s := by
  obtain ⟨bytes, hhead, hbytes, hrecorded⟩ := read_eq_some.1 hread
  have hpresent : ∀ (name : String) (raw : Bytes), (s.find? name).isSome = true →
      Durable.Spec s (immutable name raw) (fun t => t = s) (fun _ t => t = s) fun _ t => t = s := by
    intro name raw hname
    obtain ⟨htrace, hstate⟩ := immutable_present raw hname
    refine ⟨?_, fun _ _ => hstate, fun _ _ => hstate⟩
    rw [htrace]
    exact fun _ ht => absurd ht List.not_mem_nil
  refine Durable.Spec.query_bind (fun _ _ => rfl) fun _ _ => ?_
  refine Durable.Spec.query_bind (fun _ _ => rfl) fun raw hraw => ?_
  have hfirst : (s.find? (journalName .prepared)).isSome = true :=
    hrecorded.exists_journal (Nat.zero_le _)
  refine Durable.Spec.bind (hpresent _ raw hfirst) ?_
  rintro - t rfl
  have hsome : (t.find? journalHead).isSome = true := by
    rw [hhead]
    rfl
  refine ((hpresent _ raw hsome).both (immutable_spec _ raw t)).weaken (fun _ ht => ht.1) ?_
    fun _ _ ht => ht.1
  rintro - u ⟨rfl, hstored, -⟩
  obtain rfl := Option.some.inj (hstored.symm.trans hhead)
  refine ⟨rfl, ?_⟩
  exact Except.ok.inj ((fromBytes_eq_ok.2 hraw).symm.trans (fromBytes_eq_ok.2 hbytes))

/-- A begin from a store without a head publishes the head last. -/
theorem begin_spec_before (hread : read h s = .ok none) (journal : RestoreJournal) :
    Durable.Spec s (begin h journal)
      (fun t => read h t = .ok none ∨ read h t = .ok (some journal))
      (fun _ t => read h t = .ok (some journal)) fun _ t => read h t = .ok none := by
  refine Durable.Spec.query_bind (fun _ _ => hread) fun _ hphase => ?_
  have hprepared : journal.phase = .prepared := of_decide_eq_true (require_eq_ok.1 hphase)
  refine Durable.Spec.query_bind (fun _ _ => hread) fun raw hraw => ?_
  have hnone := read_eq_none.1 hread
  refine Durable.Spec.bind (M := fun _ t => t.find? journalHead = none ∧
    t.find? (journalName .prepared) = some raw) ?_ ?_
  · have hafter : (s.insert (journalName .prepared) raw).find? journalHead = none := by
      rw [Directory.find?_insert_of_ne _ (journalName_ne_head _).symm]
      exact hnone
    refine (immutable_spec _ _ _).weaken ?_ ?_ ?_
    · rintro t rfl
      exact Or.inl (read_eq_none.2 hafter)
    · rintro - t ⟨hstored, rfl | rfl⟩
      · exact ⟨hnone, hstored⟩
      · exact ⟨hafter, hstored⟩
    · rintro - t rfl
      exact hread
  rintro - t ⟨hnone, hstored⟩
  have hbegun : ∀ u : RestoreFiles, u.find? journalHead = some raw →
      u.find? (journalName .prepared) = some raw → read h u = .ok (some journal) :=
    fun u hhead hfirst => read_eq_some.2 ⟨raw, hhead, hraw, .prepared hprepared hraw hfirst⟩
  have hinserted := hbegun (t.insert journalHead raw) (Directory.find?_insert_self _ _ _) (by
    rw [Directory.find?_insert_of_ne _ (journalName_ne_head _)]
    exact hstored)
  refine (immutable_spec _ _ _).weaken ?_ ?_ ?_
  · rintro u rfl
    exact Or.inr hinserted
  · rintro - u ⟨hhead, rfl | rfl⟩
    · exact hbegun u hhead hstored
    · exact hinserted
  · rintro - u rfl
    exact read_eq_none.2 hnone

/-! ## Retries -/

def journalRefused : RestoreError := .hostRestore "restore journal compare-and-swap refused"

/-- The outcome of a retry: that of the first call, unless its head was already published. -/
def SameOutcome {α : Type} (retried first : Except RestoreError α) : Prop :=
  retried = first ∨ retried = .error journalRefused

theorem SameOutcome.trans {α : Type} {r r' r'' : Except RestoreError α} (h : SameOutcome r r')
    (h' : SameOutcome r' r'') : SameOutcome r r'' := by
  rcases h with rfl | hrefused
  · exact h'
  · exact Or.inr hrefused

variable (phase receipt) in
theorem advance_refused (hread : read h s = .ok (some before)) (hother : before ≠ previous) :
    advance h previous phase receipt s = ⟨[], s, .error journalRefused⟩ := by
  refine Durable.query_bind_error ?_
  unfold compareJournal
  have hne : (some before : Option RestoreJournal) ≠ some previous := fun heq =>
    hother (Option.some.inj heq)
  rw [hread, ok_bind, decide_eq_false hne]
  rfl

/-- The last writes of an advance, whose receipt is stored. -/
def publishJournal (phase : RestorePhase) (current : RestoreJournal) (canonical : Bytes) :
    Durable RestoreFiles RestoreError RestoreJournal := do
  immutable (journalName phase) canonical
  Durable.effect fun files => files.insert journalHead canonical
  pure current

/-- What follows the receipt of an advance. -/
def publishNext (h : BackupHost) (previous : RestoreJournal) (phase : RestorePhase) (raw : Bytes) :
    Durable RestoreFiles RestoreError RestoreJournal := do
  let digest ← Durable.query fun _ => RestoreJournal.digest h previous
  let canonical ← Durable.query fun _ =>
    RestoreJournal.toBytes h (advanced h previous digest phase raw)
  publishJournal phase (advanced h previous digest phase raw) canonical

/-- Behind its checks an advance stores the receipt and publishes the next journal. -/
theorem advance_eq (hread : read h s = .ok (some previous))
    (hphase : phase.index = previous.phase.index + 1)
    (hraw : h.encodeRecord receipt.json maxRestoreBytes = some raw) :
    advance h previous phase receipt s =
      (immutable (receiptName phase) raw >>= fun _ => publishNext h previous phase raw) s := by
  have hcompare : compareJournal h previous phase s = .ok () :=
    compareJournal_eq_ok.2 ⟨hread, hphase⟩
  have hencoded : (fun _ : RestoreFiles => orRaise RestoreError.contract
      (h.encodeRecord receipt.json maxRestoreBytes)) s = .ok raw := orRaise_eq_ok.2 hraw
  exact (Durable.query_bind_ok hcompare).trans (Durable.query_bind_ok hencoded)

variable (name raw s) in
/-- A write of evidence at the start of a program is made once. -/
theorem immutable_bind {α : Type} (f : Unit → Durable RestoreFiles RestoreError α) :
    (∃ e, (immutable name raw >>= f) s = ⟨[], s, .error e⟩) ∨
      (immutable name raw >>= f) s = f () s ∧ s.find? name = some raw ∨
      (immutable name raw >>= f) s =
          ((immutable name raw >>= f) (s.insert name raw)).after (s.insert name raw) := by
  rcases immutable_cases name raw s with
    ⟨-, hsize, hrun⟩ | ⟨hstored, hrun⟩ | ⟨-, e, hrun⟩ | ⟨-, e, hrun⟩
  · refine Or.inr (Or.inr ?_)
    have hagain : immutable name raw (s.insert name raw) =
        ⟨[], s.insert name raw, .ok ()⟩ := by
      have hstored : (s.insert name raw).find? name = some raw := Directory.find?_insert_self _ _ _
      unfold immutable
      rw [Durable.query_bind_ok (evidenceMissing_eq_false.2 ⟨hsize, hstored⟩)]
      rfl
    rw [Durable.bind_ok hrun, Durable.bind_ok hagain]
    rfl
  · refine Or.inr (Or.inl ⟨?_, hstored⟩)
    rw [Durable.bind_ok hrun]
    rfl
  all_goals exact Or.inl ⟨e, Durable.bind_error hrun⟩

/-- A call has nothing left to write, or a retry goes on from its first write. -/
def Resumes (h : BackupHost) (previous : RestoreJournal) (phase : RestorePhase)
    (receipt : JsonObject) (run : Run RestoreFiles RestoreError RestoreJournal) : Prop :=
  run.trace = [] ∨ ∃ s', True ∧ run.trace = s' :: (advance h previous phase receipt s').trace ∧
    (advance h previous phase receipt s').state = run.state ∧
      SameOutcome (advance h previous phase receipt s').result run.result

/-- With the receipt stored, a retry goes on at the journal or at the head. -/
theorem publishNext_resumes (hread : read h s = .ok (some previous))
    (hphase : phase.index = previous.phase.index + 1)
    (hraw : h.encodeRecord receipt.json maxRestoreBytes = some raw)
    (hreceipt : s.find? (receiptName phase) = some raw) :
    Resumes h previous phase receipt (publishNext h previous phase raw s) := by
  -- a state that still has the receipt and the old head is one to go on from
  have hgoes : ∀ u : RestoreFiles, read h u = .ok (some previous) →
      u.find? (receiptName phase) = some raw →
        advance h previous phase receipt u = publishNext h previous phase raw u := by
    intro u hu hstored
    rw [advance_eq hu hphase hraw]
    have hquiet : immutable (receiptName phase) raw u = ⟨[], u, .ok ()⟩ := by
      have hpresent : evidenceMissing (receiptName phase) raw u = .ok false :=
        evidenceMissing_eq_false.2 ⟨CanonicalText.encodeRecord_length hraw, hstored⟩
      exact Durable.query_bind_ok hpresent
    exact (Durable.bind_ok hquiet).trans rfl
  obtain ⟨bytes, -, hbytes, -⟩ := read_eq_some.1 hread
  have hdigest : RestoreJournal.digest h previous = .ok (framedDigest h restoreSchema bytes) := by
    unfold RestoreJournal.digest
    rw [hbytes]
    rfl
  have hfirst : ∀ u : RestoreFiles, publishNext h previous phase raw u =
      ((Durable.query fun _ => RestoreJournal.toBytes h (advanced h previous
        (framedDigest h restoreSchema bytes) phase raw)) >>= fun canonical =>
          publishJournal phase (advanced h previous (framedDigest h restoreSchema bytes) phase raw)
            canonical) u := fun u => Durable.query_bind_ok (s := u) hdigest
  cases hcanonical : RestoreJournal.toBytes h
      (advanced h previous (framedDigest h restoreSchema bytes) phase raw) with
  | error e =>
      left
      rw [hfirst s, Durable.query_bind_error (s := s) hcanonical]
  | ok canonical =>
      have hpublish : ∀ u : RestoreFiles, publishNext h previous phase raw u =
          publishJournal phase
            (advanced h previous (framedDigest h restoreSchema bytes) phase raw) canonical u :=
        fun u => (hfirst u).trans (Durable.query_bind_ok (s := u) hcanonical)
      rw [hpublish s]
      rcases immutable_bind s (journalName phase) canonical _ with
        ⟨e, hrun⟩ | ⟨hrun, hjournal⟩ | hrun
      · left
        exact congrArg Run.trace hrun
      · -- only the head is left, and with it the call is refused
        right
        have hnext := read_next hread hphase hraw hdigest hcanonical hreceipt hjournal
        have hrefused := advance_refused phase receipt hnext (by
            intro heq
            have hindex := congrArg (fun j => RestorePhase.index j.phase) heq
            change phase.index = previous.phase.index at hindex
            omega)
        refine ⟨s.insert journalHead canonical, trivial, ?_⟩
        rw [hrefused, show publishJournal phase _ canonical s = _ from hrun]
        exact ⟨rfl, rfl, Or.inr rfl⟩
      · right
        have hkept : (s.insert (journalName phase) canonical).find? (receiptName phase) =
            some raw := by
          rw [Directory.find?_insert_of_ne _ (journalName_ne_receiptName phase phase).symm]
          exact hreceipt
        refine ⟨s.insert (journalName phase) canonical, trivial, ?_⟩
        rw [hgoes _ (read_insert_later hread (laterName_journal hphase)) hkept, hpublish,
          show publishJournal phase _ canonical s = _ from hrun]
        exact ⟨rfl, rfl, Or.inl rfl⟩

/-- An advance that is retried after a crash goes on where the crashed one stopped. -/
theorem advance_restarts (previous : RestoreJournal) (phase : RestorePhase) (receipt : JsonObject) :
    Durable.Restartable (fun _ => True) SameOutcome (advance h previous phase receipt) := by
  intro s _
  cases hcompare : compareJournal h previous phase s with
  | error e =>
      left
      exact congrArg Run.trace (Durable.query_bind_error hcompare)
  | ok u =>
      obtain ⟨hread, hphase⟩ := compareJournal_eq_ok.1 hcompare
      cases hraw : h.encodeRecord receipt.json maxRestoreBytes with
      | none =>
          left
          have hencoded : (fun _ : RestoreFiles => orRaise RestoreError.contract
              (h.encodeRecord receipt.json maxRestoreBytes)) s = .error .contract := by
            rw [hraw]
            rfl
          have hrun : advance h previous phase receipt s = ⟨[], s, .error .contract⟩ := by
            refine (Durable.query_bind_ok hcompare).trans ?_
            exact Durable.query_bind_error (s := s) hencoded
          rw [hrun]
      | some raw =>
          show Resumes h previous phase receipt _
          rw [advance_eq hread hphase hraw]
          rcases immutable_bind s (receiptName phase) raw
              fun _ => publishNext h previous phase raw with
            ⟨e, hrun⟩ | ⟨hrun, hreceipt⟩ | hrun
          · left
            rw [hrun]
          · rw [hrun]
            exact publishNext_resumes hread hphase hraw hreceipt
          · right
            refine ⟨s.insert (receiptName phase) raw, trivial, ?_⟩
            rw [advance_eq (read_insert_later hread (laterName_receipt hphase)) hphase hraw, hrun]
            exact ⟨rfl, rfl, Or.inl rfl⟩

/-- A begin that is retried after a crash goes on where the crashed one stopped. -/
theorem begin_restarts (journal : RestoreJournal) :
    Durable.Restartable (fun _ => True) Eq (begin h journal) := by
  intro s _
  have hbegin : ∀ u : RestoreFiles, begin h journal u =
      ((Durable.query fun _ => require (decide (journal.phase = .prepared))
        (.hostRestore "restore must begin at prepared")) >>= fun _ =>
          (Durable.query fun _ => RestoreJournal.toBytes h journal) >>= fun raw =>
            immutable (journalName .prepared) raw >>= fun _ => immutable journalHead raw) u :=
    fun _ => rfl
  cases hphase : require (decide (journal.phase = .prepared))
      (RestoreError.hostRestore "restore must begin at prepared") with
  | error e =>
      left
      rw [hbegin s, Durable.query_bind_error (s := s) hphase]
  | ok u =>
      cases hraw : RestoreJournal.toBytes h journal with
      | error e =>
          left
          rw [hbegin s, Durable.query_bind_ok (s := s) hphase, Durable.query_bind_error (s := s) hraw]
      | ok raw =>
          have hwrites : ∀ u : RestoreFiles, begin h journal u =
              (immutable (journalName .prepared) raw >>= fun _ => immutable journalHead raw) u :=
            fun u => (Durable.query_bind_ok (s := u) hphase).trans
              (Durable.query_bind_ok (s := u) hraw)
          rw [hwrites s]
          -- each of the two files is refused, found as it is, or written as the first change
          rcases immutable_bind s (journalName .prepared) raw
              fun _ => immutable journalHead raw with
            ⟨e, hrun⟩ | ⟨hrun, hfirst⟩ | hrun
          · left
            rw [hrun]
          · rw [hrun]
            rcases immutable_bind s journalHead raw
                (fun _ => (pure () : Durable RestoreFiles RestoreError Unit)) with
              ⟨e, hhead⟩ | ⟨hhead, -⟩ | hhead <;> rw [bind_pure_unit] at hhead
            · left
              rw [hhead]
            · left
              rw [hhead]
              rfl
            · right
              refine ⟨s.insert journalHead raw, trivial, ?_⟩
              have hquiet : immutable (journalName .prepared) raw (s.insert journalHead raw) =
                  ⟨[], s.insert journalHead raw, .ok ()⟩ := by
                have hkept : (s.insert journalHead raw).find? (journalName .prepared) =
                    some raw := by
                  rw [Directory.find?_insert_of_ne _ (journalName_ne_head _)]
                  exact hfirst
                exact Durable.query_bind_ok
                  (evidenceMissing_eq_false.2 ⟨toBytes_length hraw, hkept⟩)
              rw [hwrites, Durable.bind_ok hquiet, hhead]
              exact ⟨rfl, rfl, rfl⟩
          · right
            refine ⟨s.insert (journalName .prepared) raw, trivial, ?_⟩
            rw [hwrites, hrun]
            exact ⟨rfl, rfl, rfl⟩

end Calls

/-! ## Runs -/

/-- A call of the coordinator. -/
inductive RestoreCall where
  | begin (journal : RestoreJournal)
  | advance (previous : RestoreJournal) (phase : RestorePhase) (receipt : JsonObject)

/-- The call as a program whose value is dropped. -/
def RestoreCall.run (h : BackupHost) : RestoreCall → Durable RestoreFiles RestoreError Unit
  | .begin journal => HostRestore.begin h journal
  | .advance previous phase receipt => do
      let _ ← HostRestore.advance h previous phase receipt
      pure ()

theorem advance_call_run (previous : RestoreJournal) (phase : RestorePhase) (receipt : JsonObject)
    (s : RestoreFiles) : (RestoreCall.advance previous phase receipt).run h s =
      ⟨(advance h previous phase receipt s).trace, (advance h previous phase receipt s).state,
        (advance h previous phase receipt s).result.map fun _ => ()⟩ :=
  Durable.dropped_run _ s

/-- One call, which a crash may stop after any of its writes. -/
def Called (h : BackupHost) (s t : RestoreFiles) : Prop :=
  ∃ call : RestoreCall, t = s ∨ t ∈ (call.run h s).trace ∨ t = (call.run h s).state

/-- Any number of calls. -/
abbrev Calls (h : BackupHost) : RestoreFiles → RestoreFiles → Prop :=
  Relation.ReflTransGen (Called h)

/-- The states that a call may leave when a journal can be read. -/
theorem call_surviving {s t : RestoreFiles} {before : RestoreJournal}
    (hread : read h s = .ok (some before)) (call : RestoreCall)
    (ht : t = s ∨ t ∈ (call.run h s).trace ∨ t = (call.run h s).state) :
    read h t = .ok (some before) ∨ ∃ phase receipt j, call = .advance before phase receipt ∧
      Next h before phase receipt j ∧ read h t = .ok (some j) := by
  rcases ht with rfl | ht
  · exact Or.inl hread
  cases call with
  | begin journal =>
      have hspec := begin_spec_after hread journal
      have hsame : t = s := by
        rcases ht with hmem | rfl
        · exact hspec.visited t hmem
        · cases hresult : (begin h journal s).result with
          | ok u => exact (hspec.post u hresult).1
          | error e => exact hspec.raised e hresult
      rw [hsame]
      exact Or.inl hread
  | advance previous phase receipt =>
      have hspec := advance_spec previous phase receipt hread
      have hvisited : read h t = .ok (some before) ∨
          previous = before ∧ ∃ j, Next h before phase receipt j ∧ read h t = .ok (some j) := by
        rw [advance_call_run] at ht
        rcases ht with hmem | rfl
        · exact hspec.visited t hmem
        · cases hresult : (advance h previous phase receipt s).result with
          | ok j =>
              obtain ⟨hsame, hnext, hfinal⟩ := hspec.post j hresult
              exact Or.inr ⟨hsame, j, hnext, hfinal⟩
          | error e => exact Or.inl (hspec.raised e hresult)
      rcases hvisited with hsame | ⟨rfl, j, hnext, hfinal⟩
      · exact Or.inl hsame
      · exact Or.inr ⟨phase, receipt, j, rfl, hnext, hfinal⟩

/-- Before the head is published nothing can be read, and then the journal of a begin. -/
theorem call_surviving_before {s t : RestoreFiles} (hread : read h s = .ok none)
    (call : RestoreCall) (ht : t = s ∨ t ∈ (call.run h s).trace ∨ t = (call.run h s).state) :
    read h t = .ok none ∨ ∃ journal, call = .begin journal ∧ journal.phase = .prepared ∧
      read h t = .ok (some journal) := by
  rcases ht with rfl | ht
  · exact Or.inl hread
  cases call with
  | begin journal =>
      have hspec := begin_spec_before hread journal
      have hvisited : read h t = .ok none ∨ read h t = .ok (some journal) := by
        rcases ht with hmem | rfl
        · exact hspec.visited t hmem
        · cases hresult : (begin h journal s).result with
          | ok u => exact Or.inr (hspec.post u hresult)
          | error e => exact Or.inl (hspec.raised e hresult)
      rcases hvisited with hnone | hsome
      · exact Or.inl hnone
      · refine Or.inr ⟨journal, rfl, ?_, hsome⟩
        by_contra hphase
        have hstop : begin h journal s =
            ⟨[], s, .error (.hostRestore "restore must begin at prepared")⟩ := by
          refine Durable.query_bind_error (s := s) ?_
          rw [decide_eq_false hphase]
          rfl
        have hsame : t = s := by
          change t ∈ (begin h journal s).trace ∨ t = (begin h journal s).state at ht
          rw [hstop] at ht
          exact ht.resolve_left List.not_mem_nil
        rw [hsame, hread] at hsome
        cases hsome
  | advance previous phase receipt =>
      left
      have hcompare : compareJournal h previous phase s = .error journalRefused := by
        unfold compareJournal
        rw [hread]
        rfl
      have hstop : advance h previous phase receipt s = ⟨[], s, .error journalRefused⟩ :=
        Durable.query_bind_error hcompare
      rw [advance_call_run, hstop] at ht
      rw [ht.resolve_left List.not_mem_nil]
      exact hread

/-- Once a journal can be read, one of the same or of a later phase can be read ever after. -/
theorem calls_read {s t : RestoreFiles} {before : RestoreJournal}
    (hread : read h s = .ok (some before)) (hcalls : Calls h s t) :
    ∃ j, read h t = .ok (some j) ∧ before.phase.index ≤ j.phase.index := by
  induction hcalls with
  | refl => exact ⟨before, hread, le_rfl⟩
  | tail _ hcalled ih =>
      obtain ⟨j, hj, hle⟩ := ih
      obtain ⟨call, ht⟩ := hcalled
      rcases call_surviving hj call ht with hsame | ⟨phase, receipt, next, -, hnext, hfinal⟩
      · exact ⟨j, hsame, hle⟩
      · refine ⟨next, hfinal, ?_⟩
        rw [hnext.phase_eq, hnext.forward]
        omega

/-- From a store without a head, what can be read at all can be read without an error. -/
theorem calls_readable {s t : RestoreFiles} (hfresh : s.find? journalHead = none)
    (hcalls : Calls h s t) : ∃ found, read h t = .ok found := by
  induction hcalls with
  | refl => exact ⟨none, read_eq_none.2 hfresh⟩
  | tail _ hcalled ih =>
      obtain ⟨found, hfound⟩ := ih
      obtain ⟨call, ht⟩ := hcalled
      cases found with
      | none =>
          rcases call_surviving_before hfound call ht with hnone | ⟨journal, -, -, hsome⟩
          · exact ⟨none, hnone⟩
          · exact ⟨_, hsome⟩
      | some before =>
          rcases call_surviving hfound call ht with hsame | ⟨_, _, next, -, -, hfinal⟩
          · exact ⟨_, hsame⟩
          · exact ⟨_, hfinal⟩

/-- A successful begin leaves its journal to be read. -/
theorem begin_read {s : RestoreFiles} {found : Option RestoreJournal} {journal : RestoreJournal}
    {u : Unit} (hread : read h s = .ok found) (hbegin : (begin h journal s).result = .ok u) :
    read h (begin h journal s).state = .ok (some journal) := by
  cases found with
  | none => exact (begin_spec_before hread journal).post u hbegin
  | some before =>
      obtain ⟨hstate, rfl⟩ := (begin_spec_after hread journal).post u hbegin
      rw [hstate]
      exact hread

/-- At a half-done step the receipt of the step is stored. -/
theorem half_done {s t : RestoreFiles} {previous : RestoreJournal} {phase : RestorePhase}
    {receipt : JsonObject} (ht : t ∈ (advance h previous phase receipt s).trace) :
    phase.index = previous.phase.index + 1 ∧ ∃ raw,
      h.encodeRecord receipt.json maxRestoreBytes = some raw ∧
        t.find? (receiptName phase) = some raw := by
  cases hcompare : compareJournal h previous phase s with
  | error e =>
      rw [show advance h previous phase receipt s = _ from Durable.query_bind_error hcompare] at ht
      cases ht
  | ok u =>
      obtain ⟨hread, hphase⟩ := compareJournal_eq_ok.1 hcompare
      refine ⟨hphase, ?_⟩
      cases hraw : h.encodeRecord receipt.json maxRestoreBytes with
      | none =>
          have hencoded : (fun _ : RestoreFiles => orRaise RestoreError.contract
              (h.encodeRecord receipt.json maxRestoreBytes)) s = .error .contract := by
            rw [hraw]
            rfl
          have hrun : advance h previous phase receipt s = ⟨[], s, .error .contract⟩ := by
            refine (Durable.query_bind_ok hcompare).trans ?_
            exact Durable.query_bind_error (s := s) hencoded
          rw [hrun] at ht
          cases ht
      | some raw =>
          refine ⟨raw, rfl, ?_⟩
          rw [advance_eq hread hphase hraw] at ht
          -- the receipt is the first write of a step, and the later ones have other names
          have hspec : Durable.Spec s
              (immutable (receiptName phase) raw >>= fun _ => publishNext h previous phase raw)
              (fun t => t.find? (receiptName phase) = some raw) (fun _ _ => True)
              fun _ _ => True := by
            refine Durable.Spec.bind (M := fun _ t => t.find? (receiptName phase) = some raw)
              ((immutable_spec _ _ _).weaken ?_ (fun _ _ ht => ht.1) fun _ _ _ => trivial) ?_
            · rintro t rfl
              exact Directory.find?_insert_self _ _ _
            rintro - t hreceipt
            refine Durable.Spec.query_bind (fun _ _ => trivial) fun digest _ => ?_
            refine Durable.Spec.query_bind (fun _ _ => trivial) fun canonical _ => ?_
            have hother : ∀ (u : RestoreFiles) (name : String), receiptName phase ≠ name →
                u.find? (receiptName phase) = some raw →
                  (u.insert name canonical).find? (receiptName phase) = some raw :=
              fun u name hne hu => (Directory.find?_insert_of_ne _ hne _).trans hu
            refine Durable.Spec.bind (M := fun _ t => t.find? (receiptName phase) = some raw)
              ((immutable_spec _ _ _).weaken ?_ ?_ fun _ _ _ => trivial) ?_
            · rintro u rfl
              exact hother t _ (journalName_ne_receiptName phase phase).symm hreceipt
            · rintro - u ⟨-, rfl | rfl⟩
              · exact hreceipt
              · exact hother t _ (journalName_ne_receiptName phase phase).symm hreceipt
            rintro - u hu
            refine Durable.Spec.bind (M := fun _ _ => True)
              (Durable.Spec.effect (hother u _ (receiptName_ne_head phase) hu) trivial) fun _ _ _ => ?_
            exact Durable.Spec.pure trivial
          exact hspec.visited t ht

/-- A retry of a half-done step with another receipt is refused. -/
theorem other_receipt_refused {s t : RestoreFiles} {previous : RestoreJournal}
    {phase : RestorePhase} {receipt other : JsonObject} (hother : other ≠ receipt)
    (ht : t ∈ (advance h previous phase receipt s).trace) :
    ∃ e, advance h previous phase other t = ⟨[], t, .error e⟩ := by
  obtain ⟨-, raw, hraw, hstored⟩ := half_done ht
  cases hcompare : compareJournal h previous phase t with
  | error e => exact ⟨e, Durable.query_bind_error hcompare⟩
  | ok u =>
      obtain ⟨hread, hphase⟩ := compareJournal_eq_ok.1 hcompare
      cases hencode : h.encodeRecord other.json maxRestoreBytes with
      | none =>
          refine ⟨.contract, (Durable.query_bind_ok hcompare).trans ?_⟩
          refine Durable.query_bind_error (s := t) ?_
          rw [hencode]
          rfl
      | some raw' =>
          rw [advance_eq hread hphase hencode]
          have hne : raw' ≠ raw := by
            rintro rfl
            exact hother (CanonicalText.encodeRecord_injective hencode hraw)
          rcases immutable_cases (receiptName phase) raw' t with
            ⟨hnone, -, -⟩ | ⟨hsame, -⟩ | ⟨-, e, hrun⟩ | ⟨-, e, hrun⟩
          · rw [hstored] at hnone
            cases hnone
          · rw [hstored] at hsame
            exact absurd (Option.some.inj hsame).symm hne
          all_goals exact ⟨e, Durable.bind_error hrun⟩

/-- What holds of every sequence of begins and advances on a store that starts without a head. -/
structure JournalConverges (h : BackupHost) : Prop where
  /-- The reader never fails, and after a successful begin it always finds a journal. -/
  readable : ∀ fresh s : RestoreFiles, fresh.find? journalHead = none → Calls h fresh s →
    ∃ found, read h s = .ok found
  begun : ∀ (fresh s : RestoreFiles) journal u, fresh.find? journalHead = none →
    Calls h fresh s → (begin h journal s).result = .ok u →
      read h (begin h journal s).state = .ok (some journal)
  kept : ∀ s before, read h s = .ok (some before) → ∀ t, Calls h s t →
    ∃ j, read h t = .ok (some j) ∧ before.phase.index ≤ j.phase.index
  /-- Whatever a call leaves behind has the journal before it or, for an advance from that journal,
  the one of the next phase. -/
  surviving : ∀ s before, read h s = .ok (some before) → ∀ (call : RestoreCall) t,
    (t = s ∨ t ∈ (call.run h s).trace ∨ t = (call.run h s).state) →
      read h t = .ok (some before) ∨ ∃ phase receipt j, call = .advance before phase receipt ∧
        Next h before phase receipt j ∧ read h t = .ok (some j)
  /-- What is read has all its receipts and all its predecessors. -/
  linked : ∀ s j, read h s = .ok (some j) → Recorded h s j
  /-- A retry of the same call ends where an uninterrupted call ends. -/
  beginAgain : ∀ s journal t, Durable.Survives (begin h journal) s t →
    (begin h journal t).state = (begin h journal s).state ∧
      (begin h journal t).result = (begin h journal s).result
  advanceAgain : ∀ s previous phase receipt t,
    Durable.Survives (advance h previous phase receipt) s t →
      (advance h previous phase receipt t).state = (advance h previous phase receipt s).state ∧
        SameOutcome (advance h previous phase receipt t).result
          (advance h previous phase receipt s).result
  /-- Another receipt at a half-done step is refused and writes nothing. -/
  refused : ∀ s previous phase receipt other t, other ≠ receipt →
    t ∈ (advance h previous phase receipt s).trace →
      ∃ e, advance h previous phase other t = ⟨[], t, .error e⟩

/-- The restore journal converges under crashes and retries. -/
theorem restore_journal_converges (h : BackupHost) : JournalConverges h where
  readable _ _ hfresh hcalls := calls_readable hfresh hcalls
  begun _ _ _ _ hfresh hcalls hbegin := by
    obtain ⟨found, hfound⟩ := calls_readable hfresh hcalls
    exact begin_read hfound hbegin
  kept _ _ hread _ hcalls := calls_read hread hcalls
  surviving _ _ hread call _ ht := call_surviving hread call ht
  linked _ _ hread := by
    obtain ⟨_, -, -, hrecorded⟩ := read_eq_some.1 hread
    exact hrecorded
  beginAgain _ journal _ hsurvives := by
    obtain ⟨-, hstate, hresult⟩ := (begin_restarts journal).survives (fun _ => rfl)
      (fun _ _ _ hr hr' => hr.trans hr') trivial hsurvives
    exact ⟨hstate, hresult⟩
  advanceAgain _ previous phase receipt _ hsurvives := by
    obtain ⟨-, hstate, hresult⟩ := (advance_restarts previous phase receipt).survives
      (fun _ => Or.inl rfl) (fun _ _ _ hr hr' => hr.trans hr') trivial hsurvives
    exact ⟨hstate, hresult⟩
  refused _ _ _ _ _ _ hother ht := other_receipt_refused hother ht

def sampleBytes (j : RestoreJournal) : Bytes :=
  (sampleBackupHost.encodeRecord j.object.json maxRestoreBytes).getD []

/-- A journal of the sample with its bytes and their digest. -/
structure SampleJournal (j : RestoreJournal) : Prop where
  wellFormed : WellFormed j
  written : RestoreJournal.toBytes sampleBackupHost j = .ok (sampleBytes j)
  hashed : RestoreJournal.digest sampleBackupHost j = .ok sampleDigest

theorem sampleJournal_of {j : RestoreJournal} (hj : WellFormed j)
    (hencoded : (sampleBackupHost.encodeRecord j.object.json maxRestoreBytes).map
      (framedDigest sampleBackupHost restoreSchema) = some sampleDigest) :
    SampleJournal j := by
  obtain ⟨raw, hraw, hdigest⟩ := Option.map_eq_some_iff.1 hencoded
  have hbytes : sampleBytes j = raw := by
    rw [sampleBytes, hraw]
    rfl
  have hwritten : RestoreJournal.toBytes sampleBackupHost j = .ok (sampleBytes j) := by
    rw [hbytes]
    exact toBytes_eq_ok.2 ⟨hj, hraw⟩
  refine ⟨hj, hwritten, ?_⟩
  unfold RestoreJournal.digest
  rw [hwritten, ok_bind, hbytes, hdigest]
  rfl

theorem sampleJournal_wellFormed : WellFormed sampleJournal := by
  refine ⟨?_, rfl⟩
  unfold RestoreJournal.requireAuthority
  simp only [bind_eq_ok, require_eq_ok]
  refine ⟨(), by decide +kernel, (), isSha256_sha256Text 1, (), by decide +kernel, (),
    by decide +kernel, ?_⟩
  simp [RestoreBindings.formats, sampleJournal, sampleBinding, FramedDigest.hasFormat_sha256Text]

theorem sampleJournal_prepared : SampleJournal sampleJournal :=
  sampleJournal_of sampleJournal_wellFormed (by decide +kernel)

theorem sampleJournal_begun :
    read sampleBackupHost (begin sampleBackupHost sampleJournal Directory.empty).state =
      .ok (some sampleJournal) := by
  have hbegin : (begin sampleBackupHost sampleJournal Directory.empty).result = .ok () := by
    unfold begin
    rw [Durable.query_bind_ok (f := fun _ => require (decide (sampleJournal.phase = .prepared))
        (RestoreError.hostRestore "restore must begin at prepared")) rfl,
      Durable.query_bind_ok (f := fun _ => RestoreJournal.toBytes sampleBackupHost sampleJournal)
        sampleJournal_prepared.written]
    decide +kernel
  exact (restore_journal_converges sampleBackupHost).begun _ Directory.empty _ () rfl .refl hbegin

end StaticHostAgent.HostRestore
