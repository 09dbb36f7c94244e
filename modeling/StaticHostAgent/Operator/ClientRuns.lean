import StaticHostAgent.Operator.Client

/-!
# What one call of the client leaves behind

A call owns at most one file of the directory: the temporary file, then the destination. `Before`
and `After` say, for the states before and after its commit, what the call has added to the state it
started in. Every local call and every change of others keeps them, so that the specification of
`submit` follows the program step by step.
-/

set_option autoImplicit false

namespace StaticHostAgent.Operator

open Library Contracts Contracts.OperatorProtocol

/-! ## Files of this client -/

/-- The file of that name was made by this client. -/
def Owned (files : Files) (name : String) (entry : Entry) : Prop :=
  files.find? name = some entry ∧ entry.mine = true

/-- A power cut does not lose the file. -/
def Saved (w : Workstation) (name : String) (entry : Entry) : Prop :=
  Owned w.live name entry ∧ w.stable.find? name = some entry ∧ entry.synced = true

theorem find?_writeBack (live stable : Files) (name name' : String) :
    (writeBack live stable name).find? name' =
      if name' = name then live.find? name else stable.find? name' := by
  unfold writeBack
  by_cases hname : name' = name
  · subst hname
    rw [if_pos rfl]
    cases hlive : live.find? name' with
    | none => exact stable.find?_erase_self name'
    | some entry => exact stable.find?_insert_self name' entry
  · rw [if_neg hname]
    cases live.find? name with
    | none => exact stable.find?_erase_of_ne hname
    | some entry => exact stable.find?_insert_of_ne hname entry

section Changes

variable {w w' : Workstation} {c : Change} {live : Files} {name : String} {entry : Entry}

theorem owned_insert_foreign {other : String} (hfree : live.find? other = none) (bytes : Bytes) :
    Owned (live.insert other ⟨bytes, false, false⟩) name entry ↔ Owned live name entry := by
  by_cases hname : name = other
  · subst hname
    constructor
    · rintro ⟨hfind, hmine⟩
      rw [Directory.find?_insert_self] at hfind
      obtain rfl := Option.some.inj hfind
      cases hmine
    · rintro ⟨hfind, -⟩
      rw [hfree] at hfind
      cases hfind
  · unfold Owned
    rw [Directory.find?_insert_of_ne _ hname]

theorem owned_erase {other : String} :
    Owned (live.erase other) name entry ↔ Owned live name entry ∧ name ≠ other := by
  by_cases hname : name = other
  · subst hname
    constructor
    · rintro ⟨hfind, -⟩
      rw [Directory.find?_erase_self] at hfind
      cases hfind
    · rintro ⟨-, hne⟩
      exact (hne rfl).elim
  · unfold Owned
    rw [Directory.find?_erase_of_ne _ hname]
    exact ⟨fun h => ⟨h, hname⟩, fun h => h.1⟩

theorem owned_insert {other : String} {made : Entry} :
    Owned (live.insert other made) name entry ↔
      (Owned live name entry ∧ name ≠ other) ∨
        (name = other ∧ entry = made ∧ made.mine = true) := by
  by_cases hname : name = other
  · subst hname
    unfold Owned
    rw [Directory.find?_insert_self]
    constructor
    · rintro ⟨hfind, hmine⟩
      obtain rfl := Option.some.inj hfind
      exact Or.inr ⟨rfl, rfl, hmine⟩
    · rintro (⟨-, hne⟩ | ⟨-, rfl, hmine⟩)
      · exact (hne rfl).elim
      · exact ⟨rfl, hmine⟩
  · unfold Owned
    rw [Directory.find?_insert_of_ne _ hname]
    exact ⟨fun h => Or.inl ⟨h, hname⟩, fun h => h.elim And.left fun h => (hname h.1).elim⟩

/-- Others leave the files of this client alone. -/
theorem change_owned : Owned (w.change c).live name entry ↔ Owned w.live name entry := by
  cases c with
  | writeBack other => exact Iff.rfl
  | appear other bytes =>
      show Owned (appear w.live other bytes) name entry ↔ _
      unfold appear
      split
      · rename_i hfree
        exact owned_insert_foreign (Option.isNone_iff_eq_none.1 hfree) bytes
      · exact Iff.rfl
  | vanish other =>
      show Owned (vanish w.live other) name entry ↔ _
      unfold vanish
      split
      · rename_i hforeign
        rw [owned_erase]
        refine ⟨And.left, fun howned => ⟨howned, ?_⟩⟩
        rintro rfl
        rw [howned.1] at hforeign
        simp [howned.2] at hforeign
      · exact Iff.rfl

theorem change_stable_of_owned (howned : Owned w.live name entry)
    (hstable : w.stable.find? name = some entry) :
    (w.change c).stable.find? name = some entry := by
  cases c with
  | writeBack other =>
      show (writeBack w.live w.stable other).find? name = _
      rw [find?_writeBack]
      split
      · rename_i hname
        exact hname ▸ howned.1
      · exact hstable
  | appear other bytes => exact hstable
  | vanish other => exact hstable

theorem change_saved (h : Saved w name entry) : Saved (w.change c) name entry :=
  ⟨change_owned.2 h.1, change_stable_of_owned h.1 h.2.1, h.2.2⟩

theorem change_rest : (w.change c).pending = w.pending ∧ (w.change c).sent = w.sent ∧
    (w.change c).moments = w.moments ∧ (w.change c).events = w.events := by
  cases c <;> exact ⟨rfl, rfl, rfl, rfl⟩

/-- What every change of others keeps, and the passing of a moment, holds after the moment. -/
theorem pass_invariant {P : Workstation → Prop} (hchange : ∀ w c, P w → P (w.change c))
    (htail : P { w with moments := w.moments.tail }) : P w.pass := by
  unfold Workstation.pass
  generalize { w with moments := w.moments.tail } = start at htail
  induction w.moment.meanwhile generalizing start with
  | nil => exact htail
  | cons c rest ih => exact ih _ (hchange _ _ htail)

end Changes

/-! ## Accepted results -/

section Runs

variable (e : Encoding)

/-- The remote side sent one complete canonical result for the request with exactly its payload,
closed its output and ended with the exit status zero. -/
structure Accepted (input : Submission) (result : OperationResult) (payload : Option Bytes) :
    Prop where
  request : ∃ raw request, input.rawRequest = .ok raw ∧ decodeRequest e raw = .ok request ∧
    result.correlationId = request.correlationId ∧ result.operation = request.operation
  valid : ValidContract e (.operationResult result)
  output : ∃ rawHeader header, decodeHeader rawHeader [.response] = .ok header ∧
    header.documentLength = (e.canonical (.operationResult result)).length ∧
    header.payloadLength = payload.map (fun bytes => (bytes.length : Int)) ∧
    arrivedBytes input.request.arrivals =
      rawHeader ++ e.canonical (.operationResult result) ++ payload.getD []
  ended : .stalled ∉ input.request.arrivals
  status : input.request.status = some 0
  bundle : ∀ bytes, payload = some bytes → ∃ bundle, result.exportBundle = some bundle ∧
    bytes.length = bundle.size ∧ e.sha256 bytes = bundle.digest.value

/-- The file is the exact export of an accepted result. -/
def Exported (input : Submission) (entry : Entry) : Prop :=
  ∃ result, Accepted e input result (some entry.bytes)

/-- The transmission is not more than a part of a request. -/
def RequestPart (t : Transmission) : Prop :=
  t.bytes = [] ∨ ∃ header raw, header.kind = .request ∧ encodeHeader header = .ok raw ∧
    raw <+: t.bytes

/-- The transmission is a part of the receipt for a file. -/
def ReceiptPart (t : Transmission) (name : String) (entry : Entry) : Prop :=
  t.destination = some name ∧ ∃ receipt rawHeader raw,
    ExportAcknowledgement.encode receipt = .ok raw ∧
    encodeHeader ⟨.acknowledgement, raw.length, none⟩ = .ok rawHeader ∧
    t.bytes <+: rawHeader ++ raw ∧ receipt.size = entry.bytes.length ∧
    receipt.sha256 = sha256Text (e.sha256 entry.bytes)

/-! ## States of one call -/

/-- The files: those of this client at the start, and at most one more. -/
structure Adds (w₀ w : Workstation) (extra : Option (String × Entry)) : Prop where
  owned : ∀ name entry, Owned w.live name entry ↔
    Owned w₀.live name entry ∨ (extra = some (name, entry) ∧ entry.mine = true)
  fresh : ∀ name entry, extra = some (name, entry) → ∀ entry', ¬ Owned w₀.live name entry'
  mine : ∀ name entry, extra = some (name, entry) → entry.mine = true
  saved : ∀ name entry, Saved w₀ name entry → Saved w name entry
  moments : w.moments <:+ w₀.moments

/-- An event before the commit. -/
def Proper (input : Submission) : FileEvent → Prop
  | .made _ former => former = none
  | .placed name former entry =>
      former = none ∧ entry.synced = true ∧ input.exportName = some name ∧ Exported e input entry
  | .committed _ => False

/-- A state before the commit. -/
structure Before (input : Submission) (w₀ w : Workstation) (extra : Option (String × Entry)) :
    Prop where
  adds : Adds w₀ w extra
  named : ∀ name entry, extra = some (name, entry) → name = ".ldp-export-" ++ input.token ∨
    (input.exportName = some name ∧ Exported e input entry)
  sent : ∃ t, w.sent = t :: w₀.sent ∧ RequestPart t
  events : ∀ event ∈ w.events, Proper e input event

/-- A state after the commit: the export is saved, and only then is a receipt sent. -/
structure After (input : Submission) (w₀ w : Workstation) (name : String) (entry : Entry) :
    Prop where
  adds : Adds w₀ w (some (name, entry))
  saved : Saved w name entry
  exported : Exported e input entry
  destination : input.exportName = some name
  sent : ∃ t, RequestPart t ∧ (w.sent = t :: w₀.sent ∨
    ∃ receipt, w.sent = receipt :: t :: w₀.sent ∧ ReceiptPart e receipt name entry)
  committed : .committed name ∈ w.events
  events : ∀ event ∈ w.events, Proper e input event ∨ event = .committed name

variable {e} {input : Submission} {w₀ w : Workstation} {extra : Option (String × Entry)}
  {name : String} {entry : Entry}

/-! ## Changes of others -/

theorem Adds.change (h : Adds w₀ w extra) (c : Change) : Adds w₀ (w.change c) extra where
  owned name entry := by rw [change_owned, h.owned]
  fresh := h.fresh
  mine := h.mine
  saved name entry hsaved := change_saved (h.saved name entry hsaved)
  moments := by
    rw [(change_rest (w := w) (c := c)).2.2.1]
    exact h.moments

theorem Adds.tail (h : Adds w₀ w extra) : Adds w₀ { w with moments := w.moments.tail } extra where
  owned := h.owned
  fresh := h.fresh
  mine := h.mine
  saved := h.saved
  moments := (List.tail_suffix _).trans h.moments

theorem Before.change (h : Before e input w₀ w extra) (c : Change) :
    Before e input w₀ (w.change c) extra where
  adds := h.adds.change c
  named := h.named
  sent := by
    rw [(change_rest (w := w) (c := c)).2.1]
    exact h.sent
  events := by
    rw [(change_rest (w := w) (c := c)).2.2.2]
    exact h.events

theorem After.change (h : After e input w₀ w name entry) (c : Change) :
    After e input w₀ (w.change c) name entry where
  adds := h.adds.change c
  saved := change_saved h.saved
  exported := h.exported
  destination := h.destination
  sent := by
    rw [(change_rest (w := w) (c := c)).2.1]
    exact h.sent
  committed := by
    rw [(change_rest (w := w) (c := c)).2.2.2]
    exact h.committed
  events := by
    rw [(change_rest (w := w) (c := c)).2.2.2]
    exact h.events

theorem Before.pass (h : Before e input w₀ w extra) : Before e input w₀ w.pass extra :=
  pass_invariant (P := fun u => Before e input w₀ u extra) (fun _ c hw => hw.change c)
    ⟨h.adds.tail, h.named, h.sent, h.events⟩

theorem After.pass (h : After e input w₀ w name entry) : After e input w₀ w.pass name entry :=
  pass_invariant (P := fun u => After e input w₀ u name entry) (fun _ c hw => hw.change c)
    ⟨h.adds.tail, h.saved, h.exported, h.destination, h.sent, h.committed, h.events⟩

theorem Before.setPending (h : Before e input w₀ w extra) (pending : Option PendingExport) :
    Before e input w₀ { w with pending := pending } extra :=
  ⟨⟨h.adds.owned, h.adds.fresh, h.adds.mine, h.adds.saved, h.adds.moments⟩, h.named, h.sent,
    h.events⟩

theorem After.setPending (h : After e input w₀ w name entry) (pending : Option PendingExport) :
    After e input w₀ { w with pending := pending } name entry :=
  ⟨⟨h.adds.owned, h.adds.fresh, h.adds.mine, h.adds.saved, h.adds.moments⟩, h.saved, h.exported,
    h.destination, h.sent, h.committed, h.events⟩

theorem pass_pending : w.pass.pending = w.pending :=
  pass_invariant (P := fun u => u.pending = w.pending)
    (fun _ _ hu => change_rest.1.trans hu) rfl

theorem pass_sent : w.pass.sent = w.sent :=
  pass_invariant (P := fun u => u.sent = w.sent)
    (fun _ _ hu => change_rest.2.1.trans hu) rfl

/-! ## Own changes -/

theorem Adds.makeFile (h : Adds w₀ w none) {temporary : String}
    (hfree : w.live.find? temporary = none) :
    Adds w₀ (w.makeFile temporary) (some (temporary, ⟨[], false, true⟩)) where
  owned name entry := by
    show Owned (w.live.insert temporary ⟨[], false, true⟩) name entry ↔ _
    rw [owned_insert, h.owned]
    constructor
    · rintro (⟨hold | ⟨hnone, -⟩, -⟩ | ⟨rfl, rfl, -⟩)
      · exact Or.inl hold
      · cases hnone
      · exact Or.inr ⟨rfl, rfl⟩
    · rintro (hold | ⟨hsome, hmine⟩)
      · refine Or.inl ⟨Or.inl hold, ?_⟩
        rintro rfl
        have hbound := ((h.owned name entry).2 (Or.inl hold)).1
        rw [hfree] at hbound
        cases hbound
      · cases hsome
        exact Or.inr ⟨rfl, rfl, rfl⟩
  fresh name entry hsome entry' hold := by
    cases hsome
    have hbound := ((h.owned temporary entry').2 (Or.inl hold)).1
    rw [hfree] at hbound
    cases hbound
  mine name entry hsome := by
    cases hsome
    rfl
  saved name entry hsaved := by
    obtain ⟨howned, hrest⟩ := h.saved name entry hsaved
    refine ⟨owned_insert.2 (Or.inl ⟨howned, ?_⟩), hrest⟩
    rintro rfl
    have hbound := howned.1
    rw [hfree] at hbound
    cases hbound
  moments := h.moments

/-- A name at which this client had no file at the start is not the name of a saved one. -/
theorem Adds.ne_of_saved {target : String} (hfresh : ∀ entry', ¬ Owned w₀.live target entry')
    (h : Saved w₀ name entry) : name ≠ target := by
  rintro rfl
  exact hfresh entry h.1

theorem Adds.find? (h : Adds w₀ w (some (name, entry))) : w.live.find? name = some entry :=
  ((h.owned name entry).2 (Or.inr ⟨rfl, h.mine name entry rfl⟩)).1

theorem Adds.updateFile (h : Adds w₀ w (some (name, entry))) {f : Entry → Entry}
    (hmine : (f entry).mine = true) :
    Adds w₀ (w.updateFile name f) (some (name, f entry)) := by
  have hlive : w.updateFile name f = { w with live := w.live.insert name (f entry) } := by
    unfold Workstation.updateFile
    rw [h.find?]
  have hfresh := h.fresh name entry rfl
  rw [hlive]
  refine ⟨fun other found => ?_, ?_, ?_, fun other found hsaved => ?_, h.moments⟩
  · rw [owned_insert, h.owned]
    constructor
    · rintro (⟨hold | ⟨hsome, -⟩, hne⟩ | ⟨rfl, rfl, -⟩)
      · exact Or.inl hold
      · cases hsome
        exact (hne rfl).elim
      · exact Or.inr ⟨rfl, hmine⟩
    · rintro (hold | ⟨hsome, hfound⟩)
      · refine Or.inl ⟨Or.inl hold, ?_⟩
        rintro rfl
        exact hfresh found hold
      · cases hsome
        exact Or.inr ⟨rfl, rfl, hfound⟩
  · intro other found hsome
    cases hsome
    exact hfresh
  · intro other found hsome
    cases hsome
    exact hmine
  · obtain ⟨howned, hrest⟩ := h.saved other found hsaved
    exact ⟨owned_insert.2 (Or.inl ⟨howned, Adds.ne_of_saved hfresh hsaved⟩), hrest⟩

theorem Adds.renameFile (h : Adds w₀ w (some (name, entry))) {destination : String}
    (hfree : w.live.find? destination = none) :
    Adds w₀ (w.renameFile name destination) (some (destination, entry)) := by
  have hmine := h.mine name entry rfl
  have hlive : (w.renameFile name destination).live =
      (w.live.erase name).insert destination entry ∧
        (w.renameFile name destination).stable = w.stable ∧
        (w.renameFile name destination).moments = w.moments := by
    unfold Workstation.renameFile
    rw [h.find?]
    exact ⟨rfl, rfl, rfl⟩
  have hunowned : ∀ found, ¬ Owned w₀.live destination found := by
    intro found hold
    have hbound := ((h.owned destination found).2 (Or.inl hold)).1
    rw [hfree] at hbound
    cases hbound
  refine ⟨fun other found => ?_, ?_, ?_, fun other found hsaved => ?_, ?_⟩
  · rw [hlive.1, owned_insert, owned_erase, h.owned]
    constructor
    · rintro (⟨⟨hold | ⟨hsome, -⟩, hne⟩, -⟩ | ⟨rfl, rfl, -⟩)
      · exact Or.inl hold
      · cases hsome
        exact (hne rfl).elim
      · exact Or.inr ⟨rfl, hmine⟩
    · rintro (hold | ⟨hsome, hfound⟩)
      · refine Or.inl ⟨⟨Or.inl hold, ?_⟩, ?_⟩
        · rintro rfl
          exact h.fresh other entry rfl found hold
        · rintro rfl
          exact hunowned found hold
      · cases hsome
        exact Or.inr ⟨rfl, rfl, hfound⟩
  · intro other found hsome
    cases hsome
    exact hunowned
  · intro other found hsome
    cases hsome
    exact hmine
  · obtain ⟨howned, hstable, hsynced⟩ := h.saved other found hsaved
    refine ⟨?_, by rw [hlive.2.1]; exact hstable, hsynced⟩
    rw [hlive.1]
    refine owned_insert.2 (Or.inl ⟨owned_erase.2 ⟨howned, ?_⟩, ?_⟩)
    · exact Adds.ne_of_saved (h.fresh name entry rfl) hsaved
    · exact Adds.ne_of_saved hunowned hsaved
  · rw [hlive.2.2]
    exact h.moments

/-- Removing the one file more leaves the files of the start. -/
theorem Adds.removeFile (h : Adds w₀ w extra) {target : String}
    (hextra : ∀ name entry, extra = some (name, entry) → name = target)
    (hfresh : ∀ entry', ¬ Owned w₀.live target entry') : Adds w₀ (w.removeFile target) none where
  owned other found := by
    show Owned (w.live.erase target) other found ↔ _
    rw [owned_erase, h.owned]
    constructor
    · rintro ⟨hold | ⟨hsome, -⟩, hne⟩
      · exact Or.inl hold
      · exact (hne (hextra _ _ hsome)).elim
    · rintro (hold | ⟨hnone, -⟩)
      · refine ⟨Or.inl hold, ?_⟩
        rintro rfl
        exact hfresh found hold
      · cases hnone
  fresh other found hnone := by cases hnone
  mine other found hnone := by cases hnone
  saved other found hsaved := by
    obtain ⟨howned, hrest⟩ := h.saved other found hsaved
    exact ⟨owned_erase.2 ⟨howned, Adds.ne_of_saved hfresh hsaved⟩, hrest⟩
  moments := h.moments

theorem Adds.syncNames (h : Adds w₀ w extra) : Adds w₀ w.syncNames extra where
  owned := h.owned
  fresh := h.fresh
  mine := h.mine
  saved other found hsaved := by
    obtain ⟨howned, -, hsynced⟩ := h.saved other found hsaved
    exact ⟨howned, howned.1, hsynced⟩
  moments := h.moments

theorem Before.makeFile (h : Before e input w₀ w none) {temporary : String}
    (hfree : w.live.find? temporary = none) (hname : temporary = ".ldp-export-" ++ input.token) :
    Before e input w₀ (w.makeFile temporary) (some (temporary, ⟨[], false, true⟩)) where
  adds := h.adds.makeFile hfree
  named name entry hextra := by
    cases hextra
    exact Or.inl hname
  sent := h.sent
  events event hevent := by
    rcases List.mem_cons.1 hevent with rfl | hevent
    · exact hfree
    · exact h.events event hevent

theorem updateFile_rest {f : Entry → Entry} : (w.updateFile name f).sent = w.sent ∧
    (w.updateFile name f).events = w.events ∧ (w.updateFile name f).pending = w.pending := by
  unfold Workstation.updateFile
  split <;> exact ⟨rfl, rfl, rfl⟩

theorem Before.updateFile (h : Before e input w₀ w (some (name, entry))) {f : Entry → Entry}
    (hmine : (f entry).mine = true) (hname : name = ".ldp-export-" ++ input.token) :
    Before e input w₀ (w.updateFile name f) (some (name, f entry)) where
  adds := h.adds.updateFile hmine
  named other found hextra := by
    cases hextra
    exact Or.inl hname
  sent := by
    rw [updateFile_rest.1]
    exact h.sent
  events := by
    rw [updateFile_rest.2.1]
    exact h.events

theorem renameFile_rest (h : w.live.find? name = some entry) (destination : String) :
    (w.renameFile name destination).sent = w.sent ∧
      (w.renameFile name destination).events =
        .placed destination (w.live.find? destination) entry :: w.events ∧
      (w.renameFile name destination).pending = w.pending := by
  unfold Workstation.renameFile
  rw [h]
  exact ⟨rfl, rfl, rfl⟩

theorem Before.renameFile (h : Before e input w₀ w (some (name, entry))) {destination : String}
    (hfree : w.live.find? destination = none) (hsynced : entry.synced = true)
    (hdestination : input.exportName = some destination) (hexported : Exported e input entry) :
    Before e input w₀ (w.renameFile name destination) (some (destination, entry)) where
  adds := h.adds.renameFile hfree
  named other found hextra := by
    cases hextra
    exact Or.inr ⟨hdestination, hexported⟩
  sent := by
    rw [(renameFile_rest h.adds.find? destination).1]
    exact h.sent
  events event hevent := by
    rw [(renameFile_rest h.adds.find? destination).2.1] at hevent
    rcases List.mem_cons.1 hevent with rfl | hevent
    · exact ⟨hfree, hsynced, hdestination, hexported⟩
    · exact h.events event hevent

theorem Before.removeFile (h : Before e input w₀ w extra) {target : String}
    (hextra : ∀ name entry, extra = some (name, entry) → name = target)
    (hfresh : ∀ entry', ¬ Owned w₀.live target entry') :
    Before e input w₀ (w.removeFile target) none :=
  ⟨h.adds.removeFile hextra hfresh, fun _ _ hnone => (nomatch hnone), h.sent, h.events⟩

theorem Before.syncNames (h : Before e input w₀ w extra) :
    Before e input w₀ w.syncNames extra := ⟨h.adds.syncNames, h.named, h.sent, h.events⟩

/-- After the directory is synced the export is committed. -/
theorem Before.commit (h : Before e input w₀ w (some (name, entry)))
    (hstable : w.stable.find? name = some entry) (hsynced : entry.synced = true)
    (hdestination : input.exportName = some name) (hexported : Exported e input entry) :
    After e input w₀ (w.logEvent (.committed name)) name entry where
  adds := ⟨h.adds.owned, h.adds.fresh, h.adds.mine, h.adds.saved, h.adds.moments⟩
  saved := ⟨⟨h.adds.find?, h.adds.mine name entry rfl⟩, hstable, hsynced⟩
  exported := hexported
  destination := hdestination
  sent := by
    obtain ⟨t, hsent, hpart⟩ := h.sent
    exact ⟨t, hpart, Or.inl hsent⟩
  committed := List.mem_cons_self
  events event hevent := by
    rcases List.mem_cons.1 hevent with rfl | hevent
    · exact Or.inr rfl
    · exact Or.inl (h.events event hevent)

/-! ## Circumstances -/

/-- Some close of the file or some removal fails. -/
def Unlucky (w₀ : Workstation) : Prop :=
  ∃ moment ∈ w₀.moments, .closeFile ∈ moment.failing ∨ .unlink ∈ moment.failing

theorem moment_failing {call : LocalCall} (h : call ∈ w.moment.failing) :
    ∃ moment ∈ w.moments, call ∈ moment.failing := by
  unfold Workstation.moment at h
  cases hmoments : w.moments with
  | nil =>
      rw [hmoments] at h
      cases h
  | cons moment rest =>
      rw [hmoments] at h
      exact ⟨moment, List.mem_cons_self, h⟩

theorem Adds.unlucky (h : Adds w₀ w extra) {call : LocalCall}
    (hcall : call = .closeFile ∨ call = .unlink) (hfailing : call ∈ w.moment.failing) :
    Unlucky w₀ := by
  obtain ⟨moment, hmoment, hmem⟩ := moment_failing hfailing
  refine ⟨moment, h.moments.subset hmoment, ?_⟩
  rcases hcall with rfl | rfl
  · exact Or.inl hmem
  · exact Or.inr hmem

/-! ## Local calls -/

variable (e input w₀) in
/-- A state that a call may leave behind. -/
def Visit (w : Workstation) : Prop :=
  (∃ extra, Before e input w₀ w extra) ∨ ∃ name entry, After e input w₀ w name entry

/-- What the passing of a moment keeps. -/
structure Tolerant (P Visited : Workstation → Prop) : Prop where
  pass : ∀ w, P w → P w.pass
  visited : ∀ w, P w → Visited w

theorem nextMoment_spec {P Visited : Workstation → Prop} (hP : Tolerant P Visited) (hw : P w)
    {Raised : ClientError → Workstation → Prop} :
    Durable.Spec w nextMoment Visited (fun moment t => moment = w.moment ∧ P t) Raised := by
  refine Durable.Spec.query_bind (fun _ herror => (nomatch herror)) fun moment hmoment => ?_
  cases hmoment
  refine Durable.Spec.bind (M := fun _ => P)
    (Durable.Spec.effect (hP.visited _ (hP.pass w hw)) (hP.pass w hw)) fun _ t ht => ?_
  exact Durable.Spec.pure ⟨rfl, ht⟩

theorem localCall_spec {P Visited : Workstation → Prop} (hP : Tolerant P Visited) (hw : P w)
    (call : LocalCall) :
    Durable.Spec w (localCall call) Visited (fun _ => P)
      (fun _ t => P t ∧ call ∈ w.moment.failing) := by
  refine Durable.Spec.bind (nextMoment_spec hP hw) ?_
  rintro moment t ⟨rfl, ht⟩
  refine Durable.Spec.query (fun _ _ => ht) fun _ herror => ⟨ht, ?_⟩
  by_contra hmem
  rw [decide_eq_true hmem] at herror
  cases herror

section Pending

variable {p : PendingExport} {P Visited : Workstation → Prop}

theorem Tolerant.pending (hP : Tolerant P Visited) (q : Option PendingExport) :
    Tolerant (fun u => P u ∧ u.pending = q) Visited :=
  ⟨fun u hu => ⟨hP.pass u hu.1, pass_pending.trans hu.2⟩, fun u hu => hP.visited u hu.1⟩

/-- Closing the file succeeds unless a close fails now or failed before. -/
theorem closeFile_spec (hP : Tolerant P Visited)
    (hset : ∀ u q, P u → P { u with pending := q }) (hw : P w) (hpending : w.pending = some p) :
    Durable.Spec w p.closeFile Visited
      (fun _ t => P t ∧ t.pending = some { p with file := .cleared })
      (fun _ t => P t ∧ t.pending = some { p with file := .lost } ∧
        (p.file = .lost ∨ .closeFile ∈ w.moment.failing)) := by
  unfold PendingExport.closeFile
  cases hfile : p.file with
  | cleared =>
      refine Durable.Spec.pure ⟨hw, ?_⟩
      rw [hpending, ← hfile]
  | lost =>
      refine Durable.Spec.fail ⟨hw, ?_, Or.inl rfl⟩
      rw [hpending, ← hfile]
  | held =>
      refine Durable.Spec.bind (nextMoment_spec (hP.pending (some p)) ⟨hw, hpending⟩) ?_
      rintro moment t ⟨rfl, ht, htpending⟩
      have hpend : ∀ f, (t.setPending f).pending = some (f p) := by
        intro f
        show t.pending.map f = _
        rw [htpending]
        rfl
      have hkept : ∀ f, P (t.setPending f) := fun f => hset t _ ht
      split
      · rename_i hfailing
        refine Durable.Spec.bind (M := fun _ u => P u ∧ u.pending = some { p with file := .lost })
          (Durable.Spec.effect (hP.visited _ (hkept _)) ⟨hkept _, hpend _⟩) fun _ u hu => ?_
        exact Durable.Spec.fail ⟨hu.1, hu.2, Or.inr hfailing⟩
      · exact Durable.Spec.effect (hP.visited _ (hkept _)) ⟨hkept _, hpend _⟩

theorem closeDirectory_spec (hP : Tolerant P Visited)
    (hset : ∀ u q, P u → P { u with pending := q }) (hw : P w) (hpending : w.pending = some p) :
    Durable.Spec w PendingExport.closeDirectory Visited
      (fun _ t => P t ∧ t.pending = some { p with closed := true })
      (fun _ t => P t ∧ t.pending = some { p with directory := .lost }) := by
  refine Durable.Spec.bind (nextMoment_spec (hP.pending (some p)) ⟨hw, hpending⟩) ?_
  rintro moment t ⟨rfl, ht, htpending⟩
  have hpend : ∀ f, (t.setPending f).pending = some (f p) := by
    intro f
    show t.pending.map f = _
    rw [htpending]
    rfl
  have hkept : ∀ f, P (t.setPending f) := fun f => hset t _ ht
  split
  · refine Durable.Spec.bind (M := fun _ u => P u ∧ u.pending = some { p with directory := .lost })
      (Durable.Spec.effect (hP.visited _ (hkept _)) ⟨hkept _, hpend _⟩) fun _ u hu => ?_
    exact Durable.Spec.fail hu
  · exact Durable.Spec.effect (hP.visited _ (hkept _)) ⟨hkept _, hpend _⟩

end Pending

theorem before_tolerant (extra : Option (String × Entry)) :
    Tolerant (fun u => Before e input w₀ u extra) (Visit e input w₀) :=
  ⟨fun _ hu => hu.pass, fun _ hu => Or.inl ⟨extra, hu⟩⟩

/-! ## Cleaning up -/

/-- The name of the file that a cleanup removes. -/
def PendingExport.target (p : PendingExport) : String :=
  if p.renamed then p.destinationName else p.temporaryName

variable (e input w₀) in
/-- An export before its commit that is not cleaned up. `removable` says which file more there may
be. -/
structure Open (removable : Option (String × Entry) → Prop) (w : Workstation) (p : PendingExport)
    (extra : Option (String × Entry)) : Prop where
  before : Before e input w₀ w extra
  pending : w.pending = some p
  closed : p.closed = false
  lost : p.file = .lost → Unlucky w₀
  directory : p.directory ≠ .held → extra = none
  fresh : ∀ entry', ¬ Owned w₀.live p.target entry'
  target : ∀ name entry, extra = some (name, entry) → name = p.target
  removable : removable extra

/-- A cleanup that fails has removed the file, unless a close or a removal failed. -/
def Removed (w₀ : Workstation) (extra : Option (String × Entry)) : Prop :=
  extra = none ∨ Unlucky w₀

theorem Open.weaken {removable removable' : Option (String × Entry) → Prop} {p : PendingExport}
    (h : Open e input w₀ removable w p extra) (hextra : removable extra → removable' extra) :
    Open e input w₀ removable' w p extra :=
  ⟨h.before, h.pending, h.closed, h.lost, h.directory, h.fresh, h.target, hextra h.removable⟩

variable (e input w₀) in
/-- The export is cleaned up. -/
def Gone (w : Workstation) : Prop :=
  Before e input w₀ w none ∧ ∃ p, w.pending = some p ∧ p.closed = true

theorem discard_spec {p : PendingExport} (h : Open e input w₀ (fun _ => True) w p extra) :
    Durable.Spec w p.discard (Visit e input w₀) (fun _ => Gone e input w₀)
      (fun _ t => ∃ q extra', Open e input w₀ (Removed w₀) t q extra') := by
  have hset : ∀ (extra : Option (String × Entry)) (u : Workstation) (q : Option PendingExport),
      Before e input w₀ u extra → Before e input w₀ { u with pending := q } extra :=
    fun _ _ q hu => hu.setPending q
  -- first the file is closed, then its name removed, the directory synced and closed
  refine Durable.Spec.bind (M := fun _ t => Before e input w₀ t extra ∧
    t.pending = some { p with file := .cleared })
    ((closeFile_spec (before_tolerant extra) (hset extra) h.before h.pending).weaken
      (fun _ => id) (fun _ _ => id) ?_) ?_
  · rintro _ t ⟨ht, htpending, hcause⟩
    have hunlucky : Unlucky w₀ := by
      rcases hcause with hlost | hfailing
      · exact h.lost hlost
      · exact h.before.adds.unlucky (Or.inl rfl) hfailing
    exact ⟨_, extra, ht, htpending, h.closed, fun _ => hunlucky, h.directory, h.fresh, h.target,
      Or.inr hunlucky⟩
  rintro _ t ⟨ht, htpending⟩
  have hcleared : ({ p with file := .cleared } : PendingExport).file = .lost → Unlucky w₀ :=
    fun hfile => (nomatch hfile)
  refine Durable.Spec.query_bind (fun _ herror => ?_) fun _ hheld => ?_
  · -- without a directory descriptor no name was made: there is nothing to remove
    have hlost : p.directory ≠ .held := by
      intro hheld
      rw [hheld] at herror
      cases herror
    have hextra := h.directory hlost
    exact ⟨_, extra, ht, htpending, h.closed, hcleared, h.directory, h.fresh, h.target,
      Or.inl hextra⟩
  have hdirectory : p.directory = .held := of_decide_eq_true (require_eq_ok.1 hheld)
  refine Durable.Spec.bind (M := fun _ u => Before e input w₀ u extra ∧
    u.pending = some { p with file := .cleared })
    ((localCall_spec ((before_tolerant extra).pending _) ⟨ht, htpending⟩ .unlink).weaken
      (fun _ => id) (fun _ _ => id) ?_) ?_
  · rintro _ u ⟨⟨hu, hupending⟩, hfailing⟩
    exact ⟨_, extra, hu, hupending, h.closed, hcleared, h.directory, h.fresh, h.target,
      Or.inr (ht.adds.unlucky (Or.inr rfl) hfailing)⟩
  rintro _ u ⟨hu, hupending⟩
  have hremoved : Before e input w₀ (u.removeFile p.target) none :=
    hu.removeFile h.target h.fresh
  refine Durable.Spec.bind (M := fun _ v => Before e input w₀ v none ∧
    v.pending = some { p with file := .cleared })
    (Durable.Spec.effect (Or.inl ⟨none, hremoved⟩) ⟨hremoved, hupending⟩) ?_
  rintro _ v ⟨hv, hvpending⟩
  -- from here on the name is gone; a failure leaves only the descriptor
  have hopen : ∀ (q : PendingExport) (x : Workstation), q.closed = false → q.file = .cleared →
      q.target = p.target → x.pending = some q → Before e input w₀ x none →
      Open e input w₀ (Removed w₀) x q none := by
    intro q x hclosed hfile htarget hpending hx
    refine ⟨hx, hpending, hclosed, fun hlost => ?_, fun _ => rfl, ?_, fun _ _ hnone => ?_,
      Or.inl rfl⟩
    · rw [hfile] at hlost
      cases hlost
    · rw [htarget]
      exact h.fresh
    · cases hnone
  refine Durable.Spec.bind (M := fun _ x => Before e input w₀ x none ∧
    x.pending = some { p with file := .cleared })
    ((localCall_spec ((before_tolerant none).pending _) ⟨hv, hvpending⟩ .syncDirectory).weaken
      (fun _ => id) (fun _ _ => id) ?_) ?_
  · rintro _ x ⟨⟨hx, hxpending⟩, -⟩
    exact ⟨_, none, hopen { p with file := .cleared } x h.closed rfl rfl hxpending hx⟩
  rintro _ x ⟨hx, hxpending⟩
  refine Durable.Spec.bind (M := fun _ y => Before e input w₀ y none ∧
    y.pending = some { p with file := .cleared })
    (Durable.Spec.effect (Or.inl ⟨none, hx.syncNames⟩) ⟨hx.syncNames, hxpending⟩) ?_
  rintro _ y ⟨hy, hypending⟩
  refine (closeDirectory_spec (before_tolerant none) (hset none) hy hypending).weaken
    (fun _ => id) ?_ ?_
  · rintro _ z ⟨hz, hzpending⟩
    exact ⟨hz, _, hzpending, rfl⟩
  · rintro _ z ⟨hz, hzpending⟩
    exact ⟨_, none, hopen { p with file := .cleared, directory := .lost } z h.closed rfl rfl
      hzpending hz⟩

variable (e input w₀) in
/-- What a cleanup may find. -/
def Final (w : Workstation) : Prop :=
  Gone e input w₀ w ∨ (∃ p extra, Open e input w₀ (fun _ => True) w p extra) ∨
    ∃ name entry p, After e input w₀ w name entry ∧ w.pending = some p ∧
      (p.closed = true ∨ (p.file = .cleared ∧ p.directory = .lost))

variable (e input w₀) in
/-- How a failed call ends: nothing of it is left, unless a close or a removal failed, or its export
is saved. -/
def Left (w : Workstation) : Prop :=
  (∃ extra, Before e input w₀ w extra ∧ Removed w₀ extra) ∨
    ∃ name entry, After e input w₀ w name entry

theorem current_spec {p : PendingExport} (hpending : w.pending = some p)
    {f : PendingExport → Client Unit} {Visited : Workstation → Prop}
    {Post : Unit → Workstation → Prop} {Raised : ClientError → Workstation → Prop}
    (h : Durable.Spec w (f p) Visited Post Raised) :
    Durable.Spec w (PendingExport.current >>= f) Visited Post Raised := by
  refine Durable.Spec.query_bind (fun _ herror => ?_) fun q hq => ?_
  · rw [hpending] at herror
    cases herror
  · rw [hpending] at hq
    cases hq
    exact h

/-- A cleanup before the commit removes, one after it changes nothing. -/
theorem cleanup_spec (h : Final e input w₀ w) :
    Durable.Spec w PendingExport.cleanup (Visit e input w₀) (fun _ => Left e input w₀)
      (fun _ => Left e input w₀) := by
  rcases h with ⟨hbefore, p, hpending, hclosed⟩ | ⟨p, extra, hopen⟩ |
    ⟨name, entry, p, hafter, hpending, hclosed | ⟨hfile, hdirectory⟩⟩
  · refine current_spec hpending ?_
    rw [if_pos hclosed]
    exact Durable.Spec.pure (Or.inl ⟨none, hbefore, Or.inl rfl⟩)
  · refine current_spec hopen.pending ?_
    rw [hopen.closed]
    refine (discard_spec hopen).weaken (fun _ => id) ?_ ?_
    · exact fun _ t ht => Or.inl ⟨none, ht.1, Or.inl rfl⟩
    · rintro _ t ⟨q, extra', ht⟩
      exact Or.inl ⟨extra', ht.before, ht.removable⟩
  · refine current_spec hpending ?_
    rw [if_pos hclosed]
    exact Durable.Spec.pure (Or.inr ⟨name, entry, hafter⟩)
  · refine current_spec hpending ?_
    split
    · exact Durable.Spec.pure (Or.inr ⟨name, entry, hafter⟩)
    -- The directory was closed by the commit; the cleanup does not get beyond that.
    · refine Durable.Spec.bind (M := fun _ t => After e input w₀ t name entry) ?_ fun _ t ht => ?_
      · unfold PendingExport.closeFile
        rw [hfile]
        exact Durable.Spec.pure hafter
      · refine Durable.Spec.query_bind (fun _ _ => Or.inr ⟨name, entry, ht⟩) fun _ hheld => ?_
        rw [hdirectory] at hheld
        cases hheld

/-! ## Committing -/

variable (e input w₀) in
/-- The export is received, synced and verified, and still under its temporary name. -/
structure Received (w : Workstation) (p : PendingExport) (entry : Entry) : Prop where
  before : Before e input w₀ w (some (p.temporaryName, entry))
  pending : w.pending = some p
  closed : p.closed = false
  renamed : p.renamed = false
  directory : p.directory = .held
  synced : entry.synced = true
  destination : input.exportName = some p.destinationName
  exported : Exported e input entry

theorem Received.target {p : PendingExport} (h : Received e input w₀ w p entry) :
    p.target = p.temporaryName := by
  unfold PendingExport.target
  rw [h.renamed]
  rfl

/-- An export that is not placed is open. -/
theorem Received.opened {p : PendingExport} (h : Received e input w₀ w p entry)
    (hlost : p.file = .lost → Unlucky w₀) :
    Open e input w₀ (fun _ => True) w p (some (p.temporaryName, entry)) where
  before := h.before
  pending := h.pending
  closed := h.closed
  lost := hlost
  directory hdirectory := (hdirectory h.directory).elim
  fresh := by
    rw [h.target]
    exact h.before.adds.fresh _ entry rfl
  target name found hextra := by
    cases hextra
    exact h.target.symm
  removable := trivial

/-- An export that is placed is open until the commit is done. -/
theorem opened_of_renamed {p : PendingExport} (h : Before e input w₀ w (some (p.destinationName,
    entry))) (hpending : w.pending = some p) (hclosed : p.closed = false)
    (hrenamed : p.renamed = true) (hdirectory : p.directory = .held) (hfile : p.file ≠ .lost) :
    Open e input w₀ (fun _ => True) w p (some (p.destinationName, entry)) := by
  have htarget : p.target = p.destinationName := by
    unfold PendingExport.target
    rw [hrenamed]
    rfl
  refine ⟨h, hpending, hclosed, fun hlost => (hfile hlost).elim,
    fun hother => (hother hdirectory).elim, ?_, fun name found hextra => ?_, trivial⟩
  · rw [htarget]
    exact h.adds.fresh _ entry rfl
  · cases hextra
    exact htarget.symm

theorem place_spec {p : PendingExport} (h : Received e input w₀ w p entry)
    (hfile : p.file ≠ .lost) :
    Durable.Spec w p.place (Visit e input w₀)
      (fun _ t => Before e input w₀ t (some (p.destinationName, entry)) ∧
        t.pending = some { p with renamed := true } ∧
        t.stable.find? p.destinationName = some entry)
      (fun _ t => ∃ q extra, Open e input w₀ (fun _ => True) t q extra) := by
  have hreceived : ∀ t, Before e input w₀ t (some (p.temporaryName, entry)) ∧
      t.pending = some p → Received e input w₀ t p entry := fun t ht =>
    ⟨ht.1, ht.2, h.closed, h.renamed, h.directory, h.synced, h.destination, h.exported⟩
  have hopen : ∀ t, Before e input w₀ t (some (p.temporaryName, entry)) ∧ t.pending = some p →
      ∃ q extra, Open e input w₀ (fun _ => True) t q extra := fun t ht =>
    ⟨p, _, (hreceived t ht).opened fun hlost => (hfile hlost).elim⟩
  refine Durable.Spec.bind (M := fun _ t => Before e input w₀ t (some (p.temporaryName, entry)) ∧
    t.pending = some p)
    ((localCall_spec ((before_tolerant _).pending _) ⟨h.before, h.pending⟩ .rename).weaken
      (fun _ => id) (fun _ _ => id) fun _ t ht => hopen t ht.1) ?_
  rintro _ t ht
  refine Durable.Spec.query_bind (fun _ _ => hopen t ht) fun _ hfree => ?_
  have hdestination : t.live.find? p.destinationName = none :=
    Option.isNone_iff_eq_none.1 (require_eq_ok.1 hfree)
  have hrenamed := ht.1.renameFile hdestination h.synced h.destination h.exported
  have hpending : (t.renameFile p.temporaryName p.destinationName).pending = some p :=
    (renameFile_rest ht.1.adds.find? _).2.2.trans ht.2
  refine Durable.Spec.bind (M := fun _ u => Before e input w₀ u (some (p.destinationName, entry)) ∧
    u.pending = some p) (Durable.Spec.effect (Or.inl ⟨_, hrenamed⟩) ⟨hrenamed, hpending⟩) ?_
  rintro _ u ⟨hu, hupending⟩
  refine Durable.Spec.bind (M := fun _ v => Before e input w₀ v (some (p.destinationName, entry)) ∧
    v.pending = some { p with renamed := true })
    (Durable.Spec.effect (Or.inl ⟨_, hu.setPending _⟩) ⟨hu.setPending _, ?_⟩) ?_
  · show u.pending.map _ = _
    rw [hupending]
    rfl
  rintro _ v hv
  refine Durable.Spec.bind (M := fun _ x => Before e input w₀ x (some (p.destinationName, entry)) ∧
    x.pending = some { p with renamed := true })
    ((localCall_spec ((before_tolerant _).pending _) hv .syncDirectory).weaken
      (fun _ => id) (fun _ _ => id) ?_) ?_
  · rintro _ x ⟨⟨hx, hxpending⟩, -⟩
    exact ⟨_, _, opened_of_renamed (p := { p with renamed := true }) hx hxpending h.closed rfl
      h.directory hfile⟩
  rintro _ x ⟨hx, hxpending⟩
  exact Durable.Spec.effect (Or.inl ⟨_, hx.syncNames⟩)
    ⟨hx.syncNames, hxpending, hx.syncNames.adds.find?⟩

variable (e input w₀) in
/-- The commit is done, and no receipt is sent so far. -/
def Committed (w : Workstation) (name : String) (entry : Entry) : Prop :=
  After e input w₀ w name entry ∧ ∃ t, RequestPart t ∧ w.sent = t :: w₀.sent

theorem committed_tolerant (name : String) (entry : Entry) :
    Tolerant (fun u => Committed e input w₀ u name entry) (Visit e input w₀) := by
  refine ⟨?_, fun u hu => Or.inr ⟨name, entry, hu.1⟩⟩
  rintro u ⟨hu, t, hpart, hsent⟩
  exact ⟨hu.pass, t, hpart, pass_sent.trans hsent⟩

/-- A commit saves the export, or fails in a state that a cleanup may find. -/
theorem commit_spec {p : PendingExport} (h : Received e input w₀ w p entry)
    (hheld : p.file = .held) :
    Durable.Spec w PendingExport.commit (Visit e input w₀)
      (fun _ t => Committed e input w₀ t p.destinationName entry ∧
        ∃ q, t.pending = some q ∧ q.closed = true)
      (fun _ t => Final e input w₀ t) := by
  refine current_spec h.pending ?_
  refine Durable.Spec.bind (M := fun _ t => Received e input w₀ t { p with file := .cleared } entry)
    ((closeFile_spec (before_tolerant _) (fun u q hu => hu.setPending q) h.before
      h.pending).weaken (fun _ => id) ?_ ?_) ?_
  · rintro _ t ⟨ht, htpending⟩
    exact ⟨ht, htpending, h.closed, h.renamed, h.directory, h.synced, h.destination, h.exported⟩
  · rintro _ t ⟨ht, htpending, hcause⟩
    have hunlucky : Unlucky w₀ := by
      rcases hcause with hlost | hfailing
      · rw [hheld] at hlost
        cases hlost
      · exact h.before.adds.unlucky (Or.inl rfl) hfailing
    have hreceived : Received e input w₀ t { p with file := .lost } entry :=
      ⟨ht, htpending, h.closed, h.renamed, h.directory, h.synced, h.destination, h.exported⟩
    exact Or.inr (Or.inl ⟨_, _, hreceived.opened fun _ => hunlucky⟩)
  rintro _ t ht
  refine Durable.Spec.bind (M := fun _ u => Committed e input w₀
    (u.logEvent (.committed p.destinationName)) p.destinationName entry ∧
      u.pending = some { p with file := .cleared, renamed := true })
    (Durable.Spec.rescue
      (B := fun _ u => ∃ q extra, Open e input w₀ (fun _ => True) u q extra) ?_ ?_) ?_
  · -- `place` of the export before its file is closed runs the same.
    have hplace : p.place = ({ p with file := .cleared } : PendingExport).place := rfl
    rw [hplace]
    refine (place_spec ht (fun hlost => (nomatch hlost))).weaken (fun _ => id) ?_
      (fun _ _ => id)
    rintro _ u ⟨hu, hupending, hstable⟩
    obtain ⟨t, hsent, hpart⟩ := hu.sent
    exact ⟨⟨hu.commit hstable h.synced h.destination h.exported, t, hpart, hsent⟩, hupending⟩
  · rintro error u ⟨q, extra, hopen⟩
    refine Durable.Spec.bind (M := fun _ t => Gone e input w₀ t)
      (current_spec hopen.pending ?_) fun _ t hgone => Durable.Spec.fail (Or.inl hgone)
    rw [hopen.closed]
    refine (discard_spec hopen).weaken (fun _ => id) (fun _ _ => id) ?_
    rintro _ t ⟨q', extra', hremains⟩
    exact Or.inr (Or.inl ⟨q', extra', hremains.weaken fun _ => trivial⟩)
  rintro _ u ⟨hu, hupending⟩
  refine Durable.Spec.bind (M := fun _ v => Committed e input w₀ v p.destinationName entry ∧
    v.pending = some { p with file := .cleared, renamed := true })
    (Durable.Spec.effect (Or.inr ⟨_, _, hu.1⟩) ⟨hu, hupending⟩) ?_
  rintro _ v ⟨hv, hvpending⟩
  refine (closeDirectory_spec (committed_tolerant _ _)
    (fun x q hx => ⟨hx.1.setPending q, hx.2⟩) hv
    hvpending).weaken (fun _ => id) ?_ ?_
  · rintro _ x ⟨hx, hxpending⟩
    exact ⟨hx, _, hxpending, rfl⟩
  · rintro _ x ⟨hx, hxpending⟩
    exact Or.inr (Or.inr ⟨_, _, _, hx.1, hxpending, Or.inr ⟨rfl, rfl⟩⟩)

/-! ## Receiving -/

/-- A new export has an empty temporary file; one that cannot be made has none. -/
theorem createPending_spec (h : Before e input w₀ w none) (destination : String) :
    Durable.Spec w (createPending destination input.token) (Visit e input w₀)
      (fun _ t => Before e input w₀ t (some (".ldp-export-" ++ input.token, ⟨[], false, true⟩)) ∧
        t.pending = some ⟨.held, .held, ".ldp-export-" ++ input.token, destination, false, false⟩)
      (fun _ t => Before e input w₀ t none) := by
  have hcall : ∀ u call, Before e input w₀ u none → Durable.Spec u (localCall call)
      (Visit e input w₀) (fun _ t => Before e input w₀ t none)
      (fun _ t => Before e input w₀ t none) := fun u call hu =>
    (localCall_spec (before_tolerant none) hu call).weaken (fun _ => id) (fun _ _ => id)
      fun _ _ ht => ht.1
  refine Durable.Spec.query_bind (fun _ _ => h) fun _ _ => ?_
  refine Durable.Spec.bind (hcall w .openDirectory h) fun _ t ht => ?_
  refine Durable.Spec.rescue (B := fun _ u => Before e input w₀ u none) ?_ fun error u hu =>
    Durable.Spec.bind (hcall u .closeDirectory hu) fun _ v hv => Durable.Spec.fail hv
  refine Durable.Spec.bind (hcall t .stat ht) fun _ u hu => ?_
  refine Durable.Spec.query_bind (fun _ _ => hu) fun _ _ => ?_
  refine Durable.Spec.bind (hcall u .create hu) fun _ v hv => ?_
  refine Durable.Spec.query_bind (fun _ _ => hv) fun _ hfree => ?_
  have hmade := hv.makeFile (Option.isNone_iff_eq_none.1 (require_eq_ok.1 hfree)) rfl
  refine Durable.Spec.bind (M := fun _ x => Before e input w₀ x _)
    (Durable.Spec.effect (Or.inl ⟨_, hmade⟩) hmade) fun _ x hx => ?_
  exact Durable.Spec.effect (Or.inl ⟨_, hx.setPending _⟩) ⟨hx.setPending _, rfl⟩

variable (e input w₀) in
/-- The bytes that the temporary file of a pending export holds so far. -/
def Holds (p : PendingExport) (bytes : Bytes) (w : Workstation) : Prop :=
  w.pending = some p ∧ p.temporaryName = ".ldp-export-" ++ input.token ∧
    ∃ synced, Before e input w₀ w (some (p.temporaryName, ⟨bytes, synced, true⟩))

theorem Holds.pass {p : PendingExport} {bytes : Bytes} (h : Holds e input w₀ p bytes w) :
    Holds e input w₀ p bytes w.pass := by
  obtain ⟨hpending, hname, synced, hbefore⟩ := h
  exact ⟨pass_pending.trans hpending, hname, synced, hbefore.pass⟩

theorem holds_tolerant (p : PendingExport) (bytes : Bytes) :
    Tolerant (Holds e input w₀ p bytes) (Visit e input w₀) :=
  ⟨fun _ hu => hu.pass, fun _ ⟨_, _, _, hu⟩ => Or.inl ⟨_, hu⟩⟩

/-- An update of the temporary file. -/
theorem Holds.update {p : PendingExport} {bytes : Bytes} (h : Holds e input w₀ p bytes w)
    {f : Entry → Entry} {bytes' : Bytes}
    (hf : ∀ synced, ∃ synced', f ⟨bytes, synced, true⟩ = ⟨bytes', synced', true⟩) :
    Holds e input w₀ p bytes' (w.updateFile p.temporaryName f) := by
  obtain ⟨hpending, hname, synced, hbefore⟩ := h
  obtain ⟨synced', heq⟩ := hf synced
  refine ⟨updateFile_rest.2.2.trans hpending, hname, synced', ?_⟩
  rw [← heq]
  exact hbefore.updateFile (by rw [heq]) hname

theorem writeAll_spec {p : PendingExport} (turns : Nat) (remaining bytes : Bytes)
    (hturns : remaining.length ≤ turns) (h : Holds e input w₀ p bytes w) :
    Durable.Spec w (writeAll p.temporaryName turns remaining) (Visit e input w₀)
      (fun _ t => Holds e input w₀ p (bytes ++ remaining) t)
      (fun _ t => ∃ bytes', Holds e input w₀ p bytes' t) := by
  induction turns generalizing w remaining bytes with
  | zero =>
      obtain rfl : remaining = [] := List.length_eq_zero_iff.1 (Nat.le_zero.1 hturns)
      rw [List.append_nil]
      exact Durable.Spec.pure h
  | succ turns ih =>
      unfold writeAll
      split
      · rename_i hempty
        subst hempty
        rw [List.append_nil]
        exact Durable.Spec.pure h
      · refine Durable.Spec.bind (nextMoment_spec (holds_tolerant p bytes) h) ?_
        rintro moment t ⟨-, ht⟩
        refine Durable.Spec.query_bind (fun _ _ => ⟨bytes, ht⟩) fun _ _ => ?_
        have hwritten : Holds e input w₀ p (bytes ++ remaining.take
            (min (moment.accepted.getD remaining.length) remaining.length))
            (t.updateFile p.temporaryName fun entry => { entry with
              bytes := entry.bytes ++ remaining.take
                (min (moment.accepted.getD remaining.length) remaining.length)
              synced := false }) := ht.update fun _ => ⟨false, rfl⟩
        refine Durable.Spec.bind (M := fun _ u => Holds e input w₀ p _ u)
          (Durable.Spec.effect ((holds_tolerant p _).visited _ hwritten) hwritten) fun _ u hu => ?_
        refine Durable.Spec.query_bind (fun _ _ => ⟨_, hu⟩) fun _ hprogress => ?_
        have hpositive := of_decide_eq_true (require_eq_ok.1 hprogress)
        have hrest := ih (remaining.drop
          (min (moment.accepted.getD remaining.length) remaining.length)) _
          (by rw [List.length_drop]; omega) hu
        rw [List.append_assoc, List.take_append_drop] at hrest
        exact hrest

/-- The loop reads, and writes to the file, as many bytes as were announced. -/
theorem receiveChunks_spec {p : PendingExport} (turns remaining : Nat) (received : Bytes)
    (x : Exchange) (hturns : remaining ≤ turns) (h : Holds e input w₀ p received w) :
    Durable.Spec w (receiveChunks p.temporaryName turns remaining received x) (Visit e input w₀)
      (fun r t => ∃ new, r.1 = received ++ new ∧ new.length = remaining ∧ x.Reads new r.2 ∧
        Holds e input w₀ p r.1 t)
      (fun _ t => ∃ bytes', Holds e input w₀ p bytes' t) := by
  have hdone : ∀ y u, Holds e input w₀ p received u → ∃ new, received = received ++ new ∧
      new.length = 0 ∧ Exchange.Reads y new y ∧ Holds e input w₀ p received u := fun y u hu =>
    ⟨[], (List.append_nil _).symm, rfl, Exchange.Reads.nil y, hu⟩
  induction turns generalizing w remaining received x with
  | zero =>
      obtain rfl := Nat.le_zero.1 hturns
      exact Durable.Spec.pure (hdone x w h)
  | succ turns ih =>
      unfold receiveChunks
      split
      · rename_i hzero
        subst hzero
        exact Durable.Spec.pure (hdone x w h)
      · refine Durable.Spec.query_bind (fun _ _ => ⟨received, h⟩) fun read hread => ?_
        obtain ⟨chunk, x'⟩ := read
        obtain ⟨hreads, hlength⟩ := Exchange.read_ok hread
        refine Durable.Spec.query_bind (fun _ _ => ⟨received, h⟩) fun _ hnonempty => ?_
        have hchunk : 0 < chunk.length :=
          List.length_pos_iff.2 (of_decide_eq_true (require_eq_ok.1 hnonempty))
        refine Durable.Spec.bind (writeAll_spec chunk.length chunk received (Nat.le_refl _) h)
          fun _ t ht => ?_
        refine (ih (remaining - chunk.length) (received ++ chunk) x' (by omega) ht ?_).weaken
          (fun _ => id) ?_ (fun _ _ => id)
        · exact fun y u hu => ⟨[], (List.append_nil _).symm, rfl, Exchange.Reads.nil y, hu⟩
        · rintro r u ⟨new, hbytes, hnew, hmore, hu⟩
          refine ⟨chunk ++ new, by rw [hbytes, List.append_assoc], ?_, hreads.append hmore, hu⟩
          rw [List.length_append]
          omega

/-- The file of a received payload holds exactly the bytes that the bundle binds. -/
theorem receivePayload_spec {p : PendingExport} {bundle : ExportBundle} {x : Exchange}
    (h : Holds e input w₀ p [] w) :
    Durable.Spec w (receivePayload e bundle p.temporaryName x) (Visit e input w₀)
      (fun x' t => ∃ bytes, x.Reads bytes x' ∧ bytes.length = bundle.size ∧
        e.sha256 bytes = bundle.digest.value ∧ t.pending = some p ∧
        Before e input w₀ t (some (p.temporaryName, ⟨bytes, true, true⟩)))
      (fun _ t => ∃ bytes, Holds e input w₀ p bytes t) := by
  refine Durable.Spec.bind (receiveChunks_spec bundle.size bundle.size [] x (Nat.le_refl _) h) ?_
  rintro ⟨bytes, x'⟩ t ⟨new, hbytes, hlength, hreads, ht⟩
  obtain rfl : bytes = new := hbytes.trans (List.nil_append new)
  refine Durable.Spec.bind ((localCall_spec (holds_tolerant p _) ht .syncFile).weaken
    (fun _ => id) (fun _ _ => id) fun _ _ hu => ⟨_, hu.1⟩) fun _ u hu => ?_
  obtain ⟨hpending, hname, synced, hbefore⟩ := hu
  have hsynced := hbefore.updateFile (f := fun entry => { entry with synced := true }) rfl hname
  have hsyncedPending : (u.updateFile p.temporaryName
      fun entry => { entry with synced := true }).pending = some p :=
    updateFile_rest.2.2.trans hpending
  refine Durable.Spec.bind (M := fun _ v => v.pending = some p ∧
    Before e input w₀ v (some (p.temporaryName, ⟨bytes, true, true⟩)))
    (Durable.Spec.effect (Or.inl ⟨_, hsynced⟩) ⟨hsyncedPending, hsynced⟩) ?_
  rintro _ v ⟨hvpending, hv⟩
  refine Durable.Spec.query_bind (fun _ _ => ⟨bytes, hvpending, hname, true, hv⟩) fun _ hdigest => ?_
  exact Durable.Spec.pure ⟨bytes, hreads, hlength, of_decide_eq_true (require_eq_ok.1 hdigest),
    hvpending, hv⟩

variable (e input w₀) in
/-- An export is pending: its file holds exactly the payload that the result binds. -/
structure Pending (result : OperationResult) (payloadLength : Option Int) (x : Exchange)
    (x' : Exchange) (w : Workstation) (bytes : Bytes) (p : PendingExport) (bundle : ExportBundle) :
    Prop where
  reads : x.Reads bytes x'
  binding : result.exportBundle = some bundle
  size : bytes.length = bundle.size
  digest : e.sha256 bytes = bundle.digest.value
  payloadLength : payloadLength = some (bytes.length : Int)
  destination : input.exportName = some p.destinationName
  pending : w.pending = some p
  file : p.file = .held
  directory : p.directory = .held
  unplaced : p.renamed = false ∧ p.closed = false
  named : p.temporaryName = ".ldp-export-" ++ input.token
  before : Before e input w₀ w (some (p.temporaryName, ⟨bytes, true, true⟩))

/-- A temporary file that is still written is open. -/
theorem Holds.opened {p : PendingExport} {bytes : Bytes} (h : Holds e input w₀ p bytes w)
    (hfile : p.file = .held) (hdirectory : p.directory = .held) (hrenamed : p.renamed = false)
    (hclosed : p.closed = false) :
    ∃ extra, Open e input w₀ (fun _ => True) w p extra := by
  obtain ⟨hpending, -, synced, hbefore⟩ := h
  have htarget : p.target = p.temporaryName := by
    unfold PendingExport.target
    rw [hrenamed]
    rfl
  refine ⟨_, hbefore, hpending, hclosed, fun hlost => ?_, fun hother => (hother hdirectory).elim,
    ?_, fun name found hextra => ?_, trivial⟩
  · rw [hfile] at hlost
    cases hlost
  · rw [htarget]
    exact hbefore.adds.fresh _ _ rfl
  · cases hextra
    exact htarget.symm

/-- `_receive_export` returns without an export only when none was announced; it cleans up after
itself. -/
theorem receiveExport_spec {result : OperationResult} {payloadLength : Option Int} {x : Exchange}
    (h : Before e input w₀ w none) :
    Durable.Spec w (receiveExport e payloadLength input result x) (Visit e input w₀)
      (fun r t => (r = (false, x) ∧ payloadLength = none ∧ Before e input w₀ t none) ∨
        (r.1 = true ∧ ∃ bytes p bundle,
          Pending e input w₀ result payloadLength x r.2 t bytes p bundle))
      (fun _ t => Left e input w₀ t) := by
  have hleft : Left e input w₀ w := Or.inl ⟨none, h, Or.inl rfl⟩
  unfold receiveExport
  cases hbundle : result.exportBundle with
  | none =>
      cases payloadLength with
      | none => exact Durable.Spec.pure (Or.inl ⟨rfl, rfl, h⟩)
      | some byteCount => exact Durable.Spec.fail hleft
  | some bundle =>
      cases payloadLength with
      | none => exact Durable.Spec.pure (Or.inl ⟨rfl, rfl, h⟩)
      | some byteCount =>
          refine Durable.Spec.query_bind (fun _ _ => hleft) fun _ hcount => ?_
          obtain rfl : byteCount = (bundle.size : Int) :=
            of_decide_eq_true (require_eq_ok.1 hcount)
          cases hname : input.exportName with
          | none => exact Durable.Spec.fail hleft
          | some name =>
              refine Durable.Spec.bind ((createPending_spec h name).weaken
                (fun _ => id) (fun _ _ => id)
                fun _ t ht => Or.inl ⟨none, ht, Or.inl rfl⟩) fun _ t ht => ?_
              have hholds : Holds e input w₀
                  ⟨.held, .held, ".ldp-export-" ++ input.token, name, false, false⟩ [] t :=
                ⟨ht.2, rfl, false, ht.1⟩
              refine Durable.Spec.bind (Durable.Spec.rescue (receivePayload_spec hholds) ?_)
                fun x' u hu => ?_
              · rintro error u ⟨bytes, hu⟩
                obtain ⟨extra, hopen⟩ := hu.opened rfl rfl rfl rfl
                exact Durable.Spec.bind (cleanup_spec (Or.inr (Or.inl ⟨_, _, hopen⟩)))
                  fun _ _ hleft => Durable.Spec.fail hleft
              · obtain ⟨bytes, hreads, hsize, hdigest, hpending, hbefore⟩ := hu
                refine Durable.Spec.pure (Or.inr ⟨rfl, bytes, _, bundle, hreads, hbundle, hsize,
                  hdigest, by rw [hsize], hname, hpending, rfl, rfl, ⟨rfl, rfl⟩, rfl, hbefore⟩)

/-! ## Exchanges -/

/-- What was written to the process of a request begins with the header of a request. -/
def Begun (w₀ w : Workstation) : Prop :=
  ∃ t header raw, w.sent = t :: w₀.sent ∧ header.kind = .request ∧ encodeHeader header = .ok raw ∧
    raw <+: t.bytes

theorem Before.transmit (h : Before e input w₀ w none) (hbegun : Begun w₀ w) (data : Bytes) :
    Before e input w₀ (w.transmit data) none ∧ Begun w₀ (w.transmit data) := by
  obtain ⟨t, header, raw, hsent, hkind, hheader, hfirst⟩ := hbegun
  have htransmit : w.transmit data =
      { w with sent := { t with bytes := t.bytes ++ data } :: w₀.sent } := by
    unfold Workstation.transmit
    rw [hsent]
  have hlonger : raw <+: t.bytes ++ data := hfirst.trans (List.prefix_append _ _)
  rw [htransmit]
  refine ⟨⟨⟨h.adds.owned, h.adds.fresh, h.adds.mine, h.adds.saved, h.adds.moments⟩, h.named,
    ⟨_, rfl, Or.inr ⟨header, raw, hkind, hheader, hlonger⟩⟩, h.events⟩, ?_⟩
  exact ⟨_, header, raw, rfl, hkind, hheader, hlonger⟩

/-- A write that goes well reads nothing. -/
theorem write_spec {P Q Visited : Workstation → Prop} {x : Exchange} {data : Bytes}
    (hvisited : Visited (w.transmit data)) (hnext : Q (w.transmit data))
    (hQP : ∀ t, Q t → P t) :
    Durable.Spec w (x.write data) Visited
      (fun x' t => x'.arrivals = x.arrivals ∧ x'.status = x.status ∧ Q t) (fun _ => P) := by
  refine Durable.Spec.bind (M := fun _ => Q) (Durable.Spec.effect hvisited hnext) fun _ t ht => ?_
  refine Durable.Spec.query (fun x' hx' => ?_) fun _ _ => hQP t ht
  obtain ⟨harrivals, hstatus⟩ := Exchange.accept_ok hx'
  exact ⟨harrivals, hstatus, ht⟩

theorem copyArtifact_spec {source : ArtifactSource} {x : Exchange} (h : Before e input w₀ w none)
    (hbegun : Begun w₀ w) :
    Durable.Spec w (copyArtifact e source x) (Visit e input w₀)
      (fun x' t => x'.arrivals = x.arrivals ∧ x'.status = x.status ∧ Before e input w₀ t none)
      (fun _ t => Before e input w₀ t none) := by
  have hchunks : ∀ (chunks : List Bytes) (y : Exchange) (u : Workstation),
      Before e input w₀ u none ∧ Begun w₀ u →
        Durable.Spec u (chunks.foldlM Exchange.write y) (Visit e input w₀)
          (fun x' t => x'.arrivals = y.arrivals ∧ x'.status = y.status ∧ Before e input w₀ t none)
          (fun _ t => Before e input w₀ t none) := by
    intro chunks
    induction chunks with
    | nil => exact fun y u hu => Durable.Spec.pure ⟨rfl, rfl, hu.1⟩
    | cons chunk chunks ih =>
        intro y u hu
        have hnext := hu.1.transmit hu.2 chunk
        refine Durable.Spec.bind (write_spec (Q := fun t => Before e input w₀ t none ∧ Begun w₀ t)
          (Or.inl ⟨none, hnext.1⟩) hnext fun _ ht => ht.1) ?_
        rintro y' t ⟨harrivals, hstatus, ht⟩
        refine (ih y' t ht).weaken (fun _ => id) ?_ (fun _ _ => id)
        rintro x' v ⟨harrivals', hstatus', hv⟩
        exact ⟨harrivals'.trans harrivals, hstatus'.trans hstatus, hv⟩
  refine Durable.Spec.query_bind (fun _ _ => h) fun _ _ => ?_
  refine Durable.Spec.bind (hchunks source.chunks x w ⟨h, hbegun⟩) ?_
  rintro x' t ⟨harrivals, hstatus, ht⟩
  refine Durable.Spec.query_bind (fun _ _ => ht) fun _ _ => ?_
  refine Durable.Spec.query_bind (fun _ _ => ht) fun _ _ => ?_
  exact Durable.Spec.pure ⟨harrivals, hstatus, ht⟩

theorem sendRequest_spec {canonical : Bytes} {artifact : Option ArtifactSource} {x : Exchange}
    (h : Before e input w₀ w none) (hsent : w.sent = ⟨none, []⟩ :: w₀.sent) :
    Durable.Spec w (sendRequest e canonical artifact x) (Visit e input w₀)
      (fun x' t => x'.arrivals = x.arrivals ∧ x'.status = x.status ∧ Before e input w₀ t none)
      (fun _ t => Before e input w₀ t none) := by
  refine Durable.Spec.query_bind (fun _ _ => h) fun header hheader => ?_
  have hencoded := mapError_eq_ok.1 hheader
  have htransmit : w.transmit header = { w with sent := ⟨none, header⟩ :: w₀.sent } := by
    unfold Workstation.transmit
    rw [hsent]
    rfl
  have hfirst : Before e input w₀ (w.transmit header) none ∧ Begun w₀ (w.transmit header) := by
    rw [htransmit]
    refine ⟨⟨⟨h.adds.owned, h.adds.fresh, h.adds.mine, h.adds.saved, h.adds.moments⟩, h.named,
      ⟨_, rfl, Or.inr ⟨_, header, rfl, hencoded, List.prefix_refl _⟩⟩, h.events⟩, ?_⟩
    exact ⟨_, _, header, rfl, rfl, hencoded, List.prefix_refl _⟩
  refine Durable.Spec.bind (write_spec (Q := fun t => Before e input w₀ t none ∧ Begun w₀ t)
    (Or.inl ⟨none, hfirst.1⟩) hfirst fun _ ht => ht.1) ?_
  rintro x₁ t ⟨harrivals, hstatus, ht⟩
  have hsecond := ht.1.transmit ht.2 canonical
  refine Durable.Spec.bind (write_spec (Q := fun t => Before e input w₀ t none ∧ Begun w₀ t)
    (Or.inl ⟨none, hsecond.1⟩) hsecond fun _ ht => ht.1) ?_
  rintro x₂ u ⟨harrivals', hstatus', hu⟩
  cases artifact with
  | none => exact Durable.Spec.pure ⟨harrivals'.trans harrivals, hstatus'.trans hstatus, hu.1⟩
  | some source =>
      refine (copyArtifact_spec hu.1 hu.2).weaken (fun _ => id) ?_ (fun _ _ => id)
      rintro x₃ v ⟨harrivals'', hstatus'', hv⟩
      exact ⟨harrivals''.trans (harrivals'.trans harrivals),
        hstatus''.trans (hstatus'.trans hstatus), hv⟩

/-- The receipt of a result for its file. -/
theorem receiptOf_ok {result : OperationResult} {receipt : ExportAcknowledgement}
    (h : receiptOf result = .ok receipt) : ∃ bundle, result.exportBundle = some bundle ∧
      receipt.size = bundle.size ∧ receipt.sha256 = sha256Text bundle.digest.value := by
  unfold receiptOf at h
  split at h
  · cases h
  · cases h
  · rename_i bundle jobId hbundle _
    obtain rfl := pure_eq_ok.1 h
    exact ⟨bundle, hbundle, rfl, rfl⟩

/-- Whatever happens to the acknowledgement, the export stays saved. -/
theorem acknowledgeExport_spec {result : OperationResult} {bundle : ExportBundle}
    (h : After e input w₀ w name entry) (hsent : ∃ t, RequestPart t ∧ w.sent = t :: w₀.sent)
    (hbundle : result.exportBundle = some bundle) (hsize : entry.bytes.length = bundle.size)
    (hdigest : e.sha256 entry.bytes = bundle.digest.value) (p : Option PendingExport)
    (hpending : w.pending = p) :
    Durable.Spec w (acknowledgeExport e input result) (Visit e input w₀)
      (fun _ t => After e input w₀ t name entry)
      (fun _ t => After e input w₀ t name entry ∧ t.pending = p) := by
  obtain ⟨t, hpart, hsent⟩ := hsent
  refine Durable.Spec.query_bind (fun _ _ => ⟨h, hpending⟩) fun _ _ => ?_
  refine Durable.Spec.query_bind (fun _ _ => ⟨h, hpending⟩) fun _ _ => ?_
  refine Durable.Spec.query_bind (fun _ _ => ⟨h, hpending⟩) fun receipt hreceipt => ?_
  refine Durable.Spec.query_bind (fun _ _ => ⟨h, hpending⟩) fun raw hraw => ?_
  obtain ⟨found, hfound, hreceiptSize, hreceiptDigest⟩ := receiptOf_ok hreceipt
  obtain rfl : bundle = found := Option.some.inj (hbundle.symm.trans hfound)
  have hencoded := mapError_eq_ok.1 hraw
  -- Every part of header and receipt that is sent keeps the state.
  have hparts : ∀ header bytes, encodeHeader ⟨.acknowledgement, raw.length, none⟩ = .ok header →
      bytes <+: header ++ raw → ∀ u, After e input w₀ u name entry → After e input w₀
        { u with sent := ⟨some name, bytes⟩ :: t :: w₀.sent } name entry := by
    intro header bytes hheader hbytes u hu
    refine ⟨⟨hu.adds.owned, hu.adds.fresh, hu.adds.mine, hu.adds.saved, hu.adds.moments⟩, hu.saved,
      hu.exported, hu.destination, ⟨t, hpart, Or.inr ⟨_, rfl, rfl, receipt, header, raw, hencoded,
      hheader, hbytes, ?_, ?_⟩⟩, hu.committed, hu.events⟩
    · rw [hreceiptSize, hsize]
    · rw [hreceiptDigest, hdigest]
  have hheaderOk : ∃ header, encodeHeader ⟨.acknowledgement, raw.length, none⟩ = .ok header := by
    refine (operator_frame_codec.2.2.1 _).2 ?_
    have hlength := decode_of_encode hencoded
    unfold ExportAcknowledgement.decode at hlength
    obtain ⟨_, hlength, -⟩ := bind_eq_ok.1 hlength
    have hsize : (raw.length : Int) = acknowledgementSize :=
      congrArg Nat.cast (of_decide_eq_true (require_eq_ok.1 hlength))
    exact ⟨hsize, rfl⟩
  obtain ⟨header, hheader⟩ := hheaderOk
  have hconnected := hparts header [] hheader (List.nil_prefix) w h
  have hstart : w.connect input.exportName =
      { w with sent := ⟨some name, []⟩ :: t :: w₀.sent } := by
    unfold Workstation.connect
    rw [h.destination, hsent]
  refine Durable.Spec.bind (M := fun _ u => After e input w₀ u name entry ∧ u.pending = p ∧
    u.sent = ⟨some name, []⟩ :: t :: w₀.sent) ?_ fun _ u hu => ?_
  · refine Durable.Spec.query_bind (fun _ _ => ⟨h, hpending⟩) fun _ _ => ?_
    refine Durable.Spec.effect ?_ ?_
    · rw [hstart]
      exact Or.inr ⟨_, _, hconnected⟩
    · rw [hstart]
      exact ⟨hconnected, hpending, rfl⟩
  obtain ⟨hu, hupending, husent⟩ := hu
  refine Durable.Spec.rescue (B := fun _ v => After e input w₀ v name entry ∧ v.pending = p) ?_
    fun _ v hv => Durable.Spec.fail hv
  refine Durable.Spec.query_bind (fun _ _ => ⟨hu, hupending⟩) fun header' hheader' => ?_
  obtain rfl : header = header' :=
    Except.ok.inj (hheader.symm.trans (mapError_eq_ok.1 hheader'))
  have hfirst : u.transmit header = { u with sent := ⟨some name, header⟩ :: t :: w₀.sent } := by
    unfold Workstation.transmit
    rw [husent]
    rfl
  have hfirstAfter := hparts header header hheader (List.prefix_append _ _) u hu
  rw [← hfirst] at hfirstAfter
  refine Durable.Spec.bind (write_spec
    (Q := fun v => After e input w₀ v name entry ∧ v.pending = p ∧
      v.sent = ⟨some name, header⟩ :: t :: w₀.sent)
    (Or.inr ⟨_, _, hfirstAfter⟩) ⟨hfirstAfter, by rw [hfirst]; exact hupending, by rw [hfirst]⟩
    fun _ hv => ⟨hv.1, hv.2.1⟩) ?_
  rintro x₁ v ⟨-, -, hv, hvpending, hvsent⟩
  have hsecond : v.transmit raw =
      { v with sent := ⟨some name, header ++ raw⟩ :: t :: w₀.sent } := by
    unfold Workstation.transmit
    rw [hvsent]
  have hsecondAfter := hparts header (header ++ raw) hheader (List.prefix_refl _) v hv
  rw [← hsecond] at hsecondAfter
  refine Durable.Spec.bind (write_spec
    (Q := fun z => After e input w₀ z name entry ∧ z.pending = p)
    (Or.inr ⟨_, _, hsecondAfter⟩) ⟨hsecondAfter, by rw [hsecond]; exact hvpending⟩
    fun _ hz => hz) ?_
  rintro x₂ z ⟨-, -, hz⟩
  exact Durable.Spec.query (fun _ _ => hz.1) fun _ _ => hz

/-! ## One call -/

variable (e) in
/-- The first part of an accepted response: everything but its payload. -/
structure Heard (input : Submission) (result : OperationResult) (payloadLength : Option Int)
    (x : Exchange) : Prop where
  request : ∃ raw request, input.rawRequest = .ok raw ∧ decodeRequest e raw = .ok request ∧
    result.correlationId = request.correlationId ∧ result.operation = request.operation
  valid : ValidContract e (.operationResult result)
  output : ∃ rawHeader header, decodeHeader rawHeader [.response] = .ok header ∧
    header.documentLength = (e.canonical (.operationResult result)).length ∧
    header.payloadLength = payloadLength ∧
    input.request.Reads (rawHeader ++ e.canonical (.operationResult result)) x

/-- A response whose exchange ends well is accepted with the payload that was read. -/
theorem Heard.accepted {result : OperationResult} {payload : Option Bytes} {x x' : Exchange}
    {failed : String → ClientError}
    (h : Heard e input result (payload.map fun bytes => (bytes.length : Int)) x)
    (hreads : x.Reads (payload.getD []) x')
    (hbundle : ∀ bytes, payload = some bytes → ∃ bundle, result.exportBundle = some bundle ∧
      bytes.length = bundle.size ∧ e.sha256 bytes = bundle.digest.value)
    (hfinish : x'.finish failed = .ok ()) : Accepted e input result payload := by
  obtain ⟨rawHeader, header, hheader, hlength, hpayload, hfirst⟩ := h.output
  obtain ⟨hempty, hstalled, hstatus⟩ := Exchange.finish_ok hfinish
  obtain ⟨hbytes, hpasses, hsame⟩ := hfirst.append hreads
  refine ⟨h.request, h.valid, ⟨rawHeader, header, hheader, hlength, hpayload, ?_⟩,
    fun hmem => hstalled (hpasses hmem), hsame.symm.trans hstatus, hbundle⟩
  rw [hbytes, hempty, List.append_nil]

variable (e input w₀) in
/-- How a call ends that returns a result. -/
def Returned (result : OperationResult) (w : Workstation) : Prop :=
  ∃ payload, Accepted e input result payload ∧ (payload = none → Before e input w₀ w none) ∧
    ∀ bytes, payload = some bytes → ∃ name entry, After e input w₀ w name entry ∧
      entry.bytes = bytes

theorem concludeExport_spec {result : OperationResult} {payloadLength : Option Int}
    {pending : Bool} {x x' : Exchange} (hheard : Heard e input result payloadLength x)
    (h : (pending = false ∧ x' = x ∧ payloadLength = none ∧ Before e input w₀ w none) ∨
      (pending = true ∧ ∃ bytes p bundle,
        Pending e input w₀ result payloadLength x x' w bytes p bundle)) :
    Durable.Spec w (concludeExport e input result pending x') (Visit e input w₀)
      (fun found t => found = result ∧ Returned e input w₀ result t)
      (fun _ t => (pending = false ∧ Before e input w₀ t none) ∨
        (pending = true ∧ Final e input w₀ t)) := by
  rcases h with ⟨rfl, rfl, rfl, hbefore⟩ | ⟨rfl, bytes, p, bundle, hpending⟩
  · refine Durable.Spec.query_bind (fun _ _ => Or.inl ⟨rfl, hbefore⟩) fun _ hfinish => ?_
    refine Durable.Spec.bind (M := fun _ t => Before e input w₀ t none)
      (Durable.Spec.pure hbefore) fun _ t ht => ?_
    have haccepted : Accepted e input result none :=
      hheard.accepted (Exchange.Reads.nil x') (fun _ hnone => (nomatch hnone)) hfinish
    exact Durable.Spec.pure ⟨rfl, none, haccepted, fun _ => ht, fun _ hnone => (nomatch hnone)⟩
  · have hopen : Final e input w₀ w := by
      have hholds : Holds e input w₀ p bytes w :=
        ⟨hpending.pending, hpending.named, true, hpending.before⟩
      obtain ⟨extra, hopen⟩ := hholds.opened hpending.file hpending.directory hpending.unplaced.1
        hpending.unplaced.2
      exact Or.inr (Or.inl ⟨p, extra, hopen⟩)
    refine Durable.Spec.query_bind (fun _ _ => Or.inr ⟨rfl, hopen⟩) fun _ hfinish => ?_
    have hlength : payloadLength = (some bytes).map fun bytes => (bytes.length : Int) :=
      hpending.payloadLength
    have haccepted : Accepted e input result (some bytes) := by
      rw [hlength] at hheard
      refine hheard.accepted hpending.reads (fun found hfound => ?_) hfinish
      cases hfound
      exact ⟨bundle, hpending.binding, hpending.size, hpending.digest⟩
    have hreceived : Received e input w₀ w p ⟨bytes, true, true⟩ :=
      ⟨hpending.before, hpending.pending, hpending.unplaced.2, hpending.unplaced.1,
        hpending.directory, rfl, hpending.destination, result, haccepted⟩
    refine Durable.Spec.bind (M := fun _ t => After e input w₀ t p.destinationName
      ⟨bytes, true, true⟩) ?_ fun _ t ht => ?_
    · refine Durable.Spec.bind ((commit_spec hreceived hpending.file).weaken (fun _ => id)
        (fun _ _ => id) fun _ _ hfinal => Or.inr ⟨rfl, hfinal⟩) ?_
      rintro _ u ⟨⟨hu, hsent⟩, q, hq, hclosed⟩
      refine (acknowledgeExport_spec hu hsent hpending.binding hpending.size hpending.digest
        (some q) hq).weaken (fun _ => id) (fun _ _ => id) ?_
      rintro _ v ⟨hv, hvpending⟩
      exact Or.inr ⟨rfl, Or.inr (Or.inr ⟨_, _, q, hv, hvpending, Or.inl hclosed⟩)⟩
    · refine Durable.Spec.pure ⟨rfl, some bytes, haccepted, fun hnone => (nomatch hnone), ?_⟩
      intro found hfound
      cases hfound
      exact ⟨_, _, ht, rfl⟩

/-- A call that starts in `w₀`: it returns only an accepted result, and a failed call leaves nothing
behind or a saved export. -/
theorem submit_spec (hevents : w₀.events = []) :
    Durable.Spec w₀ (submit e input) (Visit e input w₀)
      (fun result t => Returned e input w₀ result t)
      (fun _ t => t = w₀ ∨ Left e input w₀ t) := by
  refine Durable.Spec.query_bind (fun _ _ => Or.inl rfl) fun _ _ => ?_
  refine Durable.Spec.query_bind (fun _ _ => Or.inl rfl) fun _ _ => ?_
  refine Durable.Spec.query_bind (fun _ _ => Or.inl rfl) fun raw hraw => ?_
  refine Durable.Spec.query_bind (fun _ _ => Or.inl rfl) fun request hrequest => ?_
  refine Durable.Spec.query_bind (fun _ _ => Or.inl rfl) fun canonical _ => ?_
  refine Durable.Spec.query_bind (fun _ _ => Or.inl rfl) fun artifact _ => ?_
  have hadds : Adds w₀ (w₀.connect none) none :=
    ⟨fun _ _ => ⟨Or.inl, fun h => h.elim id fun h => (nomatch h.1)⟩, fun _ _ h => (nomatch h),
      fun _ _ h => (nomatch h), fun _ _ h => h, List.suffix_refl _⟩
  have hconnected : Before e input w₀ (w₀.connect none) none := by
    refine ⟨hadds, fun _ _ hnone => (nomatch hnone), ⟨_, rfl, Or.inl rfl⟩, fun event hevent => ?_⟩
    have hnone : event ∈ w₀.events := hevent
    rw [hevents] at hnone
    cases hnone
  refine Durable.Spec.bind (M := fun _ t => Before e input w₀ t none ∧
    t.sent = ⟨none, []⟩ :: w₀.sent) ?_ ?_
  · refine Durable.Spec.query_bind (fun _ _ => Or.inl rfl) fun _ _ => ?_
    exact Durable.Spec.effect (Or.inl ⟨none, hconnected⟩) ⟨hconnected, rfl⟩
  rintro _ t ⟨ht, hsent⟩
  have hfailed : ∀ u, Before e input w₀ u none → u = w₀ ∨ Left e input w₀ u :=
    fun u hu => Or.inr (Or.inl ⟨none, hu, Or.inl rfl⟩)
  refine Durable.Spec.bind ((sendRequest_spec ht hsent).weaken (fun _ => id) (fun _ _ => id)
    fun _ u hu => hfailed u hu) ?_
  rintro x u ⟨harrivals, hstatus, hu⟩
  refine Durable.Spec.query_bind (fun _ _ => hfailed u hu) fun response hresponse => ?_
  obtain ⟨header, result, x'⟩ := response
  obtain ⟨rawHeader, hread⟩ := readResponse_ok hresponse
  have hheard : Heard e input result header.payloadLength x' := by
    obtain ⟨hbytes, hstalled, hsame⟩ := hread.reads
    rw [harrivals] at hbytes hstalled
    exact ⟨⟨raw, request, hraw, hrequest, hread.correlation, hread.operation⟩, hread.valid,
      rawHeader, header, hread.header_ok, hread.length, rfl, hbytes, hstalled,
      hsame.trans hstatus⟩
  refine Durable.Spec.bind ((receiveExport_spec hu).weaken (fun _ => id) (fun _ _ => id)
    fun _ v hv => Or.inr hv) ?_
  rintro ⟨pending, x''⟩ v hv
  have hv' : (pending = false ∧ x'' = x' ∧ header.payloadLength = none ∧
      Before e input w₀ v none) ∨ (pending = true ∧ ∃ bytes p bundle,
        Pending e input w₀ result header.payloadLength x' x'' v bytes p bundle) := by
    rcases hv with ⟨hpair, hnone, hbefore⟩ | hpending
    · exact Or.inl ⟨congrArg Prod.fst hpair, congrArg Prod.snd hpair, hnone, hbefore⟩
    · exact Or.inr hpending
  refine (Durable.Spec.rescue (concludeExport_spec hheard hv') ?_).weaken (fun _ => id) ?_
    (fun _ _ => id)
  · rintro error z (⟨rfl, hz⟩ | ⟨rfl, hz⟩)
    · refine Durable.Spec.bind (M := fun _ y => Before e input w₀ y none)
        (Durable.Spec.pure hz) fun _ y hy => Durable.Spec.fail (hfailed y hy)
    · refine Durable.Spec.bind ((cleanup_spec hz).weaken (fun _ => id) (fun _ _ => id)
        fun _ _ hleft => Or.inr hleft) fun _ y hy => Durable.Spec.fail (Or.inr hy)
  · rintro found y ⟨rfl, hy⟩
    exact hy

end Runs

end StaticHostAgent.Operator
