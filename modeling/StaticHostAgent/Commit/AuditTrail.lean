import StaticHostAgent.Commit.SharedFacts
import StaticHostAgent.Audit.Lookup

/-!
# What the audit chain records

The entries of a state's audit chain, and when the chain records an entry: one of its lines carries
the digest of the entry. An append puts the appended entry behind the others, and a commit that finds
its entry at the end of the chain finds it recorded. What authorizes the losses of a tenant is read
off the recorded entries.
-/

set_option autoImplicit false

namespace StaticHostAgent.Commit

open Library Contracts Host Audit State

/-- The entries of the audit chain of a state. -/
def auditTrail (host : StateHost) (s : Store) : List AuditEntry :=
  flatEntries host.toAuditHost defaultAuditLimits s.audit

/-- An entry of the chain has the digest of `x`. -/
def Recorded (host : StateHost) (x : AuditEntry) (s : Store) : Prop :=
  ∃ y ∈ auditTrail host s, auditEntryDigest host.encoding y = auditEntryDigest host.encoding x

/-- The chain records a success of the tenant by one of the operations. -/
def Succeeded (host : StateHost) (operations : List Operation) (t : Uuid7) (s : Store) : Prop :=
  ∃ x, Recorded host x s ∧ x.operation ∈ operations ∧ x.tenantId = some t ∧
    x.resultStatus = .succeeded

/-- The chain records the deletion of the tenant. -/
abbrev Tombstoned (host : StateHost) (t : Uuid7) (s : Store) : Prop :=
  Succeeded host [.delete] t s

variable {host : StateHost} {x : AuditEntry} {s u : Store} {t : Uuid7}
  {operations : List Operation}

theorem Recorded.grow (h : Recorded host x s)
    (hgrown : ∀ y ∈ auditTrail host s, y ∈ auditTrail host u) : Recorded host x u := by
  obtain ⟨y, hy, hdigest⟩ := h
  exact ⟨y, hgrown y hy, hdigest⟩

/-- What the chain records depends on the chain alone. -/
theorem Recorded.same (h : Recorded host x s) (haudit : u.audit = s.audit) :
    Recorded host x u := by
  unfold Recorded auditTrail at h ⊢
  rwa [haudit]

theorem Succeeded.grow (h : Succeeded host operations t s)
    (hgrown : ∀ y ∈ auditTrail host s, y ∈ auditTrail host u) :
    Succeeded host operations t u := by
  obtain ⟨x, hx, hrest⟩ := h
  exact ⟨x, hx.grow hgrown, hrest⟩

theorem Succeeded.same (h : Succeeded host operations t s) (haudit : u.audit = s.audit) :
    Succeeded host operations t u := by
  obtain ⟨x, hx, hrest⟩ := h
  exact ⟨x, hx.same haudit, hrest⟩

theorem Succeeded.more {more : List Operation} (h : Succeeded host operations t s)
    (hmore : ∀ o ∈ operations, o ∈ more) : Succeeded host more t s := by
  obtain ⟨x, hx, hoperation, hrest⟩ := h
  exact ⟨x, hx, hmore _ hoperation, hrest⟩

/-- The entry is recorded behind its append. -/
theorem Recorded.of_append (h : auditTrail host u = auditTrail host s ++ [x]) :
    Recorded host x u := by
  refine ⟨x, ?_, rfl⟩
  rw [h]
  exact List.mem_append_right _ List.mem_cons_self

/-! ## Appends -/

section Appends

variable {host : AuditHost} {limits : AuditLimits} {capacity : FilesystemCapacity}
  {administrator : Bool} {a : AuditStore}

/-- A planned write puts its entry behind the others. -/
theorem flatEntries_write {plan : AuditAppendPlan}
    (h : planAppend host limits capacity x administrator a = .ok plan) :
    flatEntries host limits (a.write plan) = flatEntries host limits a ++ [x] := by
  obtain ⟨archive, segments, scan, headroom, hp⟩ := planAppend_eq_ok.1 h
  unfold flatEntries
  rw [hp.read_write, hp.read]
  exact chainEntries_appended hp.read hp.target hp.scanned

/-- Every state that an append leaves, and the one it succeeds in, has at most one entry more. -/
theorem appendAudit_trail (host : AuditHost) (limits : AuditLimits) (capacity : FilesystemCapacity)
    (x : AuditEntry) (administrator : Bool) (a : AuditStore) :
    let run := appendAudit host limits .written capacity x administrator a
    (run.trace = [] ∧ run.state = a ∧ ∀ appended, run.result ≠ .ok appended) ∨
      ∃ b, run.trace = [b] ∧ run.state = b ∧
        flatEntries host limits b = flatEntries host limits a ++ [x] := by
  rcases @appendAudit_run host limits capacity x administrator a with
    ⟨error, -, hrun⟩ | ⟨plan, hplan, hrun⟩
  · rw [hrun]
    exact Or.inl ⟨rfl, rfl, fun _ h => by cases h⟩
  · rw [hrun]
    exact Or.inr ⟨a.write plan, rfl, rfl, flatEntries_write hplan⟩

end Appends

/-! ## Readings -/

/-- The terminal digest of a chain is the digest of its last entry. -/
theorem mem_of_terminalBehind {e : Encoding} {xs : List AuditEntry} {d : Digest}
    (h : terminalBehind e none xs = some d) : ∃ y ∈ xs, auditEntryDigest e y = d := by
  rcases List.eq_nil_or_concat xs with rfl | ⟨init, y, rfl⟩
  · cases h
  · rw [List.concat_eq_append, terminalBehind_append] at h
    refine ⟨y, ?_, Option.some.inj h⟩
    rw [List.concat_eq_append]
    exact List.mem_append_right _ List.mem_cons_self

/-- An inspected chain ends in the digest of one of its entries. -/
theorem inspectStateAudit_terminal {state : AuditState} {d : Digest}
    (h : inspectStateAudit host s = .ok state) (hterminal : state.terminalDigest = some d) :
    ∃ y ∈ auditTrail host s, auditEntryDigest host.encoding y = d := by
  unfold inspectStateAudit inspectAudit validateChain at h
  obtain ⟨⟨archive, segments⟩, hread, h⟩ := bind_eq_ok.1 h
  obtain ⟨scan, hvalid, hstate⟩ := bind_eq_ok.1 h
  obtain ⟨hscanned, -⟩ := validateChainRecords_eq_ok.1 hvalid
  have hsound := soundSoFar_of_read hread hscanned
  have hentries : auditTrail host s = chainEntries host.toAuditHost segments := by
    unfold auditTrail flatEntries
    rw [hread]
  rw [← pure_eq_ok.1 hstate] at hterminal
  rw [hentries]
  exact mem_of_terminalBehind (hsound.terminal.symm.trans hterminal)

/-- An entry that needs no append is recorded. -/
theorem recorded_of_appended {path : CommitPath}
    (h : inspectNeedsAppend host path x s = .ok false) : Recorded host x s := by
  obtain ⟨state, hinspect, hneeds⟩ := inspectNeedsAppend_eq_ok.1 h
  rcases auditNeedsAppend_eq_ok.1 hneeds with ⟨-, hfalse⟩ | ⟨⟨-, hterminal⟩, -⟩
  · cases hfalse
  · exact inspectStateAudit_terminal hinspect hterminal

end StaticHostAgent.Commit
