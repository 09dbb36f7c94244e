import StaticHostAgent.Host.Errors

/-!
# Typed paths of the authoritative records

A `StateRecordPath` is one typed path of the fixed state layout: the contract kind of its record,
the file it names, the identities its record must carry and whether the record may be replaced. A
`FilePath` is the file alone; typed paths of one store share it. Files are ordered store by store
and there by their identities, as directory listings are.
-/

set_option autoImplicit false

namespace StaticHostAgent.State

open Library Contracts Host

/-- The files of the state layout. -/
inductive FilePath where
  | desired (tenantId : Uuid7)
  | observed (tenantId : Uuid7)
  | deployment (tenantId deploymentId : Uuid7)
  | archive (tenantId deploymentId : Uuid7)
  | job (jobId : Uuid7)
  | result (recordId : Uuid7)
  | correlation (correlationId : Uuid7)
  | intent (intentId : Uuid7)
  deriving DecidableEq

namespace FilePath

/-- The store of a file and the ranks of its identities. -/
def parts : FilePath → Nat × Nat × Nat
  | desired t => (0, t.rank, 0)
  | observed t => (1, t.rank, 0)
  | deployment t d => (2, t.rank, d.rank)
  | archive t d => (3, t.rank, d.rank)
  | job j => (4, j.rank, 0)
  | result r => (5, r.rank, 0)
  | correlation c => (6, c.rank, 0)
  | intent i => (7, i.rank, 0)

theorem parts_injective : Function.Injective parts := by
  have hrank : ∀ {u v : Uuid7}, u.rank = v.rank → u = v := fun h => Uuid7.rank_injective h
  intro p q h
  cases p <;> cases q <;> simp only [parts, Prod.mk.injEq] at h
  all_goals first
    | exact absurd h.1 (by decide)
    | (rw [hrank h.2.1]; done)
    | rw [hrank h.2.1, hrank h.2.2]

theorem parts_bounded (p : FilePath) : p.parts.2.1 < 2 ^ 122 ∧ p.parts.2.2 < 2 ^ 122 := by
  cases p <;> exact ⟨Uuid7.rank_lt _, by first | exact Uuid7.rank_lt _ | exact Nat.two_pow_pos _⟩

/-- The place of a file in the listing of all files. -/
def rank (p : FilePath) : Nat := p.parts.1 * 2 ^ 244 + p.parts.2.1 * 2 ^ 122 + p.parts.2.2

theorem rank_injective : Function.Injective rank := by
  intro p q h
  obtain ⟨hp, hp'⟩ := p.parts_bounded
  obtain ⟨hq, hq'⟩ := q.parts_bounded
  simp only [rank] at h
  refine parts_injective (Prod.ext ?_ (Prod.ext ?_ ?_)) <;> omega

instance : LinearOrder FilePath := LinearOrder.lift' rank rank_injective

theorem lt_iff_rank {p q : FilePath} : p < q ↔ p.rank < q.rank := Iff.rfl

theorem deployment_lt_iff {t d d' : Uuid7} : deployment t d < deployment t d' ↔ d < d' := by
  rw [lt_iff_rank, Uuid7.lt_iff_rank]
  simp only [rank, parts]
  omega

theorem archive_lt_iff {t d d' : Uuid7} : archive t d < archive t d' ↔ d < d' := by
  rw [lt_iff_rank, Uuid7.lt_iff_rank]
  simp only [rank, parts]
  omega

theorem intent_lt_iff {i i' : Uuid7} : intent i < intent i' ↔ i < i' := by
  rw [lt_iff_rank, Uuid7.lt_iff_rank]
  simp only [rank, parts]
  omega

theorem job_lt_iff {j j' : Uuid7} : job j < job j' ↔ j < j' := by
  rw [lt_iff_rank, Uuid7.lt_iff_rank]
  simp only [rank, parts]
  omega

theorem result_lt_iff {r r' : Uuid7} : result r < result r' ↔ r < r' := by
  rw [lt_iff_rank, Uuid7.lt_iff_rank]
  simp only [rank, parts]
  omega

theorem correlation_lt_iff {c c' : Uuid7} : correlation c < correlation c' ↔ c < c' := by
  rw [lt_iff_rank, Uuid7.lt_iff_rank]
  simp only [rank, parts]
  omega

/-- The files of the three authorization stores. -/
def isAuthorization : FilePath → Bool
  | job _ | result _ | correlation _ => true
  | _ => false

/-- The tenant whose directory holds the file. -/
def tenant? : FilePath → Option Uuid7
  | desired t | observed t | deployment t _ | archive t _ => some t
  | _ => none

end FilePath

/-- One typed path in the authoritative state layout. -/
inductive StateRecordPath where
  | tenantDesired (tenantId : Uuid7)
  | tenantObserved (tenantId : Uuid7)
  | tenantDeployment (tenantId deploymentId : Uuid7)
  | tenantArchive (tenantId deploymentId : Uuid7)
  | authorizationJob (jobId : Uuid7)
  | authorizationResult (jobId : Uuid7)
  | emergencyResult (correlationId : Uuid7)
  | authorizationCorrelation (correlationId : Uuid7)
  | transactionIntent (intentId : Uuid7)
  | emergencyDeletionIntent (correlationId : Uuid7)
  | archiveConstructionIntent (intentId : Uuid7)
  | archiveRetirementIntent (intentId : Uuid7)
  deriving DecidableEq

namespace StateRecordPath

def contractKind : StateRecordPath → ContractKind
  | tenantDesired _ => .site
  | tenantObserved _ => .tenantObservedState
  | tenantDeployment _ _ => .deploymentRecord
  | tenantArchive _ _ => .archiveRecord
  | authorizationJob _ => .authorizationJob
  | authorizationResult _ => .operationResult
  | emergencyResult _ => .operationResult
  | authorizationCorrelation _ => .authorizationJob
  | transactionIntent _ => .transactionIntent
  | emergencyDeletionIntent _ => .emergencyDeletionIntent
  | archiveConstructionIntent _ => .archiveConstructionIntent
  | archiveRetirementIntent _ => .archiveRetirementIntent

/-- The file of a typed path. -/
def components : StateRecordPath → FilePath
  | tenantDesired t => .desired t
  | tenantObserved t => .observed t
  | tenantDeployment t d => .deployment t d
  | tenantArchive t d => .archive t d
  | authorizationJob j => .job j
  | authorizationResult j => .result j
  | emergencyResult c => .result c
  | authorizationCorrelation c => .correlation c
  | transactionIntent i => .intent i
  | emergencyDeletionIntent i => .intent i
  | archiveConstructionIntent i => .intent i
  | archiveRetirementIntent i => .intent i

/-- Whether this record kind has a committed mutable lifecycle. -/
def allowsReplacement : StateRecordPath → Bool
  | tenantDesired _ | tenantObserved _ | authorizationJob _ | transactionIntent _
  | archiveConstructionIntent _ | archiveRetirementIntent _ => true
  | _ => false

def isIntent : StateRecordPath → Bool
  | transactionIntent _ | emergencyDeletionIntent _ | archiveConstructionIntent _
  | archiveRetirementIntent _ => true
  | _ => false

/-- Whether the identities of a record agree with its path. -/
def binds : StateRecordPath → Document → Bool
  | tenantDesired t, .site m => decide (m.metadata.id = t)
  | tenantObserved t, .tenantObservedState o => decide (o.tenantId = t)
  | tenantDeployment t d, .deploymentRecord r => decide (r.tenantId = t) && decide (r.id = d)
  | tenantArchive t d, .archiveRecord a => decide (a.tenantId = t) && decide (a.deploymentId = d)
  | authorizationJob j, .authorizationJob r => decide (r.jobId = j)
  | authorizationCorrelation c, .authorizationJob r => decide (r.request.correlationId = c)
  | authorizationResult j, .operationResult r => decide (r.provenance = .authorizationJob j)
  | emergencyResult c, .operationResult r =>
      match r.provenance with
      | .emergencyAdministrator _ _ => decide (r.correlationId = c)
      | .authorizationJob _ => false
  | transactionIntent i, .transactionIntent r => decide (r.intentId = i)
  | emergencyDeletionIntent i, .emergencyDeletionIntent r => decide (r.intentId = i)
  | archiveConstructionIntent i, .archiveConstructionIntent r => decide (r.intentId = i)
  | archiveRetirementIntent i, .archiveRetirementIntent r => decide (r.intentId = i)
  | _, _ => false

/-- What a record says when its identities disagree with its path. -/
def bindingMessage : StateRecordPath → String
  | tenantDesired _ => "desired-state identity does not match its path"
  | tenantObserved _ => "observed-state identity does not match its path"
  | tenantDeployment _ _ => "deployment identity does not match its path"
  | tenantArchive _ _ => "archive identity does not match its path"
  | authorizationJob _ => "authorization-job identity does not match its path"
  | authorizationCorrelation _ => "authorization-correlation identity does not match its path"
  | authorizationResult _ => "authorization-result identity does not match its path"
  | emergencyResult _ => "emergency-result identity does not match its path"
  | transactionIntent _ | emergencyDeletionIntent _ | archiveConstructionIntent _
  | archiveRetirementIntent _ => "intent identity does not match its path"

/-- Prove that record identity agrees with its typed filesystem path. -/
def validateBinding (path : StateRecordPath) (document : Document) : Except AgentError Unit :=
  require (path.binds document) (.stateRecord path.bindingMessage)

/-- A document that may stand at the path: of its kind, valid, with the path's identities. -/
structure Fits (e : Encoding) (path : StateRecordPath) (document : Document) : Prop where
  kind : document.kind = path.contractKind
  valid : ValidContract e document
  bound : path.binds document = true

end StateRecordPath

end StaticHostAgent.State
