import StaticHostAgent.Contracts.Validation

/-!
# Errors of the host agent

One type for every exception class that the modelled functions raise, with the message.
-/

set_option autoImplicit false

namespace StaticHostAgent.Host

open Library Contracts

/-- The terminal commit paths, each with an exception class of its own. -/
inductive CommitPath where
  | create | route | deployment | archive | restore
  deriving DecidableEq

/-- How the messages of a commit path name it. -/
def CommitPath.noun : CommitPath → String
  | .create => "create"
  | .route => "route"
  | .deployment => "deployment"
  | .archive => "archive"
  | .restore => "restore"

inductive AgentError where
  | contract (error : ContractError)
  | os (errno : Nat)
  | fileNotFound
  | fileExists
  | stateRecord (message : String)
  | stateConflict (message : String)
  | stateInventory (message : String)
  | stateAdmissionRejected (message : String)
  | capacity (message : String)
  | capacityRejected (message : String)
  | backupIdentity (message : String)
  | auditProtection (message : String)
  | auditArchiveCapacity (message : String)
  | audit (message : String)
  | auditCapacity (message : String)
  | releaseStore (message : String)
  | releaseTree (message : String)
  | commit (path : CommitPath) (message : String)
  | keyError (member : String)
  | lifecyclePlan (message : String)
  deriving DecidableEq

/-- Raise the errors of the contracts as errors of the agent. -/
def liftContract {α : Type} : Except ContractError α → Except AgentError α :=
  mapError AgentError.contract

theorem liftContract_eq_ok {α : Type} {x : Except ContractError α} {a : α} :
    liftContract x = .ok a ↔ x = .ok a := mapError_eq_ok

end StaticHostAgent.Host
