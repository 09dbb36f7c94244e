import StaticHostAgent.Isolation.Records
import StaticHostAgent.Library.Directory

/-!
# What the records of a journal say about one another

`collect` binds the facts of one journal to each other: one manifest, preparation and confirmation
before any creation, one identity for each entry, closures and readbacks that agree with the
creations. It reads the records in the order in which they come, but neither its outcome nor its
error depends on that order (`requireBound_perm`).
-/

set_option autoImplicit false

namespace StaticHostAgent.Isolation

open Library Contracts

/-! ## The facts of one kind -/

namespace Fact

def document? : Fact → Option Manifest
  | .manifest document => some document
  | _ => none

def preparation? : Fact → Option Preparation
  | .prepared preparation => some preparation
  | _ => none

def isConfirmed : Fact → Bool
  | .confirmed _ => true
  | _ => false

def enteredIntent? : Fact → Option String
  | .entered intentSha256 => some intentSha256
  | _ => none

def creation? : Fact → Option (String × String)
  | .created intentSha256 credentialId => some (intentSha256, credentialId)
  | _ => none

def issued? : Fact → Option (ByRole String)
  | .issued ids => some ids
  | _ => none

def closure? : Fact → Option Closure
  | .closed closure => some closure
  | _ => none

def readback? : Fact → Option Readback
  | .readback proof => some proof
  | _ => none

def context? : Fact → Option Context
  | .context value => some value
  | _ => none

/-- The context that a started phase is about, with its times. -/
def phase? : Fact → Option (String × String × String)
  | .phaseStarted contextSha256 startedAt deadlineAt => some (contextSha256, startedAt, deadlineAt)
  | _ => none

def functional? : Fact → Option FunctionalResult
  | .functional result => some result
  | _ => none

def stop? : Fact → Option ConsumerStop
  | .quiesced stop => some stop
  | _ => none

def clean? : Fact → Option DnsClean
  | .dnsClean proof => some proof
  | _ => none

end Fact

/-- `single`: the payload of a kind, if all its records agree. -/
def single {α : Type} [DecidableEq α] (kind : Fact → Option α) (records : List Record) :
    Except IsolationError (Option α) :=
  match records.filterMap fun record => kind record.fact with
  | [] => .ok none
  | value :: rest =>
      if (value :: rest).all fun other => decide (other = value) then .ok (some value)
      else .error (.value "isolated immutable control fact conflicts")

variable (h : IsolationHost)

/-! ## Creations -/

/-- The intents whose entry was recorded. -/
def enteredIntents (records : List Record) : List String :=
  records.filterMap fun record => record.fact.enteredIntent?

/-- A created identity has an entry, and no other identity was created for it. -/
def isOriginal (entered : List String) (created : Directory String String)
    (creation : String × String) : Bool :=
  entered.contains creation.1 &&
    (created.find? creation.1).all fun credentialId => decide (credentialId = creation.2)

/-- One created identity, against the entries and the identities so far. -/
def addCreation (entered : List String) (created : Directory String String)
    (creation : String × String) : Except IsolationError (Directory String String) := do
  require (isOriginal entered created creation)
    (.value "isolated created identity has no unique original entry")
  .ok (created.insert creation.1 creation.2)

/-- The created identity of every intent that has one. -/
def creations (records : List Record) : Except IsolationError (Directory String String) :=
  (records.filterMap fun record => record.fact.creation?).foldlM
    (addCreation (enteredIntents records)) Directory.empty

/-! ## The parts of the check -/

/-- Credential facts need a preparation and an independent confirmation. -/
def requirePrepared (prepared : Option Preparation) (records : List Record) :
    Except IsolationError Unit :=
  require (!(records.any fun record => record.fact.isCore) ||
      prepared.isSome && records.any fun record => record.fact.isConfirmed)
    (.value "isolated creation lacks preparation and independent confirmation")

/-- The issued identities are the created ones. -/
def requireIssued (m : Manifest) (created : Directory String String) :
    Option (ByRole String) → Except IsolationError Unit
  | none => .ok ()
  | some ids =>
      require (decide (ByRole.ofFn (fun role => some (ids.get role)) =
          ByRole.ofFn fun role => created.find? ((m.intents.get role).sha256 h)))
        (.value "isolated issued IDs differ from original acknowledged creations")

/-- What a closure says about one role, against its entry and its creation. -/
def requireClosedRole (entered : List String) (created : Directory String String) (issued : Bool)
    (intentSha256 : String) : Outcome → Except IsolationError Unit
  | .notSubmitted =>
      require (!(entered.contains intentSha256 || (created.find? intentSha256).isSome || issued))
        (.value "isolated closure contradicts creation entry")
  | .absent credentialId _ _ =>
      require (decide (some credentialId = created.find? intentSha256))
        (.value "isolated closure differs from original creation")
  | .pending _ _ => .error (.value "isolated closure differs from original creation")

/-- A closure against the entries and the creations. -/
def requireClosed (m : Manifest) (entered : List String) (created : Directory String String)
    (issued : Bool) : Option Closure → Except IsolationError Unit
  | none => .ok ()
  | some closure =>
      [Role.audit, .caddy, .observer].forM fun role =>
        requireClosedRole entered created issued ((m.intents.get role).sha256 h)
          (closure.roles.get role)

/-- A readback names the closure. -/
def requireReadbacks (closed : Option Closure) (records : List Record) :
    Except IsolationError Unit :=
  require ((records.filterMap fun record => record.fact.readback?).all fun proof =>
      match closed with
      | none => false
      | some closure => decide (proof.closureSha256 = h.digest (.closure closure)))
    (.value "isolated independent readback differs from original closure")

/-- A public context needs the exact issued credentials. -/
def requirePublic (m : Manifest) (prepared : Option Preparation) (issued : Option (ByRole String)) :
    Option Context → Except IsolationError Unit
  | none => .ok ()
  | some context =>
      match prepared, issued with
      | some prepared, some ids => do
          roleIds ids
          requireContext h context prepared m.plan (m.intentSha256 h) ids m.intents.audit.expiresAt
      | _, _ => .error (.value "isolated public context predates exact credential issuance")

/-- A result of the public phase belongs to the context. -/
def requireOwnContext (contextSha256 : Option String) (named : Option String) :
    Except IsolationError Unit :=
  match named with
  | none => .ok ()
  | some text =>
      require (decide (contextSha256 = some text))
        (.value "isolated phase result belongs to another context")

/-- A consumer stop is about the actors that were prepared. -/
def requireStopped (prepared : Option Preparation) (contextSha256 : Option String) (phase : Bool) :
    Option ConsumerStop → Except IsolationError Unit
  | none => .ok ()
  | some stop =>
      match prepared with
      | none => .error (.value "isolated consumer stop has no matching prepared context")
      | some prepared => do
          require (decide (stop.contextSha256 = contextSha256))
            (.value "isolated consumer stop has no matching prepared context")
          require (decide (stop.actors.named.map (fun entry => (entry.1, entry.2.actor)) =
              prepared.actors.named))
            (.value "isolated stopped actor differs from its exact prepared identity")
          require (decide (stop.publicPhase = if phase then "entered" else "not-started"))
            (.value "isolated stop contradicts public phase entry")

/-- The lookup of a zone that shows its name absent. -/
def absentZone (plan : Plan) (domain zone : String) : ZoneLookup :=
  ⟨zone, "_acme-challenge.m3-11-" ++ withoutHyphens plan.nonce ++ "." ++ domain, []⟩

/-- A DNS observation shows both names of the plan absent, after the teardown of the context. -/
def requireAbsence (m : Manifest) (contextSha256 : Option String) :
    Observation → Except IsolationError Unit
  | .lookup lookup => do
      require (decide (contextSha256 = some lookup.contextSha256) &&
          decide (lookup.namesSha256 =
            h.digest (.names (m.plan.sha256 h) m.plan.nonce)) &&
          decide (lookup.kind = "teardown") &&
          decide (lookup.format = "lowerduckpond-m3-11-private-dns-observation-v1"))
        (.value "isolated DNS absence observation context differs")
      require (decide (lookup.comZone = absentZone m.plan "lowerduckpond.com" m.plan.comZone) &&
          decide (lookup.netZone = absentZone m.plan "lowerduckpond.net" m.plan.netZone))
        (.value "isolated DNS cleanup does not prove exact two-name absence")
  | _ => .error (.value "combined qualification fields are incomplete or unknown")

/-- A DNS cleanup, of a phase that never started or by observation. -/
def requireClean (m : Manifest) (prepared : Option Preparation) (contextSha256 : Option String)
    (phase : Bool) : Option DnsClean → Except IsolationError Unit
  | none => .ok ()
  | some proof => do
      require (decide (proof.contextSha256 = contextSha256))
        (.value "isolated DNS cleanup belongs to another context")
      if proof.basis = "public-not-started" then
        require (!phase && decide (some proof.observation =
            prepared.map fun prepared => .restore prepared.restore))
          (.value "isolated no-public-action proof contradicts original preparation")
      else requireAbsence h m contextSha256 proof.observation

/-- The checks of `collect` on a journal that is not empty. -/
def requireBound (m : Manifest) (records : List Record) : Except IsolationError Unit := do
  match ← single Fact.document? records with
  | none => .error (.value "isolated required control fact is missing")
  | some document => require (decide (document = m)) (.value "isolated journal manifest differs")
  let prepared ← single Fact.preparation? records
  requirePrepared prepared records
  let created ← creations records
  let issued ← single Fact.issued? records
  requireIssued h m created issued
  let closed ← single Fact.closure? records
  requireClosed h m (enteredIntents records) created issued.isSome closed
  requireReadbacks h closed records
  let context ← single Fact.context? records
  requirePublic h m prepared issued context
  let contextSha256 := context.map fun context => h.digest (.context context)
  let phase ← single Fact.phase? records
  requireOwnContext contextSha256 (phase.map Prod.fst)
  let functional ← single Fact.functional? records
  requireOwnContext contextSha256 (functional.map FunctionalResult.contextSha256)
  let stopped ← single Fact.stop? records
  requireStopped prepared contextSha256 phase.isSome stopped
  let clean ← single Fact.clean? records
  requireClean h m prepared contextSha256 phase.isSome clean
  require (!closed.isSome || stopped.isSome)
    (.value "isolated closure lacks positive owned consumer stop")

/-- `collect` -/
def collect (m : Manifest) (records : List Record) : Except IsolationError (List Record) :=
  if records.isEmpty then .ok []
  else do
    requireBound h m records
    .ok records

/-! ## The order of the records -/

variable {h} {m : Manifest} {records records' : List Record}

theorem single_perm {α : Type} [DecidableEq α] (kind : Fact → Option α)
    (hperm : records.Perm records') : single kind records = single kind records' := by
  have hvalues := hperm.filterMap fun record => kind record.fact
  unfold single
  -- all values agree with the first one as soon as they agree with any of them
  cases hfirst : records.filterMap fun record => kind record.fact with
  | nil =>
      rw [hfirst] at hvalues
      rw [hvalues.nil_eq]
  | cons value rest =>
      cases hsecond : records'.filterMap fun record => kind record.fact with
      | nil =>
          rw [hsecond] at hvalues
          rw [hfirst] at hvalues
          exact absurd hvalues.length_eq (by simp)
      | cons value' rest' =>
          rw [hfirst, hsecond] at hvalues
          dsimp only
          have hagree : ((value :: rest).all fun other => decide (other = value)) =
              ((value' :: rest').all fun other => decide (other = value')) := by
            rw [Bool.eq_iff_iff, List.all_eq_true, List.all_eq_true]
            simp only [decide_eq_true_eq]
            constructor
            · intro hall other hother
              rw [hall other (hvalues.mem_iff.2 hother),
                hall value' (hvalues.mem_iff.2 List.mem_cons_self)]
            · intro hall other hother
              rw [hall other (hvalues.mem_iff.1 hother),
                hall value (hvalues.mem_iff.1 List.mem_cons_self)]
          rw [hagree]
          cases hall : (value' :: rest').all fun other => decide (other = value') with
          | false => rfl
          | true =>
              have hmem := hvalues.mem_iff.1 (List.mem_cons_self : value ∈ value :: rest)
              have hsame := of_decide_eq_true (List.all_eq_true.1 hall value hmem)
              rw [hsame]

theorem isOriginal_insert (entered : List String) (created : Directory String String)
    (a b : String × String) : isOriginal entered (created.insert a.1 a.2) b =
      if b.1 = a.1 then entered.contains b.1 && decide (a.2 = b.2)
      else isOriginal entered created b := by
  unfold isOriginal
  by_cases hkey : b.1 = a.1
  · rw [if_pos hkey, hkey, Directory.find?_insert_self]
    rfl
  · rw [if_neg hkey, Directory.find?_insert_of_ne _ hkey]

theorem addCreation_bind (entered : List String) (created : Directory String String)
    (a b : String × String) :
    (addCreation entered created a >>= fun next => addCreation entered next b) =
      (require (isOriginal entered created a && isOriginal entered (created.insert a.1 a.2) b)
          (.value "isolated created identity has no unique original entry") >>= fun _ =>
        .ok ((created.insert a.1 a.2).insert b.1 b.2)) := by
  unfold addCreation
  cases isOriginal entered created a <;> rfl

/-- Two creations may be added in either order, with the same outcome. -/
theorem addCreation_comm (entered : List String) (created : Directory String String)
    (a b : String × String) :
    (addCreation entered created a >>= fun next => addCreation entered next b) =
      (addCreation entered created b >>= fun next => addCreation entered next a) := by
  rw [addCreation_bind, addCreation_bind, isOriginal_insert, isOriginal_insert]
  by_cases hkey : b.1 = a.1
  · rw [if_pos hkey, if_pos hkey.symm]
    by_cases hid : a.2 = b.2
    · -- the same creation twice
      have hsame : a = b := Prod.ext hkey.symm hid
      rw [hsame]
    · rw [decide_eq_false hid, decide_eq_false (Ne.symm hid), Bool.and_false, Bool.and_false,
        Bool.and_false, Bool.and_false]
      rfl
  · rw [if_neg hkey, if_neg (Ne.symm hkey), Bool.and_comm]
    have hdirectory : (created.insert a.1 a.2).insert b.1 b.2 =
        (created.insert b.1 b.2).insert a.1 a.2 := by
      refine Directory.ext_find? fun key => ?_
      by_cases ha : key = a.1
      · subst ha
        rw [Directory.find?_insert_of_ne _ (Ne.symm hkey), Directory.find?_insert_self,
          Directory.find?_insert_self]
      · by_cases hb : key = b.1
        · subst hb
          rw [Directory.find?_insert_self, Directory.find?_insert_of_ne _ ha,
            Directory.find?_insert_self]
        · rw [Directory.find?_insert_of_ne _ hb, Directory.find?_insert_of_ne _ ha,
            Directory.find?_insert_of_ne _ ha, Directory.find?_insert_of_ne _ hb]
    rw [hdirectory]

theorem enteredIntents_contains_perm (hperm : records.Perm records') (intentSha256 : String) :
    (enteredIntents records).contains intentSha256 =
      (enteredIntents records').contains intentSha256 := by
  rw [Bool.eq_iff_iff, List.contains_iff_mem, List.contains_iff_mem]
  exact (hperm.filterMap _).mem_iff

theorem creations_perm (hperm : records.Perm records') : creations records = creations records' := by
  have hadd : addCreation (enteredIntents records) = addCreation (enteredIntents records') := by
    funext created creation
    unfold addCreation isOriginal
    rw [enteredIntents_contains_perm hperm]
  unfold creations
  rw [hadd]
  exact foldlM_perm (addCreation_comm _) (hperm.filterMap _) _

theorem requirePrepared_perm (hperm : records.Perm records') (prepared : Option Preparation) :
    requirePrepared prepared records = requirePrepared prepared records' := by
  unfold requirePrepared
  rw [hperm.any_eq, hperm.any_eq]

theorem requireClosed_perm (hperm : records.Perm records') (created : Directory String String)
    (issued : Bool) (closed : Option Closure) :
    requireClosed h m (enteredIntents records) created issued closed =
      requireClosed h m (enteredIntents records') created issued closed := by
  have hrole : requireClosedRole (enteredIntents records) created issued =
      requireClosedRole (enteredIntents records') created issued := by
    funext intentSha256 outcome
    unfold requireClosedRole
    rw [enteredIntents_contains_perm hperm]
  unfold requireClosed
  rw [hrole]

theorem requireReadbacks_perm (hperm : records.Perm records') (closed : Option Closure) :
    requireReadbacks h closed records = requireReadbacks h closed records' := by
  unfold requireReadbacks
  rw [(hperm.filterMap _).all_eq]

/-- The check reads the records as a set with repetitions: their order does not matter. -/
theorem requireBound_perm (hperm : records.Perm records') :
    requireBound h m records = requireBound h m records' := by
  unfold requireBound
  simp only [single_perm _ hperm, requirePrepared_perm hperm, creations_perm hperm,
    requireClosed_perm hperm, requireReadbacks_perm hperm]

/-- An accepted journal is accepted in every order. -/
theorem collect_perm (hperm : records.Perm records')
    (hcollect : collect h m records = .ok records) : collect h m records' = .ok records' := by
  unfold collect at hcollect ⊢
  cases hempty : records'.isEmpty with
  | true => rw [List.isEmpty_iff.1 hempty]; rfl
  | false =>
      have hfull : records.isEmpty = false := by
        rw [← hempty]
        cases records <;> cases records' <;> first | rfl | exact absurd hperm.length_eq (by simp)
      rw [hfull] at hcollect
      obtain ⟨_, hbound, _⟩ := bind_eq_ok.1 hcollect
      rw [requireBound_perm hperm] at hbound
      exact bind_eq_ok.2 ⟨_, hbound, rfl⟩

/-- `collect` returns the records it was given. -/
theorem collect_eq_ok {result : List Record} (hcollect : collect h m records = .ok result) :
    result = records := by
  unfold collect at hcollect
  cases hempty : records.isEmpty with
  | true =>
      rw [hempty] at hcollect
      rw [List.isEmpty_iff.1 hempty]
      exact (Except.ok.inj hcollect).symm
  | false =>
      rw [hempty] at hcollect
      obtain ⟨_, _, hresult⟩ := bind_eq_ok.1 hcollect
      exact (Except.ok.inj hresult).symm

end StaticHostAgent.Isolation
