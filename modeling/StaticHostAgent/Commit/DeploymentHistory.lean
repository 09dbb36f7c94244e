import Mathlib.Data.List.Dedup
import Mathlib.Data.List.Perm.Subperm
import StaticHostAgent.Commit.Deployment

/-!
# The history of a deployment commit

A transition keeps the selected deployment and at most two before it (`retainedIds`). `HistoryPlan`
is what the agreed documents say about the source history and the selected deployment, and
`Replayable` tells the histories that an interrupted run may have left from all others.
-/

set_option autoImplicit false

namespace StaticHostAgent.Commit

open Library Contracts Host Audit State

/-- Sorting and deduplicating changes nothing in a sorted list. -/
theorem sortedSet_eq {ids : List Uuid7} (h : ids.Pairwise (· < ·)) : sortedSet ids = ids := by
  unfold sortedSet
  rw [List.Nodup.dedup (h.imp ne_of_lt)]
  exact List.Pairwise.insertionSort_eq (h.imp le_of_lt)

/-- No element of a sorted list is above its last one. -/
theorem le_of_getLast? {ids : List Uuid7} (h : ids.Pairwise (· < ·)) {last : Uuid7}
    (hlast : ids.getLast? = some last) : ∀ d ∈ ids, d ≤ last := by
  obtain ⟨before, rfl⟩ := List.getLast?_eq_some_iff.1 hlast
  intro d hd
  rcases List.mem_append.1 hd with hd | hd
  · exact le_of_lt ((List.pairwise_append.1 h).2.2 d hd last List.mem_cons_self)
  · exact le_of_eq (List.mem_singleton.1 hd)

/-- The greatest element of a sorted list is its last one. -/
theorem getLast?_of_greatest {ids : List Uuid7} (h : ids.Pairwise (· < ·)) {d : Uuid7}
    (hd : d ∈ ids) (hgreatest : ∀ x ∈ ids, x ≤ d) : ids.getLast? = some d := by
  cases hlast : ids.getLast? with
  | none =>
      rw [List.getLast?_eq_none_iff.1 hlast] at hd
      cases hd
  | some last =>
      have hmem : last ∈ ids := List.mem_of_getLast? hlast
      exact congrArg some (le_antisymm (hgreatest last hmem) (le_of_getLast? h hlast d hd))

/-- The deployments retained in the end, if the selected one is in the transition history. -/
def retainedIds (documents : DeploymentDocuments) : List Uuid7 :=
  match terminalHistory documents with
  | .ok retained => retained
  | .error _ => []

/-- The selected deployment is the newest or one of the source history, and it was not selected
before. -/
structure HistoryPlan (documents : DeploymentDocuments) : Prop where
  sorted : documents.history.Pairwise (· < ·)
  bounded : documents.history.length ≤ maximumRetainedDeployments
  newest : documents.createsDeployment = true →
    ∀ d ∈ documents.history, d < documents.deployment.id
  present : documents.createsDeployment = false → documents.deployment.id ∈ documents.history
  tenant : documents.deployment.tenantId = documents.tenantId
  reselects : selectedDeploymentId documents.sourceManifest ≠ some documents.deployment.id
  changes : documents.sourceObservedState ≠ documents.observedState

section History

variable {documents : DeploymentDocuments} {ids : List Uuid7}

theorem historyPlan_of_agreement {e : Encoding} {job : AuthorizationJob} {target : LifecycleState}
    (h : DeploymentAgreement e job documents target) : HistoryPlan documents := by
  have hreselects : selectedDeploymentId documents.sourceManifest ≠
      some documents.deployment.id := by
    intro hselected
    rcases h.binding with hdeploy | hrollback
    · -- a new deployment is not in the history, the selected one is
      by_cases hundeployed : documents.sourceManifest.spec.desiredState = .undeployed
      · obtain ⟨-, hnone, -⟩ := h.history.undeployed hundeployed
        rw [hnone] at hselected
        cases hselected
      · obtain ⟨-, hretained, -⟩ := h.history.deployed hundeployed
        rw [hselected, Option.any_some, decide_eq_true_eq] at hretained
        exact hdeploy.fresh hretained
    · exact hrollback.other hselected.symm
  refine ⟨h.history.sorted, h.history.bounded, fun hcreates d hd => ?_, fun hkeeps => ?_,
    h.deploymentTenant, hreselects, fun hsame => ?_⟩
  · rcases h.binding with hdeploy | hrollback
    · have hnewest := hdeploy.newest
      cases hlast : documents.history.getLast? with
      | none =>
          rw [List.getLast?_eq_none_iff.1 hlast] at hd
          cases hd
      | some last =>
          rw [hlast, Option.all_some, decide_eq_true_eq] at hnewest
          exact lt_of_le_of_lt (le_of_getLast? h.history.sorted hlast d hd) hnewest
    · rw [hrollback.creates] at hcreates
      cases hcreates
  · rcases h.binding with hdeploy | hrollback
    · rw [hdeploy.creates] at hkeeps
      cases hkeeps
    · exact hrollback.retained
  · -- the observed states differ in their active deployment
    have hactive := h.sourceActive
    rw [hsame, h.active] at hactive
    exact hreselects hactive.symm

theorem HistoryPlan.transition_eq (h : HistoryPlan documents) : transitionHistory documents =
    if documents.createsDeployment then documents.history ++ [documents.deployment.id]
    else documents.history := by
  unfold transitionHistory
  split
  · rename_i hcreates
    refine sortedSet_eq (List.pairwise_append.2 ⟨h.sorted, List.pairwise_singleton _ _, ?_⟩)
    intro d hd x hx
    rw [List.mem_singleton.1 hx]
    exact h.newest hcreates d hd
  · exact sortedSet_eq h.sorted

theorem HistoryPlan.mem_transition (h : HistoryPlan documents) {d : Uuid7} :
    d ∈ transitionHistory documents ↔
      d ∈ documents.history ∨ documents.createsDeployment = true ∧ d = documents.deployment.id := by
  rw [h.transition_eq]
  split <;> rename_i hcreates <;> simp [hcreates]

theorem HistoryPlan.transition_sorted (h : HistoryPlan documents) :
    (transitionHistory documents).Pairwise (· < ·) := by
  rw [h.transition_eq]
  split
  · rename_i hcreates
    refine List.pairwise_append.2 ⟨h.sorted, List.pairwise_singleton _ _, fun d hd x hx => ?_⟩
    rw [List.mem_singleton.1 hx]
    exact h.newest hcreates d hd
  · exact h.sorted

theorem HistoryPlan.target_mem (h : HistoryPlan documents) :
    documents.deployment.id ∈ transitionHistory documents := by
  rw [h.mem_transition]
  cases hcreates : documents.createsDeployment with
  | true => exact Or.inr ⟨rfl, rfl⟩
  | false => exact Or.inl (h.present hcreates)

theorem HistoryPlan.target_last (h : HistoryPlan documents)
    (hcreates : documents.createsDeployment = true) :
    (transitionHistory documents).getLast? = some documents.deployment.id := by
  rw [h.transition_eq, if_pos hcreates, List.getLast?_concat]

/-- The retained deployments are the selected one and the at most two right before it. -/
theorem HistoryPlan.retained_split (h : HistoryPlan documents) : ∃ before after,
    transitionHistory documents = before ++ documents.deployment.id :: after ∧
      terminalHistory documents = .ok (before.drop (before.length - 2) ++
        [documents.deployment.id]) := by
  unfold terminalHistory
  cases hindex : (transitionHistory documents).idxOf? documents.deployment.id with
  | none => exact absurd h.target_mem (List.idxOf?_eq_none_iff.1 hindex)
  | some target =>
      obtain ⟨hbound, htarget, -⟩ := List.idxOf?_eq_some_iff.1 hindex
      have hget : (transitionHistory documents)[target] = documents.deployment.id := htarget
      have htake : (transitionHistory documents).take (target + 1) =
          (transitionHistory documents).take target ++ [documents.deployment.id] := by
        rw [List.take_succ_eq_append_getElem hbound, hget]
      have hlength : ((transitionHistory documents).take target).length = target :=
        List.length_take_of_le (le_of_lt hbound)
      refine ⟨(transitionHistory documents).take target,
        (transitionHistory documents).drop (target + 1), ?_, ?_⟩
      · calc transitionHistory documents
            = (transitionHistory documents).take (target + 1) ++
                (transitionHistory documents).drop (target + 1) :=
              (List.take_append_drop _ _).symm
          _ = _ := by rw [htake, List.append_assoc, List.singleton_append]
      · have hdrop : target - 2 ≤ ((transitionHistory documents).take target).length := by omega
        simp only [hindex, hlength]
        rw [← List.drop_append_of_le_length hdrop, ← htake]
        rfl

theorem HistoryPlan.terminal_eq (h : HistoryPlan documents) :
    terminalHistory documents = .ok (retainedIds documents) := by
  obtain ⟨before, after, -, hterminal⟩ := h.retained_split
  unfold retainedIds
  rw [hterminal]

theorem HistoryPlan.retained_eq (h : HistoryPlan documents) : ∃ before after,
    transitionHistory documents = before ++ documents.deployment.id :: after ∧
      retainedIds documents = before.drop (before.length - 2) ++ [documents.deployment.id] := by
  obtain ⟨before, after, hsplit, hterminal⟩ := h.retained_split
  rw [h.terminal_eq] at hterminal
  exact ⟨before, after, hsplit, Except.ok.inj hterminal⟩

theorem HistoryPlan.target_retained (h : HistoryPlan documents) :
    documents.deployment.id ∈ retainedIds documents := by
  obtain ⟨before, after, -, hretained⟩ := h.retained_eq
  rw [hretained]
  exact List.mem_append_right _ List.mem_cons_self

theorem HistoryPlan.retained_sublist (h : HistoryPlan documents) :
    (retainedIds documents).Sublist (transitionHistory documents) := by
  obtain ⟨before, after, hsplit, hretained⟩ := h.retained_eq
  rw [hretained, hsplit]
  exact (List.drop_sublist _ _).append (List.singleton_sublist.2 List.mem_cons_self)

theorem HistoryPlan.retained_sorted (h : HistoryPlan documents) :
    (retainedIds documents).Pairwise (· < ·) :=
  h.transition_sorted.sublist h.retained_sublist

/-- At most three deployments are retained. -/
theorem HistoryPlan.retained_length (h : HistoryPlan documents) :
    (retainedIds documents).length ≤ maximumRetainedDeployments := by
  obtain ⟨before, after, -, hretained⟩ := h.retained_eq
  rw [hretained, List.length_append, List.length_drop]
  unfold maximumRetainedDeployments
  simp only [List.length_singleton]
  omega

/-! ## Histories on the way -/

/-- A history on the way from the source's to the retained one: what is retained is there, apart
from a new deployment that is still to be recorded, and then nothing was removed yet. -/
structure Replayable (documents : DeploymentDocuments) (ids : List Uuid7) : Prop where
  within : ∀ d ∈ ids, d ∈ transitionHistory documents
  kept : ∀ d ∈ retainedIds documents,
    (documents.createsDeployment = true → d ≠ documents.deployment.id) → d ∈ ids
  untouched : documents.createsDeployment = true → documents.deployment.id ∉ ids →
    ids = documents.history

theorem historyIsReplayable_iff (h : HistoryPlan documents) :
    historyIsReplayable ids documents.history (transitionHistory documents)
        (retainedIds documents) documents.createsDeployment = true ↔
      Replayable documents ids := by
  unfold historyIsReplayable
  simp only [Bool.or_eq_true, Bool.and_eq_true, decide_eq_true_eq, List.all_eq_true,
    Bool.not_eq_true']
  constructor
  · rintro (rfl | ⟨⟨hlast, hkept⟩, hwithin⟩)
    · refine ⟨fun d hd => h.mem_transition.2 (Or.inl hd), fun d hd hother => ?_, fun _ _ => rfl⟩
      rcases h.mem_transition.1 (h.retained_sublist.subset hd) with hmem | ⟨hcreates, hnew⟩
      · exact hmem
      · exact absurd hnew (hother hcreates)
    · refine ⟨hwithin, fun d hd _ => hkept d hd, fun hcreates habsent => ?_⟩
      rcases hlast with hkeeps | hlast
      · rw [hkeeps] at hcreates
        cases hcreates
      · rw [h.target_last hcreates, Option.all_some, decide_eq_true_eq] at hlast
        exact absurd hlast habsent
  · intro hr
    cases hcreates : documents.createsDeployment with
    | false =>
        refine Or.inr ⟨⟨Or.inl rfl, fun d hd => hr.kept d hd fun hyes => ?_⟩, hr.within⟩
        rw [hcreates] at hyes
        cases hyes
    | true =>
        by_cases hthere : documents.deployment.id ∈ ids
        · refine Or.inr ⟨⟨Or.inr ?_, fun d hd => ?_⟩, hr.within⟩
          · rw [h.target_last hcreates, Option.all_some]
            exact decide_eq_true hthere
          · by_cases hd' : d = documents.deployment.id
            · rw [hd']
              exact hthere
            · exact hr.kept d hd fun _ => hd'
        · exact Or.inl (hr.untouched hcreates hthere)

/-- A history on the way is within the bound of a transition: a fourth deployment is the new one. -/
theorem Replayable.bounded (hr : Replayable documents ids) (h : HistoryPlan documents)
    (hsorted : ids.Pairwise (· < ·)) :
    ids.length ≤ 4 ∧ (ids.length ≤ 3 ∨ ids.getLast? = some documents.deployment.id) := by
  have hnodup : ids.Nodup := hsorted.imp ne_of_lt
  have hlength : ids.length ≤ (transitionHistory documents).length :=
    (List.Nodup.subperm hnodup hr.within).length_le
  have hbounded : documents.history.length ≤ 3 := h.bounded
  rw [h.transition_eq] at hlength
  cases hcreates : documents.createsDeployment with
  | false =>
      rw [if_neg (by simp [hcreates])] at hlength
      exact ⟨by omega, Or.inl (by omega)⟩
  | true =>
      rw [if_pos hcreates, List.length_append, List.length_singleton] at hlength
      refine ⟨by omega, ?_⟩
      by_cases hthere : documents.deployment.id ∈ ids
      · right
        refine getLast?_of_greatest hsorted hthere fun d hd => ?_
        rcases h.mem_transition.1 (hr.within d hd) with hold | ⟨-, hnew⟩
        · exact le_of_lt (h.newest hcreates d hold)
        · exact le_of_eq hnew
      · left
        rw [hr.untouched hcreates hthere]
        exact hbounded

end History

end StaticHostAgent.Commit
