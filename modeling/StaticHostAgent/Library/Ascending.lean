import StaticHostAgent.Library.Handlers

/-!
# Programs whose states only grow

A program is `Ascending` for a preorder if each state it makes durable is above all earlier ones of
the same run, and so is the state it ends in. The rules follow the parts of a program.
-/

set_option autoImplicit false

namespace StaticHostAgent.Library

variable {σ ε α β : Type}

namespace Durable

/-- The states of every run, its start first and its end last, are in ascending order. -/
def Ascending (R : σ → σ → Prop) (p : Durable σ ε α) : Prop :=
  ∀ s, (s :: (p s).trace).Pairwise R ∧ ∀ t ∈ s :: (p s).trace, R t (p s).state

namespace Ascending

variable {R : σ → σ → Prop}

section Reflexive

variable [Std.Refl R]

/-- A run that changes nothing. -/
theorem of_quiet {p : Durable σ ε α} (h : ∀ s, (p s).trace = [] ∧ (p s).state = s) :
    Ascending R p := by
  intro s
  obtain ⟨htrace, hstate⟩ := h s
  rw [htrace, hstate]
  refine ⟨List.pairwise_singleton R s, fun t ht => ?_⟩
  rw [List.mem_singleton.1 ht]
  exact refl_of R s

theorem pure (a : α) : Ascending R (Pure.pure a : Durable σ ε α) := of_quiet fun _ => ⟨rfl, rfl⟩

theorem fail (e : ε) : Ascending R (Durable.fail e : Durable σ ε α) := of_quiet fun _ => ⟨rfl, rfl⟩

theorem query (f : σ → Except ε α) : Ascending R (Durable.query f) := of_quiet fun _ => ⟨rfl, rfl⟩

theorem effect {f : σ → σ} (h : ∀ s, R s (f s)) :
    Ascending R (Durable.effect f : Durable σ ε Unit) := by
  intro s
  refine ⟨List.pairwise_pair.2 (h s), fun t ht => ?_⟩
  rcases List.mem_cons.1 ht with rfl | ht
  · exact h t
  · rw [List.mem_singleton.1 ht]
    exact refl_of R (f s)

end Reflexive

section Transitive

variable [IsTrans σ R]

/-- Two runs of which the second starts where the first ends. -/
theorem append {s u v : σ} {trace rest : List σ} (hfirst : (s :: trace).Pairwise R)
    (hlast : ∀ t ∈ s :: trace, R t u) (hrest : (u :: rest).Pairwise R)
    (hend : ∀ t ∈ u :: rest, R t v) :
    (s :: (trace ++ rest)).Pairwise R ∧ ∀ t ∈ s :: (trace ++ rest), R t v := by
  obtain ⟨hu, hrestSorted⟩ := List.pairwise_cons.1 hrest
  have hacross : ∀ t ∈ s :: trace, ∀ t' ∈ rest, R t t' :=
    fun t ht t' ht' => trans_of R (hlast t ht) (hu t' ht')
  refine ⟨?_, fun t ht => ?_⟩
  · rw [← List.cons_append]
    exact List.pairwise_append.2 ⟨hfirst, hrestSorted, hacross⟩
  · rw [← List.cons_append] at ht
    rcases List.mem_append.1 ht with ht | ht
    · exact trans_of R (hlast t ht) (hend u List.mem_cons_self)
    · exact hend t (List.mem_cons_of_mem u ht)

theorem bind {p : Durable σ ε α} {f : α → Durable σ ε β} (hp : Ascending R p)
    (hf : ∀ a, Ascending R (f a)) : Ascending R (p >>= f) := by
  intro s
  cases hresult : (p s).result with
  | error e =>
      rw [bind_error (show p s = ⟨(p s).trace, (p s).state, .error e⟩ by rw [← hresult])]
      exact hp s
  | ok a =>
      rw [bind_ok (show p s = ⟨(p s).trace, (p s).state, .ok a⟩ by rw [← hresult])]
      exact append (hp s).1 (hp s).2 (hf a _).1 (hf a _).2

theorem rescue {p : Durable σ ε α} {handler : ε → Durable σ ε α} (hp : Ascending R p)
    (hhandler : ∀ e, Ascending R (handler e)) : Ascending R (Durable.rescue p handler) := by
  intro s
  unfold Durable.rescue
  cases (p s).result with
  | ok a => exact hp s
  | error e => exact append (hp s).1 (hp s).2 (hhandler e _).1 (hhandler e _).2

end Transitive

theorem when [Std.Refl R] {condition : Bool} {p : Durable σ ε Unit} (hp : Ascending R p) :
    Ascending R (Durable.when condition p) := by
  unfold Durable.when
  cases condition with
  | true => exact hp
  | false => exact pure ()

theorem foldlM [Std.Refl R] [IsTrans σ R] {ι : Type} {f : β → ι → Durable σ ε β}
    (hf : ∀ b x, Ascending R (f b x)) (xs : List ι) (b : β) : Ascending R (xs.foldlM f b) := by
  induction xs generalizing b with
  | nil => exact pure b
  | cons x xs ih => exact bind (hf b x) fun b' => ih b'

end Ascending

end Durable

end StaticHostAgent.Library
