import StaticHostAgent.Library.Handlers

/-!
# Rules for single runs of durable programs

`Triple s p Visited Post Failed` says what one run of `p` from `s` may do: every state it makes
durable satisfies `Visited`, a success ends with a value and a state that satisfy `Post`, and an
error ends in a state that satisfies `Failed`. There is one rule for each way to build a program,
with `Durable.onError` for the clean-up that a raised error runs.
-/

set_option autoImplicit false

namespace StaticHostAgent.Library

variable {σ ε α β : Type}

namespace Durable

/-- Run the handler when `p` fails, and fail with the error of `p` unless the handler fails. -/
def onError (p : Durable σ ε α) (handler : Durable σ ε Unit) : Durable σ ε α := fun s =>
  match (p s).result with
  | .ok _ => p s
  | .error e =>
      let rest := handler (p s).state
      ⟨(p s).trace ++ rest.trace, rest.state, rest.result >>= fun _ => .error e⟩

/-- What one run may make durable, return, and leave behind when it fails. -/
structure Triple (s : σ) (p : Durable σ ε α) (Visited : σ → Prop) (Post : α → σ → Prop)
    (Failed : σ → Prop) : Prop where
  visited : ∀ t ∈ (p s).trace, Visited t
  post : ∀ a, (p s).result = .ok a → Post a (p s).state
  failed : ∀ e, (p s).result = .error e → Failed (p s).state

/-- The handler goes on with the error of the program. -/
theorem onError_eq (p : Durable σ ε α) (handler : Durable σ ε Unit) :
    onError p handler = rescue p fun e => handler >>= fun _ => fail e := by
  funext s
  have hbound : ∀ e t, (handler >>= fun _ => (fail e : Durable σ ε α)) t =
      ⟨(handler t).trace, (handler t).state, (handler t).result >>= fun _ => .error e⟩ := by
    intro e t
    cases hrest : (handler t).result with
    | ok u =>
        rw [bind_ok (show handler t = ⟨_, _, .ok u⟩ by rw [← hrest])]
        simp only [fail, List.append_nil]
        rfl
    | error e' => exact bind_error (show handler t = ⟨_, _, .error e'⟩ by rw [← hrest])
  cases hresult : (p s).result with
  | ok a => simp only [onError, rescue, hresult]
  | error e => simp only [onError, rescue, hresult, hbound]

namespace Triple

variable {Visited : σ → Prop} {Failed : σ → Prop}

/-- A rule that does not look at the error. -/
theorem iff_spec {s : σ} {p : Durable σ ε α} {Post : α → σ → Prop} :
    Triple s p Visited Post Failed ↔ Spec s p Visited Post fun _ => Failed :=
  ⟨fun h => ⟨h.visited, h.post, h.failed⟩, fun h => ⟨h.visited, h.post, h.raised⟩⟩

theorem pure {s : σ} {a : α} {Post : α → σ → Prop} (h : Post a s) :
    Triple s (Pure.pure a : Durable σ ε α) Visited Post Failed := iff_spec.2 (Spec.pure h)

theorem query {s : σ} {f : σ → Except ε α} {Post : α → σ → Prop}
    (hok : ∀ a, f s = .ok a → Post a s) (herror : ∀ e, f s = .error e → Failed s) :
    Triple s (Durable.query f) Visited Post Failed := iff_spec.2 (Spec.query hok herror)

theorem effect {s : σ} {f : σ → σ} {Post : Unit → σ → Prop} (hvisited : Visited (f s))
    (hpost : Post () (f s)) :
    Triple s (Durable.effect f : Durable σ ε Unit) Visited Post Failed :=
  iff_spec.2 (Spec.effect hvisited hpost)

/-- The rule for a run that is known to fail. -/
theorem of_error {s t : σ} {p : Durable σ ε α} {Post : α → σ → Prop} {trace : List σ} {e : ε}
    (h : p s = ⟨trace, t, .error e⟩) :
    Triple s p Visited Post Failed ↔ (∀ u ∈ trace, Visited u) ∧ Failed t := by
  constructor
  · intro hp
    have hvisited := hp.visited
    have hfailed := hp.failed e
    rw [h] at hvisited hfailed
    exact ⟨hvisited, hfailed rfl⟩
  · rintro ⟨hvisited, hfailed⟩
    exact ⟨by rw [h]; exact hvisited, by rw [h]; exact fun _ ha => (nomatch ha),
      by rw [h]; exact fun _ _ => hfailed⟩

/-- The rule for a run that is known to succeed. -/
theorem of_ok {s t : σ} {p : Durable σ ε α} {Post : α → σ → Prop} {trace : List σ} {a : α}
    (h : p s = ⟨trace, t, .ok a⟩) :
    Triple s p Visited Post Failed ↔ (∀ u ∈ trace, Visited u) ∧ Post a t := by
  constructor
  · intro hp
    have hvisited := hp.visited
    have hpost := hp.post a
    rw [h] at hvisited hpost
    exact ⟨hvisited, hpost rfl⟩
  · rintro ⟨hvisited, hpost⟩
    refine ⟨by rw [h]; exact hvisited, ?_, by rw [h]; exact fun _ he => (nomatch he)⟩
    rw [h]
    rintro b hb
    cases hb
    exact hpost

theorem bind {s : σ} {p : Durable σ ε α} {f : α → Durable σ ε β} {M : α → σ → Prop}
    {Post : β → σ → Prop} (hp : Triple s p Visited M Failed)
    (hf : ∀ a t, M a t → Triple t (f a) Visited Post Failed) :
    Triple s (p >>= f) Visited Post Failed :=
  iff_spec.2 ((iff_spec.1 hp).bind fun a t ht => iff_spec.1 (hf a t ht))

theorem when {s : σ} {condition : Bool} {p : Durable σ ε Unit} {Post : Unit → σ → Prop}
    (hp : condition = true → Triple s p Visited Post Failed)
    (hskip : condition = false → Post () s) :
    Triple s (Durable.when condition p) Visited Post Failed :=
  iff_spec.2 (Spec.when (fun h => iff_spec.1 (hp h)) hskip)

/-- A loop; the invariant knows the elements done so far. -/
theorem forM {ι : Type} {f : ι → Durable σ ε Unit} {I : List ι → σ → Prop} {xs : List ι} {s : σ}
    (hs : I [] s)
    (h : ∀ pre x post, xs = pre ++ x :: post → ∀ t, I pre t →
      Triple t (f x) Visited (fun _ => I (pre ++ [x])) Failed) :
    Triple s (xs.forM f) Visited (fun _ => I xs) Failed := by
  have hloop : ∀ (post pre : List ι), xs = pre ++ post → ∀ t, I pre t →
      Triple t (post.forM f) Visited (fun _ => I xs) Failed := by
    intro post
    induction post with
    | nil =>
        intro pre hxs t ht
        refine pure ?_
        rwa [hxs, List.append_nil]
    | cons x post ih =>
        intro pre hxs t ht
        exact bind (h pre x post hxs t ht) fun _ t' ht' => ih (pre ++ [x]) (by simp [hxs]) t' ht'
  exact hloop xs [] rfl s hs

/-- The handler starts in whatever state the failed program left. -/
theorem onError {s : σ} {p : Durable σ ε α} {handler : Durable σ ε Unit} {Broken : σ → Prop}
    {Post : α → σ → Prop} (hp : Triple s p Visited Post Broken)
    (hhandler : ∀ t, Broken t → Triple t handler Visited (fun _ => Failed) Failed) :
    Triple s (Durable.onError p handler) Visited Post Failed := by
  rw [onError_eq]
  refine iff_spec.2 ((iff_spec.1 hp).rescue fun e t ht => ?_)
  exact (iff_spec.1 (hhandler t ht)).bind fun _ u hu => Spec.fail hu

/-- Every part of a triple may be weakened. -/
theorem weaken {s : σ} {p : Durable σ ε α} {Post Post' : α → σ → Prop} {Visited' : σ → Prop}
    {Failed' : σ → Prop} (h : Triple s p Visited Post Failed)
    (hvisited : ∀ t, Visited t → Visited' t) (hpost : ∀ a t, Post a t → Post' a t)
    (hfailed : ∀ t, Failed t → Failed' t) : Triple s p Visited' Post' Failed' :=
  ⟨fun t ht => hvisited t (h.visited t ht), fun a ha => hpost a _ (h.post a ha),
    fun e he => hfailed _ (h.failed e he)⟩

end Triple

end Durable

end StaticHostAgent.Library
