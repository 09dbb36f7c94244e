import Mathlib.Logic.Relation
import Mathlib.Algebra.GroupWithZero.Nat
import Mathlib.Order.Lattice

/-!
# Programs over durable state, crashes and resumption

A `Durable σ ε α` program reads a state and makes durable changes one at a time. Its `Run` records
every state it made durable, so that a crash is a choice of one recorded state. `Survives p s t`
holds when `t` is left behind by any number of crashed runs of `p` from `s`.

A resumable program settles a fixed list of idempotent steps: a step is pending or settled, and
applying it settles it. `Orderly` collects what the steps must keep and `Settles` says that the
program settles them; together they give `Settles.resume`: the program `Converges`.
-/

set_option autoImplicit false

namespace StaticHostAgent.Library

variable {σ ε α β : Type}

/-- What one run left behind: the states made durable after its start, oldest first, the state it
stopped in, and its outcome. -/
structure Run (σ ε α : Type) where
  trace : List σ
  state : σ
  result : Except ε α

/-- A program over the durable state `σ`. -/
def Durable (σ ε α : Type) : Type := σ → Run σ ε α

namespace Durable

/-- Continue with `f` after `x`; an error of `x` stops the program where it stands. -/
def andThen (x : Durable σ ε α) (f : α → Durable σ ε β) : Durable σ ε β := fun s =>
  match (x s).result with
  | .error e => ⟨(x s).trace, (x s).state, .error e⟩
  | .ok a =>
      let rest := f a (x s).state
      ⟨(x s).trace ++ rest.trace, rest.state, rest.result⟩

instance : Monad (Durable σ ε) where
  pure a := fun s => ⟨[], s, .ok a⟩
  bind := andThen

/-- Stop with an error, changing nothing. -/
def fail (e : ε) : Durable σ ε α := fun s => ⟨[], s, .error e⟩

/-- Read the state without changing it; the reading may fail. -/
def query (f : σ → Except ε α) : Durable σ ε α := fun s => ⟨[], s, f s⟩

/-- Make one change durable. -/
def effect (f : σ → σ) : Durable σ ε Unit := fun s => ⟨[f s], f s, .ok ()⟩

theorem pure_run (a : α) (s : σ) : (pure a : Durable σ ε α) s = ⟨[], s, .ok a⟩ := rfl

theorem query_run (f : σ → Except ε α) (s : σ) : query f s = ⟨[], s, f s⟩ := rfl

theorem effect_run (f : σ → σ) (s : σ) :
    (effect f : Durable σ ε Unit) s = ⟨[f s], f s, .ok ()⟩ := rfl

theorem bind_ok {x : Durable σ ε α} {f : α → Durable σ ε β} {s t : σ} {tr : List σ} {a : α}
    (hx : x s = ⟨tr, t, .ok a⟩) :
    (x >>= f) s = ⟨tr ++ (f a t).trace, (f a t).state, (f a t).result⟩ := by
  show andThen x f s = _
  simp only [andThen, hx]

theorem bind_error {x : Durable σ ε α} {f : α → Durable σ ε β} {s t : σ} {tr : List σ} {e : ε}
    (hx : x s = ⟨tr, t, .error e⟩) : (x >>= f) s = ⟨tr, t, .error e⟩ := by
  show andThen x f s = _
  simp only [andThen, hx]

/-- A successful sequence succeeds in both halves. -/
theorem bind_result_ok {x : Durable σ ε α} {f : α → Durable σ ε β} {s : σ} {b : β}
    (h : ((x >>= f) s).result = .ok b) :
    ∃ a, (x s).result = .ok a ∧ (f a (x s).state).result = .ok b := by
  change (andThen x f s).result = _ at h
  unfold andThen at h
  cases hx : (x s).result with
  | error e => simp [hx] at h
  | ok a => exact ⟨a, rfl, by simpa [hx] using h⟩

/-- A successful reading continues in the same state. -/
theorem query_bind_ok {f : σ → Except ε α} {g : α → Durable σ ε β} {s : σ} {a : α}
    (hf : f s = .ok a) : (query f >>= g) s = g a s := by
  rw [bind_ok (show query f s = ⟨[], s, .ok a⟩ by rw [query_run, hf])]
  rfl

theorem query_bind_result_ok {f : σ → Except ε α} {g : α → Durable σ ε β} {s : σ} {b : β}
    (h : ((query f >>= g) s).result = .ok b) : ∃ a, f s = .ok a ∧ (g a s).result = .ok b :=
  bind_result_ok h

theorem query_bind_error {f : σ → Except ε α} {g : α → Durable σ ε β} {s : σ} {e : ε}
    (hf : f s = .error e) : (query f >>= g) s = ⟨[], s, .error e⟩ :=
  bind_error (by rw [query_run, hf])

theorem effect_bind {f : σ → σ} {g : Unit → Durable σ ε β} {s : σ} :
    (effect f >>= g) s =
      ⟨f s :: (g () (f s)).trace, (g () (f s)).state, (g () (f s)).result⟩ :=
  bind_ok (effect_run f s)

theorem andThen_pure (x : Durable σ ε α) : andThen x (fun a => pure a) = x := by
  funext s
  unfold andThen
  cases hx : (x s).result with
  | error e => simp [← hx]
  | ok a => simp [pure_run, ← hx]

theorem andThen_assoc {γ : Type} (x : Durable σ ε α) (f : α → Durable σ ε β)
    (g : β → Durable σ ε γ) :
    andThen (andThen x f) g = andThen x fun a => andThen (f a) g := by
  funext s
  unfold andThen
  cases hx : (x s).result with
  | error e => simp
  | ok a =>
      cases hf : (f a (x s).state).result with
      | error e => simp [hf]
      | ok b => simp [hf, List.append_assoc]

instance : LawfulMonad (Durable σ ε) :=
  LawfulMonad.mk' (Durable σ ε) andThen_pure (fun a _ => funext fun s => bind_ok (pure_run a s))
    andThen_assoc

/-- Run a program on a part of the state. -/
def zoom {τ : Type} (get : σ → τ) (set : τ → σ → σ) (p : σ → Durable τ ε α) : Durable σ ε α :=
  fun s =>
    let run := p s (get s)
    ⟨run.trace.map fun t => set t s, set run.state s, run.result⟩

/-- A program that depends on a test. -/
def when (condition : Bool) (p : Durable σ ε Unit) : Durable σ ε Unit :=
  if condition then p else pure ()

/-- One crashed run: the state found by the next run is the start or some state made durable. -/
def Crashed (p : Durable σ ε α) (s t : σ) : Prop := t = s ∨ t ∈ (p s).trace

/-- Any number of crashed runs. -/
abbrev Survives (p : Durable σ ε α) : σ → σ → Prop := Relation.ReflTransGen (Crashed p)

/-- After any number of crashes the next run succeeds, with a value that satisfies `Post`, and ends
in the state of the uninterrupted run. -/
def Converges (p : Durable σ ε α) (Post : α → Prop) (s : σ) : Prop :=
  ∀ t, Survives p s t → ∃ a, Post a ∧ (p t).result = .ok a ∧ (p t).state = (p s).state

/-- An invariant of every recorded state holds of every surviving state. -/
theorem Survives.invariant {p : Durable σ ε α} {I : σ → Prop}
    (step : ∀ s, I s → ∀ t ∈ (p s).trace, I t) {s t : σ} (h : Survives p s t) (hs : I s) :
    I t := by
  induction h with
  | refl => exact hs
  | tail _ hcrash ih =>
      rcases hcrash with rfl | hmem
      · exact ih
      · exact step _ ih _ hmem

/-- A program that made nothing durable was not crashed. -/
theorem Survives.eq_start {p : Durable σ ε α} {s t : σ} (hp : (p s).trace = [])
    (h : Survives p s t) : t = s := by
  refine h.invariant (I := fun t => t = s) ?_ rfl
  rintro u rfl t ht
  rw [hp] at ht
  cases ht

end Durable

/-! ## Idempotent steps -/

/-- A change together with the test whether it is still to be made. -/
structure Step (σ : Type) where
  pending : σ → Bool
  apply : σ → σ

namespace Step

/-- Make the change if it is pending. -/
def settle (e : Step σ) (s : σ) : σ := if e.pending s then e.apply s else s

/-- The states made durable by `settle`. -/
def trace (e : Step σ) (s : σ) : List σ := if e.pending s then [e.apply s] else []

theorem settle_of_pending {e : Step σ} {s : σ} (h : e.pending s = true) : e.settle s = e.apply s :=
  if_pos h

theorem settle_of_settled {e : Step σ} {s : σ} (h : e.pending s = false) : e.settle s = s := by
  simp [settle, h]

theorem trace_of_pending {e : Step σ} {s : σ} (h : e.pending s = true) : e.trace s = [e.apply s] :=
  if_pos h

theorem trace_of_settled {e : Step σ} {s : σ} (h : e.pending s = false) : e.trace s = [] := by
  simp [trace, h]

end Step

/-- Settle every step in order. -/
def settleAll : List (Step σ) → σ → σ
  | [], s => s
  | e :: es, s => settleAll es (e.settle s)

/-- The states made durable while every step is settled in order. -/
def settleTrace : List (Step σ) → σ → List σ
  | [], _ => []
  | e :: es, s => e.trace s ++ settleTrace es (e.settle s)

/-- No step of the list is pending. -/
def Settled (es : List (Step σ)) (s : σ) : Prop := ∀ e ∈ es, e.pending s = false

theorem settled_nil (s : σ) : Settled ([] : List (Step σ)) s := by
  intro e he
  cases he

theorem settled_append {es fs : List (Step σ)} {s : σ} :
    Settled (es ++ fs) s ↔ Settled es s ∧ Settled fs s := by
  simp only [Settled, List.mem_append]
  exact ⟨fun h => ⟨fun e he => h e (Or.inl he), fun e he => h e (Or.inr he)⟩,
    fun h e he => he.elim (h.1 e) (h.2 e)⟩

theorem settleAll_append (es fs : List (Step σ)) (s : σ) :
    settleAll (es ++ fs) s = settleAll fs (settleAll es s) := by
  induction es generalizing s with
  | nil => rfl
  | cons e es ih => exact ih (e.settle s)

theorem settleTrace_append (es fs : List (Step σ)) (s : σ) :
    settleTrace (es ++ fs) s = settleTrace es s ++ settleTrace fs (settleAll es s) := by
  induction es generalizing s with
  | nil => rfl
  | cons e es ih =>
      show e.trace s ++ settleTrace (es ++ fs) (e.settle s) = _
      rw [ih, ← List.append_assoc]
      rfl

theorem settleAll_of_settled {es : List (Step σ)} {s : σ} (h : Settled es s) :
    settleAll es s = s := by
  induction es with
  | nil => rfl
  | cons e es ih =>
      show settleAll es (e.settle s) = s
      rw [Step.settle_of_settled (h e List.mem_cons_self)]
      exact ih fun f hf => h f (List.mem_cons_of_mem e hf)

theorem settleTrace_of_settled {es : List (Step σ)} {s : σ} (h : Settled es s) :
    settleTrace es s = [] := by
  induction es with
  | nil => rfl
  | cons e es ih =>
      have he := h e List.mem_cons_self
      show e.trace s ++ settleTrace es (e.settle s) = []
      rw [Step.trace_of_settled he, Step.settle_of_settled he]
      exact ih fun f hf => h f (List.mem_cons_of_mem e hf)

/-- Whatever settling the list keeps step by step, it keeps as a whole. -/
theorem settleAll_invariant {es : List (Step σ)} {P : σ → Prop}
    (h : ∀ e ∈ es, ∀ s, P s → P (e.apply s)) {s : σ} (hs : P s) : P (settleAll es s) := by
  induction es generalizing s with
  | nil => exact hs
  | cons e es ih =>
      refine ih (fun f hf => h f (List.mem_cons_of_mem e hf)) ?_
      cases hp : e.pending s with
      | true => rw [Step.settle_of_pending hp]; exact h e List.mem_cons_self s hs
      | false => rw [Step.settle_of_settled hp]; exact hs

/-- Applying a pending step, when the steps before it are settled, keeps the invariant, settles the
step, and leaves the steps before it settled. -/
def Orderly (es : List (Step σ)) (Inv : σ → Prop) : Prop :=
  ∀ pre e post, es = pre ++ e :: post → ∀ s, Inv s → Settled pre s → e.pending s = true →
    Inv (e.apply s) ∧ Settled (pre ++ [e]) (e.apply s)

namespace Orderly

variable {es : List (Step σ)} {Inv : σ → Prop}

/-- Every state of a settling run satisfies the invariant and settles to the same end. -/
theorem resume_suffix (ho : Orderly es Inv) :
    ∀ (post pre : List (Step σ)), es = pre ++ post → ∀ s, Inv s → Settled pre s →
      (∀ t ∈ settleTrace post s, Inv t ∧ settleAll es t = settleAll post s) ∧
        Inv (settleAll post s) ∧ Settled es (settleAll post s) := by
  intro post
  induction post with
  | nil =>
      intro pre hes s hs hpre
      refine ⟨?_, hs, ?_⟩
      · intro t ht
        cases ht
      · rw [hes, List.append_nil]
        exact hpre
  | cons e post ih =>
      intro pre hes s hs hpre
      have hsplit : es = (pre ++ [e]) ++ post := by rw [hes, List.append_assoc]; rfl
      cases hp : e.pending s with
      | false =>
          have hsettled : Settled (pre ++ [e]) s := by
            refine settled_append.2 ⟨hpre, fun f hf => ?_⟩
            rw [List.mem_singleton.1 hf]
            exact hp
          have hrest := ih (pre ++ [e]) hsplit s hs hsettled
          simp only [settleAll, settleTrace]
          rw [Step.trace_of_settled hp, Step.settle_of_settled hp]
          exact hrest
      | true =>
          obtain ⟨hinv, hsettled⟩ := ho pre e post hes s hs hpre hp
          have hrest := ih (pre ++ [e]) hsplit (e.apply s) hinv hsettled
          simp only [settleAll, settleTrace]
          rw [Step.trace_of_pending hp, Step.settle_of_pending hp]
          refine ⟨fun t ht => ?_, hrest.2⟩
          rcases List.mem_append.1 ht with ht | ht
          · rw [List.mem_singleton.1 ht]
            refine ⟨hinv, ?_⟩
            rw [hsplit, settleAll_append, settleAll_of_settled hsettled]
          · exact hrest.1 t ht

/-- Every state made durable by settling from an invariant state settles to the same end. -/
theorem resume (ho : Orderly es Inv) {s t : σ} (hs : Inv s) (ht : t ∈ settleTrace es s) :
    Inv t ∧ settleAll es t = settleAll es s :=
  (ho.resume_suffix es [] rfl s hs (settled_nil s)).1 t ht

/-- Settling a part of the list, with the part before it settled, keeps the invariant. -/
theorem settle_prefix (ho : Orderly es Inv) :
    ∀ (mid pre post : List (Step σ)), es = pre ++ mid ++ post → ∀ s, Inv s → Settled pre s →
      Inv (settleAll mid s) ∧ Settled (pre ++ mid) (settleAll mid s) := by
  intro mid
  induction mid with
  | nil =>
      intro pre post hes s hs hpre
      rw [List.append_nil]
      exact ⟨hs, hpre⟩
  | cons e mid ih =>
      intro pre post hes s hs hpre
      have hsplit : es = pre ++ [e] ++ mid ++ post := by simp [hes]
      have hnext : Inv (e.settle s) ∧ Settled (pre ++ [e]) (e.settle s) := by
        cases hp : e.pending s with
        | true =>
            rw [Step.settle_of_pending hp]
            exact ho pre e (mid ++ post) (by simp [hes]) s hs hpre hp
        | false =>
            rw [Step.settle_of_settled hp]
            exact ⟨hs, settled_append.2 ⟨hpre, fun f hf => List.mem_singleton.1 hf ▸ hp⟩⟩
      have hrest := ih (pre ++ [e]) post hsplit (e.settle s) hnext.1 hnext.2
      rwa [List.append_assoc] at hrest

/-- Settling ends in an invariant state with nothing pending. -/
theorem finish (ho : Orderly es Inv) {s : σ} (hs : Inv s) :
    Inv (settleAll es s) ∧ Settled es (settleAll es s) :=
  (ho.resume_suffix es [] rfl s hs (settled_nil s)).2

end Orderly

/-! ## States on the way -/

theorem settleTrace_mem_last {es : List (Step σ)} {s : σ} :
    settleAll es s = s ∨ settleAll es s ∈ settleTrace es s := by
  induction es generalizing s with
  | nil => exact Or.inl rfl
  | cons e es ih =>
      simp only [settleAll, settleTrace, List.mem_append]
      rcases ih (s := e.settle s) with h | h
      · rw [h]
        cases hp : e.pending s with
        | true =>
            right
            left
            rw [Step.settle_of_pending hp, Step.trace_of_pending hp]
            exact List.mem_singleton_self _
        | false => exact Or.inl (Step.settle_of_settled hp)
      · exact Or.inr (Or.inr h)

/-- The state settling a first part of the list leaves behind, with that part settled. -/
def Along (es : List (Step σ)) (start s : σ) : Prop :=
  ∃ pre post, es = pre ++ post ∧ s = settleAll pre start ∧ Settled pre s

namespace Along

variable {es : List (Step σ)} {start : σ}

theorem refl (es : List (Step σ)) (s : σ) : Along es s s := ⟨[], es, rfl, rfl, settled_nil s⟩

/-- A state on the way is the start or a state settling passes through. -/
theorem mem_settleTrace {s : σ} (h : Along es start s) : s = start ∨ s ∈ settleTrace es start := by
  obtain ⟨pre, post, rfl, rfl, -⟩ := h
  rw [settleTrace_append, List.mem_append]
  exact ((@settleTrace_mem_last _ pre start)).imp_right Or.inl

/-- Applying the next pending step stays on the way. -/
theorem apply {pre post : List (Step σ)} {e : Step σ} {s : σ} (h : Along es start s)
    (hes : es = pre ++ e :: post) (hpre : Settled pre s) (hpending : e.pending s = true)
    (happlied : Settled (pre ++ [e]) (e.apply s)) : Along es start (e.apply s) := by
  obtain ⟨pre', post', hes', hs, hsettled⟩ := h
  have hsplit : pre' ++ post' = pre ++ e :: post := hes' ▸ hes
  have hinitial : ∃ mid, pre = pre' ++ mid := by
    rcases List.append_eq_append_iff.1 hsplit with ⟨mid, hmid, -⟩ | ⟨mid, hmid, htail⟩
    · exact ⟨mid, hmid⟩
    · cases mid with
      | nil => exact ⟨[], by rw [hmid, List.append_nil, List.append_nil]⟩
      | cons f mid =>
          obtain rfl : e = f := (List.cons.inj htail).1
          have hfalse := hsettled e (hmid ▸ List.mem_append_right pre List.mem_cons_self)
          rw [hpending] at hfalse
          cases hfalse
  obtain ⟨mid, rfl⟩ := hinitial
  have hmid : Settled mid s := (settled_append.1 hpre).2
  have hall : settleAll (pre' ++ mid) start = s := by
    rw [settleAll_append, ← hs, settleAll_of_settled hmid]
  refine ⟨pre' ++ mid ++ [e], post, by rw [hes]; simp, ?_, happlied⟩
  rw [settleAll_append, hall]
  exact (Step.settle_of_pending hpending).symm

end Along

/-- If applying the next step settles it and keeps the steps before it settled, in every state on
the way, then the list is orderly along its way. -/
theorem Orderly.along {es : List (Step σ)} {start : σ}
    (h : ∀ pre e post, es = pre ++ e :: post → ∀ s, Along es start s → Settled pre s →
      e.pending s = true → Settled (pre ++ [e]) (e.apply s)) : Orderly es (Along es start) := by
  intro pre e post hes s hs hpre hpending
  have hsettled := h pre e post hes s hs hpre hpending
  exact ⟨hs.apply hes hpre hpending hsettled, hsettled⟩

/-! ## Programs that settle -/

/-- From `s` the program settles the list: it succeeds with `a` in the state settling ends in, and
makes durable the states settling passes through and no others. Rewriting a record with the content
it has shows the state at hand once more, so that state may repeat. -/
structure Performs (p : Durable σ ε α) (es : List (Step σ)) (s : σ) (a : α) : Prop where
  result : (p s).result = .ok a
  state : (p s).state = settleAll es s
  passes : ∀ t ∈ (p s).trace, t = s ∨ t ∈ settleTrace es s
  visits : ∀ t ∈ settleTrace es s, t ∈ (p s).trace

namespace Performs

theorem pure (a : α) (s : σ) : Performs (Pure.pure a : Durable σ ε α) [] s a :=
  ⟨rfl, rfl, fun _ ht => (nomatch ht), fun _ ht => (nomatch ht)⟩

theorem query {f : σ → Except ε α} {s : σ} {a : α} (h : f s = .ok a) :
    Performs (Durable.query f) [] s a :=
  ⟨h, rfl, fun _ ht => (nomatch ht), fun _ ht => (nomatch ht)⟩

/-- A program that runs alike at `s`. -/
theorem congr {p q : Durable σ ε α} {es : List (Step σ)} {s : σ} {a : α} (h : q s = p s)
    (hp : Performs p es s a) : Performs q es s a := by
  obtain ⟨hresult, hstate, hpasses, hvisits⟩ := hp
  rw [← h] at hresult hstate hpasses hvisits
  exact ⟨hresult, hstate, hpasses, hvisits⟩

/-- A settled step may be skipped. -/
theorem skip {p : Durable σ ε α} {e : Step σ} {s : σ} {a : α} (hs : e.pending s = false)
    (hp : Performs p [] s a) : Performs p [e] s a := by
  have hsettled : Settled [e] s := fun f hf => List.mem_singleton.1 hf ▸ hs
  refine ⟨hp.result, ?_, fun t ht => Or.inl ?_, fun t ht => ?_⟩
  · rw [hp.state, settleAll_of_settled hsettled]
    rfl
  · rcases hp.passes t ht with h | h
    · exact h
    · cases h
  · rw [settleTrace_of_settled hsettled] at ht
    cases ht

/-- Making the change of a pending step performs it. -/
theorem effect {e : Step σ} {s : σ} (hs : e.pending s = true) :
    Performs (Durable.effect e.apply : Durable σ ε Unit) [e] s () := by
  have htrace : settleTrace [e] s = [e.apply s] := by
    show e.trace s ++ [] = _
    rw [Step.trace_of_pending hs]
    rfl
  refine ⟨rfl, ?_, fun t ht => Or.inr ?_, fun t ht => ?_⟩
  · show e.apply s = e.settle s
    rw [Step.settle_of_pending hs]
  · rw [htrace]
    exact ht
  · rw [htrace] at ht
    exact ht

/-- Rewriting the state at hand performs nothing. -/
theorem effect_same {f : σ → σ} {s : σ} (hs : f s = s) :
    Performs (Durable.effect f : Durable σ ε Unit) [] s () :=
  ⟨rfl, hs, fun _ ht => Or.inl ((List.mem_singleton.1 ht).trans hs), fun _ ht => (nomatch ht)⟩

theorem bind {p : Durable σ ε α} {f : α → Durable σ ε β} {es fs : List (Step σ)} {s : σ} {a : α}
    {b : β} (hp : Performs p es s a) (hf : Performs (f a) fs (settleAll es s) b) :
    Performs (p >>= f) (es ++ fs) s b := by
  have hrun : (p >>= f) s =
      ⟨(p s).trace ++ (f a (settleAll es s)).trace, (f a (settleAll es s)).state,
        (f a (settleAll es s)).result⟩ := by
    rw [Durable.bind_ok (show p s = ⟨(p s).trace, (p s).state, .ok a⟩ by rw [← hp.result]),
      hp.state]
  refine ⟨by rw [hrun]; exact hf.result, by rw [hrun, settleAll_append]; exact hf.state, ?_, ?_⟩
  · intro t ht
    rw [hrun] at ht
    rw [settleTrace_append, List.mem_append]
    rcases List.mem_append.1 ht with ht | ht
    · exact (hp.passes t ht).imp_right Or.inl
    · rcases hf.passes t ht with rfl | ht
      · exact ((@settleTrace_mem_last _ es s)).imp_right Or.inl
      · exact Or.inr (Or.inr ht)
  · intro t ht
    rw [hrun]
    rw [settleTrace_append, List.mem_append] at ht
    exact List.mem_append.2 (ht.imp (hp.visits t) (hf.visits t))

/-- A reading in front of a program. -/
theorem query_bind {g : σ → Except ε α} {f : α → Durable σ ε β} {es : List (Step σ)} {s : σ}
    {a : α} {b : β} (hg : g s = .ok a) (hf : Performs (f a) es s b) :
    Performs (Durable.query g >>= f) es s b :=
  (query hg).bind hf

/-- What is settled already may stand in front. -/
theorem skipAll {p : Durable σ ε α} {es fs : List (Step σ)} {s : σ} {a : α} (hs : Settled es s)
    (hp : Performs p fs s a) : Performs p (es ++ fs) s a := by
  have hstate := settleAll_of_settled hs
  have htrace : settleTrace (es ++ fs) s = settleTrace fs s := by
    rw [settleTrace_append, settleTrace_of_settled hs, hstate, List.nil_append]
  refine ⟨hp.result, by rw [settleAll_append, hstate]; exact hp.state, fun t ht => ?_,
    fun t ht => ?_⟩
  · rw [htrace]
    exact hp.passes t ht
  · rw [htrace] at ht
    exact hp.visits t ht

/-- Where everything is settled, a program that changes nothing performs the steps. -/
theorem of_settled {p : Durable σ ε α} {es : List (Step σ)} {s : σ} {a : α} (hs : Settled es s)
    (h : p s = ⟨[], s, .ok a⟩) : Performs p es s a := by
  have hp := skipAll hs ((pure a s).congr (q := p) h)
  rwa [List.append_nil] at hp

/-- A program whose outcome is dropped. -/
theorem dropped {p : Durable σ ε α} {es : List (Step σ)} {s : σ} {a : α} (hp : Performs p es s a) :
    Performs (p >>= fun _ => Pure.pure ()) es s () := by
  have h := hp.bind (f := fun _ => (Pure.pure () : Durable σ ε Unit))
    (pure () (settleAll es s))
  rwa [List.append_nil] at h

/-- A loop over the elements that still need their steps. -/
theorem forM {ι : Type} {f : ι → Durable σ ε Unit} {steps : ι → List (Step σ)} {keep : ι → Bool}
    {xs : List ι} {s : σ}
    (h : ∀ pre x post, xs = pre ++ x :: post →
      (keep x = true → Performs (f x) (steps x) (settleAll (pre.flatMap steps) s) ()) ∧
      (keep x = false → Settled (steps x) (settleAll (pre.flatMap steps) s))) :
    Performs ((xs.filter keep).forM f) (xs.flatMap steps) s () := by
  induction xs generalizing s with
  | nil => exact pure () s
  | cons x xs ih =>
      obtain ⟨hkept, hskipped⟩ := h [] x xs rfl
      have hrest : Performs ((xs.filter keep).forM f) (xs.flatMap steps) (settleAll (steps x) s)
          () := by
        refine ih fun pre y post hxs => ?_
        have hy := h (x :: pre) y post (by rw [hxs, List.cons_append])
        rwa [List.flatMap_cons, settleAll_append] at hy
      rw [List.flatMap_cons]
      cases hx : keep x with
      | true =>
          rw [List.filter_cons_of_pos hx]
          exact (hkept hx).bind hrest
      | false =>
          rw [List.filter_cons_of_neg (by simp [hx])]
          have hsettled : Settled (steps x) s := hskipped hx
          rw [settleAll_of_settled hsettled] at hrest
          exact hrest.skipAll hsettled

/-- A loop that collects what its elements return. -/
theorem mapM {ι : Type} {f : ι → Durable σ ε β} {g : ι → β} {steps : ι → List (Step σ)}
    {keep : ι → Bool} {xs : List ι} {s : σ}
    (h : ∀ pre x post, xs = pre ++ x :: post →
      (keep x = true → Performs (f x) (steps x) (settleAll (pre.flatMap steps) s) (g x)) ∧
      (keep x = false → Settled (steps x) (settleAll (pre.flatMap steps) s))) :
    Performs ((xs.filter keep).mapM f) (xs.flatMap steps) s ((xs.filter keep).map g) := by
  induction xs generalizing s with
  | nil =>
      rw [List.filter_nil, List.mapM_nil]
      exact pure [] s
  | cons x xs ih =>
      obtain ⟨hkept, hskipped⟩ := h [] x xs rfl
      have hrest : Performs ((xs.filter keep).mapM f) (xs.flatMap steps) (settleAll (steps x) s)
          ((xs.filter keep).map g) := by
        refine ih fun pre y post hxs => ?_
        have hy := h (x :: pre) y post (by rw [hxs, List.cons_append])
        rwa [List.flatMap_cons, settleAll_append] at hy
      rw [List.flatMap_cons]
      cases hx : keep x with
      | true =>
          rw [List.filter_cons_of_pos hx, List.mapM_cons, List.map_cons]
          refine (hkept hx).bind ?_
          have hend := hrest.bind (f := fun bs => (Pure.pure (g x :: bs) : Durable σ ε (List β)))
            (pure (g x :: (xs.filter keep).map g) _)
          rwa [List.append_nil] at hend
      | false =>
          rw [List.filter_cons_of_neg (by simp [hx])]
          have hsettled : Settled (steps x) s := hskipped hx
          rw [settleAll_of_settled hsettled] at hrest
          exact hrest.skipAll hsettled

/-- A program that is left out because its step is settled. -/
theorem when {condition : Bool} {p : Durable σ ε Unit} {e : Step σ} {s : σ}
    (hp : condition = true → Performs p [e] s ()) (hs : condition = false → e.pending s = false) :
    Performs (Durable.when condition p) [e] s () := by
  unfold Durable.when
  cases condition with
  | true => exact hp rfl
  | false => exact skip (hs rfl) (pure () s)

end Performs

/-- From every invariant state the program settles the list and succeeds with a value that satisfies
`Post`. -/
def Settles (p : Durable σ ε α) (es : List (Step σ)) (Inv : σ → Prop) (Post : α → Prop) : Prop :=
  ∀ s, Inv s → ∃ a, Post a ∧ Performs p es s a

namespace Settles

variable {p : Durable σ ε α} {es : List (Step σ)} {Inv : σ → Prop} {Post : α → Prop}

theorem survives (hp : Settles p es Inv Post) (ho : Orderly es Inv) {s t : σ} (hs : Inv s)
    (h : Durable.Survives p s t) : Inv t ∧ settleAll es t = settleAll es s := by
  refine h.invariant (I := fun t => Inv t ∧ settleAll es t = settleAll es s) ?_ ⟨hs, rfl⟩
  rintro u ⟨hu, hend⟩ t ht
  obtain ⟨a, -, hrun⟩ := hp u hu
  rcases hrun.passes t ht with rfl | ht
  · exact ⟨hu, hend⟩
  · obtain ⟨hinv, hsame⟩ := ho.resume hu ht
    exact ⟨hinv, hsame.trans hend⟩

theorem resume (hp : Settles p es Inv Post) (ho : Orderly es Inv) {s : σ} (hs : Inv s) :
    Durable.Converges p Post s := by
  intro t h
  obtain ⟨ht, hend⟩ := hp.survives ho hs h
  obtain ⟨a, ha, hrun⟩ := hp t ht
  obtain ⟨b, -, hstart⟩ := hp s hs
  exact ⟨a, ha, hrun.result, by rw [hrun.state, hstart.state, hend]⟩

end Settles

/-- A program that performs its steps converges exactly if what its later runs need holds on the
way: where it does, every run settles the same steps, and a run that goes through had it. -/
theorem converges_iff {p : Durable σ ε α} {es : List (Step σ)} {s : σ} {a : α} {Post : α → Prop}
    {N : σ → Prop} (hstart : Performs p es s a)
    (hsettles : (∀ t, Along es s t → N t) →
      Orderly es (Along es s) ∧ Settles p es (Along es s) Post)
    (hneeds : ∀ t b, (p t).result = .ok b → N t) :
    p.Converges Post s ↔ ∀ t, Along es s t → N t := by
  constructor
  · intro h t ht
    have hsurvives : Durable.Survives p s t := by
      rcases ht.mem_settleTrace with rfl | hmem
      · exact Relation.ReflTransGen.refl
      · exact Relation.ReflTransGen.single (Or.inr (hstart.visits t hmem))
    obtain ⟨b, -, hb, -⟩ := h t hsurvives
    exact hneeds t b hb
  · intro hkept
    obtain ⟨ho, hp⟩ := hsettles hkept
    exact hp.resume ho (Along.refl es s)

end StaticHostAgent.Library
