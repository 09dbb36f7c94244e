import StaticHostAgent.Library.Checks
import StaticHostAgent.Library.DurableProgram

/-!
# Programs that handle errors

`Durable.rescue` hands the error of a program to a handler, which may go on or raise another one.
`Spec s p Visited Post Raised` says what one run of `p` from `s` may do, with the error and the state
it is raised in; there is one rule for each way to build a program. `Raises P x` says the same of a
reading: every error of `x` satisfies `P`.
-/

set_option autoImplicit false

namespace StaticHostAgent.Library

variable {σ τ ε ε' α β : Type}

/-! ## Readings -/

/-- Every error of the reading satisfies `P`. -/
def Raises (P : ε → Prop) (x : Except ε α) : Prop := ∀ e, x = .error e → P e

namespace Raises

variable {P : ε → Prop}

theorem ok (a : α) : Raises P (.ok a : Except ε α) := fun _ he => (nomatch he)

theorem pure (a : α) : Raises P (Pure.pure a : Except ε α) := fun _ he => (nomatch he)

theorem throw {e : ε} (h : P e) : Raises P (MonadExcept.throw e : Except ε α) := by
  rintro e' he
  cases he
  exact h

theorem bind {x : Except ε α} {f : α → Except ε β} (hx : Raises P x)
    (hf : ∀ a, x = .ok a → Raises P (f a)) : Raises P (x >>= f) := by
  cases x with
  | error e =>
      rintro e' he
      cases he
      exact hx e rfl
  | ok a => exact hf a rfl

theorem require {condition : Bool} {e : ε} (h : P e) : Raises P (Library.require condition e) := by
  cases condition with
  | true => exact ok ()
  | false => exact throw h

theorem mapError {g : ε' → ε} {x : Except ε' α} (h : ∀ e, P (g e)) :
    Raises P (Library.mapError g x) := by
  cases x with
  | ok a => exact ok a
  | error e => exact throw (h e)

theorem forM {ι : Type} {f : ι → Except ε Unit} {xs : List ι} (h : ∀ x ∈ xs, Raises P (f x)) :
    Raises P (xs.forM f) := by
  induction xs with
  | nil => exact ok ()
  | cons x xs ih =>
      exact bind (h x List.mem_cons_self) fun _ _ => ih fun y hy => h y (List.mem_cons_of_mem x hy)

end Raises

/-! ## Programs -/

namespace Durable

/-- Run the handler with the error of `p`, in the state `p` left. -/
def rescue (p : Durable σ ε α) (handler : ε → Durable σ ε α) : Durable σ ε α := fun s =>
  match (p s).result with
  | .ok _ => p s
  | .error e =>
      let rest := handler e (p s).state
      ⟨(p s).trace ++ rest.trace, rest.state, rest.result⟩

/-- Raise the errors of a program as errors of another type. -/
def raising {ε' : Type} (g : ε → ε') (p : Durable σ ε α) : Durable σ ε' α := fun s =>
  ⟨(p s).trace, (p s).state, mapError g (p s).result⟩

/-- Whatever the errors are called, a program that settles its steps settles them. -/
theorem raising_performs {ε' : Type} {g : ε → ε'} {p : Durable σ ε α} {es : List (Step σ)} {s : σ}
    {a : α} (hp : Performs p es s a) : Performs (raising g p) es s a :=
  ⟨mapError_eq_ok.2 hp.result, hp.state, hp.passes, hp.visits⟩

/-- What one run may make durable, return with, and raise. -/
structure Spec (s : σ) (p : Durable σ ε α) (Visited : σ → Prop) (Post : α → σ → Prop)
    (Raised : ε → σ → Prop) : Prop where
  visited : ∀ t ∈ (p s).trace, Visited t
  post : ∀ a, (p s).result = .ok a → Post a (p s).state
  raised : ∀ e, (p s).result = .error e → Raised e (p s).state

namespace Spec

variable {s : σ} {Visited : σ → Prop} {Raised : ε → σ → Prop}

theorem pure {a : α} {Post : α → σ → Prop} (h : Post a s) :
    Spec s (Pure.pure a : Durable σ ε α) Visited Post Raised := by
  refine ⟨fun _ ht => (nomatch ht), ?_, fun _ he => (nomatch he)⟩
  rintro b hb
  cases hb
  exact h

theorem fail {e : ε} {Post : α → σ → Prop} (h : Raised e s) :
    Spec s (Durable.fail e : Durable σ ε α) Visited Post Raised := by
  refine ⟨fun _ ht => (nomatch ht), fun _ ha => (nomatch ha), ?_⟩
  rintro e' he
  cases he
  exact h

theorem query {f : σ → Except ε α} {Q : α → σ → Prop} (hok : ∀ a, f s = .ok a → Q a s)
    (herror : ∀ e, f s = .error e → Raised e s) :
    Spec s (Durable.query f) Visited Q Raised :=
  ⟨fun _ ht => (nomatch ht), hok, herror⟩

theorem effect {f : σ → σ} {Q : Unit → σ → Prop} (hvisited : Visited (f s))
    (hpost : Q () (f s)) : Spec s (Durable.effect f : Durable σ ε Unit) Visited Q Raised := by
  refine ⟨fun t ht => ?_, fun _ _ => hpost, fun _ he => (nomatch he)⟩
  rw [List.mem_singleton.1 ht]
  exact hvisited

theorem bind {p : Durable σ ε α} {f : α → Durable σ ε β} {M : α → σ → Prop} {Post : β → σ → Prop}
    (hp : Spec s p Visited M Raised) (hf : ∀ a t, M a t → Spec t (f a) Visited Post Raised) :
    Spec s (p >>= f) Visited Post Raised := by
  cases hresult : (p s).result with
  | error e =>
      have hrun : (p >>= f) s = ⟨(p s).trace, (p s).state, .error e⟩ :=
        bind_error (show p s = _ by rw [← hresult])
      refine ⟨?_, ?_, ?_⟩
      · rw [hrun]
        exact hp.visited
      · intro b hb
        rw [hrun] at hb
        cases hb
      · intro e' he
        rw [hrun] at he ⊢
        cases he
        exact hp.raised e hresult
  | ok a =>
      have hrest := hf a (p s).state (hp.post a hresult)
      have hrun := bind_ok (f := f) (show p s = ⟨(p s).trace, (p s).state, .ok a⟩ by
        rw [← hresult])
      refine ⟨?_, ?_, ?_⟩
      · rw [hrun]
        intro t ht
        exact (List.mem_append.1 ht).elim (hp.visited t) (hrest.visited t)
      · rw [hrun]
        exact hrest.post
      · rw [hrun]
        exact hrest.raised

/-- A reading at the start of a program. -/
theorem query_bind {f : σ → Except ε α} {g : α → Durable σ ε β} {Post : β → σ → Prop}
    (herror : ∀ e, f s = .error e → Raised e s)
    (hok : ∀ a, f s = .ok a → Spec s (g a) Visited Post Raised) :
    Spec s (Durable.query f >>= g) Visited Post Raised := by
  refine bind (query (Q := fun a t => f s = .ok a ∧ t = s) (fun a ha => ⟨ha, rfl⟩) herror) ?_
  rintro a t ⟨ha, rfl⟩
  exact hok a ha

theorem when {condition : Bool} {p : Durable σ ε Unit} {Post : Unit → σ → Prop}
    (hp : condition = true → Spec s p Visited Post Raised)
    (hskip : condition = false → Post () s) :
    Spec s (Durable.when condition p) Visited Post Raised := by
  unfold Durable.when
  cases condition with
  | true => exact hp rfl
  | false => exact pure (hskip rfl)

theorem forM {ι : Type} {f : ι → Durable σ ε Unit} {I : σ → Prop} {xs : List ι} (hs : I s)
    (h : ∀ x ∈ xs, ∀ t, I t → Spec t (f x) Visited (fun _ => I) Raised) :
    Spec s (xs.forM f) Visited (fun _ => I) Raised := by
  induction xs generalizing s with
  | nil => exact pure hs
  | cons x xs ih =>
      refine bind (h x List.mem_cons_self s hs) fun _ t ht => ?_
      exact ih ht fun y hy => h y (List.mem_cons_of_mem x hy)

/-- The handler starts where the program stopped, with the error the program raised. -/
theorem rescue {p : Durable σ ε α} {handler : ε → Durable σ ε α} {B : ε → σ → Prop}
    {Post : α → σ → Prop} (hp : Spec s p Visited Post B)
    (hhandler : ∀ e t, B e t → Spec t (handler e) Visited Post Raised) :
    Spec s (Durable.rescue p handler) Visited Post Raised := by
  cases hresult : (p s).result with
  | ok a =>
      have hrun : Durable.rescue p handler s = p s := by simp only [Durable.rescue, hresult]
      refine ⟨by rw [hrun]; exact hp.visited, by rw [hrun]; exact hp.post, ?_⟩
      intro e he
      rw [hrun, hresult] at he
      cases he
  | error e =>
      have hrest := hhandler e (p s).state (hp.raised e hresult)
      have hrun : Durable.rescue p handler s =
          ⟨(p s).trace ++ (handler e (p s).state).trace, (handler e (p s).state).state,
            (handler e (p s).state).result⟩ := by
        simp only [Durable.rescue, hresult]
      refine ⟨?_, by rw [hrun]; exact hrest.post, by rw [hrun]; exact hrest.raised⟩
      rw [hrun]
      intro t ht
      exact (List.mem_append.1 ht).elim (hp.visited t) (hrest.visited t)

/-- A program on a part of the state, when the invariant does not read that part. -/
theorem zoom_kept {get : σ → τ} {set : τ → σ → σ} {p : σ → Durable τ ε α}
    (hset : ∀ t, Visited (set t s)) :
    Spec s (Durable.zoom get set p) Visited (fun _ => Visited)
      (fun e u => Visited u ∧ (Durable.zoom get set p s).result = .error e) := by
  refine ⟨fun t ht => ?_, fun _ _ => hset _, fun e he => ⟨hset _, he⟩⟩
  obtain ⟨u, -, rfl⟩ := List.mem_map.1 ht
  exact hset u

/-- Two rules about one run. -/
theorem both {p : Durable σ ε α} {Visited' : σ → Prop} {Post Post' : α → σ → Prop}
    {Raised' : ε → σ → Prop} (h : Spec s p Visited Post Raised)
    (h' : Spec s p Visited' Post' Raised') :
    Spec s p (fun t => Visited t ∧ Visited' t) (fun a t => Post a t ∧ Post' a t)
      (fun e t => Raised e t ∧ Raised' e t) :=
  ⟨fun t ht => ⟨h.visited t ht, h'.visited t ht⟩, fun a ha => ⟨h.post a ha, h'.post a ha⟩,
    fun e he => ⟨h.raised e he, h'.raised e he⟩⟩

/-- Every part may be weakened. -/
theorem weaken {p : Durable σ ε α} {Visited' : σ → Prop} {Post Post' : α → σ → Prop}
    {B : ε → σ → Prop} (h : Spec s p Visited Post Raised)
    (hvisited : ∀ t, Visited t → Visited' t) (hpost : ∀ a t, Post a t → Post' a t)
    (hraised : ∀ e t, Raised e t → B e t) : Spec s p Visited' Post' B :=
  ⟨fun t ht => hvisited t (h.visited t ht), fun a ha => hpost a _ (h.post a ha),
    fun e he => hraised e _ (h.raised e he)⟩

end Spec

/-- A run that goes through, and where it ends. -/
structure Ends (p : Durable σ ε α) (s : σ) (a : α) (t : σ) : Prop where
  result : (p s).result = .ok a
  state : (p s).state = t

namespace Ends

variable {s t u : σ} {a : α} {b : β}

theorem pure (a : α) (s : σ) : Ends (Pure.pure a : Durable σ ε α) s a s := ⟨rfl, rfl⟩

theorem query {f : σ → Except ε α} (h : f s = .ok a) : Ends (Durable.query f) s a s := ⟨h, rfl⟩

theorem effect (f : σ → σ) (s : σ) : Ends (Durable.effect f : Durable σ ε Unit) s () (f s) :=
  ⟨rfl, rfl⟩

theorem bind {p : Durable σ ε α} {f : α → Durable σ ε β} (hp : Ends p s a t)
    (hf : Ends (f a) t b u) : Ends (p >>= f) s b u := by
  obtain ⟨hresult, rfl⟩ := hp
  have hrun := bind_ok (f := f) (show p s = ⟨(p s).trace, (p s).state, .ok a⟩ by rw [← hresult])
  exact ⟨by rw [hrun]; exact hf.result, by rw [hrun]; exact hf.state⟩

theorem query_bind {f : σ → Except ε α} {g : α → Durable σ ε β} (h : f s = .ok a)
    (hg : Ends (g a) s b t) : Ends (Durable.query f >>= g) s b t := (query h).bind hg

end Ends

/-! ## Processes that stop -/

/-- What a process leaves that stops after some durable changes, if it does not end. -/
def left (p : Durable σ ε α) (s : σ) : Option Nat → σ
  | none => (p s).state
  | some changes => ((p s).trace.take changes).getLastD s

/-- A process that stops leaves what a crash leaves. -/
theorem left_crashed (p : Durable σ ε α) (s : σ) (changes : Nat) :
    Crashed p s (left p s (some changes)) := by
  show Crashed p s (((p s).trace.take changes).getLastD s)
  rcases List.mem_cons.1 (List.getLastD_mem_cons (l := (p s).trace.take changes) (a := s)) with
    hstart | htaken
  · exact Or.inl hstart
  · exact Or.inr (List.mem_of_mem_take htaken)

/-! ## Reruns -/

/-- A run in a renewed environment, which ends, fails or crashes. -/
def Rerun (renew : σ → σ → Prop) (p : Durable σ ε α) (s t : σ) : Prop :=
  ∃ u, renew s u ∧ (t = u ∨ t ∈ (p u).trace ∨ t = (p u).state)

/-- Any number of runs, each in a renewed environment. -/
abbrev Reruns (renew : σ → σ → Prop) (p : Durable σ ε α) : σ → σ → Prop :=
  Relation.ReflTransGen (Rerun renew p)

/-- An invariant that every run keeps, whatever its outcome. -/
theorem Reruns.invariant {renew : σ → σ → Prop} {p : Durable σ ε α} {I : σ → Prop}
    (hrenew : ∀ s u, renew s u → I s → I u)
    (hrun : ∀ s, I s → Spec s p I (fun _ => I) fun _ => I) {s t : σ} (hs : I s)
    (h : Reruns renew p s t) : I t := by
  induction h with
  | refl => exact hs
  | @tail t v _ hstep ih =>
      obtain ⟨u, hu, hcases⟩ := hstep
      have hinv := hrenew _ u hu ih
      have hspec := hrun u hinv
      rcases hcases with rfl | hmem | rfl
      · exact hinv
      · exact hspec.visited _ hmem
      · cases hresult : (p u).result with
        | ok a => exact hspec.post a hresult
        | error e => exact hspec.raised e hresult

end Durable

end StaticHostAgent.Library
