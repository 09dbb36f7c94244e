import StaticHostAgent.Library.Handlers

/-!
# Programs that follow a relation

An abstract system is a relation `R` between states, one pair for each change it allows. A program
follows `R` when every state it makes durable, and the state it stops in, is reached by changes that
`R` allows, whether the program succeeds, fails or crashes. There is one rule for each way to build a
program.

A concrete system runs any of its programs in any order, stops each of them behind any of its
changes, and lets something else happen in between (`Turn`). If every program follows its relation,
then whatever the concrete system reaches the abstract one reaches too (`Interleaved.simulated`), so
that an invariant need only be checked on the changes (`Interleaved.invariant`).
-/

set_option autoImplicit false

namespace StaticHostAgent.Library

variable {σ τ ε α β : Type}

namespace Durable

/-- Every state that one run of `p` from `s` leaves is reached by the changes of `R`. -/
structure Follows (R : σ → σ → Prop) (s : σ) (p : Durable σ ε α) (Post : α → σ → Prop) :
    Prop where
  visited : ∀ t ∈ (p s).trace, Relation.ReflTransGen R s t
  stopped : Relation.ReflTransGen R s (p s).state
  post : ∀ a, (p s).result = .ok a → Post a (p s).state

namespace Follows

variable {R : σ → σ → Prop} {s : σ}

theorem pure {a : α} {Post : α → σ → Prop} (h : Post a s) :
    Follows R s (Pure.pure a : Durable σ ε α) Post := by
  refine ⟨fun _ ht => (nomatch ht), .refl, ?_⟩
  intro b hb
  cases hb
  exact h

theorem query {f : σ → Except ε α} {Q : α → σ → Prop} (h : ∀ a, f s = .ok a → Q a s) :
    Follows R s (Durable.query f) Q :=
  ⟨fun _ ht => (nomatch ht), .refl, h⟩

theorem effect {f : σ → σ} {Q : Unit → σ → Prop} (hstep : R s (f s)) (hpost : Q () (f s)) :
    Follows R s (Durable.effect f : Durable σ ε Unit) Q := by
  refine ⟨fun t ht => ?_, .single hstep, fun _ _ => hpost⟩
  rw [List.mem_singleton.1 ht]
  exact .single hstep

/-- A rule whose states are all reached by steps. -/
theorem iff_spec {p : Durable σ ε α} {Post : α → σ → Prop} :
    Follows R s p Post ↔ Spec s p (Relation.ReflTransGen R s)
      (fun a t => Relation.ReflTransGen R s t ∧ Post a t) fun _ => Relation.ReflTransGen R s := by
  refine ⟨fun h => ⟨h.visited, fun a ha => ⟨h.stopped, h.post a ha⟩, fun _ _ => h.stopped⟩,
    fun h => ⟨h.visited, ?_, fun a ha => (h.post a ha).2⟩⟩
  cases hresult : (p s).result with
  | ok a => exact (h.post a hresult).1
  | error e => exact h.raised e hresult

theorem bind {p : Durable σ ε α} {f : α → Durable σ ε β} {M : α → σ → Prop} {Post : β → σ → Prop}
    (hp : Follows R s p M) (hf : ∀ a t, M a t → Follows R t (f a) Post) :
    Follows R s (p >>= f) Post := by
  refine iff_spec.2 ((iff_spec.1 hp).bind fun a t ⟨hreached, ht⟩ => ?_)
  exact (iff_spec.1 (hf a t ht)).weaken (fun _ => hreached.trans)
    (fun _ _ h => ⟨hreached.trans h.1, h.2⟩) fun _ _ => hreached.trans

/-- A reading at the start of a program. -/
theorem query_bind {f : σ → Except ε α} {g : α → Durable σ ε β} {Post : β → σ → Prop}
    (h : ∀ a, f s = .ok a → Follows R s (g a) Post) :
    Follows R s (Durable.query f >>= g) Post := by
  refine bind (query (Q := fun a t => f s = .ok a ∧ t = s) fun a ha => ⟨ha, rfl⟩) ?_
  rintro a t ⟨ha, rfl⟩
  exact h a ha

theorem when {condition : Bool} {p : Durable σ ε Unit} {Post : Unit → σ → Prop}
    (hp : condition = true → Follows R s p Post) (hskip : condition = false → Post () s) :
    Follows R s (Durable.when condition p) Post := by
  unfold Durable.when
  cases condition with
  | true => exact hp rfl
  | false => exact pure (hskip rfl)

/-- A loop; the invariant knows the elements that are done. -/
theorem forM {ι : Type} {f : ι → Durable σ ε Unit} {I : List ι → σ → Prop} {xs : List ι}
    (hs : I [] s)
    (h : ∀ pre x, x ∈ xs → ∀ t, I pre t → Follows R t (f x) fun _ => I (pre ++ [x])) :
    Follows R s (xs.forM f) fun _ => I xs := by
  have hloop : ∀ (post pre : List ι), xs = pre ++ post → ∀ t, I pre t →
      Follows R t (post.forM f) fun _ => I xs := by
    intro post
    induction post with
    | nil =>
        intro pre hxs t ht
        refine pure ?_
        rwa [hxs, List.append_nil]
    | cons x post ih =>
        intro pre hxs t ht
        refine bind (h pre x (by simp [hxs]) t ht) ?_
        intro _ u hu
        exact ih (pre ++ [x]) (by simp [hxs]) u hu
  exact hloop xs [] rfl s hs

/-- A loop that collects values; the invariant knows them too. -/
theorem mapM {ι : Type} {f : ι → Durable σ ε α} {I : List ι → List α → σ → Prop} {xs : List ι}
    (hs : I [] [] s)
    (h : ∀ pre done x, x ∈ xs → ∀ t, I pre done t →
      Follows R t (f x) fun a => I (pre ++ [x]) (done ++ [a])) :
    Follows R s (xs.mapM f) fun all => I xs all := by
  have hloop : ∀ (post pre : List ι) (done : List α), xs = pre ++ post → ∀ t, I pre done t →
      Follows R t (post.mapM f) fun rest => I xs (done ++ rest) := by
    intro post
    induction post with
    | nil =>
        intro pre done hxs t ht
        rw [List.mapM_nil]
        refine pure ?_
        rw [List.append_nil] at hxs ⊢
        rwa [hxs]
    | cons x post ih =>
        intro pre done hxs t ht
        rw [List.mapM_cons]
        refine bind (h pre done x (by simp [hxs]) t ht) ?_
        intro a u hu
        refine bind (ih (pre ++ [x]) (done ++ [a]) (by simp [hxs]) u hu) ?_
        intro rest v hv
        refine pure ?_
        rwa [List.append_cons]
  exact hloop xs [] [] rfl s hs

/-- A program on a part of the state follows the relation that its changes of the part make. -/
theorem zoom {get : σ → τ} {set : τ → σ → σ} {p : σ → Durable τ ε α} {R' : τ → τ → Prop}
    {Post : α → τ → Prop} (hget : set (get s) s = s)
    (hset : ∀ t t', R' t t' → R (set t s) (set t' s)) (h : Follows R' (get s) (p s) Post) :
    Follows R s (Durable.zoom get set p) fun a u => ∃ t, u = set t s ∧ Post a t := by
  have hlift : ∀ t, Relation.ReflTransGen R' (get s) t → Relation.ReflTransGen R s (set t s) := by
    intro t hsteps
    induction hsteps with
    | refl =>
        rw [hget]
    | tail _ hstep ih => exact ih.tail (hset _ _ hstep)
  refine ⟨fun u hu => ?_, hlift _ h.stopped, fun a ha => ⟨_, rfl, h.post a ha⟩⟩
  obtain ⟨t, ht, rfl⟩ := List.mem_map.1 hu
  exact hlift t (h.visited t ht)

/-- Errors of another type change nothing. -/
theorem raising {ε' : Type} {g : ε → ε'} {p : Durable σ ε α} {Post : α → σ → Prop}
    (h : Follows R s p Post) : Follows R s (Durable.raising g p) Post :=
  ⟨h.visited, h.stopped, fun a ha => h.post a (mapError_eq_ok.1 ha)⟩

theorem weaken {p : Durable σ ε α} {Post Post' : α → σ → Prop} (h : Follows R s p Post)
    (hpost : ∀ a t, Post a t → Post' a t) : Follows R s p Post' :=
  ⟨h.visited, h.stopped, fun a ha => hpost a _ (h.post a ha)⟩

end Follows

/-- A run of `p` from `s` that goes through has made a state of `Q` durable or ends in `Post`. -/
def Passes (Q : σ → Prop) (s : σ) (p : Durable σ ε α) (Post : α → σ → Prop) : Prop :=
  ∀ a, (p s).result = .ok a → (∃ t ∈ (p s).trace, Q t) ∨ Post a (p s).state

namespace Passes

variable {Q : σ → Prop} {s : σ}

/-- What a program is known to end in. -/
theorem of_follows {R : σ → σ → Prop} {p : Durable σ ε α} {Post : α → σ → Prop}
    (h : Follows R s p Post) : Passes Q s p Post := fun a ha => Or.inr (h.post a ha)

/-- A change that makes a state of `Q` durable. -/
theorem hit {f : σ → σ} {Post : Unit → σ → Prop} (h : Q (f s)) :
    Passes Q s (Durable.effect f : Durable σ ε Unit) Post :=
  fun _ _ => Or.inl ⟨f s, List.mem_singleton_self _, h⟩

theorem bind {p : Durable σ ε α} {f : α → Durable σ ε β} {M : α → σ → Prop} {Post : β → σ → Prop}
    (hp : Passes Q s p M) (hf : ∀ a t, M a t → Passes Q t (f a) Post) :
    Passes Q s (p >>= f) Post := by
  intro b hb
  obtain ⟨a, ha, hrest⟩ := bind_result_ok hb
  have hrun := bind_ok (f := f) (show p s = ⟨(p s).trace, (p s).state, .ok a⟩ by rw [← ha])
  rw [hrun]
  rcases hp a ha with ⟨t, ht, hq⟩ | hm
  · exact Or.inl ⟨t, List.mem_append_left _ ht, hq⟩
  · rcases hf a (p s).state hm b hrest with ⟨t, ht, hq⟩ | hpost
    · exact Or.inl ⟨t, List.mem_append_right _ ht, hq⟩
    · exact Or.inr hpost

theorem query_bind {f : σ → Except ε α} {g : α → Durable σ ε β} {Post : β → σ → Prop}
    (h : ∀ a, f s = .ok a → Passes Q s (g a) Post) :
    Passes Q s (Durable.query f >>= g) Post := by
  intro b hb
  obtain ⟨a, ha, hrest⟩ := query_bind_result_ok hb
  rw [query_bind_ok ha]
  exact h a ha b hrest

theorem when {condition : Bool} {p : Durable σ ε Unit} {Post : Unit → σ → Prop}
    (hp : condition = true → Passes Q s p Post) (hskip : condition = false → Post () s) :
    Passes Q s (Durable.when condition p) Post := by
  unfold Durable.when
  cases condition with
  | true => exact hp rfl
  | false => exact fun _ _ => Or.inr (hskip rfl)

/-- A loop that keeps `I` until it makes a state of `Q` durable. -/
theorem forM {ι : Type} {f : ι → Durable σ ε Unit} {I : σ → Prop} {xs : List ι} (hs : I s)
    (h : ∀ x ∈ xs, ∀ t, I t → Passes Q t (f x) fun _ => I) :
    Passes Q s (xs.forM f) fun _ => I := by
  induction xs generalizing s with
  | nil => exact fun _ _ => Or.inr hs
  | cons x xs ih =>
      refine bind (h x List.mem_cons_self s hs) ?_
      intro _ t ht
      exact ih ht fun y hy => h y (List.mem_cons_of_mem x hy)

theorem raising {ε' : Type} {g : ε → ε'} {p : Durable σ ε α} {Post : α → σ → Prop}
    (h : Passes Q s p Post) : Passes Q s (Durable.raising g p) Post :=
  fun a ha => h a (mapError_eq_ok.1 ha)

end Passes

end Durable

/-! ## Systems of programs -/

section Systems

variable {ι : Type} (program : ι → Durable σ ε α) (allowed : ι → Prop) (elsewhere : σ → σ → Prop)

/-- One turn: a program runs until it stops, or crashes behind one of its changes, or something else
happens. -/
inductive Turn (s : σ) : σ → Prop where
  | stops (i : ι) (may : allowed i) : Turn s (program i s).state
  | crashes (i : ι) (may : allowed i) {t : σ} (left : t ∈ (program i s).trace) : Turn s t
  | other {t : σ} (step : elsewhere s t) : Turn s t

/-- Any number of turns. -/
abbrev Interleaved : σ → σ → Prop := Relation.ReflTransGen (Turn program allowed elsewhere)

/-- One change of the abstract system. -/
inductive AbstractStep (R : ι → σ → σ → Prop) (s t : σ) : Prop where
  | change (i : ι) (may : allowed i) (step : R i s t)
  | other (step : elsewhere s t)

variable {program allowed elsewhere} {R : ι → σ → σ → Prop} {s u : σ}

/-- The abstract system reaches whatever the concrete one does. -/
theorem Interleaved.simulated
    (hfollows : ∀ i s, Durable.Follows (R i) s (program i) fun _ _ => True)
    (h : Interleaved program allowed elsewhere s u) :
    Relation.ReflTransGen (AbstractStep allowed elsewhere R) s u := by
  induction h with
  | refl => exact .refl
  | tail _ turn ih =>
      cases turn with
      | stops i may =>
          refine ih.trans (Relation.ReflTransGen.mono ?_ _ _ (hfollows i _).stopped)
          exact fun _ _ hstep => .change i may hstep
      | crashes i may left =>
          refine ih.trans (Relation.ReflTransGen.mono ?_ _ _ ((hfollows i _).visited _ left))
          exact fun _ _ hstep => .change i may hstep
      | other step => exact ih.tail (.other step)

/-- What every change and everything else keeps, every run keeps. -/
theorem Interleaved.invariant {I : σ → Prop}
    (hfollows : ∀ i s, Durable.Follows (R i) s (program i) fun _ _ => True)
    (hchange : ∀ i, allowed i → ∀ s t, R i s t → I s → I t)
    (hother : ∀ s t, elsewhere s t → I s → I t)
    (h : Interleaved program allowed elsewhere s u) (hs : I s) : I u := by
  have hsteps := h.simulated hfollows
  clear h
  induction hsteps with
  | refl => exact hs
  | tail _ step ih =>
      cases step with
      | change i may step => exact hchange i may _ _ step ih
      | other step => exact hother _ _ step ih

end Systems

end StaticHostAgent.Library
