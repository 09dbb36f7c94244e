import StaticHostAgent.Library.DurableProgram

/-!
# Programs that are restarted after a crash

A program is `Restartable` if the first change of every run leaves a state from which a new run does
what the interrupted one would have done: the same changes, the same final state, and an outcome
that counts as the same. Then any number of crashed runs leaves a state from which the next run ends
as the uninterrupted one (`Restartable.survives`). The rules below follow the parts of a program:
a part that changes nothing is passed over, a part that changes something restarts by itself.
-/

set_option autoImplicit false

namespace StaticHostAgent.Library

variable {σ τ ε α β : Type}

/-- A run that makes the change `s` and then goes on as `rest`. -/
def Run.after (s : σ) (rest : Run σ ε α) : Run σ ε α := ⟨s :: rest.trace, rest.state, rest.result⟩

namespace Durable

/-- The run of `p` from `s` ends at once with `a`, without a change. -/
def Quiet (p : Durable σ ε α) (s : σ) (a : α) : Prop := p s = ⟨[], s, .ok a⟩

theorem Quiet.pure (a : α) (s : σ) : Quiet (Pure.pure a : Durable σ ε α) s a := pure_run a s

theorem Quiet.query {f : σ → Except ε α} {s : σ} {a : α} (h : f s = .ok a) :
    Quiet (query f) s a := by
  unfold Quiet
  rw [query_run, h]

/-- A reading that cannot fail. -/
theorem Quiet.reading (g : σ → α) (s : σ) :
    Quiet (Durable.query fun s => (Pure.pure (g s) : Except ε α)) s (g s) := rfl

/-- A quiet part is passed over. -/
theorem Quiet.bind {p : Durable σ ε α} {f : α → Durable σ ε β} {s : σ} {a : α} (h : Quiet p s a) :
    (p >>= f) s = f a s := by
  rw [bind_ok h]
  rfl

/-- The run of `p` from `s` stops at once with an error. -/
def Stops (p : Durable σ ε α) (s : σ) : Prop := ∃ e, p s = ⟨[], s, .error e⟩

theorem Stops.bind {p : Durable σ ε α} {s : σ} (h : Stops p s) (f : α → Durable σ ε β) :
    Stops (p >>= f) s := by
  obtain ⟨e, he⟩ := h
  exact ⟨e, bind_error he⟩

/-- A reading stops or is quiet. -/
theorem stops_or_quiet (f : σ → Except ε α) (s : σ) :
    Stops (Durable.query f) s ∨ ∃ a, f s = .ok a ∧ Quiet (Durable.query f) s a := by
  cases hf : f s with
  | error e => exact Or.inl ⟨e, by rw [query_run, hf]⟩
  | ok a => exact Or.inr ⟨a, rfl, Quiet.query hf⟩

theorem bind_after {p q : Durable σ ε α} {f : α → Durable σ ε β} {s s' : σ}
    (h : p s = (q s').after s') : (p >>= f) s = ((q >>= f) s').after s' := by
  cases hresult : (q s').result with
  | error e =>
      have hq : q s' = ⟨(q s').trace, (q s').state, .error e⟩ := by rw [← hresult]
      have hp : p s = ⟨s' :: (q s').trace, (q s').state, .error e⟩ := by
        rw [h, hq]
        rfl
      rw [bind_error hp, bind_error hq]
      rfl
  | ok a =>
      have hq : q s' = ⟨(q s').trace, (q s').state, .ok a⟩ := by rw [← hresult]
      have hp : p s = ⟨s' :: (q s').trace, (q s').state, .ok a⟩ := by
        rw [h, hq]
        rfl
      rw [bind_ok hp, bind_ok hq]
      rfl

/-- Programs whose first parts run alike run alike. -/
theorem bind_congr_run {p q : Durable σ ε α} (f : α → Durable σ ε β) {s : σ} (h : p s = q s) :
    (p >>= f) s = (q >>= f) s := by
  show andThen p f s = andThen q f s
  unfold andThen
  rw [h]

/-- Programs that go on alike where the first part ends are alike. -/
theorem bind_congr_at {p : Durable σ ε α} {f g : α → Durable σ ε β} {s : σ}
    (h : ∀ a, (p s).result = .ok a → f a (p s).state = g a (p s).state) :
    (p >>= f) s = (p >>= g) s := by
  show andThen p f s = andThen p g s
  unfold andThen
  cases hp : (p s).result with
  | error e => rfl
  | ok a =>
      dsimp only
      rw [h a hp]

theorem effect_after {f : σ → σ} {g : Unit → Durable σ ε β} {s : σ} :
    (effect f >>= g) s = (g () (f s)).after (f s) := effect_bind

/-- A part that works on a component restarts as the component's program does. -/
theorem zoom_after {get : σ → τ} {set : τ → σ → σ} {p q : Durable τ ε α} {s : σ} {t : τ}
    (h : p (get s) = (q t).after t) (hget : get (set t s) = t)
    (hset : ∀ u, set u (set t s) = set u s) :
    zoom get set (fun _ => p) s = (zoom get set (fun _ => q) (set t s)).after (set t s) := by
  simp only [zoom, h, hget, hset, Run.after, List.map_cons]

theorem zoom_congr_at {get : σ → τ} {set : τ → σ → σ} {p q : Durable τ ε α} {s : σ}
    (h : p (get s) = q (get s)) : zoom get set (fun _ => p) s = zoom get set (fun _ => q) s := by
  simp only [zoom, h]

theorem zoom_quiet {get : σ → τ} {set : τ → σ → σ} {p : Durable τ ε α} {s : σ} {a : α}
    (h : Quiet p (get s) a) (hset : set (get s) s = s) :
    Quiet (zoom get set fun _ => p) s a := by
  have hp : p (get s) = ⟨[], get s, .ok a⟩ := h
  show zoom get set (fun _ => p) s = _
  simp only [zoom, hp, hset, List.map_nil]

/-- A value that is dropped may be dropped inside. -/
theorem zoom_drop {get : σ → τ} {set : τ → σ → σ} {p : Durable τ ε α} {q : Durable τ ε Unit}
    (h : (p >>= fun _ => Pure.pure ()) = q) (f : Durable σ ε β) :
    (zoom get set (fun _ => p) >>= fun _ => f) = (zoom get set (fun _ => q) >>= fun _ => f) := by
  subst h
  funext s
  show andThen _ _ s = andThen _ _ s
  have hdrop : (p >>= fun _ => (Pure.pure () : Durable τ ε Unit)) (get s) =
      andThen p (fun _ => Pure.pure ()) (get s) := rfl
  simp only [andThen, zoom, hdrop]
  cases (p (get s)).result with
  | error e => rfl
  | ok a => simp only [pure_run, List.append_nil]

theorem zoom_error {get : σ → τ} {set : τ → σ → σ} {p : Durable τ ε α} {s : σ} {e : ε}
    (h : p (get s) = ⟨[], get s, .error e⟩) (hset : set (get s) s = s) :
    zoom get set (fun _ => p) s = ⟨[], s, .error e⟩ := by
  simp only [zoom, h, hset, List.map_nil]

/-- A program whose value is dropped runs as before. -/
theorem dropped_run (p : Durable σ ε α) (s : σ) :
    (p >>= fun _ => (Pure.pure () : Durable σ ε Unit)) s =
      ⟨(p s).trace, (p s).state, (p s).result.map fun _ => ()⟩ := by
  show andThen p _ s = _
  unfold andThen
  cases (p s).result with
  | error e => rfl
  | ok a => simp only [pure_run, List.append_nil]; rfl

theorem map_run (g : α → β) (p : Durable σ ε α) (s : σ) :
    (g <$> p) s = ⟨(p s).trace, (p s).state, (p s).result.map g⟩ := by
  show andThen p (fun a => Pure.pure (g a)) s = _
  unfold andThen
  cases (p s).result with
  | error e => rfl
  | ok a => simp only [pure_run, List.append_nil]; rfl

theorem Stops.map {p : Durable σ ε α} {s : σ} (h : Stops p s) (g : α → β) :
    Stops (g <$> p) s := by
  obtain ⟨e, he⟩ := h
  exact ⟨e, by rw [map_run, he]; rfl⟩

/-- A run ends in its last durable state, or where it began. -/
def Honest (p : Durable σ ε α) : Prop := ∀ s, (p s).state = (p s).trace.getLast?.getD s

namespace Honest

theorem pure (a : α) : Honest (Pure.pure a : Durable σ ε α) := fun _ => rfl

theorem query (f : σ → Except ε α) : Honest (Durable.query f) := fun _ => rfl

theorem effect (f : σ → σ) : Honest (Durable.effect f : Durable σ ε Unit) := fun _ => rfl

theorem bind {p : Durable σ ε α} {f : α → Durable σ ε β} (hp : Honest p) (hf : ∀ a, Honest (f a)) :
    Honest (p >>= f) := by
  intro s
  show (andThen p f s).state = (andThen p f s).trace.getLast?.getD s
  unfold andThen
  cases (p s).result with
  | error e => exact hp s
  | ok a =>
      show (f a (p s).state).state = _
      rw [hf a (p s).state, List.getLast?_append]
      cases (f a (p s).state).trace.getLast? with
      | none => exact hp s
      | some t => rfl

theorem when (condition : Bool) {p : Durable σ ε Unit} (hp : Honest p) :
    Honest (Durable.when condition p) := by
  unfold Durable.when
  cases condition with
  | true => exact hp
  | false => exact pure ()

theorem forM {ι : Type} {f : ι → Durable σ ε Unit} (hf : ∀ x, Honest (f x)) (xs : List ι) :
    Honest (xs.forM f) := by
  induction xs with
  | nil => exact pure ()
  | cons x xs ih => exact bind (hf x) fun _ => ih

/-- A program on a part of the state, chosen by the state. -/
theorem zoom_at {get : σ → τ} {set : τ → σ → σ} {p : σ → Durable τ ε α} (hp : ∀ s, Honest (p s))
    (hset : ∀ s, set (get s) s = s) : Honest (Durable.zoom get set p) := by
  intro s
  show set (p s (get s)).state s = ((p s (get s)).trace.map fun t => set t s).getLast?.getD s
  rw [hp s (get s), List.getLast?_map]
  cases (p s (get s)).trace.getLast? with
  | none => exact hset s
  | some t => rfl

theorem zoom {get : σ → τ} {set : τ → σ → σ} {p : Durable τ ε α} (hp : Honest p)
    (hset : ∀ s, set (get s) s = s) : Honest (Durable.zoom get set fun _ => p) :=
  zoom_at (fun _ => hp) hset

/-- The final state is one that a crash may leave. -/
theorem crashed {p : Durable σ ε α} (hp : Honest p) (s : σ) : Crashed p s (p s).state := by
  rw [hp s]
  cases hlast : (p s).trace.getLast? with
  | none => exact Or.inl rfl
  | some t => exact Or.inr (List.mem_of_getLast? hlast)

end Honest

/-- What holds of runs without a change, and is carried back over a first change, holds of every
run of a program that restarts. -/
theorem restart_induction {p : Durable σ ε α} {Change : σ → σ → Prop} {motive : σ → Prop}
    (restarts : ∀ s, (p s).trace = [] ∨ ∃ s', Change s s' ∧ p s = (p s').after s')
    (quiet : ∀ s, (p s).trace = [] → motive s)
    (change : ∀ s s', Change s s' → p s = (p s').after s' → motive s' → motive s) (s : σ) :
    motive s := by
  have general : ∀ (n : Nat) (s : σ), (p s).trace.length = n → motive s := by
    intro n
    induction n with
    | zero => exact fun s hlength => quiet s (List.length_eq_zero_iff.1 hlength)
    | succ n ih =>
        intro s hlength
        rcases restarts s with hquiet | ⟨s', hchange, hrun⟩
        · exact quiet s hquiet
        · refine change s s' hchange hrun (ih s' ?_)
          rw [hrun] at hlength
          exact Nat.succ.inj hlength
  exact general _ s rfl

/-- After its first change the program does from the new state what it would have done anyway. -/
def Restartable (Inv : σ → Prop) (Same : Except ε α → Except ε α → Prop) (p : Durable σ ε α) :
    Prop :=
  ∀ s, Inv s → (p s).trace = [] ∨ ∃ s', Inv s' ∧ (p s).trace = s' :: (p s').trace ∧
    (p s').state = (p s).state ∧ Same (p s').result (p s).result

namespace Restartable

variable {Inv : σ → Prop} {Same : Except ε α → Except ε α → Prop} {p : Durable σ ε α}

/-- A crash inside one run leaves a state that is as good as the start. -/
theorem crashed (hp : Restartable Inv Same p)
    (htrans : ∀ r r' r'', Same r r' → Same r' r'' → Same r r'') :
    ∀ (n : Nat) (s : σ), Inv s → (p s).trace.length = n → ∀ t ∈ (p s).trace,
      Inv t ∧ (p t).state = (p s).state ∧ Same (p t).result (p s).result := by
  intro n
  induction n with
  | zero =>
      intro s _ hlength t ht
      rw [List.length_eq_zero_iff.1 hlength] at ht
      cases ht
  | succ n ih =>
      intro s hs hlength t ht
      rcases hp s hs with hquiet | ⟨s', hs', htrace, hstate, hsame⟩
      · rw [hquiet] at ht
        cases ht
      · rw [htrace] at ht hlength
        rcases List.mem_cons.1 ht with rfl | ht
        · exact ⟨hs', hstate, hsame⟩
        · obtain ⟨hinv, hend, hresult⟩ :=
            ih s' hs' (Nat.succ.inj hlength) t ht
          exact ⟨hinv, hend.trans hstate, htrans _ _ _ hresult hsame⟩

/-- After any number of crashed runs the next run ends as the uninterrupted run. -/
theorem survives (hp : Restartable Inv Same p) (hrefl : ∀ r, Same r r)
    (htrans : ∀ r r' r'', Same r r' → Same r' r'' → Same r r'') {s t : σ} (hs : Inv s)
    (h : Survives p s t) :
    Inv t ∧ (p t).state = (p s).state ∧ Same (p t).result (p s).result := by
  refine h.invariant
    (I := fun t => Inv t ∧ (p t).state = (p s).state ∧ Same (p t).result (p s).result) ?_
    ⟨hs, rfl, hrefl _⟩
  rintro u ⟨hu, hstate, hsame⟩ t ht
  obtain ⟨ht, hend, hresult⟩ := hp.crashed htrans _ u hu rfl t ht
  exact ⟨ht, hend.trans hstate, htrans _ _ _ hresult hsame⟩

end Restartable

end Durable

end StaticHostAgent.Library
