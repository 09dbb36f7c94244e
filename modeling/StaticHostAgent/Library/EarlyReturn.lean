import StaticHostAgent.Library.Checks

/-!
# Loops that return early

A loop over a list whose body goes on with a state or ends the loop with a result. A loop over the
lists of a list, whose body is such a loop, is the loop over the flat list: where the list was cut
makes no difference.
-/

set_option autoImplicit false

namespace StaticHostAgent.Library

variable {ε α β ρ σ : Type}

/-- What the body of a loop says: return, or go on. -/
inductive Control (ρ σ : Type) where
  | finished (result : ρ)
  | running (state : σ)

/-- Run the body over the elements until it returns. -/
def loopUntil (body : σ → α → Except ε (Control ρ σ)) : List α → σ → Except ε (Control ρ σ)
  | [], state => .ok (.running state)
  | x :: xs, state =>
      match body state x with
      | .error e => .error e
      | .ok (.finished result) => .ok (.finished result)
      | .ok (.running state) => loopUntil body xs state

section Loop

variable {body : σ → α → Except ε (Control ρ σ)} {state : σ} {x : α} {xs : List α}

theorem loopUntil_error {e : ε} (h : body state x = .error e) :
    loopUntil body (x :: xs) state = .error e := by
  rw [loopUntil, h]

theorem loopUntil_finished {result : ρ} (h : body state x = .ok (.finished result)) :
    loopUntil body (x :: xs) state = .ok (.finished result) := by
  rw [loopUntil, h]

theorem loopUntil_running {next : σ} (h : body state x = .ok (.running next)) :
    loopUntil body (x :: xs) state = loopUntil body xs next := by
  rw [loopUntil, h]

end Loop

/-- A loop that is still running behind the first part goes on with the second. -/
theorem loopUntil_append (body : σ → α → Except ε (Control ρ σ)) (xs ys : List α) :
    ∀ state, loopUntil body (xs ++ ys) state =
      match loopUntil body xs state with
      | .error e => .error e
      | .ok (.finished result) => .ok (.finished result)
      | .ok (.running state) => loopUntil body ys state := by
  induction xs with
  | nil =>
      intro state
      rfl
  | cons x xs ih =>
      intro state
      rw [List.cons_append]
      cases hbody : body state x with
      | error e => rw [loopUntil_error hbody, loopUntil_error hbody]
      | ok control =>
          cases control with
          | finished result => rw [loopUntil_finished hbody, loopUntil_finished hbody]
          | running next => rw [loopUntil_running hbody, loopUntil_running hbody, ih next]

/-- A nested loop is the loop over the flat list. -/
theorem loopUntil_flatten (body : σ → α → Except ε (Control ρ σ)) (xss : List (List α)) :
    ∀ state, loopUntil (fun state xs => loopUntil body xs state) xss state =
      loopUntil body xss.flatten state := by
  induction xss with
  | nil =>
      intro state
      rfl
  | cons xs xss ih =>
      intro state
      rw [List.flatten_cons, loopUntil_append]
      cases hfirst : loopUntil body xs state with
      | error e => exact loopUntil_error hfirst
      | ok control =>
          cases control with
          | finished result => exact loopUntil_finished hfirst
          | running next => exact (loopUntil_running hfirst).trans (ih next)

/-- A body that does the same on corresponding elements makes the same loop. -/
theorem loopUntil_related {R : α → β → Prop} {f : σ → α → Except ε (Control ρ σ)}
    {g : σ → β → Except ε (Control ρ σ)} (hbody : ∀ state x y, R x y → f state x = g state y)
    {xs : List α} {ys : List β} (h : List.Forall₂ R xs ys) :
    ∀ state, loopUntil f xs state = loopUntil g ys state := by
  induction h with
  | nil =>
      intro state
      rfl
  | @cons x y xs ys hxy _ ih =>
      intro state
      have hsame := hbody state x y hxy
      cases hg : g state y with
      | error e => rw [loopUntil_error (hsame.trans hg), loopUntil_error hg]
      | ok control =>
          cases control with
          | finished result => rw [loopUntil_finished (hsame.trans hg), loopUntil_finished hg]
          | running next =>
              rw [loopUntil_running (hsame.trans hg), loopUntil_running hg, ih next]

theorem loopUntil_map (f : β → α) (body : σ → α → Except ε (Control ρ σ)) (ys : List β)
    (state : σ) :
    loopUntil body (ys.map f) state = loopUntil (fun state y => body state (f y)) ys state := by
  apply loopUntil_related (R := fun x y => x = f y)
  · intro state x y hxy
    rw [hxy]
  · exact List.forall₂_map_left_iff.2 (List.forall₂_same.2 fun _ _ => rfl)

/-- What a fold does on the way of another, successful one. -/
theorem foldlM_outcome {γ : Type} {f : σ → α → Except ε σ} {g : γ → α → Except ε γ}
    {T : List α → σ → Except ε γ → Prop} {state : σ} {c : γ} (start : T [] state (.ok c))
    (step : ∀ seen x, ∀ s s' r, T seen s r → f s x = .ok s' → T (seen ++ [x]) s' (r >>= (g · x)))
    {xs : List α} {out : σ} (h : xs.foldlM f state = .ok out) : T xs out (xs.foldlM g c) := by
  induction xs using List.reverseRecOn generalizing out with
  | nil =>
      rw [List.foldlM_nil, pure_eq_ok] at h
      rw [List.foldlM_nil, ← h]
      exact start
  | append_singleton xs x ih =>
      obtain ⟨s, hxs, hx⟩ := foldlM_append_eq_ok.1 h
      have hlast := step xs x s out _ (ih hxs) (foldlM_singleton.1 hx)
      have hfold : (xs ++ [x]).foldlM g c = (xs.foldlM g c >>= (g · x)) := by
        rw [List.foldlM_append]
        congr 1
        funext s
        rw [List.foldlM_cons]
        cases g s x <;> rfl
      rw [hfold]
      exact hlast

end StaticHostAgent.Library
