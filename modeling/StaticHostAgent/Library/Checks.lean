import Mathlib.Data.List.Chain
import Mathlib.Data.List.Induction
import Mathlib.Data.List.Perm.Basic
import Mathlib.Data.Bool.Basic
import Mathlib.Algebra.GroupWithZero.Nat
import Mathlib.Order.Lattice

/-!
# Checks that fail with an error

Inversion rules for sequences of checks in `Except`, and the meaning of a chained inequality
`a != b != c`, which compares neighbours only.
-/

set_option autoImplicit false

namespace StaticHostAgent.Library

variable {ε α β : Type}

/-- Go on if the condition holds, stop with the error otherwise. -/
def require (condition : Bool) (e : ε) : Except ε Unit :=
  if condition then .ok () else .error e

theorem require_eq_ok {condition : Bool} {e : ε} {u : Unit} :
    require condition e = .ok u ↔ condition = true := by
  cases condition <;> simp [require]

theorem require_true (e : ε) : require true e = .ok () := rfl

theorem require_false (e : ε) : require false e = .error e := rfl

/-- A check that is made only under a condition. -/
def checkIf (condition : Bool) (check : Except ε Unit) : Except ε Unit :=
  if condition then check else .ok ()

theorem checkIf_eq_ok {condition : Bool} {check : Except ε Unit} {u : Unit} :
    checkIf condition check = .ok u ↔ (condition = true → check = .ok u) := by
  cases condition <;> simp [checkIf]

/-- A sequence succeeds when both halves do. -/
theorem bind_eq_ok {x : Except ε α} {f : α → Except ε β} {b : β} :
    (x >>= f) = .ok b ↔ ∃ a, x = .ok a ∧ f a = .ok b := by
  cases x with
  | error e => simp [bind, Except.bind]
  | ok a => simp [bind, Except.bind]

theorem ok_bind (a : α) (f : α → Except ε β) : ((Except.ok a : Except ε α) >>= f) = f a := rfl

theorem error_bind (e : ε) (f : α → Except ε β) :
    ((Except.error e : Except ε α) >>= f) = .error e := rfl

theorem pure_eq_ok {a b : α} : (pure a : Except ε α) = .ok b ↔ a = b := by
  show Except.ok a = Except.ok b ↔ a = b
  exact ⟨fun h => Except.ok.inj h, fun h => congrArg _ h⟩

/-- Change the error of a computation. -/
def mapError {ε' : Type} (g : ε → ε') : Except ε α → Except ε' α
  | .ok a => .ok a
  | .error e => .error (g e)

theorem mapError_eq_ok {ε' : Type} {g : ε → ε'} {x : Except ε α} {a : α} :
    mapError g x = .ok a ↔ x = .ok a := by
  cases x <;> simp [mapError]

/-- A check of every element succeeds when each of them does. -/
theorem forM_eq_ok {f : α → Except ε Unit} {xs : List α} {u : Unit} :
    xs.forM f = .ok u ↔ ∀ x ∈ xs, f x = .ok u := by
  induction xs with
  | nil => exact iff_of_true rfl fun x hx => nomatch hx
  | cons x xs ih =>
      rw [show (x :: xs).forM f = (f x >>= fun _ => xs.forM f) from rfl, bind_eq_ok,
        List.forall_mem_cons, ← ih]
      exact ⟨fun ⟨_, h⟩ => h, fun h => ⟨u, h⟩⟩

/-- Reading every element of a list, where a value read tells the element it was read for. -/
theorem mapM_eq_ok {f : α → Except ε β} {key : β → α} (hkey : ∀ x y, f x = .ok y → key y = x)
    {xs : List α} {ys : List β} :
    xs.mapM f = .ok ys ↔ xs = ys.map key ∧ ∀ y ∈ ys, f (key y) = .ok y := by
  induction xs generalizing ys with
  | nil =>
      rw [List.mapM_nil, pure_eq_ok]
      constructor
      · rintro rfl
        exact ⟨rfl, fun y hy => nomatch hy⟩
      · rintro ⟨h, -⟩
        exact (List.map_eq_nil_iff.1 h.symm).symm
  | cons x xs ih =>
      rw [List.mapM_cons]
      simp only [bind_eq_ok, pure_eq_ok, ih]
      constructor
      · rintro ⟨y, hy, zs, ⟨rfl, hzs⟩, rfl⟩
        have hx := hkey x y hy
        refine ⟨by rw [List.map_cons, hx], fun z hz => ?_⟩
        rcases List.mem_cons.1 hz with rfl | hz
        · rw [hx]
          exact hy
        · exact hzs z hz
      · rintro ⟨hxs, hys⟩
        cases ys with
        | nil => cases hxs
        | cons y zs =>
            obtain ⟨rfl, rfl⟩ := List.cons.inj hxs
            exact ⟨y, hys y List.mem_cons_self, zs,
              ⟨rfl, fun z hz => hys z (List.mem_cons_of_mem y hz)⟩, rfl⟩

/-- A traversal succeeds when every element does. -/
theorem mapM_eq_ok_iff {f : α → Except ε β} {xs : List α} :
    ∀ {ys : List β}, xs.mapM f = .ok ys ↔ List.Forall₂ (fun x y => f x = .ok y) xs ys := by
  induction xs with
  | nil =>
      intro ys
      rw [List.mapM_nil, pure_eq_ok, List.forall₂_nil_left_iff]
      exact eq_comm
  | cons x xs ih =>
      intro ys
      rw [List.mapM_cons, bind_eq_ok, List.forall₂_cons_left_iff]
      constructor
      · rintro ⟨y, hy, h⟩
        obtain ⟨rest, hrest, h⟩ := bind_eq_ok.1 h
        exact ⟨y, rest, hy, ih.1 hrest, (pure_eq_ok.1 h).symm⟩
      · rintro ⟨y, rest, hy, hrest, rfl⟩
        exact ⟨y, hy, bind_eq_ok.2 ⟨rest, ih.2 hrest, rfl⟩⟩

theorem mapM_concat_eq_ok {f : α → Except ε β} {xs : List α} {x : α} {zs : List β} :
    (xs ++ [x]).mapM f = .ok zs ↔
      ∃ ys y, xs.mapM f = .ok ys ∧ f x = .ok y ∧ zs = ys ++ [y] := by
  have hlast : ∀ {ys : List β}, [x].mapM f = .ok ys ↔ ∃ y, f x = .ok y ∧ ys = [y] := by
    intro ys
    rw [List.mapM_cons, bind_eq_ok]
    constructor
    · rintro ⟨y, hy, hrest⟩
      exact ⟨y, hy, (pure_eq_ok.1 hrest).symm⟩
    · rintro ⟨y, hy, rfl⟩
      exact ⟨y, hy, rfl⟩
  rw [List.mapM_append, bind_eq_ok]
  constructor
  · rintro ⟨ys, hys, hrest⟩
    obtain ⟨last, hx, hzs⟩ := bind_eq_ok.1 hrest
    obtain ⟨y, hy, rfl⟩ := hlast.1 hx
    exact ⟨ys, y, hys, hy, (pure_eq_ok.1 hzs).symm⟩
  · rintro ⟨ys, y, hys, hy, rfl⟩
    exact ⟨ys, hys, bind_eq_ok.2 ⟨[y], hlast.2 ⟨y, hy, rfl⟩, rfl⟩⟩

/-- A traversal that only checks its elements returns them. -/
theorem mapM_check_eq_ok_iff {f : α → Except ε α} {Valid : α → Prop}
    (hf : ∀ x y, f x = .ok y ↔ x = y ∧ Valid x) {xs : List α} :
    ∀ {ys : List α}, xs.mapM f = .ok ys ↔ ys = xs ∧ ∀ x ∈ xs, Valid x := by
  intro ys
  rw [mapM_eq_ok_iff]
  simp only [hf]
  constructor
  · intro h
    induction h with
    | nil => exact ⟨rfl, fun x hx => (nomatch hx)⟩
    | cons hxy _ ih =>
        obtain ⟨rfl, hvalid⟩ := hxy
        obtain ⟨rfl, hall⟩ := ih
        exact ⟨rfl, List.forall_mem_cons.2 ⟨hvalid, hall⟩⟩
  · rintro ⟨rfl, hall⟩
    exact List.forall₂_same.2 fun x hx => ⟨rfl, hall x hx⟩

/-- A traversal of rearranged elements gives the rearranged values. -/
theorem mapM_perm {f : α → Except ε β} {xs xs' : List α} (hperm : xs.Perm xs') :
    ∀ {ys : List β}, xs.mapM f = .ok ys → ∃ ys', xs'.mapM f = .ok ys' ∧ ys.Perm ys' := by
  intro ys h
  rw [mapM_eq_ok_iff] at h
  obtain ⟨ys', hys, h'⟩ := List.perm_comp_forall₂ hperm.symm h
  exact ⟨ys', mapM_eq_ok_iff.2 hys, h'.symm⟩

/-- A fold over a concatenation succeeds when both parts do. -/
theorem foldlM_append_eq_ok {f : β → α → Except ε β} {xs ys : List α} {b c : β} :
    (xs ++ ys).foldlM f b = .ok c ↔ ∃ d, xs.foldlM f b = .ok d ∧ ys.foldlM f d = .ok c := by
  rw [List.foldlM_append, bind_eq_ok]

theorem foldlM_singleton {f : β → α → Except ε β} {x : α} {b c : β} :
    [x].foldlM f b = .ok c ↔ f b x = .ok c := by
  rw [List.foldlM_cons, bind_eq_ok]
  constructor
  · rintro ⟨d, hd, hc⟩
    rw [List.foldlM_nil, pure_eq_ok] at hc
    rw [hd, hc]
  · intro h
    exact ⟨c, h, by rw [List.foldlM_nil]; rfl⟩

/-- What holds at the start and is kept by every successful step, as a relation between the elements
seen and the accumulator, holds at the end of a successful fold. -/
theorem foldlM_invariant_mem {f : β → α → Except ε β} {P : List α → β → Prop} {init : β}
    {xs : List α} (start : P [] init)
    (step : ∀ seen x, x ∈ xs → ∀ b b', P seen b → f b x = .ok b' → P (seen ++ [x]) b') {out : β}
    (h : xs.foldlM f init = .ok out) : P xs out := by
  induction xs using List.reverseRecOn generalizing out with
  | nil =>
      rw [List.foldlM_nil, pure_eq_ok] at h
      exact h ▸ start
  | append_singleton xs x ih =>
      obtain ⟨b, hxs, hx⟩ := foldlM_append_eq_ok.1 h
      have hb := ih (fun seen y hy => step seen y (List.mem_append_left _ hy)) hxs
      exact step xs x (List.mem_append_right _ (List.mem_singleton_self x)) b out hb
        (foldlM_singleton.1 hx)

theorem foldlM_invariant {f : β → α → Except ε β} {P : List α → β → Prop} {init : β}
    (start : P [] init)
    (step : ∀ seen x b b', P seen b → f b x = .ok b' → P (seen ++ [x]) b') {xs : List α} {out : β}
    (h : xs.foldlM f init = .ok out) : P xs out :=
  foldlM_invariant_mem start (fun seen x _ => step seen x) h

/-- Two successful folds over one list keep a relation that their steps keep. -/
theorem foldlM_related {γ : Type} {f : β → α → Except ε β} {g : γ → α → Except ε γ}
    {R : β → γ → Prop}
    (step : ∀ x b c b' c', R b c → f b x = .ok b' → g c x = .ok c' → R b' c') {xs : List α}
    {b b' : β} {c c' : γ} (start : R b c) (hf : xs.foldlM f b = .ok b')
    (hg : xs.foldlM g c = .ok c') : R b' c' := by
  induction xs generalizing b c with
  | nil =>
      rw [List.foldlM_nil, pure_eq_ok] at hf hg
      rw [← hf, ← hg]
      exact start
  | cons x xs ih =>
      rw [List.foldlM_cons, bind_eq_ok] at hf hg
      obtain ⟨d, hd, hf⟩ := hf
      obtain ⟨e, he, hg⟩ := hg
      exact ih (step x b c d e start hd he) hf hg

/-- A fold succeeds when each of its steps follows a successful step of another fold. -/
theorem foldlM_simulated {γ : Type} {f : β → α → Except ε β} {g : γ → α → Except ε γ}
    {R : β → γ → Prop}
    (step : ∀ x b c b', R b c → f b x = .ok b' → ∃ c', g c x = .ok c' ∧ R b' c') {xs : List α}
    {b b' : β} {c : γ} (start : R b c) (hf : xs.foldlM f b = .ok b') :
    ∃ c', xs.foldlM g c = .ok c' ∧ R b' c' := by
  induction xs generalizing b c with
  | nil =>
      rw [List.foldlM_nil, pure_eq_ok] at hf
      exact ⟨c, rfl, hf ▸ start⟩
  | cons x xs ih =>
      rw [List.foldlM_cons, bind_eq_ok] at hf
      obtain ⟨d, hd, hf⟩ := hf
      obtain ⟨e, he, hrelated⟩ := step x b c d start hd
      obtain ⟨c', hc', hend⟩ := ih hrelated hf
      exact ⟨c', by rw [List.foldlM_cons, bind_eq_ok]; exact ⟨e, he, hc'⟩, hend⟩

/-- A fold whose steps commute, errors included, does not depend on the order of its list. -/
theorem foldlM_perm {f : β → α → Except ε β}
    (hcomm : ∀ b x y, (f b x >>= fun c => f c y) = (f b y >>= fun c => f c x)) {xs ys : List α}
    (hperm : xs.Perm ys) : ∀ b, xs.foldlM f b = ys.foldlM f b := by
  induction hperm with
  | nil => exact fun _ => rfl
  | cons x _ ih =>
      intro b
      rw [List.foldlM_cons, List.foldlM_cons]
      exact congrArg (f b x >>= ·) (funext ih)
  | swap x y zs =>
      intro b
      simp only [List.foldlM_cons]
      rw [← bind_assoc, ← bind_assoc, hcomm]
  | trans _ _ ih ih' => exact fun b => (ih b).trans (ih' b)

/-- The chained inequality `v₁ != v₂ != …`: every value differs from its neighbour. -/
def chainedNe [DecidableEq α] : List α → Bool
  | a :: b :: rest => decide (a ≠ b) && chainedNe (b :: rest)
  | _ => true

/-- One pair of equal neighbours makes a chained inequality false. -/
theorem chainedNe_eq_false_of_neighbours [DecidableEq α] (a : α) (before after : List α) :
    chainedNe (before ++ a :: a :: after) = false := by
  induction before with
  | nil => simp [chainedNe]
  | cons x before ih =>
      cases before with
      | nil =>
          rw [List.cons_append, List.nil_append, chainedNe]
          rw [List.nil_append] at ih
          rw [ih, Bool.and_false]
      | cons y before =>
          rw [List.cons_append, List.cons_append, chainedNe]
          rw [List.cons_append] at ih
          rw [ih, Bool.and_false]

end StaticHostAgent.Library
