import StaticHostAgent.Library.Directory
import StaticHostAgent.Library.Handlers

/-!
# Write-once directories

A file of a write-once directory is created under a name that is free, then filled, and never
changed again. A crash between the two leaves a torn file behind for good. `Kept s t` says that the
files of `s` are still there in `t`, with the same content.

`Writes A s p Post` says that one run of `p` from `s` does nothing but create files, each admitted by
`A` in the state that it is created in. What every admitted creation preserves, every state on disk
satisfies (`Visits.invariant`).
-/

set_option autoImplicit false

namespace StaticHostAgent.Library

/-- The content of a file: what a crash left of it, or the whole record. -/
inductive Cell (R : Type) where
  | torn
  | complete (record : R)
  deriving DecidableEq

/-- A directory of write-once files. -/
abbrev WriteOnce (K R : Type) [LinearOrder K] : Type := Directory K (Cell R)

namespace WriteOnce

variable {K R ε α β : Type} [LinearOrder K] {s t u : WriteOnce K R} {k j : K} {record : R}

/-- Every file of `s` is in `t` with the same content. -/
def Kept (s t : WriteOnce K R) : Prop := ∀ k cell, s.find? k = some cell → t.find? k = some cell

namespace Kept

theorem refl (s : WriteOnce K R) : Kept s s := fun _ _ h => h

theorem trans (h : Kept s t) (h' : Kept t u) : Kept s u := fun k cell hs => h' k cell (h k cell hs)

theorem insert (h : s.find? k = none) (cell : Cell R) : Kept s (Directory.insert s k cell) := by
  intro j old hold
  rw [Directory.find?_insert_of_ne]
  · exact hold
  · rintro rfl
    rw [h] at hold
    cases hold

theorem isSome (h : Kept s t) (hs : (s.find? k).isSome = true) : (t.find? k).isSome = true := by
  obtain ⟨cell, hcell⟩ := Option.isSome_iff_exists.1 hs
  rw [h k cell hcell]
  rfl

end Kept

/-- Create the file under a free name and fill it. -/
def create (k : K) (record : R) (occupied : ε) : Durable (WriteOnce K R) ε Unit := do
  Durable.query fun s => require (s.find? k).isNone occupied
  Durable.effect fun s => Directory.insert s k .torn
  Durable.effect fun s => Directory.insert s k (.complete record)

/-! ## What admitted creations lead to -/

section Admitted

variable (A : WriteOnce K R → K → R → Prop)

/-- The states after any number of admitted creations. -/
inductive Grown (s : WriteOnce K R) : WriteOnce K R → Prop where
  | start : Grown s s
  | file {t : WriteOnce K R} {k : K} {record : R} (before : Grown s t) (free : t.find? k = none)
      (admitted : A t k record) : Grown s (Directory.insert t k (.complete record))

/-- The states on disk meanwhile: the last file may be torn. -/
inductive Visits (s : WriteOnce K R) : WriteOnce K R → Prop where
  | between {t : WriteOnce K R} (before : Grown A s t) : Visits s t
  | inside {t : WriteOnce K R} {k : K} {record : R} (before : Grown A s t)
      (free : t.find? k = none) (admitted : A t k record) : Visits s (Directory.insert t k .torn)

end Admitted

variable {A : WriteOnce K R → K → R → Prop}

namespace Grown

theorem trans (h : Grown A s t) (h' : Grown A t u) : Grown A s u := by
  induction h' with
  | start => exact h
  | file _ free admitted ih => exact .file ih free admitted

theorem kept (h : Grown A s t) : Kept s t := by
  induction h with
  | start => exact Kept.refl s
  | file _ free _ ih => exact ih.trans (Kept.insert free _)

/-- What an admitted creation preserves, torn or complete. -/
theorem invariant {I : WriteOnce K R → Prop}
    (step : ∀ t k record, I t → t.find? k = none → A t k record →
      I (Directory.insert t k .torn) ∧ I (Directory.insert t k (.complete record)))
    (h : Grown A s t) (hs : I s) : I t := by
  induction h with
  | start => exact hs
  | file _ free admitted ih => exact (step _ _ _ ih free admitted).2

end Grown

namespace Visits

theorem after (h : Grown A s t) (h' : Visits A t u) : Visits A s u := by
  cases h' with
  | between before => exact .between (h.trans before)
  | inside before free admitted => exact .inside (h.trans before) free admitted

theorem kept (h : Visits A s t) : Kept s t := by
  cases h with
  | between before => exact before.kept
  | inside before free _ => exact before.kept.trans (Kept.insert free _)

theorem invariant {I : WriteOnce K R → Prop}
    (step : ∀ t k record, I t → t.find? k = none → A t k record →
      I (Directory.insert t k .torn) ∧ I (Directory.insert t k (.complete record)))
    (h : Visits A s t) (hs : I s) : I t := by
  cases h with
  | between before => exact before.invariant step hs
  | inside before free admitted => exact (step _ _ _ (before.invariant step hs) free admitted).1

/-- A file that was not there at the start was admitted on the way. -/
theorem origin (h : Visits A s t) (hs : s.find? k = none)
    (ht : t.find? k = some (.complete record)) :
    ∃ u, Grown A s u ∧ u.find? k = none ∧ A u k record := by
  have hgrown : ∀ {v : WriteOnce K R}, Grown A s v → v.find? k = some (.complete record) →
      ∃ u, Grown A s u ∧ u.find? k = none ∧ A u k record := by
    intro v hv
    induction hv with
    | start =>
        intro hfound
        rw [hs] at hfound
        cases hfound
    | @file v j other before free admitted ih =>
        intro hfound
        by_cases hj : k = j
        · subst hj
          rw [Directory.find?_insert_self] at hfound
          cases hfound
          exact ⟨v, before, free, admitted⟩
        · rw [Directory.find?_insert_of_ne _ hj] at hfound
          exact ih hfound
  cases h with
  | between before => exact hgrown before ht
  | @inside v j other before free admitted =>
      by_cases hj : k = j
      · subst hj
        rw [Directory.find?_insert_self] at ht
        cases ht
      · rw [Directory.find?_insert_of_ne _ hj] at ht
        exact hgrown before ht

end Visits

/-! ## Programs that only create admitted files -/

/-- One run creates admitted files only, and a success satisfies `Post`. -/
def Writes (A : WriteOnce K R → K → R → Prop) (s : WriteOnce K R)
    (p : Durable (WriteOnce K R) ε α) (Post : α → WriteOnce K R → Prop) : Prop :=
  Durable.Spec s p (Visits A s) (fun a t => Grown A s t ∧ Post a t) fun _ t => Grown A s t

namespace Writes

variable {Post : α → WriteOnce K R → Prop} {p : Durable (WriteOnce K R) ε α}

theorem pure {a : α} (h : Post a s) : Writes A s (Pure.pure a : Durable (WriteOnce K R) ε α) Post :=
  Durable.Spec.pure ⟨.start, h⟩

theorem query {f : WriteOnce K R → Except ε α} (h : ∀ a, f s = .ok a → Post a s) :
    Writes A s (Durable.query f) Post :=
  Durable.Spec.query (fun a ha => ⟨.start, h a ha⟩) fun _ _ => .start

theorem query_bind {f : WriteOnce K R → Except ε β} {g : β → Durable (WriteOnce K R) ε α}
    (h : ∀ b, f s = .ok b → Writes A s (g b) Post) : Writes A s (Durable.query f >>= g) Post :=
  Durable.Spec.query_bind (fun _ _ => .start) h

theorem bind {q : Durable (WriteOnce K R) ε β} {g : β → Durable (WriteOnce K R) ε α}
    {M : β → WriteOnce K R → Prop} (hq : Writes A s q M)
    (hg : ∀ b t, Grown A s t → M b t → Writes A t (g b) Post) : Writes A s (q >>= g) Post := by
  refine Durable.Spec.bind hq fun b t ⟨hgrown, hm⟩ => ?_
  apply (hg b t hgrown hm).weaken
  · intro u hu
    exact hu.after hgrown
  · rintro a u ⟨hu, hpost⟩
    exact ⟨hgrown.trans hu, hpost⟩
  · intro e u hu
    exact hgrown.trans hu

theorem when {condition : Bool} {q : Durable (WriteOnce K R) ε Unit}
    {M : Unit → WriteOnce K R → Prop} (hq : condition = true → Writes A s q M)
    (hskip : condition = false → M () s) : Writes A s (Durable.when condition q) M :=
  Durable.Spec.when hq fun h => ⟨.start, hskip h⟩

theorem weaken {Post' : α → WriteOnce K R → Prop} (h : Writes A s p Post)
    (hpost : ∀ a t, Post a t → Post' a t) : Writes A s p Post' :=
  Durable.Spec.weaken h (fun _ ht => ht) (fun a t ⟨ht, hp⟩ => ⟨ht, hpost a t hp⟩) fun _ _ ht => ht

theorem create {occupied : ε} (h : s.find? k = none → A s k record) :
    Writes A s (create k record occupied) fun _ t =>
      s.find? k = none ∧ t = Directory.insert s k (.complete record) := by
  refine Durable.Spec.query_bind (fun _ _ => .start) fun _ hfree => ?_
  have free := Option.isNone_iff_eq_none.1 (require_eq_ok.1 hfree)
  have admitted := h free
  refine Durable.Spec.bind
    (M := fun _ t => t = Directory.insert s k .torn) ?_ ?_
  · exact Durable.Spec.effect (.inside .start free admitted) rfl
  · rintro _ t rfl
    have hfilled : Directory.insert (Directory.insert s k .torn) k (.complete record) =
        Directory.insert s k (.complete record) := Directory.insert_insert s k _ _
    apply Durable.Spec.effect
    · rw [hfilled]
      exact .between (.file .start free admitted)
    · rw [hfilled]
      exact ⟨.file .start free admitted, free, rfl⟩

/-- Whatever a run leaves behind, when it ends or crashes, was visited. -/
theorem crashed (h : Writes A s p Post) {t : WriteOnce K R} (ht : Durable.Crashed p s t) :
    Visits A s t := by
  rcases ht with rfl | ht
  · exact .between .start
  · exact h.visited t ht

theorem ended (h : Writes A s p Post) : Grown A s (p s).state := by
  cases hresult : (p s).result with
  | ok a => exact (h.post a hresult).1
  | error e => exact h.raised e hresult

end Writes

end WriteOnce

end StaticHostAgent.Library
