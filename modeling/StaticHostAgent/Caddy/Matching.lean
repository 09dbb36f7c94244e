import Mathlib.Data.List.Basic
import Mathlib.Data.List.Forall2
import Mathlib.Algebra.GroupWithZero.Nat
import Mathlib.Order.Lattice

/-!
# How Caddy matches requests

The part of Caddy's HTTP routing that the generated configuration rests on. A
route has matchers, of which one must hold; a matcher may ask for a host, a
method, a path and an empty query. Hosts are compared without regard to case,
and in a host pattern a label `*` stands for any one label. Routes are tried in
their order and a terminal route ends the search.
-/

set_option autoImplicit false

namespace StaticHostAgent.Caddy

/-- Characters of the host names that the configuration holds. -/
def hostCharacter (c : Char) : Bool :=
  ('a' ≤ c && c ≤ 'z') || ('0' ≤ c && c ≤ '9') || c == '-' || c == '.'

/-- Unicode case folding, by a representative of each class: the characters of
host names represent their own class, and nothing but the dot folds to the dot. -/
structure HostFolding where
  fold : Char → Char
  plain : ∀ c, hostCharacter c = true → fold c = c
  dot : ∀ c, fold c = '.' → c = '.'

/-- A text without regard to case. -/
def HostFolding.text (f : HostFolding) (text : List Char) : List Char := text.map f.fold

structure Request where
  host : String
  method : String
  path : String
  query : String

/-- A matcher set of a route. `query` is the empty query object, which only an
empty query string matches. -/
structure Matcher where
  host : List String
  method : Option (List String)
  path : Option (List String)
  query : Bool
  deriving DecidableEq

/-- A response status, or the placeholder of the error being handled. -/
inductive StatusCode where
  | code (status : Nat)
  | placeholder (text : String)
  deriving DecidableEq

/-- The handlers that the configuration uses. -/
inductive Handler where
  | requestHeaders (delete : List String)
  | responseHeaders (deferred : Bool) (delete : List String) (set : List (String × List String))
  | vars (root : String)
  | fileServer
  | staticResponse (body : String) (headers : List (String × List String)) (status : StatusCode)
  deriving DecidableEq

/-- One route; without matchers it matches everything. -/
structure Route where
  handle : List Handler
  matchers : List Matcher
  terminal : Bool
  deriving DecidableEq

section Evaluation

variable (f : HostFolding)

def labels (host : List Char) : List (List Char) := host.splitOn '.'

def labelMatches (pattern label : List Char) : Bool :=
  pattern == ['*'] || f.text pattern == f.text label

/-- A host pattern matches by its labels if it has a wildcard, else as a whole. -/
def hostMatches (pattern host : String) : Bool :=
  if '*' ∈ pattern.toList then
    decide (List.Forall₂ (fun p l => labelMatches f p l = true) (labels pattern.toList)
      (labels host.toList))
  else f.text pattern.toList == f.text host.toList

def Matcher.accepts (matcher : Matcher) (request : Request) : Bool :=
  matcher.host.any (fun pattern => hostMatches f pattern request.host) &&
    matcher.method.all (fun methods => decide (request.method ∈ methods)) &&
    matcher.path.all (fun paths => decide (request.path ∈ paths)) &&
    (!matcher.query || request.query == "")

def Route.accepts (route : Route) (request : Request) : Bool :=
  route.matchers.isEmpty || route.matchers.any fun matcher => matcher.accepts f request

/-- The route that answers a request, where all routes are terminal. -/
def firstMatch (routes : List Route) (request : Request) : Option Route :=
  routes.find? fun route => route.accepts f request

end Evaluation

/-! ## Hosts as folded texts -/

section Hosts

variable {f : HostFolding}

theorem HostFolding.text_plain {text : List Char} (hplain : ∀ c ∈ text, hostCharacter c = true) :
    f.text text = text := by
  unfold HostFolding.text
  conv_rhs => rw [← List.map_id text]
  refine List.map_congr_left ?_
  intro c hc
  exact f.plain c (hplain c hc)

/-- A pattern without wildcard matches the hosts that fold to it. -/
theorem hostMatches_plain {pattern host : String}
    (hplain : ∀ c ∈ pattern.toList, hostCharacter c = true) :
    hostMatches f pattern host = true ↔ f.text host.toList = pattern.toList := by
  have hstar : '*' ∉ pattern.toList := by
    intro hmem
    have := hplain '*' hmem
    exact absurd this (by decide)
  unfold hostMatches
  rw [if_neg hstar, HostFolding.text_plain hplain, beq_iff_eq]
  exact eq_comm

theorem labels_of_not_mem {host : List Char} (h : '.' ∉ host) : labels host = [host] := by
  refine List.splitOnP_eq_singleton ?_
  intro c hc
  rw [beq_eq_false_iff_ne]
  rintro rfl
  exact h hc

theorem labels_cons {label host : List Char} (h : '.' ∉ label) :
    labels (label ++ '.' :: host) = label :: labels host := by
  refine List.splitOnP_append_cons_of_forall_mem ?_ '.' (by rfl) host
  intro c hc
  rw [beq_eq_false_iff_ne]
  rintro rfl
  exact h hc

theorem labels_injective : Function.Injective labels := by
  intro a b h
  have hjoin := congrArg (List.intercalate ['.']) h
  rwa [labels, labels, List.intercalate_splitOn, List.intercalate_splitOn] at hjoin

/-- Induction over the labels of a host. -/
theorem host_induction {P : List Char → Prop} (single : ∀ label, '.' ∉ label → P label)
    (cons : ∀ label rest, '.' ∉ label → P rest → P (label ++ '.' :: rest)) (host : List Char) :
    P host := by
  suffices h : ∀ n (host : List Char), host.length ≤ n → P host from h _ host (Nat.le_refl _)
  intro n
  induction n with
  | zero =>
      intro host hlength
      obtain rfl := List.length_eq_zero_iff.mp (Nat.le_zero.mp hlength)
      exact single [] (by simp)
  | succ n ih =>
      intro host hlength
      by_cases h : '.' ∈ host
      · obtain ⟨label, rest, rfl, hlabel⟩ := List.eq_append_cons_of_mem h
        refine cons label rest hlabel (ih rest ?_)
        simp only [List.length_append, List.length_cons] at hlength
        omega
      · exact single host h

/-- Labels have no dot and hold characters of their host only. -/
theorem mem_of_mem_labels {host piece : List Char} (h : piece ∈ labels host) :
    '.' ∉ piece ∧ ∀ c ∈ piece, c ∈ host := by
  induction host using host_induction with
  | single label hlabel =>
      rw [labels_of_not_mem hlabel, List.mem_singleton] at h
      rw [h]
      exact ⟨hlabel, fun c hc => hc⟩
  | cons label rest hlabel ih =>
      rw [labels_cons hlabel] at h
      rcases List.mem_cons.mp h with rfl | h
      · exact ⟨hlabel, fun c hc => List.mem_append_left _ hc⟩
      · refine ⟨(ih h).1, fun c hc => List.mem_append_right _ ?_⟩
        exact List.mem_cons_of_mem _ ((ih h).2 c hc)

theorem dot_mem_text {text : List Char} : '.' ∈ f.text text ↔ '.' ∈ text := by
  unfold HostFolding.text
  rw [List.mem_map]
  constructor
  · rintro ⟨c, hc, hfold⟩
    rwa [f.dot c hfold] at hc
  · intro h
    exact ⟨'.', h, f.plain '.' (by decide)⟩

/-- Folding commutes with cutting a host into labels. -/
theorem labels_text (host : List Char) : labels (f.text host) = (labels host).map f.text := by
  induction host using host_induction with
  | single label hlabel =>
      rw [labels_of_not_mem hlabel, labels_of_not_mem (fun h => hlabel (dot_mem_text.mp h))]
      rfl
  | cons label rest hlabel ih =>
      have hdot : f.fold '.' = '.' := f.plain '.' (by decide)
      have htext : f.text (label ++ '.' :: rest) = f.text label ++ '.' :: f.text rest := by
        simp [HostFolding.text, hdot]
      rw [htext, labels_cons (fun h => hlabel (dot_mem_text.mp h)), labels_cons hlabel, ih,
        List.map_cons]

/-- Labels without wildcards match the labels that fold to them. -/
theorem labelMatches_all {pieces : List (List Char)} :
    ∀ {found : List (List Char)},
      (∀ piece ∈ pieces, ∀ c ∈ piece, hostCharacter c = true) →
        (List.Forall₂ (fun p l => labelMatches f p l = true) pieces found ↔
          found.map f.text = pieces) := by
  induction pieces with
  | nil =>
      intro found _
      rw [List.forall₂_nil_left_iff, List.map_eq_nil_iff]
  | cons piece pieces ih =>
      intro found hplain
      have hpiece : piece ≠ ['*'] := by
        rintro rfl
        exact absurd (hplain ['*'] (by simp) '*' (by simp)) (by decide)
      have hrest := fun found => @ih found (fun p hp => hplain p (by simp [hp]))
      rw [List.forall₂_cons_left_iff]
      constructor
      · rintro ⟨label, rest, hlabel, hmatch, rfl⟩
        rw [labelMatches, Bool.or_eq_true, beq_iff_eq, beq_iff_eq] at hlabel
        have hfold := hlabel.resolve_left hpiece
        rw [HostFolding.text_plain (hplain piece (by simp))] at hfold
        rw [List.map_cons, (hrest rest).mp hmatch, hfold]
      · intro h
        obtain ⟨label, rest, rfl, hlabel, hmatch⟩ := List.map_eq_cons_iff.mp h
        refine ⟨label, rest, ?_, (hrest rest).mpr hmatch, rfl⟩
        rw [labelMatches, HostFolding.text_plain (hplain piece (by simp)), hlabel]
        simp

/-- A wildcard pattern matches the hosts with one label before its domain. -/
theorem hostMatches_wildcard {domain host : String}
    (hplain : ∀ c ∈ domain.toList, hostCharacter c = true) :
    hostMatches f ("*." ++ domain) host = true ↔
      ∃ label, '.' ∉ label ∧ f.text host.toList = label ++ '.' :: domain.toList := by
  have hpattern : ("*." ++ domain).toList = ['*'] ++ '.' :: domain.toList := by
    rw [String.toList_append]
    rfl
  have hlabels : labels (['*'] ++ '.' :: domain.toList) = ['*'] :: labels domain.toList :=
    labels_cons (by decide)
  have hdomain : ∀ piece ∈ labels domain.toList, ∀ c ∈ piece, hostCharacter c = true :=
    fun piece hpiece c hc => hplain c ((mem_of_mem_labels hpiece).2 c hc)
  have hfolded := labels_text (f := f) host.toList
  unfold hostMatches
  rw [hpattern, if_pos (by simp), decide_eq_true_iff, hlabels, List.forall₂_cons_left_iff]
  constructor
  · rintro ⟨first, rest, _, hmatch, hhost⟩
    rw [labelMatches_all hdomain] at hmatch
    have hfirst : '.' ∉ f.text first := by
      rw [dot_mem_text]
      exact (mem_of_mem_labels (hhost ▸ List.mem_cons_self)).1
    refine ⟨f.text first, hfirst, labels_injective ?_⟩
    rw [hfolded, hhost, List.map_cons, hmatch, labels_cons hfirst]
  · rintro ⟨label, hlabel, htext⟩
    rw [htext, labels_cons hlabel] at hfolded
    obtain ⟨first, rest, hhost, _, hmatch⟩ := List.map_eq_cons_iff.mp hfolded.symm
    exact ⟨first, rest, by simp [labelMatches], (labelMatches_all hdomain).mpr hmatch, hhost⟩

end Hosts

end StaticHostAgent.Caddy
