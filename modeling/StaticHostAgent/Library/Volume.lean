import StaticHostAgent.Library.Directory

/-!
# A directory on a volume that can lose power

A `Volume` is one directory with its inodes. A change of the names is atomic and takes effect at
once; until the directory is synced a power loss may bring back any directory since the last sync.
A change of an inode is kept for certain once the inode is synced; before that a power loss leaves
any data and one of the modes it had. A process that dies loses nothing.
-/

set_option autoImplicit false

namespace StaticHostAgent.Library

inductive FileKind where
  | regular
  | directory
  | special
  deriving DecidableEq

/-- An inode, with the links to it from other directories and the modes it had since it was last
synced. -/
structure Inode where
  kind : FileKind
  owner : ℕ
  mode : ℕ
  elsewhere : ℕ
  data : List UInt8
  earlierModes : List ℕ
  synced : Bool
  deriving DecidableEq

namespace Inode

def chmod (mode : ℕ) (node : Inode) : Inode :=
  { node with mode, earlierModes := node.mode :: node.earlierModes, synced := false }

def append (chunk : List UInt8) (node : Inode) : Inode :=
  { node with data := node.data ++ chunk, synced := false }

def sync (node : Inode) : Inode := { node with earlierModes := [], synced := true }

/-- What a power loss makes of an inode. -/
inductive Survives : Inode → Inode → Prop
  | synced {node : Inode} (h : node.synced = true) : Survives node node
  | unsynced {node : Inode} (mode : ℕ) (data : List UInt8) (h : node.synced = false)
      (hmode : mode ∈ node.mode :: node.earlierModes) :
      Survives node { node with mode, data, earlierModes := [], synced := true }

namespace Survives

variable {a b c : Inode}

theorem synced_after (h : Survives a b) : b.synced = true := by
  cases h with
  | synced h => exact h
  | unsynced => rfl

theorem eq_of_synced (h : Survives a b) (ha : a.synced = true) : b = a := by
  cases h with
  | synced => rfl
  | unsynced _ _ hb => rw [ha] at hb; cases hb

theorem trans (h : Survives a b) (h' : Survives b c) : Survives a c := by
  rw [h'.eq_of_synced h.synced_after]
  exact h

theorem kind_eq (h : Survives a b) : b.kind = a.kind := by cases h <;> rfl

theorem owner_eq (h : Survives a b) : b.owner = a.owner := by cases h <;> rfl

theorem elsewhere_eq (h : Survives a b) : b.elsewhere = a.elsewhere := by cases h <;> rfl

end Survives

end Inode

/-- One directory of a volume: its inodes by number, its names, and the directories that a power
loss may bring back instead. Every name leads to an inode. -/
structure Volume (K : Type) [LinearOrder K] where
  inodes : List Inode
  current : Directory K ℕ
  earlier : List (Directory K ℕ)
  bound : ∀ d ∈ current :: earlier, ∀ name i, d.find? name = some i → i < inodes.length

namespace Volume

variable {K : Type} [LinearOrder K]

theorem ext {v w : Volume K} (hinodes : v.inodes = w.inodes) (hcurrent : v.current = w.current)
    (hearlier : v.earlier = w.earlier) : v = w := by
  cases v
  cases w
  subst hinodes hcurrent hearlier
  rfl

/-- The inode that a name leads to. -/
def file? (v : Volume K) (name : K) : Option Inode :=
  (v.current.find? name).bind fun i => v.inodes[i]?

/-- The links to an inode, from this directory and from others. -/
def links (v : Volume K) (i : ℕ) : ℕ :=
  ((v.inodes[i]?).elim 0 Inode.elsewhere) + v.current.total fun _ j => if j = i then 1 else 0

theorem file?_eq_none {v : Volume K} {name : K} :
    v.file? name = none ↔ v.current.find? name = none := by
  unfold file?
  cases h : v.current.find? name with
  | none => simp
  | some i => simpa using v.bound v.current List.mem_cons_self name i h

theorem file?_congr {v w : Volume K} {name : K}
    (hname : v.current.find? name = w.current.find? name)
    (hinode : ∀ i, w.current.find? name = some i → v.inodes[i]? = w.inodes[i]?) :
    v.file? name = w.file? name := by
  unfold file?
  rw [hname]
  cases h : w.current.find? name with
  | none => rfl
  | some i => exact hinode i h

/-- The volume with only the kept names. -/
def restrict (v : Volume K) (keep : K → Bool) : Volume K where
  inodes := v.inodes
  current := v.current.restrict keep
  earlier := []
  bound := by
    intro d hd name i hi
    rw [List.mem_singleton.1 hd, Directory.find?_restrict] at hi
    split at hi
    · exact v.bound v.current List.mem_cons_self name i hi
    · cases hi

theorem file?_restrict (v : Volume K) (keep : K → Bool) (name : K) :
    (v.restrict keep).file? name = if keep name then v.file? name else none := by
  unfold file? restrict
  simp only [Directory.find?_restrict]
  cases keep name <;> rfl

/-- Bind an unused name to a new inode. -/
def create (v : Volume K) (name : K) (node : Inode) : Volume K where
  inodes := v.inodes ++ [node]
  current := v.current.insert name v.inodes.length
  earlier := v.current :: v.earlier
  bound := by
    intro d hd name' i hi
    rw [List.length_append, List.length_singleton]
    rcases List.mem_cons.1 hd with rfl | hd
    · by_cases hname : name' = name
      · rw [hname, Directory.find?_insert_self, Option.some.injEq] at hi
        omega
      · rw [Directory.find?_insert_of_ne _ hname] at hi
        have := v.bound v.current List.mem_cons_self name' i hi
        omega
    · have := v.bound d hd name' i hi
      omega

/-- Change an inode. -/
def modify (v : Volume K) (i : ℕ) (f : Inode → Inode) : Volume K where
  inodes := v.inodes.modify i f
  current := v.current
  earlier := v.earlier
  bound := by
    intro d hd name j hj
    rw [List.length_modify]
    exact v.bound d hd name j hj

/-- Change the names. -/
def rebind (v : Volume K) (d : Directory K ℕ)
    (hd : ∀ name i, d.find? name = some i → i < v.inodes.length) : Volume K where
  inodes := v.inodes
  current := d
  earlier := v.current :: v.earlier
  bound := by
    intro d' hd'
    rcases List.mem_cons.1 hd' with rfl | hd'
    · exact hd
    · exact v.bound d' hd'

/-- Take a name away. -/
def unlink (v : Volume K) (name : K) : Volume K :=
  v.rebind (v.current.erase name) (by
    intro name' i hi
    by_cases hname : name' = name
    · rw [hname, Directory.find?_erase_self] at hi
      cases hi
    · rw [Directory.find?_erase_of_ne _ hname] at hi
      exact v.bound v.current List.mem_cons_self name' i hi)

/-- Move a name, taking the place of what `destination` led to. -/
def rename (v : Volume K) (source destination : K) : Volume K :=
  match h : v.current.find? source with
  | none => v
  | some i => v.rebind ((v.current.erase source).insert destination i) (by
      intro name j hj
      by_cases hname : name = destination
      · rw [hname, Directory.find?_insert_self, Option.some.injEq] at hj
        exact hj ▸ v.bound v.current List.mem_cons_self source i h
      · rw [Directory.find?_insert_of_ne _ hname] at hj
        by_cases hsource : name = source
        · rw [hsource, Directory.find?_erase_self] at hj
          cases hj
        · rw [Directory.find?_erase_of_ne _ hsource] at hj
          exact v.bound v.current List.mem_cons_self name j hj)

/-- Write the names out. -/
def syncDirectory (v : Volume K) : Volume K where
  inodes := v.inodes
  current := v.current
  earlier := []
  bound := by
    intro d hd
    rw [List.mem_singleton.1 hd]
    exact v.bound v.current List.mem_cons_self

@[simp] theorem create_inodes (v : Volume K) (name : K) (node : Inode) :
    (v.create name node).inodes = v.inodes ++ [node] := rfl

@[simp] theorem create_current (v : Volume K) (name : K) (node : Inode) :
    (v.create name node).current = v.current.insert name v.inodes.length := rfl

@[simp] theorem create_earlier (v : Volume K) (name : K) (node : Inode) :
    (v.create name node).earlier = v.current :: v.earlier := rfl

@[simp] theorem unlink_current (v : Volume K) (name : K) :
    (v.unlink name).current = v.current.erase name := rfl

@[simp] theorem unlink_earlier (v : Volume K) (name : K) :
    (v.unlink name).earlier = v.current :: v.earlier := rfl

@[simp] theorem syncDirectory_inodes (v : Volume K) : v.syncDirectory.inodes = v.inodes := rfl

@[simp] theorem syncDirectory_current (v : Volume K) : v.syncDirectory.current = v.current := rfl

@[simp] theorem syncDirectory_earlier (v : Volume K) : v.syncDirectory.earlier = [] := rfl

theorem rename_eq {v : Volume K} {source destination : K} {i : ℕ}
    (h : v.current.find? source = some i) :
    (v.rename source destination).inodes = v.inodes ∧
      (v.rename source destination).current = (v.current.erase source).insert destination i ∧
      (v.rename source destination).earlier = v.current :: v.earlier := by
  unfold rename
  split
  · rename_i hnone
    rw [h] at hnone
    cases hnone
  · rename_i j hj
    rw [h, Option.some.injEq] at hj
    subst hj
    exact ⟨rfl, rfl, rfl⟩

/-- New inodes do not change what an old name leads to. -/
theorem file?_of_extends {v w : Volume K} {tail : List Inode} {name : K}
    (hinodes : w.inodes = v.inodes ++ tail)
    (hname : w.current.find? name = v.current.find? name) : w.file? name = v.file? name := by
  refine file?_congr hname fun i hi => ?_
  rw [hinodes]
  exact List.getElem?_append_left (v.bound v.current List.mem_cons_self name i hi)

theorem file?_new {v w : Volume K} {node : Inode} {name : K}
    (hinodes : w.inodes = v.inodes ++ [node])
    (hname : w.current.find? name = some v.inodes.length) : w.file? name = some node := by
  unfold file?
  rw [hname, hinodes]
  simp

theorem file?_create_of_ne (v : Volume K) {name name' : K} (h : name' ≠ name) (node : Inode) :
    (v.create name node).file? name' = v.file? name' :=
  file?_of_extends rfl (Directory.find?_insert_of_ne _ h _)

@[simp] theorem file?_syncDirectory (v : Volume K) (name : K) :
    v.syncDirectory.file? name = v.file? name := rfl

/-- Changing the inode just created is creating the changed inode. -/
theorem modify_create (v : Volume K) (name : K) (node : Inode) (f : Inode → Inode) :
    (v.create name node).modify v.inodes.length f = v.create name (f node) := by
  refine ext ?_ rfl rfl
  show (v.inodes ++ [node]).modify v.inodes.length f = v.inodes ++ [f node]
  induction v.inodes with
  | nil => rfl
  | cons a as ih => exact congrArg (List.cons a) ih

/-! ## Losing power -/

/-- The volume found after a power loss. -/
structure PowerLoss (v w : Volume K) : Prop where
  current : w.current ∈ v.current :: v.earlier
  earlier : w.earlier = []
  inodes : List.Forall₂ Inode.Survives v.inodes w.inodes

/-- The volume found after a crash: the process died, or the power was lost. -/
def Crash (v w : Volume K) : Prop := w = v ∨ PowerLoss v w

theorem Crash.refl (v : Volume K) : Crash v v := Or.inl rfl

theorem survives_trans {as bs cs : List Inode} (h : List.Forall₂ Inode.Survives as bs)
    (h' : List.Forall₂ Inode.Survives bs cs) : List.Forall₂ Inode.Survives as cs := by
  induction h generalizing cs with
  | nil => exact h'
  | cons hab _ ih =>
      cases h' with
      | cons hbc hrest => exact List.Forall₂.cons (hab.trans hbc) (ih hrest)

theorem survives_append {as bs : List Inode} {node : Inode}
    (h : List.Forall₂ Inode.Survives (as ++ [node]) bs) :
    ∃ as' node', bs = as' ++ [node'] ∧ List.Forall₂ Inode.Survives as as' ∧
      Inode.Survives node node' := by
  induction as generalizing bs with
  | nil =>
      cases h with
      | cons hnode hrest =>
          cases hrest
          exact ⟨[], _, rfl, List.Forall₂.nil, hnode⟩
  | cons a as ih =>
      cases h with
      | cons ha hrest =>
          obtain ⟨as', node', rfl, has, hnode⟩ := ih hrest
          exact ⟨_ :: as', node', rfl, List.Forall₂.cons ha has, hnode⟩

theorem PowerLoss.trans {u v w : Volume K} (h : PowerLoss u v) (h' : PowerLoss v w) :
    PowerLoss u w := by
  refine ⟨?_, h'.earlier, ?_⟩
  · have hw := h'.current
    rw [h.earlier, List.mem_singleton] at hw
    rw [hw]
    exact h.current
  · exact survives_trans h.inodes h'.inodes

theorem Crash.trans {u v w : Volume K} (h : Crash u v) (h' : Crash v w) : Crash u w := by
  rcases h' with rfl | h'
  · exact h
  · rcases h with rfl | h
    · exact Or.inr h'
    · exact Or.inr (h.trans h')

/-- A power loss with a choice of the directory and of the surviving inodes. -/
theorem exists_powerLoss (v : Volume K) {d : Directory K ℕ} (hd : d ∈ v.current :: v.earlier)
    {inodes : List Inode} (hinodes : List.Forall₂ Inode.Survives v.inodes inodes) :
    ∃ w, PowerLoss v w ∧ w.inodes = inodes ∧ w.current = d := by
  refine ⟨⟨inodes, d, [], ?_⟩, ⟨hd, rfl, hinodes⟩, rfl, rfl⟩
  intro d' hd' name i hi
  rw [List.mem_singleton.1 hd'] at hi
  rw [← hinodes.length_eq]
  exact v.bound d hd name i hi

end Volume

end StaticHostAgent.Library
