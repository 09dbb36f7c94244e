import StaticHostAgent.Library.Restartable
import StaticHostAgent.Library.Directory

/-!
# Trees of files and their removal

A `Tree` is the content of a directory: its entries in the order of their sorted names, a directory
together with its own content. Removing the content unlinks the entries one after the other,
children before their directory, and stops at the first inode that a check refuses. The removal is
restartable: what is gone is not looked for again, and what is refused stays.
-/

set_option autoImplicit false

namespace StaticHostAgent.Library

/-- The entries of a directory, with names `N`, other inodes `F` and directory inodes `D`. -/
inductive Tree (N F D : Type) where
  | empty
  | file (name : N) (inode : F) (rest : Tree N F D)
  | directory (name : N) (inode : D) (children rest : Tree N F D)
  deriving DecidableEq

/-- What a name stands for: some inode that is no directory, or a directory with its content. -/
inductive Held (F D C : Type) where
  | leaf (inode : F)
  | directory (inode : D) (content : C)
  deriving DecidableEq

variable {K N F D ε : Type}

namespace Tree

/-- Remove every entry, children before their directory. -/
def remove (checkFile : F → Except ε Unit) (checkDirectory : D → Except ε Unit) :
    Durable (Tree N F D) ε Unit
  | .empty => ⟨[], .empty, .ok ()⟩
  | .file name inode rest =>
      match checkFile inode with
      | .error e => ⟨[], .file name inode rest, .error e⟩
      | .ok _ => (remove checkFile checkDirectory rest).after rest
  | .directory name inode children rest =>
      match checkDirectory inode with
      | .error e => ⟨[], .directory name inode children rest, .error e⟩
      | .ok _ =>
          let inner := remove checkFile checkDirectory children
          let put := fun content => Tree.directory name inode content rest
          match inner.result with
          | .error e => ⟨inner.trace.map put, put inner.state, .error e⟩
          | .ok _ =>
              let after := remove checkFile checkDirectory rest
              ⟨inner.trace.map put ++ rest :: after.trace, after.state, after.result⟩

variable {checkFile : F → Except ε Unit} {checkDirectory : D → Except ε Unit}

theorem remove_file_refused {name : N} {inode : F} {rest : Tree N F D} {e : ε}
    (h : checkFile inode = .error e) :
    remove checkFile checkDirectory (.file name inode rest) =
      ⟨[], .file name inode rest, .error e⟩ := by
  simp only [remove, h]

theorem remove_file {name : N} {inode : F} {rest : Tree N F D} {u : Unit}
    (h : checkFile inode = .ok u) :
    remove checkFile checkDirectory (.file name inode rest) =
      (remove checkFile checkDirectory rest).after rest := by
  simp only [remove, h]

theorem remove_directory_refused {name : N} {inode : D} {children rest : Tree N F D} {e : ε}
    (h : checkDirectory inode = .error e) :
    remove checkFile checkDirectory (.directory name inode children rest) =
      ⟨[], .directory name inode children rest, .error e⟩ := by
  simp only [remove, h]

theorem remove_directory_stopped {name : N} {inode : D} {children rest : Tree N F D} {u : Unit}
    {e : ε} (h : checkDirectory inode = .ok u)
    (hinner : (remove checkFile checkDirectory children).result = .error e) :
    remove checkFile checkDirectory (.directory name inode children rest) =
      ⟨(remove checkFile checkDirectory children).trace.map fun c => .directory name inode c rest,
        .directory name inode (remove checkFile checkDirectory children).state rest,
        .error e⟩ := by
  simp only [remove, h, hinner]

theorem remove_directory {name : N} {inode : D} {children rest : Tree N F D} {u v : Unit}
    (h : checkDirectory inode = .ok u)
    (hinner : (remove checkFile checkDirectory children).result = .ok v) :
    remove checkFile checkDirectory (.directory name inode children rest) =
      ⟨((remove checkFile checkDirectory children).trace.map fun c =>
          .directory name inode c rest) ++ rest :: (remove checkFile checkDirectory rest).trace,
        (remove checkFile checkDirectory rest).state,
        (remove checkFile checkDirectory rest).result⟩ := by
  simp only [remove, h, hinner]

theorem remove_honest :
    Durable.Honest (remove checkFile checkDirectory : Durable (Tree N F D) ε Unit) := by
  intro tree
  induction tree with
  | empty => rfl
  | file name inode rest ih =>
      cases hcheck : checkFile inode with
      | error e =>
          rw [remove_file_refused hcheck]
          rfl
      | ok _ =>
          rw [remove_file hcheck]
          show (remove checkFile checkDirectory rest).state =
            (rest :: (remove checkFile checkDirectory rest).trace).getLast?.getD _
          rw [ih, List.getLast?_cons]
          rfl
  | directory name inode children rest ihchildren ihrest =>
      cases hcheck : checkDirectory inode with
      | error e =>
          rw [remove_directory_refused hcheck]
          rfl
      | ok _ =>
          cases hinner : (remove checkFile checkDirectory children).result with
          | error e =>
              rw [remove_directory_stopped hcheck hinner]
              dsimp only
              rw [ihchildren, List.getLast?_map]
              cases (remove checkFile checkDirectory children).trace.getLast? with
              | none => rfl
              | some t => rfl
          | ok _ =>
              rw [remove_directory hcheck hinner]
              dsimp only
              rw [ihrest, List.getLast?_append, List.getLast?_cons]
              rfl

/-- A removal without a change ends where it began. -/
theorem remove_quiet {tree : Tree N F D} (h : (remove checkFile checkDirectory tree).trace = []) :
    (remove checkFile checkDirectory tree).state = tree := by
  rw [remove_honest tree, h]
  rfl

theorem remove_of_quiet {tree : Tree N F D} {result : Except ε Unit}
    (h : (remove checkFile checkDirectory tree).trace = [])
    (hresult : (remove checkFile checkDirectory tree).result = result) :
    remove checkFile checkDirectory tree = ⟨[], tree, result⟩ := by
  have hstate := remove_quiet h
  cases hrun : remove checkFile checkDirectory tree with
  | mk trace state result' =>
      rw [hrun] at h hstate hresult
      rw [← h, ← hstate, ← hresult]

/-- The removal restarts from its first change. -/
theorem remove_restarts : ∀ {tree : Tree N F D},
    (remove checkFile checkDirectory tree).trace = [] ∨ ∃ tree',
      remove checkFile checkDirectory tree =
        (remove checkFile checkDirectory tree').after tree' := by
  intro tree
  induction tree with
  | empty => exact Or.inl rfl
  | file name inode rest ih =>
      cases hcheck : checkFile inode with
      | error e =>
          left
          rw [remove_file_refused hcheck]
      | ok _ => exact Or.inr ⟨rest, remove_file hcheck⟩
  | directory name inode children rest ihchildren ihrest =>
      cases hcheck : checkDirectory inode with
      | error e =>
          left
          rw [remove_directory_refused hcheck]
      | ok _ =>
          rcases ihchildren with hquiet | ⟨children', hchildren⟩
          · cases hinner : (remove checkFile checkDirectory children).result with
            | error e =>
                left
                rw [remove_directory_stopped hcheck hinner, hquiet, List.map_nil]
            | ok _ =>
                -- the directory is empty and goes next
                right
                refine ⟨rest, ?_⟩
                rw [remove_directory hcheck hinner, hquiet, List.map_nil, List.nil_append]
                rfl
          · right
            refine ⟨.directory name inode children' rest, ?_⟩
            cases hinner : (remove checkFile checkDirectory children').result with
            | error e =>
                have hinner' : (remove checkFile checkDirectory children).result = .error e := by
                  rw [hchildren]
                  exact hinner
                rw [remove_directory_stopped hcheck hinner, remove_directory_stopped hcheck hinner',
                  hchildren]
                rfl
            | ok _ =>
                have hinner' : (remove checkFile checkDirectory children).result = .ok () := by
                  rw [hchildren]
                  exact hinner
                rw [remove_directory hcheck hinner, remove_directory hcheck hinner', hchildren]
                rfl

end Tree

/-! ## Removing a tree with its name -/

section Named

variable [LinearOrder K]

/-- The content of the directory at a name. -/
def contentAt (name : K) (s : Directory K (Held F D (Tree N F D))) : Tree N F D :=
  match s.find? name with
  | some (.directory _ content) => content
  | _ => .empty

/-- The directory at a name with another content. -/
def setContentAt (name : K) (content : Tree N F D) (s : Directory K (Held F D (Tree N F D))) :
    Directory K (Held F D (Tree N F D)) :=
  match s.find? name with
  | some (.directory inode _) => s.insert name (.directory inode content)
  | _ => s

/-- Whether the name stands for a directory that passes the check. -/
def openTree (notDirectory : ε) (checkRoot : D → Except ε Unit) (name : K)
    (s : Directory K (Held F D (Tree N F D))) : Except ε Bool :=
  match s.find? name with
  | none => .ok false
  | some (.leaf _) => .error notDirectory
  | some (.directory inode _) => do
      checkRoot inode
      pure true

/-- Remove the content of a directory and then the directory, if the name exists. -/
def removeTree (notDirectory : ε) (checkRoot : D → Except ε Unit) (checkFile : F → Except ε Unit)
    (checkDirectory : D → Except ε Unit) (name : K) :
    Durable (Directory K (Held F D (Tree N F D))) ε Unit := do
  let found ← Durable.query (openTree notDirectory checkRoot name)
  Durable.when found do
    Durable.zoom (contentAt name) (setContentAt name) fun _ => Tree.remove checkFile checkDirectory
    Durable.effect fun s => s.erase name

variable {notDirectory : ε} {checkRoot : D → Except ε Unit} {checkFile : F → Except ε Unit}
  {checkDirectory : D → Except ε Unit} {name : K} {s : Directory K (Held F D (Tree N F D))}

theorem contentAt_of_find? {inode : D} {content : Tree N F D}
    (h : s.find? name = some (.directory inode content)) : contentAt name s = content := by
  simp only [contentAt, h]

theorem setContentAt_of_find? {inode : D} {content : Tree N F D}
    (h : s.find? name = some (.directory inode content)) (content' : Tree N F D) :
    setContentAt name content' s = s.insert name (.directory inode content') := by
  simp only [setContentAt, h]

theorem setContentAt_self {inode : D} {content : Tree N F D}
    (h : s.find? name = some (.directory inode content)) : setContentAt name content s = s := by
  rw [setContentAt_of_find? h, Directory.insert_of_find? h]

theorem setContentAt_setContentAt {inode : D} {content : Tree N F D}
    (h : s.find? name = some (.directory inode content)) (content' content'' : Tree N F D) :
    setContentAt name content'' (setContentAt name content' s) = setContentAt name content'' s := by
  rw [setContentAt_of_find? h content', setContentAt_of_find? h,
    setContentAt_of_find? (Directory.find?_insert_self _ _ _), Directory.insert_insert]

theorem setContentAt_contentAt (s : Directory K (Held F D (Tree N F D))) :
    setContentAt name (contentAt name s) s = s := by
  cases hfind : s.find? name with
  | none => simp only [setContentAt, hfind]
  | some held =>
      cases held with
      | leaf inode => simp only [setContentAt, hfind]
      | directory inode content =>
          rw [contentAt_of_find? hfind]
          exact setContentAt_self hfind

theorem removeTree_honest (name : K) :
    Durable.Honest (removeTree notDirectory checkRoot checkFile checkDirectory name :
      Durable (Directory K (Held F D (Tree N F D))) ε Unit) := by
  refine (Durable.Honest.query _).bind fun found => Durable.Honest.when found ?_
  exact (Tree.remove_honest.zoom setContentAt_contentAt).bind fun _ => Durable.Honest.effect _

theorem openTree_eq_ok {found : Bool}
    (h : openTree notDirectory checkRoot name s = .ok found) :
    (s.find? name = none ∧ found = false) ∨
      ∃ inode content, s.find? name = some (.directory inode content) ∧
        checkRoot inode = .ok () ∧ found = true := by
  unfold openTree at h
  cases hfind : s.find? name with
  | none =>
      simp only [hfind] at h
      cases h
      exact Or.inl ⟨rfl, rfl⟩
  | some held =>
      cases held with
      | leaf inode => simp only [hfind] at h; cases h
      | directory inode content =>
          simp only [hfind] at h
          cases hcheck : checkRoot inode with
          | error e => simp only [hcheck] at h; cases h
          | ok _ =>
              simp only [hcheck] at h
              cases h
              exact Or.inr ⟨inode, content, rfl, hcheck, rfl⟩

/-- What the removal at a name may leave there: nothing, or the directory with other content. -/
inductive Shrunk (name : K) (s : Directory K (Held F D (Tree N F D))) :
    Directory K (Held F D (Tree N F D)) → Prop where
  | erased : Shrunk name s (s.erase name)
  | emptied (inode : D) (content content' : Tree N F D)
      (old : s.find? name = some (.directory inode content)) :
      Shrunk name s (s.insert name (.directory inode content'))

theorem Shrunk.find?_of_ne {s s' : Directory K (Held F D (Tree N F D))} (h : Shrunk name s s') {k : K}
    (hk : k ≠ name) : s'.find? k = s.find? k := by
  cases h with
  | erased => exact Directory.find?_erase_of_ne _ hk
  | emptied inode content content' old => exact Directory.find?_insert_of_ne _ hk _

/-- The run of `removeTree` on a directory that may be opened. -/
theorem removeTree_run {inode : D} {content : Tree N F D}
    (hfind : s.find? name = some (.directory inode content)) (hroot : checkRoot inode = .ok ()) :
    removeTree notDirectory checkRoot checkFile checkDirectory name s =
      (do
        Durable.zoom (contentAt name) (setContentAt name) fun _ =>
          Tree.remove checkFile checkDirectory
        Durable.effect fun s => s.erase name) s := by
  have hopen : openTree notDirectory checkRoot name s = .ok true := by
    simp only [openTree, hfind, hroot]
    rfl
  exact (Durable.Quiet.query hopen).bind

theorem removeTree_absent (hfind : s.find? name = none) :
    Durable.Quiet (removeTree notDirectory checkRoot checkFile checkDirectory name) s () := by
  have hopen : openTree notDirectory checkRoot name s = .ok false := by
    simp only [openTree, hfind]
  exact (Durable.Quiet.query hopen).bind

/-- The removal at a name changes nothing, or restarts from its first change. -/
theorem removeTree_restarts :
    (∃ e, removeTree notDirectory checkRoot checkFile checkDirectory name s = ⟨[], s, .error e⟩) ∨
      (s.find? name = none ∧
        Durable.Quiet (removeTree notDirectory checkRoot checkFile checkDirectory name) s ()) ∨
      ∃ s', Shrunk name s s' ∧
        removeTree notDirectory checkRoot checkFile checkDirectory name s =
          (removeTree notDirectory checkRoot checkFile checkDirectory name s').after s' := by
  cases hopen : openTree notDirectory checkRoot name s with
  | error e => exact Or.inl ⟨e, Durable.query_bind_error hopen⟩
  | ok found =>
      rcases openTree_eq_ok hopen with ⟨hfind, -⟩ | ⟨inode, content, hfind, hroot, -⟩
      · exact Or.inr (Or.inl ⟨hfind, removeTree_absent hfind⟩)
      · rcases (@Tree.remove_restarts _ _ _ _ checkFile checkDirectory content) with hquiet | ⟨content', hcontent⟩
        · cases hresult : (Tree.remove checkFile checkDirectory content).result with
          | error e =>
              left
              refine ⟨e, ?_⟩
              rw [removeTree_run hfind hroot]
              refine Durable.bind_error (Durable.zoom_error ?_ ?_)
              · rw [contentAt_of_find? hfind]
                exact Tree.remove_of_quiet hquiet hresult
              · rw [contentAt_of_find? hfind, setContentAt_self hfind]
          | ok u =>
              -- only the empty directory itself is left
              right; right
              refine ⟨s.erase name, .erased, ?_⟩
              have hinner : Durable.Quiet (Durable.zoom (contentAt name) (setContentAt name)
                  fun _ => Tree.remove checkFile checkDirectory) s () := by
                refine Durable.zoom_quiet ?_ ?_
                · rw [contentAt_of_find? hfind]
                  exact Tree.remove_of_quiet hquiet hresult
                · rw [contentAt_of_find? hfind, setContentAt_self hfind]
              have habsent : (s.erase name).find? name = none := Directory.find?_erase_self _ _
              rw [removeTree_run hfind hroot, hinner.bind, removeTree_absent habsent]
              rfl
        · right; right
          refine ⟨setContentAt name content' s, ?_, ?_⟩
          · rw [setContentAt_of_find? hfind]
            exact .emptied inode content content' hfind
          · have hfind' : (setContentAt name content' s).find? name =
                some (.directory inode content') := by
              rw [setContentAt_of_find? hfind]
              exact Directory.find?_insert_self _ _ _
            rw [removeTree_run hfind hroot, removeTree_run hfind' hroot]
            refine Durable.bind_after (Durable.zoom_after ?_ ?_ ?_)
            · rw [contentAt_of_find? hfind]
              exact hcontent
            · exact contentAt_of_find? hfind'
            · exact setContentAt_setContentAt hfind content'

/-- The removal at a name leaves the other names as they are; if it succeeds, its own is gone. -/
theorem removeTree_frame (s : Directory K (Held F D (Tree N F D))) :
    (∀ u, u ∈ (removeTree notDirectory checkRoot checkFile checkDirectory name s).trace ∨
        u = (removeTree notDirectory checkRoot checkFile checkDirectory name s).state →
      ∀ k, k ≠ name → u.find? k = s.find? k) ∧
    ((removeTree notDirectory checkRoot checkFile checkDirectory name s).result = .ok () →
      (removeTree notDirectory checkRoot checkFile checkDirectory name s).state.find? name =
        none) := by
  generalize hp : removeTree notDirectory checkRoot checkFile checkDirectory name = p
  have hrestarts : ∀ s, (∃ e, p s = ⟨[], s, .error e⟩) ∨
      (s.find? name = none ∧ Durable.Quiet p s ()) ∨
      ∃ s', Shrunk name s s' ∧ p s = (p s').after s' := by
    intro s
    rw [← hp]
    exact removeTree_restarts
  have hchanges : ∀ s, (p s).trace = [] ∨ ∃ s', Shrunk name s s' ∧ p s = (p s').after s' := by
    intro s
    rcases hrestarts s with ⟨e, hrun⟩ | ⟨-, hrun⟩ | ⟨s', hshrunk, hrun⟩
    · exact Or.inl (by rw [hrun])
    · have hquiet : p s = ⟨[], s, .ok ()⟩ := hrun
      exact Or.inl (by rw [hquiet])
    · exact Or.inr ⟨s', hshrunk, hrun⟩
  refine Durable.restart_induction (motive := fun s =>
    (∀ u, u ∈ (p s).trace ∨ u = (p s).state → ∀ k, k ≠ name → u.find? k = s.find? k) ∧
      ((p s).result = .ok () → (p s).state.find? name = none)) hchanges ?_ ?_ s
  · intro s htrace
    rcases hrestarts s with ⟨e, hrun⟩ | ⟨habsent, hrun⟩ | ⟨s', -, hrun⟩
    · rw [hrun]
      refine ⟨?_, fun h => (nomatch h)⟩
      rintro u (hu | rfl) k -
      · cases hu
      · rfl
    · have hquiet : p s = ⟨[], s, .ok ()⟩ := hrun
      rw [hquiet]
      refine ⟨?_, fun _ => habsent⟩
      rintro u (hu | rfl) k -
      · cases hu
      · rfl
    · rw [hrun] at htrace
      cases htrace
  · rintro s s' hshrunk hrun ⟨hframe, hgone⟩
    rw [hrun]
    refine ⟨?_, hgone⟩
    rintro u (hu | rfl) k hk
    · rcases List.mem_cons.1 hu with rfl | hu
      · exact hshrunk.find?_of_ne hk
      · exact (hframe u (Or.inl hu) k hk).trans (hshrunk.find?_of_ne hk)
    · exact (hframe _ (Or.inr rfl) k hk).trans (hshrunk.find?_of_ne hk)

end Named

end StaticHostAgent.Library
