import StaticHostAgent.Library.FileTree
import StaticHostAgent.Library.FixedDigits
import StaticHostAgent.Host.Errors
import Mathlib.Data.String.Basic

/-!
# Measuring a release tree

`release_tree.py`: a walk over a normalized tree that checks every inode, charges its allocations
and digests names and contents in the order of the encoded paths. While the publication lock is
held nothing changes under the walk, so its comparisons of one inode with itself are left out and
the measurement is a function of the tree. The tree lists its names in order; the source scans a
directory in the order of the file system, which decides only which of several errors is raised.
-/

set_option autoImplicit false

namespace StaticHostAgent.Releases

open Library Contracts Host

/-- What the walk reads of one inode; `mode` is the permission bits. -/
structure Snapshot where
  device : Nat
  inode : Nat
  owner : Nat
  mode : Nat
  blocks : Nat
  deriving DecidableEq

/-- An inode that is no directory. -/
inductive Leaf where
  | regular (snapshot : Snapshot) (content : Bytes)
  | special (snapshot : Snapshot)
  deriving DecidableEq

/-- File names are bytes. -/
abbrev FileName : Type := Bytes

abbrev ReleaseContent : Type := Tree FileName Leaf Snapshot

/-- What may stand under the name of a release. -/
abbrev Release : Type := Held Leaf Snapshot ReleaseContent

/-- The hash function and the Unicode tables the measurement rests on. -/
structure TreeHost where
  sha256 : Bytes → Sha256
  normalizeNfc : String → String
  casefold : String → String
  lower : String → String
  isControl : Char → Bool

/-- The strict UTF-8 decoding of a name. -/
def decodeName (name : FileName) : Option String := String.fromUTF8? ⟨name.toArray⟩

def releaseTreeError (message : String) : AgentError := .releaseTree message

def maximumEntries : Nat := 5000
def maximumContentBytes : Nat := 100 * 1024 * 1024
def maximumFileBytes : Nat := 25 * 1024 * 1024
def maximumPathBytes : Nat := 1024
def maximumComponentBytes : Nat := 255
def maximumDepth : Nat := 32

def releaseDirectoryMode : Nat := 0o755
def releaseFileMode : Nat := 0o644

structure InodeAllocation where
  device : Nat
  inode : Nat
  allocatedBytes : Nat
  deriving DecidableEq

/-- The protocol digest and physical usage proven by one tree walk. -/
structure ReleaseTreeMeasurement where
  digest : Digest
  entryCount : Nat
  logicalContentBytes : Nat
  allocations : List InodeAllocation
  deriving DecidableEq

/-- One scanned entry: its encoded path, and its content if it is a file. -/
structure ScanEntry where
  path : Bytes
  content : Option Bytes

structure ScanState where
  entries : List ScanEntry
  allocations : List InodeAllocation
  directoryIdentities : List (Nat × Nat)
  casefoldedPaths : List String
  logicalBytes : Nat

/-- What stays the same during one walk. -/
structure ScanContext where
  host : TreeHost
  expectedOwner : Nat
  expectedDevice : Nat

/-- The decoded names and the encoded names on the way to an entry. -/
structure ScanPath where
  components : List String
  encoded : List Bytes

section Scan

variable (context : ScanContext)

def validateComponent (name : FileName) : Except AgentError String := do
  match decodeName name with
  | none => throw (releaseTreeError "release tree name is not valid UTF-8")
  | some component => do
      require (!(decide (component = "") || decide (component ∈ [".", ".."]) ||
          component.toList.any fun c => decide (c ∈ ['/', '\\', '\x00'])))
        (releaseTreeError "release tree contains an invalid path component")
      require (decide (context.host.normalizeNfc component = component))
        (releaseTreeError "release tree name is not NFC normalized")
      require (!component.toList.any context.host.isControl)
        (releaseTreeError "release tree name contains a control character")
      require (decide (name.length ≤ maximumComponentBytes))
        (releaseTreeError "release tree component exceeds its byte limit")
      pure component

def validatePath (path : ScanPath) : Except AgentError Bytes := do
  require (decide (path.components.length ≤ maximumDepth))
    (releaseTreeError "release tree path exceeds its depth limit")
  let raw := List.intercalate (ascii "/") path.encoded
  require (decide (raw.length ≤ maximumPathBytes))
    (releaseTreeError "release tree path exceeds its byte limit")
  require (decide ((path.components.head?.map context.host.lower) ≠ some "cdn-cgi"))
    (releaseTreeError "release tree uses Cloudflare's reserved first component")
  pure raw

/-- Owner and mode of an inode of the expected type. -/
def validateSnapshot (expectedOwner expectedMode : Nat) (snapshot : Snapshot) :
    Except AgentError Unit := do
  require (decide (snapshot.owner = expectedOwner))
    (releaseTreeError "release tree contains an inode with the wrong owner")
  require (decide (snapshot.mode = expectedMode))
    (releaseTreeError "release tree contains an inode with the wrong mode")

def blockUnitBytes : Nat := 512

/-- Charge an inode once; a second name of it must cost the same. -/
def recordAllocation (snapshot : Snapshot) (allocations : List InodeAllocation) :
    Except AgentError (List InodeAllocation) :=
  let allocatedBytes := snapshot.blocks * blockUnitBytes
  match allocations.find? fun a => a.device = snapshot.device ∧ a.inode = snapshot.inode with
  | none => pure (allocations ++ [⟨snapshot.device, snapshot.inode, allocatedBytes⟩])
  | some established => do
      require (decide (established.allocatedBytes = allocatedBytes))
        (releaseTreeError "hard-linked inode allocation changed during measurement")
      pure allocations

/-- The checks every entry passes, whether file or directory. -/
def admitEntry (parent : ScanPath) (name : FileName) (snapshot : Snapshot) (expectedMode : Nat)
    (content : Option Bytes) (state : ScanState) : Except AgentError (ScanPath × ScanState) := do
  let component ← validateComponent context name
  let path : ScanPath := ⟨parent.components ++ [component], parent.encoded ++ [name]⟩
  let raw ← validatePath context path
  validateSnapshot context.expectedOwner expectedMode snapshot
  require (decide (snapshot.device = context.expectedDevice))
    (releaseTreeError "release tree crosses a filesystem boundary")
  let folded := context.host.normalizeNfc
    (context.host.casefold (String.intercalate "/" path.components))
  require (decide (folded ∉ state.casefoldedPaths))
    (releaseTreeError "release tree contains a case-folding collision")
  let entries := state.entries ++ [⟨raw, content⟩]
  require (decide (entries.length ≤ maximumEntries))
    (releaseTreeError "release tree exceeds its entry limit")
  let allocations ← recordAllocation snapshot state.allocations
  pure (path, { state with
    entries := entries
    allocations := allocations
    casefoldedPaths := folded :: state.casefoldedPaths })

/-- Scan a file, or refuse any other inode that is no directory. -/
def scanLeaf (parent : ScanPath) (name : FileName) (leaf : Leaf) (state : ScanState) :
    Except AgentError ScanState :=
  match leaf with
  | .special _ => do
      let component ← validateComponent context name
      let _ ← validatePath context ⟨parent.components ++ [component], parent.encoded ++ [name]⟩
      throw (releaseTreeError "release tree contains a disallowed inode type")
  | .regular snapshot content => do
      let (_, state) ← admitEntry context parent name snapshot releaseFileMode (some content) state
      require (decide (content.length ≤ maximumFileBytes))
        (releaseTreeError "release file exceeds its byte limit")
      let logicalBytes := state.logicalBytes + content.length
      require (decide (logicalBytes ≤ maximumContentBytes))
        (releaseTreeError "release tree exceeds its content limit")
      pure { state with logicalBytes := logicalBytes }

/-- Scan a directory, a child directory before the entries behind it. -/
def scanDirectory (parent : ScanPath) : ReleaseContent → ScanState → Except AgentError ScanState
  | .empty, state => pure state
  | .file name leaf rest, state => do
      let state ← scanLeaf context parent name leaf state
      scanDirectory parent rest state
  | .directory name snapshot children rest, state => do
      let (path, state) ←
        admitEntry context parent name snapshot releaseDirectoryMode none state
      let identity := (snapshot.device, snapshot.inode)
      require (decide (identity ∉ state.directoryIdentities))
        (releaseTreeError "release tree contains an aliased directory")
      let state ← scanDirectory path children
        { state with directoryIdentities := identity :: state.directoryIdentities }
      scanDirectory parent rest state

end Scan

/-- The bytes the digest takes in for one entry. -/
def ScanEntry.encoded (entry : ScanEntry) : Bytes :=
  match entry.content with
  | none => ascii "D" ++ packBytes 4 entry.path.length ++ entry.path
  | some content =>
      ascii "F" ++ packBytes 4 entry.path.length ++ entry.path ++ packBytes 8 content.length ++
        content

/-- Entries in the order of their encoded paths. -/
def sortedEntries (entries : List ScanEntry) : List ScanEntry :=
  entries.mergeSort fun a b => decide (a.path.map UInt8.toNat ≤ b.path.map UInt8.toNat)

/-- What the digest of a tree is taken of. -/
def digestInput (entries : List ScanEntry) : Bytes :=
  ascii DigestFormat.releaseTree.identifier ++ 0 :: packBytes 4 entries.length ++
    (sortedEntries entries).flatMap ScanEntry.encoded

/-- Measure one normalized release. -/
def measureReleaseTree (host : TreeHost) (expectedOwner : Nat) (root : Snapshot)
    (content : ReleaseContent) : Except AgentError ReleaseTreeMeasurement := do
  validateSnapshot expectedOwner releaseDirectoryMode root
  let allocations ← recordAllocation root []
  let state ← scanDirectory ⟨host, expectedOwner, root.device⟩ ⟨[], []⟩ content
    ⟨[], allocations, [(root.device, root.inode)], [], 0⟩
  pure {
    digest := ⟨.releaseTree, host.sha256 (digestInput state.entries)⟩
    entryCount := state.entries.length
    logicalContentBytes := state.logicalBytes
    allocations := state.allocations.mergeSort fun a b =>
      decide (a.device < b.device) || (decide (a.device = b.device) && decide (a.inode ≤ b.inode)) }

/-- A measurement carries a digest of the format of release trees. -/
theorem measureReleaseTree_format {host : TreeHost} {expectedOwner : Nat} {root : Snapshot}
    {content : ReleaseContent} {m : ReleaseTreeMeasurement}
    (h : measureReleaseTree host expectedOwner root content = .ok m) :
    m.digest.format = .releaseTree := by
  unfold measureReleaseTree at h
  simp only [bind_eq_ok, pure_eq_ok] at h
  obtain ⟨_, _, _, _, _, _, rfl⟩ := h
  rfl

end StaticHostAgent.Releases
