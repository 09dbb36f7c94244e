import StaticHostAgent.Contracts.Texts
import StaticHostAgent.Library.DurableRules
import StaticHostAgent.Library.Volume
import Mathlib.Data.String.Basic

/-!
# Durable publication of one file

`DurableDirectory.create_immutable` and `DurableDirectory.replace` as programs over the parent
directory, one step for each system call, and the recovery of their abandoned temporaries. What the
kernel and the failure hook answer is a parameter (`Answers`), so that every call may fail and
every write may be short.
-/

set_option autoImplicit false

namespace StaticHostAgent.Host

open Library Contracts

/-- Observable barriers used by failure-injection tests. -/
inductive DurabilityBoundary where
  | write | fileSync | rename | directorySync | remove
  deriving DecidableEq

inductive DurableError where
  | statePath (message : String)
  | stateAlreadyExists (message : String)
  | os (errno : ℕ)
  | hook (boundary : DurabilityBoundary)
  deriving DecidableEq

def errnoNoEntry : ℕ := 2
def errnoIo : ℕ := 5
def errnoExists : ℕ := 17
def errnoIsDirectory : ℕ := 21

def temporaryNamePrefix : List Char := ".ldp-state-".toList

def hasTemporaryPrefix (name : String) : Bool := temporaryNamePrefix.isPrefixOf name.toList

/-- `_TEMP_NAME_PATTERN.fullmatch`. -/
def matchesTemporaryName (name : String) : Bool :=
  hasTemporaryPrefix name &&
    (name.toList.drop temporaryNamePrefix.length).length = 32 &&
    (name.toList.drop temporaryNamePrefix.length).all fun c => hexDigits.contains c

def validComponent (component : String) : Bool :=
  !(component = "" || component = "." || component = ".." || component.toList.contains '/' ||
    component.toList.contains '\x00')

def validateComponents (components : List String) : Except DurableError Unit :=
  if components = [] then
    .error (.statePath "a state path must contain at least one component")
  else if components.all validComponent then
    .ok ()
  else
    .error (.statePath "state paths must contain fixed relative components")

def validateTemporaryName (temporaryName destination : String) : Except DurableError Unit := do
  validateComponents [temporaryName]
  if !hasTemporaryPrefix temporaryName || temporaryName = destination then
    .error (.statePath "temporary state names must use the reserved internal prefix")
  else
    .ok ()

/-- The process that publishes: its file-system user and its mode creation mask. -/
structure Process where
  owner : ℕ
  umask : ℕ

/-- What the calls of one publication answer: an error of their own, if any, the bytes that each
write accepts, and whether the failure hook raises. -/
structure Answers where
  openParent : Option DurableError
  openTemporary : Option ℕ
  chmod : Option ℕ
  write : ℕ → Except ℕ ℕ
  syncFile : Option ℕ
  close : Option ℕ
  rename : Option ℕ
  syncParent : Option ℕ
  unlink : Option ℕ
  syncRemoval : Option ℕ
  hook : DurabilityBoundary → ℕ → Bool

/-- An answer without an error. -/
def answered (errno : Option ℕ) : Except DurableError Unit :=
  match errno with
  | none => .ok ()
  | some code => .error (.os code)

def notify (answers : Answers) (boundary : DurabilityBoundary) (count : ℕ) :
    Durable (Volume String) DurableError Unit :=
  Durable.query fun _ => if answers.hook boundary count then .error (.hook boundary) else .ok ()

/-- A temporary as `os.open` makes it. -/
def createdInode (process : Process) (mode : ℕ) : Inode where
  kind := .regular
  owner := process.owner
  mode := mode ^^^ (mode &&& process.umask)
  elsewhere := 0
  data := []
  earlierModes := []
  synced := false

/-- `os.open` of the temporary with `O_CREAT | O_EXCL`; the descriptor is the inode. -/
def openTemporary (process : Process) (answers : Answers) (temporaryName : String) (mode : ℕ) :
    Durable (Volume String) DurableError ℕ := do
  Durable.query fun _ => answered answers.openTemporary
  let descriptor ← Durable.query fun v =>
    if (v.current.find? temporaryName).isSome then .error (.os errnoExists)
    else .ok v.inodes.length
  Durable.effect fun v => v.create temporaryName (createdInode process mode)
  return descriptor

def fchmod (answers : Answers) (descriptor mode : ℕ) :
    Durable (Volume String) DurableError Unit := do
  Durable.query fun _ => answered answers.chmod
  Durable.effect fun v => v.modify descriptor (Inode.chmod mode)

/-- `_write_all`; every round writes at least one byte, so the fuel is the length of the data. -/
def writeAll (answers : Answers) (descriptor : ℕ) :
    ℕ → ℕ → List UInt8 → Durable (Volume String) DurableError Unit
  | 0, _, _ => pure ()
  | _, _, [] => pure ()
  | fuel + 1, count, remaining => do
      let accepted ← Durable.query fun _ =>
        match answers.write count with
        | .error code => .error (.os code)
        | .ok written =>
            if written = 0 then .error (.os errnoIo) else .ok (min written remaining.length)
      Durable.effect fun v => v.modify descriptor (Inode.append (remaining.take accepted))
      notify answers .write count
      writeAll answers descriptor fuel (count + 1) (remaining.drop accepted)

def fsyncFile (answers : Answers) (descriptor : ℕ) :
    Durable (Volume String) DurableError Unit := do
  Durable.query fun _ => answered answers.syncFile
  Durable.effect fun v => v.modify descriptor Inode.sync

def closeFile (answers : Answers) : Durable (Volume String) DurableError Unit :=
  Durable.query fun _ => answered answers.close

def fsyncDirectory (answer : Option ℕ) : Durable (Volume String) DurableError Unit := do
  Durable.query fun _ => answered answer
  Durable.effect Volume.syncDirectory

/-- `_remove_temporary`. -/
def removeTemporary (answers : Answers) (temporaryName : String) :
    Durable (Volume String) DurableError Unit := do
  let found ← Durable.query fun v =>
    match answers.unlink with
    | some code => if code = errnoNoEntry then .ok false else .error (.os code)
    | none => .ok (v.current.find? temporaryName).isSome
  Durable.when found do
    Durable.effect fun v => v.unlink temporaryName
    fsyncDirectory answers.syncRemoval

/-- How a publication moves its temporary into place: what stands in the way at the destination,
and the exception raised for an error of the call. -/
structure Placement where
  obstructed : FileKind → Option DurableError
  failed : ℕ → DurableError

def Placement.atDestination (placement : Placement) (v : Volume String) (destination : String) :
    Option DurableError :=
  (v.file? destination).bind fun node => placement.obstructed node.kind

def Placement.place (placement : Placement) (answers : Answers) (temporaryName destination : String) :
    Durable (Volume String) DurableError Unit := do
  Durable.query fun v =>
    match answers.rename with
    | some code => .error (placement.failed code)
    | none =>
        match placement.atDestination v destination with
        | some e => .error e
        | none => .ok ()
  Durable.effect fun v => v.rename temporaryName destination

def alreadyExists : DurableError := .stateAlreadyExists "immutable state record already exists"

/-- `_rename_noreplace`, with `FileExistsError` turned into `StateAlreadyExistsError`. -/
def renameNoreplace : Placement where
  obstructed _ := some alreadyExists
  failed code := if code = errnoExists then alreadyExists else .os code

/-- `os.replace` of a file. -/
def osReplace : Placement where
  obstructed kind := if kind = .directory then some (.os errnoIsDirectory) else none
  failed := .os

/-- What `create_immutable` and `replace` share. An error before the rename closes the temporary
and removes it; an error while closing leaves it behind, and after the rename there is none. -/
def publish (placement : Placement) (process : Process) (answers : Answers) (temporaryName : String)
    (components : List String) (data : List UInt8) (mode : ℕ) :
    Durable (Volume String) DurableError Unit := do
  Durable.query fun _ => validateComponents components
  let destination := components.getLastD ""
  Durable.query fun _ => validateTemporaryName temporaryName destination
  Durable.query fun _ => match answers.openParent with
    | some e => .error e
    | none => .ok ()
  let descriptor ← openTemporary process answers temporaryName mode
  Durable.onError
    (do
      fchmod answers descriptor mode
      writeAll answers descriptor data.length 0 data
      fsyncFile answers descriptor
      notify answers .fileSync 0
      closeFile answers)
    (do
      closeFile answers
      removeTemporary answers temporaryName)
  Durable.onError (placement.place answers temporaryName destination)
    (removeTemporary answers temporaryName)
  notify answers .rename 0
  fsyncDirectory answers.syncParent
  notify answers .directorySync 0

/-- Publish a complete immutable record without replacing an existing one. -/
def createImmutable (process : Process) (answers : Answers) (temporaryName : String)
    (components : List String) (data : List UInt8) (mode : ℕ) :
    Durable (Volume String) DurableError Unit :=
  publish renameNoreplace process answers temporaryName components data mode

/-- Atomically replace one fixed state record and sync its parent. -/
def replace (process : Process) (answers : Answers) (temporaryName : String)
    (components : List String) (data : List UInt8) (mode : ℕ) :
    Durable (Volume String) DurableError Unit :=
  publish osReplace process answers temporaryName components data mode

/-- What a recovery expects of a temporary, and the entries it scans at most. -/
structure Recovery where
  expectedOwner : ℕ
  expectedMode : ℕ
  maximumEntries : ℕ

/-- A regular file of the expected owner and mode with one link. -/
def Recovery.safeShape (recovery : Recovery) (v : Volume String) (name : String) : Bool :=
  match v.current.find? name with
  | none => false
  | some i =>
      match v.inodes[i]? with
      | none => false
      | some node => node.kind = .regular && node.owner = recovery.expectedOwner &&
          node.mode = recovery.expectedMode && v.links i = 1

/-- Validate and list crash-left temporaries without changing the directory. -/
def publicationTemporaries (recovery : Recovery) (v : Volume String) :
    Except DurableError (List String) :=
  if recovery.maximumEntries < v.current.size then
    .error (.statePath "state directory exceeds its temporary recovery ceiling")
  else
    (v.current.keys.filter hasTemporaryPrefix).mapM fun name =>
      if !matchesTemporaryName name then
        .error (.statePath "reserved temporary name has an invalid shape")
      else if !recovery.safeShape v name then
        .error (.statePath "reserved temporary has an unsafe inode shape")
      else
        .ok name

/-- Remove only safely shaped temporaries left by an interrupted writer. -/
def removeAbandonedPublicationTemporaries (recovery : Recovery) (unlinked : String → Option ℕ)
    (synced : Option ℕ) : Durable (Volume String) DurableError ℕ := do
  let names ← Durable.query (publicationTemporaries recovery)
  names.forM fun name => do
    Durable.query fun _ => answered (unlinked name)
    Durable.effect fun v => v.unlink name
  Durable.when (names ≠ []) (fsyncDirectory synced)
  return names.length

end StaticHostAgent.Host
