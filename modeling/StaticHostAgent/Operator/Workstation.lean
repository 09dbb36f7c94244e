import StaticHostAgent.Library.Directory
import StaticHostAgent.Library.Handlers
import StaticHostAgent.Operator.Exchange
import Mathlib.Data.String.Basic

/-!
# The export on the workstation

A downloaded export is written to a temporary file and renamed to its destination, both in one
directory. `live` is that directory as programs see it, `stable` what of its names is on the disk; a
file's content is on the disk once it is synced. Every local call may fail, and other programs may
change the directory before it; they leave the files of this client alone.
-/

set_option autoImplicit false

namespace StaticHostAgent.Operator

open Library Contracts

/-- A file of the directory: its content, whether all of it is on the disk, and whether this client
made it. -/
structure Entry where
  bytes : Bytes
  synced : Bool
  mine : Bool
  deriving DecidableEq

abbrev Files : Type := Directory String Entry

inductive LocalCall where
  | openDirectory | stat | create | write | syncFile | closeFile | rename | syncDirectory
  | closeDirectory | unlink
  deriving DecidableEq

/-- What other programs do to the directory. -/
inductive Change where
  | appear (name : String) (bytes : Bytes)
  | vanish (name : String)
  /-- The system writes the directory's entry for a name back to the disk. -/
  | writeBack (name : String)
  deriving DecidableEq

/-- The circumstances of one local call: what others did before it, which calls fail, and how many
bytes a write takes if not all of them. -/
structure Moment where
  meanwhile : List Change
  failing : List LocalCall
  accepted : Option Nat
  deriving DecidableEq

def Moment.calm : Moment := ⟨[], [], none⟩

/-- The number that a program keeps for an open file. After a failed close it still keeps the
number, but the system has released it. -/
inductive Descriptor where
  | held | lost | cleared
  deriving DecidableEq

/-- `_PendingExport` -/
structure PendingExport where
  directory : Descriptor
  file : Descriptor
  temporaryName : String
  destinationName : String
  renamed : Bool
  closed : Bool
  deriving DecidableEq

/-- What happened to names of the directory through this client. -/
inductive FileEvent where
  /-- A new file was made; an entry that it replaced. -/
  | made (name : String) (former : Option Entry)
  /-- A file took its destination name; an entry that it replaced. -/
  | placed (name : String) (former : Option Entry) (entry : Entry)
  /-- The commit of the export under this name is done. -/
  | committed (name : String)
  deriving DecidableEq

/-- What was written to one SSH process; `destination` is the file that the exchange is about. -/
structure Transmission where
  destination : Option String
  bytes : Bytes
  deriving DecidableEq

structure Workstation where
  live : Files
  stable : Files
  pending : Option PendingExport
  /-- The transmissions so far, the latest first. -/
  sent : List Transmission
  moments : List Moment
  events : List FileEvent
  deriving DecidableEq

/-- The stable entry of a name becomes the live one. -/
def writeBack (live stable : Files) (name : String) : Files :=
  match live.find? name with
  | some entry => stable.insert name entry
  | none => stable.erase name

/-- Another program makes a file. -/
def appear (live : Files) (name : String) (bytes : Bytes) : Files :=
  if (live.find? name).isNone then live.insert name ⟨bytes, false, false⟩ else live

/-- Another program removes a file that is not of this client. -/
def vanish (live : Files) (name : String) : Files :=
  if (live.find? name).any fun entry => !entry.mine then live.erase name else live

namespace Workstation

def change (w : Workstation) : Change → Workstation
  | .appear name bytes => { w with live := appear w.live name bytes }
  | .vanish name => { w with live := vanish w.live name }
  | .writeBack name => { w with stable := writeBack w.live w.stable name }

def moment (w : Workstation) : Moment := w.moments.headD .calm

/-- The next moment comes. -/
def pass (w : Workstation) : Workstation :=
  w.moment.meanwhile.foldl change { w with moments := w.moments.tail }

def setPending (f : PendingExport → PendingExport) (w : Workstation) : Workstation :=
  { w with pending := w.pending.map f }

def logEvent (event : FileEvent) (w : Workstation) : Workstation :=
  { w with events := event :: w.events }

/-- A new SSH process. -/
def connect (destination : Option String) (w : Workstation) : Workstation :=
  { w with sent := ⟨destination, []⟩ :: w.sent }

/-- More is written to the latest SSH process. -/
def transmit (data : Bytes) (w : Workstation) : Workstation :=
  match w.sent with
  | [] => w
  | latest :: earlier => { w with sent := { latest with bytes := latest.bytes ++ data } :: earlier }

def makeFile (name : String) (w : Workstation) : Workstation :=
  { w with live := w.live.insert name ⟨[], false, true⟩ }.logEvent (.made name (w.live.find? name))

def updateFile (name : String) (f : Entry → Entry) (w : Workstation) : Workstation :=
  match w.live.find? name with
  | some entry => { w with live := w.live.insert name (f entry) }
  | none => w

def renameFile (source destination : String) (w : Workstation) : Workstation :=
  match w.live.find? source with
  | some entry =>
      { w with live := (w.live.erase source).insert destination entry }.logEvent
        (.placed destination (w.live.find? destination) entry)
  | none => w

def removeFile (name : String) (w : Workstation) : Workstation :=
  { w with live := w.live.erase name }

/-- Every name is as durable as its file. -/
def syncNames (w : Workstation) : Workstation := { w with stable := w.live }

end Workstation

abbrev Client (α : Type) : Type := Durable Workstation ClientError α

/-- What was said to the process before, and the next write to it. -/
def Exchange.write (x : Exchange) (data : Bytes) : Client Exchange := do
  Durable.effect (Workstation.transmit data)
  Durable.query fun _ => x.accept

/-- `_start_ssh` -/
def Exchange.start (x : Exchange) (destination : Option String) : Client Unit := do
  Durable.query fun _ => require x.starts .os
  Durable.effect (Workstation.connect destination)

/-- The moment of a local call. -/
def nextMoment : Client Moment := do
  let moment ← Durable.query fun w => .ok w.moment
  Durable.effect Workstation.pass
  pure moment

/-- A local call that only fails or succeeds. -/
def localCall (call : LocalCall) : Client Unit := do
  let moment ← nextMoment
  Durable.query fun _ => require (decide (call ∉ moment.failing)) .os

namespace PendingExport

def current : Client PendingExport :=
  Durable.query fun w =>
    match w.pending with
    | some pending => .ok pending
    | none => .error (.operator "no pending export")

/-- `_close_file` -/
def closeFile (pending : PendingExport) : Client Unit :=
  match pending.file with
  | .cleared => pure ()
  | .lost => Durable.fail .os
  | .held => do
      let moment ← nextMoment
      if .closeFile ∈ moment.failing then do
        Durable.effect (Workstation.setPending fun p => { p with file := .lost })
        Durable.fail .os
      else Durable.effect (Workstation.setPending fun p => { p with file := .cleared })

/-- The directory is closed and the export forgotten. -/
def closeDirectory : Client Unit := do
  let moment ← nextMoment
  if .closeDirectory ∈ moment.failing then do
    Durable.effect (Workstation.setPending fun p => { p with directory := .lost })
    Durable.fail .os
  else Durable.effect (Workstation.setPending fun p => { p with closed := true })

/-- What is left of an open export is removed. -/
def discard (pending : PendingExport) : Client Unit := do
  pending.closeFile
  Durable.query fun _ => require (decide (pending.directory = .held)) .os
  localCall .unlink
  Durable.effect (Workstation.removeFile
    (if pending.renamed then pending.destinationName else pending.temporaryName))
  localCall .syncDirectory
  Durable.effect Workstation.syncNames
  closeDirectory

def cleanup : Client Unit := do
  let pending ← current
  if pending.closed then pure () else pending.discard

/-- The file takes its destination name, and the name becomes durable. -/
def place (pending : PendingExport) : Client Unit := do
  localCall .rename
  Durable.query fun w => require (w.live.find? pending.destinationName).isNone .fileExists
  Durable.effect (Workstation.renameFile pending.temporaryName pending.destinationName)
  Durable.effect (Workstation.setPending fun p => { p with renamed := true })
  localCall .syncDirectory
  Durable.effect Workstation.syncNames

def commit : Client Unit := do
  let pending ← current
  pending.closeFile
  Durable.rescue pending.place fun error => do
    cleanup
    Durable.fail error
  Durable.effect (Workstation.logEvent (.committed pending.destinationName))
  closeDirectory

end PendingExport

/-- The directory of a new export is open; it is closed again if the rest fails. -/
def createIn (name token : String) : Client Unit := do
  localCall .stat
  Durable.query fun w => require (w.live.find? name).isNone .fileExists
  let temporaryName := ".ldp-export-" ++ token
  localCall .create
  Durable.query fun w => require (w.live.find? temporaryName).isNone .fileExists
  Durable.effect (Workstation.makeFile temporaryName)
  Durable.effect fun w =>
    { w with pending := some ⟨.held, .held, temporaryName, name, false, false⟩ }

/-- `_PendingExport.create`; `token` is the random part of the temporary name. -/
def createPending (name token : String) : Client Unit := do
  Durable.query fun _ => require (decide (name ∉ ["", ".", ".."]))
    (.operator "operator export destination is invalid")
  localCall .openDirectory
  Durable.rescue (createIn name token) fun error => do
    localCall .closeDirectory
    Durable.fail error

/-- `_write_all`; every turn writes something, so that as many turns as bytes are enough. -/
def writeAll (name : String) : Nat → Bytes → Client Unit
  | 0, _ => pure ()
  | turns + 1, remaining =>
      if remaining = [] then pure ()
      else do
        let moment ← nextMoment
        Durable.query fun _ => require (decide (.write ∉ moment.failing)) .os
        let written := min (moment.accepted.getD remaining.length) remaining.length
        Durable.effect (Workstation.updateFile name fun entry =>
          { entry with bytes := entry.bytes ++ remaining.take written, synced := false })
        Durable.query fun _ => require (decide (0 < written))
          (.operator "operator export write made no progress")
        writeAll name turns (remaining.drop written)

end StaticHostAgent.Operator
