import StaticHostAgent.Contracts.Texts
import StaticHostAgent.Library.PackedFields
import StaticHostAgent.Zip.MemberStream
import StaticHostAgent.Zip.Paths
import Mathlib.Data.List.Sort

/-!
# Building a portable bundle

A stored archive of a format marker, a manifest, a checksum document and the entries of a release
tree. Every write is checked against the size of the whole; the checksum document has a bound of its
own; the fields of the records have two or four bytes.

The tree is a list of entries that carries the limits of a release. `buildPortableBundle_fits` says
that they are tight enough for every bound of the bundle.
-/

set_option autoImplicit false

namespace StaticHostAgent.Zip

open Library Contracts

inductive BundleError where
  | portableBundle (message : String)
  /-- `struct.error` -/
  | struct
  deriving DecidableEq

/-! ## Limits -/

/-- `MAXIMUM_PORTABLE_BUNDLE_BYTES` -/
def maximumPortableBundleBytes : Nat := 120 * 1024 * 1024

/-- `MAXIMUM_CHECKSUM_BYTES` -/
def maximumChecksumBytes : Nat := 5495158

/-- `_MAXIMUM_CENTRAL_BYTES` -/
def maximumCentralBytes : Nat := 8 * 1024 * 1024

/-- `_MAXIMUM_PORTABLE_RECORDS` -/
def maximumPortableRecords : Nat := 5004

/-- `_MAXIMUM_PORTABLE_EXPANDED_BYTES` -/
def maximumPortableExpandedBytes : Nat := 106 * 1024 * 1024

/-- `_MAXIMUM_MANIFEST_BYTES` -/
def maximumManifestBytes : Nat := 16 * 1024

/-- `_MAXIMUM_ENVELOPE_NAME_BYTES` -/
def maximumEnvelopeNameBytes : Nat := 1057

/-- `MAX_RELEASE_ENTRIES` -/
def maxReleaseEntries : Nat := 5000

/-- `MAX_RELEASE_CONTENT_BYTES` -/
def maxReleaseContentBytes : Nat := 100 * 1024 * 1024

/-- `MAX_RELEASE_FILE_BYTES` -/
def maxReleaseFileBytes : Nat := 25 * 1024 * 1024

/-- `MAX_RELEASE_PATH_BYTES` -/
def maxReleasePathBytes : Nat := 1024

/-! ## The source -/

/-- An entry of the private snapshot: a directory, or a file with its content. -/
structure SourceEntry where
  pathBytes : Bytes
  content : Option Bytes
  deriving DecidableEq

def SourceEntry.size (entry : SourceEntry) : Nat := (entry.content.getD []).length

/-- The entries of a release tree, within the limits of a release. -/
structure ReleaseEntries where
  entries : List SourceEntry
  few : entries.length ≤ maxReleaseEntries
  short : ∀ entry ∈ entries, entry.pathBytes.length ≤ maxReleasePathBytes
  small : ∀ entry ∈ entries, entry.size ≤ maxReleaseFileBytes
  bounded : (entries.map SourceEntry.size).sum ≤ maxReleaseContentBytes

/-- The bytes of an ASCII text. -/
def ascii (text : String) : Bytes := text.toList.map fun c => UInt8.ofNat c.toNat

/-- `FORMAT_BYTES` -/
def formatBytes : Bytes :=
  ascii "\x7b\"format\":\"lowerduckpond-export\",\"version\":1\x7d\n"

/-- `PORTABLE_ENVELOPE` -/
def portableEnvelope : String := "lowerduckpond-export-v1"

def envelopeName (relative : String) : Bytes := ascii (portableEnvelope ++ "/" ++ relative)

def contentName (path : Bytes) (isDirectory : Bool) : Bytes :=
  ascii portableEnvelope ++ ascii "/content/" ++ path ++ (if isDirectory then ascii "/" else [])

/-! ## The checksum document -/

section Build

variable (sha256 : Bytes → Sha256)

def checksumLine (record : Bytes × String) : Bytes :=
  ascii record.2 ++ ascii "  " ++ record.1 ++ ascii "\n"

/-- The paths and digests of the document, before they are sorted. -/
def checksumRecords (entries : List SourceEntry) (manifestBytes : Bytes) : List (Bytes × String) :=
  (ascii "format.json", sha256Text (sha256 formatBytes)) ::
    (ascii "manifest.json", sha256Text (sha256 manifestBytes)) ::
    entries.filterMap fun entry => entry.content.map fun content =>
      (ascii "content/" ++ entry.pathBytes, sha256Text (sha256 content))

/-- `_checksums` -/
def checksums (entries : List SourceEntry) (manifestBytes : Bytes) : Except BundleError Bytes := do
  let records := (checksumRecords sha256 entries manifestBytes).insertionSort fun a b =>
    a.1.map UInt8.toNat ≤ b.1.map UInt8.toNat
  let document := records.flatMap checksumLine
  require (decide (document.length ≤ maximumChecksumBytes))
    (.portableBundle "portable checksum manifest crosses its byte boundary")
  pure document

/-! ## Records -/

structure CentralRecord where
  name : Bytes
  crc32 : UInt32
  size : Nat
  externalAttributes : Nat
  localOffset : Nat
  deriving DecidableEq

/-- The output so far: its bytes, whose number is the offset, and the records of its members. -/
structure Output where
  written : Bytes
  records : List CentralRecord

def regularAttributes : Nat := 0x81A40000

def directoryAttributes : Nat := 0x41ED0010

/-- `_LOCAL.pack` -/
def localFields (record : CentralRecord) : List Field :=
  [word 0x04034B50, half 0x0014, half 0x0800, half 0, half 0, half 0x0021,
    word record.crc32.toNat, word record.size, word record.size, half record.name.length, half 0]

/-- `_CENTRAL.pack` -/
def centralFields (record : CentralRecord) : List Field :=
  [word 0x02014B50, half 0x0314, half 0x0014, half 0x0800, half 0, half 0, half 0x0021,
    word record.crc32.toNat, word record.size, word record.size, half record.name.length,
    half 0, half 0, half 0, half 0, word record.externalAttributes, word record.localOffset]

/-- `_EOCD.pack` -/
def endFields (count centralBytes centralOffset : Nat) : List Field :=
  [word 0x06054B50, half 0, half 0, half count, half count, word centralBytes, word centralOffset,
    half 0]

def packRecord (fields : List Field) : Except BundleError Bytes :=
  match pack fields with
  | some bytes => .ok bytes
  | none => .error .struct

/-! ## Writing -/

/-- `_write_output`: the size of the whole is checked before anything is written. -/
def writeOutput (output : Output) (data : Bytes) : Except BundleError Output := do
  require (decide (output.written.length + data.length ≤ maximumPortableBundleBytes))
    (.portableBundle "portable bundle crosses its byte boundary")
  pure { output with written := output.written ++ data }

def writeLocal (output : Output) (record : CentralRecord) : Except BundleError Output := do
  let header ← packRecord (localFields record)
  let output ← writeOutput output header
  writeOutput output record.name

def Output.record (output : Output) (record : CentralRecord) : Output :=
  { output with records := output.records ++ [record] }

def writeBytesMember (output : Output) (name data : Bytes) : Except BundleError Output := do
  let record : CentralRecord :=
    ⟨name, Zip.crc32 data 0, data.length, regularAttributes, output.written.length⟩
  let output ← writeLocal output record
  let output ← writeOutput output data
  pure (output.record record)

def writeDirectoryMember (output : Output) (name : Bytes) : Except BundleError Output := do
  let record : CentralRecord := ⟨name, 0, 0, directoryAttributes, output.written.length⟩
  let output ← writeLocal output record
  pure (output.record record)

/-- `_READ_BYTES` -/
def readBytes : Nat := 64 * 1024

/-- The loop over a file, a piece at a time. -/
def writeContent (output : Output) (content : Bytes) : Except BundleError Output :=
  if content = [] then .ok output
  else do
    let output ← writeOutput output (content.take readBytes)
    writeContent output (content.drop readBytes)
termination_by content.length
decreasing_by
  have hread : 0 < readBytes := by decide
  have hpos := List.length_pos_iff.2 ‹content ≠ []›
  rw [List.length_drop]
  omega

def writeFileMember (output : Output) (name content : Bytes) : Except BundleError Output := do
  let record : CentralRecord :=
    ⟨name, Zip.crc32 content 0, content.length, regularAttributes, output.written.length⟩
  let output ← writeLocal output record
  let output ← writeContent output content
  pure (output.record record)

def writeEntry (output : Output) (entry : SourceEntry) : Except BundleError Output :=
  match entry.content with
  | none => writeDirectoryMember output (contentName entry.pathBytes true)
  | some content => writeFileMember output (contentName entry.pathBytes false) content

def writeCentralRecord (output : Output) (record : CentralRecord) : Except BundleError Output := do
  let header ← packRecord (centralFields record)
  let output ← writeOutput output header
  writeOutput output record.name

/-- `_write_central` -/
def writeCentral (output : Output) : Except BundleError Output := do
  let centralOffset := output.written.length
  let records := output.records
  let output ← records.foldlM writeCentralRecord output
  let ending ← packRecord (endFields records.length (output.written.length - centralOffset)
    centralOffset)
  writeOutput output ending

/-- What the build computes on the way to the archive. -/
structure Built where
  checksums : Bytes
  members : Output
  archive : Output

/-- The encoding of `build_portable_bundle`. -/
def buildPortableBundle (entries : List SourceEntry) (manifestBytes : Bytes) :
    Except BundleError Built := do
  require (entries.any fun entry =>
      decide (entry.pathBytes = ascii "index.html") && entry.content.isSome)
    (.portableBundle "portable source has no root-level index.html regular file")
  let checksums ← checksums sha256 entries manifestBytes
  let output ← writeBytesMember ⟨[], []⟩ (envelopeName "format.json") formatBytes
  let output ← writeBytesMember output (envelopeName "manifest.json") manifestBytes
  let output ← writeBytesMember output (envelopeName "checksums.sha256") checksums
  let output ← writeDirectoryMember output (envelopeName "content/")
  let members ← entries.foldlM writeEntry output
  let archive ← writeCentral members
  pure ⟨checksums, members, archive⟩

end Build

/-! ## What every write adds -/

/-- A write adds some bytes and some records. -/
structure Adds (output after : Output) (bytes : Nat) (records : List CentralRecord) : Prop where
  length : after.written.length = output.written.length + bytes
  records : after.records = output.records ++ records

theorem Adds.trans {first second third : Output} {m n : Nat} {rs ss : List CentralRecord}
    (h : Adds first second m rs) (h' : Adds second third n ss) :
    Adds first third (m + n) (rs ++ ss) where
  length := by rw [h'.length, h.length, Nat.add_assoc]
  records := by rw [h'.records, h.records, List.append_assoc]

theorem writeOutput_adds (output : Output) (data : Bytes)
    (hroom : output.written.length + data.length ≤ maximumPortableBundleBytes) :
    ∃ after, writeOutput output data = .ok after ∧ Adds output after data.length [] := by
  refine ⟨{ output with written := output.written ++ data }, ?_, ?_, (List.append_nil _).symm⟩
  · unfold writeOutput
    rw [decide_eq_true hroom]
    rfl
  · exact List.length_append

/-- The values of a record fit their fields. -/
structure RecordFits (record : CentralRecord) : Prop where
  name : record.name.length < 256 ^ 2
  size : record.size < 256 ^ 4
  attributes : record.externalAttributes < 256 ^ 4
  offset : record.localOffset < 256 ^ 4

theorem crc_fits (value : UInt32) : value.toNat < 256 ^ 4 := value.toNat_lt

theorem localFields_fit {record : CentralRecord} (fits : RecordFits record) :
    ∀ field ∈ localFields record, field.Fits := by
  intro field hfield
  unfold localFields at hfield
  simp only [List.mem_cons, List.not_mem_nil, or_false] at hfield
  rcases hfield with rfl | rfl | rfl | rfl | rfl | rfl | rfl | rfl | rfl | rfl | rfl
  case inr.inr.inr.inr.inr.inr.inl => exact crc_fits record.crc32
  case inr.inr.inr.inr.inr.inr.inr.inl => exact fits.size
  case inr.inr.inr.inr.inr.inr.inr.inr.inl => exact fits.size
  case inr.inr.inr.inr.inr.inr.inr.inr.inr.inl => exact fits.name
  all_goals decide

theorem centralFields_fit {record : CentralRecord} (fits : RecordFits record) :
    ∀ field ∈ centralFields record, field.Fits := by
  intro field hfield
  unfold centralFields at hfield
  simp only [List.mem_cons, List.not_mem_nil, or_false] at hfield
  rcases hfield with rfl | rfl | rfl | rfl | rfl | rfl | rfl | rfl | rfl | rfl | rfl | rfl | rfl |
    rfl | rfl | rfl | rfl
  case inr.inr.inr.inr.inr.inr.inr.inl => exact crc_fits record.crc32
  case inr.inr.inr.inr.inr.inr.inr.inr.inl => exact fits.size
  case inr.inr.inr.inr.inr.inr.inr.inr.inr.inl => exact fits.size
  case inr.inr.inr.inr.inr.inr.inr.inr.inr.inr.inl => exact fits.name
  case inr.inr.inr.inr.inr.inr.inr.inr.inr.inr.inr.inr.inr.inr.inr.inl => exact fits.attributes
  case inr.inr.inr.inr.inr.inr.inr.inr.inr.inr.inr.inr.inr.inr.inr.inr => exact fits.offset
  all_goals decide

theorem endFields_fit {count size offset : Nat} (hcount : count < 256 ^ 2) (hsize : size < 256 ^ 4)
    (hoffset : offset < 256 ^ 4) : ∀ field ∈ endFields count size offset, field.Fits := by
  intro field hfield
  unfold endFields at hfield
  simp only [List.mem_cons, List.not_mem_nil, or_false] at hfield
  rcases hfield with rfl | rfl | rfl | rfl | rfl | rfl | rfl | rfl
  case inr.inr.inr.inl => exact hcount
  case inr.inr.inr.inr.inl => exact hcount
  case inr.inr.inr.inr.inr.inl => exact hsize
  case inr.inr.inr.inr.inr.inr.inl => exact hoffset
  all_goals decide

theorem packRecord_ok {fields : List Field} (h : ∀ field ∈ fields, field.Fits) :
    packRecord fields = .ok (packed fields) := by
  unfold packRecord
  rw [pack_of_fits h]

/-- Bytes of a local record, and of a central one. -/
def localBytes (record : CentralRecord) : Nat := 30 + record.name.length

def centralBytes (record : CentralRecord) : Nat := 46 + record.name.length

/-- A packed record and the name behind it. -/
theorem writePacked_adds (output : Output) {fields : List Field} {size : Nat} {name : Bytes}
    (hfit : ∀ field ∈ fields, field.Fits) (hsize : packedSize fields = size)
    (hroom : output.written.length + (size + name.length) ≤ maximumPortableBundleBytes) :
    ∃ after, (do
      let header ← packRecord fields
      let output ← writeOutput output header
      writeOutput output name) = .ok after ∧ Adds output after (size + name.length) [] := by
  have hheader : (packed fields).length = size := (packed_length fields).trans hsize
  obtain ⟨middle, hfirst, hadds⟩ := writeOutput_adds output (packed fields) (by omega)
  rw [hheader] at hadds
  have hlength := hadds.length
  obtain ⟨after, hsecond, hadds'⟩ := writeOutput_adds middle name (by omega)
  exact ⟨after, by rw [packRecord_ok hfit, ok_bind, hfirst, ok_bind, hsecond],
    hadds.trans hadds'⟩

theorem writeLocal_adds (output : Output) {record : CentralRecord} (fits : RecordFits record)
    (hroom : output.written.length + localBytes record ≤ maximumPortableBundleBytes) :
    ∃ after, writeLocal output record = .ok after ∧ Adds output after (localBytes record) [] := by
  refine writePacked_adds output (localFields_fit fits) ?_ hroom
  unfold packedSize localFields
  simp only [List.map_cons, List.map_nil, List.sum_cons, List.sum_nil, word, half, Nat.reduceAdd]

theorem writeCentralRecord_adds (output : Output) {record : CentralRecord}
    (fits : RecordFits record)
    (hroom : output.written.length + centralBytes record ≤ maximumPortableBundleBytes) :
    ∃ after, writeCentralRecord output record = .ok after ∧
      Adds output after (centralBytes record) [] := by
  refine writePacked_adds output (centralFields_fit fits) ?_ hroom
  unfold packedSize centralFields
  simp only [List.map_cons, List.map_nil, List.sum_cons, List.sum_nil, word, half, Nat.reduceAdd]

theorem writeContent_adds (output : Output) (content : Bytes)
    (hroom : output.written.length + content.length ≤ maximumPortableBundleBytes) :
    ∃ after, writeContent output content = .ok after ∧ Adds output after content.length [] := by
  fun_induction writeContent output content with
  | case1 output => exact ⟨output, rfl, rfl, (List.append_nil _).symm⟩
  | case2 output content hne ih =>
      have hsplit := congrArg List.length (List.take_append_drop readBytes content)
      rw [List.length_append] at hsplit
      obtain ⟨middle, hfirst, hadds⟩ := writeOutput_adds output (content.take readBytes)
        (by omega)
      have hlength := hadds.length
      obtain ⟨after, hsecond, hadds'⟩ := ih middle (by omega)
      refine ⟨after, by rw [hfirst, ok_bind, hsecond], ?_⟩
      have htogether := hadds.trans hadds'
      rw [hsplit] at htogether
      exact htogether

/-- The bytes that members of these names and sizes take before the central directory. -/
def memberBytes (members : List (Bytes × Nat)) : Nat :=
  (members.map fun member => 30 + member.1.length + member.2).sum

/-- What members of these names and sizes add. -/
structure AddsMembers (output after : Output) (members : List (Bytes × Nat)) : Prop where
  adds : ∃ records : List CentralRecord,
    records.map (fun record => (record.name, record.size)) = members ∧
    (∀ record ∈ records, RecordFits record) ∧ Adds output after (memberBytes members) records

theorem AddsMembers.trans {first second third : Output} {ms ns : List (Bytes × Nat)}
    (h : AddsMembers first second ms) (h' : AddsMembers second third ns) :
    AddsMembers first third (ms ++ ns) := by
  obtain ⟨rs, hrs, hfits, hadds⟩ := h.adds
  obtain ⟨ss, hss, hfits', hadds'⟩ := h'.adds
  refine ⟨rs ++ ss, ?_, ?_, ?_⟩
  · rw [List.map_append, hrs, hss]
  · intro record hrecord
    rcases List.mem_append.1 hrecord with hr | hs
    · exact hfits record hr
    · exact hfits' record hs
  · unfold memberBytes
    rw [List.map_append, List.sum_append]
    exact hadds.trans hadds'

theorem AddsMembers.length {output after : Output} {members : List (Bytes × Nat)}
    (h : AddsMembers output after members) :
    after.written.length = output.written.length + memberBytes members := by
  obtain ⟨_, _, _, hadds⟩ := h.adds
  exact hadds.length

theorem AddsMembers.single {output last : Output} {record : CentralRecord}
    (fits : RecordFits record)
    (hadds : Adds output last (30 + record.name.length + record.size) []) :
    AddsMembers output (last.record record) [(record.name, record.size)] := by
  refine ⟨[record], rfl, ?_, ?_, ?_⟩
  · intro other hother
    obtain rfl := List.mem_singleton.1 hother
    exact fits
  · show last.written.length = _ + (30 + record.name.length + record.size + 0)
    rw [hadds.length, Nat.add_zero]
  · show last.records ++ [record] = _
    rw [hadds.records, List.append_nil]

section Members

variable {output : Output} {name : Bytes}

theorem recordFits_of_room (crc : UInt32) (size attributes : Nat) (hname : name.length < 256 ^ 2)
    (hattributes : attributes < 256 ^ 4)
    (hroom : output.written.length + (30 + name.length + size) ≤ maximumPortableBundleBytes) :
    RecordFits ⟨name, crc, size, attributes, output.written.length⟩ := by
  have hmax : maximumPortableBundleBytes < 256 ^ 4 := by decide
  refine ⟨hname, ?_, hattributes, ?_⟩
  · show size < 256 ^ 4
    omega
  · show output.written.length < 256 ^ 4
    omega

/-- The local record of a member, its content, and its record for the central directory. -/
theorem writeMember_adds {record : CentralRecord} {write : Output → Except BundleError Output}
    (fits : RecordFits record)
    (hwrite : ∀ middle : Output, middle.written.length + record.size ≤ maximumPortableBundleBytes →
      ∃ after, write middle = .ok after ∧ Adds middle after record.size [])
    (hroom : output.written.length + (30 + record.name.length + record.size) ≤
      maximumPortableBundleBytes) :
    ∃ after, (do
      let output ← writeLocal output record
      let output ← write output
      pure (output.record record)) = .ok after ∧
        AddsMembers output after [(record.name, record.size)] := by
  obtain ⟨middle, hlocal, hadds⟩ := writeLocal_adds output fits (by unfold localBytes; omega)
  have hlength := hadds.length
  unfold localBytes at hlength
  obtain ⟨last, hdata, hadds'⟩ := hwrite middle (by omega)
  refine ⟨last.record record, ?_, AddsMembers.single fits (hadds.trans hadds')⟩
  rw [hlocal, ok_bind, hdata, ok_bind]
  rfl

theorem writeBytesMember_adds (output : Output) (name data : Bytes)
    (hname : name.length < 256 ^ 2)
    (hroom : output.written.length + (30 + name.length + data.length) ≤
      maximumPortableBundleBytes) :
    ∃ after, writeBytesMember output name data = .ok after ∧
      AddsMembers output after [(name, data.length)] :=
  writeMember_adds (recordFits_of_room _ _ _ hname (by decide) hroom)
    (fun middle => writeOutput_adds middle data) hroom

theorem writeDirectoryMember_adds (output : Output) (name : Bytes)
    (hname : name.length < 256 ^ 2)
    (hroom : output.written.length + (30 + name.length + 0) ≤ maximumPortableBundleBytes) :
    ∃ after, writeDirectoryMember output name = .ok after ∧ AddsMembers output after [(name, 0)] :=
  writeMember_adds (recordFits_of_room 0 _ _ hname (by decide) hroom)
    (fun middle _ => ⟨middle, rfl, rfl, (List.append_nil _).symm⟩) hroom

theorem writeFileMember_adds (output : Output) (name content : Bytes)
    (hname : name.length < 256 ^ 2)
    (hroom : output.written.length + (30 + name.length + content.length) ≤
      maximumPortableBundleBytes) :
    ∃ after, writeFileMember output name content = .ok after ∧
      AddsMembers output after [(name, content.length)] :=
  writeMember_adds (recordFits_of_room _ _ _ hname (by decide) hroom)
    (fun middle => writeContent_adds middle content) hroom

/-- The name and the size of the member of an entry. -/
def entryMember (entry : SourceEntry) : Bytes × Nat :=
  (contentName entry.pathBytes entry.content.isNone, entry.size)

theorem writeEntry_adds {entry : SourceEntry} (hname : (entryMember entry).1.length < 256 ^ 2)
    (hroom : output.written.length + memberBytes [entryMember entry] ≤
      maximumPortableBundleBytes) :
    ∃ after, writeEntry output entry = .ok after ∧
      AddsMembers output after [entryMember entry] := by
  obtain ⟨path, content⟩ := entry
  cases content with
  | none => exact writeDirectoryMember_adds _ _ hname hroom
  | some content => exact writeFileMember_adds _ _ _ hname hroom

theorem memberBytes_cons (member : Bytes × Nat) (members : List (Bytes × Nat)) :
    memberBytes (member :: members) = memberBytes [member] + memberBytes members := by
  unfold memberBytes
  rw [List.map_cons, List.sum_cons, List.map_singleton, List.sum_singleton]

/-- The run lemma of the entries. -/
theorem writeEntries_adds {entries : List SourceEntry}
    (hnames : ∀ entry ∈ entries, (entryMember entry).1.length < 256 ^ 2)
    (hroom : output.written.length + memberBytes (entries.map entryMember) ≤
      maximumPortableBundleBytes) :
    ∃ after, entries.foldlM writeEntry output = .ok after ∧
      AddsMembers output after (entries.map entryMember) := by
  induction entries generalizing output with
  | nil => exact ⟨output, rfl, [], rfl, fun _ h => absurd h List.not_mem_nil, rfl,
      (List.append_nil _).symm⟩
  | cons entry entries ih =>
      rw [List.map_cons, memberBytes_cons] at hroom
      have hnow : output.written.length + memberBytes [entryMember entry] ≤
          maximumPortableBundleBytes := by omega
      obtain ⟨middle, hfirst, hadds⟩ := writeEntry_adds (hnames entry List.mem_cons_self) hnow
      have hlength := hadds.length
      have hroom' : middle.written.length + memberBytes (entries.map entryMember) ≤
          maximumPortableBundleBytes := by omega
      obtain ⟨after, hrest, hadds'⟩ := ih
        (fun other hother => hnames other (List.mem_cons_of_mem _ hother)) hroom'
      refine ⟨after, ?_, hadds.trans hadds'⟩
      rw [List.foldlM_cons]
      exact bind_eq_ok.2 ⟨middle, hfirst, hrest⟩

/-- And of the central directory. -/
theorem writeCentralRecords_adds {records : List CentralRecord}
    (hfits : ∀ record ∈ records, RecordFits record)
    (hroom : output.written.length + (records.map centralBytes).sum ≤
      maximumPortableBundleBytes) :
    ∃ after, records.foldlM writeCentralRecord output = .ok after ∧
      Adds output after (records.map centralBytes).sum [] := by
  induction records generalizing output with
  | nil => exact ⟨output, rfl, rfl, (List.append_nil _).symm⟩
  | cons record records ih =>
      rw [List.map_cons, List.sum_cons] at hroom
      obtain ⟨middle, hfirst, hadds⟩ := writeCentralRecord_adds output
        (hfits record List.mem_cons_self) (by omega)
      have hlength := hadds.length
      have hroom' : middle.written.length + (records.map centralBytes).sum ≤
          maximumPortableBundleBytes := by omega
      obtain ⟨after, hrest, hadds'⟩ := ih
        (fun other hother => hfits other (List.mem_cons_of_mem _ hother)) hroom'
      refine ⟨after, ?_, hadds.trans hadds'⟩
      rw [List.foldlM_cons]
      exact bind_eq_ok.2 ⟨middle, hfirst, hrest⟩

end Members

/-! ## The sizes of an admitted tree -/

theorem ascii_length (text : String) : (ascii text).length = text.toList.length :=
  List.length_map _

theorem sha256Text_length (value : Sha256) : (ascii (sha256Text value)).length = 64 := by
  rw [ascii_length]
  unfold sha256Text
  rw [String.toList_ofList, List.length_map, fixedDigits_length (by decide)]
  have hlt := value.isLt
  omega

theorem sum_le {α : Type} (l : List α) (f : α → Nat) (bound : Nat) (h : ∀ a ∈ l, f a ≤ bound) :
    (l.map f).sum ≤ l.length * bound := by
  induction l with
  | nil => exact Nat.zero_le _
  | cons a l ih =>
      rw [List.map_cons, List.sum_cons, List.length_cons, Nat.add_mul, Nat.one_mul]
      have hfirst := h a List.mem_cons_self
      have hrest := ih fun b hb => h b (List.mem_cons_of_mem _ hb)
      omega

theorem checksumLine_length (path : Bytes) (value : Sha256) :
    (checksumLine (path, sha256Text value)).length = 67 + path.length := by
  have hspace : (ascii "  ").length = 2 := rfl
  have hend : (ascii "\n").length = 1 := rfl
  unfold checksumLine
  dsimp only
  rw [List.length_append, List.length_append, List.length_append, sha256Text_length, hspace, hend]
  omega

/-- The checksum document of a release tree: two fixed lines, and one for each file. -/
theorem checksums_ok (sha256 : Bytes → Sha256) (tree : ReleaseEntries) (manifestBytes : Bytes) :
    ∃ document, checksums sha256 tree.entries manifestBytes = .ok document ∧
      document.length ≤ maximumChecksumBytes := by
  have hformat : (ascii "format.json").length = 11 := rfl
  have hmanifest : (ascii "manifest.json").length = 13 := rfl
  have hcontent : (ascii "content/").length = 8 := rfl
  have hpath : maxReleasePathBytes = 1024 := rfl
  have hentries : maxReleaseEntries = 5000 := rfl
  have hfew := tree.few
  -- the order of the lines does not matter for their length
  have hlength : (((checksumRecords sha256 tree.entries manifestBytes).insertionSort fun a b =>
      a.1.map UInt8.toNat ≤ b.1.map UInt8.toNat).flatMap checksumLine).length ≤
        maximumChecksumBytes := by
    rw [List.length_flatMap, ((List.perm_insertionSort _ _).map _).sum_eq]
    unfold checksumRecords
    rw [List.map_cons, List.sum_cons, List.map_cons, List.sum_cons,
      checksumLine_length, checksumLine_length, hformat, hmanifest]
    have hfiles := sum_le (tree.entries.filterMap fun entry => entry.content.map fun content =>
        (ascii "content/" ++ entry.pathBytes, sha256Text (sha256 content)))
      (fun record => (checksumLine record).length) 1099 (by
        intro record hrecord
        obtain ⟨entry, hentry, hsome⟩ := List.mem_filterMap.1 hrecord
        obtain ⟨content, _, rfl⟩ := Option.map_eq_some_iff.1 hsome
        have hshort := tree.short entry hentry
        show (checksumLine _).length ≤ 1099
        rw [checksumLine_length, List.length_append, hcontent]
        omega)
    have hcount := List.length_filterMap_le (fun entry : SourceEntry => entry.content.map
      fun content => (ascii "content/" ++ entry.pathBytes, sha256Text (sha256 content))) tree.entries
    have hmax : maximumChecksumBytes = 5495158 := rfl
    omega
  refine ⟨_, ?_, hlength⟩
  unfold checksums
  dsimp only
  rw [decide_eq_true hlength]
  rfl

theorem contentName_length (path : Bytes) (isDirectory : Bool) :
    (contentName path isDirectory).length ≤ 33 + path.length := by
  have henvelope : (ascii portableEnvelope).length = 23 := rfl
  have hcontent : (ascii "/content/").length = 9 := rfl
  unfold contentName
  rw [List.length_append, List.length_append, List.length_append, henvelope, hcontent]
  cases isDirectory with
  | false =>
      show 23 + 9 + path.length + 0 ≤ _
      omega
  | true =>
      show 23 + 9 + path.length + 1 ≤ _
      omega

theorem ReleaseEntries.name_length (tree : ReleaseEntries) {entry : SourceEntry}
    (hentry : entry ∈ tree.entries) :
    (entryMember entry).1.length ≤ maximumEnvelopeNameBytes := by
  have hshort := tree.short entry hentry
  have hname := contentName_length entry.pathBytes entry.content.isNone
  have hpath : maxReleasePathBytes = 1024 := rfl
  show (contentName entry.pathBytes entry.content.isNone).length ≤ 1057
  omega

/-- The names of the envelope and the sizes of its documents. -/
def envelopeMembers (manifestBytes document : Bytes) : List (Bytes × Nat) :=
  [(envelopeName "format.json", formatBytes.length),
    (envelopeName "manifest.json", manifestBytes.length),
    (envelopeName "checksums.sha256", document.length), (envelopeName "content/", 0)]

/-- What is left of the bounds: names, record fields, counts and totals all fit. -/
structure BundleFits (tree : ReleaseEntries) (built : Built) : Prop where
  checksums : built.checksums.length ≤ maximumChecksumBytes
  names : ∀ record ∈ built.members.records, record.name.length ≤ maximumEnvelopeNameBytes
  fields : ∀ record ∈ built.members.records,
    ∀ field ∈ localFields record ++ centralFields record, field.Fits
  ending : ∀ field ∈ endFields built.members.records.length
    (built.members.records.map centralBytes).sum built.members.written.length, field.Fits
  count : built.members.records.length = tree.entries.length + 4 ∧
    built.members.records.length ≤ maximumPortableRecords
  central : (built.members.records.map centralBytes).sum ≤ maximumCentralBytes
  archive : built.archive.written.length = built.members.written.length +
      (built.members.records.map centralBytes).sum + 22 ∧
    built.archive.written.length ≤ maximumPortableBundleBytes
  expanded : (built.members.records.map CentralRecord.size).sum ≤ maximumPortableExpandedBytes

/-- A manifest within its limit. -/
structure Manifest where
  bytes : Bytes
  small : bytes.length ≤ maximumManifestBytes

theorem envelope_lengths :
    (envelopeName "format.json").length = 35 ∧ (envelopeName "manifest.json").length = 37 ∧
      (envelopeName "checksums.sha256").length = 40 ∧ (envelopeName "content/").length = 32 ∧
      formatBytes.length = 46 := by
  decide

/-- The members of a tree and their totals. -/
theorem members_bounds (tree : ReleaseEntries) :
    memberBytes (tree.entries.map entryMember) ≤ 110292600 ∧
      ((tree.entries.map entryMember).map Prod.snd).sum ≤ maxReleaseContentBytes ∧
      ((tree.entries.map entryMember).map fun member => 46 + member.1.length).sum ≤ 5515000 := by
  have hfew := tree.few
  have hbounded := tree.bounded
  have hentries : maxReleaseEntries = 5000 := rfl
  have hcontent : maxReleaseContentBytes = 104857600 := rfl
  have hnames := sum_le tree.entries (fun entry => 30 + (entryMember entry).1.length) 1087 (by
    intro entry hentry
    have hname := tree.name_length hentry
    have hmax : maximumEnvelopeNameBytes = 1057 := rfl
    omega)
  have hcentral := sum_le tree.entries (fun entry => 46 + (entryMember entry).1.length) 1103 (by
    intro entry hentry
    have hname := tree.name_length hentry
    have hmax : maximumEnvelopeNameBytes = 1057 := rfl
    omega)
  unfold memberBytes
  rw [List.map_map, List.map_map, List.map_map]
  refine ⟨?_, hbounded, ?_⟩
  · have hsplit := List.sum_map_add
      (l := tree.entries) (f := fun entry => 30 + (entryMember entry).1.length)
      (g := SourceEntry.size)
    show (tree.entries.map fun entry => 30 + (entryMember entry).1.length + entry.size).sum ≤ _
    omega
  · show (tree.entries.map fun entry => 46 + (entryMember entry).1.length).sum ≤ _
    omega

/-- The members of a bundle take this much of it at most. -/
theorem memberBytes_bound (tree : ReleaseEntries) (manifest : Manifest) {document : Bytes}
    (hdocument : document.length ≤ maximumChecksumBytes) :
    memberBytes (envelopeMembers manifest.bytes document ++ tree.entries.map entryMember) ≤
      115804452 := by
  obtain ⟨hformat, hmanifest, hchecksums, hcontent, hbytes⟩ := envelope_lengths
  obtain ⟨hmembers, _, _⟩ := members_bounds tree
  have hsmall := manifest.small
  have hmaxManifest : maximumManifestBytes = 16384 := rfl
  have hmaxChecksum : maximumChecksumBytes = 5495158 := rfl
  unfold memberBytes at hmembers ⊢
  rw [List.map_append, List.sum_append]
  simp only [envelopeMembers, List.map_cons, List.map_nil, List.sum_cons, List.sum_nil, hformat,
    hmanifest, hchecksums, hcontent, hbytes]
  omega

/-- The records behind the members of a bundle, and their totals. -/
theorem records_bounds (tree : ReleaseEntries) (manifest : Manifest) {document : Bytes}
    (hdocument : document.length ≤ maximumChecksumBytes) {records : List CentralRecord}
    (hrecords : records.map (fun record => (record.name, record.size)) =
      envelopeMembers manifest.bytes document ++ tree.entries.map entryMember) :
    records.length = tree.entries.length + 4 ∧
      (records.map centralBytes).sum ≤ 5515328 ∧
      (records.map CentralRecord.size).sum ≤ maximumPortableExpandedBytes ∧
      ∀ record ∈ records, record.name.length ≤ maximumEnvelopeNameBytes := by
  obtain ⟨hformat, hmanifest, hchecksums, hcontent, hbytes⟩ := envelope_lengths
  obtain ⟨_, hsizes, hcentral⟩ := members_bounds tree
  have hsmall := manifest.small
  have hmaxManifest : maximumManifestBytes = 16384 := rfl
  have hmaxChecksum : maximumChecksumBytes = 5495158 := rfl
  have hmaxContent : maxReleaseContentBytes = 104857600 := rfl
  refine ⟨?_, ?_, ?_, ?_⟩
  · have hlength := congrArg List.length hrecords
    rw [List.length_map, List.length_append, List.length_map] at hlength
    rw [hlength]
    exact Nat.add_comm _ _
  · have hsum : (records.map centralBytes).sum =
        ((records.map fun record => (record.name, record.size)).map
          fun member => 46 + member.1.length).sum := by
      rw [List.map_map]
      rfl
    rw [hsum, hrecords, List.map_append, List.sum_append]
    simp only [envelopeMembers, List.map_cons, List.map_nil, List.sum_cons, List.sum_nil, hformat,
      hmanifest, hchecksums, hcontent]
    omega
  · have hsum : (records.map CentralRecord.size).sum =
        ((records.map fun record => (record.name, record.size)).map Prod.snd).sum := by
      rw [List.map_map]
      rfl
    have hmax : maximumPortableExpandedBytes = 111149056 := rfl
    rw [hsum, hrecords, List.map_append, List.sum_append]
    simp only [envelopeMembers, List.map_cons, List.map_nil, List.sum_cons, List.sum_nil, hbytes]
    omega
  · intro record hrecord
    have hmem := List.mem_map_of_mem (f := fun record => (record.name, record.size)) hrecord
    rw [hrecords] at hmem
    have hmaxName : maximumEnvelopeNameBytes = 1057 := rfl
    rcases List.mem_append.1 hmem with henvelope | hentry
    · have hlengths : ∀ member ∈ envelopeMembers manifest.bytes document,
          member.1.length ≤ maximumEnvelopeNameBytes := by
        intro member hmember
        simp only [envelopeMembers, List.mem_cons, List.not_mem_nil, or_false] at hmember
        rcases hmember with rfl | rfl | rfl | rfl
        all_goals
          dsimp only
          omega
      exact hlengths _ henvelope
    · obtain ⟨entry, hentry, hsame⟩ := List.mem_map.1 hentry
      have hname := tree.name_length hentry
      rw [hsame] at hname
      exact hname

theorem memberBytes_append (ms ns : List (Bytes × Nat)) :
    memberBytes (ms ++ ns) = memberBytes ms + memberBytes ns := by
  unfold memberBytes
  rw [List.map_append, List.sum_append]

/-- The members of an admitted tree are written, the envelope first. -/
theorem writeMembers_adds (tree : ReleaseEntries) (manifest : Manifest) (document : Bytes)
    (hroom : memberBytes (envelopeMembers manifest.bytes document ++
      tree.entries.map entryMember) ≤ maximumPortableBundleBytes) :
    ∃ first second third fourth members : Output,
      writeBytesMember ⟨[], []⟩ (envelopeName "format.json") formatBytes = .ok first ∧
      writeBytesMember first (envelopeName "manifest.json") manifest.bytes = .ok second ∧
      writeBytesMember second (envelopeName "checksums.sha256") document = .ok third ∧
      writeDirectoryMember third (envelopeName "content/") = .ok fourth ∧
      tree.entries.foldlM writeEntry fourth = .ok members ∧
      AddsMembers ⟨[], []⟩ members
        (envelopeMembers manifest.bytes document ++ tree.entries.map entryMember) := by
  obtain ⟨hformat, hmanifest, hchecksums, hcontent, _⟩ := envelope_lengths
  have hsplit := memberBytes_append (envelopeMembers manifest.bytes document)
    (tree.entries.map entryMember)
  have henvelope : memberBytes (envelopeMembers manifest.bytes document) =
      (30 + (envelopeName "format.json").length + formatBytes.length) +
      ((30 + (envelopeName "manifest.json").length + manifest.bytes.length) +
      ((30 + (envelopeName "checksums.sha256").length + document.length) +
      ((30 + (envelopeName "content/").length + 0) + 0))) := rfl
  -- after each member the room left is what the members behind it need
  have hsingle : ∀ (name : Bytes) (size : Nat),
      memberBytes [(name, size)] = 30 + name.length + size + 0 := fun _ _ => rfl
  have hstart : (⟨[], []⟩ : Output).written.length = 0 := rfl
  obtain ⟨first, hfirst, hadds₁⟩ := writeBytesMember_adds ⟨[], []⟩ (envelopeName "format.json")
    formatBytes (by omega) (by omega)
  have hlength₁ := hadds₁.length
  rw [hsingle] at hlength₁
  obtain ⟨second, hsecond, hadds₂⟩ := writeBytesMember_adds first (envelopeName "manifest.json")
    manifest.bytes (by omega) (by omega)
  have hlength₂ := hadds₂.length
  rw [hsingle] at hlength₂
  obtain ⟨third, hthird, hadds₃⟩ := writeBytesMember_adds second
    (envelopeName "checksums.sha256") document (by omega) (by omega)
  have hlength₃ := hadds₃.length
  rw [hsingle] at hlength₃
  obtain ⟨fourth, hfourth, hadds₄⟩ := writeDirectoryMember_adds third (envelopeName "content/")
    (by omega) (by omega)
  have hlength₄ := hadds₄.length
  rw [hsingle] at hlength₄
  have hnames : ∀ entry ∈ tree.entries, (entryMember entry).1.length < 256 ^ 2 := by
    intro entry hentry
    have hname := tree.name_length hentry
    have hmax : maximumEnvelopeNameBytes = 1057 := rfl
    omega
  have hrest : fourth.written.length + memberBytes (tree.entries.map entryMember) ≤
      maximumPortableBundleBytes := by omega
  obtain ⟨members, hmembers, hadds₅⟩ := writeEntries_adds hnames hrest
  exact ⟨first, second, third, fourth, members, hfirst, hsecond, hthird, hfourth, hmembers,
    (((hadds₁.trans hadds₂).trans hadds₃).trans hadds₄).trans hadds₅⟩

/-- An admitted tree is encoded, unless it lacks an index, and all sizes are within the bounds. -/
theorem buildPortableBundle_fits (sha256 : Bytes → Sha256) (tree : ReleaseEntries)
    (manifest : Manifest) :
    (∃ built, buildPortableBundle sha256 tree.entries manifest.bytes = .ok built ∧
      BundleFits tree built) ∨
    (¬ ∃ entry ∈ tree.entries, entry.pathBytes = ascii "index.html" ∧ entry.content ≠ none) ∧
      buildPortableBundle sha256 tree.entries manifest.bytes = .error
        (.portableBundle "portable source has no root-level index.html regular file") := by
  by_cases hindex : (tree.entries.any fun entry =>
      decide (entry.pathBytes = ascii "index.html") && entry.content.isSome) = true
  · left
    obtain ⟨document, hdocument, hbound⟩ := checksums_ok sha256 tree manifest.bytes
    have hmaxBundle : maximumPortableBundleBytes = 125829120 := rfl
    have hmaxRecords : maximumPortableRecords = 5004 := rfl
    have hmaxCentral : maximumCentralBytes = 8388608 := rfl
    have hmaxEntries : maxReleaseEntries = 5000 := rfl
    have hfew := tree.few
    have htotal := memberBytes_bound tree manifest hbound
    obtain ⟨first, second, third, fourth, members, hfirst, hsecond, hthird, hfourth, hmembers,
      hadds⟩ := writeMembers_adds tree manifest document (by omega)
    have hlength := hadds.length
    have hstart : (⟨[], []⟩ : Output).written.length = 0 := rfl
    obtain ⟨records, hrecords, hfits, hadded⟩ := hadds.adds
    have hsame : members.records = records := hadded.records
    obtain ⟨hcount, hcentral, hexpanded, hnames⟩ := records_bounds tree manifest hbound hrecords
    rw [← hsame] at hfits hcount hcentral hexpanded hnames
    -- the members and their central records stay below the bound on the whole archive
    have hroom : members.written.length + (members.records.map centralBytes).sum ≤
        maximumPortableBundleBytes := by omega
    obtain ⟨directory, hdirectory, hadds'⟩ := writeCentralRecords_adds hfits hroom
    have hlength' := hadds'.length
    have hending : ∀ field ∈ endFields members.records.length
        (members.records.map centralBytes).sum members.written.length, field.Fits :=
      endFields_fit (by omega) (by omega) (by omega)
    have hsize : (packed (endFields members.records.length
        (members.records.map centralBytes).sum members.written.length)).length = 22 := by
      rw [packed_length]
      unfold packedSize endFields
      simp only [List.map_cons, List.map_nil, List.sum_cons, List.sum_nil, word, half,
        Nat.reduceAdd]
    obtain ⟨archive, harchive, hadds''⟩ := writeOutput_adds directory
      (packed (endFields members.records.length (members.records.map centralBytes).sum
        members.written.length)) (by omega)
    have hlength'' := hadds''.length
    -- the size of the central directory is measured as what was written since the members
    have hwrite : writeCentral members = .ok archive := by
      have hgap : directory.written.length - members.written.length =
          (members.records.map centralBytes).sum := by omega
      unfold writeCentral
      dsimp only
      rw [hdirectory, ok_bind, hgap, packRecord_ok hending, ok_bind, harchive]
    refine ⟨⟨document, members, archive⟩, ?_, hbound, hnames, ?_, hending, ⟨hcount, ?_⟩, ?_,
      ⟨?_, ?_⟩, hexpanded⟩
    · unfold buildPortableBundle
      rw [hindex, require_true, ok_bind, hdocument, ok_bind, hfirst, ok_bind, hsecond, ok_bind,
        hthird, ok_bind, hfourth, ok_bind, hmembers, ok_bind, hwrite]
      rfl
    · intro record hrecord field hfield
      rcases List.mem_append.1 hfield with hlocal | hcentral
      · exact localFields_fit (hfits record hrecord) field hlocal
      · exact centralFields_fit (hfits record hrecord) field hcentral
    · show members.records.length ≤ _
      omega
    · show (members.records.map centralBytes).sum ≤ _
      omega
    · show archive.written.length =
        members.written.length + (members.records.map centralBytes).sum + 22
      omega
    · show archive.written.length ≤ _
      omega
  · right
    refine ⟨?_, ?_⟩
    · rintro ⟨entry, hentry, hpath, hcontent⟩
      apply hindex
      refine List.any_eq_true.2 ⟨entry, hentry, ?_⟩
      rw [decide_eq_true hpath, Bool.true_and, Option.isSome_iff_ne_none]
      exact hcontent
    · unfold buildPortableBundle
      rw [Bool.eq_false_iff.2 hindex]
      rfl

/-- A page in a tree with one directory. -/
def pageEntries : ReleaseEntries where
  entries := [⟨ascii "assets", none⟩, ⟨ascii "index.html", some (ascii "<p>A page</p>\n")⟩]
  few := by decide
  short := by decide
  small := by decide
  bounded := by decide

def pageManifest : Manifest := ⟨ascii "\x7b\x7d\n", by decide⟩

theorem pageEntries_built :
    ∃ built, buildPortableBundle (fun _ => 0) pageEntries.entries pageManifest.bytes = .ok built ∧
      BundleFits pageEntries built := by
  rcases buildPortableBundle_fits (fun _ => 0) pageEntries pageManifest with hbuilt | ⟨hindex, -⟩
  · exact hbuilt
  · exact absurd ⟨_, List.mem_cons_of_mem _ List.mem_cons_self, rfl, by decide⟩ hindex

end StaticHostAgent.Zip
