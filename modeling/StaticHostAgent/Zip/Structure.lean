import StaticHostAgent.Library.PackedFields
import StaticHostAgent.Library.Tiling
import StaticHostAgent.Zip.MaterializedPaths

/-!
# The structure of a deployment archive

A snapshot is inspected without a decoder: the end record at its physical end, the central records
in their directory, the local header of every member. Names are decoded, normalized and checked; the
local regions are sorted and have to follow one another up to the central directory.
-/

set_option autoImplicit false

namespace StaticHostAgent.Zip

open Library Contracts

/-! ## Limits -/

/-- Limits that can be tightened only. -/
structure ZipLimits where
  maximumArchiveBytes : Nat
  maximumCentralDirectoryBytes : Nat
  maximumEntries : Nat
  maximumExpandedBytes : Nat
  maximumFileBytes : Nat
  maximumExpansionRatio : Nat
  maximumPathBytes : Nat
  maximumComponentBytes : Nat
  maximumPathDepth : Nat
  maximumExtraBytes : Nat
  archive_le : maximumArchiveBytes ≤ 100 * 1024 * 1024
  central_le : maximumCentralDirectoryBytes ≤ 8 * 1024 * 1024
  entries_le : maximumEntries ≤ 5000
  expanded_le : maximumExpandedBytes ≤ 100 * 1024 * 1024
  file_le : maximumFileBytes ≤ 25 * 1024 * 1024
  ratio_le : maximumExpansionRatio ≤ 100
  path_le : maximumPathBytes ≤ 1024
  component_le : maximumComponentBytes ≤ 255
  depth_le : maximumPathDepth ≤ 32
  extra_le : maximumExtraBytes ≤ 1024

/-- `DEFAULT_ZIP_LIMITS` -/
def defaultZipLimits : ZipLimits where
  maximumArchiveBytes := 100 * 1024 * 1024
  maximumCentralDirectoryBytes := 8 * 1024 * 1024
  maximumEntries := 5000
  maximumExpandedBytes := 100 * 1024 * 1024
  maximumFileBytes := 25 * 1024 * 1024
  maximumExpansionRatio := 100
  maximumPathBytes := 1024
  maximumComponentBytes := 255
  maximumPathDepth := 32
  maximumExtraBytes := 1024
  archive_le := Nat.le_refl _
  central_le := Nat.le_refl _
  entries_le := Nat.le_refl _
  expanded_le := Nat.le_refl _
  file_le := Nat.le_refl _
  ratio_le := Nat.le_refl _
  path_le := Nat.le_refl _
  component_le := Nat.le_refl _
  depth_le := Nat.le_refl _
  extra_le := Nat.le_refl _

/-- What the standard library knows about characters. Normalization makes no slash. -/
structure UnicodeTables where
  normalizeNfc : String → String
  casefold : String → String
  isAlpha : Char → Bool
  noSlash : ∀ text : String, '/' ∉ text.toList → '/' ∉ (normalizeNfc text).toList

/-! ## Headers -/

/-- `_EOCD_SIGNATURE` -/
def eocdSignature : Nat := 0x06054B50

/-- `_CENTRAL_SIGNATURE` -/
def centralSignature : Nat := 0x02014B50

/-- `_LOCAL_SIGNATURE` -/
def localSignature : Nat := 0x04034B50

/-- `_UTF8_FLAG` -/
def utf8Flag : Nat := 0x0800

/-- `_DEFLATE_OPTION_FLAGS` -/
def deflateOptionFlags : Nat := 0x0006

/-- `_STORED_METHOD` -/
def storedMethod : Nat := 0

/-- `_DEFLATE_METHOD` -/
def deflateMethod : Nat := 8

/-- `_ZIP64_SENTINEL_16` -/
def zip64Sentinel16 : Nat := 0xFFFF

/-- `_ZIP64_SENTINEL_32` -/
def zip64Sentinel32 : Nat := 0xFFFFFFFF

/-- `_MAXIMUM_DECODER_VERSION` -/
def maximumDecoderVersion : Nat := 20

/-- What a central record and its local header both say about a member. -/
structure Description where
  versionNeeded : Nat
  flags : Nat
  method : Nat
  modifiedTime : Nat
  modifiedDate : Nat
  crc32 : Nat
  compressedBytes : Nat
  expandedBytes : Nat
  deriving DecidableEq

/-- The fields of `_EOCD`. -/
structure EndRecord where
  signature : Nat
  diskNumber : Nat
  centralDisk : Nat
  recordsOnDisk : Nat
  recordCount : Nat
  centralBytes : Nat
  centralOffset : Nat
  commentBytes : Nat

/-- The fields of `_CENTRAL`. -/
structure CentralHeader extends Description where
  signature : Nat
  madeBy : Nat
  nameBytes : Nat
  extraBytes : Nat
  commentBytes : Nat
  diskNumber : Nat
  internalAttributes : Nat
  externalAttributes : Nat
  localHeaderOffset : Nat

/-- The fields of `_LOCAL`. -/
structure LocalHeader extends Description where
  signature : Nat
  nameBytes : Nat
  extraBytes : Nat

/-- `_EOCD.size` -/
def eocdSize : Nat := 22

/-- `_CENTRAL.size` -/
def centralSize : Nat := 46

/-- `_LOCAL.size` -/
def localSize : Nat := 30

/-- `_EOCD.unpack` -/
def EndRecord.unpack (data : Bytes) : EndRecord where
  signature := wordAt data 0
  diskNumber := halfAt data 4
  centralDisk := halfAt data 6
  recordsOnDisk := halfAt data 8
  recordCount := halfAt data 10
  centralBytes := wordAt data 12
  centralOffset := wordAt data 16
  commentBytes := halfAt data 20

/-- `_CENTRAL.unpack` -/
def CentralHeader.unpack (data : Bytes) : CentralHeader where
  signature := wordAt data 0
  madeBy := halfAt data 4
  versionNeeded := halfAt data 6
  flags := halfAt data 8
  method := halfAt data 10
  modifiedTime := halfAt data 12
  modifiedDate := halfAt data 14
  crc32 := wordAt data 16
  compressedBytes := wordAt data 20
  expandedBytes := wordAt data 24
  nameBytes := halfAt data 28
  extraBytes := halfAt data 30
  commentBytes := halfAt data 32
  diskNumber := halfAt data 34
  internalAttributes := halfAt data 36
  externalAttributes := wordAt data 38
  localHeaderOffset := wordAt data 42

/-- `_LOCAL.unpack` -/
def LocalHeader.unpack (data : Bytes) : LocalHeader where
  signature := wordAt data 0
  versionNeeded := halfAt data 4
  flags := halfAt data 6
  method := halfAt data 8
  modifiedTime := halfAt data 10
  modifiedDate := halfAt data 12
  crc32 := wordAt data 14
  compressedBytes := wordAt data 18
  expandedBytes := wordAt data 22
  nameBytes := halfAt data 26
  extraBytes := halfAt data 28

/-! ## Names -/

/-- The text of a name under its encoding flag. -/
def decodeText (rawName : Bytes) (flags : Nat) : Option String :=
  if flags &&& utf8Flag ≠ 0 then String.fromUTF8? ⟨rawName.toArray⟩
  else if rawName.all fun byte => decide (byte < 128) then
    some (String.ofList (rawName.map fun byte => Char.ofNat byte.toNat))
  else none

/-- `unicodedata.category(character) == "Cc"` -/
def isControl (character : Char) : Bool :=
  decide (character.toNat < 0x20) || decide (0x7F ≤ character.toNat ∧ character.toNat < 0xA0)

/-- The first component looks like a drive. -/
def driveQualified (isAlpha : Char → Bool) (component : String) : Bool :=
  match component.toList with
  | first :: second :: _ => isAlpha first && second == ':'
  | _ => false

/-- An empty or absolute path, or one with an empty component. -/
def malformedPath (path : List Char) : Bool :=
  path.isEmpty || path.head? == some '/' || path.getLast? == some '/' ||
    decide (['/', '/'] <:+: path)

section Decode

variable (unicode : UnicodeTables) (limits : ZipLimits)

/-- The checks of one component, and its normalized text. -/
def normalizeComponent (component : String) : Except ZipError String := do
  require (!(component == "." || component == ".."))
    (.structure "ZIP member path traverses a relative component")
  require (!component.toList.any isControl)
    (.structure "ZIP member path contains a control character")
  let normalized := unicode.normalizeNfc component
  require (decide (normalized ≠ "") &&
      decide (normalized.utf8ByteSize ≤ limits.maximumComponentBytes))
    (.structure "ZIP member component crosses its byte boundary")
  pure normalized

theorem normalizeComponent_ok {component normalized : String}
    (h : normalizeComponent unicode limits component = .ok normalized) :
    normalized = unicode.normalizeNfc component := by
  unfold normalizeComponent at h
  obtain ⟨_, _, h⟩ := bind_eq_ok.1 h
  obtain ⟨_, _, h⟩ := bind_eq_ok.1 h
  obtain ⟨_, _, h⟩ := bind_eq_ok.1 h
  exact (pure_eq_ok.1 h).symm

/-- Normalized components make a path of the same depth. -/
theorem splitPath_normalized {path : String} {normalized : List String}
    (h : (splitPath path).mapM (normalizeComponent unicode limits) = .ok normalized) :
    (splitPath path).length = (splitPath (joinPath normalized)).length := by
  have hall := mapM_eq_ok_iff.1 h
  have hlength := hall.length_eq
  have hne : normalized ≠ [] := by
    intro hnil
    rw [hnil, List.length_nil] at hlength
    exact splitPath_ne_nil path (List.length_eq_zero_iff.1 hlength)
  rw [splitPath_joinPath_of_noSlash hne, hlength]
  intro component hcomponent
  obtain ⟨index, hindex, rfl⟩ := List.mem_iff_getElem.1 hcomponent
  have hsource := hall.get (by omega) hindex
  have hequal := normalizeComponent_ok unicode limits hsource
  rw [List.get_eq_getElem, List.get_eq_getElem] at hequal
  rw [hequal]
  apply unicode.noSlash
  exact noSlash_of_mem_splitPath (List.getElem_mem _)

/-- A name as spelled and with normalized components. -/
structure DecodedName where
  sourceName : String
  normalizedPath : String
  markerIsDirectory : Bool
  sameDepth : (splitPath sourceName).length = (splitPath normalizedPath).length

/-- The checks of the path before its components are looked at. -/
def checkSourcePath (sourcePath : String) : Except ZipError Unit := do
  require (!malformedPath sourcePath.toList)
    (.structure "ZIP member path has an absolute or empty component")
  require (decide ((splitPath sourcePath).length ≤ limits.maximumPathDepth))
    (.structure "ZIP member path crosses its depth boundary")
  require (!driveQualified unicode.isAlpha ((splitPath sourcePath).headD ""))
    (.structure "ZIP member path has a drive-qualified root")

/-- The checks of the normalized path. -/
def checkNormalizedPath (normalized : List String) : Except ZipError Unit := do
  require (decide ((joinPath normalized).utf8ByteSize ≤ limits.maximumPathBytes))
    (.structure "ZIP member path crosses its byte boundary")
  require (decide (unicode.casefold (normalized.headD "") ≠ "cdn-cgi"))
    (.structure "ZIP member uses Cloudflare's reserved first component")

/-- `_decode_name` -/
def decodeName (rawName : Bytes) (flags : Nat) : Except ZipError DecodedName := do
  require (!rawName.isEmpty) (.structure "ZIP member name is empty")
  match decodeText rawName flags with
  | none => .error (.structure "ZIP member name does not satisfy its encoding flag")
  | some decoded => do
      require (!decoded.toList.contains '\\')
        (.structure "ZIP member name has ambiguous separators")
      let markerIsDirectory := decoded.toList.getLast? == some '/'
      let sourcePath := if markerIsDirectory then String.ofList decoded.toList.dropLast else decoded
      checkSourcePath unicode limits sourcePath
      match h : (splitPath sourcePath).mapM (normalizeComponent unicode limits) with
      | .error e => .error e
      | .ok normalized => do
          checkNormalizedPath unicode limits normalized
          pure (DecodedName.mk sourcePath (joinPath normalized) markerIsDirectory
            (splitPath_normalized unicode limits h))

end Decode

/-- `_entry_type` -/
def decodeEntryType (madeBy externalAttributes : Nat) (markerIsDirectory : Bool) :
    Except ZipError ZipEntryType := do
  let host := madeBy >>> 8
  let fileType := (externalAttributes >>> 16) &&& 0xF000
  let dosDirectory := externalAttributes.testBit 4
  require (!externalAttributes.testBit 3)
    (.structure "ZIP entry has a DOS volume-label inode type")
  if host = 3 ∧ fileType ≠ 0 then
    if fileType = 0x4000 then do
      require markerIsDirectory (.structure "ZIP Unix inode type disagrees with its name marker")
      pure .directory
    else if fileType = 0x8000 then do
      require (!dosDirectory) (.structure "ZIP DOS and Unix inode types disagree")
      require (!markerIsDirectory)
        (.structure "ZIP Unix inode type disagrees with its name marker")
      pure .regularFile
    else .error (.structure "ZIP entry has a link or special Unix inode type")
  else do
    require (!(dosDirectory && !markerIsDirectory))
      (.structure "ZIP DOS directory attribute disagrees with its name marker")
    pure (if markerIsDirectory then .directory else .regularFile)

/-! ## Extra fields -/

/-- The value of one extra field: an extended or an NTFS timestamp. -/
def validateExtraValue (central : Bool) (identifier : Nat) (value : Bytes) :
    Except ZipError Unit :=
  if identifier = 0x5455 then
    match value with
    | [] => .error (.structure "ZIP extended-timestamp field is malformed")
    | first :: _ => do
        require (decide (first &&& 0xF8 = 0))
          (.structure "ZIP extended-timestamp field is malformed")
        let expectedValues :=
          if central then (first &&& 1).toNat else (List.range 8).countP first.toNat.testBit
        require (decide (value.length = 1 + 4 * expectedValues))
          (.structure "ZIP extended-timestamp field is malformed")
  else if identifier = 0x000A then
    require (decide (value.length = 32) && decide (value.take 4 = [0, 0, 0, 0]) &&
        decide (halfAt value 4 = 1) && decide (halfAt value 6 = 24))
      (.structure "ZIP NTFS-timestamp field is malformed")
  else .error (.structure "ZIP extra-field identifier is not accepted")

/-- `_validate_extra`, with the data from the cursor on and the identifiers seen so far. -/
def validateExtra (central : Bool) (data : Bytes) (seen : List Nat) : Except ZipError Unit :=
  if hdata : data = [] then .ok ()
  else do
    require (decide (4 ≤ data.length)) (.structure "ZIP extra field ends inside its header")
    let identifier := halfAt data 0
    let size := halfAt data 2
    require (decide (4 + size ≤ data.length)) (.structure "ZIP extra field ends inside its value")
    require (!seen.contains identifier) (.structure "ZIP repeats an extra-field identifier")
    validateExtraValue central identifier ((data.drop 4).take size)
    validateExtra central (data.drop (4 + size)) (identifier :: seen)
termination_by data.length
decreasing_by
  have hpos := List.length_pos_iff.2 hdata
  rw [List.length_drop]
  omega

/-! ## Central records -/

/-- An entry of the central directory. -/
structure InspectedEntry extends CentralEntry, Description where
  madeBy : Nat
  externalAttributes : Nat
  localHeaderOffset : Nat
  rawName : Bytes

def validateFlagsAndMethod (flags method : Nat) : Except ZipError Unit :=
  if method = storedMethod then
    require (decide (flags ||| utf8Flag = utf8Flag))
      (.structure "ZIP general-purpose flags are not accepted")
  else if method = deflateMethod then
    require (decide (flags ||| (utf8Flag ||| deflateOptionFlags) = utf8Flag ||| deflateOptionFlags))
      (.structure "ZIP general-purpose flags are not accepted")
  else .error (.structure "ZIP compression method is not stored or Deflate")

/-- The declared sizes of a directory, or of a file. -/
def validateSizes (limits : ZipLimits) (entryType : ZipEntryType) (description : Description) :
    Except ZipError Unit :=
  match entryType with
  | .directory =>
      require (decide (description.method = storedMethod) &&
          decide (description.compressedBytes = 0) && decide (description.expandedBytes = 0) &&
          decide (description.crc32 = 0))
        (.structure "ZIP directory record carries file data")
  | .regularFile => do
      require (decide (description.expandedBytes ≤ limits.maximumFileBytes))
        (.structure "ZIP regular file crosses its expanded-byte boundary")
      require (!(decide (description.method = storedMethod) &&
          decide (description.compressedBytes ≠ description.expandedBytes)))
        (.structure "stored ZIP entry has unequal compressed and expanded sizes")
      require (!(decide (description.expandedBytes ≠ 0) &&
          (decide (description.compressedBytes = 0) ||
            decide (description.compressedBytes * limits.maximumExpansionRatio <
              description.expandedBytes))))
        (.structure "ZIP entry crosses its declared expansion-ratio boundary")

section Inspect

variable (unicode : UnicodeTables) (limits : ZipLimits)

/-- `_central_entry` -/
def centralEntry (header : CentralHeader) (rawName : Bytes) : Except ZipError InspectedEntry := do
  require (decide (header.versionNeeded ≤ maximumDecoderVersion))
    (.structure "ZIP record requires an unsupported decoder version")
  validateFlagsAndMethod header.flags header.method
  require (decide (header.compressedBytes ≠ zip64Sentinel32) &&
      decide (header.expandedBytes ≠ zip64Sentinel32))
    (.structure "ZIP64 entry sizes are not accepted")
  let name ← decodeName unicode limits rawName header.flags
  let entryType ← decodeEntryType header.madeBy header.externalAttributes name.markerIsDirectory
  validateSizes limits entryType header.toDescription
  pure {
    toDescription := header.toDescription
    sourceName := name.sourceName
    normalizedPath := name.normalizedPath
    entryType := entryType
    sameDepth := name.sameDepth
    madeBy := header.madeBy
    externalAttributes := header.externalAttributes
    localHeaderOffset := header.localHeaderOffset
    rawName := rawName }

/-- One turn of the loop of `_parse_central`: the record at the cursor, and the position behind
it. -/
def parseRecord (data : Bytes) (cursor : Nat) : Except ZipError (InspectedEntry × Nat) := do
  let fixedEnd := cursor + centralSize
  require (decide (fixedEnd ≤ data.length))
    (.structure "ZIP central directory ends inside a fixed record")
  let header := CentralHeader.unpack (slice data cursor fixedEnd)
  require (decide (header.signature = centralSignature))
    (.structure "ZIP central record has an invalid signature")
  let nameEnd := fixedEnd + header.nameBytes
  let variableEnd := nameEnd + header.extraBytes + header.commentBytes
  require (decide (variableEnd ≤ data.length))
    (.structure "ZIP central variable fields cross their region")
  require (decide (header.extraBytes ≤ limits.maximumExtraBytes))
    (.structure "ZIP central extra field crosses its byte boundary")
  require (decide (header.commentBytes = 0)) (.structure "ZIP entry comments are not accepted")
  require (decide (header.diskNumber = 0))
    (.structure "ZIP central record starts on another disk")
  validateExtra true (slice data nameEnd (nameEnd + header.extraBytes)) []
  let entry ← centralEntry unicode limits header (slice data fixedEnd nameEnd)
  pure (entry, variableEnd)

/-- The loop of `_parse_central` from a cursor on. -/
def parseRecords (data : Bytes) : Nat → Nat → Except ZipError (List InspectedEntry × Nat)
  | 0, cursor => pure ([], cursor)
  | count + 1, cursor => do
      let (entry, next) ← parseRecord unicode limits data cursor
      let (entries, final) ← parseRecords data count next
      pure (entry :: entries, final)

/-- `_parse_central` -/
def parseCentral (data : Bytes) (expectedRecords : Nat) :
    Except ZipError (List InspectedEntry) := do
  let (entries, cursor) ← parseRecords unicode limits data expectedRecords 0
  require (decide (cursor = data.length))
    (.structure "ZIP central record count does not consume its directory")
  pure entries

/-! ## Local regions -/

/-- One central record after its local header agreed. -/
structure InspectedMember extends ZipMember where
  sourceName : String
  normalizedPath : String
  entryType : ZipEntryType
  localHeaderOffset : Nat

/-- One turn of the first loop of `_validate_local_regions`: the region and the member. -/
def validateLocalRegion (source : Bytes) (centralOffset : Nat) (entry : InspectedEntry) :
    Except ZipError ((Nat × Nat) × InspectedMember) := do
  let fixed ← readSource source entry.localHeaderOffset localSize
  let header := LocalHeader.unpack fixed
  require (decide (header.signature = localSignature))
    (.structure "ZIP local header has an invalid signature")
  require (decide (header.extraBytes ≤ limits.maximumExtraBytes))
    (.structure "ZIP local extra field crosses its byte boundary")
  let variableOffset := entry.localHeaderOffset + localSize
  let rawName ← readSource source variableOffset header.nameBytes
  let extra ← readSource source (variableOffset + header.nameBytes) header.extraBytes
  validateExtra false extra []
  require (decide (header.toDescription = entry.toDescription) && decide (rawName = entry.rawName))
    (.structure "ZIP local header disagrees with its central record")
  let dataOffset := variableOffset + header.nameBytes + header.extraBytes
  let dataEnd := dataOffset + entry.compressedBytes
  require (decide (dataEnd ≤ centralOffset))
    (.structure "ZIP local data region crosses into central metadata")
  let member : InspectedMember := {
    compressionMethod := entry.method
    crc32 := UInt32.ofNat entry.toDescription.crc32
    compressedBytes := entry.compressedBytes
    expandedBytes := entry.expandedBytes
    dataOffset := dataOffset
    sourceName := entry.sourceName
    normalizedPath := entry.normalizedPath
    entryType := entry.entryType
    localHeaderOffset := entry.localHeaderOffset }
  pure ((entry.localHeaderOffset, dataEnd), member)

/-- The order of pairs. -/
def regionLe (a b : Nat × Nat) : Prop := a.1 < b.1 ∨ a.1 = b.1 ∧ a.2 ≤ b.2

instance (a b : Nat × Nat) : Decidable (regionLe a b) := inferInstanceAs (Decidable (_ ∨ _))

/-- The loop over the sorted regions: the position behind the last one. -/
def coverRegions : Nat → List (Nat × Nat) → Except ZipError Nat
  | cursor, [] => .ok cursor
  | cursor, (start, stop) :: regions => do
      require (decide (start = cursor) && decide (start ≤ stop))
        (.structure "ZIP local regions overlap, alias, or leave padding")
      coverRegions stop regions

/-- `_validate_local_regions` -/
def validateLocalRegions (source : Bytes) (entries : List InspectedEntry) (centralOffset : Nat) :
    Except ZipError (List InspectedMember) := do
  let localOffsets := entries.map InspectedEntry.localHeaderOffset
  require (decide (localOffsets.dedup.length = localOffsets.length))
    (.structure "ZIP local regions overlap, alias, or leave padding")
  let validated ← entries.mapM (validateLocalRegion limits source centralOffset)
  let cursor ← coverRegions 0 ((validated.map Prod.fst).insertionSort regionLe)
  require (decide (cursor = centralOffset))
    (.structure "ZIP local regions do not exactly cover the data area")
  pure (validated.map Prod.snd)

/-! ## The inspection -/

/-- What the inspection returns. -/
structure ZipStructure where
  archiveBytes : Nat
  centralDirectoryOffset : Nat
  centralDirectoryBytes : Nat
  members : List InspectedMember
  materializedPaths : List String
  expandedRegularFileBytes : Nat

/-- The checks of the end record. -/
def checkEndRecord (eocd : EndRecord) (eocdOffset : Nat) : Except ZipError Unit := do
  require (decide (eocd.signature = eocdSignature))
    (.structure "ZIP has no end record at its physical end")
  require (decide (eocd.diskNumber = 0) && decide (eocd.centralDisk = 0) &&
      decide (eocd.recordsOnDisk = eocd.recordCount))
    (.structure "multi-disk ZIPs are not accepted")
  require (decide (eocd.commentBytes = 0)) (.structure "ZIP archive comments are not accepted")
  require (decide (eocd.recordCount ≠ 0) && decide (eocd.recordCount ≠ zip64Sentinel16))
    (.structure "ZIP entry count is empty or requires ZIP64")
  require (decide (eocd.recordCount ≤ limits.maximumEntries))
    (.structure "ZIP central record count crosses its boundary")
  require (decide (eocd.centralBytes ≠ zip64Sentinel32) &&
      decide (eocd.centralOffset ≠ zip64Sentinel32))
    (.structure "ZIP64 metadata is not accepted")
  require (decide (eocd.centralBytes ≤ limits.maximumCentralDirectoryBytes))
    (.structure "ZIP central directory crosses its byte boundary")
  require (decide (eocd.centralOffset + eocd.centralBytes = eocdOffset))
    (.structure "ZIP central directory is not adjacent to its end record")

/-- The declared bytes of the regular files. -/
def expandedBytes (members : List InspectedMember) : Nat :=
  ((members.filter fun member => decide (member.entryType = .regularFile)).map
    fun member => member.expandedBytes).sum

/-- `_inspect` -/
def inspect (source : Bytes) : Except ZipError ZipStructure := do
  require (decide (eocdSize ≤ source.length) && decide (source.length ≤ limits.maximumArchiveBytes))
    (.structure "ZIP snapshot crosses its compressed-byte boundary")
  let eocdOffset := source.length - eocdSize
  let eocdData ← readSource source eocdOffset eocdSize
  let eocd := EndRecord.unpack eocdData
  checkEndRecord limits eocd eocdOffset
  let centralData ← readSource source eocd.centralOffset eocd.centralBytes
  let entries ← parseCentral unicode limits centralData eocd.recordCount
  let materialized ← materializedPaths unicode.normalizeNfc unicode.casefold limits.maximumEntries
    (entries.map InspectedEntry.toCentralEntry)
  let members ← validateLocalRegions limits source entries eocd.centralOffset
  let expanded := expandedBytes members
  require (decide (expanded ≤ limits.maximumExpandedBytes))
    (.structure "ZIP expanded bytes cross the tenant-tree boundary")
  pure {
    archiveBytes := source.length
    centralDirectoryOffset := eocd.centralOffset
    centralDirectoryBytes := eocd.centralBytes
    members := members
    materializedPaths := materialized
    expandedRegularFileBytes := expanded }

end Inspect

end StaticHostAgent.Zip
