import StaticHostAgent.Zip.Structure

/-!
# Inspected archives are partitioned

An accepted archive is what its regions are written as: the local regions in the order of their
offsets, the central records, the end record. Every byte of it lies in exactly one of them, every
central record points at a local region of its own, and the two agree.
-/

set_option autoImplicit false

namespace StaticHostAgent.Zip

open Library Contracts

/-! ## The regions of a file -/

def Description.fields (description : Description) : List Field :=
  [half description.versionNeeded, half description.flags, half description.method,
    half description.modifiedTime, half description.modifiedDate, word description.crc32,
    word description.compressedBytes, word description.expandedBytes]

def EndRecord.fields (record : EndRecord) : List Field :=
  [word record.signature, half record.diskNumber, half record.centralDisk,
    half record.recordsOnDisk, half record.recordCount, word record.centralBytes,
    word record.centralOffset, half record.commentBytes]

def CentralHeader.fields (header : CentralHeader) : List Field :=
  [word header.signature, half header.madeBy] ++ header.toDescription.fields ++
    [half header.nameBytes, half header.extraBytes, half header.commentBytes,
      half header.diskNumber, half header.internalAttributes, word header.externalAttributes,
      word header.localHeaderOffset]

def LocalHeader.fields (header : LocalHeader) : List Field :=
  [word header.signature] ++ header.toDescription.fields ++
    [half header.nameBytes, half header.extraBytes]

theorem packed_endRecord {data : Bytes} (h : data.length = eocdSize) :
    packed (EndRecord.unpack data).fields = data :=
  packed_readFields_all [4, 2, 2, 2, 2, 4, 4, 2] h

theorem packed_centralHeader {data : Bytes} (h : data.length = centralSize) :
    packed (CentralHeader.unpack data).fields = data :=
  packed_readFields_all [4, 2, 2, 2, 2, 2, 2, 4, 4, 4, 2, 2, 2, 2, 2, 4, 4] h

theorem packed_localHeader {data : Bytes} (h : data.length = localSize) :
    packed (LocalHeader.unpack data).fields = data :=
  packed_readFields_all [4, 2, 2, 2, 2, 2, 4, 4, 4, 2, 2] h

/-- A central record in its directory. -/
structure CentralRegion where
  header : CentralHeader
  name : Bytes
  extra : Bytes

def CentralRegion.bytes (region : CentralRegion) : Bytes :=
  packed region.header.fields ++ region.name ++ region.extra

/-- A local header with its variable fields and the data behind it. -/
structure LocalRegion where
  offset : Nat
  header : LocalHeader
  name : Bytes
  extra : Bytes
  data : Bytes

def LocalRegion.bytes (region : LocalRegion) : Bytes :=
  packed region.header.fields ++ region.name ++ region.extra ++ region.data

/-- The positions of a local region. -/
def LocalRegion.range (region : LocalRegion) : Nat × Nat :=
  (region.offset, region.offset + region.bytes.length)

/-- What lies at a position of a directory. -/
def centralRegionAt (data : Bytes) (cursor : Nat) : CentralRegion :=
  let header := CentralHeader.unpack (slice data cursor (cursor + centralSize))
  let nameEnd := cursor + centralSize + header.nameBytes
  { header := header
    name := slice data (cursor + centralSize) nameEnd
    extra := slice data nameEnd (nameEnd + header.extraBytes) }

/-- What lies at an offset of a file. -/
def localRegionAt (source : Bytes) (offset : Nat) : LocalRegion :=
  let header := LocalHeader.unpack (slice source offset (offset + localSize))
  let nameEnd := offset + localSize + header.nameBytes
  let dataOffset := nameEnd + header.extraBytes
  { offset := offset
    header := header
    name := slice source (offset + localSize) nameEnd
    extra := slice source nameEnd dataOffset
    data := slice source dataOffset (dataOffset + header.compressedBytes) }

/-- The local region that a central record points at. -/
def regionOf (source : Bytes) (record : CentralRegion) : LocalRegion :=
  localRegionAt source record.header.localHeaderOffset

section Regions

variable {data source : Bytes} {cursor offset : Nat}

theorem centralRegionAt_bytes {stop : Nat}
    (hstop : stop = cursor + centralSize + (centralRegionAt data cursor).header.nameBytes +
      (centralRegionAt data cursor).header.extraBytes) (hinside : stop ≤ data.length) :
    (centralRegionAt data cursor).bytes = slice data cursor stop := by
  have hheader : packed (centralRegionAt data cursor).header.fields =
      slice data cursor (cursor + centralSize) := by
    apply packed_centralHeader
    rw [slice_length (by omega), Nat.add_sub_cancel_left]
  unfold CentralRegion.bytes
  rw [hheader]
  show slice data cursor (cursor + centralSize) ++ slice data (cursor + centralSize) _ ++
    slice data _ _ = _
  rw [slice_append data (by omega) (by omega), slice_append data (by omega) (by omega), hstop]
  rfl

/-- Where the data of the region at an offset ends. -/
def dataEndAt (source : Bytes) (offset : Nat) : Nat :=
  offset + localSize + (localRegionAt source offset).header.nameBytes +
    (localRegionAt source offset).header.extraBytes +
    (localRegionAt source offset).header.compressedBytes

theorem localRegionAt_bytes (hinside : dataEndAt source offset ≤ source.length) :
    (localRegionAt source offset).bytes = slice source offset (dataEndAt source offset) := by
  unfold dataEndAt at hinside
  have hheader : packed (localRegionAt source offset).header.fields =
      slice source offset (offset + localSize) := by
    apply packed_localHeader
    rw [slice_length (by omega), Nat.add_sub_cancel_left]
  unfold LocalRegion.bytes
  rw [hheader]
  show slice source offset (offset + localSize) ++ slice source (offset + localSize) _ ++
    slice source _ _ ++ slice source _ _ = _
  rw [slice_append source (by omega) (by omega), slice_append source (by omega) (by omega),
    slice_append source (by omega) (by omega)]
  rfl

theorem localRegionAt_range (hinside : dataEndAt source offset ≤ source.length) :
    (localRegionAt source offset).range = (offset, dataEndAt source offset) := by
  unfold LocalRegion.range
  rw [localRegionAt_bytes hinside, slice_length hinside]
  show (offset, offset + _) = _
  unfold dataEndAt
  congr 1
  omega

theorem readSource_ok {length : Nat} {read : Bytes} :
    readSource source offset length = .ok read ↔
      offset + length ≤ source.length ∧ read = slice source offset (offset + length) := by
  unfold readSource
  rw [slice_eq_drop_take]
  constructor
  · intro h
    obtain ⟨_, hinside, h⟩ := bind_eq_ok.1 h
    exact ⟨of_decide_eq_true (require_eq_ok.1 hinside), (pure_eq_ok.1 h).symm⟩
  · rintro ⟨hinside, rfl⟩
    rw [decide_eq_true hinside]
    rfl

end Regions

/-! ## The central directory -/

/-- An entry was decoded from a central record. -/
structure DecodedFrom (entry : InspectedEntry) (record : CentralRegion) : Prop where
  description : entry.toDescription = record.header.toDescription
  rawName : entry.rawName = record.name
  localHeaderOffset : entry.localHeaderOffset = record.header.localHeaderOffset
  signature : record.header.signature = centralSignature
  nameBytes : record.name.length = record.header.nameBytes
  extraBytes : record.extra.length = record.header.extraBytes
  noComment : record.header.commentBytes = 0
  sameDisk : record.header.diskNumber = 0

section Central

variable {unicode : UnicodeTables} {limits : ZipLimits} {data : Bytes}

theorem centralEntry_ok {header : CentralHeader} {rawName : Bytes} {entry : InspectedEntry}
    (h : centralEntry unicode limits header rawName = .ok entry) :
    entry.toDescription = header.toDescription ∧ entry.rawName = rawName ∧
      entry.localHeaderOffset = header.localHeaderOffset ∧
      validateSizes limits entry.entryType entry.toDescription = .ok () := by
  unfold centralEntry at h
  obtain ⟨_, _, h⟩ := bind_eq_ok.1 h
  obtain ⟨_, _, h⟩ := bind_eq_ok.1 h
  obtain ⟨_, _, h⟩ := bind_eq_ok.1 h
  obtain ⟨name, _, h⟩ := bind_eq_ok.1 h
  obtain ⟨entryType, _, h⟩ := bind_eq_ok.1 h
  obtain ⟨_, hsizes, h⟩ := bind_eq_ok.1 h
  obtain rfl := pure_eq_ok.1 h
  exact ⟨rfl, rfl, rfl, hsizes⟩

/-- One record: what was read lies between the cursor and the position returned. -/
theorem parseRecord_ok {cursor next : Nat} {entry : InspectedEntry}
    (h : parseRecord unicode limits data cursor = .ok (entry, next)) :
    DecodedFrom entry (centralRegionAt data cursor) ∧ cursor ≤ next ∧ next ≤ data.length ∧
      (centralRegionAt data cursor).bytes = slice data cursor next ∧
      validateSizes limits entry.entryType entry.toDescription = .ok () := by
  unfold parseRecord at h
  obtain ⟨_, hfixed, h⟩ := bind_eq_ok.1 h
  obtain ⟨_, hsignature, h⟩ := bind_eq_ok.1 h
  obtain ⟨_, hvariable, h⟩ := bind_eq_ok.1 h
  obtain ⟨_, _, h⟩ := bind_eq_ok.1 h
  obtain ⟨_, hcomment, h⟩ := bind_eq_ok.1 h
  obtain ⟨_, hdisk, h⟩ := bind_eq_ok.1 h
  obtain ⟨_, _, h⟩ := bind_eq_ok.1 h
  obtain ⟨decoded, hentry, h⟩ := bind_eq_ok.1 h
  obtain ⟨rfl, rfl⟩ := Prod.mk.inj (pure_eq_ok.1 h)
  have hfixed := of_decide_eq_true (require_eq_ok.1 hfixed)
  have hsignature := of_decide_eq_true (require_eq_ok.1 hsignature)
  have hvariable := of_decide_eq_true (require_eq_ok.1 hvariable)
  have hcomment := of_decide_eq_true (require_eq_ok.1 hcomment)
  have hdisk := of_decide_eq_true (require_eq_ok.1 hdisk)
  obtain ⟨hdescription, hname, hoffset, hsizes⟩ := centralEntry_ok hentry
  rw [hcomment, Nat.add_zero] at hvariable ⊢
  refine ⟨⟨hdescription, hname, hoffset, hsignature, ?_, ?_, hcomment, hdisk⟩, by omega,
    hvariable, ?_, hsizes⟩
  · show (slice data _ _).length = _
    rw [slice_length (by omega), Nat.add_sub_cancel_left]
    rfl
  · show (slice data _ _).length = _
    rw [slice_length (by exact hvariable), Nat.add_sub_cancel_left]
    rfl
  · exact centralRegionAt_bytes rfl hvariable

/-- The loop: the records read are what lies between the cursor and the position returned. -/
theorem parseRecords_ok (count : Nat) :
    ∀ (cursor final : Nat) (entries : List InspectedEntry), cursor ≤ data.length →
      parseRecords unicode limits data count cursor = .ok (entries, final) →
      ∃ records : List CentralRegion,
        List.Forall₂ DecodedFrom entries records ∧ records.length = count ∧ cursor ≤ final ∧
        final ≤ data.length ∧ records.flatMap CentralRegion.bytes = slice data cursor final ∧
        ∀ entry ∈ entries, validateSizes limits entry.entryType entry.toDescription = .ok () := by
  induction count with
  | zero =>
      intro cursor final entries hcursor h
      obtain ⟨rfl, rfl⟩ := Prod.mk.inj (pure_eq_ok.1 h)
      exact ⟨[], .nil, rfl, Nat.le_refl _, hcursor, (slice_self data cursor).symm,
        fun entry hentry => nomatch hentry⟩
  | succ count ih =>
      intro cursor final entries _ h
      rw [parseRecords] at h
      obtain ⟨⟨entry, next⟩, hrecord, h⟩ := bind_eq_ok.1 h
      obtain ⟨⟨rest, last⟩, hrest, h⟩ := bind_eq_ok.1 h
      obtain ⟨rfl, rfl⟩ := Prod.mk.inj (pure_eq_ok.1 h)
      obtain ⟨hdecoded, hle, hinside, hbytes, hsizes⟩ := parseRecord_ok hrecord
      obtain ⟨records, hall, hcount, hon, hfinal, hrecords, hsizesRest⟩ :=
        ih next last rest hinside hrest
      refine ⟨centralRegionAt data cursor :: records, .cons hdecoded hall, ?_, by omega, hfinal,
        ?_, List.forall_mem_cons.2 ⟨hsizes, hsizesRest⟩⟩
      · rw [List.length_cons, hcount]
      · rw [List.flatMap_cons, hbytes, hrecords]
        exact slice_append data hle hon

theorem parseCentral_ok {expectedRecords : Nat} {entries : List InspectedEntry}
    (h : parseCentral unicode limits data expectedRecords = .ok entries) :
    ∃ records : List CentralRegion,
      List.Forall₂ DecodedFrom entries records ∧ records.length = expectedRecords ∧
      records.flatMap CentralRegion.bytes = data ∧
      ∀ entry ∈ entries, validateSizes limits entry.entryType entry.toDescription = .ok () := by
  unfold parseCentral at h
  obtain ⟨⟨found, cursor⟩, hrecords, h⟩ := bind_eq_ok.1 h
  obtain ⟨_, hend, h⟩ := bind_eq_ok.1 h
  obtain rfl := pure_eq_ok.1 h
  have hend : cursor = data.length := of_decide_eq_true (require_eq_ok.1 hend)
  obtain ⟨records, hall, hcount, _, _, hbytes, hsizes⟩ :=
    parseRecords_ok expectedRecords 0 cursor found (Nat.zero_le _) hrecords
  rw [hend, slice_all] at hbytes
  exact ⟨records, hall, hcount, hbytes, hsizes⟩

end Central

/-! ## The local regions -/

/-- The local region of a record agrees with it. -/
structure HeadersAgree (record : CentralRegion) (region : LocalRegion) : Prop where
  offset : region.offset = record.header.localHeaderOffset
  signature : region.header.signature = localSignature
  name : region.name = record.name
  /-- version, flags, method, time, date, checksum and sizes -/
  description : region.header.toDescription = record.header.toDescription
  nameBytes : region.name.length = region.header.nameBytes
  extraBytes : region.extra.length = region.header.extraBytes
  dataBytes : region.data.length = record.header.compressedBytes

/-- A region is what the file has at its positions. -/
def Placed (source : Bytes) (region : LocalRegion) : Prop :=
  slice source region.range.1 region.range.2 = region.bytes

/-- A member of the result and the region its content is read from. -/
structure Describes (member : InspectedMember) (region : LocalRegion) (source : Bytes) : Prop where
  localHeaderOffset : member.localHeaderOffset = region.offset
  dataOffset : member.dataOffset + member.compressedBytes = region.offset + region.bytes.length
  data : slice source member.dataOffset (member.dataOffset + member.compressedBytes) = region.data
  compressedBytes : member.compressedBytes = region.header.compressedBytes
  expandedBytes : member.expandedBytes = region.header.expandedBytes
  compressionMethod : member.compressionMethod = region.header.method
  crc32 : member.crc32 = UInt32.ofNat region.header.crc32

section Local

variable {limits : ZipLimits} {source : Bytes} {centralOffset : Nat}

theorem validateLocalRegion_ok {entry : InspectedEntry} {record : CentralRegion}
    {range : Nat × Nat} {member : InspectedMember} (hcentral : centralOffset ≤ source.length)
    (decoded : DecodedFrom entry record)
    (h : validateLocalRegion limits source centralOffset entry = .ok (range, member)) :
    range = (regionOf source record).range ∧ HeadersAgree record (regionOf source record) ∧
      Describes member (regionOf source record) source ∧ member.entryType = entry.entryType ∧
      Placed source (regionOf source record) := by
  unfold validateLocalRegion at h
  obtain ⟨fixed, hfixed, h⟩ := bind_eq_ok.1 h
  obtain ⟨_, hsignature, h⟩ := bind_eq_ok.1 h
  obtain ⟨_, _, h⟩ := bind_eq_ok.1 h
  obtain ⟨rawName, hname, h⟩ := bind_eq_ok.1 h
  obtain ⟨extra, hextra, h⟩ := bind_eq_ok.1 h
  obtain ⟨_, _, h⟩ := bind_eq_ok.1 h
  obtain ⟨_, hagree, h⟩ := bind_eq_ok.1 h
  obtain ⟨_, hend, h⟩ := bind_eq_ok.1 h
  obtain ⟨rfl, rfl⟩ := Prod.mk.inj (pure_eq_ok.1 h)
  obtain ⟨hfixedEnd, rfl⟩ := readSource_ok.1 hfixed
  obtain ⟨hnameEnd, rfl⟩ := readSource_ok.1 hname
  obtain ⟨hextraEnd, rfl⟩ := readSource_ok.1 hextra
  have hsignature := of_decide_eq_true (require_eq_ok.1 hsignature)
  have hagree := Bool.and_eq_true_iff.1 (require_eq_ok.1 hagree)
  have hdescription := of_decide_eq_true hagree.1
  have hrawName := of_decide_eq_true hagree.2
  have hend := of_decide_eq_true (require_eq_ok.1 hend)
  -- everything was read at the offset that the record gives
  have hregion : regionOf source record = localRegionAt source entry.localHeaderOffset := by
    unfold regionOf
    rw [decoded.localHeaderOffset]
  have hcompressed : (localRegionAt source entry.localHeaderOffset).header.compressedBytes =
      entry.compressedBytes := congrArg Description.compressedBytes hdescription
  have hlast : dataEndAt source entry.localHeaderOffset =
      entry.localHeaderOffset + localSize +
        (localRegionAt source entry.localHeaderOffset).header.nameBytes +
        (localRegionAt source entry.localHeaderOffset).header.extraBytes +
        entry.compressedBytes := by
    unfold dataEndAt
    rw [hcompressed]
  have hinside : dataEndAt source entry.localHeaderOffset ≤ source.length := by
    rw [hlast]
    exact Nat.le_trans hend hcentral
  have hrange := localRegionAt_range hinside
  rw [hregion]
  refine ⟨?_, ⟨?_, hsignature, ?_, ?_, ?_, ?_, ?_⟩, ⟨rfl, ?_, ?_, hcompressed.symm, ?_, ?_, ?_⟩, rfl,
    ?_⟩
  · rw [hrange, hlast]
    rfl
  · exact decoded.localHeaderOffset
  · rw [← decoded.rawName]
    exact hrawName
  · rw [← decoded.description]
    exact hdescription
  · show (slice source _ _).length = _
    rw [slice_length hnameEnd, Nat.add_sub_cancel_left]
    rfl
  · show (slice source _ _).length = _
    rw [slice_length hextraEnd, Nat.add_sub_cancel_left]
    rfl
  · show (slice source _ (_ + (localRegionAt source _).header.compressedBytes)).length = _
    rw [hcompressed, slice_length (Nat.le_trans hend hcentral), Nat.add_sub_cancel_left,
      ← decoded.description]
  · have hstop := congrArg Prod.snd hrange
    show _ = (localRegionAt source entry.localHeaderOffset).range.2
    rw [hstop, hlast]
    rfl
  · show slice source _ _ = slice source _ (_ + (localRegionAt source _).header.compressedBytes)
    rw [hcompressed]
  · exact (congrArg Description.expandedBytes hdescription).symm
  · exact (congrArg Description.method hdescription).symm
  · exact (congrArg (fun description => UInt32.ofNat description.crc32) hdescription).symm
  · unfold Placed
    rw [hrange]
    exact (localRegionAt_bytes hinside).symm

/-- The loop over the sorted regions accepts tilings only. -/
theorem coverRegions_ok {final : Nat} (ranges : List (Nat × Nat)) :
    ∀ cursor, coverRegions cursor ranges = .ok final → Tiles cursor ranges final := by
  induction ranges with
  | nil =>
      intro cursor h
      obtain rfl := Except.ok.inj h
      exact .nil
  | cons range ranges ih =>
      intro cursor h
      obtain ⟨start, stop⟩ := range
      rw [coverRegions] at h
      obtain ⟨_, hnext, hrest⟩ := bind_eq_ok.1 h
      have hnext := Bool.and_eq_true_iff.1 (require_eq_ok.1 hnext)
      obtain rfl : start = cursor := of_decide_eq_true hnext.1
      exact .cons (of_decide_eq_true hnext.2) (ih stop hrest)

/-- What the validation of the local regions establishes. -/
structure LocalRegions (source : Bytes) (centralOffset : Nat) (records : List CentralRegion)
    (members : List InspectedMember) : Prop where
  once : (records.map fun record => record.header.localHeaderOffset).Nodup
  agrees : ∀ record ∈ records, HeadersAgree record (regionOf source record)
  placed : ∀ record ∈ records, Placed source (regionOf source record)
  describes : List.Forall₂ (fun member record => Describes member (regionOf source record) source)
    members records
  tiles : ∃ ordered : List CentralRegion, ordered.Perm records ∧
    Tiles 0 (ordered.map fun record => (regionOf source record).range) centralOffset

theorem nodup_of_dedup_length {offsets : List Nat}
    (h : offsets.dedup.length = offsets.length) : offsets.Nodup := by
  have hsame := (List.dedup_sublist offsets).eq_of_length h
  rw [← hsame]
  exact List.nodup_dedup offsets

theorem validated_ok {entries : List InspectedEntry} {records : List CentralRegion}
    (hcentral : centralOffset ≤ source.length)
    (decoded : List.Forall₂ DecodedFrom entries records) :
    ∀ validated : List ((Nat × Nat) × InspectedMember),
      entries.mapM (validateLocalRegion limits source centralOffset) = .ok validated →
      validated.map Prod.fst = records.map (fun record => (regionOf source record).range) ∧
      (∀ record ∈ records, HeadersAgree record (regionOf source record)) ∧
      (∀ record ∈ records, Placed source (regionOf source record)) ∧
      List.Forall₂ (fun member record => Describes member (regionOf source record) source)
        (validated.map Prod.snd) records ∧
      List.Forall₂ (fun (member : InspectedMember) (entry : InspectedEntry) =>
        member.entryType = entry.entryType ∧ member.expandedBytes = entry.expandedBytes)
        (validated.map Prod.snd) entries := by
  induction decoded with
  | nil =>
      intro validated h
      obtain rfl := pure_eq_ok.1 h
      exact ⟨rfl, List.forall_mem_nil _, List.forall_mem_nil _, .nil, .nil⟩
  | @cons entry record entries records hfirst _ ih =>
      intro validated h
      rw [List.mapM_cons] at h
      obtain ⟨⟨range, member⟩, hone, h⟩ := bind_eq_ok.1 h
      obtain ⟨rest, hrest, h⟩ := bind_eq_ok.1 h
      obtain rfl := pure_eq_ok.1 h
      obtain ⟨hrange, hagree, hdescribes, htype, hplaced⟩ :=
        validateLocalRegion_ok hcentral hfirst hone
      obtain ⟨hranges, hagrees, hplaceds, hall, htypes⟩ := ih rest hrest
      refine ⟨?_, List.forall_mem_cons.2 ⟨hagree, hagrees⟩,
        List.forall_mem_cons.2 ⟨hplaced, hplaceds⟩, .cons hdescribes hall,
        .cons ⟨htype, ?_⟩ htypes⟩
      · rw [List.map_cons, List.map_cons, hranges, hrange]
      · rw [hdescribes.expandedBytes, hagree.description, ← hfirst.description]

theorem decoded_signatures {entries : List InspectedEntry} {records : List CentralRegion}
    (decoded : List.Forall₂ DecodedFrom entries records) :
    ∀ record ∈ records, record.header.signature = centralSignature := by
  induction decoded with
  | nil => exact List.forall_mem_nil _
  | cons hfirst _ ih => exact List.forall_mem_cons.2 ⟨hfirst.signature, ih⟩

theorem decoded_offsets {entries : List InspectedEntry} {records : List CentralRegion}
    (decoded : List.Forall₂ DecodedFrom entries records) :
    entries.map InspectedEntry.localHeaderOffset =
      records.map fun record => record.header.localHeaderOffset := by
  induction decoded with
  | nil => rfl
  | cons hfirst _ ih => rw [List.map_cons, List.map_cons, hfirst.localHeaderOffset, ih]

theorem validateLocalRegions_ok {entries : List InspectedEntry} {records : List CentralRegion}
    {members : List InspectedMember} (hcentral : centralOffset ≤ source.length)
    (decoded : List.Forall₂ DecodedFrom entries records)
    (h : validateLocalRegions limits source entries centralOffset = .ok members) :
    LocalRegions source centralOffset records members ∧
      List.Forall₂ (fun (member : InspectedMember) (entry : InspectedEntry) =>
        member.entryType = entry.entryType ∧ member.expandedBytes = entry.expandedBytes)
        members entries := by
  unfold validateLocalRegions at h
  obtain ⟨_, honce, h⟩ := bind_eq_ok.1 h
  obtain ⟨validated, hvalidated, h⟩ := bind_eq_ok.1 h
  obtain ⟨cursor, hcover, h⟩ := bind_eq_ok.1 h
  obtain ⟨_, hend, h⟩ := bind_eq_ok.1 h
  obtain rfl := pure_eq_ok.1 h
  obtain rfl : cursor = centralOffset := of_decide_eq_true (require_eq_ok.1 hend)
  obtain ⟨hranges, hagrees, hplaced, hdescribes, htypes⟩ :=
    validated_ok hcentral decoded validated hvalidated
  refine ⟨⟨?_, hagrees, hplaced, hdescribes, ?_⟩, htypes⟩
  · rw [← decoded_offsets decoded]
    exact nodup_of_dedup_length (of_decide_eq_true (require_eq_ok.1 honce))
  · -- sort the records as their regions are sorted
    let before := fun a b : CentralRegion =>
      regionLe (regionOf source a).range (regionOf source b).range
    have hdecidable : DecidableRel before := fun a b => inferInstanceAs (Decidable (regionLe _ _))
    refine ⟨records.insertionSort before, List.perm_insertionSort before records, ?_⟩
    rw [List.map_insertionSort before regionLe _ _ fun a _ b _ => Iff.rfl, ← hranges]
    exact coverRegions_ok _ 0 hcover

end Local

/-! ## The whole file -/

/-- The positions of the central directory and of the end record. -/
def trailer (endRecord : EndRecord) : List (Nat × Nat) :=
  [(endRecord.centralOffset, endRecord.centralOffset + endRecord.centralBytes),
    (endRecord.centralOffset + endRecord.centralBytes,
      endRecord.centralOffset + endRecord.centralBytes + eocdSize)]

/-- An archive is partitioned into local regions, central directory and end record. -/
structure Partitioned (source : Bytes) (result : ZipStructure) (endRecord : EndRecord)
    (records : List CentralRegion) : Prop where
  /-- Every byte lies in exactly one of the parts, and nothing of them lies elsewhere. -/
  exact : ∀ position,
    ((records.map fun record => (regionOf source record).range) ++ trailer endRecord).countP
      (covers position) = if position < source.length then 1 else 0
  /-- The file is its parts, one after another. -/
  written : ∃ ordered : List CentralRegion, ordered.Perm records ∧
    source = (ordered.flatMap fun record => (regionOf source record).bytes) ++
      records.flatMap CentralRegion.bytes ++ packed endRecord.fields
  /-- A region of its own for every record, which agrees with it. -/
  once : (records.map fun record => record.header.localHeaderOffset).Nodup
  agrees : ∀ record ∈ records, HeadersAgree record (regionOf source record)
  signed : endRecord.signature = eocdSignature ∧
    ∀ record ∈ records, record.header.signature = centralSignature
  counted : records.length = endRecord.recordCount
  /-- No offset leaves the file. -/
  inside : (∀ record ∈ records, (regionOf source record).range.2 ≤ endRecord.centralOffset) ∧
    (records.flatMap CentralRegion.bytes).length = endRecord.centralBytes ∧
    endRecord.centralOffset + endRecord.centralBytes + eocdSize = source.length
  /-- The result says where the members lie. -/
  members : List.Forall₂
    (fun member record => Describes member (regionOf source record) source) result.members records
  places : result.archiveBytes = source.length ∧
    result.centralDirectoryOffset = endRecord.centralOffset ∧
    result.centralDirectoryBytes = endRecord.centralBytes

section Inspected

variable {unicode : UnicodeTables} {limits : ZipLimits} {source : Bytes} {result : ZipStructure}

theorem checkEndRecord_ok {eocd : EndRecord} {eocdOffset : Nat}
    (h : checkEndRecord limits eocd eocdOffset = .ok ()) :
    eocd.signature = eocdSignature ∧ eocd.centralOffset + eocd.centralBytes = eocdOffset := by
  unfold checkEndRecord at h
  obtain ⟨_, hsignature, h⟩ := bind_eq_ok.1 h
  obtain ⟨_, _, h⟩ := bind_eq_ok.1 h
  obtain ⟨_, _, h⟩ := bind_eq_ok.1 h
  obtain ⟨_, _, h⟩ := bind_eq_ok.1 h
  obtain ⟨_, _, h⟩ := bind_eq_ok.1 h
  obtain ⟨_, _, h⟩ := bind_eq_ok.1 h
  obtain ⟨_, _, h⟩ := bind_eq_ok.1 h
  exact ⟨of_decide_eq_true (require_eq_ok.1 hsignature), of_decide_eq_true (require_eq_ok.1 h)⟩

/-- What an accepted inspection has gone through. -/
structure Inspection (unicode : UnicodeTables) (limits : ZipLimits) (source : Bytes)
    (result : ZipStructure) (endRecord : EndRecord) (entries : List InspectedEntry) : Prop where
  atEnd : endRecord = EndRecord.unpack (slice source (source.length - eocdSize) source.length)
  signature : endRecord.signature = eocdSignature
  adjacent : endRecord.centralOffset + endRecord.centralBytes + eocdSize = source.length
  central : parseCentral unicode limits
    (slice source endRecord.centralOffset (endRecord.centralOffset + endRecord.centralBytes))
    endRecord.recordCount = .ok entries
  paths : materializedPaths unicode.normalizeNfc unicode.casefold limits.maximumEntries
    (entries.map InspectedEntry.toCentralEntry) = .ok result.materializedPaths
  regions : validateLocalRegions limits source entries endRecord.centralOffset =
    .ok result.members
  places : result.archiveBytes = source.length ∧
    result.centralDirectoryOffset = endRecord.centralOffset ∧
    result.centralDirectoryBytes = endRecord.centralBytes

theorem inspect_ok (h : inspect unicode limits source = .ok result) :
    ∃ endRecord entries, Inspection unicode limits source result endRecord entries := by
  unfold inspect at h
  obtain ⟨_, hsize, h⟩ := bind_eq_ok.1 h
  obtain ⟨eocdData, heocd, h⟩ := bind_eq_ok.1 h
  obtain ⟨_, hcheck, h⟩ := bind_eq_ok.1 h
  obtain ⟨centralData, hcentral, h⟩ := bind_eq_ok.1 h
  obtain ⟨entries, hentries, h⟩ := bind_eq_ok.1 h
  obtain ⟨materialized, hpaths, h⟩ := bind_eq_ok.1 h
  obtain ⟨members, hmembers, h⟩ := bind_eq_ok.1 h
  obtain ⟨_, _, h⟩ := bind_eq_ok.1 h
  obtain rfl := pure_eq_ok.1 h
  have hsize := of_decide_eq_true (Bool.and_eq_true_iff.1 (require_eq_ok.1 hsize)).1
  obtain ⟨_, rfl⟩ := readSource_ok.1 heocd
  obtain ⟨_, rfl⟩ := readSource_ok.1 hcentral
  obtain ⟨hsignature, hadjacent⟩ := checkEndRecord_ok hcheck
  rw [Nat.sub_add_cancel hsize] at hsignature hadjacent hentries hmembers
  refine ⟨_, entries, ⟨rfl, hsignature, by rw [hadjacent]; omega, ?_, hpaths, hmembers, ?_⟩⟩
  · exact hentries
  · rw [Nat.sub_add_cancel hsize]
    exact ⟨rfl, rfl, rfl⟩

/-- Every accepted archive is partitioned into its regions, which agree with its directory. -/
theorem inspect_partitioned (h : inspect unicode limits source = .ok result) :
    ∃ endRecord records, Partitioned source result endRecord records := by
  obtain ⟨endRecord, entries, inspection⟩ := inspect_ok h
  obtain ⟨records, hdecoded, hcount, hbytes, _⟩ := parseCentral_ok inspection.central
  have hadjacent := inspection.adjacent
  have hcentral : endRecord.centralOffset ≤ source.length := by omega
  obtain ⟨regions, _⟩ := validateLocalRegions_ok hcentral hdecoded inspection.regions
  obtain ⟨ordered, hperm, htiles⟩ := regions.tiles
  -- the local regions, the directory and the end record tile the file
  have htrailer : Tiles endRecord.centralOffset (trailer endRecord) source.length := by
    rw [← hadjacent]
    exact .cons (by omega) (.cons (by omega) .nil)
  have hall := htiles.append htrailer
  have hranges : ∀ record ∈ records, (regionOf source record).range.2 ≤ endRecord.centralOffset := by
    intro record hrecord
    have hmem := List.mem_map_of_mem (f := fun record => (regionOf source record).range)
      (hperm.mem_iff.2 hrecord)
    exact (htiles.within hmem).2.2
  have hend : packed endRecord.fields = slice source (source.length - eocdSize) source.length := by
    rw [inspection.atEnd]
    apply packed_endRecord
    rw [slice_length (Nat.le_refl _)]
    omega
  refine ⟨endRecord, records, ⟨?_, ⟨ordered, hperm, ?_⟩, regions.once, regions.agrees,
    ⟨inspection.signature, decoded_signatures hdecoded⟩, hcount, ⟨hranges, ?_, hadjacent⟩, regions.describes,
    inspection.places⟩⟩
  · intro position
    rw [hall.countP_perm ((hperm.map _).symm.append_right _) position]
    simp only [Nat.zero_le, true_and]
  · have hlocal : (ordered.flatMap fun record => (regionOf source record).bytes) =
        slice source 0 endRecord.centralOffset := by
      rw [← htiles.slices source, List.flatMap_map]
      apply List.flatMap_congr
      intro record hrecord
      exact (regions.placed record (hperm.mem_iff.1 hrecord)).symm
    rw [hlocal, hbytes, hend, slice_append source (Nat.zero_le _) (Nat.le_add_right _ _)]
    have hstart : source.length - eocdSize = endRecord.centralOffset + endRecord.centralBytes := by
      omega
    rw [hstart, slice_append source (Nat.zero_le _) (by omega), slice_all]
  · rw [hbytes, slice_length (by omega), Nat.add_sub_cancel_left]

end Inspected

/-- An archive with one stored file. -/
def indexArchive : Bytes :=
  let name := "index.html".toUTF8.data.toList
  let content := "hi".toUTF8.data.toList
  packed [word localSignature, half 20, half 0, half 0, half 0, half 33,
      word (crc32 content 0).toNat, word 2, word 2, half 10, half 0] ++ name ++ content ++
    packed [word centralSignature, half 0x0314, half 20, half 0, half 0, half 0, half 33,
      word (crc32 content 0).toNat, word 2, word 2, half 10, half 0, half 0, half 0, half 0,
      word 0x81A40000, word 0] ++ name ++
    packed [word eocdSignature, half 0, half 0, half 1, half 1, word 56, word 42, half 0]

/-- Tables that are right for ASCII texts without capitals. -/
def asciiTables : UnicodeTables where
  normalizeNfc := id
  casefold := id
  isAlpha := Char.isAlpha
  noSlash := fun _ h => h

theorem inspect_partitioned_index :
    ∃ result, inspect asciiTables defaultZipLimits indexArchive = .ok result ∧
      ∃ endRecord records, Partitioned indexArchive result endRecord records := by
  have hok : (inspect asciiTables defaultZipLimits indexArchive).isOk = true := by decide +kernel
  cases h : inspect asciiTables defaultZipLimits indexArchive with
  | error e =>
      rw [h] at hok
      cases hok
  | ok result => exact ⟨result, rfl, inspect_partitioned h⟩

end StaticHostAgent.Zip
