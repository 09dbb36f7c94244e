import StaticHostAgent.Contracts.Identity
import StaticHostAgent.Library.Checks
import StaticHostAgent.Library.StreamDecoding

/-!
# The stream of one archive member

A member's bytes are read in pieces of 64 KiB. Stored bytes are passed on; compressed ones go
through a decompressor, a piece of the range until nothing of it is left over, at most 64 KiB of
output a call and at most one byte more than the member declares. At the end the decompressor has
to be at the end of its stream, and size and checksum have to agree.
-/

set_option autoImplicit false

namespace StaticHostAgent.Zip

open Library Contracts

inductive ZipError where
  | structure (message : String)
  | extraction (message : String)
  /-- `zlib.error` -/
  | zlib
  deriving DecidableEq

/-- `_EXTRACTION_CHUNK_BYTES` -/
def extractionChunkBytes : Nat := 64 * 1024

/-! ## Checksums -/

/-- One bit of the reflected CRC-32 polynomial. -/
def crcBit (register : UInt32) : UInt32 :=
  if register &&& 1 = 1 then (register >>> 1) ^^^ 0xEDB88320 else register >>> 1

def crcByte (register : UInt32) (byte : UInt8) : UInt32 :=
  crcBit (crcBit (crcBit (crcBit (crcBit (crcBit (crcBit (crcBit
    (register ^^^ byte.toUInt32))))))))

/-- `zlib.crc32` with its running value. -/
def crc32 (data : Bytes) (value : UInt32) : UInt32 :=
  data.foldl crcByte (value ^^^ 0xFFFFFFFF) ^^^ 0xFFFFFFFF

theorem crc32_append (a b : Bytes) (value : UInt32) :
    crc32 (a ++ b) value = crc32 b (crc32 a value) := by
  unfold crc32
  rw [List.foldl_append, UInt32.xor_assoc, UInt32.xor_self, UInt32.xor_zero]

theorem crc32_nil (value : UInt32) : crc32 [] value = value := by
  unfold crc32
  rw [List.foldl_nil, UInt32.xor_assoc, UInt32.xor_self, UInt32.xor_zero]

/-! ## Members -/

/-- What the stream of a member needs of its central record and its local header. -/
structure ZipMember where
  compressionMethod : Nat
  crc32 : UInt32
  compressedBytes : Nat
  expandedBytes : Nat
  dataOffset : Nat
  deriving DecidableEq

/-- A member of a source that the inspection let through: its range lies in the source, its declared
size within the limits. -/
structure Region where
  source : Bytes
  member : ZipMember
  maximumFileBytes : Nat
  inside : member.dataOffset + member.compressedBytes ≤ source.length
  small : member.expandedBytes ≤ maximumFileBytes

/-- `read` of a snapshot. -/
def readSource (source : Bytes) (offset length : Nat) : Except ZipError Bytes := do
  require (decide (offset + length ≤ source.length))
    (.structure "ZIP region lies outside the snapshot")
  pure ((source.drop offset).take length)

/-- What the loop has passed on so far. -/
structure Passed where
  expanded : Nat
  crc32 : UInt32
  chunks : List Bytes
  deriving DecidableEq

def validateExpandedChunk (member : ZipMember) (maximumFileBytes expanded : Nat) (data : Bytes) :
    Except ZipError Nat := do
  let projected := expanded + data.length
  require (decide (projected ≤ member.expandedBytes) && decide (projected ≤ maximumFileBytes))
    (.extraction "ZIP observed file bytes cross their declared boundary")
  pure projected

/-- Check a piece of the output, add it to the checksum and yield it. -/
def passOn (member : ZipMember) (maximumFileBytes : Nat) (passed : Passed) (output : Bytes) :
    Except ZipError Passed := do
  let expanded ← validateExpandedChunk member maximumFileBytes passed.expanded output
  pure { expanded := expanded, crc32 := Zip.crc32 output passed.crc32,
         chunks := passed.chunks ++ [output] }

theorem passOn_ok {member : ZipMember} {maximumFileBytes : Nat} {passed after : Passed}
    {output : Bytes} :
    passOn member maximumFileBytes passed output = .ok after ↔
      (passed.expanded + output.length ≤ member.expandedBytes ∧
        passed.expanded + output.length ≤ maximumFileBytes) ∧
      after = { expanded := passed.expanded + output.length,
                crc32 := Zip.crc32 output passed.crc32, chunks := passed.chunks ++ [output] } := by
  unfold passOn validateExpandedChunk
  constructor
  · intro h
    obtain ⟨expanded, hvalid, hrest⟩ := bind_eq_ok.1 h
    obtain ⟨_, hcheck, hexpanded⟩ := bind_eq_ok.1 hvalid
    have hcheck := Bool.and_eq_true_iff.1 (require_eq_ok.1 hcheck)
    obtain rfl := pure_eq_ok.1 hexpanded
    exact ⟨⟨of_decide_eq_true hcheck.1, of_decide_eq_true hcheck.2⟩, (pure_eq_ok.1 hrest).symm⟩
  · rintro ⟨⟨hdeclared, hlimit⟩, rfl⟩
    dsimp only
    rw [decide_eq_true hdeclared, decide_eq_true hlimit]
    rfl

section Loop

variable {format : StreamFormat} (decoder : Decompressor format) (region : Region)

/-- The bound of one call. -/
def outputCap (region : Region) (passed : Passed) : Nat :=
  min extractionChunkBytes (region.member.expandedBytes - passed.expanded + 1)

/-- The inner loop: feed what is left of a piece until the decompressor leaves nothing over. -/
def drain (state : decoder.State) (pending : Bytes) (passed : Passed) :
    Except ZipError (decoder.State × Passed) :=
  if _ : pending = [] then .ok (state, passed)
  else
    match decoder.decompress state pending (outputCap region passed) with
    | none => .error .zlib
    | some (output, state) =>
        match _ : passOn region.member region.maximumFileBytes passed output with
        | .error e => .error e
        | .ok after =>
            if _ : output = [] ∧ decoder.unconsumedTail state ≠ [] then
              .error (.extraction "ZIP Deflate decoder made no bounded progress")
            else drain state (decoder.unconsumedTail state) after
termination_by (region.member.expandedBytes - passed.expanded, pending.length)
decreasing_by
  rename_i hpending h hstuck
  obtain ⟨⟨hdeclared, _⟩, rfl⟩ := passOn_ok.1 h
  cases output with
  | nil =>
      -- a call without output has read all there was
      have hread : decoder.unconsumedTail state = [] := by
        by_contra hleft
        exact hstuck ⟨rfl, hleft⟩
      rw [hread]
      exact Prod.Lex.right _ (List.length_pos_iff.2 hpending)
  | cons byte output =>
      apply Prod.Lex.left
      show region.member.expandedBytes - (passed.expanded + (byte :: output).length) < _
      rw [List.length_cons] at hdeclared ⊢
      omega

/-- The outer loop of a compressed member: the pieces of the range, one after another. -/
def inflateRange (state : decoder.State) (offset remaining : Nat) (passed : Passed) :
    Except ZipError (decoder.State × Passed) :=
  if remaining = 0 then .ok (state, passed)
  else do
    let chunk ← readSource region.source offset (min remaining extractionChunkBytes)
    let (state, passed) ← drain decoder region state chunk passed
    inflateRange state (offset + min remaining extractionChunkBytes)
      (remaining - min remaining extractionChunkBytes) passed
termination_by remaining
decreasing_by
  have hchunk : 0 < extractionChunkBytes := by decide
  omega

/-- The outer loop of a stored member. -/
def copyRange (offset remaining : Nat) (passed : Passed) : Except ZipError Passed :=
  if remaining = 0 then .ok passed
  else do
    let chunk ← readSource region.source offset (min remaining extractionChunkBytes)
    let passed ← passOn region.member region.maximumFileBytes passed chunk
    copyRange (offset + min remaining extractionChunkBytes)
      (remaining - min remaining extractionChunkBytes) passed
termination_by remaining
decreasing_by
  have hchunk : 0 < extractionChunkBytes := by decide
  omega

/-- The checks behind the loop. -/
def finish (member : ZipMember) (passed : Passed) : Except ZipError (List Bytes) := do
  require (decide (passed.expanded = member.expandedBytes))
    (.extraction "ZIP observed file size disagrees with structural metadata")
  require (decide (passed.crc32 = member.crc32))
    (.extraction "ZIP observed CRC-32 disagrees with structural metadata")
  pure passed.chunks

/-- `_validated_member_chunks`, with the chunks it yields until it stops without an error. -/
def validatedMemberChunks : Except ZipError (List Bytes) :=
  let passed : Passed := { expanded := 0, crc32 := 0, chunks := [] }
  if region.member.compressionMethod = 0 then do
    let passed ← copyRange region region.member.dataOffset region.member.compressedBytes passed
    finish region.member passed
  else do
    let (state, passed) ← inflateRange decoder region decoder.start region.member.dataOffset
      region.member.compressedBytes passed
    require (decoder.eof state && decide (decoder.unusedData state = []) &&
        decide (decoder.unconsumedTail state = []))
      (.extraction "ZIP Deflate stream does not end at its declared boundary")
    finish region.member passed

end Loop

/-! ## What the loop is to decide -/

namespace Region

/-- The compressed bytes. -/
def range (region : Region) : Bytes :=
  (region.source.drop region.member.dataOffset).take region.member.compressedBytes

/-- All of the range at once is one stream of the declared size and checksum. -/
def Valid (format : StreamFormat) (region : Region) : Prop :=
  ∃ output, format.decode region.range = .ended output [] ∧
    output.length = region.member.expandedBytes ∧ crc32 output 0 = region.member.crc32

theorem range_length (region : Region) :
    region.range.length = region.member.compressedBytes := by
  have hinside := region.inside
  unfold range
  rw [List.length_take, List.length_drop]
  omega

/-- What a decompressor has handed out at least when `pieces` pieces of the range are read: a call
for each of them. -/
def handedOut (format : StreamFormat) (region : Region) : Nat → Nat
  | 0 => 0
  | pieces + 1 =>
      min (region.handedOut format pieces + extractionChunkBytes)
        (format.decode (region.range.take ((pieces + 1) * extractionChunkBytes))).output.length

/-- The pieces before the last one. -/
def earlierPieces (region : Region) : Nat :=
  (region.member.compressedBytes - 1) / extractionChunkBytes

end Region

/-- The stream of the member is exact: it is accepted if and only if it is valid, and then the
chunks are its output. -/
structure Exact {format : StreamFormat} (decoder : Decompressor format) (region : Region) : Prop where
  accepts : (∃ chunks, validatedMemberChunks decoder region = .ok chunks) ↔ region.Valid format
  yields : ∀ chunks, validatedMemberChunks decoder region = .ok chunks →
    format.decode region.range = .ended chunks.flatten []

end StaticHostAgent.Zip
