import StaticHostAgent.Contracts.Encoding
import StaticHostAgent.Contracts.Texts

/-!
# The operator protocol

The framing of `operator_protocol.py`: the fixed header that announces a document and
an optional payload, and the fixed receipt of an export. `header_codec` and
`acknowledgement_codec` say that encoder and decoder are the two directions of one
relation, so every accepted value has one wire form and every accepted wire form one
value.
-/

set_option autoImplicit false

namespace StaticHostAgent.Contracts.OperatorProtocol

open Library

/-- What the functions of the protocol raise. `value` is a bare `ValueError` of a
parser, `struct` an error of `struct.pack`. -/
inductive ProtocolError where
  | protocol (code : String)
  | contract (error : ContractError)
  | value (message : String)
  | struct
  deriving DecidableEq

def invalidHeader : ProtocolError := .protocol "invalid_header"

def unsupportedProtocol : ProtocolError := .protocol "unsupported_protocol"

def invalidAcknowledgement : ProtocolError := .protocol "invalid_acknowledgement"

def magic : Bytes := ascii "LDPSTAT" ++ [0]

def version : Nat := 1

def headerSize : Nat := 24

def maxRawRequestBytes : Nat := 32 * 1024

def maxImportArtifactBytes : Nat := 120 * 1024 * 1024

def maxResponseBytes : Nat := maxCanonicalBytes

def maxExportBytes : Nat := 120 * 1024 * 1024

def artifactPresent : Nat := 1

/-- The sixteen bits without the known flags. -/
def unknownFlags : Nat := 2 ^ 16 - 1 - artifactPresent

def sha256HexLength : Nat := 64

def acknowledgementSize : Nat := 56

/-- The fields of `!8sBBHIQ`. -/
def headerWidths : List Nat := [8, 1, 1, 2, 4, 8]

/-- The fields of `!16s32sQ`. -/
def acknowledgementWidths : List Nat := [16, 32, 8]

/-- One unsigned number of a `struct` format; out of range it raises. -/
def packNumber (width : Nat) (n : Int) : Except ProtocolError Bytes :=
  if 0 ≤ n ∧ n < 256 ^ width then .ok (packBytes width n.toNat) else .error .struct

/-! ## Texts of identities and digests -/

/-- The value of a hexadecimal digit of either case. -/
def hexValue (c : Char) : Option Nat :=
  match hexDigits.idxOf? c with
  | some d => some d
  | none => "0123456789ABCDEF".toList.idxOf? c

/-- `bytes.hex`. -/
def hexText (raw : Bytes) : List Char :=
  raw.flatMap fun byte => [hexDigit (byte.toNat / 16), hexDigit (byte.toNat % 16)]

/-- `bytes.fromhex`, on a text without blanks. -/
def fromHex : List Char → Option Bytes
  | [] => some []
  | [_] => none
  | high :: low :: rest => do
      let h ← hexValue high
      let l ← hexValue low
      let bytes ← fromHex rest
      some (UInt8.ofNat (16 * h + l) :: bytes)

/-- The number of `uuid.UUID(text)`, on a text without an outer `urn:uuid:` or braces. -/
def uuidNumber (text : List Char) : Option Nat :=
  let digits := text.filter fun c => c != '-'
  if digits.length = 32 then (digits.mapM hexValue).map (ofFixedDigits 16) else none

/-- `UUID.version`: defined for the RFC 4122 variant only. -/
def uuidVersion (number : Nat) : Option Nat :=
  if number.testBit 63 && !number.testBit 62 then some (number / 2 ^ 76 % 16) else none

/-- `UUID7_PATTERN`, place by place. -/
def uuid7Pattern : List (List Char) :=
  List.replicate 8 hexDigits ++ [['-']] ++ List.replicate 4 hexDigits ++ [['-'], ['7']] ++
    List.replicate 3 hexDigits ++ [['-'], ['8', '9', 'a', 'b']] ++
    List.replicate 3 hexDigits ++ [['-']] ++ List.replicate 12 hexDigits

/-- Every place of the text holds one of the characters of the pattern. -/
def fullMatch (pattern : List (List Char)) (text : List Char) : Bool :=
  decide (List.Forall₂ (fun allowed c => c ∈ allowed) pattern text)

def invalidUuid7 : ProtocolError :=
  .contract ⟨.invalidIdentifier, "identifier is not a canonical UUIDv7"⟩

/-- `validate_uuid7`. -/
def validateUuid7 (value : String) : Except ProtocolError String := do
  require (fullMatch uuid7Pattern value.toList) invalidUuid7
  match uuidNumber value.toList with
  | none => .error (.value "badly formed hexadecimal UUID string")
  | some parsed =>
      require (decide (uuidVersion parsed = some 7 ∧ uuidText parsed = value.toList)) invalidUuid7
      pure value

/-! ## Export acknowledgements -/

/-- Fixed binary receipt for one verified, durably saved download. -/
structure ExportAcknowledgement where
  jobId : String
  sha256 : String
  size : Int
  deriving DecidableEq

def ExportAcknowledgement.encode (receipt : ExportAcknowledgement) :
    Except ProtocolError Bytes := do
  let jobId ← validateUuid7 receipt.jobId
  require (decide (receipt.sha256.toList.length = sha256HexLength ∧
      (∀ c ∈ receipt.sha256.toList, c ∈ hexDigits) ∧
      0 < receipt.size ∧ receipt.size ≤ maxExportBytes)) invalidAcknowledgement
  match uuidNumber jobId.toList, fromHex receipt.sha256.toList with
  | some job, some digest => do
      let size ← packNumber 8 receipt.size
      pure (packBytes 16 job ++ digest ++ size)
  | none, _ => .error (.value "badly formed hexadecimal UUID string")
  | _, none => .error (.value "non-hexadecimal number found in fromhex() arg")

def ExportAcknowledgement.decode (raw : Bytes) : Except ProtocolError ExportAcknowledgement := do
  require (decide (raw.length = acknowledgementSize)) invalidAcknowledgement
  match splitFields acknowledgementWidths raw with
  | [job, digest, size] => do
      let receipt : ExportAcknowledgement :=
        ⟨String.ofList (uuidText (unpackBytes job)), String.ofList (hexText digest),
          unpackBytes size⟩
      let _ ← receipt.encode
      pure receipt
  | _ => .error .struct

/-! ## Frame headers -/

/-- Direction-specific frame kind encoded in the header. -/
inductive FrameKind where
  | request | response | acknowledgement
  deriving DecidableEq

def FrameKind.value : FrameKind → Nat
  | .request => 1
  | .response => 2
  | .acknowledgement => 3

def FrameKind.ofValue : Nat → Except ProtocolError FrameKind
  | 1 => .ok .request
  | 2 => .ok .response
  | 3 => .ok .acknowledgement
  | _ => .error unsupportedProtocol

/-- One bounded frame header. -/
structure FrameHeader where
  kind : FrameKind
  documentLength : Int
  payloadLength : Option Int
  deriving DecidableEq

/-- `_validate_lengths`. -/
def validateLengths (header : FrameHeader) : Except ProtocolError Unit :=
  match header.kind with
  | .acknowledgement =>
      require (decide (header.documentLength = acknowledgementSize ∧ header.payloadLength = none))
        invalidAcknowledgement
  | _ => do
      require (decide (0 < header.documentLength)) invalidHeader
      let maximumDocument :=
        if header.kind = .request then maxRawRequestBytes else maxResponseBytes
      require (decide (header.documentLength ≤ maximumDocument)) (.protocol "document_too_large")
      match header.payloadLength with
      | none => pure ()
      | some payloadLength => do
          require (decide (0 < payloadLength)) invalidHeader
          let maximumPayload :=
            if header.kind = .request then maxImportArtifactBytes else maxExportBytes
          require (decide (payloadLength ≤ maximumPayload)) (.protocol "payload_too_large")

def encodeHeader (header : FrameHeader) : Except ProtocolError Bytes := do
  validateLengths header
  let flags := if header.payloadLength.isSome then artifactPresent else 0
  let payloadLength := header.payloadLength.getD 0
  let versionField ← packNumber 1 version
  let kindField ← packNumber 1 header.kind.value
  let flagsField ← packNumber 2 flags
  let documentField ← packNumber 4 header.documentLength
  let payloadField ← packNumber 8 payloadLength
  pure [magic, versionField, kindField, flagsField, documentField, payloadField].flatten

/-- `decode_header`; `allowed` are the expected kinds. -/
def decodeHeader (raw : Bytes) (allowed : List FrameKind) : Except ProtocolError FrameHeader := do
  require (decide (raw.length = headerSize)) invalidHeader
  match splitFields headerWidths raw with
  | [magicField, versionField, kindField, flagsField, documentField, payloadField] => do
      require (decide (magicField = magic ∧ unpackBytes versionField = version)) unsupportedProtocol
      let kind ← FrameKind.ofValue (unpackBytes kindField)
      let flags := unpackBytes flagsField
      require (decide (kind ∈ allowed ∧ flags &&& unknownFlags = 0)) invalidHeader
      let payloadPresent := decide (flags &&& artifactPresent ≠ 0)
      let encodedPayloadLength := unpackBytes payloadField
      require (decide (payloadPresent = decide (encodedPayloadLength ≠ 0))) invalidHeader
      let header : FrameHeader :=
        ⟨kind, unpackBytes documentField,
          if payloadPresent then some (encodedPayloadLength : Int) else none⟩
      validateLengths header
      pure header
  | _ => .error .struct

end StaticHostAgent.Contracts.OperatorProtocol
