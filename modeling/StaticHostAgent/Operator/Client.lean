import StaticHostAgent.Operator.Workstation

/-!
# The operator client

`submit` sends one request, reads its result, saves the export that may come with it, and
acknowledges a saved export in a second exchange. What the host answers in both exchanges, what the
local calls return and what others do to the directory is arbitrary.
-/

set_option autoImplicit false

namespace StaticHostAgent.Operator

open Library Contracts Contracts.OperatorProtocol

/-- The artifact of a request as it is read for the transmission: its pieces, and whether the file
was found unchanged before and after. -/
structure ArtifactSource where
  size : Nat
  sha256 : Sha256
  unchangedBefore : Bool
  chunks : List Bytes
  unchangedAfter : Bool
  deriving DecidableEq

/-- One call of `submit`. The checks of the host name and of the identity file are made again for
the acknowledgement. -/
structure Submission where
  validHost : Bool
  validIdentity : Bool
  /-- `_read_stable` of the request file. -/
  rawRequest : Except ClientError Bytes
  /-- `_open_artifact` -/
  artifact : OperationRequest → Except ClientError (Option ArtifactSource)
  /-- The last part of the export path. -/
  exportName : Option String
  token : String
  request : Exchange
  stillValidIdentity : Bool
  acknowledgement : Exchange

section Client

variable (e : Encoding)

/-- `_copy_artifact` -/
def copyArtifact (source : ArtifactSource) (x : Exchange) : Client Exchange := do
  Durable.query fun _ => require source.unchangedBefore
    (.operator "operator artifact changed before transmission")
  let x ← source.chunks.foldlM Exchange.write x
  Durable.query fun _ => require
    (source.unchangedAfter && decide (source.chunks.flatten.length = source.size))
    (.operator "operator artifact changed during transmission")
  Durable.query fun _ => require (decide (e.sha256 source.chunks.flatten = source.sha256))
    (.operator "operator artifact changed during transmission")
  pure x

/-- The loop of `_receive_export`. Every turn reads something, so that as many turns as bytes are
enough; the result is what was read. -/
def receiveChunks (name : String) : Nat → Nat → Bytes → Exchange → Client (Bytes × Exchange)
  | 0, _, received, x => pure (received, x)
  | turns + 1, remaining, received, x =>
      if remaining = 0 then pure (received, x)
      else do
        let (chunk, x) ← Durable.query fun _ => x.read (min remaining (64 * 1024))
        Durable.query fun _ => require (decide (chunk ≠ []))
          (.operator "operator export ended before its declared length")
        writeAll name chunk.length chunk
        receiveChunks name turns (remaining - chunk.length) (received ++ chunk) x

/-- The payload is read, written, synced and compared with its digest. -/
def receivePayload (bundle : ExportBundle) (name : String) (x : Exchange) : Client Exchange := do
  let (received, x) ← receiveChunks name bundle.size bundle.size [] x
  localCall .syncFile
  Durable.effect (Workstation.updateFile name fun entry => { entry with synced := true })
  Durable.query fun _ => require (decide (e.sha256 received = bundle.digest.value))
    (.operator "operator export digest does not match its result")
  pure x

/-- `_receive_export`; says whether an export is pending. -/
def receiveExport (payloadLength : Option Int) (input : Submission) (result : OperationResult)
    (x : Exchange) : Client (Bool × Exchange) :=
  match result.exportBundle, payloadLength with
  | none, none => pure (false, x)
  | none, some _ => Durable.fail (.operator "non-export result contains an export payload")
  | some _, none => pure (false, x)
  | some bundle, some byteCount => do
      Durable.query fun _ => require (decide (byteCount = bundle.size))
        (.operator "operator export length does not match its result")
      match input.exportName with
      | none => Durable.fail (.operator "operation returned an export without a destination")
      | some name => do
          createPending name input.token
          let x ← Durable.rescue (receivePayload e bundle (".ldp-export-" ++ input.token) x)
            fun error => do
              PendingExport.cleanup
              Durable.fail error
          pure (true, x)

def acknowledgementLost : ClientError :=
  .operator "export saved locally but acknowledgement failed; the host copy will expire"

/-- The receipt of a result. -/
def receiptOf (result : OperationResult) : Except ClientError ExportAcknowledgement :=
  match result.exportBundle, result.provenance with
  | none, _ => throw (.operator "export acknowledgement requires a bundle result")
  | some _, .emergencyAdministrator _ _ => throw (.keyError "jobId")
  | some bundle, .authorizationJob jobId =>
      pure ⟨jobId.text, sha256Text bundle.digest.value, bundle.size⟩

/-- The second exchange of an acknowledgement. -/
def exchangeReceipt (result : OperationResult) (raw : Bytes) (x : Exchange) : Client Unit := do
  let header ← Durable.query fun _ =>
    mapError ClientError.protocol (encodeHeader ⟨.acknowledgement, raw.length, none⟩)
  let x ← x.write header
  let x ← x.write raw
  Durable.query fun _ => readAcknowledged e result x

/-- `acknowledge_export` -/
def acknowledgeExport (input : Submission) (result : OperationResult) : Client Unit := do
  Durable.query fun _ => require input.validHost (.operator "operator host is invalid")
  Durable.query fun _ => require input.stillValidIdentity
    (.operator "operator identity must be one private regular file")
  let receipt ← Durable.query fun _ => receiptOf result
  let raw ← Durable.query fun _ => mapError ClientError.protocol receipt.encode
  input.acknowledgement.start input.exportName
  Durable.rescue (exchangeReceipt e result raw input.acknowledgement) fun _ =>
    Durable.fail acknowledgementLost

/-- The end of an exchange, after which a pending export is committed and acknowledged. -/
def concludeExport (input : Submission) (result : OperationResult) (pending : Bool)
    (x : Exchange) : Client OperationResult := do
  Durable.query fun _ => x.finish fun message => .operator ("operator transport failed: " ++ message)
  Durable.when pending do
    PendingExport.commit
    acknowledgeExport e input result
  pure result

/-- The request and its artifact are sent. -/
def sendRequest (canonical : Bytes) (artifact : Option ArtifactSource) (x : Exchange) :
    Client Exchange := do
  let header ← Durable.query fun _ => mapError ClientError.protocol
    (encodeHeader ⟨.request, canonical.length, artifact.map fun source => (source.size : Int)⟩)
  let x ← x.write header
  let x ← x.write canonical
  match artifact with
  | some source => copyArtifact e source x
  | none => pure x

def submit (input : Submission) : Client OperationResult := do
  Durable.query fun _ => require input.validHost (.operator "operator host is invalid")
  Durable.query fun _ => require input.validIdentity
    (.operator "operator identity must be one private regular file")
  let raw ← Durable.query fun _ => input.rawRequest
  let request ← Durable.query fun _ => decodeRequest e raw
  let canonical ← Durable.query fun _ =>
    mapError ClientError.contract (canonicalJsonBytes e (.operationRequest request))
  let artifact ← Durable.query fun _ => input.artifact request
  input.request.start none
  let x ← sendRequest e canonical artifact input.request
  let (header, result, x) ← Durable.query fun _ => readResponse e request x
  let (pending, x) ← receiveExport e header.payloadLength input result x
  Durable.rescue (concludeExport e input result pending x) fun error => do
    Durable.when pending PendingExport.cleanup
    Durable.fail error

end Client

end StaticHostAgent.Operator
