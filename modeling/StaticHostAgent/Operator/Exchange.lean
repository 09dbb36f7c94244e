import StaticHostAgent.Contracts.OperatorCodec
import StaticHostAgent.Contracts.Validation

/-!
# One exchange with the host

The operator client starts an SSH process for each exchange, writes one frame to it and reads one
frame back. What the process answers is an input here: how it takes what is written, what arrives on
its output and in which pieces, and how it exits. A deadline that passes is one of these answers.
-/

set_option autoImplicit false

namespace StaticHostAgent.Operator

open Library Contracts Contracts.OperatorProtocol

inductive ClientError where
  | operator (message : String)
  | protocol (error : ProtocolError)
  | contract (error : ContractError)
  /-- The bytes are no document of an accepted kind. -/
  | undecodable
  | keyError (member : String)
  | fileExists
  | os
  deriving DecidableEq

def timedOut : ClientError := .operator "operator transport timed out"

/-- What a reader finds on the output of the process. -/
inductive Arrival where
  | data (first : UInt8) (rest : Bytes)
  | blocked
  | stalled
  deriving DecidableEq

/-- What becomes of one write to the process. -/
inductive Acceptance where
  | taken
  | broken
  | refused
  | stalled
  deriving DecidableEq

/-- The remote side of one exchange. Everything that is not listed is taken; the output ends with
the arrivals; no exit status means that the process does not end in time. -/
structure Exchange where
  starts : Bool
  acceptances : List Acceptance
  arrivals : List Arrival
  status : Option Int
  stderr : String
  deriving DecidableEq

/-- The bytes that arrive before a deadline passes. -/
def arrivedBytes : List Arrival → Bytes
  | [] => []
  | .data first rest :: arrivals => first :: rest ++ arrivedBytes arrivals
  | .blocked :: arrivals => arrivedBytes arrivals
  | .stalled :: _ => []

/-- `read_exact`: fewer bytes only at the end of the output. A piece is read in parts of at most
64 KiB, between which nothing else happens. -/
def readExact : List Arrival → Nat → Except ClientError (Bytes × List Arrival)
  | arrivals, 0 => .ok ([], arrivals)
  | [], _ + 1 => .ok ([], [])
  | .stalled :: _, _ + 1 => .error timedOut
  | .blocked :: arrivals, count + 1 => readExact arrivals (count + 1)
  | .data first rest :: arrivals, count + 1 =>
      if rest.length ≤ count then do
        let (bytes, left) ← readExact arrivals (count - rest.length)
        .ok (first :: rest ++ bytes, left)
      else
        -- The piece holds more than is asked for; the rest of it stays in the pipe.
        match rest.drop count with
        | [] => .ok (first :: rest, arrivals)
        | next :: more => .ok (first :: rest.take count, .data next more :: arrivals)

/-- `require_output_eof` -/
def requireOutputEof : List Arrival → Except ClientError Unit
  | [] => .ok ()
  | .data _ _ :: _ => .error (.operator "operator response contains trailing bytes")
  | .blocked :: arrivals => requireOutputEof arrivals
  | .stalled :: _ => .error timedOut

/-- What is read is the next part of what arrives; it is shorter than asked for only at the end. -/
theorem readExact_ok {arrivals left : List Arrival} {count : Nat} {bytes : Bytes}
    (h : readExact arrivals count = .ok (bytes, left)) :
    arrivedBytes arrivals = bytes ++ arrivedBytes left ∧ bytes.length ≤ count ∧
      (.stalled ∈ arrivals → .stalled ∈ left) := by
  induction arrivals generalizing count bytes with
  | nil =>
      cases count with
      | zero => cases h; exact ⟨rfl, Nat.le_refl 0, id⟩
      | succ count => cases h; exact ⟨rfl, Nat.zero_le _, id⟩
  | cons arrival arrivals ih =>
      cases count with
      | zero =>
          rw [readExact] at h
          cases h
          exact ⟨rfl, Nat.le_refl 0, id⟩
      | succ count =>
          cases arrival with
          | stalled => cases h
          | blocked =>
              obtain ⟨hbytes, hlength, hstalled⟩ := ih h
              exact ⟨hbytes, hlength, fun hmem => hstalled (by simpa using hmem)⟩
          | data first rest =>
              rw [readExact] at h
              split at h
              · rename_i hrest
                obtain ⟨⟨more, left'⟩, hmore, hrun⟩ := bind_eq_ok.1 h
                cases hrun
                obtain ⟨hbytes, hlength, hstalled⟩ := ih hmore
                refine ⟨?_, ?_, fun hmem => hstalled (by simpa using hmem)⟩
                · rw [arrivedBytes, hbytes, List.append_assoc]
                · rw [List.length_append, List.length_cons]
                  omega
              · rename_i hrest
                split at h
                · rename_i hdrop
                  have := congrArg List.length hdrop
                  rw [List.length_drop, List.length_nil] at this
                  omega
                · rename_i next more hdrop
                  cases h
                  refine ⟨?_, ?_, fun hmem => ?_⟩
                  · have hpiece : first :: rest = first :: rest.take count ++ (next :: more) := by
                      rw [← hdrop, List.cons_append, List.take_append_drop]
                    rw [arrivedBytes, arrivedBytes, hpiece, List.append_assoc]
                  · rw [List.length_cons, List.length_take]
                    omega
                  · rcases List.mem_cons.1 hmem with hfirst | hmem
                    · cases hfirst
                    · exact List.mem_cons_of_mem _ hmem

theorem requireOutputEof_ok {arrivals : List Arrival} (h : requireOutputEof arrivals = .ok ()) :
    arrivedBytes arrivals = [] ∧ .stalled ∉ arrivals := by
  induction arrivals with
  | nil => exact ⟨rfl, List.not_mem_nil⟩
  | cons arrival arrivals ih =>
      cases arrival with
      | data first rest => cases h
      | stalled => cases h
      | blocked =>
          obtain ⟨hbytes, hstalled⟩ := ih h
          exact ⟨hbytes, fun hmem => hstalled (by simpa using hmem)⟩

namespace Exchange

/-- `wait` -/
def wait (x : Exchange) : Except ClientError Int :=
  match x.status with
  | some status => .ok status
  | none => .error timedOut

/-- `error_message` -/
def errorMessage (x : Exchange) (status : Int) : String :=
  if x.stderr = "" then "ssh_status_" ++ toString status else x.stderr

def read (x : Exchange) (count : Nat) : Except ClientError (Bytes × Exchange) := do
  let (bytes, left) ← readExact x.arrivals count
  .ok (bytes, { x with arrivals := left })

def transportFailed {α : Type} (x : Exchange) : Except ClientError α := do
  let status ← x.wait
  .error (.operator ("operator transport failed: " ++ x.errorMessage status))

/-- How one write ends. A closed pipe is reported by what the process says when it ends. -/
def accept (x : Exchange) : Except ClientError Exchange :=
  match x.acceptances with
  | [] => .ok x
  | .taken :: rest => .ok { x with acceptances := rest }
  | .stalled :: _ => .error timedOut
  | .refused :: _ => .error (.operator "operator transport stopped accepting input")
  | .broken :: _ => do
      let (bytes, x) ← x.read 1
      require (decide (bytes = []))
        (.operator "operator transport closed input before the request completed")
      x.transportFailed

/-- The exchange is over: nothing more arrives, and the process ends well. -/
def finish (x : Exchange) (failed : String → ClientError) : Except ClientError Unit := do
  requireOutputEof x.arrivals
  let status ← x.wait
  require (decide (status = 0)) (failed (x.errorMessage status))

end Exchange

namespace Exchange

variable {x x' : Exchange}

/-- The exchange after a part of its output was read. -/
def Reads (x : Exchange) (bytes : Bytes) (x' : Exchange) : Prop :=
  arrivedBytes x.arrivals = bytes ++ arrivedBytes x'.arrivals ∧
    (.stalled ∈ x.arrivals → .stalled ∈ x'.arrivals) ∧ x'.status = x.status

theorem Reads.nil (x : Exchange) : x.Reads [] x := ⟨rfl, id, rfl⟩

theorem Reads.append {x'' : Exchange} {bytes more : Bytes} (h : x.Reads bytes x')
    (h' : x'.Reads more x'') : x.Reads (bytes ++ more) x'' := by
  obtain ⟨hbytes, hstalled, hstatus⟩ := h
  obtain ⟨hmore, hstalled', hstatus'⟩ := h'
  exact ⟨by rw [hbytes, hmore, List.append_assoc], hstalled' ∘ hstalled, hstatus'.trans hstatus⟩

theorem read_ok {count : Nat} {bytes : Bytes} (h : x.read count = .ok (bytes, x')) :
    x.Reads bytes x' ∧ bytes.length ≤ count := by
  obtain ⟨⟨bytes', left⟩, hread, hrun⟩ := bind_eq_ok.1 h
  cases hrun
  obtain ⟨hbytes, hlength, hstalled⟩ := readExact_ok hread
  exact ⟨⟨hbytes, hstalled, rfl⟩, hlength⟩

/-- Writing reads nothing, if it goes well. -/
theorem accept_ok (h : x.accept = .ok x') : x'.arrivals = x.arrivals ∧ x'.status = x.status := by
  unfold accept at h
  split at h
  · cases h
    exact ⟨rfl, rfl⟩
  · cases h
    exact ⟨rfl, rfl⟩
  · cases h
  · cases h
  · obtain ⟨⟨bytes, x₁⟩, -, h⟩ := bind_eq_ok.1 h
    obtain ⟨-, -, h⟩ := bind_eq_ok.1 h
    obtain ⟨status, -, h⟩ := bind_eq_ok.1 h
    cases h

theorem finish_ok {failed : String → ClientError} (h : x.finish failed = .ok ()) :
    arrivedBytes x.arrivals = [] ∧ .stalled ∉ x.arrivals ∧ x.status = some 0 := by
  obtain ⟨_, heof, h⟩ := bind_eq_ok.1 h
  obtain ⟨status, hwait, hstatus⟩ := bind_eq_ok.1 h
  obtain ⟨hbytes, hstalled⟩ := requireOutputEof_ok heof
  refine ⟨hbytes, hstalled, ?_⟩
  have hzero := of_decide_eq_true (require_eq_ok.1 hstatus)
  unfold wait at hwait
  split at hwait
  · rename_i found hfound
    cases hwait
    rw [hfound, hzero]
  · cases hwait

end Exchange

/-! ## Responses -/

section Responses

variable (e : Encoding)

/-- `decode_json_object` and the validation of the document's own kind. -/
def decodeContract (raw : Bytes) (maximumBytes : Nat) : Except ClientError Document := do
  require (decide (raw.length ≤ maximumBytes)) .undecodable
  match e.decode raw with
  | none => throw .undecodable
  | some document => do
      let _ ← mapError ClientError.contract (validateContract e document)
      pure document

def decodeRequest (raw : Bytes) : Except ClientError OperationRequest := do
  match ← decodeContract e raw maxRawRequestBytes with
  | .operationRequest request => pure request
  | _ => throw .undecodable

def decodeResult (raw : Bytes) : Except ClientError OperationResult := do
  match ← decodeContract e raw maxCanonicalBytes with
  | .operationResult result => pure result
  | _ => throw .undecodable

/-- The first part of a response: one complete canonical result for the request. -/
def readResponse (request : OperationRequest) (x : Exchange) :
    Except ClientError (FrameHeader × OperationResult × Exchange) := do
  let (responseHeader, x) ← x.read headerSize
  if responseHeader.length ≠ headerSize then x.transportFailed
  else do
    let header ← mapError ClientError.protocol (decodeHeader responseHeader [.response])
    let (raw, x) ← x.read header.documentLength.toNat
    require (decide ((raw.length : Int) = header.documentLength))
      (.operator "operator response ended before its declared result")
    let result ← decodeResult e raw
    let canonical ← mapError ClientError.contract (canonicalJsonBytes e (.operationResult result))
    require (decide (canonical = raw)) (.operator "operator result is not canonical")
    require (decide (result.correlationId = request.correlationId) &&
        decide (result.operation = request.operation))
      (.operator "operator result does not match the submitted request")
    pure (header, result, x)

/-- The answer to an acknowledgement: the same result, without a payload. -/
def readAcknowledged (result : OperationResult) (x : Exchange) : Except ClientError Unit := do
  let (responseHeader, x) ← x.read headerSize
  let header ← mapError ClientError.protocol (decodeHeader responseHeader [.response])
  let (canonical, x) ← x.read header.documentLength.toNat
  let expected ← mapError ClientError.contract (canonicalJsonBytes e (.operationResult result))
  require (decide (header.payloadLength = none) && decide (canonical = expected))
    (.operator "export acknowledgement returned a different result")
  x.finish .operator

variable {e}

theorem decodeResult_ok {raw : Bytes} {result : OperationResult}
    (h : decodeResult e raw = .ok result) : ValidContract e (.operationResult result) := by
  unfold decodeResult decodeContract at h
  obtain ⟨document, hdocument, h⟩ := bind_eq_ok.1 h
  obtain ⟨_, -, hdocument⟩ := bind_eq_ok.1 hdocument
  split at hdocument
  · cases hdocument
  · obtain ⟨canonical, hcanonical, hdocument⟩ := bind_eq_ok.1 hdocument
    obtain rfl := pure_eq_ok.1 hdocument
    split at h
    · obtain rfl := pure_eq_ok.1 h
      exact (validateContract_eq_ok.1 (mapError_eq_ok.1 hcanonical)).1
    · cases h

/-- A response that is read: a header, and a complete canonical result for the request. -/
structure Response (e : Encoding) (request : OperationRequest) (x : Exchange)
    (header : FrameHeader) (result : OperationResult) (x' : Exchange) (rawHeader : Bytes) :
    Prop where
  header_ok : decodeHeader rawHeader [.response] = .ok header
  reads : x.Reads (rawHeader ++ e.canonical (.operationResult result)) x'
  length : header.documentLength = (e.canonical (.operationResult result)).length
  valid : ValidContract e (.operationResult result)
  correlation : result.correlationId = request.correlationId
  operation : result.operation = request.operation

theorem readResponse_ok {request : OperationRequest} {x x' : Exchange} {header : FrameHeader}
    {result : OperationResult} (h : readResponse e request x = .ok (header, result, x')) :
    ∃ rawHeader, Response e request x header result x' rawHeader := by
  unfold readResponse at h
  obtain ⟨⟨rawHeader, x₁⟩, hread, h⟩ := bind_eq_ok.1 h
  obtain ⟨hreads, -⟩ := Exchange.read_ok hread
  simp only at h
  split at h
  · obtain ⟨status, -, h⟩ := bind_eq_ok.1 h
    cases h
  · simp only [bind_eq_ok, require_eq_ok, decide_eq_true_eq, Bool.and_eq_true, mapError_eq_ok,
      pure_eq_ok, Prod.exists] at h
    obtain ⟨header', hheader, raw, x₂, hraw, ⟨⟩, hlength, result', hresult, canonical, hcanonical,
      ⟨⟩, hsame, ⟨⟩, ⟨hcorrelation, hoperation⟩, heq⟩ := h
    cases heq
    obtain ⟨-, rfl⟩ := canonicalJsonBytes_eq_ok.1 hcanonical
    subst hsame
    exact ⟨rawHeader, hheader, hreads.append (Exchange.read_ok hraw).1, hlength.symm,
      decodeResult_ok hresult, hcorrelation, hoperation⟩

end Responses

end StaticHostAgent.Operator
