import StaticHostAgent.Contracts.TableEncoding
import StaticHostAgent.Exports.DeliveryRuns
import StaticHostAgent.Library.Ascending
import StaticHostAgent.Operator.ClientRuns
import Mathlib.Logic.Relation

/-!
# The hand-over of an export

An operator's client and the host run side by side. What the client wrote to its processes may reach
the host at any later time, as a whole, in part, more than once, or never; everything that the
client reads is arbitrary. The host marks an export as acknowledged by a receipt of the client only
when the client has saved that bundle.
-/

set_option autoImplicit false

namespace StaticHostAgent.Operator

open Library Contracts Contracts.OperatorProtocol Exports

/-! ## Transmissions only grow -/

/-- Every transmission of the first state is continued in the second. -/
def Grows (w w' : Workstation) : Prop :=
  ∀ t ∈ w.sent, ∃ t' ∈ w'.sent, t'.destination = t.destination ∧ t.bytes <+: t'.bytes

instance : Std.Refl Grows := ⟨fun _ t ht => ⟨t, ht, rfl, List.prefix_refl _⟩⟩

instance : IsTrans Workstation Grows := by
  refine ⟨fun a b c hab hbc t ht => ?_⟩
  obtain ⟨t', ht', hdestination, hbytes⟩ := hab t ht
  obtain ⟨t'', ht'', hdestination', hbytes'⟩ := hbc t' ht'
  exact ⟨t'', ht'', hdestination'.trans hdestination, hbytes.trans hbytes'⟩

theorem Grows.of_sent {w w' : Workstation} (h : w'.sent = w.sent) : Grows w w' :=
  fun t ht => ⟨t, h ▸ ht, rfl, List.prefix_refl _⟩

theorem grows_transmit (data : Bytes) (w : Workstation) : Grows w (w.transmit data) := by
  unfold Workstation.transmit
  split
  · exact Grows.of_sent rfl
  · rename_i latest earlier hsent
    intro t ht
    rw [hsent] at ht
    rcases List.mem_cons.1 ht with rfl | ht
    · exact ⟨_, List.mem_cons_self, rfl, List.prefix_append _ _⟩
    · exact ⟨t, List.mem_cons_of_mem _ ht, rfl, List.prefix_refl _⟩

section Ascents

open Durable

theorem ascends_nextMoment : Durable.Ascending Grows nextMoment :=
  Ascending.bind (Ascending.query _) fun _ =>
    Ascending.bind (Ascending.effect fun _ => Grows.of_sent pass_sent) fun _ => Ascending.pure _

theorem ascends_localCall (call : LocalCall) : Durable.Ascending Grows (localCall call) :=
  Ascending.bind ascends_nextMoment fun _ => Ascending.query _

theorem ascends_start (x : Exchange) (destination : Option String) :
    Durable.Ascending Grows (x.start destination) :=
  Ascending.bind (Ascending.query _) fun _ =>
    Ascending.effect fun _ t ht => ⟨t, List.mem_cons_of_mem _ ht, rfl, List.prefix_refl _⟩

theorem ascends_write (x : Exchange) (data : Bytes) : Durable.Ascending Grows (x.write data) :=
  Ascending.bind (Ascending.effect (grows_transmit data)) fun _ => Ascending.query _

theorem ascends_setPending (f : PendingExport → PendingExport) :
    Durable.Ascending Grows (Durable.effect (Workstation.setPending f) : Client Unit) :=
  Ascending.effect fun _ => Grows.of_sent rfl

theorem ascends_closeFile (p : PendingExport) : Durable.Ascending Grows p.closeFile := by
  unfold PendingExport.closeFile
  cases p.file with
  | cleared => exact Ascending.pure ()
  | lost => exact Ascending.fail _
  | held =>
      refine Ascending.bind ascends_nextMoment fun moment => ?_
      split
      · exact Ascending.bind (ascends_setPending _) fun _ => Ascending.fail _
      · exact ascends_setPending _

theorem ascends_closeDirectory : Durable.Ascending Grows PendingExport.closeDirectory := by
  refine Ascending.bind ascends_nextMoment fun moment => ?_
  split
  · exact Ascending.bind (ascends_setPending _) fun _ => Ascending.fail _
  · exact ascends_setPending _

theorem ascends_discard (p : PendingExport) : Durable.Ascending Grows p.discard := by
  refine Ascending.bind (ascends_closeFile p) fun _ => ?_
  refine Ascending.bind (Ascending.query _) fun _ => ?_
  refine Ascending.bind (ascends_localCall .unlink) fun _ => ?_
  refine Ascending.bind (Ascending.effect fun _ => Grows.of_sent rfl) fun _ => ?_
  refine Ascending.bind (ascends_localCall .syncDirectory) fun _ => ?_
  exact Ascending.bind (Ascending.effect fun _ => Grows.of_sent rfl) fun _ => ascends_closeDirectory

theorem ascends_cleanup : Durable.Ascending Grows PendingExport.cleanup := by
  refine Ascending.bind (Ascending.query _) fun p => ?_
  split
  · exact Ascending.pure ()
  · exact ascends_discard p

theorem grows_renameFile (source destination : String) (w : Workstation) :
    Grows w (w.renameFile source destination) := by
  unfold Workstation.renameFile
  split <;> exact Grows.of_sent rfl

theorem ascends_place (p : PendingExport) : Durable.Ascending Grows p.place := by
  refine Ascending.bind (ascends_localCall .rename) fun _ => ?_
  refine Ascending.bind (Ascending.query _) fun _ => ?_
  refine Ascending.bind (Ascending.effect (grows_renameFile _ _)) fun _ => ?_
  refine Ascending.bind (ascends_setPending _) fun _ => ?_
  refine Ascending.bind (ascends_localCall .syncDirectory) fun _ => ?_
  exact Ascending.effect fun _ => Grows.of_sent rfl

theorem ascends_commit : Durable.Ascending Grows PendingExport.commit := by
  refine Ascending.bind (Ascending.query _) fun p => ?_
  refine Ascending.bind (ascends_closeFile p) fun _ => ?_
  refine Ascending.bind (Ascending.rescue (ascends_place p) fun _ => ?_) fun _ => ?_
  · exact Ascending.bind ascends_cleanup fun _ => Ascending.fail _
  exact Ascending.bind (Ascending.effect fun _ => Grows.of_sent rfl) fun _ => ascends_closeDirectory

theorem ascends_createPending (name token : String) :
    Durable.Ascending Grows (createPending name token) := by
  refine Ascending.bind (Ascending.query _) fun _ => ?_
  refine Ascending.bind (ascends_localCall .openDirectory) fun _ => ?_
  refine Ascending.rescue ?_ fun _ =>
    Ascending.bind (ascends_localCall .closeDirectory) fun _ => Ascending.fail _
  refine Ascending.bind (ascends_localCall .stat) fun _ => ?_
  refine Ascending.bind (Ascending.query _) fun _ => ?_
  refine Ascending.bind (ascends_localCall .create) fun _ => ?_
  refine Ascending.bind (Ascending.query _) fun _ => ?_
  refine Ascending.bind (Ascending.effect fun _ => Grows.of_sent rfl) fun _ => ?_
  exact Ascending.effect fun _ => Grows.of_sent rfl

theorem ascends_updateFile (name : String) (f : Entry → Entry) :
    Durable.Ascending Grows (Durable.effect (Workstation.updateFile name f) : Client Unit) :=
  Ascending.effect fun _ => Grows.of_sent updateFile_rest.1

theorem ascends_writeAll (name : String) (turns : Nat) (remaining : Bytes) :
    Durable.Ascending Grows (writeAll name turns remaining) := by
  induction turns generalizing remaining with
  | zero => exact Ascending.pure ()
  | succ turns ih =>
      unfold writeAll
      split
      · exact Ascending.pure ()
      · refine Ascending.bind ascends_nextMoment fun _ => ?_
        refine Ascending.bind (Ascending.query _) fun _ => ?_
        refine Ascending.bind (ascends_updateFile _ _) fun _ => ?_
        exact Ascending.bind (Ascending.query _) fun _ => ih _

theorem ascends_receiveChunks (name : String) (turns remaining : Nat) (received : Bytes)
    (x : Exchange) : Durable.Ascending Grows (receiveChunks name turns remaining received x) := by
  induction turns generalizing remaining received x with
  | zero => exact Ascending.pure _
  | succ turns ih =>
      unfold receiveChunks
      split
      · exact Ascending.pure _
      · refine Ascending.bind (Ascending.query _) fun read => ?_
        refine Ascending.bind (Ascending.query _) fun _ => ?_
        exact Ascending.bind (ascends_writeAll _ _ _) fun _ => ih _ _ _

variable (e : Encoding)

theorem ascends_receivePayload (bundle : ExportBundle) (name : String) (x : Exchange) :
    Durable.Ascending Grows (receivePayload e bundle name x) := by
  refine Ascending.bind (ascends_receiveChunks _ _ _ _ _) fun read => ?_
  refine Ascending.bind (ascends_localCall .syncFile) fun _ => ?_
  refine Ascending.bind (ascends_updateFile _ _) fun _ => ?_
  exact Ascending.bind (Ascending.query _) fun _ => Ascending.pure _

theorem ascends_receiveExport (payloadLength : Option Int) (input : Submission)
    (result : OperationResult) (x : Exchange) :
    Durable.Ascending Grows (receiveExport e payloadLength input result x) := by
  unfold receiveExport
  split
  · exact Ascending.pure _
  · exact Ascending.fail _
  · exact Ascending.pure _
  · refine Ascending.bind (Ascending.query _) fun _ => ?_
    split
    · exact Ascending.fail _
    · refine Ascending.bind (ascends_createPending _ _) fun _ => ?_
      refine Ascending.bind (Ascending.rescue (ascends_receivePayload e _ _ _) fun _ => ?_)
        fun _ => Ascending.pure _
      exact Ascending.bind ascends_cleanup fun _ => Ascending.fail _

theorem ascends_sendRequest (canonical : Bytes) (artifact : Option ArtifactSource) (x : Exchange) :
    Durable.Ascending Grows (sendRequest e canonical artifact x) := by
  refine Ascending.bind (Ascending.query _) fun _ => ?_
  refine Ascending.bind (ascends_write _ _) fun _ => ?_
  refine Ascending.bind (ascends_write _ _) fun x => ?_
  cases artifact with
  | none => exact Ascending.pure _
  | some source =>
      refine Ascending.bind (Ascending.query _) fun _ => ?_
      refine Ascending.bind (Ascending.foldlM ascends_write _ _) fun _ => ?_
      refine Ascending.bind (Ascending.query _) fun _ => ?_
      exact Ascending.bind (Ascending.query _) fun _ => Ascending.pure _

theorem ascends_acknowledgeExport (input : Submission) (result : OperationResult) :
    Durable.Ascending Grows (acknowledgeExport e input result) := by
  refine Ascending.bind (Ascending.query _) fun _ => ?_
  refine Ascending.bind (Ascending.query _) fun _ => ?_
  refine Ascending.bind (Ascending.query _) fun _ => ?_
  refine Ascending.bind (Ascending.query _) fun _ => ?_
  refine Ascending.bind (ascends_start _ _) fun _ => ?_
  refine Ascending.rescue ?_ fun _ => Ascending.fail _
  refine Ascending.bind (Ascending.query _) fun _ => ?_
  refine Ascending.bind (ascends_write _ _) fun _ => ?_
  exact Ascending.bind (ascends_write _ _) fun _ => Ascending.query _

/-- In the course of a call the transmissions grow. -/
theorem ascends_submit (input : Submission) : Durable.Ascending Grows (submit e input) := by
  refine Ascending.bind (Ascending.query _) fun _ => ?_
  refine Ascending.bind (Ascending.query _) fun _ => ?_
  refine Ascending.bind (Ascending.query _) fun _ => ?_
  refine Ascending.bind (Ascending.query _) fun _ => ?_
  refine Ascending.bind (Ascending.query _) fun _ => ?_
  refine Ascending.bind (Ascending.query _) fun _ => ?_
  refine Ascending.bind (ascends_start _ _) fun _ => ?_
  refine Ascending.bind (ascends_sendRequest e _ _ _) fun _ => ?_
  refine Ascending.bind (Ascending.query _) fun _ => ?_
  refine Ascending.bind (ascends_receiveExport e _ _ _ _) fun _ => ?_
  refine Ascending.rescue ?_ fun _ =>
    Ascending.bind (Ascending.when ascends_cleanup) fun _ => Ascending.fail _
  refine Ascending.bind (Ascending.query _) fun _ => ?_
  refine Ascending.bind (Ascending.when ?_) fun _ => Ascending.pure _
  exact Ascending.bind ascends_commit fun _ => ascends_acknowledgeExport e _ _

end Ascents

/-! ## Receipts that reach the host -/

variable {e : Encoding}

theorem encodeHeader_length {header : FrameHeader} {raw : Bytes}
    (h : encodeHeader header = .ok raw) : raw.length = headerSize := by
  have hdecoded : decodeHeader raw [header.kind] = .ok header :=
    (header_codec header raw _).2 ⟨List.mem_singleton_self _, h⟩
  unfold decodeHeader at hdecoded
  obtain ⟨_, hlength, -⟩ := bind_eq_ok.1 hdecoded
  exact of_decide_eq_true (require_eq_ok.1 hlength)

theorem decode_length {raw : Bytes} {receipt : ExportAcknowledgement}
    (h : ExportAcknowledgement.decode raw = .ok receipt) : raw.length = acknowledgementSize := by
  unfold ExportAcknowledgement.decode at h
  obtain ⟨_, hlength, -⟩ := bind_eq_ok.1 h
  exact of_decide_eq_true (require_eq_ok.1 hlength)

/-- What a host takes for a receipt is the header of one and the receipt. -/
theorem receiveAcknowledgement_some {raw : Bytes} {receipt : ExportAcknowledgement}
    (h : receiveAcknowledgement raw = some receipt) :
    ∃ header, header.kind = .acknowledgement ∧
      encodeHeader header = .ok (raw.take headerSize) ∧
      receipt.encode = .ok (raw.drop headerSize) := by
  unfold receiveAcknowledgement at h
  split at h
  · cases h
  · rename_i header hheader
    split at h
    · rename_i hvalid
      obtain ⟨-, hencoded⟩ := (header_codec _ _ _).1 hheader
      refine ⟨header, hvalid.1, hencoded, (acknowledgement_codec _ _).2 ?_⟩
      cases hreceipt : ExportAcknowledgement.decode (raw.drop headerSize) with
      | error error =>
          rw [hreceipt] at h
          cases h
      | ok found =>
          rw [hreceipt] at h
          cases h
          rfl
    · cases h

/-- No part of a request is taken for a receipt. -/
theorem RequestPart.not_receipt {t : Transmission} {raw : Bytes} (h : RequestPart t)
    (hraw : raw <+: t.bytes) (receipt : ExportAcknowledgement) :
    receiveAcknowledgement raw ≠ some receipt := by
  intro hreceipt
  obtain ⟨header, hkind, hheader, -⟩ := receiveAcknowledgement_some hreceipt
  have hlength := encodeHeader_length hheader
  rcases h with hnone | ⟨sent, rawSent, hsentKind, hsent, hfirst⟩
  · rw [hnone, List.prefix_nil] at hraw
    rw [hraw] at hlength
    cases hlength
  · -- Both headers are the first bytes of the transmission.
    have hboth : raw.take headerSize = rawSent := by
      have htaken : raw.take headerSize <+: t.bytes := (List.take_prefix _ _).trans hraw
      refine (List.prefix_of_prefix_length_le htaken hfirst ?_).eq_of_length ?_
      · rw [hlength, encodeHeader_length hsent]
      · rw [hlength, encodeHeader_length hsent]
    rw [hboth] at hheader
    have hdecoded := (header_codec header rawSent [header.kind, sent.kind]).2 ⟨by simp, hheader⟩
    have hdecodedSent := (header_codec sent rawSent [header.kind, sent.kind]).2 ⟨by simp, hsent⟩
    obtain rfl : header = sent := Except.ok.inj (hdecoded.symm.trans hdecodedSent)
    rw [hkind] at hsentKind
    cases hsentKind

/-- A receipt that reaches the host names the file it was written for. -/
theorem ReceiptPart.receipt {t : Transmission} {name : String} {entry : Entry} {raw : Bytes}
    {receipt : ExportAcknowledgement} (h : ReceiptPart e t name entry) (hraw : raw <+: t.bytes)
    (hreceipt : receiveAcknowledgement raw = some receipt) :
    receipt.size = entry.bytes.length ∧ receipt.sha256 = sha256Text (e.sha256 entry.bytes) := by
  obtain ⟨-, sent, rawHeader, rawSent, hsent, hheaderSent, hbytes, hsize, hdigest⟩ := h
  obtain ⟨header, -, hheader, hencoded⟩ := receiveAcknowledgement_some hreceipt
  have hwhole : raw <+: rawHeader ++ rawSent := hraw.trans hbytes
  have hlength : rawHeader.length = headerSize := encodeHeader_length hheaderSent
  have hdrop : raw.drop headerSize <+: rawSent := by
    have hrest := hwhole.drop rawHeader.length
    rwa [List.drop_left, hlength] at hrest
  have hsame : raw.drop headerSize = rawSent := by
    refine hdrop.eq_of_length ?_
    rw [decode_length ((acknowledgement_codec _ _).1 hencoded),
      decode_length ((acknowledgement_codec _ _).1 hsent)]
  rw [hsame] at hencoded
  obtain rfl : receipt = sent := Except.ok.inj (((acknowledgement_codec _ _).1 hencoded).symm.trans
    ((acknowledgement_codec _ _).1 hsent))
  exact ⟨hsize, hdigest⟩

/-! ## One client and one host -/

/-- The workstation as a new call finds it. -/
def Workstation.beginCall (moments : List Moment) (w : Workstation) : Workstation :=
  { w with pending := none, moments := moments, events := [] }

/-- A file after a power loss: without a sync its content is arbitrary. -/
def Rewritten (entry entry' : Entry) : Prop :=
  entry'.mine = entry.mine ∧ (entry.synced = true → entry' = entry)

/-- A power loss: each name is as it was on the disk or as programs saw it. -/
structure LosesPower (w w' : Workstation) : Prop where
  settled : w'.stable = w'.live
  names : ∀ name, ∃ found, (found = w.stable.find? name ∨ found = w.live.find? name) ∧
    Option.Rel Rewritten found (w'.live.find? name)
  sent : w'.sent = w.sent

/-- The client's call and the host's session may be under way: the states that they will make
durable are ahead. -/
structure System where
  client : Workstation
  ahead : List Workstation
  host : ExportWorld
  hostAhead : List ExportWorld

/-- The client of this system; receipts of other clients have other origins. -/
def ownClient : ClientId := 0

inductive Session where
  | receipt (receipt : ExportAcknowledgement) (operatorPrincipal : String) (origin : ClientId)
      (now : Nat)
  | beginDownload (jobId : Uuid7) (expected : OperationResult) (now : Nat)
  | endDownload (jobId : Uuid7) (now : Nat)
  | reconcile (now : Nat)

/-- The states that a session makes durable. -/
def sessionTrace (h : ExportHost) (w : ExportWorld) : Session → List ExportWorld
  | .receipt named operatorPrincipal origin now =>
      (acknowledge h named operatorPrincipal origin now w).trace
  | .beginDownload jobId expected now => (beginDownload h jobId expected now w).trace
  | .endDownload jobId now => (endDownload h jobId now w).trace
  | .reconcile now => (reconcileLocked h now w).trace

/-- Some part of what the client has sent is this receipt. -/
def Sent (sent : List Transmission) (receipt : ExportAcknowledgement) : Prop :=
  ∃ t ∈ sent, ∃ raw, raw <+: t.bytes ∧ receiveAcknowledgement raw = some receipt

/-- A receipt of the client is one that it has sent. -/
def Session.Arrives (sent : List Transmission) : Session → Prop
  | .receipt named _ origin _ => origin = ownClient → Sent sent named
  | _ => True

/-- What the rest of the host does: it adds results and acknowledges no export. -/
structure Elsewhere (w w' : ExportWorld) : Prop where
  results : ∀ jobId result, w.results.find? jobId = some result →
    w'.results.find? jobId = some result
  jobs : ∀ jobId job, w'.jobs.find? jobId = some job → job.exportDelivery = some .acknowledged →
    ∃ job₀, w.jobs.find? jobId = some job₀ ∧ job₀.exportDelivery = some .acknowledged
  retirements : w'.retirements = w.retirements

variable (e) in
inductive Step (h : ExportHost) : System → System → Prop where
  | call (s : System) (input : Submission) (moments : List Moment) (idle : s.ahead = []) :
      Step h s { s with
        client := s.client.beginCall moments
        ahead := (submit e input (s.client.beginCall moments)).trace }
  | advance (s : System) (w : Workstation) (rest : List Workstation) (next : s.ahead = w :: rest) :
      Step h s { s with client := w, ahead := rest }
  | stop (s : System) : Step h s { s with ahead := [] }
  | powerLoss (s : System) (w : Workstation) (lost : LosesPower s.client w) :
      Step h s { s with client := w, ahead := [] }
  | others (s : System) (c : Change) (idle : s.ahead = []) :
      Step h s { s with client := s.client.change c }
  | session (s : System) (session : Session) (failing : List Bool) (idle : s.hostAhead = [])
      (arrives : session.Arrives s.client.sent) :
      Step h s { s with
        host := { s.host with failing := failing }
        hostAhead := sessionTrace h { s.host with failing := failing } session }
  | hostAdvance (s : System) (w : ExportWorld) (rest : List ExportWorld)
      (next : s.hostAhead = w :: rest) : Step h s { s with host := w, hostAhead := rest }
  | hostStop (s : System) : Step h s { s with hostAhead := [] }
  | elsewhere (s : System) (w : ExportWorld) (idle : s.hostAhead = [])
      (elsewhere : Elsewhere s.host w) : Step h s { s with host := w }

/-- Nothing is under way, and nothing was sent or acknowledged for the client so far. -/
structure Initial (s : System) : Prop where
  idle : s.ahead = [] ∧ s.hostAhead = []
  unsent : s.client.sent = []
  marked : Marked s.host
  unacknowledged : ∀ jobId receipt,
    (jobId, RetirementReason.acknowledged receipt ownClient) ∉ s.host.retirements

variable (e) in
/-- The client sent this receipt for the export with the destination `name`, and the bundle of the
result is saved under that name. -/
def DurablyAt (w : Workstation) (receipt : ExportAcknowledgement) (result : OperationResult)
    (name : String) : Prop :=
  (∃ t ∈ w.sent, t.destination = some name ∧
    ∃ raw, raw <+: t.bytes ∧ receiveAcknowledgement raw = some receipt) ∧
  ∃ bundle entry, result.exportBundle = some bundle ∧ Saved w name entry ∧
    entry.bytes.length = bundle.size ∧ e.sha256 entry.bytes = bundle.digest.value

variable (e) in
/-- Every export that the host has marked as acknowledged was marked for a receipt, and if that was
a receipt of this client, the client has saved the bundle under the destination of the call that
sent the receipt. -/
def HandedOver (s : System) : Prop :=
  ∀ jobId job, s.host.jobs.find? jobId = some job → job.exportDelivery = some .acknowledged →
    ∃ receipt origin, (jobId, RetirementReason.acknowledged receipt origin) ∈ s.host.retirements ∧
      ∀ receipt, (jobId, RetirementReason.acknowledged receipt ownClient) ∈ s.host.retirements →
        ∃ result name, s.host.results.find? jobId = some result ∧
          DurablyAt e s.client receipt result name

/-! ## The invariant -/

variable (e) in
/-- A transmission is not a receipt, or its file is saved. -/
def Backed (w : Workstation) (t : Transmission) : Prop :=
  RequestPart t ∨ ∃ name entry, Saved w name entry ∧ ReceiptPart e t name entry

/-- The host acknowledged the export for a receipt that it found in what the client has sent. -/
def Acknowledged (sent : List Transmission) (v : ExportWorld) (jobId : Uuid7)
    (receipt : ExportAcknowledgement) : Prop :=
  Sent sent receipt ∧ ∃ result bundle, v.results.find? jobId = some result ∧
    result.exportBundle = some bundle ∧ sha256Text bundle.digest.value = receipt.sha256 ∧
      (bundle.size : Int) = receipt.size

variable (e) in
/-- The invariant of one state of the client. -/
def ClientSound (w : Workstation) : Prop := ∀ t ∈ w.sent, Backed e w t

/-- The invariant of one state of the host. -/
structure HostSound (sent : List Transmission) (v : ExportWorld) : Prop where
  marked : Marked v
  acknowledged : ∀ jobId receipt,
    (jobId, RetirementReason.acknowledged receipt ownClient) ∈ v.retirements →
      Acknowledged sent v jobId receipt

variable (e) in
structure Sound (s : System) : Prop where
  client : ∀ w ∈ s.client :: s.ahead, ClientSound e w
  grows : (s.client :: s.ahead).Pairwise Grows
  host : ∀ v ∈ s.host :: s.hostAhead, HostSound s.client.sent v

theorem Backed.of_saved {w w' : Workstation} {t : Transmission} (h : Backed e w t)
    (hsaved : ∀ name entry, Saved w name entry → Saved w' name entry) : Backed e w' t :=
  h.imp id fun ⟨name, entry, hfile, hreceipt⟩ => ⟨name, entry, hsaved name entry hfile, hreceipt⟩

/-- Every state of a call is sound if it began in a sound one. -/
theorem ClientSound.visit {input : Submission} {w₀ w : Workstation} (h : ClientSound e w₀)
    (hvisit : Visit e input w₀ w) : ClientSound e w := by
  rcases hvisit with ⟨extra, hbefore⟩ | ⟨name, entry, hafter⟩
  · obtain ⟨request, hsent, hpart⟩ := hbefore.sent
    intro t ht
    rw [hsent] at ht
    rcases List.mem_cons.1 ht with rfl | ht
    · exact Or.inl hpart
    · exact (h t ht).of_saved hbefore.adds.saved
  · obtain ⟨request, hpart, hsent | ⟨receipt, hsent, hreceipt⟩⟩ := hafter.sent
    · intro t ht
      rw [hsent] at ht
      rcases List.mem_cons.1 ht with rfl | ht
      · exact Or.inl hpart
      · exact (h t ht).of_saved hafter.adds.saved
    · intro t ht
      rw [hsent] at ht
      rcases List.mem_cons.1 ht with rfl | ht
      · exact Or.inr ⟨name, entry, hafter.saved, hreceipt⟩
      rcases List.mem_cons.1 ht with rfl | ht
      · exact Or.inl hpart
      · exact (h t ht).of_saved hafter.adds.saved

theorem LosesPower.saved {w w' : Workstation} {name : String} {entry : Entry}
    (h : LosesPower w w') (hsaved : Saved w name entry) : Saved w' name entry := by
  obtain ⟨⟨hlive, hmine⟩, hstable, hsynced⟩ := hsaved
  obtain ⟨found, hfound, hrel⟩ := h.names name
  have hsome : found = some entry := by
    rcases hfound with rfl | rfl
    · exact hstable
    · exact hlive
  rw [hsome] at hrel
  cases hname : w'.live.find? name with
  | none =>
      rw [hname] at hrel
      cases hrel
  | some entry' =>
      rw [hname] at hrel
      cases hrel with
      | some hkept =>
          obtain rfl := hkept.2 hsynced
          exact ⟨⟨hname, hmine⟩, by rw [h.settled]; exact hname, hsynced⟩

theorem Sent.grows {w w' : Workstation} {receipt : ExportAcknowledgement} (h : Sent w.sent receipt)
    (hgrows : Grows w w') : Sent w'.sent receipt := by
  obtain ⟨t, ht, raw, hraw, hreceipt⟩ := h
  obtain ⟨t', ht', -, hlonger⟩ := hgrows t ht
  exact ⟨t', ht', raw, hraw.trans hlonger, hreceipt⟩

theorem HostSound.grows {w w' : Workstation} {v : ExportWorld} (h : HostSound w.sent v)
    (hgrows : Grows w w') : HostSound w'.sent v :=
  ⟨h.marked, fun jobId receipt hmark =>
    ⟨(h.acknowledged jobId receipt hmark).1.grows hgrows, (h.acknowledged jobId receipt hmark).2⟩⟩

/-- A client that goes on keeps the host sound. -/
theorem Sound.move {s : System} {client : Workstation} {ahead : List Workstation} (h : Sound e s)
    (hclient : ∀ w ∈ client :: ahead, ClientSound e w)
    (hgrows : (client :: ahead).Pairwise Grows) (hnext : Grows s.client client) :
    Sound e { s with client := client, ahead := ahead } :=
  ⟨hclient, hgrows, fun v hv => (h.host v hv).grows hnext⟩

/-- The states of a session are sound if it began in a sound one. -/
theorem HostSound.delivers {Allowed : Uuid7 × RetirementReason → Prop}
    {sent : List Transmission} {v₀ v : ExportWorld} (h : HostSound sent v₀)
    (hv : Delivers Allowed v₀ v) (hallowed : ∀ jobId receipt,
      Allowed (jobId, .acknowledged receipt ownClient) → Acknowledged sent v₀ jobId receipt) :
    HostSound sent v := by
  refine ⟨hv.marked h.marked, fun jobId receipt hmark => ?_⟩
  have hfound : Acknowledged sent v₀ jobId receipt := by
    rcases hv.retirements _ hmark with hold | hnew
    · exact h.acknowledged jobId receipt hold
    · exact hallowed jobId receipt hnew
  obtain ⟨hsent, result, bundle, hresult, hrest⟩ := hfound
  exact ⟨hsent, result, bundle, by rw [hv.results]; exact hresult, hrest⟩

theorem HostSound.session {h : ExportHost} {sent : List Transmission} {v₀ : ExportWorld}
    (hv₀ : HostSound sent v₀) {session : Session} (harrives : session.Arrives sent) :
    ∀ v ∈ sessionTrace h v₀ session, HostSound sent v := by
  have hexpired : ∀ jobId receipt,
      (jobId, RetirementReason.acknowledged receipt ownClient).2 = .expired →
        Acknowledged sent v₀ jobId receipt := fun _ _ hreason => (nomatch hreason)
  intro v hv
  cases session with
  | beginDownload jobId expected now =>
      exact hv₀.delivers ((beginDownload_delivers jobId expected now).visited v hv) hexpired
  | endDownload jobId now =>
      exact hv₀.delivers ((endDownload_delivers jobId now).visited v hv) hexpired
  | reconcile now => exact hv₀.delivers ((reconcileLocked_delivers now).visited v hv) hexpired
  | receipt receipt principal origin now =>
      refine hv₀.delivers ((acknowledge_delivers receipt principal origin now).visited v hv) ?_
      rintro jobId found (hreason | ⟨hreason, -, result, bundle, hresult, hbundle, hmatch⟩)
      · cases hreason
      · cases hreason
        exact ⟨harrives rfl, result, bundle, hresult, hbundle, hmatch⟩

theorem HostSound.elsewhere {sent : List Transmission} {v v' : ExportWorld} (h : HostSound sent v)
    (hv : Elsewhere v v') : HostSound sent v' := by
  refine ⟨fun jobId job hjob hdelivery => ?_, fun jobId receipt hmark => ?_⟩
  · obtain ⟨job₀, hjob₀, hdelivery₀⟩ := hv.jobs jobId job hjob hdelivery
    rw [hv.retirements]
    exact h.marked jobId job₀ hjob₀ hdelivery₀
  · rw [hv.retirements] at hmark
    obtain ⟨hsent, result, bundle, hresult, hrest⟩ := h.acknowledged jobId receipt hmark
    exact ⟨hsent, result, bundle, hv.results jobId result hresult, hrest⟩

theorem Initial.sound {s : System} (h : Initial s) : Sound e s where
  client w hw := by
    rw [h.idle.1] at hw
    obtain rfl := List.mem_singleton.1 hw
    intro t ht
    rw [h.unsent] at ht
    cases ht
  grows := by
    rw [h.idle.1]
    exact List.pairwise_singleton _ _
  host v hv := by
    rw [h.idle.2] at hv
    obtain rfl := List.mem_singleton.1 hv
    exact ⟨h.marked, fun jobId receipt hmark => (h.unacknowledged jobId receipt hmark).elim⟩

/-- Every step keeps the invariant. -/
theorem Sound.step {h : ExportHost} {s s' : System} (hs : Sound e s) (hstep : Step e h s s') :
    Sound e s' := by
  have hnow : ClientSound e s.client := hs.client _ List.mem_cons_self
  have hhost : HostSound s.client.sent s.host := hs.host _ List.mem_cons_self
  have hsingle : ∀ {w : Workstation}, ClientSound e w → ∀ v ∈ [w], ClientSound e v := by
    rintro w hw v hv
    rwa [List.mem_singleton.1 hv]
  -- a call adds the states it passes through; every other step advances, drops or changes one of
  -- them
  cases hstep with
  | call input moments idle =>
      have hbegun : ClientSound e (s.client.beginCall moments) := fun t ht => hnow t ht
      have hspec : Durable.Spec (s.client.beginCall moments) (submit e input) _ _ _ :=
        submit_spec rfl
      refine hs.move (fun w hw => ?_) (ascends_submit e input _).1 (Grows.of_sent rfl)
      rcases List.mem_cons.1 hw with rfl | hw
      · exact hbegun
      · exact hbegun.visit (hspec.visited w hw)
  | advance w rest next =>
      have hgrows := hs.grows
      rw [next] at hgrows
      refine hs.move (fun v hv => hs.client v ?_) (List.pairwise_cons.1 hgrows).2
        ((List.pairwise_cons.1 hgrows).1 w List.mem_cons_self)
      rw [next]
      exact List.mem_cons_of_mem _ hv
  | stop => exact hs.move (hsingle hnow) (List.pairwise_singleton _ _) (refl_of Grows _)
  | powerLoss w lost =>
      refine hs.move (hsingle fun t ht => ?_) (List.pairwise_singleton _ _)
        (Grows.of_sent lost.sent)
      rw [lost.sent] at ht
      exact (hnow t ht).of_saved fun _ _ => lost.saved
  | others c idle =>
      have hsent : (s.client.change c).sent = s.client.sent := change_rest.2.1
      have hclient : ClientSound e (s.client.change c) := by
        intro t ht
        rw [hsent] at ht
        exact (hnow t ht).of_saved fun _ _ => change_saved
      refine hs.move ?_ ?_ (Grows.of_sent hsent)
      · rw [idle]
        exact hsingle hclient
      · rw [idle]
        exact List.pairwise_singleton _ _
  | session session failing idle arrives =>
      have hbegun : HostSound s.client.sent { s.host with failing := failing } :=
        ⟨hhost.marked, hhost.acknowledged⟩
      refine ⟨hs.client, hs.grows, fun v hv => ?_⟩
      rcases List.mem_cons.1 hv with rfl | hv
      · exact hbegun
      · exact hbegun.session arrives v hv
  | hostAdvance w rest next =>
      refine ⟨hs.client, hs.grows, fun v hv => hs.host v ?_⟩
      rw [next]
      exact List.mem_cons_of_mem _ hv
  | hostStop =>
      refine ⟨hs.client, hs.grows, fun v hv => ?_⟩
      rwa [List.mem_singleton.1 hv]
  | elsewhere w idle elsewhere =>
      refine ⟨hs.client, hs.grows, fun v hv => ?_⟩
      change v ∈ w :: s.hostAhead at hv
      rw [idle] at hv
      rw [List.mem_singleton.1 hv]
      exact hhost.elsewhere elsewhere

theorem Sound.run {h : ExportHost} {s s' : System} (hs : Sound e s)
    (hrun : Relation.ReflTransGen (Step e h) s s') : Sound e s' := by
  induction hrun with
  | refl => exact hs
  | tail _ hstep ih => exact ih.step hstep

theorem Sound.handedOver {s : System} (hs : Sound e s) : HandedOver e s := by
  intro jobId job hjob hdelivery
  have hhost : HostSound s.client.sent s.host := hs.host _ List.mem_cons_self
  obtain ⟨receipt, origin, hmark⟩ := hhost.marked jobId job hjob hdelivery
  refine ⟨receipt, origin, hmark, fun receipt hown => ?_⟩
  obtain ⟨⟨t, ht, raw, hraw, hreceipt⟩, result, bundle, hresult, hbundle, hdigest, hsize⟩ :=
    hhost.acknowledged jobId receipt hown
  rcases hs.client _ List.mem_cons_self t ht with hrequest | ⟨name, entry, hsaved, hpart⟩
  · exact (hrequest.not_receipt hraw receipt hreceipt).elim
  · obtain ⟨hreceiptSize, hreceiptDigest⟩ := hpart.receipt hraw hreceipt
    have hsent : ∃ t ∈ s.client.sent, t.destination = some name ∧
        ∃ raw, raw <+: t.bytes ∧ receiveAcknowledgement raw = some receipt :=
      ⟨t, ht, hpart.1, raw, hraw, hreceipt⟩
    refine ⟨result, name, hresult, hsent, bundle, entry, hbundle, hsaved, ?_, ?_⟩
    · rw [hreceiptSize] at hsize
      exact Int.ofNat_inj.1 hsize.symm
    · exact sha256Text_injective (hreceiptDigest.symm.trans hdigest.symm)

/-! ## The hand-over -/

variable (e) in
/-- The call that begins in `w`. -/
def call (w : Workstation) (moments : List Moment) (input : Submission) :
    Run Workstation ClientError OperationResult := submit e input (w.beginCall moments)

variable (e) in
/-- A state that a crash or the end of a call leaves. -/
def LeftBehind (w : Workstation) (moments : List Moment) (input : Submission) (v : Workstation) :
    Prop :=
  v = (call e w moments input).state ∨
    Durable.Crashed (submit e input) (w.beginCall moments) v

/-- What holds of every call of the client, whatever the remote side answers and whatever fails
locally, and of every run of the client and a host. -/
structure HandoverSafe (e : Encoding) (h : ExportHost) : Prop where
  /-- Only an accepted result is returned, and the export that came with it is saved. -/
  returned : ∀ w moments input result, (call e w moments input).result = .ok result →
    ∃ payload, Accepted e input result payload ∧ ∀ bytes, payload = some bytes →
      ∃ name entry, input.exportName = some name ∧ entry.bytes = bytes ∧
        Saved (call e w moments input).state name entry
  /-- A file is made and takes its destination name only where there is none, and it takes that name
  only with the bytes of an accepted result. -/
  created : ∀ w moments input v, LeftBehind e w moments input v →
    ∀ event ∈ v.events, Proper e input event ∨ ∃ name, event = .committed name
  /-- The files of the client are those of the start, the temporary file, and the export. -/
  files : ∀ w moments input v, LeftBehind e w moments input v →
    ∀ name entry, Owned v.live name entry → Owned w.live name entry ∨
      name = ".ldp-export-" ++ input.token ∨
        (input.exportName = some name ∧ Exported e input entry)
  /-- From its commit on an export is saved. -/
  committed : ∀ w moments input v, LeftBehind e w moments input v →
    ∀ name, .committed name ∈ v.events → input.exportName = some name ∧
      ∃ entry, Exported e input entry ∧ Saved v name entry
  /-- A call that fails before its commit leaves no file, if no close of the temporary file and no
  removal fails. -/
  failed : ∀ w moments input error, (call e w moments input).result = .error error →
    ¬ Unlucky (w.beginCall moments) →
      (∀ name, .committed name ∉ (call e w moments input).state.events) →
        ∀ name entry, Owned (call e w moments input).state.live name entry ↔
          Owned w.live name entry
  /-- The host acknowledges an export for a receipt of the client only when the client has saved
  it under the destination of the call that sent the receipt. -/
  acknowledged : ∀ s s', Initial s → Relation.ReflTransGen (Step e h) s s' → HandedOver e s'

section Calls

variable {w v : Workstation} {moments : List Moment} {input : Submission}

theorem call_spec : Durable.Spec (w.beginCall moments) (submit e input)
    (Visit e input (w.beginCall moments))
    (fun result t => Returned e input (w.beginCall moments) result t)
    (fun _ t => t = w.beginCall moments ∨ Left e input (w.beginCall moments) t) :=
  submit_spec rfl

/-- Every state that a call leaves behind is its start or one that its specification describes. -/
theorem LeftBehind.visit (h : LeftBehind e w moments input v) :
    v = w.beginCall moments ∨ Visit e input (w.beginCall moments) v := by
  rcases h with rfl | hstart | hvisited
  · show (submit e input (w.beginCall moments)).state = _ ∨ _
    cases hresult : (submit e input (w.beginCall moments)).result with
    | ok result =>
        obtain ⟨payload, -, hnone, hsome⟩ := call_spec.post result hresult
        cases payload with
        | none => exact Or.inr (Or.inl ⟨none, hnone rfl⟩)
        | some bytes =>
            obtain ⟨name, entry, hafter, -⟩ := hsome bytes rfl
            exact Or.inr (Or.inr ⟨name, entry, hafter⟩)
    | error error =>
        rcases call_spec.raised error hresult with hstart | ⟨extra, hbefore, -⟩ | hafter
        · exact Or.inl hstart
        · exact Or.inr (Or.inl ⟨extra, hbefore⟩)
        · exact Or.inr (Or.inr hafter)
  · exact Or.inl hstart
  · exact Or.inr (call_spec.visited v hvisited)

theorem LeftBehind.created (h : LeftBehind e w moments input v) :
    ∀ event ∈ v.events, Proper e input event ∨ ∃ name, event = .committed name := by
  intro event hevent
  rcases h.visit with rfl | ⟨extra, hbefore⟩ | ⟨name, entry, hafter⟩
  · cases hevent
  · exact Or.inl (hbefore.events event hevent)
  · exact (hafter.events event hevent).imp id fun hcommitted => ⟨name, hcommitted⟩

theorem LeftBehind.files (h : LeftBehind e w moments input v) {name : String} {entry : Entry}
    (howned : Owned v.live name entry) : Owned w.live name entry ∨
      name = ".ldp-export-" ++ input.token ∨
        (input.exportName = some name ∧ Exported e input entry) := by
  rcases h.visit with rfl | ⟨extra, hbefore⟩ | ⟨destination, saved, hafter⟩
  · exact Or.inl howned
  · rcases (hbefore.adds.owned name entry).1 howned with hold | ⟨hextra, -⟩
    · exact Or.inl hold
    · exact Or.inr (hbefore.named name entry hextra)
  · rcases (hafter.adds.owned name entry).1 howned with hold | ⟨hextra, -⟩
    · exact Or.inl hold
    · cases hextra
      exact Or.inr (Or.inr ⟨hafter.destination, hafter.exported⟩)

theorem LeftBehind.committed (h : LeftBehind e w moments input v) {name : String}
    (hcommitted : .committed name ∈ v.events) : input.exportName = some name ∧
      ∃ entry, Exported e input entry ∧ Saved v name entry := by
  rcases h.visit with rfl | ⟨extra, hbefore⟩ | ⟨destination, saved, hafter⟩
  · cases hcommitted
  · exact (hbefore.events _ hcommitted).elim
  · rcases hafter.events _ hcommitted with hproper | hsame
    · exact hproper.elim
    · cases hsame
      exact ⟨hafter.destination, saved, hafter.exported, hafter.saved⟩

theorem call_returned {result : OperationResult}
    (h : (call e w moments input).result = .ok result) :
    ∃ payload, Accepted e input result payload ∧ ∀ bytes, payload = some bytes →
      ∃ name entry, input.exportName = some name ∧ entry.bytes = bytes ∧
        Saved (call e w moments input).state name entry := by
  obtain ⟨payload, haccepted, -, hsaved⟩ := call_spec.post result h
  refine ⟨payload, haccepted, fun bytes hbytes => ?_⟩
  obtain ⟨name, entry, hafter, hentry⟩ := hsaved bytes hbytes
  exact ⟨name, entry, hafter.destination, hentry, hafter.saved⟩

theorem call_failed {error : ClientError} (h : (call e w moments input).result = .error error)
    (hlucky : ¬ Unlucky (w.beginCall moments))
    (huncommitted : ∀ name, .committed name ∉ (call e w moments input).state.events)
    (name : String) (entry : Entry) :
    Owned (call e w moments input).state.live name entry ↔ Owned w.live name entry := by
  rcases call_spec.raised error h with hstart | ⟨extra, hbefore, hnone | hunlucky⟩ |
    ⟨destination, saved, hafter⟩
  · unfold call
    rw [hstart]
    exact Iff.rfl
  · subst hnone
    refine (hbefore.adds.owned name entry).trans ⟨fun howned => ?_, Or.inl⟩
    exact howned.elim id fun hnew => (nomatch hnew.1)
  · exact (hlucky hunlucky).elim
  · exact (huncommitted destination hafter.committed).elim

end Calls

/-- The hand-over of an export neither loses nor corrupts the bundle. -/
theorem export_handover (e : Encoding) (h : ExportHost) : HandoverSafe e h where
  returned _ _ _ _ := call_returned
  created _ _ _ _ hleft := hleft.created
  files _ _ _ _ hleft _ _ := hleft.files
  committed _ _ _ _ hleft _ := hleft.committed
  failed _ _ _ _ := call_failed
  acknowledged _ _ hinitial hrun := (hinitial.sound.run hrun).handedOver

/-! ## A close that fails -/

def exportRequest : OperationRequest :=
  ⟨.export, sampleCorrelation, some sampleTenant, none, none, none, none⟩

/-- The result of an export of one byte. -/
def exportResult : OperationResult :=
  ⟨.authorizationJob sampleJobId, sampleCorrelation, .export, .succeeded, some sampleTenant, none,
    none, none, some ⟨⟨.archive, 7⟩, 1⟩, none, none⟩

noncomputable def exportEncoding : Encoding :=
  tableEncoding [.operationRequest exportRequest, .operationResult exportResult]

def emptyWorkstation : Workstation :=
  ⟨Directory.empty, Directory.empty, none, [], [], []⟩

/-- A response with the result and its byte. -/
def exportResponse : Exchange where
  starts := true
  acceptances := []
  arrivals := [.data 76 [68, 80, 83, 84, 65, 84, 0, 1, 2, 0, 1, 0, 0, 0, 3, 0, 0, 0, 0, 0, 0, 0, 1],
    .data 49 [49, 10], .data 7 []]
  status := some 0
  stderr := ""

def exportSubmission : Submission where
  validHost := true
  validIdentity := true
  rawRequest := .ok [49, 10]
  artifact := fun _ => .ok none
  exportName := some "site.tar"
  token := "00"
  request := exportResponse
  stillValidIdentity := true
  acknowledgement := exportResponse

/-- The local call fails whenever it is made. -/
def always (call : LocalCall) : List Moment := List.replicate 12 ⟨[], [call], none⟩

/-- What the call leaves when no file can be closed. -/
theorem unclosed_run :
    let run := call exportEncoding emptyWorkstation (always .closeFile) exportSubmission
    run.result = .error .os ∧ run.state.events = [.made ".ldp-export-00" none] ∧
      run.state.live.find? ".ldp-export-00" = some ⟨[7], true, true⟩ := by
  refine ⟨?_, ?_, ?_⟩ <;> rfl

/-- The commit fails because the temporary file cannot be closed, and the cleanup, which closes it
again, does not come to its removal. -/
theorem unclosed_export_left :
    ¬ ∀ (e : Encoding) (w : Workstation) (moments : List Moment) (input : Submission)
      (error : ClientError), (call e w moments input).result = .error error →
        (∀ name, .committed name ∉ (call e w moments input).state.events) →
          ∀ name entry, Owned (call e w moments input).state.live name entry ↔
            Owned w.live name entry := by
  intro h
  obtain ⟨hresult, hevents, hleft⟩ := unclosed_run
  have huncommitted : ∀ name, .committed name ∉ (call exportEncoding emptyWorkstation
      (always .closeFile) exportSubmission).state.events := by
    intro name hmem
    rw [hevents] at hmem
    cases List.mem_singleton.1 hmem
  have hstart := (h _ _ _ _ _ hresult huncommitted ".ldp-export-00" ⟨[7], true, true⟩).1
    ⟨hleft, rfl⟩
  cases hstart.1

end StaticHostAgent.Operator
