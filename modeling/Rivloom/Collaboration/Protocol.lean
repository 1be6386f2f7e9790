import Rivloom.Lib.Codec
import Rivloom.Lib.RustStd
import Rivloom.Lib.Sha256
import Mathlib.Tactic.FinCases

/-!
# The collaboration protocol

The messages that nodes send to the Brain (`protocol.rs`). An
`Rivloom.Collaboration.Envelope` is a staging value; a
`Rivloom.Collaboration.Message` is an envelope that has passed every check, and
carries the proof of it, so that nothing outside this file can hold a message that the
boundary would have refused.

The payloads and their JSON follow the source type by type: the same fields in the
same order, the same words for the variants. Only two kinds of payload are ever
admitted into the Brain – a node announcing itself and a new draft task – and the
view `Rivloom.Collaboration.Message.admission` is what the rest of the model sees of
a message.
-/

namespace Rivloom.Collaboration

/-- The most bytes a message may take. -/
def maxMessageBytes : ℕ := 32 * 1024

/-- The most bytes a patch may take. -/
def maxPatchBytes : ℕ := 512 * 1024

/-- The greatest revision, the greatest integer a JSON number carries exactly. -/
def maxRevision : ℕ := 9007199254740991

/-- The hash of no bytes. -/
def emptySha256 : String := "e3b0c44298fc1c149afbf4c8996fb92427ae41e4649b934ca495991b7852b855"

namespace Protocol

/-! ### The checks on fields -/

/-- An identifier: up to 128 letters, digits, hyphens and underscores. -/
protected def id (value : String) : Bool :=
  !value.isEmpty && decide (value.utf8ByteSize ≤ 128) &&
    value.toList.all fun c => c.isAlphanum || c == '-' || c == '_'

/-- A text that is not blank, of bounded length. -/
def text (value : String) (maxBytes : ℕ) : Bool :=
  !trimIsEmpty value && decide (value.utf8ByteSize ≤ maxBytes)

/-- Lower-case hexadecimal digits, of a fixed length. -/
def hex (value : String) (length : ℕ) : Bool :=
  value.utf8ByteSize == length && value.toList.all fun c => c.isDigit || ('a' ≤ c && c ≤ 'f')

/-- A time in seconds, from 1970 to the year 9999. -/
def timestamp (value : ℤ) : Bool := decide (0 ≤ value) && decide (value ≤ 253402300799)

/-! ### Words -/

/-- What an identity is in a Brain. -/
inductive Role where
  | owner | member
  deriving DecidableEq

def Role.codec : Codec Role :=
  .words [.owner, .member] (fun | .owner => "owner" | .member => "member")
    (by intro a; cases a <;> rfl)

/-- The runtimes a node may have. -/
inductive RuntimeId where
  | codex
  deriving DecidableEq

def RuntimeId.codec : Codec RuntimeId :=
  .words [.codex] (fun | .codex => "codex") (by intro a; cases a; rfl)

/-- What a node can do. -/
inductive Capability where
  | taskRun | interrupt | patch
  deriving DecidableEq

def Capability.codec : Codec Capability :=
  .words [.taskRun, .interrupt, .patch]
    (fun | .taskRun => "taskRun" | .interrupt => "interrupt" | .patch => "patch")
    (by intro a; cases a <;> rfl)

/-- What a task is to produce. -/
inductive ArtifactKind where
  | patch
  deriving DecidableEq

def ArtifactKind.codec : Codec ArtifactKind :=
  .words [.patch] (fun | .patch => "patch") (by intro a; cases a; rfl)

end Protocol

/-- The states of a task. -/
inductive TaskStatus where
  | draft | offered | accepted | running | awaitingReview | approved | rejected | cancelled
  | failed | outcomeUnknown
  deriving DecidableEq

def TaskStatus.codec : Codec TaskStatus :=
  .words [.draft, .offered, .accepted, .running, .awaitingReview, .approved, .rejected,
      .cancelled, .failed, .outcomeUnknown]
    (fun
      | .draft => "draft" | .offered => "offered" | .accepted => "accepted"
      | .running => "running" | .awaitingReview => "awaitingReview" | .approved => "approved"
      | .rejected => "rejected" | .cancelled => "cancelled" | .failed => "failed"
      | .outcomeUnknown => "outcomeUnknown")
    (by intro a; cases a <;> rfl)

namespace Protocol

/-- How an assigned task is executed. -/
inductive ExecutionPolicy where
  | managedWorktreeOffline
  deriving DecidableEq

def ExecutionPolicy.codec : Codec ExecutionPolicy :=
  .words [.managedWorktreeOffline] (fun | .managedWorktreeOffline => "managedWorktreeOffline")
    (by intro a; cases a; rfl)

/-- What became of the patch of a run. -/
inductive ArtifactState where
  | empty | complete | tooLarge | unsupportedEncoding
  deriving DecidableEq

def ArtifactState.codec : Codec ArtifactState :=
  .words [.empty, .complete, .tooLarge, .unsupportedEncoding]
    (fun
      | .empty => "empty" | .complete => "complete" | .tooLarge => "tooLarge"
      | .unsupportedEncoding => "unsupportedEncoding")
    (by intro a; cases a <;> rfl)

/-- How a run ended. -/
inductive ReceiptOutcome where
  | success | failed | cancelled | outcomeUnknown
  deriving DecidableEq

def ReceiptOutcome.codec : Codec ReceiptOutcome :=
  .words [.success, .failed, .cancelled, .outcomeUnknown]
    (fun
      | .success => "success" | .failed => "failed" | .cancelled => "cancelled"
      | .outcomeUnknown => "outcomeUnknown")
    (by intro a; cases a <;> rfl)

/-- Why a run failed. -/
inductive Failure where
  | executionFailed | connectionLost | policyDenied | invalidArtifact
  deriving DecidableEq

def Failure.codec : Codec Failure :=
  .words [.executionFailed, .connectionLost, .policyDenied, .invalidArtifact]
    (fun
      | .executionFailed => "executionFailed" | .connectionLost => "connectionLost"
      | .policyDenied => "policyDenied" | .invalidArtifact => "invalidArtifact")
    (by intro a; cases a <;> rfl)

/-! ### Numbers and times -/

/-- 32-bit signed integers. -/
def int32 : Codec Int32 :=
  (Codec.sint 32).refine
    (fun n => if -2 ^ 31 ≤ n ∧ n < 2 ^ 31 then some (Int32.ofInt n) else none) Int32.toInt
    (fun b => by
      have h1 := b.le_toInt
      have h2 := b.toInt_lt
      rw [if_pos ⟨h1, h2⟩, Int32.ofInt_toInt])
    (fun a b h => by
      split at h
      · next hrange =>
        rw [← Option.some.inj h]
        exact Int32.toInt_ofInt_of_le hrange.1 hrange.2
      · cases h)

def u64 : Codec ℕ := .uint 64

def i64 : Codec ℤ := .sint 64

theorem enc_uint_ne_null (width n : ℕ) : (Codec.uint width).enc n ≠ .null := by
  intro h
  cases h

theorem enc_sint_ne_null (width : ℕ) (n : ℤ) : (Codec.sint width).enc n ≠ .null := by
  intro h
  cases h

theorem enc_u64_ne_null : ∀ n, u64.enc n ≠ .null := enc_uint_ne_null 64

theorem enc_i64_ne_null : ∀ n, i64.enc n ≠ .null := enc_sint_ne_null 64

theorem enc_string_ne_null (s : String) : Codec.string.enc s ≠ .null := by
  intro h
  cases h

/-! ### Payloads -/

/-- A person and a device. -/
structure Identity where
  identityId : String
  memberId : String
  deviceId : String
  displayName : String
  role : Role
  deriving DecidableEq

def Identity.codec : Codec Identity :=
  .struct
    (.cons "identityId" .string <| .cons "memberId" .string <| .cons "deviceId" .string <|
      .cons "displayName" .string <| .cons "role" Role.codec .nil)
    ⟨fun v => (v.identityId, v.memberId, v.deviceId, v.displayName, v.role, ()),
      fun (a, b, c, d, e, _) => ⟨a, b, c, d, e⟩, fun _ => rfl, fun _ => rfl⟩ (by decide)

/-- A node announcing itself. -/
structure Node where
  nodeId : String
  memberId : String
  deviceId : String
  runtimeId : RuntimeId
  runtimeVersion : String
  capabilities : List Capability
  deriving DecidableEq

def Node.codec : Codec Node :=
  .struct
    (.cons "nodeId" .string <| .cons "memberId" .string <| .cons "deviceId" .string <|
      .cons "runtimeId" RuntimeId.codec <| .cons "runtimeVersion" .string <|
      .cons "capabilities" (.list Capability.codec) .nil)
    ⟨fun v => (v.nodeId, v.memberId, v.deviceId, v.runtimeId, v.runtimeVersion, v.capabilities, ()),
      fun (a, b, c, d, e, f, _) => ⟨a, b, c, d, e, f⟩, fun _ => rfl, fun _ => rfl⟩ (by decide)

/-- A task. -/
structure Task where
  taskId : String
  createdByMemberId : String
  goal : String
  constraints : List String
  expectedArtifact : ArtifactKind
  status : TaskStatus
  deriving DecidableEq

def Task.codec : Codec Task :=
  .struct
    (.cons "taskId" .string <| .cons "createdByMemberId" .string <| .cons "goal" .string <|
      .cons "constraints" (.list .string) <| .cons "expectedArtifact" ArtifactKind.codec <|
      .cons "status" TaskStatus.codec .nil)
    ⟨fun v => (v.taskId, v.createdByMemberId, v.goal, v.constraints,
      v.expectedArtifact, v.status, ()),
      fun (a, b, c, d, e, f, _) => ⟨a, b, c, d, e, f⟩, fun _ => rfl, fun _ => rfl⟩ (by decide)

/-- A decision that accepts an offered task. -/
structure AcceptedDecision where
  acceptedByMemberId : String
  projectRef : String
  runId : String
  runKey : String
  acceptedAt : ℤ
  deriving DecidableEq

def AcceptedDecision.codec : Codec AcceptedDecision :=
  .struct
    (.cons "acceptedByMemberId" .string <| .cons "projectRef" .string <| .cons "runId" .string <|
      .cons "runKey" .string <| .cons "acceptedAt" i64 .nil)
    ⟨fun v => (v.acceptedByMemberId, v.projectRef, v.runId, v.runKey, v.acceptedAt, ()),
      fun (a, b, c, d, e, _) => ⟨a, b, c, d, e⟩, fun _ => rfl, fun _ => rfl⟩ (by decide)

/-- A decision that rejects or cancels an offered task. -/
structure ClosedDecision where
  decidedByMemberId : String
  decidedAt : ℤ
  deriving DecidableEq

def ClosedDecision.codec : Codec ClosedDecision :=
  .struct (.cons "decidedByMemberId" .string <| .cons "decidedAt" i64 .nil)
    ⟨fun v => (v.decidedByMemberId, v.decidedAt, ()), fun (a, b, _) => ⟨a, b⟩, fun _ => rfl,
      fun _ => rfl⟩ (by decide)

/-- What was decided about an offered task. -/
inductive Decision where
  | offered
  | accepted : AcceptedDecision → Decision
  | rejected : ClosedDecision → Decision
  | cancelled : ClosedDecision → Decision
  deriving DecidableEq

/-- A record without fields. -/
def noFields : Codec Unit := .struct .nil (Equiv.refl _) Codec.Fields.nodup_names_nil

def Decision.variants : Codec.Variants Decision where
  all := [⟨"offered", noFields, fun _ => .offered⟩, ⟨"accepted", AcceptedDecision.codec, .accepted⟩,
    ⟨"rejected", ClosedDecision.codec, .rejected⟩, ⟨"cancelled", ClosedDecision.codec, .cancelled⟩]
  view
    | .offered => ⟨⟨"offered", noFields, fun _ => .offered⟩, ()⟩
    | .accepted v => ⟨⟨"accepted", AcceptedDecision.codec, .accepted⟩, v⟩
    | .rejected v => ⟨⟨"rejected", ClosedDecision.codec, .rejected⟩, v⟩
    | .cancelled v => ⟨⟨"cancelled", ClosedDecision.codec, .cancelled⟩, v⟩
  inj_view a := by cases a <;> rfl
  view_inj v hv b := by fin_cases hv <;> rfl
  find_view a := by cases a <;> rfl

def Decision.codec : Codec Decision :=
  .internal "state" Decision.variants fun a => by
    cases a <;> exact ⟨_, rfl, Codec.Fields.fst_ne_of_mem_enc _ (by decide) _⟩

/-- The offer of a task to a node, and what was decided about it. -/
structure Assignment where
  assignmentId : String
  taskId : String
  offeredByMemberId : String
  targetNodeId : String
  executionPolicy : ExecutionPolicy
  decision : Decision
  deriving DecidableEq

def Assignment.codec : Codec Assignment :=
  .struct
    (.cons "assignmentId" .string <| .cons "taskId" .string <| .cons "offeredByMemberId" .string <|
      .cons "targetNodeId" .string <| .cons "executionPolicy" ExecutionPolicy.codec <|
      .cons "decision" Decision.codec .nil)
    ⟨fun v => (v.assignmentId, v.taskId, v.offeredByMemberId, v.targetNodeId, v.executionPolicy,
        v.decision, ()),
      fun (a, b, c, d, e, f, _) => ⟨a, b, c, d, e, f⟩, fun _ => rfl, fun _ => rfl⟩ (by decide)

/-- What a run produced. -/
structure Artifact where
  artifactId : String
  taskId : String
  runId : String
  baselineCommit : String
  state : ArtifactState
  limitBytes : ℕ
  byteCount : Option ℕ
  sha256 : Option String
  deriving DecidableEq

def Artifact.codec : Codec Artifact :=
  .struct
    (.cons "artifactId" .string <| .cons "taskId" .string <| .cons "runId" .string <|
      .cons "baselineCommit" .string <| .cons "state" ArtifactState.codec <|
      .cons "limitBytes" u64 <| .cons "byteCount" (.option u64 enc_u64_ne_null) <|
      .cons "sha256" (.option .string enc_string_ne_null) .nil)
    ⟨fun v => (v.artifactId, v.taskId, v.runId, v.baselineCommit, v.state, v.limitBytes,
        v.byteCount, v.sha256, ()),
      fun (a, b, c, d, e, f, g, h, _) => ⟨a, b, c, d, e, f, g, h⟩, fun _ => rfl, fun _ => rfl⟩
    (by decide)

/-- One test that was run. -/
structure TestExecution where
  name : String
  exitCode : Int32
  deriving DecidableEq

def TestExecution.codec : Codec TestExecution :=
  .struct (.cons "name" .string <| .cons "exitCode" int32 .nil)
    ⟨fun v => (v.name, v.exitCode, ()), fun (a, b, _) => ⟨a, b⟩, fun _ => rfl, fun _ => rfl⟩
    (by decide)

/-- What is known of the tests of a run. -/
inductive TestReport where
  | notReported
  | reported (executions : List TestExecution) : TestReport
  deriving DecidableEq

/-- The data of a report of tests. -/
def TestReport.reportedFields : Codec (List TestExecution) :=
  .struct (.cons "executions" (.list TestExecution.codec) .nil)
    ⟨fun v => (v, ()), fun v => v.1, fun _ => rfl, fun _ => rfl⟩ (by decide)

def TestReport.variants : Codec.Variants TestReport where
  all := [⟨"notReported", noFields, fun _ => .notReported⟩, ⟨"reported", reportedFields, .reported⟩]
  view
    | .notReported => ⟨⟨"notReported", noFields, fun _ => .notReported⟩, ()⟩
    | .reported v => ⟨⟨"reported", reportedFields, .reported⟩, v⟩
  inj_view a := by cases a <;> rfl
  view_inj v hv b := by fin_cases hv <;> rfl
  find_view a := by cases a <;> rfl

def TestReport.codec : Codec TestReport :=
  .internal "state" TestReport.variants fun a => by
    cases a <;> exact ⟨_, rfl, Codec.Fields.fst_ne_of_mem_enc _ (by decide) _⟩

/-- What a receipt says of a run. The order of the fields is part of its hash. -/
structure ReceiptContent where
  taskId : String
  runId : String
  nodeId : String
  runtimeId : RuntimeId
  runtimeVersion : String
  startedAt : ℤ
  finishedAt : ℤ
  outcome : ReceiptOutcome
  summary : Option String
  failure : Option Failure
  tests : TestReport
  artifact : Artifact
  deriving DecidableEq

def ReceiptContent.codec : Codec ReceiptContent :=
  .struct
    (.cons "taskId" .string <| .cons "runId" .string <| .cons "nodeId" .string <|
      .cons "runtimeId" RuntimeId.codec <| .cons "runtimeVersion" .string <|
      .cons "startedAt" i64 <| .cons "finishedAt" i64 <| .cons "outcome" ReceiptOutcome.codec <|
      .cons "summary" (.option .string enc_string_ne_null) <|
      .cons "failure" (.option Failure.codec (fun a h => by cases h)) <|
      .cons "tests" TestReport.codec <| .cons "artifact" Artifact.codec .nil)
    ⟨fun v => (v.taskId, v.runId, v.nodeId, v.runtimeId, v.runtimeVersion, v.startedAt,
        v.finishedAt, v.outcome, v.summary, v.failure, v.tests, v.artifact, ()),
      fun (a, b, c, d, e, f, g, h, i, j, k, l, _) => ⟨a, b, c, d, e, f, g, h, i, j, k, l⟩,
      fun _ => rfl, fun _ => rfl⟩ (by decide)

/-- The receipt of a run, with the hash of its content. -/
structure Receipt where
  content : ReceiptContent
  contentSha256 : String
  deriving DecidableEq

def Receipt.codec : Codec Receipt :=
  .struct (.cons "content" ReceiptContent.codec <| .cons "contentSha256" .string .nil)
    ⟨fun v => (v.content, v.contentSha256, ()), fun (a, b, _) => ⟨a, b⟩, fun _ => rfl,
      fun _ => rfl⟩ (by decide)

/-- What a message says. -/
inductive Payload where
  | identity : Identity → Payload
  | node : Node → Payload
  | task : Task → Payload
  | assignment : Assignment → Payload
  | runReceipt : Receipt → Payload
  | artifact : Artifact → Payload
  deriving DecidableEq

def Payload.variants : Codec.Variants Payload where
  all := [⟨"identity", Identity.codec, .identity⟩, ⟨"node", Node.codec, .node⟩,
    ⟨"task", Task.codec, .task⟩, ⟨"assignment", Assignment.codec, .assignment⟩,
    ⟨"runReceipt", Receipt.codec, .runReceipt⟩, ⟨"artifact", Artifact.codec, .artifact⟩]
  view
    | .identity v => ⟨⟨"identity", Identity.codec, .identity⟩, v⟩
    | .node v => ⟨⟨"node", Node.codec, .node⟩, v⟩
    | .task v => ⟨⟨"task", Task.codec, .task⟩, v⟩
    | .assignment v => ⟨⟨"assignment", Assignment.codec, .assignment⟩, v⟩
    | .runReceipt v => ⟨⟨"runReceipt", Receipt.codec, .runReceipt⟩, v⟩
    | .artifact v => ⟨⟨"artifact", Artifact.codec, .artifact⟩, v⟩
  inj_view a := by cases a <;> rfl
  view_inj v hv b := by fin_cases hv <;> rfl
  find_view a := by cases a <;> rfl

theorem type_ne_data : "type" ≠ "data" := by decide

def Payload.codec : Codec Payload := .tagged "type" "data" type_ne_data Payload.variants

/-! ### Valid payloads -/

/-- No capability is listed twice. -/
def distinct (capabilities : List Capability) : Bool :=
  capabilities.zipIdx.all fun (capability, i) => !(capabilities.take i).contains capability

def Decision.valid : Decision → Bool
  | .offered => true
  | .accepted v =>
    [v.acceptedByMemberId, v.projectRef, v.runId, v.runKey].all Protocol.id &&
      timestamp v.acceptedAt
  | .rejected v | .cancelled v => Protocol.id v.decidedByMemberId && timestamp v.decidedAt

def Artifact.valid (v : Artifact) : Bool :=
  let stateValid := match v.state with
    | .empty => v.byteCount == some 0 && v.sha256 == some emptySha256
    | .complete | .unsupportedEncoding =>
      v.byteCount.any (fun count => 1 ≤ count && count ≤ maxPatchBytes) &&
        v.sha256.any fun value => hex value 64
    | .tooLarge => v.byteCount.isNone && v.sha256.isNone
  [v.artifactId, v.taskId, v.runId].all Protocol.id &&
    (hex v.baselineCommit 40 || hex v.baselineCommit 64) &&
    v.limitBytes == maxPatchBytes && stateValid

def TestReport.valid : TestReport → Bool
  | .notReported => true
  | .reported executions =>
    executions.length ≤ 32 && executions.all (fun test => text test.name 256) &&
      (executions.map fun test => test.name.utf8ByteSize).sum ≤ 4096

def ReceiptContent.outcomeValid (content : ReceiptContent) : Bool :=
  match content.outcome with
  | .success | .cancelled => content.failure.isNone
  | .failed | .outcomeUnknown => content.failure.isSome

def Receipt.valid (v : Receipt) : Bool :=
  let content := v.content
  [content.taskId, content.runId, content.nodeId].all Protocol.id &&
    text content.runtimeVersion 128 &&
    timestamp content.startedAt && timestamp content.finishedAt &&
    content.startedAt ≤ content.finishedAt &&
    content.summary.all (fun value => text value 4096) &&
    content.artifact.valid &&
    content.taskId == content.artifact.taskId && content.runId == content.artifact.runId &&
    content.tests.valid && content.outcomeValid &&
    (Sha256.digest (ReceiptContent.codec.toBytes content)).hex == v.contentSha256

def Payload.valid : Payload → Bool
  | .identity v =>
    [v.identityId, v.memberId, v.deviceId].all Protocol.id && text v.displayName 80
  | .node v =>
    [v.nodeId, v.memberId, v.deviceId].all Protocol.id && text v.runtimeVersion 128 &&
      v.capabilities.length ≤ 3 && distinct v.capabilities
  | .task v =>
    Protocol.id v.taskId && Protocol.id v.createdByMemberId && text v.goal 4096 &&
      v.constraints.length ≤ 32 && v.constraints.all (fun c => text c 1024) &&
      (v.constraints.map String.utf8ByteSize).sum ≤ 8192
  | .assignment v =>
    [v.assignmentId, v.taskId, v.offeredByMemberId, v.targetNodeId].all Protocol.id &&
      v.decision.valid
  | .artifact v => v.valid
  | .runReceipt v => v.valid

end Protocol

/-! ### Messages -/

/-- A message before it is checked. -/
structure Envelope where
  protocolVersion : ℕ
  messageId : String
  idempotencyKey : String
  brainId : String
  senderNodeId : String
  sentAt : ℤ
  revision : ℕ
  payload : Protocol.Payload
  deriving DecidableEq

def Envelope.codec : Codec Envelope :=
  .struct
    (.cons "protocolVersion" (.uint 32) <| .cons "messageId" .string <|
      .cons "idempotencyKey" .string <| .cons "brainId" .string <|
      .cons "senderNodeId" .string <| .cons "sentAt" Protocol.i64 <|
      .cons "revision" Protocol.u64 <| .cons "payload" Protocol.Payload.codec .nil)
    ⟨fun v => (v.protocolVersion, v.messageId, v.idempotencyKey, v.brainId, v.senderNodeId,
        v.sentAt, v.revision, v.payload, ()),
      fun (a, b, c, d, e, f, g, h, _) => ⟨a, b, c, d, e, f, g, h⟩, fun _ => rfl, fun _ => rfl⟩
    (by decide)

/-- Why a message is refused. -/
inductive ProtocolError where
  | invalidMessage | messageTooLarge
  deriving DecidableEq

/-- The checks on the fields of a message. -/
def Envelope.valid (value : Envelope) : Bool :=
  value.protocolVersion == 1 &&
    [value.messageId, value.idempotencyKey, value.brainId, value.senderNodeId].all Protocol.id &&
    Protocol.timestamp value.sentAt && value.revision ≤ maxRevision && value.payload.valid

/-- **A message**: an envelope that passes every check and fits the limit. -/
structure Message where
  envelope : Envelope
  valid : envelope.valid = true
  fits : (Envelope.codec.toBytes envelope).size ≤ maxMessageBytes

instance : DecidableEq Message := fun a b =>
  decidable_of_iff (a.envelope = b.envelope)
    ⟨fun h => by cases a; cases b; cases h; rfl, fun h => by rw [h]⟩

namespace Message

/-- `Message::try_from`: check an envelope. -/
def tryFrom (value : Envelope) : Except ProtocolError Message :=
  if hvalid : value.valid = true then
    if hfits : (Envelope.codec.toBytes value).size ≤ maxMessageBytes then
      .ok ⟨value, hvalid, hfits⟩
    else .error .messageTooLarge
  else .error .invalidMessage

/-- The same message, for another revision of the Brain. -/
def withRevision (message : Message) (revision : ℕ) : Except ProtocolError Message :=
  tryFrom { message.envelope with revision }

/-- The message is the receipt of a run of a node. -/
def isReceiptFrom (message : Message) (nodeId : String) : Bool :=
  match message.envelope.payload with
  | .runReceipt receipt => receipt.content.nodeId == nodeId
  | _ => false

end Message

/-- What the Brain reads of a payload. -/
inductive PayloadView where
  | node (nodeId memberId deviceId : String)
  | task (taskId memberId : String) (status : TaskStatus)
  | unsupported
  deriving DecidableEq

/-- What the Brain reads of a message. -/
structure Admission where
  brainId : String
  senderNodeId : String
  key : String
  revision : ℕ
  payload : PayloadView

def Protocol.Payload.view : Protocol.Payload → PayloadView
  | .node v => .node v.nodeId v.memberId v.deviceId
  | .task v => .task v.taskId v.createdByMemberId v.status
  | .identity _ | .assignment _ | .runReceipt _ | .artifact _ => .unsupported

namespace Message

/-- The view of a message through which it is admitted. -/
def admission (message : Message) : Admission :=
  { brainId := message.envelope.brainId
    senderNodeId := message.envelope.senderNodeId
    key := message.envelope.idempotencyKey
    revision := message.envelope.revision
    payload := message.envelope.payload.view }

/-- The hash of the payload alone: a retry under another message id, time or revision
has the same. -/
def payloadHash (message : Message) : Digest :=
  Sha256.digest (Protocol.Payload.codec.toBytes message.envelope.payload)

/-- The codec of messages: an envelope that is checked when it is read. -/
def codec : Codec Message :=
  Envelope.codec.refine (fun e => (tryFrom e).toOption) envelope
    (fun m => by simp [tryFrom, m.valid, m.fits, Except.toOption])
    (fun e m h => by
      unfold tryFrom at h
      split at h
      · split at h
        · simp only [Except.toOption, Option.some.injEq] at h
          rw [← h]
        · cases h
      · cases h)

end Message

/-! ### What the checks guarantee -/

namespace Protocol

variable {value : ℤ}

theorem timestamp_iff : timestamp value = true ↔ 0 ≤ value ∧ value ≤ 253402300799 := by
  simp [timestamp]

theorem i64_ok_of_timestamp (h : timestamp value = true) : i64.ok value := by
  rw [timestamp_iff] at h
  constructor <;> omega

/-- A time and the lifetime of a credential or an invitation do not overflow. -/
theorem checkedAdd_eq_some_iff {a b ttl : ℤ} (h : timestamp a = true)
    (httl : 0 ≤ ttl ∧ ttl ≤ 86400) : I64.checkedAdd a ttl = some b ↔ b = a + ttl := by
  rw [timestamp_iff] at h
  rw [I64.checkedAdd, if_pos (by simp only [I64.min, I64.max]; omega), Option.some.injEq, eq_comm]

theorem utf8ByteSize_of_id {value : String} (h : Protocol.id value = true) :
    value.utf8ByteSize ≤ 128 := by
  simp only [Protocol.id, Bool.and_eq_true, decide_eq_true_eq] at h
  exact h.1.2

theorem int32_ok (n : Int32) : int32.ok n := ⟨n.le_toInt, n.toInt_lt⟩

theorem Artifact.codec_ok {v : Artifact} (h : v.valid = true) : Artifact.codec.ok v := by
  unfold Artifact.valid at h
  simp only [Bool.and_eq_true, beq_iff_eq] at h
  obtain ⟨⟨-, hlimit⟩, hstate⟩ := h
  refine ⟨trivial, trivial, trivial, trivial, trivial, ?_, ?_, fun _ _ => trivial, trivial⟩
  · change v.limitBytes < 2 ^ 64
    rw [hlimit]
    decide
  · intro count hcount
    change count < 2 ^ 64
    rw [show v.byteCount = some count from hcount] at hstate
    cases hs : v.state with
    | empty =>
      simp only [hs, Bool.and_eq_true, beq_iff_eq, Option.some.injEq] at hstate
      omega
    | tooLarge => simp [hs] at hstate
    | complete | unsupportedEncoding =>
      simp only [hs, Bool.and_eq_true, Option.any_some, decide_eq_true_eq] at hstate
      have hmax : maxPatchBytes = 524288 := rfl
      omega

theorem Decision.codec_ok {v : Decision} (h : v.valid = true) : Decision.codec.ok v := by
  cases v with
  | offered => trivial
  | accepted v =>
    simp only [Decision.valid, Bool.and_eq_true] at h
    exact ⟨trivial, trivial, trivial, trivial, i64_ok_of_timestamp h.2, trivial⟩
  | rejected v | cancelled v =>
    simp only [Decision.valid, Bool.and_eq_true] at h
    exact ⟨trivial, i64_ok_of_timestamp h.2, trivial⟩

theorem TestReport.codec_ok (v : TestReport) : TestReport.codec.ok v := by
  cases v with
  | notReported => trivial
  | reported executions =>
    exact ⟨fun test _ => ⟨trivial, int32_ok test.exitCode, trivial⟩, trivial⟩

theorem Receipt.codec_ok {v : Receipt} (h : v.valid = true) : Receipt.codec.ok v := by
  simp only [Receipt.valid, Bool.and_eq_true] at h
  obtain ⟨⟨⟨⟨⟨⟨⟨⟨⟨⟨⟨-, -⟩, hstart⟩, hfinish⟩, -⟩, -⟩, hartifact⟩, -⟩, -⟩, -⟩, -⟩, -⟩ := h
  exact ⟨⟨trivial, trivial, trivial, trivial, trivial, i64_ok_of_timestamp hstart,
    i64_ok_of_timestamp hfinish, trivial, fun _ _ => trivial, fun _ _ => trivial,
    TestReport.codec_ok _, Artifact.codec_ok hartifact, trivial⟩, trivial, trivial⟩

/-- **A valid payload can be carried by its JSON.** -/
theorem Payload.codec_ok {v : Payload} (h : v.valid = true) : Payload.codec.ok v := by
  cases v with
  | identity v => exact ⟨trivial, trivial, trivial, trivial, trivial, trivial⟩
  | node v =>
    exact ⟨trivial, trivial, trivial, trivial, trivial, fun _ _ => trivial, trivial⟩
  | task v =>
    exact ⟨trivial, trivial, trivial, fun _ _ => trivial, trivial, trivial, trivial⟩
  | assignment v =>
    simp only [Payload.valid, Bool.and_eq_true] at h
    exact ⟨trivial, trivial, trivial, trivial, trivial, Decision.codec_ok h.2, trivial⟩
  | runReceipt v => exact Receipt.codec_ok h
  | artifact v => exact Artifact.codec_ok h

end Protocol

namespace Message

variable (m : Message)

theorem envelope_valid :
    m.envelope.protocolVersion = 1 ∧
    (Protocol.id m.envelope.messageId ∧ Protocol.id m.envelope.idempotencyKey ∧
      Protocol.id m.envelope.brainId ∧ Protocol.id m.envelope.senderNodeId) ∧
    Protocol.timestamp m.envelope.sentAt ∧ m.envelope.revision ≤ maxRevision ∧
    m.envelope.payload.valid := by
  have h := m.valid
  simp only [Envelope.valid, Bool.and_eq_true, beq_iff_eq, List.all_cons, List.all_nil,
    Bool.and_true, decide_eq_true_eq] at h
  obtain ⟨⟨⟨⟨h1, h2, h3, h4, h5⟩, h6⟩, h7⟩, h8⟩ := h
  exact ⟨h1, ⟨h2, h3, h4, h5⟩, h6, h7, h8⟩

theorem id_key : Protocol.id m.admission.key = true := m.envelope_valid.2.1.2.1

theorem id_taskId {taskId memberId : String} {status : TaskStatus}
    (h : m.admission.payload = .task taskId memberId status) : Protocol.id taskId = true := by
  have hvalid := m.envelope_valid.2.2.2.2
  simp only [admission] at h
  cases hpayload : m.envelope.payload with
  | task v =>
    rw [hpayload] at h hvalid
    simp only [Protocol.Payload.valid, Bool.and_eq_true] at hvalid
    obtain ⟨rfl, -, -⟩ := PayloadView.task.inj h
    exact hvalid.1.1.1.1.1
  | _ =>
    rw [hpayload] at h
    cases h

/-- **Every message can be carried by its JSON.** -/
theorem codec_ok : codec.ok m := by
  obtain ⟨hversion, -, hsent, hrevision, hpayload⟩ := m.envelope_valid
  refine ⟨?_, trivial, trivial, trivial, trivial, Protocol.i64_ok_of_timestamp hsent, ?_,
    Protocol.Payload.codec_ok hpayload, trivial⟩
  · change m.envelope.protocolVersion < 2 ^ 32
    rw [hversion]
    decide
  · change m.envelope.revision < 2 ^ 64
    have hmax : maxRevision = 9007199254740991 := rfl
    omega

theorem enc_ne_null : codec.enc m ≠ .null := by
  intro h
  cases h

end Message

end Rivloom.Collaboration
