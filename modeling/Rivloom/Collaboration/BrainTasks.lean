import Rivloom.Collaboration.Brain

/-!
# Messages and tasks

What nodes may do to the Brain by sending it messages (`brain_tasks.rs`): announce
themselves, and submit a draft task. A message is applied at most once. What was applied
is remembered by its sender, its key and the hash of its payload; a message that comes
again is answered with the revision it made the first time, and one that comes with the
same key and another payload is refused.

The life of a task after that, `Rivloom.Collaboration.Brain.setTaskStatus`, is in the
hands of a trusted coordinator.
-/

namespace Rivloom.Collaboration

open Rivloom.Action (ensure lift modify orElse)

/-- The most tasks there may be. -/
def maxTasks : ℕ := 64

/-- The most messages that are remembered. -/
def maxReplays : ℕ := 256

/-- The next states of a task. -/
def TaskStatus.allows : TaskStatus → TaskStatus → Bool
  | .draft, next => next == .offered || next == .cancelled
  | .offered, next => next == .accepted || next == .rejected || next == .cancelled
  | .accepted, next => next == .running || next == .cancelled || next == .outcomeUnknown
  | .running, next =>
    next == .awaitingReview || next == .failed || next == .cancelled || next == .outcomeUnknown
  | .awaitingReview, next => next == .approved || next == .rejected
  | .outcomeUnknown, next => next == .awaitingReview || next == .failed || next == .cancelled
  | .approved, _ | .rejected, _ | .cancelled, _ | .failed, _ => false

namespace Brain

/-- The memory of a message of a sender under a key. -/
def findReplay (b : Brain) (senderNodeId key : String) : Option ReplayRecord :=
  b.replays.find? fun record => record.senderNodeId == senderNodeId && record.key == key

/-- Remember an applied message. -/
def pushReplay (record : ReplayRecord) : BrainAction Unit :=
  modify fun b => { b with replays := b.replays ++ [record] }

/-- Apply what a message says, after it was found to be new. -/
def admitPayload (session : ConnectionIdentity) (message : Message) (revision : ℕ) (now : ℤ) :
    BrainAction Unit :=
  match message.admission.payload with
  | .node nodeId memberId deviceId => do
    ensure (nodeId == session.binding.nodeId && memberId == session.binding.memberId &&
      deviceId == session.binding.deviceId) .invalid
    let _ ← heartbeat session message.admission.revision now
    let b ← Action.get
    let node ← orElse b.nodes[nodeId]? .invalid
    modify fun b =>
      { b with nodes := b.nodes.insert nodeId { node with announcement := some message } }
  | .task taskId memberId status => do
    ensure (memberId == session.binding.memberId && status == .draft) .invalid
    let b ← Action.get
    ensure (!b.tasks.contains taskId) .conflict
    ensure (b.tasks.size < maxTasks) .capacity
    modify fun b =>
      { b with
        tasks := b.tasks.insert taskId { source := message, status := .draft, revision }
        revision }
  | .unsupported => lift (.error .invalid)

/-- Apply a message of a node. -/
def apply (session : ConnectionIdentity) (message : Message) (now : ℤ) : BrainAction ℕ := do
  observe now
  onCredentials (CredentialRegistry.authorizeTask session now)
  let admission := message.admission
  let binding := session.binding
  let b ← Action.get
  ensure (admission.brainId == b.brainId && admission.senderNodeId == binding.nodeId)
    .invalid
  let fingerprint := message.payloadHash
  match b.findReplay binding.nodeId admission.key with
  | some previous =>
    lift
      (if previous.fingerprint == fingerprint then .ok previous.revision else .error .conflict)
  | none =>
    checkRevision admission.revision
    ensure (b.replays.length < maxReplays) .capacity
    let revision ← nextRevision
    admitPayload session message revision now
    pushReplay { senderNodeId := binding.nodeId, key := admission.key, fingerprint, revision }
    return revision

/-- Move a task to its next state; trusted coordinator only. -/
def setTaskStatus (taskId : String) (expectedRevision : ℕ) (next : TaskStatus) (now : ℤ) :
    BrainAction ℕ := do
  observe now
  checkRevision expectedRevision
  let b ← Action.get
  let task ← orElse b.tasks[taskId]? .invalid
  if task.status == next then
    return b.revision
  else
    ensure (task.status.allows next) .invalid
    let revision ← nextRevision
    modify fun b =>
      { b with tasks := b.tasks.insert taskId { task with status := next, revision }, revision }
    return revision

/-! ### The checks on tasks and remembered messages -/

/-- The checks on the remembered messages, with the keys and the revisions that came
before. -/
def replaysValid (b : Brain) : List ReplayRecord → List (String × String) → List ℕ → Bool
  | [], _, _ => true
  | record :: rest, keys, revisions =>
    Protocol.id record.key && b.nodes.contains record.senderNodeId && record.revision != 0 &&
      record.revision ≤ b.revision && !keys.contains (record.senderNodeId, record.key) &&
      !revisions.contains record.revision &&
      replaysValid b rest ((record.senderNodeId, record.key) :: keys)
        (record.revision :: revisions)

/-- The checks on one task. -/
def taskValid (b : Brain) (key : String) (task : TaskRecord) : Bool :=
  let source := task.source.admission
  match source.payload with
  | .task taskId memberId status =>
    key == taskId && status == .draft && source.brainId == b.brainId &&
      task.revision ≤ b.revision && source.revision < task.revision &&
      (b.nodes[source.senderNodeId]?.any fun node => node.memberId == memberId) &&
      b.replays.any fun record =>
        record.senderNodeId == source.senderNodeId && record.key == source.key &&
          record.revision == source.revision + 1 && task.source.payloadHash == record.fingerprint
  | _ => false

/-- The checks on the announcement of one node. -/
def announcementValid (b : Brain) (key : String) (node : NodeRecord) : Bool :=
  match node.announcement with
  | none => true
  | some message =>
    let source := message.admission
    match source.payload with
    | .node nodeId memberId deviceId =>
      key == nodeId && source.senderNodeId == nodeId && source.brainId == b.brainId &&
        memberId == node.memberId && deviceId == node.deviceId && source.revision < node.revision
    | _ => false

/-- Check the tasks, the remembered messages and the announcements. -/
def validateTasksAndReplays (b : Brain) : Except BrainError Unit :=
  if maxTasks < b.tasks.size || maxReplays < b.replays.length then .error .capacity
  else if !replaysValid b b.replays [] [] then .error .invalid
  else if !b.tasks.all (taskValid b) then .error .invalid
  else if !b.nodes.all (announcementValid b) then .error .invalid
  else .ok ()

end Brain

end Rivloom.Collaboration
