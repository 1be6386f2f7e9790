import Rivloom.Collaboration.Reconcile
import Mathlib.Data.Finset.Insert

/-!
# A node's view

What a node knows of the Brain (`node.rs`), and the one message it has yet to see
acknowledged. A node takes pages from a peer it does not trust. It collects them beside
its view, in `Rivloom.Collaboration.PendingSync`, and replaces the view only when the
last page of a pass has come and the records it would then hold make sense together;
anything else that happens to a pass throws the whole pass away.
-/

namespace Rivloom.Collaboration

/-- Why a node refuses. -/
inductive NodeError where
  | invalid | busy | unavailable
  deriving DecidableEq

/-- A pass that is under way: the next request, the records as they would be, and the
keys of the ones that came in this pass. -/
structure PendingSync where
  request : ReconcileRequest
  records : StrMap SharedRecord
  seen : Finset String
  deriving DecidableEq

/-- **A node's view of the Brain.** -/
structure Node where
  binding : CredentialBinding
  revision : ℕ
  records : StrMap SharedRecord
  sync : Option PendingSync
  ready : Bool
  uncertainTasks : Finset String
  pendingMessage : Option Message
  deriving DecidableEq

/-- The key of a record in the view. -/
def SharedData.key : SharedData → String
  | .member memberId _ _ _ _ => "member:" ++ memberId
  | .node nodeId _ _ _ _ _ => "node:" ++ nodeId
  | .task taskId _ _ => "task:" ++ taskId

def SharedRecord.key (record : SharedRecord) : String := record.data.key

/-- Add the records of a page, each of which must be new to the pass. -/
def PendingSync.stage : List SharedRecord → PendingSync → Option PendingSync
  | [], pending => some pending
  | record :: rest, pending =>
    if record.key ∈ pending.seen then none
    else
      PendingSync.stage rest
        { pending with
          records := pending.records.insert record.key record
          seen := insert record.key pending.seen }

/-- The records as one JSON value. -/
def recordsJson (records : StrMap SharedRecord) : Json :=
  .obj (records.toList.map fun e => (e.1, SharedRecord.codec.enc e.2))

/-- The most bytes of the records of a view. -/
def maxViewBytes : ℕ := 3 * 1024 * 1024

namespace View

/-- Nodes of known members only, none of them online for a revoked one, and tasks from
nodes of the own member only. -/
def recordValid (binding : CredentialBinding) (records : StrMap SharedRecord)
    (record : SharedRecord) : Bool :=
  match record.data with
  | .member _ _ _ _ _ => true
  | .node _ memberId _ online _ _ =>
    match records["member:" ++ memberId]?.map SharedRecord.data with
    | some (.member _ _ _ _ revoked) => !online || !revoked
    | _ => false
  | .task _ _ source =>
    match records["node:" ++ source.admission.senderNodeId]?.map SharedRecord.data with
    | some (.node _ memberId _ _ _ _) => memberId == binding.memberId
    | _ => false

def isOwner (record : SharedRecord) : Bool :=
  match record.data with
  | .member _ _ _ owner revoked => owner && !revoked
  | _ => false

def isMember (record : SharedRecord) : Bool :=
  match record.data with
  | .member .. => true
  | _ => false

def isNode (record : SharedRecord) : Bool :=
  match record.data with
  | .node .. => true
  | _ => false

def isTask (record : SharedRecord) : Bool :=
  match record.data with
  | .task .. => true
  | _ => false

/-- How many records are of a kind. -/
def count (records : StrMap SharedRecord) (kind : SharedRecord → Bool) : ℕ :=
  (records.toList.filter fun e => kind e.2).length

/-- The own member is there and not revoked. -/
def ownMember (binding : CredentialBinding) (records : StrMap SharedRecord) : Bool :=
  match records["member:" ++ binding.memberId]?.map SharedRecord.data with
  | some (.member _ _ _ _ revoked) => !revoked
  | _ => false

/-- The own node is there, with its member and its device. -/
def ownNode (binding : CredentialBinding) (records : StrMap SharedRecord) : Bool :=
  match records["node:" ++ binding.nodeId]?.map SharedRecord.data with
  | some (.node _ memberId deviceId _ _ _) =>
    memberId == binding.memberId && deviceId == binding.deviceId
  | _ => false

/-- The checks on the records of a complete pass. -/
def valid (binding : CredentialBinding) (records : StrMap SharedRecord) : Bool :=
  records.all (fun _ => recordValid binding records) && count records isOwner == 1 &&
    count records isMember ≤ 64 && count records isNode ≤ 64 && count records isTask ≤ 64 &&
    ownMember binding records && ownNode binding records

end View

/-- An operation of a node. -/
abbrev NodeAction (α : Type) : Type := Action Node NodeError α

namespace Node

/-- A node that knows nothing yet. -/
def new (binding : CredentialBinding) : Except NodeError Node :=
  if [binding.brainId, binding.memberId, binding.nodeId, binding.deviceId].all Protocol.id then
    .ok { binding, revision := 0, records := ∅, sync := none, ready := false
          uncertainTasks := ∅, pendingMessage := none }
  else .error .invalid

/-- The first request of a pass. -/
def firstRequest (node : Node) : ReconcileRequest :=
  { after := node.revision, atRevision := none, offset := 0 }

/-- The pass under way, or a new one. -/
def currentSync (node : Node) : PendingSync :=
  node.sync.getD { request := node.firstRequest, records := node.records, seen := ∅ }

/-- The next request. -/
def reconcileRequest (node : Node) : ReconcileRequest := node.currentSync.request

/-- Take a page from an untrusted peer: the next request, or nothing after the last
page. -/
def acceptPage (page : Page) : NodeAction (Option ReconcileRequest) := do
  let node ← Action.get
  let pending := node.currentSync
  Action.modify fun node => { node with ready := false, sync := none }
  Action.lift (page.validate.mapError fun _ => .invalid)
  Action.ensure (page.brainId == node.binding.brainId &&
    page.memberId == node.binding.memberId && page.after == pending.request.after &&
    page.offset == pending.request.offset &&
    pending.request.atRevision.all fun revision => revision == page.atRevision) .invalid
  let pending ← Action.orElse (PendingSync.stage page.records pending) .invalid
  Action.ensure (pending.records.size ≤ maxSharedRecords &&
    (recordsJson pending.records).bytes.size ≤ maxViewBytes) .invalid
  match page.next with
  | some offset =>
    let next : ReconcileRequest :=
      { after := page.after, atRevision := some page.atRevision, offset }
    Action.modify fun node => { node with sync := some { pending with request := next } }
    return some next
  | none =>
    Action.ensure (View.valid node.binding pending.records) .invalid
    Action.modify fun node =>
      { node with records := pending.records, revision := page.atRevision, ready := true }
    return none

/-- The running tasks of a view. -/
def runningTasks (records : StrMap SharedRecord) : List String :=
  records.toList.filterMap fun e =>
    match e.2.data with
    | .task taskId .running _ => some taskId
    | _ => none

/-- The connection is lost: what was running is uncertain. -/
def disconnect (node : Node) : Node :=
  { node with
    ready := false, sync := none
    uncertainTasks := node.uncertainTasks ∪ (runningTasks node.records).toFinset }

/-- The node may send the message. -/
def allowed (binding : CredentialBinding) (message : Message) : Bool :=
  match message.admission.payload with
  | .node nodeId memberId deviceId =>
    nodeId == binding.nodeId && memberId == binding.memberId && deviceId == binding.deviceId
  | .task _ memberId status => memberId == binding.memberId && status == .draft
  | .unsupported => message.isReceiptFrom binding.nodeId

/-- Queue a message that was confirmed for sending. -/
def queueConfirmed (message : Message) : NodeAction Unit := do
  let node ← Action.get
  let a := message.admission
  Action.ensure (a.brainId == node.binding.brainId && a.senderNodeId == node.binding.nodeId &&
    allowed node.binding message) .invalid
  match node.pendingMessage with
  | some pending =>
    Action.ensure (pending.admission.key == a.key && pending.payloadHash == message.payloadHash)
      .busy
  | none => Action.modify fun node => { node with pendingMessage := some message }

/-- The message to send, at the revision the node knows. -/
def outgoing (node : Node) : Except NodeError Message :=
  if node.ready then
    match node.pendingMessage with
    | some message => (message.withRevision node.revision).mapError fun _ => .invalid
    | none => .error .unavailable
  else .error .unavailable

/-- The message was applied; what the node knows is out of date. -/
def acknowledge (key : String) (revision : ℕ) : NodeAction Unit := do
  let node ← Action.get
  Action.ensure (revision != 0 && revision ≤ maxRevision &&
    node.pendingMessage.any fun message => message.admission.key == key) .invalid
  Action.modify fun node => { node with pendingMessage := none, ready := false, sync := none }

end Node

end Rivloom.Collaboration
