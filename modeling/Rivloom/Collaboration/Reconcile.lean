import Rivloom.Collaboration.BrainTasks

/-!
# Pages

How a node learns what the Brain holds (`reconcile.rs`). The Brain shows a node every
member, every node and the tasks of the node's own member, and it sends them one record
to a page: the records whose revision is above the one the node knows, in a fixed order,
all at one revision of the Brain. A request that names another revision is refused, so
that the pages of one pass never mix two revisions.

`Rivloom.Collaboration.Page.validate` is what both sides check of a page; the sender
checks it before it sends.
-/

namespace Rivloom.Collaboration

/-- The most bytes of a page. -/
def maxControlBytes : ℕ := 64 * 1024

/-- The most records a node may see. -/
def maxSharedRecords : ℕ := 192

/-- A request for the next page: what the node knows, the revision of the pages it has
so far, and how many they are. -/
structure ReconcileRequest where
  after : ℕ
  atRevision : Option ℕ
  offset : ℕ
  deriving DecidableEq

def ReconcileRequest.codec : Codec ReconcileRequest :=
  .struct
    (.cons "after" Protocol.u64 <|
      .cons "at" (.option Protocol.u64 Protocol.enc_u64_ne_null) <|
      .cons "offset" (.uint 16) .nil)
    ⟨fun v => (v.after, v.atRevision, v.offset, ()), fun (a, b, c, _) => ⟨a, b, c⟩, fun _ => rfl,
      fun _ => rfl⟩ (by decide)

/-- What a node sees of a member, of a node or of a task. -/
inductive SharedData where
  | member (memberId identityId displayName : String) (owner revoked : Bool)
  | node (nodeId memberId deviceId : String) (online : Bool) (lastSeenAt : Option ℤ)
      (announcement : Option Message)
  | task (taskId : String) (status : TaskStatus) (source : Message)
  deriving DecidableEq

namespace SharedData

/-- The fields of a shared member. -/
def memberCodec : Codec (String × String × String × Bool × Bool × Unit) :=
  (Codec.struct
    (.cons "memberId" .string <| .cons "identityId" .string <| .cons "displayName" .string <|
      .cons "owner" .bool <| .cons "revoked" .bool .nil) (Equiv.refl _) (by decide)).objectOnly
    fun _ => ⟨_, rfl⟩

/-- The fields of a shared node. -/
def nodeCodec :
    Codec (String × String × String × Bool × Option ℤ × Option Message × Unit) :=
  (Codec.struct
    (.cons "nodeId" .string <| .cons "memberId" .string <| .cons "deviceId" .string <|
      .cons "online" .bool <|
      .cons "lastSeenAt" (.option Protocol.i64 Protocol.enc_i64_ne_null) <|
      .cons "announcement" (.option Message.codec Message.enc_ne_null) .nil)
    (Equiv.refl _) (by decide)).objectOnly fun _ => ⟨_, rfl⟩

/-- The fields of a shared task. -/
def taskCodec : Codec (String × TaskStatus × Message × Unit) :=
  (Codec.struct
    (.cons "taskId" .string <| .cons "status" TaskStatus.codec <|
      .cons "source" Message.codec .nil) (Equiv.refl _) (by decide)).objectOnly fun _ => ⟨_, rfl⟩

def memberVariant : Codec.Variant SharedData :=
  ⟨"member", memberCodec, fun (a, b, c, d, e, _) => .member a b c d e⟩

def nodeVariant : Codec.Variant SharedData :=
  ⟨"node", nodeCodec, fun (a, b, c, d, e, f, _) => .node a b c d e f⟩

def taskVariant : Codec.Variant SharedData :=
  ⟨"task", taskCodec, fun (a, b, c, _) => .task a b c⟩

def variants : Codec.Variants SharedData where
  all := [memberVariant, nodeVariant, taskVariant]
  view
    | .member a b c d e => ⟨memberVariant, (a, b, c, d, e, ())⟩
    | .node a b c d e f => ⟨nodeVariant, (a, b, c, d, e, f, ())⟩
    | .task a b c => ⟨taskVariant, (a, b, c, ())⟩
  inj_view a := by cases a <;> rfl
  view_inj v hv b := by fin_cases hv <;> rfl
  find_view a := by cases a <;> rfl

def codec : Codec SharedData := .tagged "type" "data" Protocol.type_ne_data variants

end SharedData

/-- A record as a node sees it, with the revision of its last change. -/
structure SharedRecord where
  revision : ℕ
  data : SharedData
  deriving DecidableEq

def SharedRecord.codec : Codec SharedRecord :=
  .struct (.cons "revision" Protocol.u64 <| .cons "data" SharedData.codec .nil)
    ⟨fun v => (v.revision, v.data, ()), fun (a, b, _) => ⟨a, b⟩, fun _ => rfl, fun _ => rfl⟩
    (by decide)

/-- **A page**: at most one record, of one pass over the records at one revision. -/
structure Page where
  version : ℕ
  brainId : String
  memberId : String
  after : ℕ
  atRevision : ℕ
  offset : ℕ
  next : Option ℕ
  records : List SharedRecord
  deriving DecidableEq

namespace Page

def codec : Codec Page :=
  .struct
    (.cons "version" (.uint 32) <| .cons "brainId" .string <| .cons "memberId" .string <|
      .cons "after" Protocol.u64 <| .cons "at" Protocol.u64 <| .cons "offset" (.uint 16) <|
      .cons "next" (.option (.uint 16) (Protocol.enc_uint_ne_null _)) <|
      .cons "records" (.list SharedRecord.codec) .nil)
    ⟨fun v => (v.version, v.brainId, v.memberId, v.after, v.atRevision, v.offset,
      v.next, v.records, ()),
      fun (a, b, c, d, e, f, g, h, _) => ⟨a, b, c, d, e, f, g, h⟩, fun _ => rfl, fun _ => rfl⟩
    (by decide)

/-- The checks on the fields of a page. -/
def headerValid (page : Page) : Bool :=
  page.version == 1 && Protocol.id page.brainId && Protocol.id page.memberId &&
    page.atRevision != 0 &&
    page.atRevision ≤ maxRevision && page.after ≤ page.atRevision &&
      page.offset < maxSharedRecords &&
    page.records.length ≤ 1 &&
    page.next.all (fun next => next == page.offset + 1 && next < maxSharedRecords) &&
    !(page.records.isEmpty && (page.offset != 0 || page.next.isSome))

/-- The checks on the announcement of a shared node. -/
def announcementValid (page : Page) (revision : ℕ) (nodeId memberId deviceId : String)
    (message : Message) : Bool :=
  let admission := message.admission
  admission.brainId == page.brainId && admission.senderNodeId == nodeId &&
    admission.revision < revision && admission.payload == .node nodeId memberId deviceId

/-- The checks on what a record says. -/
def dataValid (page : Page) (revision : ℕ) : SharedData → Bool
  | .member memberId identityId name _ _ =>
    Protocol.id memberId && Protocol.id identityId && displayName name
  | .node nodeId memberId deviceId online lastSeenAt announcement =>
    Protocol.id nodeId && Protocol.id memberId && Protocol.id deviceId &&
      (!online || lastSeenAt.isSome) && lastSeenAt.all Protocol.timestamp &&
      announcement.all (page.announcementValid revision nodeId memberId deviceId)
  | .task taskId _ source =>
    let admission := source.admission
    Protocol.id taskId && admission.brainId == page.brainId && admission.revision < revision &&
      admission.payload == .task taskId page.memberId .draft

/-- The checks on a record. -/
def recordValid (page : Page) (record : SharedRecord) : Bool :=
  page.after < record.revision && record.revision ≤ page.atRevision &&
    page.dataValid record.revision record.data

/-- Check a page. -/
def validate (page : Page) : Except BrainError Unit :=
  if !page.headerValid then .error .invalid
  else if !page.records.all page.recordValid then .error .invalid
  else .ok ()

/-- What holds of the fields of a page that passes the check. -/
structure HeaderOk (page : Page) : Prop where
  version : page.version = 1
  brainId : Protocol.id page.brainId = true
  memberId : Protocol.id page.memberId = true
  revision_pos : 0 < page.atRevision
  revision_le : page.atRevision ≤ maxRevision
  after_le : page.after ≤ page.atRevision
  offset_lt : page.offset < maxSharedRecords
  length_le : page.records.length ≤ 1
  next : ∀ next, page.next = some next → next = page.offset + 1 ∧ next < maxSharedRecords
  empty : page.records = [] → page.offset = 0 ∧ page.next = none

theorem headerValid_iff {page : Page} : page.headerValid = true ↔ page.HeaderOk := by
  have hempty : (!(page.records.isEmpty && (page.offset != 0 || page.next.isSome))) = true ↔
      (page.records = [] → page.offset = 0 ∧ page.next = none) := by
    simp only [Bool.not_eq_true', Bool.and_eq_false_imp, List.isEmpty_iff, Bool.or_eq_false_iff,
      bne_eq_false_iff_eq, Option.isSome_eq_false_iff, Option.isNone_iff_eq_none]
  simp only [headerValid, Bool.and_eq_true, hempty, beq_iff_eq, bne_iff_ne, decide_eq_true_eq,
    Option.all_eq_true, and_assoc]
  constructor
  · rintro ⟨h1, h2, h3, h4, h5, h6, h7, h8, h9, h10⟩
    exact ⟨h1, h2, h3, Nat.pos_of_ne_zero h4, h5, h6, h7, h8, h9, h10⟩
  · rintro ⟨h1, h2, h3, h4, h5, h6, h7, h8, h9, h10⟩
    exact ⟨h1, h2, h3, Nat.ne_of_gt h4, h5, h6, h7, h8, h9, h10⟩

/-- **The check passes exactly on these pages.** -/
theorem validate_eq_ok {page : Page} :
    page.validate = .ok () ↔
      page.HeaderOk ∧ ∀ record ∈ page.records, page.recordValid record = true := by
  rw [← headerValid_iff, ← List.all_eq_true, validate]
  split_ifs <;> simp_all

/-- Write a page. -/
def encode (page : Page) : Except BrainError ByteArray := do
  page.validate
  let bytes := codec.toBytes page
  if bytes.size > maxControlBytes then throw .capacity
  return bytes

end Page

namespace Brain

/-- A member as nodes see it. -/
def sharedMember (b : Brain) (key : String) (member : MemberRecord) : SharedRecord :=
  { revision := member.revision
    data := .member key member.identityId member.displayName (key == b.ownerMemberId)
      member.revoked }

/-- A node as nodes see it. -/
def sharedNode (key : String) (node : NodeRecord) : SharedRecord :=
  { revision := node.revision
    data := .node key node.memberId node.deviceId node.online node.lastSeenAt node.announcement }

/-- A task as the nodes of its creator see it. -/
def sharedTask (key : String) (task : TaskRecord) : SharedRecord :=
  { revision := task.revision, data := .task key task.status task.source }

/-- The task was created by the member. -/
def createdBy (memberId : String) (task : TaskRecord) : Bool :=
  match task.source.admission.payload with
  | .task _ creator _ => creator == memberId
  | _ => false

/-- What the nodes of a member see: every member, every node, and the member's own
tasks. -/
def shared (b : Brain) (memberId : String) : List SharedRecord :=
  b.members.toList.map (fun e => b.sharedMember e.1 e.2) ++
    b.nodes.toList.map (fun e => sharedNode e.1 e.2) ++
    (b.tasks.toList.filter fun e => createdBy memberId e.2).map fun e => sharedTask e.1 e.2

/-- What changed since a revision. -/
def changes (b : Brain) (memberId : String) (after : ℕ) : List SharedRecord :=
  (b.shared memberId).filter fun record => after < record.revision

/-- The page that answers a request. -/
def page (b : Brain) (memberId : String) (request : ReconcileRequest) : Page :=
  let changes := b.changes memberId request.after
  { version := 1, brainId := b.brainId, memberId, after := request.after, atRevision := b.revision
    offset := request.offset
    next := if request.offset + 1 < changes.length then some (request.offset + 1) else none
    records := (changes.drop request.offset).take 1 }

/-- Answer a request with a page, from the records as they are. -/
def serve (memberId : String) (request : ReconcileRequest) : BrainAction Page := do
  let b ← Action.get
  Action.ensure (request.after ≤ b.revision && request.offset < maxSharedRecords &&
    !(request.atRevision.isNone && request.offset != 0)) .invalid
  Action.ensure (request.atRevision.all fun revision => revision == b.revision) .conflict
  let count := (b.changes memberId request.after).length
  Action.ensure (!(count < request.offset || (request.offset == count && request.offset != 0)))
    .invalid
  let _ ← Action.lift (b.page memberId request).encode
  return b.page memberId request

/-- Answer a request for a page, after the nodes that were not seen for long are taken
offline. -/
def reconcile (session : ConnectionIdentity) (request : ReconcileRequest) (now : ℤ) :
    BrainAction Page := do
  observe now
  onCredentials (CredentialRegistry.authorizeTask session now)
  let _ ← resetPresence .expired now
  serve session.binding.memberId request

end Brain

end Rivloom.Collaboration
