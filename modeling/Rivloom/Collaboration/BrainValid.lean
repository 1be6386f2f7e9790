import Rivloom.Collaboration.BrainOps

/-!
# Valid Brains

What a Brain must be to be written or read (`Brain::validate` in `brain.rs`, and the rest
of it in `brain_tasks.rs`): about thirty conditions that tie the members, the nodes, the
tasks, the remembered messages, the credentials and the clocks together.
`Rivloom.Collaboration.Brain.validate` is the check as the source writes it, loop by
loop; `Rivloom.Collaboration.Brain.Valid` says the same as a structure whose fields can
be used one by one.

The conditions are inductive. Whatever an operation that returns does to a Brain that
meets them – and whose registries would be accepted from a snapshot – it meets them
again, and so the next transaction, or the next start of the application, will not refuse
what this one accepted.
-/

namespace Rivloom.Collaboration

namespace Brain

variable {b : Brain} {key : String}

/-! ### The check -/

/-- The checks on the fields of the Brain. -/
def headerValid (b : Brain) : Bool :=
  b.version == 1 && Protocol.id b.brainId && b.revision != 0 && b.revision ≤ maxRevision &&
    Protocol.timestamp b.clock.highWaterAt && b.credentials.brainId == b.brainId &&
    b.invitations.brainId == b.brainId &&
    b.credentials.highWaterAt ≤ b.clock.highWaterAt &&
    b.invitations.highWaterAt ≤ b.clock.highWaterAt &&
    !b.members.isEmpty && b.members.size ≤ 64 && b.nodes.size ≤ 64 &&
    (b.members[b.ownerMemberId]?.any fun member => !member.revoked) &&
    b.credentials.bindings.length == b.nodes.size

/-- The checks on one member. -/
def memberValid (b : Brain) (key : String) (member : MemberRecord) : Bool :=
  Protocol.id key && Protocol.id member.identityId && displayName member.displayName &&
    member.revision != 0 && member.revision ≤ b.revision &&
    (b.credentials.bindings.any fun binding => binding.memberId == key) &&
    member.revoked == b.credentials.isRevoked key

/-- The checks on the node and the member of one credential. -/
def bindingValid (b : Brain) (binding : CredentialBinding) : Bool :=
  match b.nodes[binding.nodeId]?, b.members[binding.memberId]? with
  | some node, some member =>
    node.memberId == binding.memberId && node.deviceId == binding.deviceId &&
      node.revision != 0 && node.revision ≤ b.revision && !(member.revoked && node.online) &&
      !(node.online && node.lastSeenAt.isNone) &&
      node.lastSeenAt.all fun seen => Protocol.timestamp seen && seen ≤ b.clock.highWaterAt
  | _, _ => false

/-- **Check a Brain.** -/
def validate (b : Brain) : Except BrainError Unit :=
  if !b.headerValid then .error .invalid
  else if !b.members.all b.memberValid then .error .invalid
  else if !b.credentials.bindings.all b.bindingValid then .error .invalid
  else b.validateTasksAndReplays

/-! ### The conditions, one by one -/

/-- What holds of a member. -/
structure MemberOk (b : Brain) (key : String) (member : MemberRecord) : Prop where
  id : Protocol.id key = true
  identityId : Protocol.id member.identityId = true
  displayName : displayName member.displayName = true
  revision_pos : 0 < member.revision
  revision_le : member.revision ≤ b.revision
  bound : ∃ (k : String) (record : StoredCredential), b.credentials.records[k]? = some record ∧
    record.binding.memberId = key
  revoked : member.revoked = b.credentials.isRevoked key

/-- What holds of the node and the member of a credential. -/
structure BindingOk (b : Brain) (binding : CredentialBinding) (node : NodeRecord)
    (member : MemberRecord) : Prop where
  hasNode : b.nodes[binding.nodeId]? = some node
  hasMember : b.members[binding.memberId]? = some member
  memberId : node.memberId = binding.memberId
  deviceId : node.deviceId = binding.deviceId
  revision_pos : 0 < node.revision
  revision_le : node.revision ≤ b.revision
  revoked : member.revoked = true → node.online = false
  online : node.online = true → node.lastSeenAt ≠ none
  seen : ∀ seen, node.lastSeenAt = some seen →
    Protocol.timestamp seen = true ∧ seen ≤ b.clock.highWaterAt

/-- What holds of a remembered message. -/
structure ReplayOk (b : Brain) (record : ReplayRecord) : Prop where
  key : Protocol.id record.key = true
  sender : ∃ node, b.nodes[record.senderNodeId]? = some node
  revision_pos : 0 < record.revision
  revision_le : record.revision ≤ b.revision

/-- What holds of a task. -/
structure TaskOk (b : Brain) (key : String) (task : TaskRecord) : Prop where
  source : ∃ memberId, task.source.admission.payload = .task key memberId .draft ∧
    ∃ node, b.nodes[task.source.admission.senderNodeId]? = some node ∧ node.memberId = memberId
  brainId : task.source.admission.brainId = b.brainId
  revision_le : task.revision ≤ b.revision
  revision_lt : task.source.admission.revision < task.revision
  replay : ∃ record ∈ b.replays, record.senderNodeId = task.source.admission.senderNodeId ∧
    record.key = task.source.admission.key ∧
    record.revision = task.source.admission.revision + 1 ∧
    record.fingerprint = task.source.payloadHash

/-- What holds of the announcement of a node. -/
structure AnnouncementOk (b : Brain) (key : String) (node : NodeRecord) (message : Message) :
    Prop where
  payload : message.admission.payload = .node key node.memberId node.deviceId
  sender : message.admission.senderNodeId = key
  brainId : message.admission.brainId = b.brainId
  revision : message.admission.revision < node.revision

/-- What holds of the fields of a Brain besides its tables. -/
structure HeaderOk (b : Brain) : Prop where
  version : b.version = 1
  id : Protocol.id b.brainId = true
  revision_pos : 0 < b.revision
  revision_le : b.revision ≤ maxRevision
  clock : Protocol.timestamp b.clock.highWaterAt = true
  credentials_brainId : b.credentials.brainId = b.brainId
  invitations_brainId : b.invitations.brainId = b.brainId
  credentials_clock : b.credentials.clock.highWaterAt ≤ b.clock.highWaterAt
  invitations_clock : b.invitations.clock.highWaterAt ≤ b.clock.highWaterAt

/-- **A valid Brain.** -/
structure Valid (b : Brain) : Prop extends b.HeaderOk where
  members_size : b.members.size ≤ 64
  nodes_size : b.nodes.size ≤ 64
  owner : ∃ member, b.members[b.ownerMemberId]? = some member ∧ member.revoked = false
  count : b.credentials.records.size = b.nodes.size
  member : ∀ (key : String) member, b.members[key]? = some member → b.MemberOk key member
  binding : ∀ (key : String) record, b.credentials.records[key]? = some record →
    ∃ node member, b.BindingOk record.binding node member
  tasks_size : b.tasks.size ≤ maxTasks
  replays_length : b.replays.length ≤ maxReplays
  replay : ∀ record ∈ b.replays, b.ReplayOk record
  replay_keys : (b.replays.map fun record => (record.senderNodeId, record.key)).Nodup
  replay_revisions : (b.replays.map ReplayRecord.revision).Nodup
  task : ∀ (key : String) task, b.tasks[key]? = some task → b.TaskOk key task
  announcement : ∀ (key : String) node message, b.nodes[key]? = some node →
    node.announcement = some message → b.AnnouncementOk key node message

/-! ### The check says what the structure says -/

theorem memberValid_iff {member : MemberRecord} :
    b.memberValid key member = true ↔ b.MemberOk key member := by
  have hbound : (b.credentials.bindings.any fun binding => binding.memberId == key) = true ↔
      ∃ (k : String) (record : StoredCredential), b.credentials.records[k]? = some record ∧
        record.binding.memberId = key := by
    simp only [CredentialRegistry.bindings, List.any_map, List.any_eq_true, Prod.exists,
      StrMap.mem_toList, Function.comp, beq_iff_eq]
  simp only [memberValid, Bool.and_eq_true, bne_iff_ne, decide_eq_true_eq, beq_iff_eq, hbound,
    and_assoc]
  constructor
  · rintro ⟨h1, h2, h3, h4, h5, h6, h7⟩
    exact ⟨h1, h2, h3, Nat.pos_of_ne_zero h4, h5, h6, h7⟩
  · rintro ⟨h1, h2, h3, h4, h5, h6, h7⟩
    exact ⟨h1, h2, h3, Nat.ne_of_gt h4, h5, h6, h7⟩

theorem bindingValid_iff {binding : CredentialBinding} :
    b.bindingValid binding = true ↔ ∃ node member, b.BindingOk binding node member := by
  unfold bindingValid
  constructor
  · intro h
    split at h
    · next node member hnode hmember =>
      simp only [Bool.and_eq_true, beq_iff_eq, bne_iff_ne, decide_eq_true_eq, Bool.not_eq_true',
        Bool.and_eq_false_iff, Option.all_eq_true, Option.isNone_eq_false_iff] at h
      obtain ⟨⟨⟨⟨⟨⟨h1, h2⟩, h3⟩, h4⟩, h5⟩, h6⟩, h7⟩ := h
      refine ⟨node, member, hnode, hmember, h1, h2, Nat.pos_of_ne_zero h3, h4, fun hr => ?_,
        fun ho hnone => ?_, h7⟩
      · exact h5.resolve_left (by simp [hr])
      · rw [ho, hnone] at h6
        simp at h6
    · cases h
  · rintro ⟨node, member, h⟩
    simp only [h.hasNode, h.hasMember]
    have hrevoked : (member.revoked && node.online) = false := by
      cases hr : member.revoked with
      | false => rfl
      | true => rw [h.revoked hr]; rfl
    have honline : (node.online && node.lastSeenAt.isNone) = false := by
      cases ho : node.online with
      | false => rfl
      | true =>
        have := h.online ho
        cases hs : node.lastSeenAt with
        | none => exact absurd hs this
        | some seen => rfl
    simp only [hrevoked, honline, Bool.and_eq_true, beq_iff_eq, bne_iff_ne, decide_eq_true_eq,
      Option.all_eq_true, Bool.not_false, and_true]
    exact ⟨⟨⟨⟨h.memberId, h.deviceId⟩, Nat.ne_of_gt h.revision_pos⟩, h.revision_le⟩, h.seen⟩

/-- The loop over the remembered messages checks each one, and that no key and no
revision comes twice. -/
theorem replaysValid_iff {l : List ReplayRecord} {keys : List (String × String)}
    {revisions : List ℕ} :
    replaysValid b l keys revisions = true ↔
      (∀ record ∈ l, b.ReplayOk record ∧ (record.senderNodeId, record.key) ∉ keys ∧
        record.revision ∉ revisions) ∧
      (l.map fun record => (record.senderNodeId, record.key)).Nodup ∧
      (l.map ReplayRecord.revision).Nodup := by
  induction l generalizing keys revisions with
  | nil => simp [replaysValid]
  | cons record l ih =>
    have hone : (Protocol.id record.key && b.nodes.contains record.senderNodeId &&
        record.revision != 0 && record.revision ≤ b.revision) = true ↔ b.ReplayOk record := by
      simp only [Bool.and_eq_true, bne_iff_ne, decide_eq_true_eq, StrMap.contains_eq_true]
      constructor
      · rintro ⟨⟨⟨h1, h2⟩, h3⟩, h4⟩
        exact ⟨h1, h2, Nat.pos_of_ne_zero h3, h4⟩
      · rintro ⟨h1, h2, h3, h4⟩
        exact ⟨⟨⟨h1, h2⟩, Nat.ne_of_gt h3⟩, h4⟩
    rw [replaysValid, Bool.and_eq_true, Bool.and_eq_true, Bool.and_eq_true, hone, ih,
      List.forall_mem_cons]
    simp only [Bool.not_eq_true', List.contains_eq_mem, decide_eq_false_iff_not, List.mem_cons,
      not_or, List.map_cons, List.nodup_cons, List.mem_map, not_exists, not_and]
    constructor
    · rintro ⟨⟨⟨h1, h2⟩, h3⟩, hrest, hkeys, hrevisions⟩
      exact ⟨⟨⟨h1, h2, h3⟩, fun r hr => ⟨(hrest r hr).1, (hrest r hr).2.1.2, (hrest r hr).2.2.2⟩⟩,
        ⟨fun r hr => (hrest r hr).2.1.1, hkeys⟩, fun r hr => (hrest r hr).2.2.1, hrevisions⟩
    · rintro ⟨⟨⟨h1, h2, h3⟩, hrest⟩, ⟨hkey, hkeys⟩, hrevision, hrevisions⟩
      exact ⟨⟨⟨h1, h2⟩, h3⟩, fun r hr => ⟨(hrest r hr).1, ⟨hkey r hr, (hrest r hr).2.1⟩,
        hrevision r hr, (hrest r hr).2.2⟩, hkeys, hrevisions⟩

theorem taskValid_iff {task : TaskRecord} : b.taskValid key task = true ↔ b.TaskOk key task := by
  simp only [taskValid]
  constructor
  · intro h
    split at h
    · next taskId memberId status hpayload =>
      simp only [Bool.and_eq_true, beq_iff_eq, decide_eq_true_eq, Option.any_eq_true,
        List.any_eq_true, and_assoc] at h
      obtain ⟨rfl, rfl, hbrain, hle, hlt, hnode, record, hrecord, h1, h2, h3, h4⟩ := h
      exact ⟨⟨memberId, hpayload, hnode⟩, hbrain, hle, hlt, record, hrecord, h1, h2, h3, h4.symm⟩
    · cases h
  · rintro ⟨⟨memberId, hpayload, hnode⟩, hbrain, hle, hlt, record, hrecord, h1, h2, h3, h4⟩
    simp only [hpayload, Bool.and_eq_true, beq_iff_eq, decide_eq_true_eq, Option.any_eq_true,
      List.any_eq_true, and_assoc, true_and]
    exact ⟨hbrain, hle, hlt, hnode, record, hrecord, h1, h2, h3, h4.symm⟩

theorem announcementValid_iff {node : NodeRecord} :
    b.announcementValid key node = true ↔
      ∀ message, node.announcement = some message → b.AnnouncementOk key node message := by
  simp only [announcementValid]
  cases node.announcement with
  | none => simp
  | some message =>
    simp only [Option.some.injEq, forall_eq']
    constructor
    · intro h
      split at h
      · next nodeId memberId deviceId hpayload =>
        simp only [Bool.and_eq_true, beq_iff_eq, decide_eq_true_eq, and_assoc] at h
        obtain ⟨rfl, hsender, hbrain, rfl, rfl, hrevision⟩ := h
        exact ⟨hpayload, hsender, hbrain, hrevision⟩
      · cases h
    · rintro ⟨hpayload, hsender, hbrain, hrevision⟩
      simp only [hpayload, hsender, hbrain, beq_self_eq_true, Bool.and_true, Bool.true_and,
        decide_eq_true_eq]
      exact hrevision

theorem headerValid_iff :
    b.headerValid = true ↔
      b.version = 1 ∧ Protocol.id b.brainId = true ∧ 0 < b.revision ∧ b.revision ≤ maxRevision ∧
      Protocol.timestamp b.clock.highWaterAt = true ∧ b.credentials.brainId = b.brainId ∧
      b.invitations.brainId = b.brainId ∧
      b.credentials.clock.highWaterAt ≤ b.clock.highWaterAt ∧
      b.invitations.clock.highWaterAt ≤ b.clock.highWaterAt ∧ b.members.size ≤ 64 ∧
      b.nodes.size ≤ 64 ∧
      (∃ member, b.members[b.ownerMemberId]? = some member ∧ member.revoked = false) ∧
      b.credentials.records.size = b.nodes.size := by
  have hempty : (∃ member, b.members[b.ownerMemberId]? = some member ∧ member.revoked = false) →
      b.members.isEmpty = false := by
    rintro ⟨member, hmember, -⟩
    refine Bool.eq_false_iff.mpr fun h => ?_
    rw [Std.ExtTreeMap.isEmpty_iff.mp h] at hmember
    simp at hmember
  simp only [headerValid, CredentialRegistry.bindings, List.length_map,
    Std.ExtTreeMap.length_toList, Bool.and_eq_true, beq_iff_eq, bne_iff_ne, decide_eq_true_eq,
    Bool.not_eq_true', Option.any_eq_true, and_assoc, Nat.pos_iff_ne_zero]
  constructor
  · rintro ⟨h1, h2, h3, h4, h5, h6, h7, h8, h9, -, h10, h11, h12, h13⟩
    exact ⟨h1, h2, h3, h4, h5, h6, h7, h8, h9, h10, h11, h12, h13⟩
  · rintro ⟨h1, h2, h3, h4, h5, h6, h7, h8, h9, h10, h11, h12, h13⟩
    exact ⟨h1, h2, h3, h4, h5, h6, h7, h8, h9, hempty h12, h10, h11, h12, h13⟩

theorem validate_eq_ok_iff_checks :
    b.validate = .ok () ↔
      b.headerValid = true ∧ b.members.all b.memberValid = true ∧
      b.credentials.bindings.all b.bindingValid = true ∧ b.tasks.size ≤ maxTasks ∧
      b.replays.length ≤ maxReplays ∧ replaysValid b b.replays [] [] = true ∧
      b.tasks.all (taskValid b) = true ∧ b.nodes.all (announcementValid b) = true := by
  have hcapacity : (decide (maxTasks < b.tasks.size) || decide (maxReplays < b.replays.length)) =
      false ↔ b.tasks.size ≤ maxTasks ∧ b.replays.length ≤ maxReplays := by
    rw [Bool.or_eq_false_iff, decide_eq_false_iff_not, decide_eq_false_iff_not, Nat.not_lt,
      Nat.not_lt]
  rw [← and_assoc (a := b.tasks.size ≤ maxTasks), ← hcapacity]
  simp only [validate, validateTasksAndReplays]
  generalize b.credentials.bindings.all b.bindingValid = bindings
  split_ifs <;> simp_all

/-- **The check passes exactly on the valid Brains.** -/
theorem validate_eq_ok : b.validate = .ok () ↔ b.Valid := by
  have hbindings : b.credentials.bindings.all b.bindingValid = true ↔
      ∀ (key : String) record, b.credentials.records[key]? = some record →
        ∃ node member, b.BindingOk record.binding node member := by
    simp only [CredentialRegistry.bindings, List.all_map, List.all_eq_true, Prod.forall,
      StrMap.mem_toList, Function.comp, bindingValid_iff]
  have hreplays : replaysValid b b.replays [] [] = true ↔
      (∀ record ∈ b.replays, b.ReplayOk record) ∧
      (b.replays.map fun record => (record.senderNodeId, record.key)).Nodup ∧
      (b.replays.map ReplayRecord.revision).Nodup := by
    simp [replaysValid_iff]
  rw [validate_eq_ok_iff_checks, headerValid_iff, hbindings, hreplays]
  simp only [StrMap.all_eq_true, memberValid_iff, taskValid_iff, announcementValid_iff, and_assoc]
  constructor
  · rintro ⟨h1, h2, h3, h4, h5, h6, h7, h8, h9, h10, h11, h12, h13, h14, h15, h16, h17, h18, h19,
      h20, h21, h22⟩
    exact ⟨⟨h1, h2, h3, h4, h5, h6, h7, h8, h9⟩, h10, h11, h12, h13, h14, h15, h16, h17, h18, h19,
      h20, h21, fun key node message hnode => h22 key node hnode message⟩
  · intro h
    exact ⟨h.version, h.id, h.revision_pos, h.revision_le, h.clock, h.credentials_brainId,
      h.invitations_brainId, h.credentials_clock, h.invitations_clock, h.members_size,
      h.nodes_size, h.owner, h.count, h.member, h.binding, h.tasks_size, h.replays_length,
      h.replay, h.replay_keys, h.replay_revisions, h.task,
      fun key node hnode message => h.announcement key node message hnode⟩

end Brain

end Rivloom.Collaboration
