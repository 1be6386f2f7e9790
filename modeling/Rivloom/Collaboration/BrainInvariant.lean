import Rivloom.Collaboration.BrainValid

/-!
# Validity is inductive

Every operation that returns turns a Brain that would be accepted from a snapshot into
one that would be accepted again. The operations change several tables at once – a member
that is revoked loses its credentials and its nodes go offline – and it is convenient to
take such a change apart: first the revision goes up, which every condition survives
(`Rivloom.Collaboration.Brain.Valid.bump`), and then the tables change one by one, each
under the conditions that its table has to meet. The lemmas `Valid.withNodes`,
`Valid.withTasks`, `Valid.withReplay` and `Valid.withRevoked` are these steps; a member
that is enrolled is the one change that adds to three tables at once, and it is done in
one go.

Two facts carry the argument. The nodes are exactly the nodes of the credentials, because
each credential has its node and there are as many of one as of the other
(`Rivloom.Collaboration.Brain.Valid.credential_of_node`); so a node id without a
credential is free. And the credentials of a member are revoked together, so an active
one shows that its member is not revoked.
-/

namespace Rivloom.Collaboration

open CredentialRegistry (isRevoked isRevoked_eq_true tryFrom)
open StrMap (getElem?_insert getElem?_update size_eq_of_keys size_insert_of_none)

variable {binding : CredentialBinding} {key : String} {node : NodeRecord}
  {registry : InvitationRegistry} {secret : SecretToken} {now : ℤ} {clock clock' : Clock}
  {pending : StrMap PendingInvitation} {nodes : StrMap NodeRecord} {message : Message}

/-! ### Clocks -/

theorem Clock.Ticks.le (h : clock.Ticks now clock') : clock.highWaterAt ≤ clock'.highWaterAt := by
  rcases h with rfl | ⟨haccepts, rfl⟩
  · exact le_refl _
  · exact haccepts.2

theorem Clock.Ticks.timestamp (h : clock.Ticks now clock')
    (hclock : Protocol.timestamp clock.highWaterAt = true) :
    Protocol.timestamp clock'.highWaterAt = true := by
  rcases h with rfl | ⟨haccepts, rfl⟩
  · exact hclock
  · exact haccepts.1

/-- A clock that may have observed the time is not past it, if it was not before. -/
theorem Clock.Ticks.le_now {now bound : ℤ} (h : clock.Ticks now clock')
    (hclock : clock.highWaterAt ≤ bound) (hbound : bound ≤ now) : clock'.highWaterAt ≤ now := by
  rcases h with rfl | ⟨-, rfl⟩
  · exact hclock.trans hbound
  · exact le_refl _

theorem CredentialRegistry.Accepted.of_ticks {registry : CredentialRegistry} (h : registry.Accepted)
    (hclock : registry.clock.Ticks now clock) :
    CredentialRegistry.Accepted { registry with clock } := by
  refine ⟨h.id, hclock.timestamp h.clock, fun key record hrecord => ?_, h.agree⟩
  obtain ⟨h1, h2, h3, h4, h5, h6, h7⟩ := recordValid_iff.mp (h.record key record hrecord)
  exact recordValid_iff.mpr ⟨h1, h2, h3, h4, h5.trans hclock.le, h6, h7⟩

theorem InvitationRegistry.Accepted.of_ticks (h : registry.Accepted)
    (hclock : registry.clock.Ticks now clock) :
    InvitationRegistry.Accepted { registry with clock } := by
  refine ⟨h.id, hclock.timestamp h.clock, fun key invitation hpending => ?_⟩
  obtain ⟨h1, h2, h3, h4, h5⟩ := invitationValid_iff.mp (h.invitation key invitation hpending)
  exact invitationValid_iff.mpr ⟨h1, h2, h3.trans hclock.le, h4, h5⟩

namespace Brain

variable {b : Brain} {now : ℤ} {b' : Brain} {member : MemberRecord}
  {credentials invitations : Clock} {record : ReplayRecord} {task : TaskRecord} {memberId : String}

/-- **A Brain that is accepted from a snapshot**: it passes its own check, and its
registries pass theirs. -/
structure Accepted (b : Brain) : Prop where
  valid : b.Valid
  credentials : b.credentials.Accepted
  invitations : b.invitations.Accepted

/-! ### What the conditions on single records depend on -/

/-- A later state of a Brain, as far as the messages that it remembers and took tasks from
are concerned: nodes stay with their members, and nothing is forgotten. -/
structure Keeps (b b' : Brain) : Prop where
  brainId : b'.brainId = b.brainId
  revision : b.revision ≤ b'.revision
  node : ∀ (key : String) node, b.nodes[key]? = some node →
    ∃ node', b'.nodes[key]? = some node' ∧ node'.memberId = node.memberId
  replay : b.replays ⊆ b'.replays

theorem ReplayOk.mono (h : b.ReplayOk record) (hkeeps : b.Keeps b') : b'.ReplayOk record := by
  obtain ⟨node, hnode⟩ := h.sender
  obtain ⟨node', hnode', -⟩ := hkeeps.node _ node hnode
  exact ⟨h.key, ⟨node', hnode'⟩, h.revision_pos, h.revision_le.trans hkeeps.revision⟩

theorem TaskOk.mono (h : b.TaskOk key task) (hkeeps : b.Keeps b') : b'.TaskOk key task := by
  obtain ⟨memberId, hpayload, node, hnode, hmember⟩ := h.source
  obtain ⟨node', hnode', hmember'⟩ := hkeeps.node _ node hnode
  obtain ⟨record, hrecord, hfound⟩ := h.replay
  exact ⟨⟨memberId, hpayload, node', hnode', hmember'.trans hmember⟩,
    h.brainId.trans hkeeps.brainId.symm, h.revision_le.trans hkeeps.revision, h.revision_lt,
    record, hkeeps.replay hrecord, hfound⟩

theorem MemberOk.mono (h : b.MemberOk key member) (hrevision : b.revision ≤ b'.revision)
    (hrecords : b'.credentials.records = b.credentials.records) : b'.MemberOk key member := by
  have hrevoked : b'.credentials.isRevoked key = b.credentials.isRevoked key := by
    rw [isRevoked, hrecords, isRevoked]
  exact ⟨h.id, h.identityId, h.displayName, h.revision_pos, h.revision_le.trans hrevision,
    hrecords ▸ h.bound, h.revoked.trans hrevoked.symm⟩

theorem BindingOk.mono (h : b.BindingOk binding node member) (hrevision : b.revision ≤ b'.revision)
    (hclock : b.clock.highWaterAt ≤ b'.clock.highWaterAt)
    (hnode : b'.nodes[binding.nodeId]? = some node)
    (hmember : b'.members[binding.memberId]? = some member) : b'.BindingOk binding node member :=
  ⟨hnode, hmember, h.memberId, h.deviceId, h.revision_pos, h.revision_le.trans hrevision, h.revoked,
    h.online, fun seen hseen => ⟨(h.seen seen hseen).1, (h.seen seen hseen).2.trans hclock⟩⟩

theorem AnnouncementOk.mono {node node' : NodeRecord} (h : b.AnnouncementOk key node message)
    (hbrain : b'.brainId = b.brainId) (hmember : node'.memberId = node.memberId)
    (hdevice : node'.deviceId = node.deviceId) (hrevision : node.revision ≤ node'.revision) :
    b'.AnnouncementOk key node' message :=
  ⟨by rw [h.payload, hmember, hdevice], h.sender, h.brainId.trans hbrain.symm,
    h.revision.trans_le hrevision⟩

/-! ### Clocks, the revision and the invitations -/

/-- **The revision and the clocks may go up**, and the invitations may change: the
conditions on everything else survive. -/
theorem Valid.frame (h : b.Valid) {revision : ℕ} (hrevision : b.revision ≤ revision)
    (hmax : revision ≤ maxRevision) (hclock : Protocol.timestamp clock.highWaterAt = true)
    (hle : b.clock.highWaterAt ≤ clock.highWaterAt)
    (hc : credentials.highWaterAt ≤ clock.highWaterAt)
    (hi : invitations.highWaterAt ≤ clock.highWaterAt) :
    Valid { b with
      revision, clock
      credentials := { b.credentials with clock := credentials }
      invitations := { b.invitations with clock := invitations, pending } } := by
  have hkeeps : Keeps b { b with
      revision, clock
      credentials := { b.credentials with clock := credentials }
      invitations := { b.invitations with clock := invitations, pending } } :=
    ⟨rfl, hrevision, fun _ node hnode => ⟨node, hnode, rfl⟩, List.Subset.refl _⟩
  exact
    { h with
      revision_pos := h.revision_pos.trans_le hrevision
      revision_le := hmax
      clock := hclock
      credentials_clock := hc
      invitations_clock := hi
      member := fun key member hmember => (h.member key member hmember).mono hrevision rfl
      binding := fun key record hrecord => by
        obtain ⟨node, member, hok⟩ := h.binding key record hrecord
        exact ⟨node, member, hok.mono hrevision hle hok.hasNode hok.hasMember⟩
      replay := fun record hrecord => (h.replay record hrecord).mono hkeeps
      task := fun key task htask => (h.task key task htask).mono hkeeps
      announcement := fun key node message hnode hmessage =>
        (h.announcement key node message hnode hmessage).mono rfl rfl rfl (le_refl _) }

theorem Valid.withClocks (h : b.Valid) (hclock : b.clock.Accepts now)
    (hc : b.credentials.clock.Ticks now credentials)
    (hi : b.invitations.clock.Ticks now invitations) :
    (b.withClocks ⟨now⟩ credentials invitations).Valid :=
  h.frame (le_refl _) h.revision_le hclock.1 hclock.2 (hc.le_now h.credentials_clock hclock.2)
    (hi.le_now h.invitations_clock hclock.2)

/-- The next revision, with nothing changed at it and the invitations as they may be. -/
theorem Valid.bump (h : b.Valid) (hrevision : b.revision < maxRevision)
    (pending : StrMap PendingInvitation) :
    Valid { b with revision := b.revision + 1, invitations := { b.invitations with pending } } :=
  h.frame (Nat.le_succ _) hrevision h.clock (le_refl _) h.credentials_clock h.invitations_clock

theorem Accepted.withClocks (h : b.Accepted) (hclock : b.clock.Accepts now)
    (hc : b.credentials.clock.Ticks now credentials)
    (hi : b.invitations.clock.Ticks now invitations) :
    (b.withClocks ⟨now⟩ credentials invitations).Accepted :=
  ⟨h.valid.withClocks hclock hc hi, h.credentials.of_ticks hc, h.invitations.of_ticks hi⟩

/-! ### Nodes -/

theorem Valid.credential_of_node (h : b.Valid) (hcredentials : b.credentials.Accepted)
    (hnode : b.nodes[key]? = some node) :
    ∃ record member, b.credentials.records[key]? = some record ∧ record.binding.nodeId = key ∧
      b.BindingOk record.binding node member := by
  have hkey : ∀ (key : String) record, b.credentials.records[key]? = some record →
      key = record.binding.nodeId := fun key record hrecord =>
    (CredentialRegistry.recordValid_iff.mp (hcredentials.record key record hrecord)).2.2.1
  have hsub : ∀ (key : String) record, b.credentials.records[key]? = some record →
      ∃ node, b.nodes[key]? = some node := by
    intro key record hrecord
    obtain ⟨node, member, hok⟩ := h.binding key record hrecord
    exact ⟨node, by rw [hkey key record hrecord]; exact hok.hasNode⟩
  obtain ⟨record, hrecord⟩ := StrMap.exists_of_size_le hsub h.count.ge hnode
  obtain ⟨node', member, hok⟩ := h.binding key record hrecord
  have hnode' := hok.hasNode
  rw [← hkey key record hrecord, hnode] at hnode'
  obtain rfl := Option.some.inj hnode'
  exact ⟨record, member, hrecord, (hkey key record hrecord).symm, hok⟩

/-- What a node may become. -/
structure NodeFits (b : Brain) (key : String) (node node' : NodeRecord) : Prop where
  memberId : node'.memberId = node.memberId
  deviceId : node'.deviceId = node.deviceId
  revision_pos : 0 < node'.revision
  revision_le : node'.revision ≤ b.revision
  revoked : ∀ member, b.members[node.memberId]? = some member → member.revoked = true →
    node'.online = false
  online : node'.online = true → node'.lastSeenAt ≠ none
  seen : ∀ seen, node'.lastSeenAt = some seen →
    Protocol.timestamp seen = true ∧ seen ≤ b.clock.highWaterAt
  announcement : ∀ message, node'.announcement = some message →
    b.AnnouncementOk key node' message

theorem Valid.nodeFits_self (h : b.Valid) (hcredentials : b.credentials.Accepted)
    (hnode : b.nodes[key]? = some node) : b.NodeFits key node node := by
  obtain ⟨record, member, -, -, hok⟩ := h.credential_of_node hcredentials hnode
  refine ⟨rfl, rfl, hok.revision_pos, hok.revision_le, fun member' hmember' => ?_, hok.online,
    hok.seen, fun message => h.announcement key node message hnode⟩
  rw [hok.memberId, hok.hasMember] at hmember'
  obtain rfl := Option.some.inj hmember'
  exact hok.revoked

theorem NodeFits.offline (h : b.NodeFits key node node) (hpos : 0 < b.revision) :
    b.NodeFits key node { node with online := false, revision := b.revision } :=
  ⟨rfl, rfl, hpos, le_refl _, fun _ _ _ => rfl, fun honline => (by cases honline), h.seen,
    fun message hmessage => (h.announcement message hmessage).mono rfl rfl rfl h.revision_le⟩

/-- **Nodes may change** where each becomes what it may become. -/
theorem Valid.withNodes (h : b.Valid)
    (hsame : ∀ key : String, nodes[key]?.isSome = b.nodes[key]?.isSome)
    (hfits : ∀ (key : String) node node', b.nodes[key]? = some node → nodes[key]? = some node' →
      b.NodeFits key node node') : Valid { b with nodes } := by
  have hnext : ∀ (key : String) node, b.nodes[key]? = some node →
      ∃ node', nodes[key]? = some node' ∧ b.NodeFits key node node' := by
    intro key node hnode
    have hsome := hsame key
    rw [hnode, Option.isSome_some, Option.isSome_iff_exists] at hsome
    obtain ⟨node', hnode'⟩ := hsome
    exact ⟨node', hnode', hfits key node node' hnode hnode'⟩
  have hkeeps : Keeps b { b with nodes } := by
    refine ⟨rfl, le_refl _, fun key node hnode => ?_, List.Subset.refl _⟩
    obtain ⟨node', hnode', hfit⟩ := hnext key node hnode
    exact ⟨node', hnode', hfit.memberId⟩
  have hsize : nodes.size = b.nodes.size := size_eq_of_keys hsame
  exact
    { h with
      nodes_size := hsize.trans_le h.nodes_size
      count := h.count.trans hsize.symm
      member := fun key member hmember => (h.member key member hmember).mono (le_refl _) rfl
      binding := fun key record hrecord => by
        obtain ⟨node, member, hok⟩ := h.binding key record hrecord
        obtain ⟨node', hnode', hfit⟩ := hnext _ node hok.hasNode
        refine ⟨node', member, hnode', hok.hasMember, hfit.memberId.trans hok.memberId,
          hfit.deviceId.trans hok.deviceId, hfit.revision_pos, hfit.revision_le,
          hfit.revoked member ?_, hfit.online, hfit.seen⟩
        rw [hok.memberId]
        exact hok.hasMember
      replay := fun record hrecord => (h.replay record hrecord).mono hkeeps
      task := fun key task htask => (h.task key task htask).mono hkeeps
      announcement := fun key node' message hnode' hmessage => by
        have hsome := hsame key
        rw [show nodes[key]? = some node' from hnode', Option.isSome_some, eq_comm,
          Option.isSome_iff_exists] at hsome
        obtain ⟨node, hnode⟩ := hsome
        have hok := (hfits key node node' hnode hnode').announcement message hmessage
        exact hok.mono rfl rfl rfl (le_refl _) }

theorem Valid.withNode (h : b.Valid) (hcredentials : b.credentials.Accepted)
    {node node' : NodeRecord} (hnode : b.nodes[key]? = some node)
    (hfits : b.NodeFits key node node') : Valid { b with nodes := b.nodes.insert key node' } := by
  refine h.withNodes (fun k => ?_) fun k node₁ node₁' hnode₁ hnode₁' => ?_
  · rw [getElem?_insert]
    split
    · next hk => rw [← hk, hnode]; rfl
    · rfl
  · rw [getElem?_insert] at hnode₁'
    split at hnode₁'
    · next hk =>
      subst hk
      rw [hnode] at hnode₁
      rw [← Option.some.inj hnode₁, ← Option.some.inj hnode₁']
      exact hfits
    · rw [hnode₁] at hnode₁'
      rw [← Option.some.inj hnode₁']
      exact h.nodeFits_self hcredentials hnode₁

theorem Valid.withOffline (h : b.Valid) (hcredentials : b.credentials.Accepted)
    (p : NodeRecord → Bool) :
    Valid { b with
      nodes := b.nodes.update p fun node =>
        { node with online := false, revision := b.revision } } := by
  refine h.withNodes (fun key => ?_) fun key node node' hnode hnode' => ?_
  · rw [getElem?_update, Option.isSome_map]
  · have hself := h.nodeFits_self hcredentials hnode
    rw [getElem?_update, hnode, Option.map_some] at hnode'
    rw [← Option.some.inj hnode']
    split
    · exact hself.offline h.revision_pos
    · exact hself

/-! ### Messages and tasks -/

/-- **A message may be remembered** under a new key and at a new revision. -/
theorem Valid.withReplay (h : b.Valid) (hok : b.ReplayOk record)
    (hroom : b.replays.length < maxReplays)
    (hkey : b.findReplay record.senderNodeId record.key = none)
    (hrevision : ∀ record' ∈ b.replays, record'.revision < record.revision) :
    Valid { b with replays := b.replays ++ [record] } := by
  have hkeeps : Keeps b { b with replays := b.replays ++ [record] } :=
    ⟨rfl, le_refl _, fun _ node hnode => ⟨node, hnode, rfl⟩, List.subset_append_left _ _⟩
  have hfresh : ∀ record' ∈ b.replays,
      (record'.senderNodeId, record'.key) ≠ (record.senderNodeId, record.key) := by
    intro record' hrecord' heq
    rw [findReplay, List.find?_eq_none] at hkey
    simp only [Prod.mk.injEq] at heq
    exact hkey record' hrecord' (by simp [heq.1, heq.2])
  exact
    { h with
      member := fun key member hmember => (h.member key member hmember).mono (le_refl _) rfl
      binding := fun key record hrecord => by
        obtain ⟨node, member, hok⟩ := h.binding key record hrecord
        exact ⟨node, member, hok.mono (le_refl _) (le_refl _) hok.hasNode hok.hasMember⟩
      replays_length := by
        rw [List.length_append]
        exact hroom
      replay := fun record' hrecord' => by
        rcases List.mem_append.mp hrecord' with hold | hnew
        · exact (h.replay record' hold).mono hkeeps
        · rw [List.mem_singleton.mp hnew]
          exact hok.mono hkeeps
      replay_keys := by
        rw [List.map_append, List.nodup_append]
        refine ⟨h.replay_keys, List.nodup_singleton _, fun k hk k' hk' => ?_⟩
        obtain ⟨record', hrecord', rfl⟩ := List.mem_map.mp hk
        rw [List.mem_singleton.mp hk']
        exact hfresh record' hrecord'
      replay_revisions := by
        rw [List.map_append, List.nodup_append]
        refine ⟨h.replay_revisions, List.nodup_singleton _, fun r hr r' hr' => ?_⟩
        obtain ⟨record', hrecord', rfl⟩ := List.mem_map.mp hr
        rw [List.mem_singleton.mp hr']
        exact Nat.ne_of_lt (hrevision record' hrecord')
      task := fun key task htask => (h.task key task htask).mono hkeeps
      announcement := fun key node message hnode hmessage =>
        (h.announcement key node message hnode hmessage).mono rfl rfl rfl (le_refl _) }

/-- **A task may be added or changed** where it meets the conditions. -/
theorem Valid.withTask (h : b.Valid) (hok : b.TaskOk key task)
    (hroom : (b.tasks.insert key task).size ≤ maxTasks) :
    Valid { b with tasks := b.tasks.insert key task } := by
  have hkeeps : Keeps b { b with tasks := b.tasks.insert key task } :=
    ⟨rfl, le_refl _, fun _ node hnode => ⟨node, hnode, rfl⟩, List.Subset.refl _⟩
  exact
    { h with
      member := fun key member hmember => (h.member key member hmember).mono (le_refl _) rfl
      binding := fun key record hrecord => by
        obtain ⟨node, member, hok⟩ := h.binding key record hrecord
        exact ⟨node, member, hok.mono (le_refl _) (le_refl _) hok.hasNode hok.hasMember⟩
      tasks_size := hroom
      replay := fun record hrecord => (h.replay record hrecord).mono hkeeps
      task := fun key' task' htask' => by
        rw [getElem?_insert] at htask'
        split at htask'
        · next hkey =>
          rw [← hkey, ← Option.some.inj htask']
          exact hok.mono hkeeps
        · exact (h.task key' task' htask').mono hkeeps
      announcement := fun key node message hnode hmessage =>
        (h.announcement key node message hnode hmessage).mono rfl rfl rfl (le_refl _) }

/-! ### Revoking a member -/

/-- The credentials of a member are revoked. -/
def revokedRecords (b : Brain) (memberId : String) : StrMap StoredCredential :=
  b.credentials.records.update (fun record => record.binding.memberId == memberId)
    fun record => { record with revoked := true }

theorem getElem?_revokedRecords {memberId key : String} {record' : StoredCredential} :
    (b.revokedRecords memberId)[key]? = some record' ↔
      ∃ record, b.credentials.records[key]? = some record ∧
        record' = { record with
          revoked := record.binding.memberId == memberId || record.revoked } := by
  rw [revokedRecords, getElem?_update, Option.map_eq_some_iff]
  refine exists_congr fun record => and_congr_right fun _ => ?_
  rw [eq_comm]
  by_cases hmember : record.binding.memberId = memberId
  · simp [hmember]
  · simp [beq_false_of_ne hmember]

theorem isRevoked_revokedRecords
    (hbound : ∃ (key : String) (record : StoredCredential),
      b.credentials.records[key]? = some record ∧ record.binding.memberId = memberId) (key : String)
    :
    isRevoked { b.credentials with records := b.revokedRecords memberId } key =
      (key == memberId || b.credentials.isRevoked key) := by
  rw [Bool.eq_iff_iff, isRevoked_eq_true, Bool.or_eq_true, beq_iff_eq, isRevoked_eq_true]
  constructor
  · rintro ⟨k, record', hrecord', rfl, hrevoked⟩
    obtain ⟨record, hrecord, rfl⟩ := getElem?_revokedRecords.mp hrecord'
    rcases Bool.or_eq_true _ _ ▸ hrevoked with hmember | hold
    · exact Or.inl (beq_iff_eq.mp hmember)
    · exact Or.inr ⟨k, record, hrecord, rfl, hold⟩
  · rintro (rfl | ⟨k, record, hrecord, hmember, hrevoked⟩)
    · obtain ⟨k, record, hrecord, hmember⟩ := hbound
      exact ⟨k, _, getElem?_revokedRecords.mpr ⟨record, hrecord, rfl⟩, hmember, by simp [hmember]⟩
    · exact ⟨k, _, getElem?_revokedRecords.mpr ⟨record, hrecord, rfl⟩, hmember, by simp [hrevoked]⟩

/-- **A member may be revoked** once its nodes are offline, if it is not the owner. -/
theorem Valid.withRevoked (h : b.Valid) (hmember : b.members[memberId]? = some member)
    (howner : memberId ≠ b.ownerMemberId)
    (hoffline : ∀ (key : String) node, b.nodes[key]? = some node → node.memberId = memberId →
      node.online = false) :
    Valid { b with
      credentials := { b.credentials with records := b.revokedRecords memberId }
      members := b.members.insert memberId
        { member with revoked := true, revision := b.revision } } := by
  have hself := h.member memberId member hmember
  have hkeeps : Keeps b { b with
      credentials := { b.credentials with records := b.revokedRecords memberId }
      members := b.members.insert memberId
        { member with revoked := true, revision := b.revision } } :=
    ⟨rfl, le_refl _, fun _ node hnode => ⟨node, hnode, rfl⟩, List.Subset.refl _⟩
  have hbound : ∀ key : String, (∃ (k : String) (record : StoredCredential),
      b.credentials.records[k]? = some record ∧ record.binding.memberId = key) →
      ∃ (k : String) (record : StoredCredential),
        (b.revokedRecords memberId)[k]? = some record ∧ record.binding.memberId = key :=
    fun key ⟨k, record, hrecord, hkey⟩ =>
      ⟨k, _, getElem?_revokedRecords.mpr ⟨record, hrecord, rfl⟩, hkey⟩
  exact
    { h with
      members_size := by
        have hsize : (b.members.insert memberId
            { member with revoked := true, revision := b.revision }).size = b.members.size := by
          refine size_eq_of_keys fun k => ?_
          rw [getElem?_insert]
          split
          · next hk => rw [← hk, hmember]; rfl
          · rfl
        exact hsize.trans_le h.members_size
      owner := by
        obtain ⟨owner, hfound, hunrevoked⟩ := h.owner
        refine ⟨owner, ?_, hunrevoked⟩
        rw [getElem?_insert, if_neg howner]
        exact hfound
      count := StrMap.size_update.trans h.count
      member := fun key member' hmember' => by
        rw [getElem?_insert] at hmember'
        split at hmember'
        · next hkey =>
          subst hkey
          rw [← Option.some.inj hmember']
          exact ⟨hself.id, hself.identityId, hself.displayName, h.revision_pos, le_refl _,
            hbound _ hself.bound, by rw [isRevoked_revokedRecords hself.bound]; simp⟩
        · next hkey =>
          have hok := h.member key member' hmember'
          refine ⟨hok.id, hok.identityId, hok.displayName, hok.revision_pos, hok.revision_le,
            hbound _ hok.bound, ?_⟩
          rw [isRevoked_revokedRecords hself.bound, hok.revoked, beq_false_of_ne (Ne.symm hkey),
            Bool.false_or]
      binding := fun key record' hrecord' => by
        obtain ⟨record, hrecord, rfl⟩ := getElem?_revokedRecords.mp hrecord'
        obtain ⟨node, member', hok⟩ := h.binding key record hrecord
        by_cases hbinding : record.binding.memberId = memberId
        · refine ⟨node, { member with revoked := true, revision := b.revision }, hok.hasNode, ?_,
            hok.memberId, hok.deviceId, hok.revision_pos, hok.revision_le,
            fun _ => hoffline _ node hok.hasNode (hok.memberId.trans hbinding),
              hok.online, hok.seen⟩
          rw [getElem?_insert, if_pos hbinding.symm]
        · refine ⟨node, member', hok.mono (le_refl _) (le_refl _) hok.hasNode ?_⟩
          rw [getElem?_insert, if_neg (Ne.symm hbinding)]
          exact hok.hasMember
      replay := fun record hrecord => (h.replay record hrecord).mono hkeeps
      task := fun key task htask => (h.task key task htask).mono hkeeps
      announcement := fun key node message hnode hmessage =>
        (h.announcement key node message hnode hmessage).mono rfl rfl rfl (le_refl _) }

theorem credentials_accepted_revokedRecords (h : b.credentials.Accepted) (memberId : String) :
    CredentialRegistry.Accepted { b.credentials with records := b.revokedRecords memberId } := by
  refine ⟨h.id, h.clock, fun key record' hrecord' => ?_,
    fun key key' record record' hr hr' heq => ?_⟩
  · obtain ⟨record, hrecord, rfl⟩ := getElem?_revokedRecords.mp hrecord'
    exact h.record key record hrecord
  · obtain ⟨old, hold, rfl⟩ := getElem?_revokedRecords.mp hr
    obtain ⟨old', hold', rfl⟩ := getElem?_revokedRecords.mp hr'
    have hflag := h.agree key key' old old' hold hold' heq
    simp only at heq ⊢
    rw [heq, hflag]

/-! ### Enrolling a member -/

theorem getElem?_insert_of_fresh {records : StrMap StoredCredential} {nodeId key : String}
    {issued record : StoredCredential} (hfresh : records[nodeId]? = none) :
    (records.insert nodeId issued)[key]? = some record ↔
      (key = nodeId ∧ record = issued) ∨ records[key]? = some record := by
  rw [getElem?_insert]
  split
  · next hkey =>
    subst hkey
    simp [hfresh, eq_comm]
  · next hkey => simp [Ne.symm hkey]

theorem isRevoked_issue {registry : CredentialRegistry}
    (hfresh : registry.records[binding.nodeId]? = none) (key : String) :
    isRevoked { registry with
      records := registry.records.insert binding.nodeId
        (CredentialRegistry.issuedRecord binding secret now) } key = registry.isRevoked key := by
  rw [Bool.eq_iff_iff, isRevoked_eq_true, isRevoked_eq_true]
  simp only [getElem?_insert_of_fresh hfresh]
  constructor
  · rintro ⟨k, record, ⟨-, rfl⟩ | hrecord, hmember, hrevoked⟩
    · cases hrevoked
    · exact ⟨k, record, hrecord, hmember, hrevoked⟩
  · rintro ⟨k, record, hrecord, hmember, hrevoked⟩
    exact ⟨k, record, Or.inr hrecord, hmember, hrevoked⟩

/-- **A member may be enrolled** under a new id, with a credential for a new node. -/
theorem Valid.enrolled (h : b.Valid) (hcredentials : b.credentials.Accepted) {request : JoinRequest}
    (hidentity : Protocol.id request.identityId = true)
    (hname : Collaboration.displayName request.displayName = true)
    (hrevision : b.revision < maxRevision) (hissue : b.credentials.CanIssue binding now)
    (hnew : b.members[binding.memberId]? = none) :
    (b.enrolled request binding secret now).Valid := by
  set b' := b.enrolled request binding secret now
  have hbinding := hissue.valid
  simp only [CredentialBinding.valid, List.all_cons, List.all_nil, Bool.and_true,
    Bool.and_eq_true] at hbinding
  have hfree : b.nodes[binding.nodeId]? = none := by
    cases hnode : b.nodes[binding.nodeId]? with
    | none => rfl
    | some node =>
      obtain ⟨record, -, hrecord, -⟩ := h.credential_of_node hcredentials hnode
      cases hissue.fresh.symm.trans hrecord
  have hold : ∀ (key : String) record, b.credentials.records[key]? = some record →
      (b.credentials.records.insert binding.nodeId
        (CredentialRegistry.issuedRecord binding secret now))[key]? = some record :=
    fun key record hrecord => (getElem?_insert_of_fresh hissue.fresh).mpr (Or.inr hrecord)
  have hnodes : ∀ (key : String) node, b.nodes[key]? = some node →
      b'.nodes[key]? = some node := by
    intro key node hnode
    refine StrMap.getElem?_insert.trans ((if_neg fun hkey => ?_).trans hnode)
    cases hfree.symm.trans ((congrArg (b.nodes[·]?) hkey).trans hnode)
  have hmembers : ∀ (key : String) member, b.members[key]? = some member →
      b'.members[key]? = some member := by
    intro key member hmember
    refine StrMap.getElem?_insert.trans ((if_neg fun hkey => ?_).trans hmember)
    cases hnew.symm.trans ((congrArg (b.members[·]?) hkey).trans hmember)
  have hkeeps : Keeps b b' :=
    ⟨rfl, Nat.le_succ _, fun key node hnode => ⟨node, hnodes key node hnode, rfl⟩,
      List.Subset.refl _⟩
  have hmember : ∀ (key : String) member,
      b'.members[key]? = some member →
      b'.MemberOk key member := by
    intro key member hmember
    have hrevoked : b'.credentials.isRevoked key =
        b.credentials.isRevoked key := isRevoked_issue hissue.fresh key
    rw [show b'.members = b.members.insert binding.memberId _
      from rfl, getElem?_insert] at hmember
    split at hmember
    · next hkey =>
      subst hkey
      rw [← Option.some.inj hmember]
      exact ⟨hbinding.2.1, hidentity, hname, Nat.succ_pos _, le_refl _,
        ⟨binding.nodeId, _, (getElem?_insert_of_fresh hissue.fresh).mpr (Or.inl ⟨rfl, rfl⟩), rfl⟩,
        (hrevoked.trans hissue.unrevoked).symm⟩
    · have hok := h.member key member hmember
      obtain ⟨k, record, hrecord, hkey⟩ := hok.bound
      exact ⟨hok.id, hok.identityId, hok.displayName, hok.revision_pos,
        hok.revision_le.trans (Nat.le_succ _), ⟨k, record, hold k record hrecord, hkey⟩,
        hok.revoked.trans hrevoked.symm⟩
  have hrecords : b'.credentials.records.size =
      b.credentials.records.size + 1 := size_insert_of_none hissue.fresh
  have hnodesSize : b'.nodes.size = b.nodes.size + 1 :=
    size_insert_of_none hfree
  have hroom : b.credentials.records.size < 64 := hissue.room
  have hcount := h.count
  exact
    { h with
      revision_pos := Nat.succ_pos _
      revision_le := hrevision
      members_size := by
        refine (StrMap.size_le_of_named (fun _ (record : StoredCredential) =>
          record.binding.memberId)
          fun key member hfound => (hmember key member hfound).bound).trans ?_
        omega
      nodes_size := by omega
      owner := by
        obtain ⟨owner, hfound, hunrevoked⟩ := h.owner
        exact ⟨owner, hmembers _ owner hfound, hunrevoked⟩
      count := by omega
      member := hmember
      binding := fun key record hrecord => by
        rcases (getElem?_insert_of_fresh hissue.fresh).mp hrecord with ⟨-, rfl⟩ | hrecord
        · exact ⟨_, _, StrMap.getElem?_insert.trans (if_pos rfl),
            StrMap.getElem?_insert.trans (if_pos rfl), rfl, rfl, Nat.succ_pos _, le_refl _,
            fun _ => rfl, fun honline => (by cases honline), fun seen hseen => by cases hseen⟩
        · obtain ⟨node, member, hok⟩ := h.binding key record hrecord
          exact ⟨node, member, hok.mono (Nat.le_succ _) (le_refl _) (hnodes _ node hok.hasNode)
            (hmembers _ member hok.hasMember)⟩
      replay := fun record hrecord => (h.replay record hrecord).mono hkeeps
      task := fun key task htask => (h.task key task htask).mono hkeeps
      announcement := fun key node message hnode hmessage => by
        rw [show b'.nodes = b.nodes.insert binding.nodeId _
          from rfl, getElem?_insert] at hnode
        split at hnode
        · rw [← Option.some.inj hnode] at hmessage
          cases hmessage
        · exact (h.announcement key node message hnode hmessage).mono rfl rfl rfl (le_refl _) }

end Brain

/-! ### The registries -/

/-- A credential that is issued now is acceptable beside the others. -/
theorem CredentialRegistry.Accepted.issued {registry : CredentialRegistry} (h : registry.Accepted)
    (hclock : registry.clock = ⟨now⟩) (hissue : registry.CanIssue binding now) :
    CredentialRegistry.Accepted { registry with
      records := registry.records.insert binding.nodeId (issuedRecord binding secret now) } := by
  have hmem : ∀ (key : String) record,
      (registry.records.insert binding.nodeId (issuedRecord binding secret now))[key]? =
        some record ↔ (key = binding.nodeId ∧ record = issuedRecord binding secret now) ∨
          registry.records[key]? = some record :=
    fun _ _ => Brain.getElem?_insert_of_fresh hissue.fresh
  have hnow : Protocol.timestamp now = true := by simpa [hclock] using h.clock
  refine ⟨h.id, h.clock, fun key record hrecord => ?_, fun key key' record record' hr hr' heq => ?_⟩
  · rcases (hmem key record).mp hrecord with ⟨rfl, rfl⟩ | hold
    · exact recordValid_iff.mpr ⟨hissue.valid, hissue.brainId, rfl,
        hnow, by rw [hclock]; exact le_refl _,
        hissue.expires, rfl⟩
    · exact h.record key record hold
  · rcases (hmem key record).mp hr with ⟨-, rfl⟩ | hold <;>
      rcases (hmem key' record').mp hr' with ⟨-, rfl⟩ | hold'
    · rfl
    · exact (isRevoked_eq_false.mp hissue.unrevoked key' record' hold' heq.symm).symm
    · exact isRevoked_eq_false.mp hissue.unrevoked key record hold heq
    · exact h.agree key key' record record' hold hold' heq

/-- Invitations may go, and one that is created now is acceptable beside the others. -/
theorem InvitationRegistry.Accepted.of_pending (h : registry.Accepted) (now : ℤ)
    (hpending : ∀ (key : String) invitation, pending[key]? = some invitation →
      registry.pending[key]? = some invitation ∨
      ∃ secret, Protocol.hex key 64 = true ∧ registry.clock = ⟨now⟩ ∧
        Protocol.timestamp (now + invitationTtlSeconds) = true ∧
        invitation = issuedInvitation secret now) :
    InvitationRegistry.Accepted { registry with pending } := by
  refine ⟨h.id, h.clock, fun key invitation hfound => ?_⟩
  rcases hpending key invitation hfound with hold | ⟨secret, hkey, hclock, hexpires, rfl⟩
  · exact h.invitation key invitation hold
  · have hnow : Protocol.timestamp now = true := by simpa [hclock] using h.clock
    exact invitationValid_iff.mpr ⟨hkey, hnow, by rw [hclock]; exact le_refl _, hexpires, rfl⟩

theorem InvitationRegistry.Accepted.erased (h : registry.Accepted) (invitationId : String) :
    InvitationRegistry.Accepted
      { registry with pending := registry.pending.erase invitationId } := by
  refine h.of_pending 0 fun key invitation hfound => Or.inl ?_
  rw [StrMap.getElem?_erase] at hfound
  split at hfound
  · cases hfound
  · exact hfound

theorem InvitationRegistry.Accepted.created {token secret : SecretToken} (h : registry.Accepted)
    (hclock : registry.clock = ⟨now⟩) (hcan : registry.CanCreate token now) :
    InvitationRegistry.Accepted { registry with
      pending := (registry.unexpired now).insert token.text (issuedInvitation secret now) } := by
  refine h.of_pending now fun key invitation hfound => ?_
  rw [getElem?_insert] at hfound
  split at hfound
  · next hkey =>
    exact Or.inr ⟨secret, hkey ▸ token.hex, hclock, hcan.expires, (Option.some.inj hfound).symm⟩
  · exact Or.inl (getElem?_unexpired.mp hfound).1

namespace Brain

variable {b b' : Brain} {now : ℤ} {α : Type}

/-! ### Every change -/

/-- **The node of an active credential** is there, and its member is not revoked. -/
theorem Accepted.active (h : b.Accepted) {record : StoredCredential}
    (hactive : b.credentials.Active binding now record) :
    ∃ node member, b.BindingOk binding node member ∧ member.revoked = false := by
  obtain ⟨hrecord, -, hbinding, hunrevoked, -, -⟩ := hactive
  obtain ⟨node, member, hok⟩ := h.valid.binding _ record hrecord
  rw [hbinding] at hok
  refine ⟨node, member, hok, ?_⟩
  rw [(h.valid.member _ member hok.hasMember).revoked, CredentialRegistry.isRevoked_eq_false]
  intro key record' hrecord' hmember
  rw [h.credentials.agree key _ record' record hrecord' hrecord (hmember.trans (by rw [hbinding])),
    hunrevoked]

/-- **The node of an authorized session** is the session's, and its member is not
revoked. -/
theorem Accepted.session (h : b.Accepted) {session : ConnectionIdentity}
    (hauthorized : b.credentials.Authorized session now)
    (hnode : b.nodes[session.binding.nodeId]? = some node) :
    node.memberId = session.binding.memberId ∧ node.deviceId = session.binding.deviceId ∧
      ∃ member, b.members[session.binding.memberId]? = some member ∧ member.revoked = false := by
  obtain ⟨record, hactive, -⟩ := hauthorized
  obtain ⟨node', member, hok, hunrevoked⟩ := h.active hactive
  obtain rfl := Option.some.inj (hnode.symm.trans hok.hasNode)
  exact ⟨hok.memberId, hok.deviceId, member, hok.hasMember, hunrevoked⟩

/-- A node that is seen now, under an authorized session, with an announcement that is
its own. -/
theorem Accepted.nodeFits_seen (h : b.Accepted) (hclock : b.clock = ⟨now⟩)
    {session : ConnectionIdentity} (hauthorized : b.credentials.Authorized session now)
    (hnode : b.nodes[session.binding.nodeId]? = some node) {announcement : Option Message}
    (hannouncement : ∀ message, announcement = some message →
      b.AnnouncementOk session.binding.nodeId { node with
        lastSeenAt := some now, online := true, revision := b.revision, announcement } message) :
    b.NodeFits session.binding.nodeId node { node with
      lastSeenAt := some now, online := true, revision := b.revision, announcement } := by
  obtain ⟨hmember, -, member, hfound, hunrevoked⟩ := h.session hauthorized hnode
  refine ⟨rfl, rfl, h.valid.revision_pos, le_refl _, fun member' hfound' hrevoked => ?_,
    fun _ hseen => (by cases hseen), fun seen hseen => ?_, hannouncement⟩
  · rw [hmember, hfound] at hfound'
    rw [← Option.some.inj hfound', hunrevoked] at hrevoked
    cases hrevoked
  · rw [← Option.some.inj hseen, hclock]
    exact ⟨by simpa [hclock] using h.valid.clock, le_refl _⟩

theorem Accepted.bump (h : b.Accepted) (hrevision : b.revision < maxRevision) :
    Accepted { b with revision := b.revision + 1 } :=
  ⟨h.valid.bump hrevision b.invitations.pending, h.credentials, h.invitations⟩

/-- The memory of a message that can be applied is in order at the next revision. -/
theorem Valid.withReplayOf (h : b.Valid) {session : ConnectionIdentity}
    (hcan : b.CanApply session message now)
    (hnext : Valid { b with revision := b.revision + 1, nodes })
    (hkeep : ∃ node', nodes[session.binding.nodeId]? = some node') :
    Valid { b with
      revision := b.revision + 1, nodes, replays := b.replays ++ [b.replayOf message] } := by
  have hsender := hcan.addressed.2
  refine hnext.withReplay ⟨message.id_key, ?_, Nat.succ_pos _, le_refl _⟩ hcan.room ?_
    fun record hrecord => Nat.lt_succ_of_le (h.replay record hrecord).revision_le
  · obtain ⟨node', hnode'⟩ := hkeep
    exact ⟨node', by rw [replayOf, hsender]; exact hnode'⟩
  · rw [replayOf, hsender]
    exact hcan.new

/-- **Every change keeps the Brain acceptable.** -/
theorem Change.accepted (h : b.Accepted) (hclock : b.clock = ⟨now⟩) (hchange : Change now b b') :
    b'.Accepted := by
  cases hchange with
  | same => exact h
  | invited token secret hinvitations hrevision hcan =>
    exact ⟨h.valid.bump hrevision _, h.credentials, h.invitations.created hinvitations hcan⟩
  | cancelled invitationId invitation hrevision hpending =>
    exact ⟨h.valid.bump hrevision _, h.credentials, h.invitations.erased invitationId⟩
  | enrolled request invitation memberToken nodeToken secret hcredentials hname hrevision hredeem
      hissue hnew =>
    have hrequest := hredeem.valid
    simp only [JoinRequest.valid, List.all_cons, List.all_nil, Bool.and_true,
      Bool.and_eq_true] at hrequest
    exact ⟨h.valid.enrolled h.credentials hrequest.1.1.1.2.1 hname hrevision hissue hnew,
      h.credentials.issued hcredentials hissue,
      h.invitations.erased _⟩
  | revoked memberId member hmember howner hunrevoked hrevision =>
    have hnext := h.bump hrevision
    have hoffline := hnext.valid.withOffline hnext.credentials fun node => node.memberId == memberId
    refine ⟨hoffline.withRevoked hmember howner fun key node hnode heq => ?_,
      credentials_accepted_revokedRecords h.credentials memberId, h.invitations⟩
    obtain ⟨old, -, rfl⟩ := Option.map_eq_some_iff.mp (StrMap.getElem?_update.symm.trans hnode)
    split at heq <;> simp_all
  | seen session node hauthorized hrevision hnode =>
    have hnext := h.bump hrevision
    refine ⟨hnext.valid.withNode hnext.credentials hnode (hnext.nodeFits_seen hclock hauthorized
      hnode fun message hmessage => ?_), h.credentials, h.invitations⟩
    have hself := hnext.valid.nodeFits_self hnext.credentials hnode
    exact (hself.announcement message hmessage).mono rfl rfl rfl hself.revision_le
  | announced session message node hcan hpayload hnode =>
    have hnext := h.bump hcan.next
    obtain ⟨hmember, hdevice, -⟩ := h.session hcan.authorized hnode
    have hannouncement : ∀ message', some message = some message' →
        AnnouncementOk { b with revision := b.revision + 1 } session.binding.nodeId
          { node with
            lastSeenAt := some now, online := true, revision := b.revision + 1
            announcement := some message } message' := by
      rintro _ ⟨⟩
      refine ⟨by rw [hpayload, hmember, hdevice], hcan.addressed.2, hcan.addressed.1, ?_⟩
      rw [hcan.current]
      exact Nat.lt_succ_self _
    have hnodes := hnext.valid.withNode hnext.credentials hnode
      (hnext.nodeFits_seen hclock hcan.authorized hnode hannouncement)
    exact ⟨h.valid.withReplayOf hcan hnodes ⟨_, StrMap.getElem?_insert.trans (if_pos rfl)⟩,
      h.credentials, h.invitations⟩
  | submitted session message taskId hcan hpayload hnew hroom =>
    have hnext := h.bump hcan.next
    obtain ⟨record, hactive, -⟩ := hcan.authorized
    obtain ⟨node, member, hok⟩ := h.valid.binding _ record hactive.1
    rw [hactive.2.2.1] at hok
    have hreplay := h.valid.withReplayOf hcan hnext.valid ⟨node, hok.hasNode⟩
    refine ⟨hreplay.withTask ⟨⟨session.binding.memberId, hpayload, node, ?_, hok.memberId⟩,
      hcan.addressed.1, le_refl _, ?_, b.replayOf message, List.mem_append_right _
        (List.mem_singleton_self _), rfl, rfl, ?_, rfl⟩ ?_, h.credentials, h.invitations⟩
    · rw [hcan.addressed.2]
      exact hok.hasNode
    · exact Nat.lt_succ_of_le hcan.current.le
    · rw [replayOf, hcan.current]
    · exact StrMap.size_insert_le.trans hroom
  | progressed taskId task next htask hallows hrevision =>
    have hnext := h.bump hrevision
    have hok := hnext.valid.task taskId task htask
    refine ⟨hnext.valid.withTask ⟨hok.source, hok.brainId, le_refl _,
      hok.revision_lt.trans_le hok.revision_le, hok.replay⟩ ?_, h.credentials, h.invitations⟩
    refine (size_eq_of_keys fun key => ?_).trans_le h.valid.tasks_size
    rw [getElem?_insert]
    split
    · next hkey => rw [← hkey, htask]; rfl
    · rfl
  | presenceReset reason hany hrevision =>
    have hnext := h.bump hrevision
    exact ⟨hnext.valid.withOffline hnext.credentials _, h.credentials, h.invitations⟩

theorem Changed.accepted (hchanged : Changed now b b') (h : b.Accepted) : b'.Accepted := by
  obtain ⟨hclock, credentials, invitations, hc, hi, hchange⟩ := hchanged
  exact hchange.accepted (h.withClocks hclock hc hi) rfl

/-! ### New Brains -/

theorem getElem?_singleton {key key' : String} {v v' : α} :
    ((∅ : StrMap α).insert key v)[key']? = some v' ↔ key = key' ∧ v = v' := by
  rw [getElem?_insert]
  split
  · next h => simp [h]
  · next h => simp [h]

theorem size_singleton {v : α} : ((∅ : StrMap α).insert key v).size = 1 := by
  rw [size_insert_of_none (by simp)]
  rfl

/-- **A Brain that was just created is acceptable.** -/
theorem Accepted.founded {brainId : String} {owner : OwnerProfile}
    (hid : Protocol.id brainId = true) (hidentity : Protocol.id owner.identityId = true)
    (hname : Collaboration.displayName owner.displayName = true)
    (hnow : Protocol.timestamp now = true) (hdevice : binding.deviceId = owner.deviceId)
    (hissue : CredentialRegistry.CanIssue ⟨brainId, default, ∅⟩ binding now) :
    (founded brainId owner binding secret now).Accepted := by
  have hbinding := hissue.valid
  simp only [CredentialBinding.valid, List.all_cons, List.all_nil, Bool.and_true,
    Bool.and_eq_true] at hbinding
  have hrevoked : (Brain.founded brainId owner binding secret now).credentials.isRevoked
      binding.memberId = false := by
    refine CredentialRegistry.isRevoked_eq_false.mpr fun key record hrecord _ => ?_
    rw [← (getElem?_singleton.mp hrecord).2]
    rfl
  have hzero : Protocol.timestamp 0 = true := by decide
  have hone : 1 ≤ maxRevision := by decide
  refine ⟨⟨⟨rfl, hid, Nat.one_pos, hone, hnow, rfl, rfl, le_refl _, ?_⟩, ?_, ?_, ?_, ?_, ?_, ?_,
    Nat.zero_le _, Nat.zero_le _, ?_, List.nodup_nil, List.nodup_nil, ?_, ?_⟩,
    ⟨hid, hnow, ?_, ?_⟩, ⟨hid, hzero, ?_⟩⟩
  · exact (Protocol.timestamp_iff.mp hnow).1
  · exact size_singleton.trans_le (by decide)
  · exact size_singleton.trans_le (by decide)
  · exact ⟨_, getElem?_singleton.mpr ⟨rfl, rfl⟩, rfl⟩
  · exact size_singleton.trans size_singleton.symm
  · intro key member hmember
    obtain ⟨rfl, rfl⟩ := getElem?_singleton.mp hmember
    exact ⟨hbinding.2.1, hidentity, hname, Nat.one_pos, le_refl _,
      ⟨_, _, getElem?_singleton.mpr ⟨rfl, rfl⟩, rfl⟩, hrevoked.symm⟩
  · intro key record hrecord
    obtain ⟨rfl, rfl⟩ := getElem?_singleton.mp hrecord
    exact ⟨_, _, getElem?_singleton.mpr ⟨rfl, rfl⟩, getElem?_singleton.mpr ⟨rfl, rfl⟩, rfl,
      hdevice.symm, Nat.one_pos, le_refl _, fun _ => rfl, fun honline => (by cases honline),
      fun seen hseen => by cases hseen⟩
  · intro record hrecord
    cases hrecord
  · intro key task htask
    simp [Brain.founded] at htask
  · intro key node message hnode hmessage
    obtain ⟨-, rfl⟩ := getElem?_singleton.mp hnode
    cases hmessage
  · intro key record hrecord
    obtain ⟨rfl, rfl⟩ := getElem?_singleton.mp hrecord
    exact CredentialRegistry.recordValid_iff.mpr
      ⟨hissue.valid, hissue.brainId, rfl, hnow, le_refl _, hissue.expires, rfl⟩
  · intro key key' record record' hrecord hrecord' _
    obtain ⟨-, rfl⟩ := getElem?_singleton.mp hrecord
    obtain ⟨-, rfl⟩ := getElem?_singleton.mp hrecord'
    rfl
  · intro key invitation hpending
    simp [Brain.founded] at hpending

/-- **Where a Brain comes from**: it was created for an owner, or read from a snapshot
and passed the checks. -/
inductive Origin : Brain → Prop
  | bootstrap {brainId : String} {owner : OwnerProfile} {random : JoinRandom} {now : ℤ} {b : Brain}
      {credential : IssuedCredential}
      (h : Brain.bootstrap brainId owner random now = .ok (b, credential)) : Origin b
  | checked {b : Brain} (hvalidate : b.validate = .ok ())
      (hcredentials : (tryFrom b.credentials).isOk = true)
      (hinvitations : (InvitationRegistry.tryFrom b.invitations).isOk = true) : Origin b

theorem Origin.accepted (h : b.Origin) : b.Accepted := by
  cases h with
  | bootstrap h =>
    obtain ⟨memberToken, nodeToken, secret, hid, hidentity, hname, hnow, hissue, -, rfl⟩ :=
      bootstrap_eq_ok h
    exact .founded hid hidentity hname hnow rfl hissue
  | checked hvalidate hcredentials hinvitations =>
    exact ⟨validate_eq_ok.mp hvalidate, CredentialRegistry.isOk_tryFrom.mp hcredentials,
      InvitationRegistry.isOk_tryFrom.mp hinvitations⟩

/-- **Validity is inductive**: whatever an operation does to a Brain that is accepted by
its own check and by those of its registries, if it returns then the Brain is accepted
again. -/
theorem validate_of_run {op : BrainOp} {reply : BrainReply} (hvalidate : b.validate = .ok ())
    (hcredentials : (tryFrom b.credentials).isOk = true)
    (hinvitations : (InvitationRegistry.tryFrom b.invitations).isOk = true)
    (hrun : op.run now b = (.ok reply, b')) :
    b'.validate = .ok () ∧ (tryFrom b'.credentials).isOk = true ∧
      (InvitationRegistry.tryFrom b'.invitations).isOk = true := by
  have haccepted := (BrainOp.effect_of_run hrun).changed.accepted
    (Origin.checked hvalidate hcredentials hinvitations).accepted
  exact ⟨validate_eq_ok.mpr haccepted.valid,
    CredentialRegistry.isOk_tryFrom.mpr haccepted.credentials,
    InvitationRegistry.isOk_tryFrom.mpr haccepted.invitations⟩

theorem length_zeros : (List.replicate 32 (0 : UInt8)).length = 32 := rfl

/-- A small Brain: an owner with one node, which is online. -/
def small : Brain :=
  { version := 1, brainId := "brain", ownerMemberId := "owner", revision := 2, clock := ⟨5⟩
    credentials := ⟨"brain", ⟨5⟩, (∅ : StrMap StoredCredential).insert "node"
      { binding := ⟨"brain", "owner", "node", "device"⟩, issuedAt := 5, expiresAt := 86405
        verifier := ⟨List.replicate 32 0, length_zeros⟩, revoked := false }⟩
    invitations := ⟨"brain", ⟨0⟩, ∅⟩
    members := (∅ : StrMap MemberRecord).insert "owner"
      { identityId := "identity", displayName := "Owner", revoked := false, revision := 1 }
    nodes := (∅ : StrMap NodeRecord).insert "node"
      { memberId := "owner", deviceId := "device", lastSeenAt := some 5, announcement := none
        online := true, revision := 2 }
    tasks := ∅, replays := [] }

/-- The session of the node of the small Brain. -/
def small.session : ConnectionIdentity :=
  ⟨⟨"brain", "owner", "node", "device"⟩, ⟨List.replicate 32 0, length_zeros⟩⟩

theorem origin_small : small.Origin :=
  .checked (by decide +kernel) (by decide +kernel) (by decide +kernel)

/-- The small Brain goes on to its next revision when its node is taken offline. -/
theorem validate_restart_small :
    let b' := ((BrainOp.resetPresence .restart).run 6 small).2
    b'.revision = 3 ∧ b'.validate = .ok () ∧
      (tryFrom b'.credentials).isOk = true ∧
      (InvitationRegistry.tryFrom b'.invitations).isOk = true :=
  ⟨by decide +kernel, @validate_of_run small _ 6 (.resetPresence .restart) (.revision 3)
    (by decide +kernel) (by decide +kernel) (by decide +kernel) rfl⟩

end Brain

end Rivloom.Collaboration
