import Rivloom.Collaboration.Reconcile

/-!
# What the operations of the Brain do

Each operation, whatever it checks on the way, ends in one of few ways: it changes the
Brain in the one way it is for, it finds that there is nothing to change, or it fails
and leaves at most its clocks moved. This file says so once for each operation, and the
results about whole runs never look at the operations again.

The changes themselves are functions of the Brain that leave the clocks alone
(`Rivloom.Collaboration.Brain.enrolled` and the like), and
`Rivloom.Collaboration.Brain.Change` collects them with the conditions under which the
operations make them. The rule of an operation, `wp_join` say, has one premise for each
way the operation can end.

Three refusals leave more behind than moved clocks. Creating an invitation drops the
expired ones before it may fail, a request for a page takes nodes offline before it may
be refused, and enrolling a member whose random id is already taken fails after its
credential was issued; `Rivloom.Collaboration.Brain.Refused` lists them.
-/

namespace Rivloom.Collaboration

open Rivloom.Action (andThen_error andThen_ok wp wp_bind wp_ensure wp_focus wp_get wp_lift wp_modify
  wp_orElse)

namespace Brain

variable {α : Type} {Q : Except BrainError ℕ → Brain → Prop} {b : Brain} {now : ℤ}
  {session : ConnectionIdentity} {expected : ℕ} {message : Message} {request : ReconcileRequest}
  {random : JoinRandom} {memberId : String}

/-! ### Clocks -/

/-- The Brain with its three clocks set. -/
def withClocks (b : Brain) (clock credentials invitations : Clock) : Brain :=
  { b with
    clock
    credentials := { b.credentials with clock := credentials }
    invitations := { b.invitations with clock := invitations } }

section

variable (b : Brain) (clock credentials invitations : Clock)

@[simp] theorem withClocks_brainId :
    (b.withClocks clock credentials invitations).brainId = b.brainId := rfl

@[simp] theorem withClocks_nodes :
    (b.withClocks clock credentials invitations).nodes = b.nodes := rfl

end

/-- The Brain after it observed a time and authorized a session at it. -/
def authorizedAt (b : Brain) (now : ℤ) : Brain := b.withClocks ⟨now⟩ ⟨now⟩ b.invitations.clock

/-- Two states that differ in nothing but their clocks. -/
def ClocksOnly (b b' : Brain) : Prop :=
  ∃ clock credentials invitations, b' = b.withClocks clock credentials invitations

/-- **Nothing but clocks has moved**, and those by observing the time. -/
def Observed (now : ℤ) (b b' : Brain) : Prop :=
  ∃ clock credentials invitations, b.clock.Ticks now clock ∧
    b.credentials.clock.Ticks now credentials ∧ b.invitations.clock.Ticks now invitations ∧
    b' = b.withClocks clock credentials invitations

/-- A session that the Brain serves at a time. -/
def Admits (b : Brain) (session : ConnectionIdentity) (now : ℤ) : Prop :=
  b.clock.Accepts now ∧ b.credentials.clock.Accepts now ∧ b.credentials.Authorized session now

theorem Observed.refl (now : ℤ) (b : Brain) : Observed now b b :=
  ⟨b.clock, b.credentials.clock, b.invitations.clock, Or.inl rfl, Or.inl rfl, Or.inl rfl, rfl⟩

/-- The Brain's own clock has observed the time, and the others may have. -/
theorem observed_of_accepts {credentials invitations : Clock} (h : b.clock.Accepts now)
    (hc : b.credentials.clock.Ticks now credentials)
    (hi : b.invitations.clock.Ticks now invitations) :
    Observed now b (b.withClocks ⟨now⟩ credentials invitations) :=
  ⟨⟨now⟩, credentials, invitations, Or.inr ⟨h, rfl⟩, hc, hi, rfl⟩

theorem wp_observe {Q : Except BrainError Unit → Brain → Prop}
    (hok : b.clock.Accepts now →
      Q (.ok ()) (b.withClocks ⟨now⟩ b.credentials.clock b.invitations.clock))
    (herr : ¬b.clock.Accepts now → Q (.error (.access .rejected)) b) : wp (observe now) Q b := by
  rw [observe, wp_focus, wp, Clock.observe_eq]
  split
  · next h => exact hok h
  · next h => exact herr h

theorem wp_checkRevision {Q : Except BrainError Unit → Brain → Prop} :
    wp (checkRevision expected) Q b ↔
      (expected = b.revision → Q (.ok ()) b) ∧
      (expected ≠ b.revision → Q (.error .conflict) b) := by
  simp only [checkRevision, wp_bind, wp_get, andThen_ok, wp_ensure, beq_iff_eq, beq_eq_false_iff_ne]

/-- There is a next revision as long as the greatest one is not reached. -/
theorem wp_nextRevision :
    wp nextRevision Q b ↔
      (b.revision < maxRevision → Q (.ok (b.revision + 1)) b) ∧
      (maxRevision ≤ b.revision → Q (.error .capacity) b) := by
  have hmax : maxRevision < 2 ^ 64 := by decide
  simp only [nextRevision, wp_bind, wp_get, andThen_ok, wp_orElse, U64.checkedAdd]
  by_cases h : b.revision < maxRevision
  · have hlt : b.revision + 1 < 2 ^ 64 := by omega
    have hle : b.revision + 1 ≤ maxRevision := h
    simp only [if_pos hlt, Option.filter_some, decide_eq_true hle, if_true, Option.some.injEq,
      forall_eq', reduceCtorEq, false_implies, and_true, h, true_implies]
    exact ⟨fun hq => ⟨hq, fun hge => absurd hge (by omega)⟩, fun hq => hq.1⟩
  · have hnone : ((if b.revision + 1 < 2 ^ 64 then some (b.revision + 1) else none).filter
        fun v => decide (v ≤ maxRevision)) = none := by
      split
      · rw [Option.filter_some, if_neg]
        simp only [decide_eq_true_eq]
        omega
      · rfl
    simp only [hnone, reduceCtorEq, false_implies, implies_true, true_and, true_implies, h]
    exact ⟨fun hq _ => hq, fun hq => hq (by omega)⟩

/-- **The gate of a session**: the time is observed and the credential looked up before
anything else happens. -/
theorem wp_authorized {f : BrainAction α} {Q : Except BrainError α → Brain → Prop}
    (hok : b.Admits session now → wp f Q (b.authorizedAt now))
    (herr : ∀ b', ¬b.Admits session now → Observed now b b' → Q (.error (.access .rejected)) b') :
    wp (do
      observe now
      onCredentials (CredentialRegistry.authorizeTask session now)
      f) Q b := by
  rw [wp_bind]
  refine wp_observe (fun hclock => ?_) fun hclock =>
    herr b (fun h => hclock h.1) (Observed.refl now b)
  rw [andThen_ok, wp_bind, onCredentials, wp_focus]
  refine CredentialRegistry.wp_authorizeTask (fun hcred hauth => ?_) (fun hcred hauth => ?_)
    fun hcred => ?_
  · exact hok ⟨hclock, hcred, hauth⟩
  · exact herr _ (fun h => hauth h.2.2)
      (observed_of_accepts hclock (Or.inr ⟨hcred, rfl⟩) (Or.inl rfl))
  · exact herr _ (fun h => hcred h.2.1) (observed_of_accepts hclock (Or.inl rfl) (Or.inl rfl))

/-! ### Changes -/

/-- Only the expired invitations are gone. -/
def pruned (b : Brain) (now : ℤ) : Brain :=
  { b with invitations := { b.invitations with pending := b.invitations.unexpired now } }

/-- An invitation was created. -/
def invited (b : Brain) (token secret : SecretToken) (now : ℤ) : Brain :=
  { b with
    invitations := { b.invitations with
      pending := (b.invitations.unexpired now).insert token.text
        (InvitationRegistry.issuedInvitation secret now) }
    revision := b.revision + 1 }

/-- An invitation was cancelled. -/
def cancelled (b : Brain) (invitationId : String) : Brain :=
  { b with
    invitations := { b.invitations with pending := b.invitations.pending.erase invitationId }
    revision := b.revision + 1 }

/-- An invitation was redeemed for a credential, and nothing else was done. -/
def redeemed (b : Brain) (invitationId : String) (binding : CredentialBinding)
    (secret : SecretToken) (now : ℤ) : Brain :=
  { b with
    invitations := { b.invitations with pending := b.invitations.pending.erase invitationId }
    credentials := { b.credentials with
      records := b.credentials.records.insert binding.nodeId
        (CredentialRegistry.issuedRecord binding secret now) } }

/-- A member was enrolled with its node. -/
def enrolled (b : Brain) (request : JoinRequest) (binding : CredentialBinding)
    (secret : SecretToken) (now : ℤ) : Brain :=
  { b.redeemed request.invitationId binding secret now with
    members := b.members.insert binding.memberId
      { identityId := request.identityId, displayName := request.displayName, revoked := false
        revision := b.revision + 1 }
    nodes := b.nodes.insert binding.nodeId
      { memberId := binding.memberId, deviceId := binding.deviceId, lastSeenAt := none
        announcement := none, online := false, revision := b.revision + 1 }
    revision := b.revision + 1 }

/-- A member was revoked, with its credentials, and its nodes taken offline. -/
def revoked (b : Brain) (memberId : String) (member : MemberRecord) : Brain :=
  { b with
    credentials := { b.credentials with
      records := b.credentials.records.update (fun record => record.binding.memberId == memberId)
        fun record => { record with revoked := true } }
    members := b.members.insert memberId { member with revoked := true, revision := b.revision + 1 }
    nodes := b.nodes.update (fun node => node.memberId == memberId)
      fun node => { node with online := false, revision := b.revision + 1 }
    revision := b.revision + 1 }

/-- A node was seen. -/
def seen (b : Brain) (nodeId : String) (node : NodeRecord) (now : ℤ) : Brain :=
  { b with
    nodes := b.nodes.insert nodeId
      { node with lastSeenAt := some now, online := true, revision := b.revision + 1 }
    revision := b.revision + 1 }

/-- The memory of a message that is applied next. -/
def replayOf (b : Brain) (message : Message) : ReplayRecord :=
  { senderNodeId := message.admission.senderNodeId, key := message.admission.key
    fingerprint := message.payloadHash, revision := b.revision + 1 }

/-- A node announced itself. -/
def announced (b : Brain) (nodeId : String) (node : NodeRecord) (message : Message) (now : ℤ) :
    Brain :=
  { b with
    nodes := b.nodes.insert nodeId
      { node with lastSeenAt := some now, online := true, revision := b.revision + 1
                  announcement := some message }
    replays := b.replays ++ [b.replayOf message]
    revision := b.revision + 1 }

/-- A task was submitted. -/
def submitted (b : Brain) (taskId : String) (message : Message) : Brain :=
  { b with
    tasks := b.tasks.insert taskId
      { source := message, status := .draft, revision := b.revision + 1 }
    replays := b.replays ++ [b.replayOf message]
    revision := b.revision + 1 }

/-- A task moved on. -/
def progressed (b : Brain) (taskId : String) (task : TaskRecord) (next : TaskStatus) : Brain :=
  { b with
    tasks := b.tasks.insert taskId { task with status := next, revision := b.revision + 1 }
    revision := b.revision + 1 }

/-- Nodes were taken offline. -/
def presenceReset (b : Brain) (reason : PresenceReset) (now : ℤ) : Brain :=
  { b with
    nodes := b.nodes.update (expired now reason) fun node =>
      { node with online := false, revision := b.revision + 1 }
    revision := b.revision + 1 }

/-- A message that a session may send to this Brain. -/
def Addressed (b : Brain) (session : ConnectionIdentity) (message : Message) : Prop :=
  message.admission.brainId = b.brainId ∧
    message.admission.senderNodeId = session.binding.nodeId

/-- What must hold for a new message to be applied. -/
structure CanApply (b : Brain) (session : ConnectionIdentity) (message : Message) (now : ℤ) :
    Prop where
  authorized : b.credentials.Authorized session now
  addressed : b.Addressed session message
  new : b.findReplay session.binding.nodeId message.admission.key = none
  current : message.admission.revision = b.revision
  room : b.replays.length < maxReplays
  next : b.revision < maxRevision

/-- Some node is to be taken offline. -/
def AnyExpired (b : Brain) (reason : PresenceReset) (now : ℤ) : Prop :=
  ∃ (key : String) (node : NodeRecord), b.nodes[key]? = some node ∧
    expired now reason node = true

/-- Whether a message can be applied depends on the records, not on the clocks. -/
theorem CanApply.of_clocks (h : b.CanApply session message now)
    (clock credentials invitations : Clock) :
    (b.withClocks clock credentials invitations).CanApply session message now :=
  ⟨h.authorized, h.addressed, h.new, h.current, h.room, h.next⟩

/-- **What a failed operation leaves behind**, its clocks aside: at most that expired
invitations are gone, that nodes not seen for long are offline, or that an invitation was
redeemed for a member whose id was already taken. -/
inductive Residue (now : ℤ) (b : Brain) : Brain → Prop
  | same : Residue now b b
  | pruned : Residue now b (b.pruned now)
  | reset (hany : b.AnyExpired .expired now) (hrevision : b.revision < maxRevision) :
      Residue now b (b.presenceReset .expired now)
  | redeemed (request : JoinRequest) (invitation : PendingInvitation)
      (memberToken nodeToken secret : SecretToken) (hclock : b.credentials.clock = ⟨now⟩)
      (hredeem : b.invitations.CanRedeem request now invitation)
      (hissue : b.credentials.CanIssue
        (b.invitations.joinBinding request memberToken nodeToken) now)
      (htaken : ∃ member, b.members["member-" ++ memberToken.text]? = some member) :
      Residue now b (b.redeemed request.invitationId
        (b.invitations.joinBinding request memberToken nodeToken) secret now)

/-- **What a failed operation does**: it may move the clocks, and leaves little else. -/
def Refused (now : ℤ) (b b' : Brain) : Prop :=
  ∃ b₀, Observed now b b₀ ∧ Residue now b₀ b'

theorem Refused.of_observed {b b' : Brain} (h : Observed now b b') : Refused now b b' :=
  ⟨b', h, .same⟩

/-! ### Creating a Brain -/

/-- The binding of the owner of a new Brain. -/
def ownerBinding (brainId : String) (owner : OwnerProfile) (memberToken nodeToken : SecretToken) :
    CredentialBinding :=
  ⟨brainId, "member-" ++ memberToken.text, "node-" ++ nodeToken.text, owner.deviceId⟩

/-- The Brain that is created for an owner. -/
def founded (brainId : String) (owner : OwnerProfile) (binding : CredentialBinding)
    (secret : SecretToken) (now : ℤ) : Brain :=
  { version := 1, brainId, ownerMemberId := binding.memberId, revision := 1, clock := ⟨now⟩
    credentials := ⟨brainId, ⟨now⟩, (∅ : StrMap StoredCredential).insert binding.nodeId
      (CredentialRegistry.issuedRecord binding secret now)⟩
    invitations := ⟨brainId, default, ∅⟩
    members := (∅ : StrMap MemberRecord).insert binding.memberId
      { identityId := owner.identityId, displayName := owner.displayName, revoked := false
        revision := 1 }
    nodes := (∅ : StrMap NodeRecord).insert binding.nodeId
      { memberId := binding.memberId, deviceId := owner.deviceId, lastSeenAt := none
        announcement := none, online := false, revision := 1 }
    tasks := ∅, replays := [] }

/-- **A new Brain** has its owner with one node, and nothing else. -/
theorem bootstrap_eq_ok {brainId : String} {owner : OwnerProfile} {credential : IssuedCredential}
    (h : bootstrap brainId owner random now = .ok (b, credential)) :
    ∃ memberToken nodeToken secret,
      let binding := ownerBinding brainId owner memberToken nodeToken
      Protocol.id brainId = true ∧ Protocol.id owner.identityId = true ∧
      displayName owner.displayName = true ∧ Protocol.timestamp now = true ∧
      CredentialRegistry.CanIssue ⟨brainId, default, ∅⟩ binding now ∧
      credential = ⟨binding, now + credentialTtlSeconds, secret⟩ ∧
      b = founded brainId owner binding secret now := by
  unfold bootstrap at h
  split at h
  swap
  · cases h
  next howner =>
  simp only [Except.bind_eq_ok, Except.mapError_eq_ok, pure, Except.pure, Except.ok.injEq,
    Prod.mk.injEq] at h
  obtain ⟨_, hclock, credentials, hcredentials, invitations, hinvitations, memberToken, hmember,
    nodeToken, hnode, issued, hissued, rfl, rfl⟩ := h
  simp only [Bool.and_eq_true] at howner
  simp only [CredentialRegistry.new, InvitationRegistry.new] at hcredentials hinvitations
  split at hcredentials
  swap
  · cases hcredentials
  next hid =>
  simp only [hid, if_true] at hinvitations
  cases hcredentials
  cases hinvitations
  obtain ⟨secret, hcan, rfl, hregistry⟩ := CredentialRegistry.issue_eq_ok hissued
  have haccepts : Clock.Accepts default now := by
    by_contra hnot
    rw [Clock.observe_eq, if_neg hnot] at hclock
    cases hclock
  refine ⟨memberToken, nodeToken, secret, hid, howner.1.1, howner.2, haccepts.1, hcan, rfl, ?_⟩
  rw [Clock.observe_eq, if_pos haccepts, hregistry]
  rfl

/-! ### One rule for each operation -/

/-- **Authenticating a node** changes nothing. -/
theorem wp_connect {binding : CredentialBinding} {secret : SecretToken}
    {Q : Except BrainError ConnectionIdentity → Brain → Prop}
    (hok : ∀ record, b.clock.Accepts now → b.credentials.clock.Accepts now →
      b.credentials.Active binding now record →
      secret.digest .nodeCredential = record.verifier →
      Q (.ok ⟨binding, record.verifier⟩) (b.authorizedAt now))
    (herr : ∀ b', Observed now b b' → Q (.error (.access .rejected)) b') :
    wp (connect binding secret now) Q b := by
  rw [connect, wp_bind]
  refine wp_observe (fun hclock => ?_) fun _ => herr b (Observed.refl now b)
  rw [andThen_ok, onCredentials, wp_focus]
  refine CredentialRegistry.wp_connect (fun record hcred hactive hsecret => ?_) (fun hcred => ?_)
    fun _ => ?_
  · exact hok record hclock hcred hactive hsecret
  · exact herr _ (observed_of_accepts hclock (Or.inr ⟨hcred, rfl⟩) (Or.inl rfl))
  · exact herr _ (observed_of_accepts hclock (Or.inl rfl) (Or.inl rfl))

/-- **Creating an invitation.** -/
theorem wp_createInvitation {randomId randomSecret : Random}
    {Q : Except BrainError IssuedInvitation → Brain → Prop}
    (hok : ∀ token secret, SecretToken.generate randomId = .ok token →
      SecretToken.generate randomSecret = .ok secret → b.clock.Accepts now →
      b.invitations.clock.Accepts now → b.revision < maxRevision →
      b.invitations.CanCreate token now →
      Q (.ok ⟨b.invitations.brainId, token.text, now + invitationTtlSeconds, secret⟩)
        ((b.invited token secret now).withClocks ⟨now⟩ b.credentials.clock ⟨now⟩))
    (herr : ∀ e b', Refused now b b' → Q (.error e) b') :
    wp (createInvitation randomId randomSecret now) Q b := by
  rw [createInvitation, wp_bind]
  refine wp_observe (fun hclock => ?_) fun _ => herr _ b (.of_observed (Observed.refl now b))
  have hticked := fun e => herr e _
    (.of_observed (observed_of_accepts hclock (Or.inl rfl) (Or.inl rfl)))
  rw [andThen_ok, wp_bind, wp_nextRevision]
  refine ⟨fun hrevision => ?_, fun _ => hticked _⟩
  rw [andThen_ok, wp_bind, onInvitations, wp_focus]
  refine InvitationRegistry.wp_create (fun token secret htoken hsecret hinvitations hcan => ?_)
    fun e clock pending htick hpending => ?_
  · exact hok token secret htoken hsecret hclock hinvitations hrevision hcan
  · rcases hpending with rfl | rfl
    · exact herr _ _ (.of_observed (observed_of_accepts hclock (Or.inl rfl) htick))
    · exact herr _ _ ⟨_, observed_of_accepts hclock (Or.inl rfl) htick, .pruned⟩

/-- **Cancelling an invitation.** -/
theorem wp_cancelInvitation {invitationId : String} {Q : Except BrainError Unit → Brain → Prop}
    (hok : ∀ invitation, b.clock.Accepts now → b.revision < maxRevision →
      b.invitations.pending[invitationId]? = some invitation →
      Q (.ok ()) ((b.cancelled invitationId).withClocks ⟨now⟩ b.credentials.clock
        b.invitations.clock)) (herr : ∀ e b', Observed now b b' → Q (.error e) b') :
    wp (cancelInvitation invitationId now) Q b := by
  rw [cancelInvitation, wp_bind]
  refine wp_observe (fun hclock => ?_) fun _ => herr _ b (Observed.refl now b)
  have hticked := fun e => herr e _ (observed_of_accepts hclock (Or.inl rfl) (Or.inl rfl))
  rw [andThen_ok, wp_bind, wp_nextRevision]
  refine ⟨fun hrevision => ?_, fun _ => hticked _⟩
  rw [andThen_ok, wp_bind, onInvitations, wp_focus]
  exact InvitationRegistry.wp_cancel (fun invitation h => hok invitation hclock hrevision h)
    (hticked _)

/-- **Joining**: the invitation is redeemed, and the new member is enrolled with its
node. -/
theorem wp_join {request : JoinRequest} {Q : Except BrainError Enrollment → Brain → Prop}
    (hok : ∀ invitation memberToken nodeToken secret,
      SecretToken.generate random.member = .ok memberToken →
      SecretToken.generate random.node = .ok nodeToken →
      SecretToken.generate random.secret = .ok secret →
      b.clock.Accepts now → b.invitations.clock.Accepts now → b.credentials.clock.Accepts now →
      displayName request.displayName = true → b.revision < maxRevision →
      b.invitations.CanRedeem request now invitation →
      let binding := b.invitations.joinBinding request memberToken nodeToken
      b.credentials.CanIssue binding now → b.members[binding.memberId]? = none →
      Q (.ok { member := ⟨binding.memberId, request.identityId, request.displayName, .member⟩
               credential := ⟨binding, now + credentialTtlSeconds, secret⟩ })
        ((b.enrolled request binding secret now).withClocks ⟨now⟩ ⟨now⟩ ⟨now⟩))
    (herr : ∀ e b', Refused now b b' → Q (.error e) b') : wp (join request random now) Q b := by
  rw [join, wp_bind]
  refine wp_observe (fun hclock => ?_) fun _ => herr _ b (.of_observed (Observed.refl now b))
  have hticked := fun e => herr e _
    (.of_observed (observed_of_accepts hclock (Or.inl rfl) (Or.inl rfl)))
  rw [andThen_ok, wp_bind, wp_ensure]
  refine ⟨fun hname => ?_, fun _ => hticked _⟩
  rw [andThen_ok, wp_bind, wp_nextRevision]
  refine ⟨fun hrevision => ?_, fun _ => hticked _⟩
  rw [andThen_ok, wp_bind, onBoth, wp_focus]
  refine InvitationRegistry.wp_redeem
    (fun invitation memberToken nodeToken secret hmember hnode hsecret hinvitations hcredentials
      hredeem hissue => ?_) fun e clock clock' htick htick' => ?_
  · rw [Except.mapError, andThen_ok, wp_bind, wp_get, andThen_ok, wp_bind, wp_ensure]
    refine ⟨fun hnew => ?_, fun htaken => ?_⟩
    · exact hok invitation memberToken nodeToken secret hmember hnode hsecret hclock hinvitations
        hcredentials hname hrevision hredeem hissue
        (StrMap.contains_eq_false.mp ((Bool.not_eq_true' _).mp hnew))
    · rw [Bool.not_eq_false', StrMap.contains_eq_true] at htaken
      exact herr _ _ ⟨_, observed_of_accepts hclock (Or.inr ⟨hcredentials, rfl⟩)
        (Or.inr ⟨hinvitations, rfl⟩),
        .redeemed request invitation memberToken nodeToken secret rfl (hredeem.of_clock _)
          (hissue.of_clock _) htaken⟩
  · exact herr _ _ (.of_observed (observed_of_accepts hclock htick' htick))

/-- **Revoking a member** that is not the owner. -/
theorem wp_revokeMember
    (hdone : ∀ member, b.clock.Accepts now → b.members[memberId]? = some member →
      memberId ≠ b.ownerMemberId → member.revoked = true →
      Q (.ok b.revision) (b.withClocks ⟨now⟩ b.credentials.clock b.invitations.clock))
    (hok : ∀ member, b.clock.Accepts now → b.members[memberId]? = some member →
      memberId ≠ b.ownerMemberId → member.revoked = false → b.revision < maxRevision →
      Q (.ok (b.revision + 1))
        ((b.revoked memberId member).withClocks ⟨now⟩ b.credentials.clock b.invitations.clock))
    (herr : ∀ e b', Observed now b b' → Q (.error e) b') :
    wp (revokeMember memberId expected now) Q b := by
  rw [revokeMember, wp_bind]
  refine wp_observe (fun hclock => ?_) fun _ => herr _ b (Observed.refl now b)
  have hticked := fun e => herr e _ (observed_of_accepts hclock (Or.inl rfl) (Or.inl rfl))
  rw [andThen_ok, wp_bind, wp_checkRevision]
  refine ⟨fun _ => ?_, fun _ => hticked _⟩
  simp only [andThen_ok, wp_bind, wp_get, wp_orElse, wp_ensure, andThen_error, bne_iff_ne]
  refine ⟨fun member hmember => ⟨fun howner => ?_, fun _ => hticked _⟩, fun _ => hticked _⟩
  cases hrevoked : member.revoked with
  | true => exact hdone member hclock hmember howner hrevoked
  | false =>
    simp only [Bool.false_eq_true, if_false, wp_bind, wp_nextRevision]
    refine ⟨fun hrevision => ?_, fun _ => hticked _⟩
    rw [andThen_ok, wp_bind, onCredentials, wp_focus]
    exact CredentialRegistry.wp_revokeMember (hok member hclock hmember howner hrevoked hrevision)
      fun _ => hticked _

/-- **A heartbeat.** -/
theorem wp_heartbeat
    (hok : ∀ node, b.Admits session now → b.revision < maxRevision →
      b.nodes[session.binding.nodeId]? = some node →
      Q (.ok (b.revision + 1)) ((b.seen session.binding.nodeId node now).authorizedAt now))
    (herr : ∀ e b', Observed now b b' → Q (.error e) b') :
    wp (heartbeat session expected now) Q b := by
  rw [heartbeat]
  refine wp_authorized (fun hadmits => ?_) fun b' _ hobs => herr _ b' hobs
  have hticked := fun e => herr e (b.authorizedAt now)
    (observed_of_accepts hadmits.1 (Or.inr ⟨hadmits.2.1, rfl⟩) (Or.inl rfl))
  rw [wp_bind, wp_checkRevision]
  refine ⟨fun _ => ?_, fun _ => hticked _⟩
  rw [andThen_ok, wp_bind, wp_nextRevision]
  refine ⟨fun hrevision => ?_, fun _ => hticked _⟩
  simp only [andThen_ok, wp_bind, wp_get, wp_orElse, andThen_error]
  exact ⟨fun node hnode => hok node hadmits hrevision hnode, fun _ => hticked _⟩

/-- **Moving a task.** -/
theorem wp_setTaskStatus {taskId : String} {next : TaskStatus}
    (hsame : ∀ task, b.clock.Accepts now → b.tasks[taskId]? = some task → task.status = next →
      Q (.ok b.revision) (b.withClocks ⟨now⟩ b.credentials.clock b.invitations.clock))
    (hok : ∀ task, b.clock.Accepts now → b.tasks[taskId]? = some task →
      task.status.allows next = true → b.revision < maxRevision →
      Q (.ok (b.revision + 1))
        ((b.progressed taskId task next).withClocks ⟨now⟩ b.credentials.clock b.invitations.clock))
    (herr : ∀ e b', Observed now b b' → Q (.error e) b') :
    wp (setTaskStatus taskId expected next now) Q b := by
  rw [setTaskStatus, wp_bind]
  refine wp_observe (fun hclock => ?_) fun _ => herr _ b (Observed.refl now b)
  have hticked := fun e => herr e _ (observed_of_accepts hclock (Or.inl rfl) (Or.inl rfl))
  rw [andThen_ok, wp_bind, wp_checkRevision]
  refine ⟨fun _ => ?_, fun _ => hticked _⟩
  simp only [andThen_ok, wp_bind, wp_get, wp_orElse, andThen_error]
  refine ⟨fun task htask => ?_, fun _ => hticked _⟩
  by_cases hnext : task.status = next
  · rw [if_pos (beq_iff_eq.mpr hnext)]
    exact hsame task hclock htask hnext
  · rw [if_neg (by simpa using hnext), wp_bind, wp_ensure]
    refine ⟨fun hallows => ?_, fun _ => hticked _⟩
    rw [andThen_ok, wp_bind, wp_nextRevision]
    exact ⟨fun hrevision => hok task hclock htask hallows hrevision, fun _ => hticked _⟩

/-- **Taking nodes offline.** -/
theorem wp_resetPresence {reason : PresenceReset}
    (hsame : b.clock.Accepts now → ¬b.AnyExpired reason now →
      Q (.ok b.revision) (b.withClocks ⟨now⟩ b.credentials.clock b.invitations.clock))
    (hok : b.clock.Accepts now → b.AnyExpired reason now → b.revision < maxRevision →
      Q (.ok (b.revision + 1))
        ((b.presenceReset reason now).withClocks ⟨now⟩ b.credentials.clock b.invitations.clock))
    (hfull : b.clock.Accepts now → b.AnyExpired reason now → maxRevision ≤ b.revision →
      Q (.error .capacity) (b.withClocks ⟨now⟩ b.credentials.clock b.invitations.clock))
    (herr : ¬b.clock.Accepts now → Q (.error (.access .rejected)) b) :
    wp (resetPresence reason now) Q b := by
  rw [resetPresence, wp_bind]
  refine wp_observe (fun hclock => ?_) herr
  rw [andThen_ok, wp_bind, wp_get, andThen_ok, withClocks_nodes]
  have hany : (StrMap.any b.nodes fun _ => expired now reason) = true ↔ b.AnyExpired reason now :=
    StrMap.any_eq_true
  by_cases h : b.AnyExpired reason now
  · rw [if_pos (hany.mpr h), wp_bind, wp_nextRevision]
    exact ⟨fun hrevision => hok hclock h hrevision, fun hrevision => hfull hclock h hrevision⟩
  · rw [if_neg fun hc => h (hany.mp hc)]
    exact hsame hclock h

theorem Observed.of_authorizedAt {b b' : Brain} (hadmits : b.Admits session now)
    (h : Observed now (b.authorizedAt now) b') : Observed now b b' := by
  obtain ⟨clock, credentials, invitations, hclock, hcredentials, hinvitations, rfl⟩ := h
  have hnow : ∀ {c c' : Clock}, c.Accepts now → Clock.Ticks now ⟨now⟩ c' → c.Ticks now c' := by
    intro c c' hc hticks
    rcases hticks with rfl | ⟨-, rfl⟩ <;> exact Or.inr ⟨hc, rfl⟩
  exact ⟨clock, credentials, invitations, hnow hadmits.1 hclock, hnow hadmits.2.1 hcredentials,
    hinvitations, rfl⟩

theorem wp_admitPayload {Q : Except BrainError Unit → Brain → Prop}
    (hnode : ∀ node, message.admission.payload =
        .node session.binding.nodeId session.binding.memberId session.binding.deviceId →
      b.nodes[session.binding.nodeId]? = some node →
      Q (.ok ()) { b.announced session.binding.nodeId node message now with
        clock := ⟨now⟩, credentials := b.credentials.tick now, replays := b.replays })
    (htask : ∀ taskId, message.admission.payload = .task taskId session.binding.memberId .draft →
      b.tasks[taskId]? = none → b.tasks.size < maxTasks →
      Q (.ok ()) { b.submitted taskId message with replays := b.replays })
    (herr : ∀ e b', Observed now b b' → Q (.error e) b') :
    wp (admitPayload session message (b.revision + 1) now) Q b := by
  have hsame := fun e => herr e b (Observed.refl now b)
  unfold admitPayload
  split
  · next nodeId memberId deviceId hpayload =>
    rw [wp_bind, wp_ensure]
    refine ⟨fun hids => ?_, fun _ => hsame _⟩
    simp only [Bool.and_eq_true, beq_iff_eq] at hids
    obtain ⟨⟨rfl, rfl⟩, rfl⟩ := hids
    rw [andThen_ok, wp_bind]
    refine wp_heartbeat (fun node _ _ hfound => ?_) herr
    have hseen : ((b.seen session.binding.nodeId node now).authorizedAt now).nodes[
        session.binding.nodeId]? = some
          { node with lastSeenAt := some now, online := true, revision := b.revision + 1 } := by
      simp [authorizedAt, seen]
    rw [andThen_ok, wp_bind, wp_get, andThen_ok, wp_bind, hseen, wp_orElse]
    refine ⟨fun node' hnode' => ?_, fun hnone => by cases hnone⟩
    obtain rfl := Option.some.inj hnode'
    have h := hnode node hpayload hfound
    simp only [andThen_ok, wp_modify, authorizedAt, withClocks, seen, StrMap.insert_insert]
    exact h
  · next taskId memberId status hpayload =>
    simp only [wp_bind, wp_get, wp_ensure, andThen_ok,
      andThen_error, wp_modify, Bool.and_eq_true, beq_iff_eq, Bool.not_eq_true',
      StrMap.contains_eq_false, decide_eq_true_eq]
    refine ⟨fun hids => ⟨fun hnew => ⟨fun hroom => ?_, fun _ => hsame _⟩, fun _ => hsame _⟩,
      fun _ => hsame _⟩
    obtain ⟨rfl, rfl⟩ := hids
    exact htask taskId hpayload hnew hroom
  · exact hsame _

/-- **Applying a message**: one that came before is answered as it was then or refused, a
new one announces a node or submits a task, and anything else fails. -/
theorem wp_apply
    (hreplay : ∀ record, b.Admits session now → b.Addressed session message →
      b.findReplay session.binding.nodeId message.admission.key = some record →
      record.fingerprint = message.payloadHash → Q (.ok record.revision) (b.authorizedAt now))
    (hconflict : ∀ record, b.Admits session now → b.Addressed session message →
      b.findReplay session.binding.nodeId message.admission.key = some record →
      record.fingerprint ≠ message.payloadHash → Q (.error .conflict) (b.authorizedAt now))
    (hnode : ∀ node, b.Admits session now → b.CanApply session message now →
      message.admission.payload =
        .node session.binding.nodeId session.binding.memberId session.binding.deviceId →
      b.nodes[session.binding.nodeId]? = some node →
      Q (.ok (b.revision + 1))
        ((b.announced session.binding.nodeId node message now).authorizedAt now))
    (htask : ∀ taskId, b.Admits session now → b.CanApply session message now →
      message.admission.payload = .task taskId session.binding.memberId .draft →
      b.tasks[taskId]? = none → b.tasks.size < maxTasks →
      Q (.ok (b.revision + 1)) ((b.submitted taskId message).authorizedAt now))
    (herr : ∀ e b', Observed now b b' →
      (b.Admits session now → b.Addressed session message →
        b.findReplay session.binding.nodeId message.admission.key = none) → Q (.error e) b') :
    wp (apply session message now) Q b := by
  rw [apply]
  refine wp_authorized (fun hadmits => ?_) fun b' hnot hobs => herr _ b' hobs fun h => absurd h hnot
  have hobs : Observed now b (b.authorizedAt now) :=
    observed_of_accepts hadmits.1 (Or.inr ⟨hadmits.2.1, rfl⟩) (Or.inl rfl)
  rw [wp_bind, wp_get, andThen_ok, wp_bind, wp_ensure]
  refine ⟨fun haddressed => ?_, fun hnot => herr _ _ hobs fun _ h => ?_⟩
  swap
  · simp [authorizedAt, h.1, h.2] at hnot
  simp only [Bool.and_eq_true, beq_iff_eq] at haddressed
  have haddressed : b.Addressed session message := haddressed
  rw [andThen_ok]
  cases hfind : (b.authorizedAt now).findReplay session.binding.nodeId message.admission.key with
  | some record =>
    simp only [wp_lift]
    split
    · next h => exact hreplay record hadmits haddressed hfind (beq_iff_eq.mp h)
    · next h => exact hconflict record hadmits haddressed hfind fun heq => h (beq_iff_eq.mpr heq)
  | none =>
    have hnone : b.Admits session now → b.Addressed session message →
        b.findReplay session.binding.nodeId message.admission.key = none := fun _ _ => hfind
    have hfailed := fun e => herr e (b.authorizedAt now) hobs hnone
    simp only [wp_bind, wp_checkRevision]
    refine ⟨fun hcurrent => ?_, fun _ => hfailed _⟩
    rw [andThen_ok, wp_bind, wp_ensure]
    refine ⟨fun hroom => ?_, fun _ => hfailed _⟩
    rw [andThen_ok, wp_bind, wp_nextRevision]
    refine ⟨fun hrevision => ?_, fun _ => hfailed _⟩
    have hcan : b.CanApply session message now :=
      ⟨hadmits.2.2, haddressed, hfind, hcurrent, of_decide_eq_true hroom, hrevision⟩
    rw [andThen_ok, wp_bind]
    refine wp_admitPayload (fun node hpayload hfound => ?_) (fun taskId hpayload hnew htasks => ?_)
      fun e b' h => herr e b' (h.of_authorizedAt hadmits) hnone
    · have h := hnode node hadmits hcan hpayload hfound
      simp only [announced, replayOf, haddressed.2] at h
      exact h
    · have h := htask taskId hadmits hcan hpayload hnew htasks
      simp only [submitted, replayOf, haddressed.2] at h
      exact h

/-- The Brain from which a page is read: the session was authorized, and the nodes that
were not seen for long are offline. -/
inductive Reset (now : ℤ) (b : Brain) : Brain → Prop
  | same (h : ¬b.AnyExpired .expired now) : Reset now b (b.authorizedAt now)
  | reset (h : b.AnyExpired .expired now) (hrevision : b.revision < maxRevision) :
      Reset now b ((b.presenceReset .expired now).authorizedAt now)

/-- What must hold for a request to be answered with a page. -/
structure CanServe (b : Brain) (memberId : String) (request : ReconcileRequest) : Prop where
  after : request.after ≤ b.revision
  offset : request.offset < maxSharedRecords
  first : request.atRevision = none → request.offset = 0
  revision : ∀ revision, request.atRevision = some revision → revision = b.revision
  count : request.offset = 0 ∨ request.offset < (b.changes memberId request.after).length
  encodes : ∃ bytes, (b.page memberId request).encode = .ok bytes

/-- A page is served exactly when it can be, and serving changes nothing. -/
theorem wp_serve {Q : Except BrainError Page → Brain → Prop}
    (hok : b.CanServe memberId request → Q (.ok (b.page memberId request)) b)
    (herr : ∀ e, ¬b.CanServe memberId request → Q (.error e) b) :
    wp (serve memberId request) Q b := by
  simp only [serve, wp_bind, wp_get, wp_ensure, andThen_ok, andThen_error, wp_lift]
  refine ⟨fun hrequest => ⟨fun hrevision => ⟨fun hcount => ?_, fun hcount => ?_⟩,
    fun hrevision => ?_⟩, fun hrequest => ?_⟩
  · cases hencode : (b.page memberId request).encode with
    | error e =>
      refine herr e fun h => ?_
      obtain ⟨bytes, hbytes⟩ := h.encodes
      rw [hencode] at hbytes
      cases hbytes
    | ok bytes =>
      simp only [Bool.and_eq_true, decide_eq_true_eq, Bool.not_eq_true', Bool.and_eq_false_iff,
        Option.isNone_eq_false_iff, bne_eq_false_iff_eq, Bool.or_eq_false_iff,
        decide_eq_false_iff_not, beq_eq_false_iff_ne,
        Option.all_eq_true] at hrequest hrevision hcount
      obtain ⟨⟨hafter, hoffset⟩, hfirst⟩ := hrequest
      refine hok ⟨hafter, hoffset, fun hnone => ?_, fun revision h => ?_, ?_, bytes, hencode⟩
      · rw [hnone] at hfirst
        simpa using hfirst
      · simpa using hrevision revision h
      · omega
  · refine herr _ fun h => ?_
    have := h.count
    simp only [Bool.not_eq_false', Bool.or_eq_true, decide_eq_true_eq, Bool.and_eq_true,
      beq_iff_eq, bne_iff_ne] at hcount
    omega
  · refine herr _ fun h => ?_
    have hall : (request.atRevision.all fun revision => revision == b.revision) = true :=
      (Option.all_eq_true _ _).mpr fun revision hr => by simpa using h.revision revision hr
    rw [hall] at hrevision
    cases hrevision
  · refine herr _ fun h => ?_
    have hfirst : (request.atRevision.isNone && request.offset != 0) = false := by
      cases hat : request.atRevision with
      | none => simp [h.first hat]
      | some revision => rfl
    simp [h.after, h.offset, hfirst] at hrequest

/-- **Answering a request for a page.** Beyond the clocks it changes at most who is
online – and that it does even where the request is then refused. -/
theorem wp_reconcile {Q : Except BrainError Page → Brain → Prop}
    (hok : ∀ b', b.Admits session now → Reset now b b' →
      b'.CanServe session.binding.memberId request →
      Q (.ok (b'.page session.binding.memberId request)) b')
    (hrefused : ∀ e b', b.Admits session now → Reset now b b' →
      ¬b'.CanServe session.binding.memberId request → Q (.error e) b')
    (herr : ∀ e b', Observed now b b' →
      (b.Admits session now → b.AnyExpired .expired now ∧ maxRevision ≤ b.revision) →
      Q (.error e) b') : wp (reconcile session request now) Q b := by
  rw [reconcile]
  refine wp_authorized (fun hadmits => ?_) fun b' hnot hobs => herr _ b' hobs fun h => absurd h hnot
  have hobs : Observed now b (b.authorizedAt now) :=
    observed_of_accepts hadmits.1 (Or.inr ⟨hadmits.2.1, rfl⟩) (Or.inl rfl)
  have hserve : ∀ b', Reset now b b' →
      wp (serve session.binding.memberId request) Q b' := fun b' hreset =>
    wp_serve (hok b' hadmits hreset) fun e => hrefused e b' hadmits hreset
  rw [wp_bind]
  refine wp_resetPresence (fun _ hnone => ?_) (fun _ hany hrevision => ?_)
    (fun _ hany hfull => ?_) fun hclock => ?_
  · exact hserve _ (.same hnone)
  · exact hserve _ (.reset hany hrevision)
  · exact herr _ _ hobs fun _ => ⟨hany, hfull⟩
  · exact absurd ⟨hadmits.1.1, le_refl _⟩ hclock

end Brain

end Rivloom.Collaboration
