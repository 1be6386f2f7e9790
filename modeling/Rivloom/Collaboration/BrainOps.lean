import Rivloom.Collaboration.BrainSteps

/-!
# The Brain as a state machine

The operations as one type, `Rivloom.Collaboration.BrainOp`, with one function that runs
them, so that a run of the Brain is a list. `Rivloom.Collaboration.Brain.Change` is what
an operation can do to the Brain besides moving its clocks – ten kinds of change, each
with the conditions under which it is made – and `Rivloom.Collaboration.BrainOp.wp_run`
says that there is nothing else: an operation that returns has made one change, and one
that fails has left what `Rivloom.Collaboration.Brain.Refused` allows.
-/

namespace Rivloom.Collaboration

open Rivloom.Action (of_wp wp wp_map)

variable {b b' : Brain} {now : ℤ}

/-- The operations of the Brain, with what they are given and what they draw at random. -/
inductive BrainOp where
  | connect (binding : CredentialBinding) (secret : SecretToken)
  | createInvitation (randomId randomSecret : Random)
  | cancelInvitation (invitationId : String)
  | join (request : JoinRequest) (random : JoinRandom)
  | revokeMember (memberId : String) (expectedRevision : ℕ)
  | heartbeat (session : ConnectionIdentity) (expectedRevision : ℕ)
  | apply (session : ConnectionIdentity) (message : Message)
  | setTaskStatus (taskId : String) (expectedRevision : ℕ) (next : TaskStatus)
  | resetPresence (reason : PresenceReset)
  | reconcile (session : ConnectionIdentity) (request : ReconcileRequest)

/-- What an operation returns. -/
inductive BrainReply where
  | session (session : ConnectionIdentity)
  | invitation (invitation : IssuedInvitation)
  | done
  | enrollment (enrollment : Enrollment)
  | revision (revision : ℕ)
  | page (page : Page)

/-- Run an operation at a time. -/
def BrainOp.run (now : ℤ) : BrainOp → BrainAction BrainReply
  | .connect binding secret => .session <$> Brain.connect binding secret now
  | .createInvitation randomId randomSecret =>
    .invitation <$> Brain.createInvitation randomId randomSecret now
  | .cancelInvitation invitationId =>
    (fun _ => .done) <$> Brain.cancelInvitation invitationId now
  | .join request random => .enrollment <$> Brain.join request random now
  | .revokeMember memberId expected => .revision <$> Brain.revokeMember memberId expected now
  | .heartbeat session expected => .revision <$> Brain.heartbeat session expected now
  | .apply session message => .revision <$> Brain.apply session message now
  | .setTaskStatus taskId expected next =>
    .revision <$> Brain.setTaskStatus taskId expected next now
  | .resetPresence reason => .revision <$> Brain.resetPresence reason now
  | .reconcile session request => .page <$> Brain.reconcile session request now

namespace Brain

variable {session : ConnectionIdentity}

/-- **What an operation can do to the Brain**, once its clocks have moved. -/
inductive Change (now : ℤ) (b : Brain) : Brain → Prop
  | same : Change now b b
  | invited (token secret : SecretToken) (hclock : b.invitations.clock = ⟨now⟩)
      (hrevision : b.revision < maxRevision) (hcan : b.invitations.CanCreate token now) :
      Change now b (b.invited token secret now)
  | cancelled (invitationId : String) (invitation : PendingInvitation)
      (hrevision : b.revision < maxRevision)
      (hpending : b.invitations.pending[invitationId]? = some invitation) :
      Change now b (b.cancelled invitationId)
  | enrolled (request : JoinRequest) (invitation : PendingInvitation)
      (memberToken nodeToken secret : SecretToken) (hclock : b.credentials.clock = ⟨now⟩)
      (hname : displayName request.displayName = true) (hrevision : b.revision < maxRevision)
      (hredeem : b.invitations.CanRedeem request now invitation)
      (hissue : b.credentials.CanIssue
        (b.invitations.joinBinding request memberToken nodeToken) now)
      (hnew : b.members["member-" ++ memberToken.text]? = none) :
      Change now b
        (b.enrolled request (b.invitations.joinBinding request memberToken nodeToken) secret now)
  | revoked (memberId : String) (member : MemberRecord)
      (hmember : b.members[memberId]? = some member) (howner : memberId ≠ b.ownerMemberId)
      (hunrevoked : member.revoked = false) (hrevision : b.revision < maxRevision) :
      Change now b (b.revoked memberId member)
  | seen (session : ConnectionIdentity) (node : NodeRecord)
      (hauthorized : b.credentials.Authorized session now) (hrevision : b.revision < maxRevision)
      (hnode : b.nodes[session.binding.nodeId]? = some node) :
      Change now b (b.seen session.binding.nodeId node now)
  | announced (session : ConnectionIdentity) (message : Message) (node : NodeRecord)
      (hcan : b.CanApply session message now)
      (hpayload : message.admission.payload =
        .node session.binding.nodeId session.binding.memberId session.binding.deviceId)
      (hnode : b.nodes[session.binding.nodeId]? = some node) :
      Change now b (b.announced session.binding.nodeId node message now)
  | submitted (session : ConnectionIdentity) (message : Message) (taskId : String)
      (hcan : b.CanApply session message now)
      (hpayload : message.admission.payload = .task taskId session.binding.memberId .draft)
      (hnew : b.tasks[taskId]? = none) (hroom : b.tasks.size < maxTasks) :
      Change now b (b.submitted taskId message)
  | progressed (taskId : String) (task : TaskRecord) (next : TaskStatus)
      (htask : b.tasks[taskId]? = some task) (hallows : task.status.allows next = true)
      (hrevision : b.revision < maxRevision) : Change now b (b.progressed taskId task next)
  | presenceReset (reason : PresenceReset) (hany : b.AnyExpired reason now)
      (hrevision : b.revision < maxRevision) : Change now b (b.presenceReset reason now)

/-- **What an operation that returns does**: it observes the time and makes one change. -/
def Changed (now : ℤ) (b b' : Brain) : Prop :=
  b.clock.Accepts now ∧ ∃ credentials invitations,
    b.credentials.clock.Ticks now credentials ∧ b.invitations.clock.Ticks now invitations ∧
    Change now (b.withClocks ⟨now⟩ credentials invitations) b'

theorem Changed.of_authorizedAt (hadmits : b.Admits session now)
    (h : Change now (b.authorizedAt now) b') : Changed now b b' :=
  ⟨hadmits.1, ⟨now⟩, b.invitations.clock, Or.inr ⟨hadmits.2.1, rfl⟩, Or.inl rfl, h⟩

theorem Changed.of_clock (hclock : b.clock.Accepts now)
    (h : Change now (b.withClocks ⟨now⟩ b.credentials.clock b.invitations.clock) b') :
    Changed now b b' :=
  ⟨hclock, b.credentials.clock, b.invitations.clock, Or.inl rfl, Or.inl rfl, h⟩

theorem Changed.of_reset (hadmits : b.Admits session now) (h : Reset now b b') :
    Changed now b b' := by
  cases h with
  | same h => exact .of_authorizedAt hadmits .same
  | reset hany hrevision => exact .of_authorizedAt hadmits (.presenceReset .expired hany hrevision)

theorem Refused.of_reset (hadmits : b.Admits session now) (h : Reset now b b') :
    Refused now b b' := by
  have hobs : Observed now b (b.authorizedAt now) :=
    observed_of_accepts hadmits.1 (Or.inr ⟨hadmits.2.1, rfl⟩) (Or.inl rfl)
  cases h with
  | same h => exact .of_observed hobs
  | reset hany hrevision => exact ⟨_, hobs, .reset hany hrevision⟩

end Brain

namespace BrainOp

variable {reply : BrainReply} {op : BrainOp}

/-- **What each operation returns and does**, when it returns. -/
inductive Effect (now : ℤ) (b : Brain) : BrainOp → BrainReply → Brain → Prop
  | connected {binding : CredentialBinding} {secret : SecretToken} (record : StoredCredential)
      (hclock : b.clock.Accepts now) (hcredentials : b.credentials.clock.Accepts now)
      (hactive : b.credentials.Active binding now record)
      (hsecret : secret.digest .nodeCredential = record.verifier) :
      Effect now b (.connect binding secret) (.session ⟨binding, record.verifier⟩)
        (b.authorizedAt now)
  | invited {randomId randomSecret : Random} (token secret : SecretToken)
      (htoken : SecretToken.generate randomId = .ok token)
      (hsecret : SecretToken.generate randomSecret = .ok secret) (hclock : b.clock.Accepts now)
      (hinvitations : b.invitations.clock.Accepts now) (hrevision : b.revision < maxRevision)
      (hcan : b.invitations.CanCreate token now) :
      Effect now b (.createInvitation randomId randomSecret)
        (.invitation ⟨b.invitations.brainId, token.text, now + invitationTtlSeconds, secret⟩)
        ((b.invited token secret now).withClocks ⟨now⟩ b.credentials.clock ⟨now⟩)
  | cancelled {invitationId : String} (invitation : PendingInvitation)
      (hclock : b.clock.Accepts now) (hrevision : b.revision < maxRevision)
      (hpending : b.invitations.pending[invitationId]? = some invitation) :
      Effect now b (.cancelInvitation invitationId) .done
        ((b.cancelled invitationId).withClocks ⟨now⟩ b.credentials.clock b.invitations.clock)
  | enrolled {request : JoinRequest} {random : JoinRandom} (invitation : PendingInvitation)
      (memberToken nodeToken secret : SecretToken)
      (hmember : SecretToken.generate random.member = .ok memberToken)
      (hnode : SecretToken.generate random.node = .ok nodeToken)
      (hsecret : SecretToken.generate random.secret = .ok secret) (hclock : b.clock.Accepts now)
      (hinvitations : b.invitations.clock.Accepts now)
      (hcredentials : b.credentials.clock.Accepts now)
      (hname : displayName request.displayName = true) (hrevision : b.revision < maxRevision)
      (hredeem : b.invitations.CanRedeem request now invitation)
      (hissue : b.credentials.CanIssue
        (b.invitations.joinBinding request memberToken nodeToken) now)
      (hnew : b.members["member-" ++ memberToken.text]? = none) :
      Effect now b (.join request random)
        (.enrollment
          { member := ⟨"member-" ++ memberToken.text, request.identityId,
            request.displayName, .member⟩
            credential := ⟨b.invitations.joinBinding request memberToken nodeToken,
              now + credentialTtlSeconds, secret⟩ })
        ((b.enrolled request (b.invitations.joinBinding request memberToken nodeToken) secret
          now).withClocks ⟨now⟩ ⟨now⟩ ⟨now⟩)
  | alreadyRevoked {memberId : String} {expected : ℕ} (member : MemberRecord)
      (hclock : b.clock.Accepts now) (hmember : b.members[memberId]? = some member)
      (howner : memberId ≠ b.ownerMemberId) (hrevoked : member.revoked = true) :
      Effect now b (.revokeMember memberId expected) (.revision b.revision)
        (b.withClocks ⟨now⟩ b.credentials.clock b.invitations.clock)
  | revoked {memberId : String} {expected : ℕ} (member : MemberRecord)
      (hclock : b.clock.Accepts now) (hmember : b.members[memberId]? = some member)
      (howner : memberId ≠ b.ownerMemberId) (hunrevoked : member.revoked = false)
      (hrevision : b.revision < maxRevision) :
      Effect now b (.revokeMember memberId expected) (.revision (b.revision + 1))
        ((b.revoked memberId member).withClocks ⟨now⟩ b.credentials.clock b.invitations.clock)
  | seen {session : ConnectionIdentity} {expected : ℕ} (node : NodeRecord)
      (hadmits : b.Admits session now) (hrevision : b.revision < maxRevision)
      (hnode : b.nodes[session.binding.nodeId]? = some node) :
      Effect now b (.heartbeat session expected) (.revision (b.revision + 1))
        ((b.seen session.binding.nodeId node now).authorizedAt now)
  | replayed {session : ConnectionIdentity} {message : Message} (record : ReplayRecord)
      (hadmits : b.Admits session now) (haddressed : b.Addressed session message)
      (hfound : b.findReplay session.binding.nodeId message.admission.key = some record)
      (hsame : record.fingerprint = message.payloadHash) :
      Effect now b (.apply session message) (.revision record.revision) (b.authorizedAt now)
  | announced {session : ConnectionIdentity} {message : Message} (node : NodeRecord)
      (hadmits : b.Admits session now) (hcan : b.CanApply session message now)
      (hpayload : message.admission.payload =
        .node session.binding.nodeId session.binding.memberId session.binding.deviceId)
      (hnode : b.nodes[session.binding.nodeId]? = some node) :
      Effect now b (.apply session message) (.revision (b.revision + 1))
        ((b.announced session.binding.nodeId node message now).authorizedAt now)
  | submitted {session : ConnectionIdentity} {message : Message} (taskId : String)
      (hadmits : b.Admits session now) (hcan : b.CanApply session message now)
      (hpayload : message.admission.payload = .task taskId session.binding.memberId .draft)
      (hnew : b.tasks[taskId]? = none) (hroom : b.tasks.size < maxTasks) :
      Effect now b (.apply session message) (.revision (b.revision + 1))
        ((b.submitted taskId message).authorizedAt now)
  | unmoved {taskId : String} {expected : ℕ} {next : TaskStatus} (task : TaskRecord)
      (hclock : b.clock.Accepts now) (htask : b.tasks[taskId]? = some task)
      (hstatus : task.status = next) :
      Effect now b (.setTaskStatus taskId expected next) (.revision b.revision)
        (b.withClocks ⟨now⟩ b.credentials.clock b.invitations.clock)
  | progressed {taskId : String} {expected : ℕ} {next : TaskStatus} (task : TaskRecord)
      (hclock : b.clock.Accepts now) (htask : b.tasks[taskId]? = some task)
      (hallows : task.status.allows next = true) (hrevision : b.revision < maxRevision) :
      Effect now b (.setTaskStatus taskId expected next) (.revision (b.revision + 1))
        ((b.progressed taskId task next).withClocks ⟨now⟩ b.credentials.clock b.invitations.clock)
  | noneExpired {reason : PresenceReset} (hclock : b.clock.Accepts now)
      (hnone : ¬b.AnyExpired reason now) :
      Effect now b (.resetPresence reason) (.revision b.revision)
        (b.withClocks ⟨now⟩ b.credentials.clock b.invitations.clock)
  | presenceReset {reason : PresenceReset} (hclock : b.clock.Accepts now)
      (hany : b.AnyExpired reason now) (hrevision : b.revision < maxRevision) :
      Effect now b (.resetPresence reason) (.revision (b.revision + 1))
        ((b.presenceReset reason now).withClocks ⟨now⟩ b.credentials.clock b.invitations.clock)
  | served {session : ConnectionIdentity} {request : ReconcileRequest} {b' : Brain}
      (hadmits : b.Admits session now) (hreset : Brain.Reset now b b')
      (hserve : b'.CanServe session.binding.memberId request) :
      Effect now b (.reconcile session request)
        (.page (b'.page session.binding.memberId request)) b'

/-- The outcome of an operation: its effect where it returns, and little where it
fails. -/
def Outcome (op : BrainOp) (now : ℤ) (b : Brain) (r : Except BrainError BrainReply) (b' : Brain) :
    Prop :=
  match r with
  | .ok reply => Effect now b op reply b'
  | .error _ => Brain.Refused now b b'

/-- **Whatever an operation does is its effect or a refusal.** -/
theorem wp_run (op : BrainOp) (now : ℤ) (b : Brain) : wp (op.run now) (op.Outcome now b) b := by
  have herr : ∀ (op : BrainOp) (e : BrainError) (b' : Brain), Brain.Observed now b b' →
      op.Outcome now b (.error e) b' := fun _ _ _ h => Brain.Refused.of_observed h
  cases op with
  | connect binding secret =>
    rw [run, wp_map]
    exact Brain.wp_connect (fun record => .connected record) fun b' h => herr _ _ b' h
  | createInvitation randomId randomSecret =>
    rw [run, wp_map]
    exact Brain.wp_createInvitation (fun token secret => .invited token secret) fun _ _ h => h
  | cancelInvitation invitationId =>
    rw [run, wp_map]
    exact Brain.wp_cancelInvitation (fun invitation => .cancelled invitation) (herr _)
  | join request random =>
    rw [run, wp_map]
    exact Brain.wp_join (fun invitation memberToken nodeToken secret =>
      .enrolled invitation memberToken nodeToken secret) fun _ _ h => h
  | revokeMember memberId expected =>
    rw [run, wp_map]
    exact Brain.wp_revokeMember (fun member => .alreadyRevoked member)
      (fun member => .revoked member)
      (herr _)
  | heartbeat session expected =>
    rw [run, wp_map]
    exact Brain.wp_heartbeat (fun node => .seen node) (herr _)
  | apply session message =>
    rw [run, wp_map]
    refine Brain.wp_apply (fun record => .replayed record) (fun record hadmits _ _ _ => ?_)
      (fun node => .announced node) (fun taskId => .submitted taskId) fun e b' h _ => herr _ e b' h
    exact herr _ _ _ (Brain.observed_of_accepts hadmits.1 (Or.inr ⟨hadmits.2.1, rfl⟩) (Or.inl rfl))
  | setTaskStatus taskId expected next =>
    rw [run, wp_map]
    exact Brain.wp_setTaskStatus (fun task => .unmoved task) (fun task => .progressed task) (herr _)
  | resetPresence reason =>
    rw [run, wp_map]
    refine Brain.wp_resetPresence .noneExpired .presenceReset (fun hclock _ _ => ?_) fun _ => ?_
    · exact herr _ _ _ (Brain.observed_of_accepts hclock (Or.inl rfl) (Or.inl rfl))
    · exact herr _ _ _ (Brain.Observed.refl now b)
  | reconcile session request =>
    rw [run, wp_map]
    exact Brain.wp_reconcile (fun _ => .served)
      (fun _ _ hadmits hreset _ => Brain.Refused.of_reset hadmits hreset)
      fun e b' h _ => herr _ e b' h

theorem effect_of_run (h : op.run now b = (.ok reply, b')) : Effect now b op reply b' :=
  of_wp (op.wp_run now b) h

/-- **Every effect is a change.** -/
theorem Effect.changed (h : Effect now b op reply b') : Brain.Changed now b b' := by
  cases h with
  | connected record hclock hcredentials hactive hsecret =>
    exact ⟨hclock, ⟨now⟩, b.invitations.clock, Or.inr ⟨hcredentials, rfl⟩, Or.inl rfl, .same⟩
  | invited token secret htoken hsecret hclock hinvitations hrevision hcan =>
    exact ⟨hclock, b.credentials.clock, ⟨now⟩, Or.inl rfl, Or.inr ⟨hinvitations, rfl⟩,
      .invited token secret rfl hrevision (hcan.of_clock _)⟩
  | cancelled invitation hclock hrevision hpending =>
    exact .of_clock hclock (.cancelled _ invitation hrevision hpending)
  | enrolled invitation memberToken nodeToken secret _ _ _ hclock hinvitations hcredentials hname
      hrevision hredeem hissue hnew =>
    exact ⟨hclock, ⟨now⟩, ⟨now⟩, Or.inr ⟨hcredentials, rfl⟩, Or.inr ⟨hinvitations, rfl⟩,
      .enrolled _ invitation memberToken nodeToken secret rfl hname hrevision
        (hredeem.of_clock _) (hissue.of_clock _) hnew⟩
  | alreadyRevoked member hclock | unmoved task hclock | noneExpired hclock =>
    exact .of_clock hclock .same
  | revoked member hclock hmember howner hunrevoked hrevision =>
    exact .of_clock hclock (.revoked _ member hmember howner hunrevoked hrevision)
  | seen node hadmits hrevision hnode =>
    exact .of_authorizedAt hadmits (.seen _ node hadmits.2.2 hrevision hnode)
  | replayed record hadmits => exact .of_authorizedAt hadmits .same
  | announced node hadmits hcan hpayload hnode =>
    exact .of_authorizedAt hadmits (.announced _ _ node (hcan.of_clocks _ _ _) hpayload hnode)
  | submitted taskId hadmits hcan hpayload hnew hroom =>
    exact .of_authorizedAt hadmits (.submitted _ _ taskId (hcan.of_clocks _ _ _)
      hpayload hnew hroom)
  | progressed task hclock htask hallows hrevision =>
    exact .of_clock hclock (.progressed _ task _ htask hallows hrevision)
  | presenceReset hclock hany hrevision =>
    exact .of_clock hclock (.presenceReset _ hany hrevision)
  | served hadmits hreset hserve => exact .of_reset hadmits hreset

/-- **Whatever an operation does is one change or one refusal.** -/
theorem changed_or_refused (op : BrainOp) (now : ℤ) (b : Brain) :
    Brain.Changed now b (op.run now b).2 ∨ Brain.Refused now b (op.run now b).2 := by
  have h := op.wp_run now b
  rw [wp] at h
  cases hr : (op.run now b).1 with
  | ok reply =>
    rw [hr] at h
    exact Or.inl (Effect.changed h)
  | error e =>
    rw [hr] at h
    exact Or.inr h

end BrainOp

end Rivloom.Collaboration
