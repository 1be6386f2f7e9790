import Rivloom.Collaboration.Invitation

/-!
# The Brain

The authority of a collaboration (`brain.rs`): its members, their nodes, the tasks they
submitted, and the registries of credentials and invitations, under one revision that
every change increments. Each record carries the revision of its own last change, which
is what lets a node ask only for what it has not seen.

The operations are translated in the order of the source, early returns included. An
operation that fails leaves behind what it had written before it failed: the clock it
observed, an expired invitation it dropped, and – in one place, where a member's id
drawn at random is already taken – a credential without a member. Rolling that back is
the business of the store, not of the Brain.
-/

namespace Rivloom.Collaboration

open Rivloom.Action (ensure focus modify orElse)

/-- The most bytes a Brain may take. -/
def maxBrainBytes : ℕ := 2 * 1024 * 1024

/-- How long a node counts as online after it was last seen. -/
def presenceTtlSeconds : ℤ := 30

/-- Why the Brain refuses. -/
inductive BrainError where
  | invalid | conflict | capacity
  | access (e : AccessError)
  deriving DecidableEq

/-- Who creates a Brain. -/
structure OwnerProfile where
  identityId : String
  deviceId : String
  displayName : String
  deriving DecidableEq

/-- A member. -/
structure MemberRecord where
  identityId : String
  displayName : String
  revoked : Bool
  revision : ℕ
  deriving DecidableEq

/-- A node of a member. -/
structure NodeRecord where
  memberId : String
  deviceId : String
  lastSeenAt : Option ℤ
  online : Bool
  revision : ℕ
  announcement : Option Message
  deriving DecidableEq

/-- A task, with the message that submitted it. -/
structure TaskRecord where
  source : Message
  status : TaskStatus
  revision : ℕ
  deriving DecidableEq

/-- A message that was applied: who sent it under which key, what it said, and the
revision it made. -/
structure ReplayRecord where
  senderNodeId : String
  key : String
  fingerprint : Digest
  revision : ℕ
  deriving DecidableEq

/-- **The Brain.** -/
structure Brain where
  version : ℕ
  brainId : String
  ownerMemberId : String
  revision : ℕ
  clock : Clock
  credentials : CredentialRegistry
  invitations : InvitationRegistry
  members : StrMap MemberRecord
  nodes : StrMap NodeRecord
  tasks : StrMap TaskRecord
  replays : List ReplayRecord
  deriving DecidableEq

/-- Why nodes are taken to be offline. -/
inductive PresenceReset where
  | expired | restart
  deriving DecidableEq

/-- The checks on a name that is shown. -/
def displayName (name : String) : Bool :=
  name.utf8ByteSize ≤ 80 && !trimIsEmpty name && !name.toList.any isControl

/-- An operation of the Brain. -/
abbrev BrainAction (α : Type) : Type := Action Brain BrainError α

namespace Brain

/-! ### The operations -/

/-- Create a Brain; trusted local initialization only. -/
def bootstrap (brainId : String) (owner : OwnerProfile) (random : JoinRandom) (now : ℤ) :
    Except BrainError (Brain × IssuedCredential) :=
  if Protocol.id owner.identityId && Protocol.id owner.deviceId &&
      displayName owner.displayName then do
    let observed := Clock.observe now default
    observed.1.mapError .access
    let credentials ← (CredentialRegistry.new brainId).mapError .access
    let invitations ← (InvitationRegistry.new brainId).mapError .access
    let memberToken ← (SecretToken.generate random.member).mapError .access
    let ownerMemberId := "member-" ++ memberToken.exposeSecret
    let nodeToken ← (SecretToken.generate random.node).mapError .access
    let nodeId := "node-" ++ nodeToken.exposeSecret
    let issued := CredentialRegistry.issue
      { brainId, memberId := ownerMemberId, nodeId, deviceId := owner.deviceId } random.secret now
      credentials
    let credential ← issued.1.mapError .access
    return ({
      version := 1, brainId, ownerMemberId, revision := 1, clock := observed.2
      credentials := issued.2, invitations
      members := (∅ : StrMap MemberRecord).insert ownerMemberId
        { identityId := owner.identityId, displayName := owner.displayName, revoked := false
          revision := 1 }
      nodes := (∅ : StrMap NodeRecord).insert credential.binding.nodeId
        { memberId := ownerMemberId, deviceId := owner.deviceId, lastSeenAt := none
          announcement := none, online := false, revision := 1 }
      tasks := ∅, replays := [] }, credential)
  else .error .invalid

/-- Work on the credentials. -/
def onCredentials {α : Type} (x : Action CredentialRegistry AccessError α) : BrainAction α :=
  focus credentials (fun credentials b => { b with credentials }) .access x

/-- Work on the invitations. -/
def onInvitations {α : Type} (x : Action InvitationRegistry AccessError α) : BrainAction α :=
  focus invitations (fun invitations b => { b with invitations }) .access x

/-- Work on both registries. -/
def onBoth {α : Type} (x : Action InvitationRegistry.Both AccessError α) : BrainAction α :=
  focus (fun b => (b.invitations, b.credentials))
    (fun both b => { b with invitations := both.1, credentials := both.2 }) .access x

/-- Observe a time, which may not be before the latest one. -/
def observe (now : ℤ) : BrainAction Unit :=
  focus clock (fun clock b => { b with clock }) .access (Clock.observe now)

/-- The caller knows the current revision. -/
def checkRevision (expected : ℕ) : BrainAction Unit := do
  let b ← Action.get
  ensure (expected == b.revision) .conflict

/-- The revision of the next change. -/
def nextRevision : BrainAction ℕ := do
  let b ← Action.get
  orElse ((U64.checkedAdd b.revision 1).filter fun v => v ≤ maxRevision) .capacity

/-- Authenticate a node. -/
def connect (binding : CredentialBinding) (secret : SecretToken) (now : ℤ) :
    BrainAction ConnectionIdentity := do
  observe now
  onCredentials (CredentialRegistry.connect binding secret now)

/-- Create an invitation. -/
def createInvitation (randomId randomSecret : Random) (now : ℤ) :
    BrainAction IssuedInvitation := do
  observe now
  let revision ← nextRevision
  let invitation ← onInvitations (InvitationRegistry.create randomId randomSecret now)
  modify fun b => { b with revision }
  return invitation

/-- Cancel an invitation. -/
def cancelInvitation (invitationId : String) (now : ℤ) : BrainAction Unit := do
  observe now
  let revision ← nextRevision
  onInvitations (InvitationRegistry.cancel invitationId)
  modify fun b => { b with revision }

/-- Redeem an invitation and enroll the new member with its node. -/
def join (request : JoinRequest) (random : JoinRandom) (now : ℤ) : BrainAction Enrollment := do
  observe now
  ensure (displayName request.displayName) .invalid
  let revision ← nextRevision
  let enrollment ← onBoth (InvitationRegistry.redeem request random now)
  let binding := enrollment.credential.binding
  let b ← Action.get
  ensure (!b.members.contains binding.memberId) .conflict
  modify fun b =>
    { b with
      members := b.members.insert binding.memberId
        { identityId := enrollment.member.identityId
          displayName := enrollment.member.displayName, revoked := false, revision }
      nodes := b.nodes.insert binding.nodeId
        { memberId := binding.memberId, deviceId := binding.deviceId, lastSeenAt := none
          announcement := none, online := false, revision }
      revision }
  return enrollment

/-- Revoke a member other than the owner; trusted local administration. -/
def revokeMember (memberId : String) (expectedRevision : ℕ) (now : ℤ) : BrainAction ℕ := do
  observe now
  checkRevision expectedRevision
  let b ← Action.get
  let member ← orElse b.members[memberId]? .invalid
  ensure (memberId != b.ownerMemberId) .invalid
  if member.revoked then
    return b.revision
  else
    let revision ← nextRevision
    onCredentials (CredentialRegistry.revokeMember memberId)
    modify fun b =>
      { b with
        members := b.members.insert memberId { member with revoked := true, revision }
        nodes := b.nodes.update (fun node => node.memberId == memberId)
          fun node => { node with online := false, revision }
        revision }
    return revision

/-- A node shows that it is there. -/
def heartbeat (session : ConnectionIdentity) (expectedRevision : ℕ) (now : ℤ) :
    BrainAction ℕ := do
  observe now
  onCredentials (CredentialRegistry.authorizeTask session now)
  checkRevision expectedRevision
  let revision ← nextRevision
  let b ← Action.get
  let node ← orElse b.nodes[session.binding.nodeId]? .invalid
  modify fun b =>
    { b with
      nodes := b.nodes.insert session.binding.nodeId
        { node with lastSeenAt := some now, online := true, revision }
      revision }
  return revision

/-- A node that is to be taken offline. -/
def expired (now : ℤ) (reason : PresenceReset) (node : NodeRecord) : Bool :=
  node.online &&
    match reason with
    | .restart => true
    | .expired =>
      node.lastSeenAt.all fun seen => presenceTtlSeconds ≤ I64.saturatingSub now seen

/-- Take nodes offline that were not seen for long, or all of them after a restart. -/
def resetPresence (reason : PresenceReset) (now : ℤ) : BrainAction ℕ := do
  observe now
  let b ← Action.get
  if b.nodes.any fun _ => expired now reason then
    let revision ← nextRevision
    modify fun b =>
      { b with
        nodes := b.nodes.update (expired now reason) fun node =>
          { node with online := false, revision }
        revision }
    return revision
  else
    return b.revision

end Brain

end Rivloom.Collaboration
