import Rivloom.Collaboration.Credential

/-!
# Invitations

The registry of the invitations that are pending (`invitation.rs`). An invitation lasts
ten minutes and is known to the registry only by the hash of its secret. Redeeming it
draws the ids of the new member and of its node and issues the first credential; the
invitation is consumed only after that, so that whatever is refused before leaves it
usable.

Creating an invitation first drops the ones that have expired. That happens even where
the creation is then refused.
-/

namespace Rivloom.Collaboration

open Rivloom.Action (andThen_error andThen_ok ensure focus lift modify orElse wp wp_bind wp_ensure
  wp_focus wp_get wp_lift wp_modify wp_orElse)
open Protocol (hex i64 i64_ok_of_timestamp timestamp)

/-- The most invitations that may be pending. -/
def maxPendingInvitations : ℕ := 32

/-- How long an invitation lasts. -/
def invitationTtlSeconds : ℤ := 10 * 60

/-- A new invitation, with its secret. -/
structure IssuedInvitation where
  brainId : String
  invitationId : String
  expiresAt : ℤ
  secret : SecretToken
  deriving DecidableEq

/-- What somebody who wants to join presents; nothing in it is trusted. -/
structure JoinRequest where
  brainId : String
  invitationId : String
  secret : SecretToken
  identityId : String
  deviceId : String
  displayName : String
  deriving DecidableEq

/-- The role of somebody who joined. -/
inductive JoinedRole where
  | member
  deriving DecidableEq

/-- Somebody who joined. -/
structure JoinedMember where
  memberId : String
  identityId : String
  displayName : String
  role : JoinedRole
  deriving DecidableEq

/-- The outcome of joining. -/
structure Enrollment where
  member : JoinedMember
  credential : IssuedCredential
  deriving DecidableEq

/-- What the registry keeps of an invitation. -/
structure PendingInvitation where
  verifier : Digest
  issuedAt : ℤ
  expiresAt : ℤ
  deriving DecidableEq

def PendingInvitation.codec : Codec PendingInvitation :=
  .struct
    (.cons "verifier" digestCodec <| .cons "issuedAt" i64 <|
      .cons "expiresAt" i64 .nil)
    ⟨fun v => (v.verifier, v.issuedAt, v.expiresAt, ()), fun (a, b, c, _) => ⟨a, b, c⟩,
      fun _ => rfl, fun _ => rfl⟩ (by decide)

/-- **The registry of invitations**, by their public ids. -/
structure InvitationRegistry where
  brainId : String
  clock : Clock
  pending : StrMap PendingInvitation
  deriving DecidableEq

namespace InvitationRegistry

def highWaterAt (registry : InvitationRegistry) : ℤ := registry.clock.highWaterAt

/-- An empty registry. -/
def new (brainId : String) : Except AccessError InvitationRegistry :=
  if Protocol.id brainId then .ok ⟨brainId, default, ∅⟩ else .error .rejected

/-- Observe a time on the registry's own clock. -/
def observe (now : ℤ) : Action InvitationRegistry AccessError Unit :=
  focus clock (fun clock registry => { registry with clock }) id (Clock.observe now)

/-- The invitations that have not expired. -/
def unexpired (registry : InvitationRegistry) (now : ℤ) : StrMap PendingInvitation :=
  registry.pending.filter fun _ invitation => now < invitation.expiresAt

/-- Create an invitation; trusted administration only. The two draws are of its public
id and of its secret. -/
def create (randomId randomSecret : Random) (now : ℤ) :
    Action InvitationRegistry AccessError IssuedInvitation := do
  observe now
  let expiresAt ← orElse
    ((I64.checkedAdd now invitationTtlSeconds).filter timestamp) .rejected
  modify fun registry => { registry with pending := registry.unexpired now }
  let registry ← Action.get
  ensure (registry.pending.size < maxPendingInvitations) .capacity
  let token ← lift (SecretToken.generate randomId)
  let invitationId := token.exposeSecret
  ensure (!registry.pending.contains invitationId) .rejected
  let secret ← lift (SecretToken.generate randomSecret)
  modify fun registry =>
    { registry with
      pending := registry.pending.insert invitationId
        { verifier := secret.digest .invitation, issuedAt := now, expiresAt } }
  return { brainId := registry.brainId, invitationId, expiresAt, secret }

end InvitationRegistry

/-- The checks on the texts of a request. -/
def JoinRequest.valid (request : JoinRequest) : Bool :=
  [request.invitationId, request.identityId, request.deviceId].all Protocol.id &&
    request.displayName.utf8ByteSize ≤ 256 && !trimIsEmpty request.displayName &&
    !request.displayName.toList.any isControl

/-- The draws of one redemption: the member's id, the node's id and the secret. -/
structure JoinRandom where
  member : Random
  node : Random
  secret : Random

namespace InvitationRegistry

variable {registry : InvitationRegistry} {invitation : PendingInvitation}
  {Q : Except AccessError Unit → InvitationRegistry → Prop} {now : ℤ} {request : JoinRequest}
  {key : String}

/-- The two registries a redemption works on. -/
abbrev Both : Type := InvitationRegistry × CredentialRegistry

/-- Redeem an invitation. -/
def redeem (request : JoinRequest) (random : JoinRandom) (now : ℤ) :
    Action Both AccessError Enrollment := do
  focus Prod.fst (fun registry both => (registry, both.2)) id (observe now)
  let (registry, _) ← Action.get
  ensure (request.brainId == registry.brainId && request.valid) .rejected
  let invitation ← orElse registry.pending[request.invitationId]? .rejected
  ensure (invitation.issuedAt ≤ now && now < invitation.expiresAt &&
    request.secret.matchesDigest invitation.verifier .invitation) .rejected
  let memberToken ← lift (SecretToken.generate random.member)
  let memberId := "member-" ++ memberToken.exposeSecret
  let nodeToken ← lift (SecretToken.generate random.node)
  let nodeId := "node-" ++ nodeToken.exposeSecret
  let credential ← focus Prod.snd (fun credentials both => (both.1, credentials)) id
    (CredentialRegistry.issue
      { brainId := registry.brainId, memberId, nodeId, deviceId := request.deviceId }
      random.secret now)
  modify fun (registry, credentials) =>
    ({ registry with pending := registry.pending.erase request.invitationId }, credentials)
  return { member := { memberId, identityId := request.identityId,
                       displayName := request.displayName, role := .member }
           credential }

/-- Cancel an invitation; trusted administration only. -/
def cancel (invitationId : String) : Action InvitationRegistry AccessError Unit := do
  let registry ← Action.get
  modify fun registry => { registry with pending := registry.pending.erase invitationId }
  ensure (registry.pending.contains invitationId) .rejected

/-! ### What the operations do -/

/-- The registry after it observed a time. -/
def tick (registry : InvitationRegistry) (now : ℤ) : InvitationRegistry :=
  { registry with clock := ⟨now⟩ }

@[simp] theorem tick_brainId (registry : InvitationRegistry) (now : ℤ) :
    (registry.tick now).brainId = registry.brainId := rfl

@[simp] theorem tick_pending (registry : InvitationRegistry) (now : ℤ) :
    (registry.tick now).pending = registry.pending := rfl

theorem wp_observe (hok : registry.clock.Accepts now → Q (.ok ()) (registry.tick now))
    (herr : ¬registry.clock.Accepts now → Q (.error .rejected) registry) :
    wp (observe now) Q registry := by
  rw [observe, wp_focus, wp, Clock.observe_eq]
  split
  · next h => exact hok h
  · next h => exact herr h

theorem getElem?_unexpired :
    (registry.unexpired now)[key]? = some invitation ↔
      registry.pending[key]? = some invitation ∧ now < invitation.expiresAt := by
  rw [unexpired, StrMap.getElem?_filter, Option.filter_eq_some_iff, decide_eq_true_eq]

/-- An invitation created now. -/
def issuedInvitation (secret : SecretToken) (now : ℤ) : PendingInvitation :=
  { verifier := secret.digest .invitation, issuedAt := now
    expiresAt := now + invitationTtlSeconds }

/-- What must hold for an invitation to be created. -/
structure CanCreate (registry : InvitationRegistry) (token : SecretToken) (now : ℤ) : Prop where
  expires : timestamp (now + invitationTtlSeconds) = true
  room : (registry.unexpired now).size < maxPendingInvitations
  fresh : (registry.unexpired now)[token.text]? = none

/-- Whether an invitation can be created depends on the pending ones, not on the clock. -/
theorem CanCreate.of_clock {token : SecretToken} (h : registry.CanCreate token now)
    (clock : Clock) : CanCreate { registry with clock } token now :=
  ⟨h.expires, h.room, h.fresh⟩

/-- **An invitation is created** beside the ones that have not expired; a refusal may
have dropped the expired ones. -/
theorem wp_create {randomId randomSecret : Random}
    {Q : Except AccessError IssuedInvitation → InvitationRegistry → Prop}
    (hok : ∀ token secret, SecretToken.generate randomId = .ok token →
      SecretToken.generate randomSecret = .ok secret → registry.clock.Accepts now →
      registry.CanCreate token now →
      Q (.ok ⟨registry.brainId, token.text, now + invitationTtlSeconds, secret⟩)
        { registry.tick now with
          pending := (registry.unexpired now).insert token.text (issuedInvitation secret now) })
    (herr : ∀ e clock pending, registry.clock.Ticks now clock →
      (pending = registry.pending ∨ pending = registry.unexpired now) →
      Q (.error e) { registry with clock, pending }) :
    wp (create randomId randomSecret now) Q registry := by
  rw [create, wp_bind]
  refine wp_observe (fun haccepts => ?_) fun _ => herr _ _ _ (Or.inl rfl) (Or.inl rfl)
  have hkept := fun e => herr e ⟨now⟩ registry.pending (Or.inr ⟨haccepts, rfl⟩) (Or.inl rfl)
  have hpruned := fun e => herr e ⟨now⟩ (registry.unexpired now) (Or.inr ⟨haccepts, rfl⟩)
    (Or.inr rfl)
  simp only [andThen_ok, wp_bind, wp_get, wp_orElse, wp_ensure, andThen_error, wp_lift, wp_modify]
  refine ⟨fun expiresAt hexpires => ⟨fun hroom => ?_, fun _ => hpruned _⟩, fun _ => hkept _⟩
  rw [Option.filter_eq_some_iff] at hexpires
  obtain rfl := I64.checkedAdd_eq_some hexpires.1
  cases htoken : SecretToken.generate randomId with
  | error e => exact hpruned e
  | ok token =>
    simp only [andThen_ok, wp_bind, wp_ensure, andThen_error, wp_lift]
    refine ⟨fun hfresh => ?_, fun _ => hpruned _⟩
    cases hsecret : SecretToken.generate randomSecret with
    | error e => exact hpruned e
    | ok secret =>
      exact hok token secret htoken hsecret haccepts ⟨hexpires.2, of_decide_eq_true hroom,
        StrMap.contains_eq_false.mp ((Bool.not_eq_true' _).mp hfresh)⟩

/-- The ids and the binding of somebody who joins. -/
def joinBinding (registry : InvitationRegistry) (request : JoinRequest)
    (memberToken nodeToken : SecretToken) : CredentialBinding :=
  { brainId := registry.brainId, memberId := "member-" ++ memberToken.text
    nodeId := "node-" ++ nodeToken.text, deviceId := request.deviceId }

/-- What must hold for an invitation to be redeemed. -/
structure CanRedeem (registry : InvitationRegistry) (request : JoinRequest) (now : ℤ)
    (invitation : PendingInvitation) : Prop where
  brainId : request.brainId = registry.brainId
  valid : request.valid = true
  pending : registry.pending[request.invitationId]? = some invitation
  started : invitation.issuedAt ≤ now
  unexpired : now < invitation.expiresAt
  secret : request.secret.digest .invitation = invitation.verifier

/-- Whether an invitation can be redeemed depends on the pending ones, not on the clock. -/
theorem CanRedeem.of_clock (h : registry.CanRedeem request now invitation) (clock : Clock) :
    CanRedeem { registry with clock } request now invitation :=
  ⟨h.brainId, h.valid, h.pending, h.started, h.unexpired, h.secret⟩

/-- **An invitation is redeemed** by its secret while it lasts, and then it is gone; a
refusal leaves it, and the credentials, alone. -/
theorem wp_redeem {random : JoinRandom} {credentials : CredentialRegistry}
    {Q : Except AccessError Enrollment → Both → Prop}
    (hok : ∀ invitation memberToken nodeToken secret,
      SecretToken.generate random.member = .ok memberToken →
      SecretToken.generate random.node = .ok nodeToken →
      SecretToken.generate random.secret = .ok secret →
      registry.clock.Accepts now → credentials.clock.Accepts now →
      registry.CanRedeem request now invitation →
      let binding := registry.joinBinding request memberToken nodeToken
      credentials.CanIssue binding now →
      Q (.ok { member := ⟨binding.memberId, request.identityId, request.displayName, .member⟩
               credential := ⟨binding, now + credentialTtlSeconds, secret⟩ })
        ({ registry.tick now with pending := registry.pending.erase request.invitationId },
          { credentials.tick now with
            records := credentials.records.insert binding.nodeId
              (CredentialRegistry.issuedRecord binding secret now) }))
    (herr : ∀ e clock clock', registry.clock.Ticks now clock →
      credentials.clock.Ticks now clock' →
      Q (.error e) ({ registry with clock }, { credentials with clock := clock' })) :
    wp (redeem request random now) Q (registry, credentials) := by
  rw [redeem, wp_bind, wp_focus]
  refine wp_observe (fun haccepts => ?_) fun _ => herr _ _ _ (Or.inl rfl) (Or.inl rfl)
  have hkept := fun e => herr e ⟨now⟩ credentials.clock (Or.inr ⟨haccepts, rfl⟩) (Or.inl rfl)
  simp only [Except.mapError, andThen_ok, wp_bind, wp_get, wp_orElse,
    wp_ensure, andThen_error, wp_lift, tick_brainId, tick_pending]
  refine ⟨fun hrequest => ⟨fun invitation hpending => ⟨fun hinvitation => ?_, fun _ => hkept _⟩,
    fun _ => hkept _⟩, fun _ => hkept _⟩
  cases hmember : SecretToken.generate random.member with
  | error e => exact hkept e
  | ok memberToken =>
    simp only [andThen_ok, wp_bind, wp_lift]
    cases hnode : SecretToken.generate random.node with
    | error e => exact hkept e
    | ok nodeToken =>
      simp only [andThen_ok, wp_bind, wp_focus]
      refine CredentialRegistry.wp_issue (fun secret hsecret hcredentials hcan => ?_)
        fun e clock hclock => ?_
      · simp only [Bool.and_eq_true, beq_iff_eq, decide_eq_true_eq] at hrequest hinvitation
        exact hok invitation memberToken nodeToken secret hmember hnode hsecret
          haccepts hcredentials
          ⟨hrequest.1, hrequest.2, hpending, hinvitation.1.1, hinvitation.1.2,
            beq_iff_eq.mp hinvitation.2⟩ hcan
      · exact herr e ⟨now⟩ clock (Or.inr ⟨haccepts, rfl⟩) hclock

/-- **An invitation is cancelled** if it is pending. -/
theorem wp_cancel {invitationId : String}
    (hok : ∀ invitation, registry.pending[invitationId]? = some invitation →
      Q (.ok ()) { registry with pending := registry.pending.erase invitationId })
    (herr : Q (.error .rejected) registry) : wp (cancel invitationId) Q registry := by
  simp only [cancel, wp_bind, wp_get, andThen_ok, wp_modify,
    wp_ensure, StrMap.contains_eq_true, StrMap.contains_eq_false]
  refine ⟨fun ⟨invitation, h⟩ => hok invitation h, fun hnone => ?_⟩
  have hsame : registry.pending.erase invitationId = registry.pending := by
    apply Std.ExtTreeMap.ext_getElem?
    intro key
    rw [StrMap.getElem?_erase]
    split
    · next heq => rw [← heq, hnone]
    · rfl
  rw [hsame]
  exact herr

/-! ### The registry in a snapshot -/

/-- The checks on one invitation read from a snapshot. -/
def invitationValid (clock : Clock) (key : String) (invitation : PendingInvitation) : Bool :=
  (SecretToken.parse key).isOk && timestamp invitation.issuedAt &&
    invitation.issuedAt ≤ clock.highWaterAt && timestamp invitation.expiresAt &&
    I64.checkedAdd invitation.issuedAt invitationTtlSeconds == some invitation.expiresAt

/-- `InvitationRegistry::try_from`: check a registry read from a snapshot. -/
def tryFrom (value : InvitationRegistry) : Except AccessError InvitationRegistry :=
  if Protocol.id value.brainId && timestamp value.clock.highWaterAt &&
      value.pending.all (invitationValid value.clock) then
    .ok value
  else .error .rejected

/-- **A registry that is accepted from a snapshot.** -/
structure Accepted (registry : InvitationRegistry) : Prop where
  id : Protocol.id registry.brainId = true
  clock : timestamp registry.clock.highWaterAt = true
  invitation : ∀ (key : String) invitation, registry.pending[key]? = some invitation →
    invitationValid registry.clock key invitation = true

theorem isOk_tryFrom {value : InvitationRegistry} :
    (tryFrom value).isOk = true ↔ value.Accepted := by
  unfold tryFrom
  split
  · next h =>
    simp only [Bool.and_eq_true, StrMap.all_eq_true] at h
    simp only [Except.isOk, Except.toBool, true_iff]
    exact ⟨h.1.1, h.1.2, h.2⟩
  · next h =>
    simp only [Bool.and_eq_true, StrMap.all_eq_true] at h
    simp only [Except.isOk, Except.toBool, Bool.false_eq_true, false_iff]
    exact fun hvalue => h ⟨⟨hvalue.id, hvalue.clock⟩, hvalue.invitation⟩

theorem invitationValid_iff {clock : Clock} :
    invitationValid clock key invitation = true ↔
      hex key 64 = true ∧ timestamp invitation.issuedAt = true ∧
        invitation.issuedAt ≤ clock.highWaterAt ∧ timestamp invitation.expiresAt = true ∧
        invitation.expiresAt = invitation.issuedAt + invitationTtlSeconds := by
  have hparse : (SecretToken.parse key).isOk = true ↔ hex key 64 = true := by
    unfold SecretToken.parse
    split <;> simp_all [Except.isOk, Except.toBool]
  have hadd := fun h => Protocol.checkedAdd_eq_some_iff (a := invitation.issuedAt)
    (b := invitation.expiresAt) h
    (show 0 ≤ invitationTtlSeconds ∧ invitationTtlSeconds ≤ 86400 by decide)
  simp only [invitationValid, Bool.and_eq_true, beq_iff_eq, decide_eq_true_eq, and_assoc, hparse]
  constructor
  · rintro ⟨h1, h2, h3, h4, h5⟩
    exact ⟨h1, h2, h3, h4, (hadd h2).mp h5⟩
  · rintro ⟨h1, h2, h3, h4, h5⟩
    exact ⟨h1, h2, h3, h4, (hadd h2).mpr h5⟩

/-- The registry as the fields of a snapshot. -/
def snapshotCodec : Codec InvitationRegistry :=
  .struct
    (.cons "brainId" .string <| .cons "clock" Clock.codec <|
      .cons "pending" (uniqueMap 32 PendingInvitation.codec) .nil)
    ⟨fun v => (v.brainId, v.clock, v.pending, ()), fun (a, b, c, _) => ⟨a, b, c⟩, fun _ => rfl,
      fun _ => rfl⟩ (by decide)

/-- The codec of the registry: its fields, checked when they are read. -/
def codec : Codec InvitationRegistry := snapshotCodec.filter fun value => (tryFrom value).isOk

/-- **An acceptable registry with few invitations can be carried by its JSON.** -/
theorem codec_ok (h : registry.Accepted) (hsize : registry.pending.size ≤ 32) :
    codec.ok registry := by
  refine ⟨⟨trivial, ⟨i64_ok_of_timestamp h.clock, trivial⟩, ⟨hsize, ?_⟩, trivial⟩,
    isOk_tryFrom.mpr h⟩
  intro key invitation hpending
  obtain ⟨hkey, hissued, -, hexpires, -⟩ :=
    invitationValid_iff.mp (h.invitation key invitation hpending)
  refine ⟨?_, digestCodec_ok _, i64_ok_of_timestamp hissued,
    i64_ok_of_timestamp hexpires, trivial⟩
  simp only [hex, Bool.and_eq_true, beq_iff_eq] at hkey
  rw [hkey.1]
  decide

end InvitationRegistry

end Rivloom.Collaboration
