import Rivloom.Lib.Action
import Rivloom.Collaboration.Protocol
import Rivloom.Collaboration.Snapshot
import Mathlib.Data.List.Pairwise

/-!
# Credentials

The registry of the credentials that nodes authenticate with (`credential.rs`). A
credential binds a node and a device to a member of one Brain, for a day, and is known
to the registry only by the hash of its secret. Everything a node does goes through
`Rivloom.Collaboration.CredentialRegistry.activeRecord`, which looks at the credential
anew each time: a session that was opened before a credential was revoked is of no use
after.

Random bytes are inputs of the operations that draw them: the model leaves it open what
the random source returns, and whether it returns anything.
-/

namespace Rivloom.Collaboration

open Rivloom.Action (andThen_ok ensure focus lift orElse wp wp_bind wp_ensure wp_get wp_orElse)

/-- Why access is refused. -/
inductive AccessError where
  | rejected | capacity | entropyUnavailable
  deriving DecidableEq

/-! ### Secrets -/

/-- What a call to the random source returns: 32 bytes, or nothing where it fails. -/
abbrev Random : Type := Option Digest

/-- What a secret or a public id drawn at random looks like: 64 lower-case hexadecimal
digits. -/
structure SecretToken where
  text : String
  hex : Protocol.hex text 64 = true
  deriving DecidableEq

/-- What a secret is for; the same secret has different hashes for different purposes. -/
inductive SecretPurpose where
  | nodeCredential | invitation
  deriving DecidableEq

theorem hex_digest (d : Digest) : Protocol.hex d.hex 64 = true := by
  obtain ⟨hlength, hall⟩ := d.hex_spec
  unfold Protocol.hex
  rw [hlength, hall]
  rfl

namespace SecretToken

/-- Draw a secret. -/
def generate (random : Random) : Except AccessError SecretToken :=
  match random with
  | some bytes => .ok ⟨bytes.hex, hex_digest bytes⟩
  | none => .error .entropyUnavailable

/-- Read a secret. -/
def parse (value : String) : Except AccessError SecretToken :=
  if h : Protocol.hex value 64 = true then .ok ⟨value, h⟩ else .error .rejected

def exposeSecret (token : SecretToken) : String := token.text

/-- The hash of a secret for a purpose. -/
def digest (token : SecretToken) (purpose : SecretPurpose) : Digest :=
  let domain := match purpose with
    | .nodeCredential => "rivloom/node-credential/v1\x00"
    | .invitation => "rivloom/invitation/v1\x00"
  Sha256.digest (domain ++ token.text).toUTF8

/-- The secret is the one whose hash is known. -/
def matchesDigest (token : SecretToken) (expected : Digest) (purpose : SecretPurpose) : Bool :=
  token.digest purpose == expected

end SecretToken

/-! ### The clock -/

/-- The latest time that was observed. -/
structure Clock where
  highWaterAt : ℤ
  deriving DecidableEq

namespace Clock

instance : Inhabited Clock := ⟨⟨0⟩⟩

/-- Observe a time, which may not be before the latest one. -/
def observe (now : ℤ) : Action Clock AccessError Unit := do
  let clock ← Action.get
  ensure (Protocol.timestamp now && clock.highWaterAt ≤ now) .rejected
  Action.modify fun _ => ⟨now⟩

def codec : Codec Clock :=
  .struct (.cons "high_water_at" Protocol.i64 .nil)
    ⟨fun v => (v.highWaterAt, ()), fun v => ⟨v.1⟩, fun _ => rfl, fun _ => rfl⟩ (by decide)

/-- A time that can be observed: in range and not before the latest one. -/
def Accepts (clock : Clock) (now : ℤ) : Prop :=
  Protocol.timestamp now = true ∧ clock.highWaterAt ≤ now

instance (clock : Clock) (now : ℤ) : Decidable (clock.Accepts now) :=
  inferInstanceAs (Decidable (_ ∧ _))

theorem observe_eq (now : ℤ) (clock : Clock) :
    observe now clock =
      if clock.Accepts now then (.ok (), ⟨now⟩) else (.error .rejected, clock) := by
  by_cases h : clock.Accepts now
  · have hcond : (Protocol.timestamp now && decide (clock.highWaterAt ≤ now)) = true := by
      simpa [Accepts] using h
    rw [if_pos h]
    simp [observe, bind, Action.bind, Action.get, ensure, lift, Action.modify, hcond]
  · have hcond : (Protocol.timestamp now && decide (clock.highWaterAt ≤ now)) = false := by
      simpa [Accepts] using h
    rw [if_neg h]
    simp [observe, bind, Action.bind, Action.get, ensure, lift, hcond]

/-- A clock after an operation that may have observed a time. -/
def Ticks (now : ℤ) (clock clock' : Clock) : Prop :=
  clock' = clock ∨ (clock.Accepts now ∧ clock' = ⟨now⟩)

end Clock

/-! ### Bindings and records -/

/-- What a credential binds together. -/
structure CredentialBinding where
  brainId : String
  memberId : String
  nodeId : String
  deviceId : String
  deriving DecidableEq

namespace CredentialBinding

def valid (binding : CredentialBinding) : Bool :=
  [binding.brainId, binding.memberId, binding.nodeId, binding.deviceId].all Protocol.id

def codec : Codec CredentialBinding :=
  .struct
    (.cons "brainId" .string <| .cons "memberId" .string <| .cons "nodeId" .string <|
      .cons "deviceId" .string .nil)
    ⟨fun v => (v.brainId, v.memberId, v.nodeId, v.deviceId, ()),
      fun (a, b, c, d, _) => ⟨a, b, c, d⟩, fun _ => rfl, fun _ => rfl⟩ (by decide)

end CredentialBinding

/-- A new credential, with its secret. -/
structure IssuedCredential where
  binding : CredentialBinding
  expiresAt : ℤ
  secret : SecretToken
  deriving DecidableEq

/-- What an authenticated connection remembers. -/
structure ConnectionIdentity where
  binding : CredentialBinding
  verifier : Digest
  deriving DecidableEq

/-- What the registry keeps of a credential. -/
structure StoredCredential where
  binding : CredentialBinding
  issuedAt : ℤ
  expiresAt : ℤ
  verifier : Digest
  revoked : Bool
  deriving DecidableEq

def StoredCredential.codec : Codec StoredCredential :=
  .struct
    (.cons "binding" CredentialBinding.codec <| .cons "issuedAt" Protocol.i64 <|
      .cons "expiresAt" Protocol.i64 <| .cons "verifier" digestCodec <| .cons "revoked" .bool .nil)
    ⟨fun v => (v.binding, v.issuedAt, v.expiresAt, v.verifier, v.revoked, ()),
      fun (a, b, c, d, e, _) => ⟨a, b, c, d, e⟩, fun _ => rfl, fun _ => rfl⟩ (by decide)

/-- The most credentials there may be. -/
def maxCredentials : ℕ := 64

/-- How long a credential lasts. -/
def credentialTtlSeconds : ℤ := 24 * 60 * 60

/-- **The registry of credentials**, by the node each is for. -/
structure CredentialRegistry where
  brainId : String
  clock : Clock
  records : StrMap StoredCredential
  deriving DecidableEq

namespace CredentialRegistry

variable {registry : CredentialRegistry} {binding : CredentialBinding}
  {Q : Except AccessError Unit → CredentialRegistry → Prop} {now : ℤ} {memberId : String}

def highWaterAt (registry : CredentialRegistry) : ℤ := registry.clock.highWaterAt

/-- The bindings of all credentials, in the order of their nodes. -/
def bindings (registry : CredentialRegistry) : List CredentialBinding :=
  registry.records.toList.map fun e => e.2.binding

/-- Some credential of the member is revoked. -/
def isRevoked (registry : CredentialRegistry) (memberId : String) : Bool :=
  registry.records.any fun _ record => record.binding.memberId == memberId && record.revoked

/-- An empty registry. -/
def new (brainId : String) : Except AccessError CredentialRegistry :=
  if Protocol.id brainId then .ok ⟨brainId, default, ∅⟩ else .error .rejected

/-- Observe a time on the registry's own clock. -/
def observe (now : ℤ) : Action CredentialRegistry AccessError Unit :=
  focus clock (fun clock registry => { registry with clock }) id (Clock.observe now)

/-- Issue a credential; trusted administration only. -/
def issue (binding : CredentialBinding) (random : Random) (now : ℤ) :
    Action CredentialRegistry AccessError IssuedCredential := do
  observe now
  let registry ← Action.get
  ensure (binding.brainId == registry.brainId && binding.valid &&
    !registry.records.contains binding.nodeId && !registry.isRevoked binding.memberId) .rejected
  ensure (registry.records.size < maxCredentials) .capacity
  let expiresAt ← orElse
    ((I64.checkedAdd now credentialTtlSeconds).filter Protocol.timestamp) .rejected
  let secret ← lift (SecretToken.generate random)
  Action.modify fun registry =>
    { registry with
      records := registry.records.insert binding.nodeId
        { binding, issuedAt := now, expiresAt, verifier := secret.digest .nodeCredential
          revoked := false } }
  return { binding, expiresAt, secret }

/-- The credential of a binding, if it can be used now. -/
def activeRecord (binding : CredentialBinding) (now : ℤ) :
    Action CredentialRegistry AccessError StoredCredential := do
  observe now
  let registry ← Action.get
  let record ← orElse registry.records[binding.nodeId]? .rejected
  ensure (binding.brainId == registry.brainId && record.binding == binding &&
    !record.revoked && record.issuedAt ≤ now && now < record.expiresAt) .rejected
  return record

/-- Authenticate a connection. -/
def connect (binding : CredentialBinding) (secret : SecretToken) (now : ℤ) :
    Action CredentialRegistry AccessError ConnectionIdentity := do
  let record ← activeRecord binding now
  ensure (secret.matchesDigest record.verifier .nodeCredential) .rejected
  return { binding, verifier := record.verifier }

/-- Check an authenticated connection again, immediately before it is served. -/
def authorizeTask (session : ConnectionIdentity) (now : ℤ) :
    Action CredentialRegistry AccessError Unit := do
  let record ← activeRecord session.binding now
  ensure (record.verifier == session.verifier) .rejected

/-- Revoke every credential of a member. -/
def revokeMember (memberId : String) : Action CredentialRegistry AccessError Unit := do
  let registry ← Action.get
  Action.modify fun registry =>
    { registry with
      records := registry.records.update (fun record => record.binding.memberId == memberId)
        fun record => { record with revoked := true } }
  ensure (registry.records.any fun _ record => record.binding.memberId == memberId) .rejected

/-! ### What the operations do -/

/-- The registry after it observed a time. -/
def tick (registry : CredentialRegistry) (now : ℤ) : CredentialRegistry :=
  { registry with clock := ⟨now⟩ }

@[simp] theorem tick_brainId (registry : CredentialRegistry) (now : ℤ) :
    (registry.tick now).brainId = registry.brainId := rfl

@[simp] theorem tick_records (registry : CredentialRegistry) (now : ℤ) :
    (registry.tick now).records = registry.records := rfl

theorem wp_observe (hok : registry.clock.Accepts now → Q (.ok ()) (registry.tick now))
    (herr : ¬registry.clock.Accepts now → Q (.error .rejected) registry) :
    wp (observe now) Q registry := by
  rw [observe, Action.wp_focus, wp, Clock.observe_eq]
  split
  · next h => exact hok h
  · next h => exact herr h

theorem isRevoked_eq_true :
    registry.isRevoked memberId = true ↔
      ∃ (key : String) (record : StoredCredential), registry.records[key]? = some record ∧
        record.binding.memberId = memberId ∧ record.revoked = true := by
  simp [isRevoked, StrMap.any_eq_true]

theorem isRevoked_eq_false :
    registry.isRevoked memberId = false ↔
      ∀ (key : String) record, registry.records[key]? = some record →
        record.binding.memberId = memberId → record.revoked = false := by
  simp [isRevoked, StrMap.any_eq_false]

/-- The credential of a binding can be used at a time. -/
def Active (registry : CredentialRegistry) (binding : CredentialBinding) (now : ℤ)
    (record : StoredCredential) : Prop :=
  registry.records[binding.nodeId]? = some record ∧ binding.brainId = registry.brainId ∧
    record.binding = binding ∧ record.revoked = false ∧ record.issuedAt ≤ now ∧
    now < record.expiresAt

/-- A session whose credential can be used at a time. -/
def Authorized (registry : CredentialRegistry) (session : ConnectionIdentity) (now : ℤ) : Prop :=
  ∃ record, registry.Active session.binding now record ∧ record.verifier = session.verifier

theorem Active.unique {record record' : StoredCredential} (h : registry.Active binding now record)
    (h' : registry.Active binding now record') : record = record' :=
  Option.some.inj (h.1.symm.trans h'.1)

/-- **The credential a binding names** is looked up and checked anew each time. -/
theorem wp_activeRecord {Q : Except AccessError StoredCredential → CredentialRegistry → Prop}
    (hok : ∀ record, registry.clock.Accepts now → registry.Active binding now record →
      Q (.ok record) (registry.tick now))
    (hinactive : registry.clock.Accepts now → (∀ record, ¬registry.Active binding now record) →
      Q (.error .rejected) (registry.tick now))
    (herr : ¬registry.clock.Accepts now → Q (.error .rejected) registry) :
    wp (activeRecord binding now) Q registry := by
  rw [activeRecord, wp_bind]
  refine wp_observe (fun haccepts => ?_) herr
  simp only [andThen_ok, wp_bind, wp_get, wp_orElse, wp_ensure,
    Action.wp_pure, Action.andThen_error, tick_records, tick_brainId]
  refine ⟨fun record hrecord => ⟨fun hcheck => ?_, fun hcheck => ?_⟩, fun hnone => ?_⟩
  · simp only [Bool.and_eq_true, beq_iff_eq, decide_eq_true_eq, Bool.not_eq_true'] at hcheck
    obtain ⟨⟨⟨⟨hbrain, hbinding⟩, hrevoked⟩, hissued⟩, hexpires⟩ := hcheck
    exact hok record haccepts ⟨hrecord, hbrain, hbinding, hrevoked, hissued, hexpires⟩
  · refine hinactive haccepts fun record' hactive => ?_
    obtain ⟨hrecord', hbrain, hbinding, hrevoked, hissued, hexpires⟩ := hactive
    obtain rfl : record = record' := Option.some.inj (hrecord.symm.trans hrecord')
    simp [hbrain, hbinding, hrevoked, hissued, hexpires] at hcheck
  · refine hinactive haccepts fun record' hactive => ?_
    rw [hactive.1] at hnone
    cases hnone

/-- **A session is authorized** only while its credential is active. -/
theorem wp_authorizeTask {session : ConnectionIdentity}
    (hok : registry.clock.Accepts now → registry.Authorized session now →
      Q (.ok ()) (registry.tick now))
    (hunauthorized : registry.clock.Accepts now → ¬registry.Authorized session now →
      Q (.error .rejected) (registry.tick now))
    (herr : ¬registry.clock.Accepts now → Q (.error .rejected) registry) :
    wp (authorizeTask session now) Q registry := by
  rw [authorizeTask, wp_bind]
  refine wp_activeRecord (fun record haccepts hactive => ?_) (fun haccepts hnone => ?_) herr
  · rw [andThen_ok, wp_ensure]
    refine ⟨fun hverifier => hok haccepts ⟨record, hactive, beq_iff_eq.mp hverifier⟩,
      fun hverifier => hunauthorized haccepts ?_⟩
    rintro ⟨record', hactive', hverifier'⟩
    obtain rfl := hactive.unique hactive'
    simp [hverifier'] at hverifier
  · exact hunauthorized haccepts fun ⟨record, hactive, _⟩ => hnone record hactive

/-- **A connection is authenticated** by the secret of an active credential. -/
theorem wp_connect {secret : SecretToken}
    {Q : Except AccessError ConnectionIdentity → CredentialRegistry → Prop}
    (hok : ∀ record, registry.clock.Accepts now → registry.Active binding now record →
      secret.digest .nodeCredential = record.verifier →
      Q (.ok ⟨binding, record.verifier⟩) (registry.tick now))
    (hrejected : registry.clock.Accepts now → Q (.error .rejected) (registry.tick now))
    (herr : ¬registry.clock.Accepts now → Q (.error .rejected) registry) :
    wp (connect binding secret now) Q registry := by
  rw [connect, wp_bind]
  refine wp_activeRecord (fun record haccepts hactive => ?_) (fun haccepts _ => hrejected haccepts)
    herr
  rw [andThen_ok, wp_bind, wp_ensure]
  exact ⟨fun hsecret => hok record haccepts hactive (beq_iff_eq.mp hsecret),
    fun _ => hrejected haccepts⟩

/-- The record of a credential issued now. -/
def issuedRecord (binding : CredentialBinding) (secret : SecretToken) (now : ℤ) :
    StoredCredential :=
  { binding, issuedAt := now, expiresAt := now + credentialTtlSeconds
    verifier := secret.digest .nodeCredential, revoked := false }

/-- What must hold for a credential to be issued. -/
structure CanIssue (registry : CredentialRegistry) (binding : CredentialBinding) (now : ℤ) :
    Prop where
  brainId : binding.brainId = registry.brainId
  valid : binding.valid = true
  fresh : registry.records[binding.nodeId]? = none
  unrevoked : registry.isRevoked binding.memberId = false
  room : registry.records.size < maxCredentials
  expires : Protocol.timestamp (now + credentialTtlSeconds) = true

/-- Whether a credential can be issued depends on the records, not on the clock. -/
theorem CanIssue.of_clock (h : registry.CanIssue binding now) (clock : Clock) :
    CanIssue { registry with clock } binding now :=
  ⟨h.brainId, h.valid, h.fresh, h.unrevoked, h.room, h.expires⟩

/-- **A credential is issued** to a new node of a member that is not revoked; a refusal
leaves the credentials alone. -/
theorem wp_issue {random : Random}
    {Q : Except AccessError IssuedCredential → CredentialRegistry → Prop}
    (hok : ∀ secret, SecretToken.generate random = .ok secret → registry.clock.Accepts now →
      registry.CanIssue binding now →
      Q (.ok ⟨binding, now + credentialTtlSeconds, secret⟩)
        { registry.tick now with
          records := registry.records.insert binding.nodeId (issuedRecord binding secret now) })
    (herr : ∀ e clock, registry.clock.Ticks now clock → Q (.error e) { registry with clock }) :
    wp (issue binding random now) Q registry := by
  rw [issue, wp_bind]
  refine wp_observe (fun haccepts => ?_) fun _ => herr _ _ (Or.inl rfl)
  have hticked := fun e => herr e ⟨now⟩ (Or.inr ⟨haccepts, rfl⟩)
  simp only [andThen_ok, wp_bind, wp_get, wp_orElse, wp_ensure,
    Action.andThen_error, Action.wp_lift, tick_records, tick_brainId]
  refine ⟨fun hcheck => ⟨fun hroom => ⟨fun expiresAt hexpires => ?_, fun _ => hticked _⟩,
    fun _ => hticked _⟩, fun _ => hticked _⟩
  rw [Option.filter_eq_some_iff] at hexpires
  obtain rfl := I64.checkedAdd_eq_some hexpires.1
  cases hsecret : SecretToken.generate random with
  | error e => exact hticked e
  | ok secret =>
    simp only [Bool.and_eq_true, beq_iff_eq, Bool.not_eq_true'] at hcheck
    obtain ⟨⟨⟨hbrain, hvalid⟩, hfresh⟩, hrevoked⟩ := hcheck
    exact hok secret hsecret haccepts ⟨hbrain, hvalid, StrMap.contains_eq_false.mp hfresh, hrevoked,
      of_decide_eq_true hroom, hexpires.2⟩

theorem issue_eq_ok {random : Random} {credential : IssuedCredential}
    (h : (issue binding random now registry).1 = .ok credential) :
    ∃ secret, registry.CanIssue binding now ∧
      credential = ⟨binding, now + credentialTtlSeconds, secret⟩ ∧
      (issue binding random now registry).2 =
        { registry.tick now with
          records := registry.records.insert binding.nodeId
              (issuedRecord binding secret now) } := by
  have hspec : wp (issue binding random now) (fun r registry' =>
      ∀ credential, r = .ok credential → ∃ secret, registry.CanIssue binding now ∧
        credential = ⟨binding, now + credentialTtlSeconds, secret⟩ ∧
        registry' = { registry.tick now with
          records := registry.records.insert binding.nodeId (issuedRecord binding secret now) })
      registry := by
    refine wp_issue (fun secret _ _ hcan credential hr => ?_) fun e clock _ credential hr => ?_
    · exact ⟨secret, hcan, (Except.ok.inj hr).symm, rfl⟩
    · cases hr
  exact hspec credential h

/-- **A member is revoked** with all its credentials, if it has one. -/
theorem wp_revokeMember
    (hok : Q (.ok ()) { registry with
      records := registry.records.update (fun record => record.binding.memberId == memberId)
        fun record => { record with revoked := true } })
    (herr : (∀ (key : String) record, registry.records[key]? = some record →
      record.binding.memberId ≠ memberId) → Q (.error .rejected) registry) :
    wp (revokeMember memberId) Q registry := by
  simp only [revokeMember, wp_bind, wp_get, andThen_ok, Action.wp_modify, wp_ensure]
  refine ⟨fun _ => hok, fun hnone => ?_⟩
  rw [StrMap.any_eq_false] at hnone
  have hother : ∀ (key : String) record, registry.records[key]? = some record →
      record.binding.memberId ≠ memberId := fun key record hrecord => by
    simpa using hnone key record hrecord
  have hsame : registry.records.update (fun record => record.binding.memberId == memberId)
      (fun record => { record with revoked := true }) = registry.records := by
    apply Std.ExtTreeMap.ext_getElem?
    intro key
    rw [StrMap.getElem?_update]
    cases hrecord : registry.records[key]? with
    | none => rfl
    | some record => simp [hother key record hrecord]
  rw [hsame]
  exact herr hother

/-! ### The registry in a snapshot -/

/-- The checks on one record read from a snapshot. -/
def recordValid (brainId : String) (clock : Clock) (key : String) (record : StoredCredential) :
    Bool :=
  record.binding.valid && record.binding.brainId == brainId && key == record.binding.nodeId &&
    Protocol.timestamp record.issuedAt && record.issuedAt ≤ clock.highWaterAt &&
    Protocol.timestamp record.expiresAt &&
    I64.checkedAdd record.issuedAt credentialTtlSeconds == some record.expiresAt

/-- The checks on all records, with the flag last seen for each member. -/
def recordsValid (brainId : String) (clock : Clock) :
    List (String × StoredCredential) → StrMap Bool → Bool
  | [], _ => true
  | (key, record) :: rest, members =>
    recordValid brainId clock key record &&
      !(members[record.binding.memberId]?.any fun revoked => revoked != record.revoked) &&
      recordsValid brainId clock rest (members.insert record.binding.memberId record.revoked)

/-- `CredentialRegistry::try_from`: check a registry read from a snapshot. -/
def tryFrom (value : CredentialRegistry) : Except AccessError CredentialRegistry :=
  if Protocol.id value.brainId && Protocol.timestamp value.clock.highWaterAt &&
      recordsValid value.brainId value.clock value.records.toList ∅ then
    .ok value
  else .error .rejected

/-- **A registry that is accepted from a snapshot**: the records are well formed, and
the credentials of a member are revoked together. -/
structure Accepted (registry : CredentialRegistry) : Prop where
  id : Protocol.id registry.brainId = true
  clock : Protocol.timestamp registry.clock.highWaterAt = true
  record : ∀ (key : String) record, registry.records[key]? = some record →
    recordValid registry.brainId registry.clock key record = true
  agree : ∀ (key key' : String) record record', registry.records[key]? = some record →
    registry.records[key']? = some record' → record.binding.memberId = record'.binding.memberId →
    record.revoked = record'.revoked

/-- The loop over the records checks each one, and each against the flag last seen for
its member. -/
theorem recordsValid_iff {brainId : String} {clock : Clock} {l : List (String × StoredCredential)}
    {members : StrMap Bool} :
    recordsValid brainId clock l members = true ↔
      (∀ e ∈ l, recordValid brainId clock e.1 e.2 = true ∧
        ∀ revoked, members[e.2.binding.memberId]? = some revoked → revoked = e.2.revoked) ∧
      l.Pairwise fun e e' => e.2.binding.memberId = e'.2.binding.memberId →
        e.2.revoked = e'.2.revoked := by
  induction l generalizing members with
  | nil => simp [recordsValid]
  | cons e l ih =>
    obtain ⟨key, record⟩ := e
    simp only [recordsValid, Bool.and_eq_true, Bool.not_eq_true', Option.any_eq_false, ih,
      List.forall_mem_cons, List.pairwise_cons, StrMap.getElem?_insert]
    constructor
    · rintro ⟨⟨hrecord, hflag⟩, hrest, hpair⟩
      refine ⟨⟨⟨hrecord, fun revoked h => by simpa using hflag revoked h⟩, fun e he => ?_⟩,
        fun e he hmember => ?_, hpair⟩
      · refine ⟨(hrest e he).1, fun revoked h => ?_⟩
        by_cases hmember : record.binding.memberId = e.2.binding.memberId
        · rw [← (hrest e he).2 record.revoked (by rw [if_pos hmember])]
          rw [← hmember] at h
          simpa using hflag revoked h
        · exact (hrest e he).2 revoked (by rw [if_neg hmember]; exact h)
      · exact (hrest e he).2 record.revoked (by rw [if_pos hmember])
    · rintro ⟨⟨⟨hrecord, hflag⟩, hrest⟩, hsame, hpair⟩
      refine ⟨⟨hrecord, fun revoked h => by simpa using hflag revoked h⟩, fun e he => ?_, hpair⟩
      refine ⟨(hrest e he).1, fun revoked h => ?_⟩
      split at h
      · next hmember =>
        rw [← Option.some.inj h]
        exact hsame e he hmember
      · exact (hrest e he).2 revoked h

/-- Two credentials of one member are revoked together. -/
def Agree (e e' : String × StoredCredential) : Prop :=
  e.2.binding.memberId = e'.2.binding.memberId → e.2.revoked = e'.2.revoked

instance : Std.Symm Agree := ⟨fun _ _ h hmember => (h hmember.symm).symm⟩

theorem recordsValid_toList_iff {brainId : String} {clock : Clock}
    {records : StrMap StoredCredential} :
    recordsValid brainId clock records.toList ∅ = true ↔
      (∀ (key : String) record, records[key]? = some record →
        recordValid brainId clock key record = true) ∧
      ∀ (key key' : String) record record', records[key]? = some record →
        records[key']? = some record' →
        record.binding.memberId = record'.binding.memberId → record.revoked = record'.revoked := by
  rw [recordsValid_iff]
  simp only [Std.ExtTreeMap.getElem?_empty, reduceCtorEq, false_implies, implies_true, and_true,
    Prod.forall, StrMap.mem_toList]
  refine and_congr_right fun _ => ⟨fun h key key' record record' hk hk' => ?_, fun h => ?_⟩
  · exact List.Pairwise.forall_of_forall (R := Agree) (fun _ _ _ => rfl) h
      (StrMap.mem_toList.mpr hk) (StrMap.mem_toList.mpr hk')
  · exact List.pairwise_of_forall_mem_list fun e he e' he' =>
      h e.1 e'.1 e.2 e'.2 (StrMap.mem_toList.mp he) (StrMap.mem_toList.mp he')

/-- **The checks on a snapshot say exactly that the registry is acceptable.** -/
theorem tryFrom_eq_ok {value registry : CredentialRegistry} :
    tryFrom value = .ok registry ↔ value = registry ∧ value.Accepted := by
  unfold tryFrom
  split
  · next h =>
    simp only [Bool.and_eq_true, recordsValid_toList_iff] at h
    have hvalue : value.Accepted := ⟨h.1.1, h.1.2, h.2.1, h.2.2⟩
    simp [hvalue]
  · next h =>
    simp only [Bool.and_eq_true, recordsValid_toList_iff] at h
    simp only [reduceCtorEq, false_iff, not_and]
    exact fun _ hvalue => h ⟨⟨hvalue.id, hvalue.clock⟩, hvalue.record, hvalue.agree⟩

/-- The registry as the fields of a snapshot. -/
def snapshotCodec : Codec CredentialRegistry :=
  .struct
    (.cons "brainId" .string <| .cons "clock" Clock.codec <|
      .cons "records" (uniqueMap 64 StoredCredential.codec) .nil)
    ⟨fun v => (v.brainId, v.clock, v.records, ()), fun (a, b, c, _) => ⟨a, b, c⟩, fun _ => rfl,
      fun _ => rfl⟩ (by decide)

/-- The codec of the registry: its fields, checked when they are read. -/
def codec : Codec CredentialRegistry := snapshotCodec.filter fun value => (tryFrom value).isOk

theorem isOk_tryFrom {value : CredentialRegistry} :
    (tryFrom value).isOk = true ↔ value.Accepted := by
  have h : tryFrom value = .ok value ↔ value = value ∧ value.Accepted := tryFrom_eq_ok
  cases htry : tryFrom value with
  | error e => simpa [htry, Except.isOk, Except.toBool] using h
  | ok registry =>
    obtain ⟨rfl, hvalue⟩ := tryFrom_eq_ok.mp htry
    simp [hvalue, Except.isOk, Except.toBool]

theorem recordValid_iff {brainId : String} {clock : Clock} {key : String}
    {record : StoredCredential} :
    recordValid brainId clock key record = true ↔
      record.binding.valid = true ∧ record.binding.brainId = brainId ∧
        key = record.binding.nodeId ∧ Protocol.timestamp record.issuedAt = true ∧
        record.issuedAt ≤ clock.highWaterAt ∧ Protocol.timestamp record.expiresAt = true ∧
        record.expiresAt = record.issuedAt + credentialTtlSeconds := by
  have hadd := fun h => Protocol.checkedAdd_eq_some_iff (a := record.issuedAt)
    (b := record.expiresAt) h
    (show 0 ≤ credentialTtlSeconds ∧ credentialTtlSeconds ≤ 86400 by decide)
  simp only [recordValid, Bool.and_eq_true, beq_iff_eq, decide_eq_true_eq, and_assoc]
  constructor
  · rintro ⟨h1, h2, h3, h4, h5, h6, h7⟩
    exact ⟨h1, h2, h3, h4, h5, h6, (hadd h4).mp h7⟩
  · rintro ⟨h1, h2, h3, h4, h5, h6, h7⟩
    exact ⟨h1, h2, h3, h4, h5, h6, (hadd h4).mpr h7⟩

/-- **An acceptable registry with few records can be carried by its JSON.** -/
theorem codec_ok (h : registry.Accepted) (hsize : registry.records.size ≤ 64) :
    codec.ok registry := by
  refine ⟨⟨trivial, ⟨Protocol.i64_ok_of_timestamp h.clock, trivial⟩, ⟨hsize, ?_⟩, trivial⟩,
    isOk_tryFrom.mpr h⟩
  intro key record hrecord
  obtain ⟨hvalid, -, rfl, hissued, -, hexpires, -⟩ :=
    recordValid_iff.mp (h.record key record hrecord)
  refine ⟨?_, ⟨trivial, trivial, trivial, trivial, trivial⟩,
    Protocol.i64_ok_of_timestamp hissued, Protocol.i64_ok_of_timestamp hexpires,
    digestCodec_ok _, trivial, trivial⟩
  simp only [CredentialBinding.valid, List.all_cons, List.all_nil, Bool.and_true,
    Bool.and_eq_true] at hvalid
  exact Protocol.utf8ByteSize_of_id hvalid.2.2.1

end CredentialRegistry

end Rivloom.Collaboration
