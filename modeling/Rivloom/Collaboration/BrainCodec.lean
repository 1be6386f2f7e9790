import Rivloom.Collaboration.BrainInvariant

/-!
# The Brain in a snapshot

A Brain is written as one JSON document (`Brain::encode`) and read back under the id it
is expected to have (`Brain::decode`). Writing goes through derived serializers; reading
goes through maps that refuse a repeated key and through the checks of the registries,
and ends with the check of the Brain itself.

The two agree on every Brain that the program can hold. What the readers ask for beyond
`Rivloom.Collaboration.Brain.validate` – that the registries are in order, and that there
are no more credentials and invitations than their limits allow – is kept by every
operation, also by those that fail (`Rivloom.Collaboration.Brain.Registries`), so it
holds of every Brain that was created or read
(`Rivloom.Collaboration.Brain.Reachable.registries`).
-/

namespace Rivloom.Collaboration

variable {bytes : ByteArray} {b : Brain}

/-! ### Codecs -/

def MemberRecord.codec : Codec MemberRecord :=
  .struct
    (.cons "identityId" .string <| .cons "displayName" .string <| .cons "revoked" .bool <|
      .cons "revision" Protocol.u64 .nil)
    ⟨fun v => (v.identityId, v.displayName, v.revoked, v.revision, ()),
      fun (a, b, c, d, _) => ⟨a, b, c, d⟩, fun _ => rfl, fun _ => rfl⟩ (by decide)

def NodeRecord.codec : Codec NodeRecord :=
  .struct
    (.cons "memberId" .string <| .cons "deviceId" .string <|
      .cons "lastSeenAt" (.option Protocol.i64 Protocol.enc_i64_ne_null) <|
      .cons "online" .bool <| .cons "revision" Protocol.u64 <|
      .cons "announcement" (.option Message.codec Message.enc_ne_null) .nil)
    ⟨fun v => (v.memberId, v.deviceId, v.lastSeenAt, v.online, v.revision, v.announcement, ()),
      fun (a, b, c, d, e, f, _) => ⟨a, b, c, d, e, f⟩, fun _ => rfl, fun _ => rfl⟩ (by decide)

def TaskRecord.codec : Codec TaskRecord :=
  .struct
    (.cons "source" Message.codec <| .cons "status" TaskStatus.codec <|
      .cons "revision" Protocol.u64 .nil)
    ⟨fun v => (v.source, v.status, v.revision, ()), fun (a, b, c, _) => ⟨a, b, c⟩, fun _ => rfl,
      fun _ => rfl⟩ (by decide)

def ReplayRecord.codec : Codec ReplayRecord :=
  .struct
    (.cons "senderNodeId" .string <| .cons "key" .string <| .cons "fingerprint" digestCodec <|
      .cons "revision" Protocol.u64 .nil)
    ⟨fun v => (v.senderNodeId, v.key, v.fingerprint, v.revision, ()),
      fun (a, b, c, d, _) => ⟨a, b, c, d⟩, fun _ => rfl, fun _ => rfl⟩ (by decide)

namespace Brain

/-- `BrainSnapshot`. -/
def codec : Codec Brain :=
  .struct
    (.cons "version" (.uint 32) <| .cons "brainId" .string <| .cons "ownerMemberId" .string <|
      .cons "revision" Protocol.u64 <| .cons "clock" Clock.codec <|
      .cons "credentials" CredentialRegistry.codec <|
      .cons "invitations" InvitationRegistry.codec <|
      .cons "members" (uniqueMap 64 MemberRecord.codec) <|
      .cons "nodes" (uniqueMap 64 NodeRecord.codec) <|
      .cons "tasks" (uniqueMap 64 TaskRecord.codec) <|
      .cons "replays" (.list ReplayRecord.codec) .nil)
    ⟨fun v => (v.version, v.brainId, v.ownerMemberId, v.revision, v.clock, v.credentials,
        v.invitations, v.members, v.nodes, v.tasks, v.replays, ()),
      fun (a, b, c, d, e, f, g, h, i, j, k, _) => ⟨a, b, c, d, e, f, g, h, i, j, k⟩,
      fun _ => rfl, fun _ => rfl⟩ (by decide)

/-- Write a Brain. -/
def encode (b : Brain) : Except BrainError ByteArray := do
  b.validate
  let bytes := codec.toBytes b
  if maxBrainBytes < bytes.size then .error .capacity else .ok bytes

/-- Read the Brain of an id. -/
def decode (bytes : ByteArray) (brainId : String) : Except BrainError Brain :=
  if maxBrainBytes < bytes.size then .error .capacity
  else
    match codec.ofBytes bytes with
    | none => .error .invalid
    | some b => do
      b.validate
      if b.brainId == brainId then .ok b else .error .invalid

/-- What was written is the JSON of a valid Brain, and it is not too long. -/
theorem encode_eq_ok :
    b.encode = .ok bytes ↔ b.Valid ∧ bytes = codec.toBytes b ∧ bytes.size ≤ maxBrainBytes := by
  rw [encode, Except.bind_eq_ok]
  constructor
  · rintro ⟨_, hvalid, hbytes⟩
    dsimp only at hbytes
    split at hbytes
    · cases hbytes
    · next hsize =>
      obtain rfl := Except.ok.inj hbytes
      exact ⟨validate_eq_ok.mp hvalid, rfl, Nat.not_lt.mp hsize⟩
  · rintro ⟨hvalid, rfl, hsize⟩
    exact ⟨(), validate_eq_ok.mpr hvalid, if_neg (Nat.not_lt.mpr hsize)⟩

theorem Valid.encode_eq (h : b.Valid) (hsize : (codec.enc b).size ≤ maxBrainBytes) :
    b.encode = .ok (codec.toBytes b) :=
  encode_eq_ok.mpr ⟨h, rfl, by rwa [Codec.toBytes, Json.size_bytes]⟩

theorem decode_eq_ok {brainId : String} :
    decode bytes brainId = .ok b ↔
      bytes.size ≤ maxBrainBytes ∧ codec.ofBytes bytes = some b ∧ b.Valid ∧
          b.brainId = brainId := by
  rw [decode]
  split
  · next hsize => simp [Nat.not_le.mpr hsize]
  · next hsize =>
    have hle := Nat.not_lt.mp hsize
    cases hread : codec.ofBytes bytes with
    | none => simp
    | some b' =>
      simp only [Except.bind_eq_ok, ← validate_eq_ok, hle, true_and, Option.some.injEq]
      constructor
      · rintro ⟨_, hvalid, hid⟩
        split at hid
        · next heq =>
          obtain rfl := Except.ok.inj hid
          exact ⟨rfl, hvalid, beq_iff_eq.mp heq⟩
        · cases hid
      · rintro ⟨rfl, hvalid, rfl⟩
        exact ⟨(), hvalid, by simp⟩

end Brain

/-! ### What the registries keep -/

theorem CredentialRegistry.Accepted.id_nodeId {registry : CredentialRegistry}
    (h : registry.Accepted) {key : String} {record : StoredCredential}
    (hrecord : registry.records[key]? = some record) : Protocol.id key = true := by
  obtain ⟨hvalid, -, rfl, -⟩ := recordValid_iff.mp (h.record key record hrecord)
  simp only [CredentialBinding.valid, List.all_cons, List.all_nil, Bool.and_true,
    Bool.and_eq_true] at hvalid
  exact hvalid.2.2.1

namespace Brain

variable {b b' : Brain} {now : ℤ}

/-- **What is true of the registries** of any Brain, whatever was done to it. -/
structure Registries (b : Brain) : Prop where
  credentials : b.credentials.Accepted
  invitations : b.invitations.Accepted
  records_size : b.credentials.records.size ≤ 64
  pending_size : b.invitations.pending.size ≤ 32

theorem Registries.withClocks {clock credentials invitations : Clock} (h : b.Registries)
    (hc : b.credentials.clock.Ticks now credentials)
    (hi : b.invitations.clock.Ticks now invitations) :
    (b.withClocks clock credentials invitations).Registries :=
  ⟨h.credentials.of_ticks hc, h.invitations.of_ticks hi, h.records_size, h.pending_size⟩

theorem Registries.pruned (h : b.Registries) : (b.pruned now).Registries :=
  ⟨h.credentials, h.invitations.of_pending now fun _ _ hfound =>
    Or.inl (InvitationRegistry.getElem?_unexpired.mp hfound).1, h.records_size,
    Std.ExtTreeMap.size_filter_le_size.trans h.pending_size⟩

/-- An invitation that is redeemed for a credential, by a member that is new or not. -/
theorem Registries.redeemed (h : b.Registries) {invitationId : String}
    {binding : CredentialBinding} {secret : SecretToken} (hclock : b.credentials.clock = ⟨now⟩)
    (hissue : b.credentials.CanIssue binding now) :
    (b.redeemed invitationId binding secret now).Registries :=
  ⟨h.credentials.issued hclock hissue, h.invitations.erased invitationId,
    StrMap.size_insert_le.trans hissue.room, Std.ExtTreeMap.size_erase_le.trans h.pending_size⟩

theorem Change.registries (h : b.Registries) (hchange : Change now b b') : b'.Registries := by
  cases hchange with
  | invited token secret hclock hrevision hcan =>
    exact ⟨h.credentials, h.invitations.created hclock hcan, h.records_size,
      StrMap.size_insert_le.trans hcan.room⟩
  | cancelled invitationId invitation hrevision hpending =>
    exact ⟨h.credentials, h.invitations.erased invitationId, h.records_size,
      Std.ExtTreeMap.size_erase_le.trans h.pending_size⟩
  | enrolled request invitation memberToken nodeToken secret hclock hname hrevision hredeem hissue
      hnew =>
    have hredeemed : (b.redeemed request.invitationId
        (b.invitations.joinBinding request memberToken nodeToken) secret now).Registries :=
      h.redeemed hclock hissue
    exact ⟨hredeemed.credentials, hredeemed.invitations, hredeemed.records_size,
      hredeemed.pending_size⟩
  | revoked memberId member hmember howner hunrevoked hrevision =>
    exact ⟨credentials_accepted_revokedRecords h.credentials memberId, h.invitations,
      StrMap.size_update.trans_le h.records_size, h.pending_size⟩
  | _ => exact ⟨h.credentials, h.invitations, h.records_size, h.pending_size⟩

theorem Residue.registries (h : b.Registries) (hresidue : Residue now b b') : b'.Registries := by
  cases hresidue with
  | same => exact h
  | pruned => exact h.pruned
  | reset => exact ⟨h.credentials, h.invitations, h.records_size, h.pending_size⟩
  | redeemed request invitation memberToken nodeToken secret hclock hredeem hissue htaken =>
    exact h.redeemed hclock hissue

/-- **An operation keeps the registries in order, whether it returns or fails.** -/
theorem Registries.run (h : b.Registries) (op : BrainOp) (now : ℤ) :
    (op.run now b).2.Registries := by
  rcases op.changed_or_refused now b with ⟨-, credentials, invitations, hc, hi, hchange⟩ |
    ⟨b₀, ⟨clock, credentials, invitations, -, hc, hi, rfl⟩, hresidue⟩
  · exact hchange.registries (h.withClocks hc hi)
  · exact hresidue.registries (h.withClocks hc hi)

/-- **A Brain that the program can hold**: one that was created, one that was read, or
what an operation made of one, whether it returned or failed. -/
inductive Reachable : Brain → Prop
  | bootstrap {brainId : String} {owner : OwnerProfile} {random : JoinRandom} {now : ℤ} {b : Brain}
      {credential : IssuedCredential}
      (h : Brain.bootstrap brainId owner random now = .ok (b, credential)) : Reachable b
  | decode {bytes : ByteArray} {brainId : String} {b : Brain}
      (h : Brain.decode bytes brainId = .ok b) : Reachable b
  | run {b : Brain} (h : Reachable b) (op : BrainOp) (now : ℤ) : Reachable (op.run now b).2

/-! ### Writing and reading -/

theorem registries_of_codec_ok (h : codec.ok b) : b.Registries := by
  obtain ⟨-, -, -, -, -, hcredentials, hinvitations, -⟩ := h
  exact ⟨CredentialRegistry.isOk_tryFrom.mp hcredentials.2,
    InvitationRegistry.isOk_tryFrom.mp hinvitations.2, hcredentials.1.2.2.1.1,
    hinvitations.1.2.2.1.1⟩

theorem Reachable.registries (h : b.Reachable) : b.Registries := by
  induction h with
  | bootstrap h =>
    have haccepted := (Origin.bootstrap h).accepted
    obtain ⟨memberToken, nodeToken, secret, -, -, -, -, -, -, rfl⟩ := bootstrap_eq_ok h
    exact ⟨haccepted.credentials, haccepted.invitations, size_singleton.trans_le (by decide),
      Nat.zero_le _⟩
  | decode h => exact registries_of_codec_ok (codec.ok_of_ofBytes (decode_eq_ok.mp h).2.1)
  | run _ op now ih => exact ih.run op now

theorem u64_ok_of_le {n : ℕ} (h : n ≤ maxRevision) : Protocol.u64.ok n := by
  have hmax : maxRevision = 9007199254740991 := rfl
  change n < 2 ^ 64
  omega

/-- **A valid Brain whose registries are in order can be carried by its JSON.** -/
theorem codec_ok (h : b.Valid) (hregistries : b.Registries) : codec.ok b := by
  have hrevision : ∀ {n : ℕ}, n ≤ b.revision → Protocol.u64.ok n := fun hn =>
    u64_ok_of_le (hn.trans h.revision_le)
  refine ⟨?_, trivial, trivial, hrevision (le_refl _),
    ⟨Protocol.i64_ok_of_timestamp h.clock, trivial⟩,
    CredentialRegistry.codec_ok hregistries.credentials hregistries.records_size,
    InvitationRegistry.codec_ok hregistries.invitations hregistries.pending_size,
    ⟨h.members_size, fun key member hmember => ?_⟩, ⟨h.nodes_size, fun key node hnode => ?_⟩,
    ⟨h.tasks_size, fun key task htask => ?_⟩, fun record hrecord => ?_, trivial⟩
  · change b.version < 2 ^ 32
    rw [h.version]
    decide
  · have hok := h.member key member hmember
    exact ⟨Protocol.utf8ByteSize_of_id hok.id, trivial, trivial, trivial,
      hrevision hok.revision_le, trivial⟩
  · obtain ⟨record, member, hrecord, -, hok⟩ := h.credential_of_node hregistries.credentials hnode
    exact ⟨Protocol.utf8ByteSize_of_id (hregistries.credentials.id_nodeId hrecord),
      trivial, trivial,
      fun seen hseen => Protocol.i64_ok_of_timestamp (hok.seen seen hseen).1, trivial,
      hrevision hok.revision_le, fun message _ => message.codec_ok, trivial⟩
  · have hok := h.task key task htask
    obtain ⟨memberId, hpayload, -⟩ := hok.source
    exact ⟨Protocol.utf8ByteSize_of_id (task.source.id_taskId hpayload), task.source.codec_ok,
      trivial, hrevision hok.revision_le, trivial⟩
  · exact ⟨trivial, trivial, digestCodec_ok _, hrevision (h.replay record hrecord).revision_le,
      trivial⟩

/-- **What is written is read back**, as long as it is written at all. -/
theorem decode_encode (hregistries : b.Registries) (h : b.encode = .ok bytes) :
    decode bytes b.brainId = .ok b := by
  obtain ⟨hvalid, rfl, hsize⟩ := encode_eq_ok.mp h
  exact decode_eq_ok.mpr ⟨hsize, codec.ofBytes_toBytes (codec_ok hvalid hregistries), hvalid, rfl⟩

theorem registries_small : small.Registries :=
  ⟨CredentialRegistry.isOk_tryFrom.mp (by decide +kernel),
    InvitationRegistry.isOk_tryFrom.mp (by decide +kernel), by decide, by decide⟩

theorem encode_small : small.encode = .ok (codec.toBytes small) :=
  (validate_eq_ok.mp (by decide +kernel)).encode_eq (by decide +kernel)

theorem reachable_small : small.Reachable := .decode (decode_encode registries_small encode_small)

end Brain

/-! ### Restarts -/

/-- What can happen to a Brain: an operation at a time, or a restart of the
application. -/
inductive BrainEvent where
  | op (op : BrainOp) (now : ℤ)
  | restart

namespace Brain

/-- Write the Brain and read it back; a Brain that cannot be written or read stays. -/
def restart (b : Brain) : Brain :=
  match b.encode with
  | .ok bytes =>
    match decode bytes b.brainId with
    | .ok b' => b'
    | .error _ => b
  | .error _ => b

/-- One event. -/
def step (b : Brain) : BrainEvent → Brain
  | .op op now => (op.run now b).2
  | .restart => b.restart

/-- **A restart changes nothing.** -/
theorem Registries.restart (h : b.Registries) : b.restart = b := by
  unfold Brain.restart
  split
  · next bytes hencode =>
    split
    · next b' hdecode => exact Except.ok.inj (hdecode.symm.trans (decode_encode h hencode))
    · rfl
  · rfl

theorem Registries.step (h : b.Registries) (event : BrainEvent) : (b.step event).Registries := by
  cases event with
  | op op now => exact h.run op now
  | restart =>
    rw [Brain.step, h.restart]
    exact h

end Brain

end Rivloom.Collaboration
