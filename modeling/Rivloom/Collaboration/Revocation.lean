import Rivloom.Collaboration.HostGate

/-!
# Revocation is permanent

That a member is revoked is written down twice, in the record of the member and in each of
its credentials, and the gates look at different places: a session and an authentication
look at the credential, issuing looks at all credentials of a member, and revoking again
looks at the record. This file shows that the two places never disagree in a way that lets
a revoked member back in – whatever operations follow, in whichever order, through sessions
that were opened before, and through a restart.

`Rivloom.Collaboration.Brain.Barred` is what revoking a member brings about, and
`Rivloom.Collaboration.Brain.Guarded` is the invariant that keeps it: every node has a
credential of its member under its own key, so that a node comes online only through a
credential of its member, and the credentials of a member are revoked together. Unlike the
validity of a Brain the invariant also survives the operations that fail halfway, such as a
join whose random member id is taken.
-/

namespace Rivloom.Collaboration

open StrMap (getElem?_insert getElem?_update)

variable {binding : CredentialBinding} {secret : SecretToken} {m : Moment}

/-- The member on whose behalf an operation is made, if there is one. -/
def BrainOp.actsFor : BrainOp → Option String
  | .connect binding _ => some binding.memberId
  | .heartbeat session _ | .apply session _ | .reconcile session _ => some session.binding.memberId
  | .createInvitation _ _ | .cancelInvitation _ | .join _ _ | .revokeMember _ _
  | .setTaskStatus _ _ _ | .resetPresence _ => none

namespace Brain

variable {b b' : Brain} {now : ℤ} {owner memberId : String} {records : StrMap StoredCredential}
  {reply : BrainReply} {revision : ℕ} {op : BrainOp}

/-- **A member is shut out**: its record and its credentials say so, and its nodes are
offline. -/
structure Barred (b : Brain) (memberId : String) : Prop where
  member : ∃ member, b.members[memberId]? = some member ∧ member.revoked = true
  credentials : b.credentials.isRevoked memberId = true
  offline : ∀ (key : String) node, b.nodes[key]? = some node → node.memberId = memberId →
    node.online = false

/-- **What keeps a revoked member out.** -/
structure Guarded (owner : String) (b : Brain) : Prop where
  registries : b.Registries
  ownerMemberId : b.ownerMemberId = owner
  owner : ∃ member, b.members[owner]? = some member ∧ member.revoked = false
  node : ∀ (key : String) node, b.nodes[key]? = some node →
    ∃ record, b.credentials.records[key]? = some record ∧ record.binding.memberId = node.memberId
  member : ∀ (key : String) member, b.members[key]? = some member →
    ∃ (nodeId : String) (record : StoredCredential), b.credentials.records[nodeId]? = some record ∧
      record.binding.memberId = key
  barred : ∀ (key : String) member, b.members[key]? = some member → member.revoked = true →
    b.Barred key

/-! ### The gates -/

theorem Barred.not_authorized (h : b.Barred memberId) (hregistries : b.Registries)
    (session : ConnectionIdentity) (hmember : session.binding.memberId = memberId) :
    ¬b.credentials.Authorized session now := by
  rintro ⟨record, ⟨hrecord, -, hbinding, hunrevoked, -⟩, -⟩
  obtain ⟨key, record', hrecord', hmember', hrevoked⟩ :=
    CredentialRegistry.isRevoked_eq_true.mp h.credentials
  have hagree := hregistries.credentials.agree _ _ _ _ hrecord hrecord'
    (by rw [hbinding, hmember, hmember'])
  rw [hunrevoked, hrevoked] at hagree
  cases hagree

theorem Barred.not_canIssue (h : b.Barred memberId) (hissue : b.credentials.CanIssue binding now) :
    binding.memberId ≠ memberId := by
  rintro rfl
  have hunrevoked := hissue.unrevoked
  rw [h.credentials] at hunrevoked
  cases hunrevoked

/-! ### Changes -/

theorem Barred.withClocks (h : b.Barred memberId) (clock credentials invitations : Clock) :
    (b.withClocks clock credentials invitations).Barred memberId :=
  ⟨h.member, h.credentials, h.offline⟩

theorem record_redeemed (invitationId : String) (hissue : b.credentials.CanIssue binding now)
    {key : String} {record : StoredCredential} (h : b.credentials.records[key]? = some record) :
    (b.redeemed invitationId binding secret now).credentials.records[key]? = some record := by
  rw [redeemed, getElem?_insert, if_neg]
  · exact h
  · rintro rfl
    rw [hissue.fresh] at h
    cases h

theorem isRevoked_redeemed (h : b.credentials.isRevoked memberId = true) (invitationId : String)
    (hissue : b.credentials.CanIssue binding now) :
    (b.redeemed invitationId binding secret now).credentials.isRevoked memberId = true := by
  obtain ⟨key, record, hrecord, hmember, hrevoked⟩ := CredentialRegistry.isRevoked_eq_true.mp h
  exact CredentialRegistry.isRevoked_eq_true.mpr
    ⟨key, record, record_redeemed invitationId hissue hrecord, hmember, hrevoked⟩

/-- A node that a session brings online is not one of a member that is shut out. -/
theorem Guarded.memberId_ne (h : Guarded owner b) (hbarred : b.Barred memberId)
    {session : ConnectionIdentity} {node : NodeRecord}
    (hauthorized : b.credentials.Authorized session now)
    (hnode : b.nodes[session.binding.nodeId]? = some node) : node.memberId ≠ memberId := by
  intro hmember
  obtain ⟨record, hactive, hverifier⟩ := hauthorized
  obtain ⟨record', hrecord', hmember'⟩ := h.node _ node hnode
  obtain rfl : record = record' := Option.some.inj (hactive.1.symm.trans hrecord')
  have hsession : session.binding.memberId = memberId := by rw [← hactive.2.2.1, hmember', hmember]
  exact hbarred.not_authorized h.registries session hsession ⟨record, hactive, hverifier⟩

/-- **A member that is shut out stays so**, whatever changes. -/
theorem Barred.change (h : b.Barred memberId) (hguarded : Guarded owner b)
    (hchange : Change now b b') : b'.Barred memberId := by
  have honline : ∀ {session : ConnectionIdentity} {node node' : NodeRecord},
      b.credentials.Authorized session now → b.nodes[session.binding.nodeId]? = some node →
      node'.memberId = node.memberId → ∀ (key : String) node'',
        (b.nodes.insert session.binding.nodeId node')[key]? = some node'' →
        node''.memberId = memberId → node''.online = false := by
    intro session node node' hauthorized hnode hsame key node'' hfound hmember
    rw [getElem?_insert] at hfound
    split at hfound
    · obtain rfl := Option.some.inj hfound
      rw [hsame] at hmember
      exact absurd hmember (hguarded.memberId_ne h hauthorized hnode)
    · exact h.offline key node'' hfound hmember
  cases hchange with
  | same | invited | cancelled | submitted | progressed =>
    exact ⟨h.member, h.credentials, h.offline⟩
  | enrolled request invitation memberToken nodeToken secret hclock hname hrevision hredeem hissue
      hnew =>
    refine ⟨?_, isRevoked_redeemed h.credentials request.invitationId hissue,
      fun key node hnode hmember => ?_⟩
    · obtain ⟨member, hmember, hrevoked⟩ := h.member
      refine ⟨member, ?_, hrevoked⟩
      rw [enrolled, getElem?_insert, if_neg]
      · exact hmember
      · rintro rfl
        change b.members["member-" ++ memberToken.text]? = _ at hmember
        rw [hnew] at hmember
        cases hmember
    · rw [enrolled, getElem?_insert] at hnode
      split at hnode
      · rw [← Option.some.inj hnode]
      · exact h.offline key node hnode hmember
  | revoked memberId' member hmember howner hunrevoked hrevision =>
    refine ⟨?_, ?_, fun key node hnode hnodeMember => ?_⟩
    · obtain ⟨member', hmember', hrevoked⟩ := h.member
      rw [revoked, getElem?_insert]
      split
      · exact ⟨_, rfl, rfl⟩
      · exact ⟨member', hmember', hrevoked⟩
    · obtain ⟨key, record, hrecord, hbinding, hrevoked⟩ :=
        CredentialRegistry.isRevoked_eq_true.mp h.credentials
      refine CredentialRegistry.isRevoked_eq_true.mpr
        ⟨key, if record.binding.memberId == memberId' then { record with revoked := true }
          else record,
          ?_, ?_, ?_⟩
      · rw [revoked, getElem?_update, hrecord, Option.map_some]
      · split <;> exact hbinding
      · split
        · rfl
        · exact hrevoked
    · rw [revoked, getElem?_update, Option.map_eq_some_iff] at hnode
      obtain ⟨node₀, hnode₀, rfl⟩ := hnode
      split at hnodeMember
      · next hsame => rw [if_pos hsame]
      · next hother =>
        rw [if_neg hother]
        exact h.offline key node₀ hnode₀ hnodeMember
  | seen session node hauthorized hrevision hnode =>
    exact ⟨h.member, h.credentials, honline hauthorized hnode rfl⟩
  | announced session message node hcan hpayload hnode =>
    exact ⟨h.member, h.credentials, honline hcan.authorized hnode rfl⟩
  | presenceReset reason =>
    refine ⟨h.member, h.credentials, fun key node hnode hmember => ?_⟩
    rw [presenceReset, getElem?_update, Option.map_eq_some_iff] at hnode
    obtain ⟨node₀, hnode₀, rfl⟩ := hnode
    split at hmember
    · next hexpired => rw [if_pos hexpired]
    · next hkept =>
      rw [if_neg hkept]
      exact h.offline key node₀ hnode₀ hmember

theorem Barred.residue (h : b.Barred memberId) (hresidue : Residue now b b') :
    b'.Barred memberId := by
  cases hresidue with
  | same | pruned => exact ⟨h.member, h.credentials, h.offline⟩
  | reset =>
    refine ⟨h.member, h.credentials, fun key node hnode hmember => ?_⟩
    rw [presenceReset, getElem?_update, Option.map_eq_some_iff] at hnode
    obtain ⟨node₀, hnode₀, rfl⟩ := hnode
    split at hmember
    · next hexpired => rw [if_pos hexpired]
    · next hkept =>
      rw [if_neg hkept]
      exact h.offline key node₀ hnode₀ hmember
  | redeemed request invitation memberToken nodeToken secret hclock hredeem hissue htaken =>
    exact ⟨h.member, isRevoked_redeemed h.credentials request.invitationId hissue, h.offline⟩

/-- **Revoking a member shuts it out.** -/
theorem Guarded.barred_revoked (h : Guarded owner b) {member : MemberRecord}
    (hmember : b.members[memberId]? = some member) :
    (b.revoked memberId member).Barred memberId := by
  refine ⟨⟨{ member with revoked := true, revision := b.revision + 1 }, ?_, rfl⟩, ?_,
    fun key node hnode hnodeMember => ?_⟩
  · rw [revoked, getElem?_insert, if_pos rfl]
  · obtain ⟨nodeId, record, hrecord, hbinding⟩ := h.member memberId member hmember
    refine CredentialRegistry.isRevoked_eq_true.mpr
      ⟨nodeId, { record with revoked := true }, ?_, hbinding, rfl⟩
    rw [revoked, getElem?_update, hrecord, Option.map_some, if_pos (beq_iff_eq.mpr hbinding)]
  · rw [revoked, getElem?_update, Option.map_eq_some_iff] at hnode
    obtain ⟨node₀, hnode₀, rfl⟩ := hnode
    split at hnodeMember
    · next hsame => rw [if_pos hsame]
    · next hother => exact absurd (beq_iff_eq.mpr hnodeMember) hother

/-- **What no operation undoes**: who the owner is, the bindings of the credentials and the
members of the nodes. A member is new and has a credential, or it was there before – and if
its record changed, it has been revoked. -/
structure Extends (b b' : Brain) : Prop where
  ownerMemberId : b'.ownerMemberId = b.ownerMemberId
  owner : ∀ member, b.members[b.ownerMemberId]? = some member →
    b'.members[b.ownerMemberId]? = some member
  record : ∀ (key : String) record, b.credentials.records[key]? = some record →
    ∃ record', b'.credentials.records[key]? = some record' ∧ record'.binding = record.binding
  node : ∀ (key : String) node', b'.nodes[key]? = some node' →
    (∃ node, b.nodes[key]? = some node ∧ node'.memberId = node.memberId) ∨
      ∃ record, b'.credentials.records[key]? = some record ∧
        record.binding.memberId = node'.memberId
  member : ∀ (key : String) member', b'.members[key]? = some member' →
    b.members[key]? = some member' ∨
      (member'.revoked = false ∧ ∃ (nodeId : String) (record : StoredCredential),
        b'.credentials.records[nodeId]? = some record ∧ record.binding.memberId = key) ∨
      ∃ member, b.members[key]? = some member ∧ b' = b.revoked key member

/-- The tables that bind members, nodes and credentials are as they were. -/
theorem Extends.of_eq (howner : b'.ownerMemberId = b.ownerMemberId)
    (hmembers : b'.members = b.members)
    (hnodes : b'.nodes = b.nodes) (hrecords : b'.credentials.records = b.credentials.records) :
    Extends b b' :=
  ⟨howner, fun _ h => hmembers ▸ h, fun _ record h => ⟨record, hrecords ▸ h, rfl⟩,
    fun _ node' h => Or.inl ⟨node', hnodes ▸ h, rfl⟩, fun _ _ h => Or.inl (hmembers ▸ h)⟩

theorem Extends.of_nodes (howner : b'.ownerMemberId = b.ownerMemberId)
    (hmembers : b'.members = b.members)
    (hnodes : ∀ (key : String) node', b'.nodes[key]? = some node' →
      ∃ node, b.nodes[key]? = some node ∧ node'.memberId = node.memberId)
    (hrecords : b'.credentials.records = b.credentials.records) : Extends b b' :=
  ⟨howner, fun _ h => hmembers ▸ h, fun _ record h => ⟨record, hrecords ▸ h, rfl⟩,
    fun key node' h => Or.inl (hnodes key node' h), fun _ _ h => Or.inl (hmembers ▸ h)⟩

theorem Extends.presenceReset (b : Brain) (reason : PresenceReset) (now : ℤ) :
    Extends b (b.presenceReset reason now) := by
  refine .of_nodes rfl rfl (fun key node' hnode' => ?_) rfl
  rw [Brain.presenceReset, getElem?_update, Option.map_eq_some_iff] at hnode'
  obtain ⟨node, hnode, rfl⟩ := hnode'
  refine ⟨node, hnode, ?_⟩
  split <;> rfl

theorem Extends.insertNode {nodeId : String} {node node' : NodeRecord}
    (hnode : b.nodes[nodeId]? = some node) (hnodes : b'.nodes = b.nodes.insert nodeId node')
    (hmember : node'.memberId = node.memberId) (key : String) (node'' : NodeRecord)
    (h : b'.nodes[key]? = some node'') :
    ∃ node, b.nodes[key]? = some node ∧ node''.memberId = node.memberId := by
  rw [hnodes, getElem?_insert] at h
  split at h
  · next heq =>
    obtain rfl := Option.some.inj h
    exact ⟨node, heq ▸ hnode, hmember⟩
  · exact ⟨node'', h, rfl⟩

theorem Change.extends (hchange : Change now b b') : Extends b b' := by
  cases hchange with
  | same | invited | cancelled | submitted | progressed => exact .of_eq rfl rfl rfl rfl
  | enrolled request invitation memberToken nodeToken secret hclock hname hrevision hredeem hissue
      hnew =>
    have hissued : (b.enrolled request (b.invitations.joinBinding request memberToken nodeToken)
        secret now).credentials.records[
          (b.invitations.joinBinding request memberToken nodeToken).nodeId]? =
        some (CredentialRegistry.issuedRecord
          (b.invitations.joinBinding request memberToken nodeToken) secret now) := by
      rw [Brain.enrolled, redeemed, getElem?_insert, if_pos rfl]
    refine ⟨rfl, fun member hmember => ?_, fun key record hrecord => ?_, fun key node' hnode' => ?_,
      fun key member' hmember' => ?_⟩
    · rw [Brain.enrolled, getElem?_insert, if_neg]
      · exact hmember
      · intro howner
        rw [← howner] at hmember
        change b.members["member-" ++ memberToken.text]? = _ at hmember
        rw [hnew] at hmember
        cases hmember
    · exact ⟨record, record_redeemed request.invitationId hissue hrecord, rfl⟩
    · rw [Brain.enrolled, getElem?_insert] at hnode'
      split at hnode'
      · next heq =>
        obtain rfl := Option.some.inj hnode'
        exact Or.inr ⟨_, heq ▸ hissued, rfl⟩
      · exact Or.inl ⟨node', hnode', rfl⟩
    · rw [Brain.enrolled, getElem?_insert] at hmember'
      split at hmember'
      · next heq =>
        obtain rfl := Option.some.inj hmember'
        exact Or.inr (Or.inl ⟨rfl, _, _, hissued, heq⟩)
      · exact Or.inl hmember'
  | revoked memberId member hmember howner hunrevoked hrevision =>
    refine ⟨rfl, fun member' hmember' => ?_, fun key record hrecord => ?_,
      fun key node' hnode' => ?_, fun key member' hmember' => ?_⟩
    · rw [Brain.revoked, getElem?_insert, if_neg howner]
      exact hmember'
    · rw [Brain.revoked, getElem?_update, hrecord, Option.map_some]
      refine ⟨_, rfl, ?_⟩
      split <;> rfl
    · rw [Brain.revoked, getElem?_update, Option.map_eq_some_iff] at hnode'
      obtain ⟨node, hnode, rfl⟩ := hnode'
      refine Or.inl ⟨node, hnode, ?_⟩
      split <;> rfl
    · by_cases heq : memberId = key
      · subst heq
        exact Or.inr (Or.inr ⟨member, hmember, rfl⟩)
      · rw [Brain.revoked, getElem?_insert, if_neg heq] at hmember'
        exact Or.inl hmember'
  | seen session node hauthorized hrevision hnode =>
    exact .of_nodes rfl rfl (Extends.insertNode hnode rfl rfl) rfl
  | announced session message node hcan hpayload hnode =>
    exact .of_nodes rfl rfl (Extends.insertNode hnode rfl rfl) rfl
  | presenceReset reason => exact .presenceReset b reason now

theorem Residue.extends (hresidue : Residue now b b') : Extends b b' := by
  cases hresidue with
  | same | pruned => exact .of_eq rfl rfl rfl rfl
  | reset => exact .presenceReset b .expired now
  | redeemed request invitation memberToken nodeToken secret hclock hredeem hissue htaken =>
    exact ⟨rfl, fun _ h => h, fun key record hrecord =>
      ⟨record, record_redeemed request.invitationId hissue hrecord, rfl⟩,
      fun key node' h => Or.inl ⟨node', h, rfl⟩, fun _ _ h => Or.inl h⟩

/-- **The invariant is kept** by what keeps every binding and every bar. -/
theorem Guarded.extends (h : Guarded owner b) (hregistries : b'.Registries)
    (hextends : Extends b b') (hbarred : ∀ memberId, b.Barred memberId → b'.Barred memberId) :
    Guarded owner b' where
  registries := hregistries
  ownerMemberId := hextends.ownerMemberId.trans h.ownerMemberId
  owner := by
    obtain ⟨member, hmember, hunrevoked⟩ := h.owner
    rw [← h.ownerMemberId] at hmember ⊢
    exact ⟨member, hextends.owner member hmember, hunrevoked⟩
  node key node' hnode' := by
    rcases hextends.node key node' hnode' with ⟨node, hnode, hsame⟩ | hissued
    · obtain ⟨record, hrecord, hmember⟩ := h.node key node hnode
      obtain ⟨record', hrecord', hbinding⟩ := hextends.record key record hrecord
      exact ⟨record', hrecord', by rw [hbinding, hmember, hsame]⟩
    · exact hissued
  member key member' hmember' := by
    have hwas : ∀ member, b.members[key]? = some member →
        ∃ (nodeId : String) (record : StoredCredential),
          b'.credentials.records[nodeId]? = some record ∧ record.binding.memberId = key := by
      intro member hmember
      obtain ⟨nodeId, record, hrecord, hkey⟩ := h.member key member hmember
      obtain ⟨record', hrecord', hbinding⟩ := hextends.record nodeId record hrecord
      exact ⟨nodeId, record', hrecord', by rw [hbinding, hkey]⟩
    rcases hextends.member key member' hmember' with hsame | ⟨-, hissued⟩ | ⟨member, hmember, -⟩
    · exact hwas member' hsame
    · exact hissued
    · exact hwas member hmember
  barred key member' hmember' hrevoked := by
    rcases hextends.member key member' hmember' with hsame | ⟨hnew, -⟩ | ⟨member, hmember, rfl⟩
    · exact hbarred key (h.barred key member' hsame hrevoked)
    · rw [hrevoked] at hnew
      cases hnew
    · exact h.barred_revoked hmember

/-- **A property is stable** if every change and every residue keeps it. -/
theorem Stable.of_change {P : Brain → Prop} (hregistries : ∀ b, P b → b.Registries)
    (hobserved : ∀ b b' now, Observed now b b' → P b → P b')
    (hchange : ∀ b b' now, Change now b b' → P b → P b')
    (hresidue : ∀ b b' now, Residue now b b' → P b → P b') : Stable P where
  registries := hregistries
  observed := hobserved
  run op now b h := by
    rcases op.changed_or_refused now b with ⟨hclock, credentials, invitations, hc, hi, hchanged⟩ |
      ⟨b₀, hobs, hleft⟩
    · exact hchange _ _ now hchanged (hobserved _ _ now (observed_of_accepts hclock hc hi) h)
    · exact hresidue _ _ now hleft (hobserved _ _ now hobs h)

theorem Guarded.observed (h : Guarded owner b) (hobserved : Observed now b b') :
    Guarded owner b' := by
  have hregistries := stable_registries.observed b b' now hobserved h.registries
  obtain ⟨clock, credentials, invitations, -, -, -, rfl⟩ := hobserved
  exact h.extends hregistries (.of_eq rfl rfl rfl rfl) fun _ hbarred => hbarred.withClocks _ _ _

theorem stable_guarded (owner : String) : Stable (Guarded owner) :=
  .of_change (fun _ h => h.registries) (fun _ _ _ hobserved h => h.observed hobserved)
    (fun _ _ _ hchange h => h.extends (hchange.registries h.registries) hchange.extends
      fun _ hbarred => hbarred.change h hchange)
    fun _ _ _ hresidue h => h.extends (hresidue.registries h.registries) hresidue.extends
      fun _ hbarred => hbarred.residue hresidue

/-! ### What is issued to a member that is shut out -/

/-- The credentials of a member are among those that there were. -/
def IssuedFrom (records : StrMap StoredCredential) (memberId : String) (b : Brain) : Prop :=
  ∀ (key : String) record, b.credentials.records[key]? = some record →
    record.binding.memberId = memberId → records[key]? = some record

theorem IssuedFrom.redeemed (h : IssuedFrom records memberId b) (hbarred : b.Barred memberId)
    {invitationId : String} (hissue : b.credentials.CanIssue binding now) :
    IssuedFrom records memberId (b.redeemed invitationId binding secret now) := by
  intro key record hrecord hmember
  rw [Brain.redeemed, getElem?_insert] at hrecord
  split at hrecord
  · obtain rfl := Option.some.inj hrecord
    exact absurd hmember (hbarred.not_canIssue hissue)
  · exact h key record hrecord hmember

/-- **Nothing is issued to a member that is shut out**, and nothing of it is changed. -/
theorem IssuedFrom.change (h : IssuedFrom records memberId b) (hbarred : b.Barred memberId)
    (hchange : Change now b b') : IssuedFrom records memberId b' := by
  cases hchange with
  | enrolled request invitation memberToken nodeToken secret hclock hname hrevision
      hredeem hissue =>
    exact @IssuedFrom.redeemed _ secret b now memberId records h hbarred request.invitationId hissue
  | revoked memberId' member hmember howner hunrevoked =>
    intro key record hrecord hbinding
    rw [Brain.revoked, getElem?_update, Option.map_eq_some_iff] at hrecord
    obtain ⟨record₀, hrecord₀, rfl⟩ := hrecord
    have hother : ¬(record₀.binding.memberId == memberId') = true := by
      intro hsame
      rw [if_pos hsame] at hbinding
      -- Revoked again, a member is left as it is, so this is another one.
      obtain ⟨member', hmember', hrevoked⟩ := hbarred.member
      rw [← hbinding, beq_iff_eq.mp hsame, hmember] at hmember'
      obtain rfl := Option.some.inj hmember'
      rw [hunrevoked] at hrevoked
      cases hrevoked
    rw [if_neg hother] at hbinding ⊢
    exact h key record₀ hrecord₀ hbinding
  | same | invited | cancelled | seen | announced | submitted | progressed | presenceReset =>
    exact h

/-- A member that is shut out, in a Brain that keeps it so. -/
structure ShutOut (owner memberId : String) (records : StrMap StoredCredential) (b : Brain) :
    Prop where
  guarded : Guarded owner b
  barred : b.Barred memberId
  issued : IssuedFrom records memberId b

theorem stable_shutOut (owner memberId : String) (records : StrMap StoredCredential) :
    Stable (ShutOut owner memberId records) := by
  refine .of_change (fun _ h => h.guarded.registries) (fun b b' now hobserved h => ?_)
    (fun b b' now hchange h => ?_) fun b b' now hresidue h => ?_
  · have hguarded := h.guarded.observed hobserved
    obtain ⟨clock, credentials, invitations, -, -, -, rfl⟩ := hobserved
    exact ⟨hguarded, h.barred.withClocks _ _ _, h.issued⟩
  · exact ⟨h.guarded.extends (hchange.registries h.guarded.registries) hchange.extends
      fun _ hbarred => hbarred.change h.guarded hchange, h.barred.change h.guarded hchange,
      h.issued.change h.barred hchange⟩
  · refine ⟨h.guarded.extends (hresidue.registries h.guarded.registries) hresidue.extends
      fun _ hbarred => hbarred.residue hresidue, h.barred.residue hresidue, ?_⟩
    cases hresidue with
    | same | pruned | reset => exact h.issued
    | redeemed request invitation memberToken nodeToken secret hclock hredeem hissue =>
      exact h.issued.redeemed h.barred hissue

theorem Valid.guarded (h : b.Valid) (hregistries : b.Registries) : Guarded b.ownerMemberId b where
  registries := hregistries
  ownerMemberId := rfl
  owner := h.owner
  node key node hnode := by
    obtain ⟨record, member, hrecord, -, hok⟩ := h.credential_of_node hregistries.credentials hnode
    exact ⟨record, hrecord, hok.memberId.symm⟩
  member key member hmember := (h.member key member hmember).bound
  barred key member hmember hrevoked := by
    have hok := h.member key member hmember
    refine ⟨⟨member, hmember, hrevoked⟩, hok.revoked ▸ hrevoked, fun nodeId node hnode hsame => ?_⟩
    obtain ⟨record, member', -, -, hbinding⟩ := h.credential_of_node hregistries.credentials hnode
    have hmember' := hbinding.hasMember
    rw [← hbinding.memberId, hsame, hmember] at hmember'
    obtain rfl := Option.some.inj hmember'
    exact hbinding.revoked hrevoked

/-! ### Operations -/

/-- An operation on behalf of a member that is shut out does not return. -/
theorem Barred.run_ne_ok (h : b.Barred memberId) (hregistries : b.Registries)
    (hop : op.actsFor = some memberId) : (op.run now b).1 ≠ .ok reply := by
  intro hok
  have heffect : BrainOp.Effect now b op reply (op.run now b).2 :=
    BrainOp.effect_of_run (Prod.ext hok rfl)
  generalize (op.run now b).2 = b' at heffect
  have hadmits : ∀ session : ConnectionIdentity, some session.binding.memberId = some memberId →
      ¬b.Admits session now := fun session hmember hadmits =>
    h.not_authorized hregistries session (Option.some.inj hmember) hadmits.2.2
  cases heffect with
  | @connected binding _ record hclock hcredentials hactive =>
    exact h.not_authorized hregistries ⟨binding, record.verifier⟩ (Option.some.inj hop)
      ⟨record, hactive, rfl⟩
  | seen _ hadmits' | replayed _ hadmits' | announced _ hadmits' | submitted _ hadmits'
  | served hadmits' => exact hadmits _ hop hadmits'
  | _ => cases hop

theorem Barred.enrollment_ne (h : b.Barred memberId) {enrollment : Enrollment}
    (hok : (op.run now b).1 = .ok (.enrollment enrollment)) :
    enrollment.credential.binding.memberId ≠ memberId := by
  have heffect : BrainOp.Effect now b op (.enrollment enrollment) (op.run now b).2 :=
    BrainOp.effect_of_run (Prod.ext hok rfl)
  generalize (op.run now b).2 = b' at heffect
  cases heffect with
  | enrolled _ _ _ _ _ _ _ _ _ _ _ _ _ hissue => exact h.not_canIssue hissue

/-- **Revoking a member that returns shuts it out**, whether it was revoked before or
not. -/
theorem Guarded.barred_of_effect (h : Guarded owner b)
    (heffect : BrainOp.Effect now b (.revokeMember memberId revision) reply b') :
    b'.Barred memberId := by
  cases heffect with
  | alreadyRevoked member hclock hmember howner hrevoked =>
    exact (h.barred memberId member hmember hrevoked).withClocks _ _ _
  | revoked member hclock hmember => exact (h.barred_revoked hmember).withClocks _ _ _

theorem Guarded.barred_of_serveOperation (h : Guarded owner b) {identity : ConnectionIdentity}
    {reply : Reply}
    (hrun : serveOperation identity (.revoke memberId revision) m b = (.ok reply, b')) :
    b'.Barred memberId := by
  have hkept : ∀ {α : Type} {x : BrainAction α} {b b₁ : Brain} {r : Except BrainError α},
      Action.Preserves (Guarded owner) x → x b = (r, b₁) → Guarded owner b → Guarded owner b₁ := by
    intro α x b b₁ r hpreserves hx hb
    have := hpreserves b hb
    rwa [hx] at this
  obtain ⟨⟨⟩, b₁, hauthorize, hrest⟩ := Action.bind_eq_ok hrun
  obtain ⟨⟨⟩, b₂, howner, hrest⟩ := Action.bind_eq_ok hrest
  obtain ⟨revision', b₃, hrevoke, hpure⟩ := Action.bind_eq_ok hrest
  have hstable := stable_guarded owner
  have hguarded := hkept (hstable.owner identity m.now) howner
    (hkept (hstable.authorizeTask identity m.now) hauthorize h)
  obtain rfl : b₃ = b' := (Prod.mk.inj hpure).2
  exact hguarded.barred_of_effect
    (@BrainOp.effect_of_run _ _ _ _ (.revokeMember memberId revision) (Action.map_of_ok _ hrevoke))

end Brain

theorem BrainStore.Ready.valid {s : BrainStore} (h : s.Ready) : s.brain.Valid := by
  have hfresh : s.poisoned = false := by
    cases h with
    | created h =>
      rw [create, Except.bind_eq_ok] at h
      obtain ⟨created, -, h⟩ := h
      split at h
      · cases h
      · obtain ⟨bytes, -, h⟩ := Except.bind_eq_ok.mp h
        obtain ⟨done, -, h⟩ := Except.bind_eq_ok.mp h
        obtain ⟨rfl, -⟩ := Prod.mk.inj (Except.ok.inj h)
        rfl
    | loaded h =>
      rw [BrainStore.loaded, Except.bind_eq_ok] at h
      obtain ⟨bytes, -, h⟩ := h
      obtain ⟨brain, -, h⟩ := Except.bind_eq_ok.mp h
      obtain rfl := Except.ok.inj h
      rfl
  obtain ⟨-, -, bytes, -, -, hload⟩ := h.durable.holds hfresh
  exact valid_of_load hload

/-- The small Brain with a second member, whose node is online. -/
def Brain.pair : Brain :=
  { Brain.small with
    credentials := { Brain.small.credentials with
      records := Brain.small.credentials.records.insert "node-guest"
        { binding := ⟨"brain", "guest", "node-guest", "device"⟩, issuedAt := 5, expiresAt := 86405
          verifier := ⟨List.replicate 32 1, rfl⟩, revoked := false } }
    members := Brain.small.members.insert "guest"
      { identityId := "identity", displayName := "Guest", revoked := false, revision := 2 }
    nodes := Brain.small.nodes.insert "node-guest"
      { memberId := "guest", deviceId := "device", lastSeenAt := some 5, announcement := none
        online := true, revision := 2 } }

theorem Brain.registries_pair : Brain.pair.Registries :=
  ⟨CredentialRegistry.isOk_tryFrom.mp rfl, InvitationRegistry.isOk_tryFrom.mp rfl, by decide,
    by decide⟩

theorem Brain.encode_pair : Brain.pair.encode = .ok (Brain.codec.toBytes Brain.pair) :=
  (Brain.validate_eq_ok.mp (by decide +kernel)).encode_eq (by decide +kernel)

theorem BrainStore.ready_pair : (BrainStore.holding Brain.pair).Ready :=
  .loaded (@BrainStore.loaded_holding _ _ .quiet Brain.registries_pair Brain.encode_pair rfl)

namespace HostWorld

variable {w : HostWorld} {owner memberId : String} {request : Request} {index : ℕ} {answer : Reply}

/-- **A member is revoked by an event**, which returned: an operation on the Brain, one that
the application committed, or a request of a session. -/
inductive Revokes (w : HostWorld) (memberId : String) : HostEvent → Prop
  | run {revision : ℕ} {now : ℤ} {reply : BrainReply}
      (h : ((BrainOp.revokeMember memberId revision).run now w.brain).1 = .ok reply) :
      Revokes w memberId (.run (.revokeMember memberId revision) now)
  | transact {revision : ℕ} {now : ℤ} {env : Environment} {reply : BrainReply}
      (h : (BrainStore.transact now ((BrainOp.revokeMember memberId revision).run now) env
        w.host.store).1 = .ok reply) :
      Revokes w memberId (.transact (.revokeMember memberId revision) now env)
  | request {index revision revision' : ℕ} {request : Request} {m : Moment}
      (hoperation : request.operation = .revoke memberId revision)
      (h : w.reply index request m = some (.administered revision')) :
      Revokes w memberId (.request index request m)

/-- A request on behalf of a member: its session authenticated as the member, or the request
tries to. -/
def ActsFor (w : HostWorld) (index : ℕ) (request : Request) (memberId : String) : Prop :=
  ∃ session, w.sessionAt index = some session ∧
    ((∃ identity, session.phase = .active identity ∧ identity.binding.memberId = memberId) ∨
      ∃ binding secret, request.operation = .authenticate binding secret ∧
        binding.memberId = memberId)

theorem handled_of_reply (h : w.reply index request m = some answer) :
    ∃ session, w.sessionAt index = some session ∧
      session.Handled request m w.host answer (HostSession.handle request m (w.host, session)).2.1
        (HostSession.handle request m (w.host, session)).2.2 := by
  obtain ⟨session, hsession, rfl⟩ := Option.map_eq_some_iff.mp h
  exact ⟨session, hsession, HostSession.handled request m w.host session⟩

theorem Revokes.barred {event : HostEvent} (h : w.Revokes memberId event)
    (hguarded : w.brain.Guarded owner) : (w.step event).brain.Barred memberId := by
  have hstable := Brain.stable_guarded owner
  cases h with
  | run hok => exact hguarded.barred_of_effect (BrainOp.effect_of_run (Prod.ext hok rfl))
  | @transact revision now env reply hok =>
    rcases hrun : BrainStore.transact now ((BrainOp.revokeMember memberId revision).run now) env
      w.host.store with ⟨r, s'⟩
    rw [hrun] at hok
    obtain rfl : r = .ok reply := hok
    obtain ⟨hclock, hreturned, -⟩ := BrainStore.returned_of_transact hguarded.registries hrun
    have hbrain : (w.step (.transact (.revokeMember memberId revision) now env)).brain =
        s'.brain := by
      simp only [step, withStore, brain, hrun]
    rw [hbrain]
    exact (hstable.observed _ _ now (Brain.observed_tick hclock) hguarded).barred_of_effect
      (BrainOp.effect_of_run hreturned)
  | @request index revision revision' request m hoperation hreply =>
    obtain ⟨session, hsession, hhandled⟩ := handled_of_reply hreply
    rw [step_request hsession]
    obtain ⟨α, x, answer, next, value, hperforms, -, hclock, hreturned⟩ :=
      hhandled.returned (fun _ => Reply.noConfusion) hguarded.registries
    rw [hoperation] at hperforms
    cases hperforms with
    | serve identity hphase =>
      exact (hstable.observed _ _ m.now (Brain.observed_tick hclock) hguarded
        ).barred_of_serveOperation hreturned

/-- A request on behalf of a member that is shut out is answered with an error. -/
theorem error_of_actsFor (hbarred : w.brain.Barred memberId) (hregistries : w.brain.Registries)
    (hacts : w.ActsFor index request memberId) (hreply : w.reply index request m = some answer) :
    ∃ e, answer = .error e := by
  obtain ⟨session, hsession, hhandled⟩ := handled_of_reply hreply
  obtain ⟨_, hacting, hmember⟩ := hacts
  obtain rfl := Option.some.inj (hacting.symm.trans hsession)
  by_contra hne
  obtain ⟨α, x, answer', next, value, hperforms, -, -, hreturned⟩ :=
    hhandled.returned (fun e heq => hne ⟨e, heq⟩) hregistries
  have hno := fun session hsame => @Brain.Barred.not_authorized w.brain m.now memberId hbarred
    hregistries session hsame
  generalize hoperation : request.operation = operation at hperforms hmember
  cases hperforms with
  | authenticate hphase binding secret =>
    have hconnected := Brain.connected_of_connect hreturned
    refine hno value ?_ hconnected.authorized
    rcases hmember with ⟨identity, hactive, -⟩ | ⟨binding', secret', heq, hmember⟩
    · rw [hactive] at hphase
      rcases hphase with hphase | hphase <;> cases hphase
    · obtain ⟨rfl, -⟩ := Operation.authenticate.inj heq
      rw [hconnected.binding_eq, hmember]
  | join hphase =>
    rcases hmember with ⟨identity, hactive, -⟩ | ⟨binding', secret', heq, -⟩
    · rw [hactive] at hphase
      cases hphase
    · cases heq
  | serve identity hphase hauthenticate =>
    refine hno identity ?_ (Brain.authorized_of_serveOperation hreturned).1
    rcases hmember with ⟨identity', hactive, hmember⟩ | ⟨binding', secret', heq, -⟩
    · obtain rfl : identity = identity' := Phase.active.inj (hphase.symm.trans hactive)
      exact hmember
    · exact absurd heq (hauthenticate binding' secret')

theorem joined_ne (hbarred : w.brain.Barred memberId) (hregistries : w.brain.Registries)
    {expiresAt : ℤ} (hreply : w.reply index request m = some (.joined binding expiresAt secret)) :
    binding.memberId ≠ memberId := by
  obtain ⟨session, -, hhandled⟩ := handled_of_reply hreply
  obtain ⟨α, x, answer, next, value, hperforms, hanswer, -, hreturned⟩ :=
    hhandled.returned (fun _ => Reply.noConfusion) hregistries
  generalize request.operation = operation at hperforms
  cases hperforms with
  | authenticate => cases hanswer
  | join =>
    obtain ⟨rfl, -⟩ := Reply.joined.inj hanswer
    exact hbarred.not_canIssue (Brain.canRedeem_of_join hreturned).1
  | serve identity hphase =>
    have hserved := Brain.served_of_serveOperation hreturned
    rw [show value = .joined binding expiresAt secret from hanswer.symm] at hserved
    cases hserved

/-- **Revocation is permanent.** In every run of a host – operations on its Brain, requests of
any number of sessions, and restarts – the owner is never revoked. And once a member has
been revoked, then for ever after: no operation and no request on its behalf succeeds, not
even in a session that was opened before; no credential is issued to it, so that it has the
credentials it had, all of them revoked, and nobody joins as it; and its nodes are offline. -/
theorem revoked_forever {s : BrainStore} (hs : s.Ready) (instant : ℕ) (before : List HostEvent) :
    let w := Run.after step (start s instant) before
    (w.brain.ownerMemberId = s.brain.ownerMemberId ∧
      ∃ member, w.brain.members[s.brain.ownerMemberId]? = some member ∧ member.revoked = false) ∧
    ∀ memberId event later, w.Revokes memberId event →
      let w₁ := w.step event
      let w₂ := Run.after step w₁ later
      (∀ (op : BrainOp) now reply, op.actsFor = some memberId →
        (op.run now w₂.brain).1 ≠ .ok reply) ∧
      (∀ index request m answer, w₂.ActsFor index request memberId →
        w₂.reply index request m = some answer → ∃ e, answer = .error e) ∧
      (∀ (key : String) record, w₂.brain.credentials.records[key]? = some record →
        record.binding.memberId = memberId →
        w₁.brain.credentials.records[key]? = some record ∧ record.revoked = true) ∧
      (∀ (op : BrainOp) now enrollment,
        (op.run now w₂.brain).1 = .ok (.enrollment enrollment) →
        enrollment.credential.binding.memberId ≠ memberId) ∧
      (∀ index request m binding expiresAt secret,
        w₂.reply index request m = some (.joined binding expiresAt secret) →
        binding.memberId ≠ memberId) ∧
      ∀ (key : String) node, w₂.brain.nodes[key]? = some node → node.memberId = memberId →
        node.online = false := by
  intro w
  have hguarded : w.brain.Guarded s.brain.ownerMemberId :=
    (Brain.stable_guarded _).after (hs.valid.guarded hs.durable.registries) before
  refine ⟨⟨hguarded.ownerMemberId, hguarded.owner⟩, ?_⟩
  intro memberId event later hrevokes w₁ w₂
  have hguarded₁ : w₁.brain.Guarded s.brain.ownerMemberId :=
    (Brain.stable_guarded _).step w event hguarded
  have hshut : w₂.brain.ShutOut s.brain.ownerMemberId memberId w₁.brain.credentials.records :=
    (Brain.stable_shutOut _ memberId _).after
      ⟨hguarded₁, hrevokes.barred hguarded, fun _ _ hrecord _ => hrecord⟩ later
  have hregistries := hshut.guarded.registries
  refine ⟨fun op now reply hop => hshut.barred.run_ne_ok hregistries hop,
    fun _ _ _ _ hacts hreply => error_of_actsFor hshut.barred hregistries hacts hreply,
    fun key record hrecord hmember => ⟨hshut.issued key record hrecord hmember, ?_⟩,
    fun op now enrollment hok => hshut.barred.enrollment_ne hok,
    fun _ _ _ _ _ _ hreply => joined_ne hshut.barred hregistries hreply, hshut.barred.offline⟩
  obtain ⟨key', record', hrecord', hmember', hrevoked⟩ :=
    CredentialRegistry.isRevoked_eq_true.mp hshut.barred.credentials
  rw [hregistries.credentials.agree key key' record record' hrecord hrecord'
    (hmember.trans hmember'.symm), hrevoked]

/-- The second member of the small Brain is revoked, and its node stays offline through a
restart. -/
theorem revoked_forever_pair :
    let w := start (.holding Brain.pair) 0
    let w₂ := Run.after step (w.step (.run (.revokeMember "guest" 2) 6)) [.restart]
    w.Revokes "guest" (.run (.revokeMember "guest" 2) 6) ∧
      ∀ (key : String) node, w₂.brain.nodes[key]? = some node → node.memberId = "guest" →
        node.online = false := by
  intro w w₂
  have hrevokes : w.Revokes "guest" (.run (.revokeMember "guest" 2) 6) :=
    @Revokes.run w "guest" 2 6 (.revision 3) rfl
  exact ⟨hrevokes,
    ((revoked_forever BrainStore.ready_pair 0 []).2 "guest" _ [.restart] hrevokes).2.2.2.2.2⟩

end HostWorld

end Rivloom.Collaboration
