import Rivloom.Collaboration.Sizes
import Rivloom.Collaboration.Convergence

/-!
# A node catches up

The Brain checks itself (`Rivloom.Collaboration.Brain.validate`), it checks each page
before it sends it, both ends check the response that carries it, and the node checks the
records of a complete pass against each other and against limits of its own. These checks
were written apart. This file shows that they agree: a Brain that passes its own never
produces a page that the other end refuses, and the pass ends after as many pages as
there are newer records (`Rivloom.Collaboration.pull_completes`).

The argument follows one pass. What an accepted Brain shows passes the check on records
(`Rivloom.Collaboration.Brain.Accepted.dataValid`), so that every page passes the check on
pages and fits; during the pass the node holds a mixture of old and new records, each of
which the Brain has shown at some time, so that there are never more than 64 of a kind
(`Rivloom.Collaboration.Brain.AllShown.fits`); and the last page leaves the projection of
the Brain, which passes the checks on a complete view
(`Rivloom.Collaboration.Brain.Accepted.view_valid`).
-/

namespace Rivloom.Collaboration

open Rivloom.Action (andThen_ok focus lift wp wp_bind wp_focus wp_mono)

variable {record : SharedRecord} {session : ConnectionIdentity} {b b' : Brain}
  {binding : CredentialBinding} {now : ℤ} {credential : StoredCredential} {l : List SharedRecord}

namespace Brain

variable {b b₀ : Brain} {memberId : String}

/-- **What an accepted Brain shows passes the check on pages.** -/
theorem Accepted.dataValid (h : b.Accepted) {page : Page} (hbrain : page.brainId = b.brainId)
    (hmember : page.memberId = memberId) (hr : record ∈ b.shared memberId) :
    page.dataValid record.revision record.data = true ∧ record.revision ≤ b.revision := by
  rcases mem_shared.mp hr with ⟨k, v, hv, rfl⟩ | ⟨k, v, hv, rfl⟩ | ⟨k, v, hv, hcreated, rfl⟩
  · have hok := h.valid.member k v hv
    refine ⟨?_, hok.revision_le⟩
    simp only [sharedMember, Page.dataValid, hok.id, hok.identityId, hok.displayName, Bool.and_true]
  · obtain ⟨credential, member, hrecord, rfl, hok⟩ := h.valid.credential_of_node h.credentials hv
    have hids := (CredentialRegistry.recordValid_iff.mp (h.credentials.record _ _ hrecord)).1
    simp only [CredentialBinding.valid, List.all_cons, List.all_nil, Bool.and_true,
      Bool.and_eq_true] at hids
    obtain ⟨-, hmemberId, hnodeId, hdeviceId⟩ := hids
    refine ⟨?_, hok.revision_le⟩
    simp only [sharedNode, Page.dataValid, hok.memberId, hok.deviceId, hmemberId,
      hnodeId, hdeviceId,
      Bool.and_eq_true, Bool.or_eq_true, Bool.not_eq_true', Option.isSome_iff_ne_none,
      Option.all_eq_true, true_and]
    refine ⟨⟨?_, fun seen hseen => (hok.seen seen hseen).1⟩, fun message hmessage => ?_⟩
    · cases honline : v.online with
      | false => exact Or.inl rfl
      | true => exact Or.inr (hok.online honline)
    · have hann := h.valid.announcement _ v message hv hmessage
      simp [Page.announcementValid, hann.brainId, hbrain, hann.sender, hann.revision, hann.payload,
        hok.memberId, hok.deviceId]
  · have hok := h.valid.task k v hv
    refine ⟨?_, hok.revision_le⟩
    obtain ⟨creator, hpayload, -⟩ := hok.source
    simp only [createdBy, hpayload, beq_iff_eq] at hcreated
    obtain rfl := hcreated
    simp only [sharedTask, Page.dataValid, v.source.id_taskId hpayload, hok.brainId,
      hbrain, hmember,
      hpayload, beq_self_eq_true, Bool.and_true, Bool.true_and]
    exact decide_eq_true hok.revision_lt

end Brain

/-! ### Counting the records of a view -/

namespace View

variable {records : StrMap SharedRecord} {kind : SharedRecord → Bool}

/-- There are no more records of a kind than entries that name them. -/
theorem count_le {α : Type} {m : StrMap α} (name : String → String)
    (h : ∀ (key : String) record, records[key]? = some record → kind record = true →
      ∃ (k : String) (v : α), m[k]? = some v ∧ name k = key) : count records kind ≤ m.size := by
  have hfilter : count records kind = (records.filter fun _ record => kind record).size := by
    rw [count, ← Std.ExtTreeMap.length_toList, Std.ExtTreeMap.toList_filter]
  rw [hfilter]
  refine StrMap.size_le_of_named (fun k _ => name k) fun key record hrecord => ?_
  rw [StrMap.getElem?_filter, Option.filter_eq_some_iff] at hrecord
  exact h key record hrecord.1 hrecord.2

theorem count_eq_one {key : String} (hfound : records[key]? = some record)
    (hkind : kind record = true)
    (hunique : ∀ (key' : String) record', records[key']? = some record' → kind record' = true →
      key' = key) : count records kind = 1 := by
  have hle : count records kind ≤ ((∅ : StrMap Unit).insert key ()).size :=
    count_le id fun key' record' hfound' hkind' => by
      rw [hunique key' record' hfound' hkind']
      exact ⟨key, (), by simp, rfl⟩
  have hpos : 0 < count records kind :=
    List.length_pos_of_mem (List.mem_filter.mpr ⟨StrMap.mem_toList.mpr hfound, hkind⟩)
  rw [StrMap.size_insert_of_none (by simp)] at hle
  simp only [Std.ExtTreeMap.size_empty] at hle
  omega

end View

namespace Brain

variable {b : Brain} {memberId : String} {records : StrMap SharedRecord}

/-- A record that the Brain shows to a member, or has shown at an earlier time. -/
def Shown (b : Brain) (memberId : String) (record : SharedRecord) : Prop :=
  ∃ b₀ : Brain, b₀.Accepted ∧ Stamped b₀ b ∧ record ∈ b₀.shared memberId

theorem Shown.of_mem (h : b.Accepted) (hr : record ∈ b.shared memberId) :
    b.Shown memberId record := ⟨b, h, .refl b, hr⟩

theorem Shown.named (h : b.Shown memberId record) :
    (View.isMember record = true →
      ∃ (k : String) (v : MemberRecord), b.members[k]? = some v ∧ "member:" ++ k = record.key) ∧
    (View.isNode record = true →
      ∃ (k : String) (v : NodeRecord), b.nodes[k]? = some v ∧ "node:" ++ k = record.key) ∧
    (View.isTask record = true →
      ∃ (k : String) (v : TaskRecord), b.tasks[k]? = some v ∧ "task:" ++ k = record.key) := by
  obtain ⟨b₀, -, hstamped, hr⟩ := h
  rcases mem_shared.mp hr with ⟨k, v, hv, rfl⟩ | ⟨k, v, hv, rfl⟩ | ⟨k, v, hv, -, rfl⟩
  · obtain ⟨v', hv'⟩ := hstamped.members.keys k v hv
    exact ⟨fun _ => ⟨k, v', hv', rfl⟩, fun h => (by cases h), fun h => (by cases h)⟩
  · obtain ⟨v', hv'⟩ := hstamped.nodes.keys k v hv
    exact ⟨fun h => (by cases h), fun _ => ⟨k, v', hv', rfl⟩, fun h => (by cases h)⟩
  · obtain ⟨v', hv'⟩ := hstamped.tasks.keys k v hv
    exact ⟨fun h => (by cases h), fun h => (by cases h), fun _ => ⟨k, v', hv', rfl⟩⟩

/-- Everything in a collection of records was shown. -/
def AllShown (b : Brain) (memberId : String) (records : StrMap SharedRecord) : Prop :=
  ∀ (key : String) record, records[key]? = some record →
    record.key = key ∧ b.Shown memberId record

theorem AllShown.counts (h : b.AllShown memberId records) (hvalid : b.Valid) :
    View.count records View.isMember ≤ 64 ∧ View.count records View.isNode ≤ 64 ∧
      View.count records View.isTask ≤ 64 := by
  refine ⟨(View.count_le ("member:" ++ ·) fun key record hrecord hkind => ?_).trans
      hvalid.members_size,
    (View.count_le ("node:" ++ ·) fun key record hrecord hkind => ?_).trans hvalid.nodes_size,
    (View.count_le ("task:" ++ ·) fun key record hrecord hkind => ?_).trans hvalid.tasks_size⟩
  all_goals
    obtain ⟨rfl, hshown⟩ := h key record hrecord
  · exact hshown.named.1 hkind
  · exact hshown.named.2.1 hkind
  · exact hshown.named.2.2 hkind

/-- **What was shown fits into a view.** -/
theorem AllShown.fits (h : b.AllShown memberId records) (hvalid : b.Valid) :
    records.size ≤ maxSharedRecords ∧ (recordsJson records).bytes.size ≤ maxViewBytes := by
  obtain ⟨hmembers, hnodes, htasks⟩ := h.counts hvalid
  have hmax : maxSharedRecords = 192 := rfl
  refine ⟨?_, View.bytes_le (fun key record hrecord => ?_) hmembers hnodes htasks⟩
  · rw [View.size_eq_counts]
    omega
  · obtain ⟨hkey, b₀, hb₀, -, hr⟩ := h key record hrecord
    have hpage := @Accepted.dataValid _ b₀ memberId hb₀ (b₀.page memberId ⟨0, none, 0⟩) rfl rfl hr
    exact ⟨hkey, hpage.2.trans hb₀.valid.revision_le, _, hpage.1⟩

theorem Accepted.allShown_projection (h : b.Accepted) (memberId : String) :
    b.AllShown memberId (b.projection memberId) := by
  intro key record hrecord
  obtain ⟨hr, hkey⟩ := getElem?_projection.mp hrecord
  exact ⟨hkey, .of_mem h hr⟩

theorem Accepted.count_isOwner (h : b.Accepted) :
    View.count (b.projection memberId) View.isOwner = 1 := by
  obtain ⟨owner, howner, hunrevoked⟩ := h.valid.owner
  have hfound : (b.projection memberId)["member:" ++ b.ownerMemberId]? =
      some (b.sharedMember b.ownerMemberId owner) := by
    rw [(isProjection_projection b memberId).member, howner, Option.map_some]
  refine View.count_eq_one hfound ?_ fun key record hrecord hkind => ?_
  · simp [View.isOwner, sharedMember, hunrevoked]
  · obtain ⟨hr, rfl⟩ := getElem?_projection.mp hrecord
    rcases mem_shared.mp hr with ⟨k, v, -, rfl⟩ | ⟨k, v, -, rfl⟩ | ⟨k, v, -, -, rfl⟩
    · simp only [View.isOwner, sharedMember, Bool.and_eq_true, beq_iff_eq] at hkind
      rw [← hkind.1]
      rfl
    · cases hkind
    · cases hkind

/-- The member of a node, and the node of a task, are shown with it. -/
theorem Accepted.recordValid (h : b.Accepted) (hr : record ∈ b.shared binding.memberId) :
    View.recordValid binding (b.projection binding.memberId) record = true := by
  have hproj := isProjection_projection b binding.memberId
  rcases mem_shared.mp hr with ⟨k, v, hv, rfl⟩ | ⟨k, v, hv, rfl⟩ | ⟨k, v, hv, hcreated, rfl⟩
  · rfl
  · obtain ⟨credential, member, -, -, hok⟩ := h.valid.credential_of_node h.credentials hv
    simp only [View.recordValid, sharedNode, hproj.member, hok.memberId, hok.hasMember,
      Option.map_some, sharedMember, Bool.or_eq_true, Bool.not_eq_true']
    cases hrevoked : member.revoked with
    | false => exact Or.inr rfl
    | true => exact Or.inl (hok.revoked hrevoked)
  · obtain ⟨creator, hpayload, node, hnode, hmember⟩ := (h.valid.task k v hv).source
    simp only [createdBy, hpayload, beq_iff_eq] at hcreated
    simp only [View.recordValid, sharedTask, hproj.node, hnode, Option.map_some,
      sharedNode, hmember,
      hcreated, beq_self_eq_true]

/-- **The projection passes the checks of a node** whose credential is active. -/
theorem Accepted.view_valid (h : b.Accepted)
    (hactive : b.credentials.Active binding now credential) :
    View.valid binding (b.projection binding.memberId) = true := by
  have hproj := isProjection_projection b binding.memberId
  have hshown := h.allShown_projection binding.memberId
  obtain ⟨hmembers, hnodes, htasks⟩ := hshown.counts h.valid
  obtain ⟨ownNode, ownMember, hown, hunrevoked⟩ := h.active hactive
  have hrecords : (b.projection binding.memberId).all
      (fun _ => View.recordValid binding (b.projection binding.memberId)) = true :=
    StrMap.all_eq_true.mpr fun key record hrecord =>
      h.recordValid ((getElem?_projection.mp hrecord).1)
  have hmember : View.ownMember binding (b.projection binding.memberId) = true := by
    rw [View.ownMember, hproj.member, hown.hasMember]
    simp [sharedMember, hunrevoked]
  have hnode : View.ownNode binding (b.projection binding.memberId) = true := by
    rw [View.ownNode, hproj.node, hown.hasNode]
    simp [sharedNode, hown.memberId, hown.deviceId]
  simp only [View.valid, hrecords, h.count_isOwner, decide_eq_true hmembers, decide_eq_true hnodes,
    decide_eq_true htasks, hmember, hnode, beq_self_eq_true, Bool.and_self]

/-! ### The pages of an accepted Brain -/

theorem Valid.length_shared_le (h : b.Valid) (memberId : String) :
    (b.shared memberId).length ≤ maxSharedRecords := by
  have hmembers := h.members_size
  have hnodes := h.nodes_size
  have htasks : (b.tasks.toList.filter fun e => createdBy memberId e.2).length ≤ maxTasks := by
    refine (List.length_filter_le _ _).trans ?_
    rw [Std.ExtTreeMap.length_toList]
    exact h.tasks_size
  have hmax : maxTasks = 64 := rfl
  have hshared : maxSharedRecords = 192 := rfl
  simp only [shared, List.length_append, List.length_map, Std.ExtTreeMap.length_toList]
  omega

theorem Valid.length_changes_le (h : b.Valid) (memberId : String) (after : ℕ) :
    (b.changes memberId after).length ≤ maxSharedRecords :=
  (List.length_filter_le _ _).trans (h.length_shared_le memberId)

/-- The page that answers a request within the changes passes the check on pages. -/
theorem Accepted.page_validate (h : b.Accepted) (hmember : Protocol.id memberId = true)
    {request : ReconcileRequest} (hafter : request.after ≤ b.revision)
    (hcount : request.offset = 0 ∨ request.offset < (b.changes memberId request.after).length) :
    (b.page memberId request).validate = .ok () := by
  have hlength := h.valid.length_changes_le memberId request.after
  have hmax : maxSharedRecords = 192 := rfl
  refine Page.validate_eq_ok.mpr ⟨⟨rfl, h.valid.id, hmember, h.valid.revision_pos,
    h.valid.revision_le, hafter, ?_, List.length_take_le _ _, fun next hnext => ?_,
    fun hempty => ?_⟩, fun record hrecord => ?_⟩
  · change request.offset < maxSharedRecords
    omega
  · simp only [page] at hnext
    split at hnext
    · obtain rfl := Option.some.inj hnext
      exact ⟨rfl, by omega⟩
    · cases hnext
  · -- a page without a record: there is nothing to send, and it is the first page
    have hshort : (b.changes memberId request.after).length ≤ request.offset := by
      have := congrArg List.length hempty
      simp only [page, List.length_take, List.length_drop, List.length_nil] at this
      omega
    have hoffset : request.offset = 0 := hcount.resolve_right (by omega)
    exact ⟨hoffset, if_neg (by omega)⟩
  · have hchange := List.mem_of_mem_drop (List.mem_of_mem_take hrecord)
    obtain ⟨hr, hnew⟩ := List.mem_filter.mp hchange
    obtain ⟨hdata, hrevision⟩ := @Accepted.dataValid record b memberId h
      (b.page memberId request) rfl rfl hr
    simp only [Page.recordValid, hdata, Bool.and_true, Bool.and_eq_true, decide_eq_true_eq]
    exact ⟨of_decide_eq_true hnew, hrevision⟩

end Brain

/-- The next record of a list with distinct keys is new to a pass that has seen the ones
before it. -/
theorem PendingSync.stage_next {pending : PendingSync} {i : ℕ}
    (hnodup : (l.map SharedRecord.key).Nodup)
    (hseen : ∀ key ∈ pending.seen, ∃ record ∈ l.take i, record.key = key) :
    ∃ pending', PendingSync.stage ((l.drop i).take 1) pending = some pending' ∧
      ∀ key ∈ pending'.seen, ∃ record ∈ l.take (i + 1), record.key = key := by
  have hmono : ∀ {record}, record ∈ l.take i → record ∈ l.take (i + 1) := fun hr => by
    rw [List.take_add]
    exact List.mem_append_left _ hr
  cases hdrop : l.drop i with
  | nil =>
    refine ⟨pending, rfl, fun key hkey => ?_⟩
    obtain ⟨record, hr, hrecord⟩ := hseen key hkey
    exact ⟨record, hmono hr, hrecord⟩
  | cons record rest =>
    have hfirst : record ∈ l.drop i := by
      rw [hdrop]
      exact List.mem_cons_self
    have hnew : record.key ∉ pending.seen := by
      intro hmem
      obtain ⟨record', hr', hkey⟩ := hseen _ hmem
      exact Replica.key_ne_of_mem_take hnodup hr' hfirst hkey
    refine ⟨_, by rw [List.take_succ_cons, List.take_zero, PendingSync.stage, if_neg hnew,
      PendingSync.stage], fun key hkey => ?_⟩
    rcases Finset.mem_insert.mp hkey with rfl | hkey
    · refine ⟨record, ?_, rfl⟩
      rw [List.take_add, hdrop]
      exact List.mem_append_right _ List.mem_cons_self
    · obtain ⟨record', hr', hrecord'⟩ := hseen key hkey
      exact ⟨record', hmono hr', hrecord'⟩

/-! ### A node that is behind -/

/-- **A node that can catch up**: its view was shown by the Brain, and what is newer than
it makes the view complete. -/
structure Node.Behind (node : Node) (b : Brain) : Prop where
  sync : node.sync = none
  revision_le : node.revision ≤ b.revision
  shown : b.AllShown node.binding.memberId node.records
  overlay : Replica.overlay SharedRecord.key node.records
    (b.changes node.binding.memberId node.revision) = b.projection node.binding.memberId

/-- A node in the middle of a pass that began with a view: the first records of what is
newer are laid over it. -/
structure Node.InPass (start : Node) (b : Brain) (i : ℕ) (node : Node) : Prop where
  binding : node.binding = start.binding
  after : node.currentSync.request.after = start.revision
  offset : node.currentSync.request.offset = i
  first : node.currentSync.request.atRevision = none → i = 0
  atRevision : ∀ revision, node.currentSync.request.atRevision = some revision →
    revision = b.revision
  records : node.currentSync.records = Replica.overlay SharedRecord.key start.records
    ((b.changes start.binding.memberId start.revision).take i)
  seen : ∀ key ∈ node.currentSync.seen,
    ∃ record ∈ (b.changes start.binding.memberId start.revision).take i, record.key = key

namespace Node

variable {start node : Node} {b : Brain} {i : ℕ}

theorem Behind.inPass (h : start.Behind b) : start.InPass b 0 start := by
  have hcurrent : start.currentSync = ⟨start.firstRequest, start.records, ∅⟩ := by
    rw [currentSync, h.sync]
    rfl
  refine ⟨rfl, ?_, ?_, fun _ => rfl, fun revision hrevision => ?_, ?_, fun key hkey => ?_⟩
  all_goals rw [hcurrent] at *
  · rfl
  · rfl
  · cases hrevision
  · rfl
  · simp at hkey

/-- A view with records of the Brain laid over it was shown by the Brain. -/
theorem Behind.allShown_overlay (h : start.Behind b) (hb : b.Accepted)
    (hl : ∀ record ∈ l, record ∈ b.shared start.binding.memberId) :
    b.AllShown start.binding.memberId (Replica.overlay SharedRecord.key start.records l) := by
  intro key record hrecord
  rcases Replica.mem_or_of_getElem?_overlay hrecord with ⟨hr, hkey⟩ | hold
  · exact ⟨hkey, .of_mem hb (hl record hr)⟩
  · exact h.shown key record hold

/-- **The page that answers a node in a pass is taken**, with its record added. -/
theorem InPass.takes (h : start.InPass b i node) (hbehind : start.Behind b) (hb : b.Accepted)
    (hbrain : start.binding.brainId = b.brainId)
    (hmember : Protocol.id start.binding.memberId = true)
    (hi : i = 0 ∨ i < (b.changes start.binding.memberId start.revision).length) :
    ∃ pending, node.Takes (b.page start.binding.memberId node.reconcileRequest) pending ∧
      pending.records = Replica.overlay SharedRecord.key start.records
        ((b.changes start.binding.memberId start.revision).take (i + 1)) ∧
      ∀ key ∈ pending.seen,
        ∃ record ∈ (b.changes start.binding.memberId start.revision).take (i + 1),
          record.key = key := by
  have hnodup : ((b.changes start.binding.memberId start.revision).map SharedRecord.key).Nodup :=
    (Brain.nodup_keys_shared b _).sublist (List.filter_sublist.map _)
  obtain ⟨pending, hstage, hseen⟩ := PendingSync.stage_next hnodup h.seen
  have hrecords : pending.records = Replica.overlay SharedRecord.key start.records
      ((b.changes start.binding.memberId start.revision).take (i + 1)) := by
    rw [(PendingSync.stage_eq_some hstage).1, h.records, ← Replica.overlay_append, List.take_add]
  have hfits : pending.records.size ≤ maxSharedRecords ∧
      (recordsJson pending.records).bytes.size ≤ maxViewBytes := by
    rw [hrecords]
    exact (hbehind.allShown_overlay hb fun record hr =>
      (List.mem_filter.mp (List.mem_of_mem_take hr)).1).fits hb.valid
  have hpage : (b.page start.binding.memberId node.reconcileRequest).validate = .ok () := by
    refine hb.page_validate hmember ?_ ?_
    · rw [reconcileRequest, h.after]
      exact hbehind.revision_le
    · rw [reconcileRequest, h.after, h.offset]
      exact hi
  refine ⟨pending, ⟨hpage, ?_, ?_, rfl, rfl, h.atRevision, ?_, hfits.1, hfits.2⟩, hrecords, hseen⟩
  · rw [h.binding]
    exact hbrain.symm
  · rw [h.binding]
    rfl
  · rw [← hstage]
    simp only [Brain.page, reconcileRequest, h.after, h.offset]

/-- The node after a pass: its view is what the Brain shows. -/
structure CaughtUp (b : Brain) (binding : CredentialBinding) (node : Node) : Prop where
  own : node.binding = binding
  ready : node.ready = true
  sync : node.sync = none
  revision : node.revision = b.revision
  records : node.records = b.projection binding.memberId

/-- **One page of a pass**: before the last one the pass goes on, and after the last one
the node has caught up. -/
theorem InPass.accept (h : start.InPass b i node) (hbehind : start.Behind b) (hb : b.Accepted)
    (hactive : b.credentials.Active start.binding now credential)
    (hi : i = 0 ∨ i < (b.changes start.binding.memberId start.revision).length) :
    wp (acceptPage (b.page start.binding.memberId node.reconcileRequest)) (fun r node' =>
      if i + 1 < (b.changes start.binding.memberId start.revision).length then
        (∃ request, r = .ok (some request)) ∧ start.InPass b (i + 1) node'
      else r = .ok none ∧ CaughtUp b start.binding node') node := by
  obtain ⟨ownNode, ownMember, hown, -⟩ := hb.active hactive
  obtain ⟨pending, htakes, hrecords, hseen⟩ := h.takes hbehind hb
    (hactive.2.1.trans hb.valid.credentials_brainId) (hb.valid.member _ _ hown.hasMember).id hi
  have hnext : (b.page start.binding.memberId node.reconcileRequest).next =
      if i + 1 < (b.changes start.binding.memberId start.revision).length then some (i + 1)
      else none := by
    simp only [Brain.page, reconcileRequest, h.after, h.offset]
  have hpending : ∀ {pending'}, node.Takes (b.page start.binding.memberId node.reconcileRequest)
      pending' → pending' = pending := fun htakes' =>
    Option.some.inj (htakes'.stage.symm.trans htakes.stage)
  refine wp_acceptPage (fun pending' offset htakes' hsome => ?_)
    (fun pending' htakes' hnone _ => ?_) fun hnone => ?_
  · obtain rfl := hpending htakes'
    rw [hnext] at hsome
    split at hsome
    · next hlt =>
      obtain rfl := Option.some.inj hsome
      rw [if_pos hlt]
      refine ⟨⟨_, rfl⟩, h.binding, ?_, rfl, fun hfirst => (by cases hfirst), ?_, hrecords, hseen⟩
      · exact h.after
      · intro revision hrevision
        exact (Option.some.inj hrevision).symm
    · cases hsome
  · obtain rfl := hpending htakes'
    rw [hnext] at hnone
    split at hnone
    · cases hnone
    · next hge =>
      rw [if_neg hge]
      refine ⟨rfl, h.binding, rfl, rfl, rfl, ?_⟩
      change pending'.records = _
      rw [hrecords, List.take_of_length_le (by omega), hbehind.overlay]
  · -- the page is taken, and the view it completes is the projection
    obtain ⟨hlast, hinvalid⟩ := hnone pending htakes
    rw [hnext] at hlast
    split at hlast
    · cases hlast
    · have hview := hb.view_valid hactive
      rw [hrecords, List.take_of_length_le (by omega), hbehind.overlay, h.binding,
        hview] at hinvalid
      cases hinvalid

end Node

/-! ### A pass over the wire -/

/-- What differs from one request to the next: the id that is drawn for it, and the time
at which it is answered. -/
structure SyncCall where
  id : String
  now : ℤ

/-- Where a pass can fail. -/
inductive SyncError where
  | brain (e : BrainError)
  | wire (e : WireError)
  | node (e : NodeError)
  /-- The client gave up, or was answered with something else than a page. -/
  | client
  deriving DecidableEq

/-- One request of a pass: the node asks, the Brain answers with a page, the page is
written into a response and read from it, and the node takes it. -/
def exchange (session : ConnectionIdentity) (call : SyncCall) :
    Action (Brain × Node) SyncError (Option ReconcileRequest) := do
  let (_, node) ← Action.get
  let page ← focus Prod.fst (fun b s => (b, s.2)) .brain
    (Brain.reconcile session node.reconcileRequest call.now)
  let bytes ← lift ((Response.encode ⟨1, call.id, .page page⟩).mapError .wire)
  let response ← lift ((Response.decode bytes call.id).mapError .wire)
  match response.result with
  | .page page =>
    focus Prod.snd (fun node s => (s.1, node)) .node (Node.acceptPage page)
  | _ => lift (.error .client)

/-- The loop of `Client::reconcile`, which runs it `maxSharedRecords` times: exchange pages
until the last one came. What it returns here is the number of pages. -/
def pull (session : ConnectionIdentity) (calls : ℕ → SyncCall) :
    ℕ → ℕ → Action (Brain × Node) SyncError ℕ
  | 0, _ => lift (.error .client)
  | fuel + 1, made => do
    match ← exchange session (calls made) with
    | none => return made + 1
    | some _ => pull session calls fuel (made + 1)

namespace Brain

theorem ClocksOnly.refl (b : Brain) : b.ClocksOnly b := ⟨_, _, _, rfl⟩

/-- A Brain that will answer a request at a time, from the same records. -/
structure Answers (b : Brain) (session : ConnectionIdentity) (now : ℤ) (b' : Brain) : Prop where
  admits : b'.Admits session now
  reset : ∃ b'', Reset now b' b'' ∧ b.ClocksOnly b''

theorem Reset.unique {b b' b'' : Brain} (h : Reset now b b') (h' : Reset now b b'') : b' = b'' := by
  cases h with
  | same hnone =>
    cases h' with
    | same => rfl
    | reset hany => exact absurd hany hnone
  | reset hany =>
    cases h' with
    | same hnone => exact absurd hany hnone
    | reset => rfl

theorem Reset.clocks (h : Reset now b b') : b'.clock = ⟨now⟩ ∧ b'.credentials.clock = ⟨now⟩ := by
  cases h <;> exact ⟨rfl, rfl⟩

/-- A Brain that has answered a request will answer the next one, if nobody is to be taken
offline. -/
theorem ClocksOnly.answers {now now' : ℤ} (h : b.ClocksOnly b')
    (hclocks : b'.clock = ⟨now⟩ ∧ b'.credentials.clock = ⟨now⟩) (hle : now ≤ now')
    (htime : Protocol.timestamp now' = true) (hauthorized : b.credentials.Authorized session now')
    (hquiet : ¬b.AnyExpired .expired now') : b.Answers session now' b' := by
  obtain ⟨clock, credentials, invitations, rfl⟩ := h
  refine ⟨⟨⟨htime, ?_⟩, ⟨htime, ?_⟩, hauthorized⟩, _, .same hquiet, _, _, _, rfl⟩
  · rw [hclocks.1]
    exact hle
  · rw [hclocks.2]
    exact hle

theorem Reset.authorized {now now' : ℤ} (h : Reset now b b') :
    b'.credentials.Authorized session now' ↔ b.credentials.Authorized session now' := by
  cases h <;> exact Iff.rfl

end Brain

open Brain (ClocksOnly Answers) in
/-- **One exchange of a pass** never fails. -/
theorem Node.InPass.exchange {start node : Node} {i : ℕ} {call : SyncCall}
    (h : start.InPass b i node) (hbehind : start.Behind b) (hb : b.Accepted)
    (hown : start.binding = session.binding) (hid : Protocol.id call.id = true)
    (hanswers : Answers b session call.now b')
    (hi : i = 0 ∨ i < (b.changes start.binding.memberId start.revision).length) :
    wp (exchange session call) (fun r s =>
      (Brain.Reset call.now b' s.1 ∧ b.ClocksOnly s.1) ∧
      if i + 1 < (b.changes start.binding.memberId start.revision).length then
        (∃ request, r = .ok (some request)) ∧ start.InPass b (i + 1) s.2
      else r = .ok none ∧ CaughtUp b start.binding s.2) (b', node) := by
  obtain ⟨b'', hreset, halike⟩ := hanswers.reset
  have hauthorized : b''.credentials.Authorized session call.now :=
    hreset.authorized.mpr hanswers.admits.2.2
  obtain ⟨clock, credentials, invitations, hclocks⟩ := halike
  obtain ⟨credential, hactive, -⟩ : b.credentials.Authorized session call.now := by
    rw [hclocks] at hauthorized
    exact hauthorized
  rw [← hown] at hactive
  obtain ⟨ownNode, ownMember, hbinding, -⟩ := hb.active hactive
  have hmember := (hb.valid.member _ _ hbinding.hasMember).id
  have hpage : (b.page start.binding.memberId node.reconcileRequest).validate = .ok () := by
    obtain ⟨pending, htakes, -⟩ := h.takes hbehind hb
      (hactive.2.1.trans hb.valid.credentials_brainId) hmember hi
    exact htakes.valid
  have hserve : b''.CanServe session.binding.memberId node.reconcileRequest := by
    have hmax : maxSharedRecords = 192 := rfl
    have hlength := hb.valid.length_changes_le start.binding.memberId start.revision
    rw [hclocks, ← hown]
    refine ⟨?_, ?_, ?_, h.atRevision, ?_, _, Page.encode_eq_ok hpage⟩
    · rw [Node.reconcileRequest, h.after]
      exact hbehind.revision_le
    · rw [Node.reconcileRequest, h.offset]
      omega
    · intro hnone
      rw [Node.reconcileRequest, h.offset]
      exact h.first hnone
    · rw [Node.reconcileRequest, h.offset, h.after]
      exact hi
  simp only [Rivloom.Collaboration.exchange, wp_bind, Action.wp_get, andThen_ok]
  rw [wp_focus]
  refine Brain.wp_reconcile (fun b₁ _ hreset₁ _ => ?_) (fun e b₁ _ hreset₁ hrefused => ?_)
    fun e b₁ _ hfull => ?_
  · obtain rfl := hreset₁.unique hreset
    have hsame : b₁.page session.binding.memberId node.reconcileRequest =
        b.page start.binding.memberId node.reconcileRequest := by
      rw [hclocks, hown]
      rfl
    obtain ⟨bytes, hencode, hdecode⟩ := Response.page_encode_decode hpage hid
    simp only [Except.mapError, andThen_ok, wp_bind, Action.wp_lift, hsame, hencode, hdecode]
    rw [wp_focus]
    refine wp_mono (h.accept hbehind hb hactive hi) fun r node' hr => ?_
    refine ⟨⟨hreset, clock, credentials, invitations, hclocks⟩, ?_⟩
    split_ifs at hr ⊢
    · obtain ⟨⟨request, rfl⟩, hpass⟩ := hr
      exact ⟨⟨request, rfl⟩, hpass⟩
    · obtain ⟨rfl, hdone⟩ := hr
      exact ⟨rfl, hdone⟩
  · exact absurd hserve ((hreset₁.unique hreset) ▸ hrefused)
  · obtain ⟨hany, hmax⟩ := hfull hanswers.admits
    cases hreset with
    | same hnone => exact absurd hany hnone
    | reset _ hlt => exact absurd hmax (Nat.not_le.mpr hlt)

/-- The pages of a pass: one for each record that is newer than what the node knows, and
at least one. -/
def Brain.pageCount (b : Brain) (memberId : String) (after : ℕ) : ℕ :=
  max 1 (b.changes memberId after).length

/-- **A pass from any page on** ends with the last one. -/
theorem Node.InPass.pull {start : Node} {calls : ℕ → SyncCall} (hbehind : start.Behind b)
    (hb : b.Accepted) (hown : start.binding = session.binding)
    (hid : ∀ j < b.pageCount start.binding.memberId start.revision, Protocol.id (calls j).id = true)
    (hnext : ∀ j b', j + 1 < b.pageCount start.binding.memberId start.revision → b.ClocksOnly b' →
      b'.clock = ⟨(calls j).now⟩ ∧ b'.credentials.clock = ⟨(calls j).now⟩ →
      b.Answers session (calls (j + 1)).now b') {fuel i : ℕ} {node : Node}
    (h : start.InPass b i node) (hi : i < b.pageCount start.binding.memberId start.revision)
    (hfuel : b.pageCount start.binding.memberId start.revision ≤ i + fuel)
    (hanswers : b.Answers session (calls i).now b') :
    wp (pull session calls fuel i) (fun r s =>
      r = .ok (b.pageCount start.binding.memberId start.revision) ∧ b.ClocksOnly s.1 ∧
        CaughtUp b start.binding s.2) (b', node) := by
  induction fuel generalizing i node b' with
  | zero => omega
  | succ fuel ih =>
    have hcount : b.pageCount start.binding.memberId start.revision =
        max 1 (b.changes start.binding.memberId start.revision).length := rfl
    rw [Rivloom.Collaboration.pull, wp_bind]
    refine wp_mono (h.exchange hbehind hb hown (hid i hi) hanswers (by omega))
      fun r s hr => ?_
    obtain ⟨⟨hreset, halike⟩, hr⟩ := hr
    split_ifs at hr with hlt
    · obtain ⟨⟨request, rfl⟩, hpass⟩ := hr
      exact ih hpass (by omega) (by omega) (hnext i s.1 (by omega) halike hreset.clocks)
    · obtain ⟨rfl, hdone⟩ := hr
      have hlast : b.pageCount start.binding.memberId start.revision = i + 1 := by omega
      rw [hlast]
      exact ⟨rfl, halike, hdone⟩

/-- **A node that is fresh, or whose last pass was with an earlier state of the Brain.** -/
inductive Node.Follows (binding : CredentialBinding) (b : Brain) (node : Node) : Prop
  | fresh (hnew : Node.new binding = .ok node)
  | synced (b₀ : Brain) (ops : List (BrainOp × ℤ)) (horigin : b₀.Origin)
      (hrun : Run.after (fun b (call : BrainOp × ℤ) => (call.1.run call.2 b).2) b₀ ops = b)
      (hbinding : node.binding = binding) (hsync : node.sync = none)
      (hrevision : node.revision = b₀.revision)
      (hrecords : IsProjection b₀ binding.memberId node.records)

theorem Brain.Reset.stamped (h : Reset now b b') : Stamped b b' := by
  cases h with
  | same => exact stamped_withClocks b _ _ _
  | reset => exact (stamped_presenceReset b _ _).trans (stamped_withClocks _ _ _ _)

theorem Node.Follows.behind {node : Node} (h : node.Follows binding b) (hb' : b'.Accepted)
    (hstamped : Brain.Stamped b b') : node.binding = binding ∧ node.Behind b' := by
  cases h with
  | fresh hnew =>
    simp only [Node.new] at hnew
    split at hnew
    swap
    · cases hnew
    obtain rfl := Except.ok.inj hnew
    refine ⟨rfl, rfl, Nat.zero_le _, fun key record hrecord => ?_, ?_⟩
    · simp at hrecord
    · exact hb'.positive.overlay_changes _
  | synced b₀ ops horigin hrun hbinding hsync hrevision hrecords =>
    obtain rfl := hbinding
    have hearlier : Brain.Stamped b₀ b' := by
      refine Brain.Stamped.trans ?_ hstamped
      rw [← hrun]
      exact Run.respects Brain.Stamped.refl Brain.Stamped.trans
        (fun b call => call.1.stamped call.2 b) b₀ ops
    refine ⟨rfl, hsync, ?_, fun key record hrecord => ?_, ?_⟩
    · rw [hrevision]
      exact hearlier.revision
    · rw [hrecords.eq_projection] at hrecord
      obtain ⟨hr, hkey⟩ := Brain.getElem?_projection.mp hrecord
      exact ⟨hkey, b₀, horigin.accepted, hearlier, hr⟩
    · rw [hrecords.eq_projection, hrevision]
      exact hearlier.overlay_changes _

/-- **The Brain never sends a page that its client refuses.** Take a Brain that is accepted,
a node that is fresh or completed its last pass with an earlier state of the Brain, and a
session of that node that is active at the time of each request. If the Brain does not
change – nodes that are to be taken offline are so by the first request, which leaves
`b₁`, and none is by a later one – then no step of the pass fails, whatever the ids of the
requests: it ends after one page for each newer record that the node may see, one page at
least and never more than the loop of the client allows, and the node's view is then what
the Brain shows. -/
theorem pull_completes {b b₁ : Brain} {node : Node} {session : ConnectionIdentity}
    {calls : ℕ → SyncCall} (hbrain : b.Origin) (hnode : node.Follows session.binding b)
    (hfirst : Brain.Reset (calls 0).now b b₁)
    (hcalls : ∀ i < b₁.pageCount session.binding.memberId node.revision,
      Protocol.id (calls i).id = true ∧ b.Admits session (calls i).now)
    (htimes : ∀ i, i + 1 < b₁.pageCount session.binding.memberId node.revision →
      (calls i).now ≤ (calls (i + 1)).now)
    (hquiet : ∀ i, i + 1 < b₁.pageCount session.binding.memberId node.revision →
      ¬b₁.AnyExpired .expired (calls (i + 1)).now) :
    b₁.pageCount session.binding.memberId node.revision ≤ maxSharedRecords ∧
      ∀ fuel, b₁.pageCount session.binding.memberId node.revision ≤ fuel →
        ∃ b' node', pull session calls fuel 0 (b, node) =
            (.ok (b₁.pageCount session.binding.memberId node.revision), (b', node')) ∧
          node'.ready = true ∧ node'.revision = b₁.revision ∧
          IsProjection b₁ session.binding.memberId node'.records := by
  have hpos : 0 < b₁.pageCount session.binding.memberId node.revision :=
    Nat.lt_of_lt_of_le Nat.one_pos (Nat.le_max_left _ _)
  have hadmits := (hcalls 0 hpos).2
  have hb₁ : b₁.Accepted :=
    Brain.Changed.accepted (Brain.Changed.of_reset hadmits hfirst) hbrain.accepted
  obtain ⟨hown, hbehind⟩ := hnode.behind hb₁ hfirst.stamped
  have hlength := hb₁.valid.length_changes_le session.binding.memberId node.revision
  refine ⟨Nat.max_le.mpr ⟨by decide, hlength⟩, fun fuel hfuel => ?_⟩
  have hspec : wp (pull session calls fuel 0) (fun r s =>
      r = .ok (b₁.pageCount session.binding.memberId node.revision) ∧ b₁.ClocksOnly s.1 ∧
        Node.CaughtUp b₁ session.binding s.2) (b, node) := by
    have hpull := @Node.InPass.pull session b₁ b node calls hbehind hb₁ hown
    rw [hown] at hpull
    refine hpull (fun j hj => (hcalls j hj).1) (fun j b' hj halike hclocks => ?_)
      hbehind.inPass hpos
      (by omega) ⟨hadmits, b₁, hfirst, .refl b₁⟩
    obtain ⟨-, htime, -, hauthorized⟩ := hcalls (j + 1) hj
    exact halike.answers hclocks (htimes j hj) htime.1 (hfirst.authorized.mpr hauthorized)
      (hquiet j hj)
  obtain ⟨hr, -, hdone⟩ := hspec
  refine ⟨_, _, Prod.ext hr rfl, hdone.ready, hdone.revision, ?_⟩
  rw [hdone.records]
  exact isProjection_projection b₁ session.binding.memberId

/-- A new node of the small Brain's owner catches up with two pages. -/
theorem pull_small :
    ∃ b' node', pull Brain.small.session (fun _ => ⟨"request", 6⟩) maxSharedRecords 0
        (Brain.small, SyncWorld.small.node) = (.ok 2, (b', node')) ∧
      IsProjection (Brain.small.authorizedAt 6) "owner" node'.records := by
  have hnew : Node.new Brain.small.session.binding = .ok SyncWorld.small.node := by decide +kernel
  have hadmits : Brain.small.Admits Brain.small.session 6 :=
    ⟨by decide, by decide, _, ⟨rfl, rfl, rfl, rfl, by decide, by decide⟩, rfl⟩
  have hquiet : ¬Brain.small.AnyExpired .expired 6 := fun hany =>
    absurd (StrMap.any_eq_true.mpr hany) (by decide +kernel)
  have hcount : (Brain.small.authorizedAt 6).pageCount Brain.small.session.binding.memberId
      SyncWorld.small.node.revision = 2 := by decide +kernel
  obtain ⟨-, hpull⟩ := @pull_completes Brain.small _ SyncWorld.small.node Brain.small.session
    (fun _ => ⟨"request", 6⟩) Brain.origin_small (.fresh hnew) (.same hquiet)
    (fun _ _ => ⟨by decide +kernel, hadmits⟩) (fun _ _ => le_refl _) fun _ _ => hquiet
  rw [hcount] at hpull
  obtain ⟨b', node', hrun, -, -, hproj⟩ := hpull maxSharedRecords (by decide)
  exact ⟨b', node', hrun, hproj⟩

/-- **No revision left**: the small Brain at its last revision passes its checks and admits its
session, but the presence of its node has run out, and there is no revision at which to take the
node offline. The first request of a new node is refused. -/
theorem pull_refused_at_last_revision :
    ∃ b : Brain, b.validate = .ok () ∧ b.revision = maxRevision ∧ b.Origin ∧
      SyncWorld.small.node.Follows Brain.small.session.binding b ∧
      b.Admits Brain.small.session 35 ∧
      (pull Brain.small.session (fun _ => ⟨"request", 35⟩) maxSharedRecords 0
        (b, SyncWorld.small.node)).1 = .error (.brain .capacity) := by
  have hnew : Node.new Brain.small.session.binding = .ok SyncWorld.small.node := by decide +kernel
  refine ⟨{ Brain.small with revision := maxRevision }, by decide +kernel, rfl,
    .checked (by decide +kernel) (by decide +kernel) (by decide +kernel), .fresh hnew,
    ⟨by decide, by decide, _, ⟨rfl, rfl, rfl, rfl, by decide, by decide⟩, rfl⟩, ?_⟩
  decide +kernel

end Rivloom.Collaboration
