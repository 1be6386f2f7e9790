import Rivloom.Lib.Run
import Rivloom.Collaboration.NodeSteps

/-!
# Untrusted pages

A node takes pages from whoever answers. Whatever a peer sends, in whatever order, the
view of the node is replaced only as a whole, by one that makes sense, and never by an
older one. This file follows a node from its creation through any events – pages of any
content, lost connections, messages queued and acknowledged.

What has to be found is what is true *during* a pass, when old and new records are mixed
beside the view: the pass still starts where the view ends, it is bound to one revision,
and no record in it is newer than that (`Rivloom.Collaboration.Node.Inv`). With that, the
last page brings a view whose records are all covered by its revision, and the checks on
the complete view say the rest (`Rivloom.Collaboration.View.Sound`).
-/

namespace Rivloom.Collaboration

variable {binding : CredentialBinding} {revision : ℕ}

/-! ### Views that make sense -/

namespace View

variable {records : StrMap SharedRecord} {record : SharedRecord}

/-- **A view that makes sense** for the node of a binding, at a revision. -/
structure Sound (binding : CredentialBinding) (revision : ℕ) (records : StrMap SharedRecord) :
    Prop where
  /-- Each record stands under the key of what it is about. -/
  keyed : ∀ (key : String) record, records[key]? = some record → record.key = key
  /-- No record is newer than the view. -/
  revision_le : ∀ (key : String) record, records[key]? = some record → record.revision ≤ revision
  /-- There is one owner that is not revoked, and only one. -/
  owner : ∃ (key : String) (record : SharedRecord), records[key]? = some record ∧
    isOwner record = true ∧
    ∀ (key' : String) record', records[key']? = some record' → isOwner record' = true → key' = key
  /-- The own member is there and not revoked. -/
  ownMember : ∃ revision identityId name owner, records["member:" ++ binding.memberId]? =
    some ⟨revision, .member binding.memberId identityId name owner false⟩
  /-- The own node is there, with its member and its device. -/
  ownNode : ∃ revision online seen announcement, records["node:" ++ binding.nodeId]? =
    some ⟨revision, .node binding.nodeId binding.memberId binding.deviceId online seen announcement⟩
  members : count records isMember ≤ 64
  nodes : count records isNode ≤ 64
  tasks : count records isTask ≤ 64
  /-- The member of a node is there, and not revoked if the node is online. -/
  node : ∀ (key : String) revision nodeId memberId deviceId online seen announcement,
    records[key]? = some ⟨revision, .node nodeId memberId deviceId online seen announcement⟩ →
    ∃ revision' identityId name owner revoked, records["member:" ++ memberId]? =
        some ⟨revision', .member memberId identityId name owner revoked⟩ ∧
      (online = true → revoked = false)
  /-- A task was sent by a node of the own member, which is there. -/
  task : ∀ (key : String) revision taskId status source,
    records[key]? = some ⟨revision, .task taskId status source⟩ →
    ∃ revision' deviceId online seen announcement,
      records["node:" ++ source.admission.senderNodeId]? = some ⟨revision',
        .node source.admission.senderNodeId binding.memberId deviceId online seen announcement⟩

theorem eq_member_of_key {memberId : String} (hkey : record.key = "member:" ++ memberId)
    {id identityId name : String} {owner revoked : Bool}
    (hdata : record.data = .member id identityId name owner revoked) :
    record = ⟨record.revision, .member memberId identityId name owner revoked⟩ := by
  rw [SharedRecord.key, hdata] at hkey
  obtain rfl := (String.append_right_inj _).mp hkey
  rw [← hdata]

theorem eq_node_of_key {nodeId : String} (hkey : record.key = "node:" ++ nodeId)
    {id memberId deviceId : String} {online : Bool} {seen : Option ℤ}
    {announcement : Option Message}
    (hdata : record.data = .node id memberId deviceId online seen announcement) :
    record = ⟨record.revision, .node nodeId memberId deviceId online seen announcement⟩ := by
  rw [SharedRecord.key, hdata] at hkey
  obtain rfl := (String.append_right_inj _).mp hkey
  rw [← hdata]

theorem exists_unique_of_count {kind : SharedRecord → Bool} (h : count records kind = 1) :
    ∃ (key : String) (record : SharedRecord), records[key]? = some record ∧ kind record = true ∧
      ∀ (key' : String) record', records[key']? = some record' → kind record' = true →
        key' = key := by
  obtain ⟨e, he⟩ := List.length_eq_one_iff.mp h
  have hmem : ∀ (key : String) record, records[key]? = some record → kind record = true →
      (key, record) = e := by
    intro key record hrecord hkind
    have hin : (key, record) ∈ records.toList.filter fun e => kind e.2 :=
      List.mem_filter.mpr ⟨StrMap.mem_toList.mpr hrecord, hkind⟩
    rwa [he, List.mem_singleton] at hin
  have hself : e ∈ records.toList.filter fun e => kind e.2 := by
    rw [he]
    exact List.mem_singleton_self e
  obtain ⟨hlist, hkind⟩ := List.mem_filter.mp hself
  refine ⟨e.1, e.2, StrMap.mem_toList.mp hlist, hkind, fun key' record' hrecord' hkind' => ?_⟩
  rw [← hmem key' record' hrecord' hkind']

/-- **The checks on a complete view are enough**, once every record stands under its key
and is covered by the revision. -/
theorem sound_of_valid
    (hkeyed : ∀ (key : String) record, records[key]? = some record → record.key = key)
    (hrevision : ∀ (key : String) record, records[key]? = some record → record.revision ≤ revision)
    (hvalid : valid binding records = true) : Sound binding revision records := by
  simp only [valid, Bool.and_eq_true, beq_iff_eq, decide_eq_true_eq, StrMap.all_eq_true] at hvalid
  obtain ⟨⟨⟨⟨⟨⟨hrecords, howner⟩, hmembers⟩, hnodes⟩, htasks⟩, hmember⟩, hnode⟩ := hvalid
  refine ⟨hkeyed, hrevision, exists_unique_of_count howner, ?_, ?_, hmembers,
    hnodes, htasks, ?_, ?_⟩
  · unfold View.ownMember at hmember
    split at hmember
    · next id identityId name owner revoked hdata =>
      obtain ⟨record, hrecord, hdata⟩ := Option.map_eq_some_iff.mp hdata
      obtain rfl : revoked = false := by simpa using hmember
      refine ⟨record.revision, identityId, name, owner, ?_⟩
      rw [hrecord, ← eq_member_of_key (hkeyed _ record hrecord) hdata]
    · cases hmember
  · unfold View.ownNode at hnode
    split at hnode
    · next id memberId deviceId online seen announcement hdata =>
      obtain ⟨record, hrecord, hdata⟩ := Option.map_eq_some_iff.mp hdata
      simp only [Bool.and_eq_true, beq_iff_eq] at hnode
      obtain ⟨rfl, rfl⟩ := hnode
      refine ⟨record.revision, online, seen, announcement, ?_⟩
      rw [hrecord, ← eq_node_of_key (hkeyed _ record hrecord) hdata]
    · cases hnode
  · intro key revision nodeId memberId deviceId online seen announcement hfound
    have hcheck := hrecords key _ hfound
    simp only [recordValid] at hcheck
    split at hcheck
    · next id identityId name owner revoked hdata =>
      obtain ⟨record, hrecord, hdata⟩ := Option.map_eq_some_iff.mp hdata
      refine ⟨record.revision, identityId, name, owner, revoked, ?_, fun honline => ?_⟩
      · rw [hrecord, ← eq_member_of_key (hkeyed _ record hrecord) hdata]
      · simpa [honline] using hcheck
    · cases hcheck
  · intro key revision taskId status source hfound
    have hcheck := hrecords key _ hfound
    simp only [recordValid] at hcheck
    split at hcheck
    · next id memberId deviceId online seen announcement hdata =>
      obtain ⟨record, hrecord, hdata⟩ := Option.map_eq_some_iff.mp hdata
      obtain rfl := beq_iff_eq.mp hcheck
      refine ⟨record.revision, deviceId, online, seen, announcement, ?_⟩
      rw [hrecord, ← eq_node_of_key (hkeyed _ record hrecord) hdata]
    · cases hcheck

end View

/-! ### Events -/

/-- What can happen to a node. -/
inductive NodeEvent where
  | accept (page : Page)
  | disconnect
  | queueConfirmed (message : Message)
  | acknowledge (key : String) (revision : ℕ)

/-- What a node answers: for a page the next request, if one is to follow. -/
inductive NodeReply where
  | request (next : Option ReconcileRequest)
  | done
  deriving DecidableEq

namespace Node

variable {node : Node} {page : Page}

/-- Handle an event. -/
def handle : NodeEvent → NodeAction NodeReply
  | .accept page => .request <$> acceptPage page
  | .disconnect => (fun _ => .done) <$> Action.modify disconnect
  | .queueConfirmed message => (fun _ => .done) <$> queueConfirmed message
  | .acknowledge key revision => (fun _ => .done) <$> acknowledge key revision

/-- The node after some events, whatever was answered. -/
def after (node : Node) (events : List NodeEvent) : Node :=
  Run.after (fun node event => (handle event node).2) node events

/-! ### The invariant -/

/-- Records that stand under their keys and are covered by a revision. -/
def Covered (revision : ℕ) (records : StrMap SharedRecord) : Prop :=
  ∀ (key : String) record, records[key]? = some record →
    record.key = key ∧ record.revision ≤ revision

/-- **What is true of a node**, also in the middle of a pass: the pass starts where the
view ends, is bound to one revision that is not older, and holds nothing newer. -/
structure Inv (node : Node) : Prop where
  records : Covered node.revision node.records
  sync : ∀ pending, node.sync = some pending → pending.request.after = node.revision ∧
    ∃ revision, pending.request.atRevision = some revision ∧ Covered revision pending.records

theorem inv_new (h : Node.new binding = .ok node) : node.Inv := by
  simp only [Node.new] at h
  split at h
  · obtain rfl := Except.ok.inj h
    refine ⟨fun key record hrecord => ?_, fun pending hpending => ?_⟩
    · simp at hrecord
    · cases hpending
  · cases h

/-- The records of a page that passes its checks are within its revisions. -/
theorem revisions_of_validate (h : page.validate = .ok ()) :
    page.after ≤ page.atRevision ∧ ∀ record ∈ page.records, record.revision ≤ page.atRevision := by
  obtain ⟨hheader, hrecords⟩ := Page.validate_eq_ok.mp h
  refine ⟨hheader.after_le, fun record hrecord => ?_⟩
  have hrecord := hrecords record hrecord
  simp only [Page.recordValid, Bool.and_eq_true, decide_eq_true_eq] at hrecord
  exact hrecord.1.2

/-- What holds of the records of a pass and of the records of a page holds of the pass
with the page. -/
theorem stage_covered {records : List SharedRecord} {pending pending' : PendingSync}
    (h : PendingSync.stage records pending = some pending')
    (hpending : Covered revision pending.records)
    (hrecords : ∀ record ∈ records, record.revision ≤ revision) :
    Covered revision pending'.records := by
  induction records generalizing pending with
  | nil =>
    rw [← Option.some.inj h]
    exact hpending
  | cons record rest ih =>
    rw [PendingSync.stage] at h
    split at h
    · cases h
    · refine ih h (fun key record' hrecord' => ?_) fun r hr =>
        hrecords r (List.mem_cons_of_mem _ hr)
      rw [StrMap.getElem?_insert] at hrecord'
      split at hrecord'
      · next hkey =>
        rw [← Option.some.inj hrecord']
        exact ⟨hkey, hrecords record List.mem_cons_self⟩
      · exact hpending key record' hrecord'

/-- **What a page that is taken brings**, from whomever it comes. -/
theorem Inv.takes (h : node.Inv) {pending : PendingSync} (htakes : node.Takes page pending) :
    page.after = node.revision ∧ node.revision ≤ page.atRevision ∧
      Covered page.atRevision pending.records := by
  obtain ⟨hle, hrecords⟩ := revisions_of_validate htakes.valid
  -- either the page opens a pass, which is then a copy of the view, or it continues one
  have hcurrent : node.currentSync.request.after = node.revision ∧
      Covered page.atRevision node.currentSync.records := by
    have hafter := htakes.after
    have hrevision := htakes.revision
    cases hsync : node.sync with
    | none =>
      simp only [currentSync, hsync, Option.getD_none, firstRequest] at hafter ⊢
      refine ⟨trivial, fun key record hrecord => ?_⟩
      obtain ⟨hkey, hbound⟩ := h.records key record hrecord
      exact ⟨hkey, hbound.trans (hafter ▸ hle)⟩
    | some current =>
      simp only [currentSync, hsync, Option.getD_some] at hrevision ⊢
      obtain ⟨hstart, revision, hat, hcovered⟩ := h.sync current hsync
      obtain rfl := hrevision revision hat
      exact ⟨hstart, hcovered⟩
  have hafter : page.after = node.revision := htakes.after.trans hcurrent.1
  exact ⟨hafter, hafter ▸ hle, stage_covered htakes.stage hcurrent.2 hrecords⟩

/-- A node whose view did not change, and whose pass is gone or as it was. -/
theorem Inv.of_same {node node' : Node} (h : node.Inv) (hrevision : node'.revision = node.revision)
    (hrecords : node'.records = node.records)
    (hsync : node'.sync = none ∨ node'.sync = node.sync) : node'.Inv := by
  refine ⟨by rw [hrevision, hrecords]; exact h.records, fun pending hpending => ?_⟩
  rcases hsync with hnone | hsame
  · rw [hnone] at hpending
    cases hpending
  · rw [hrevision]
    exact h.sync pending (hsame.symm.trans hpending)

/-! ### Every event -/

/-- **What one event does to a node**, and what it answers. -/
structure Handled (node : Node) (event : NodeEvent) (r : Except NodeError NodeReply)
    (node' : Node) : Prop where
  binding : node'.binding = node.binding
  /-- The revision never decreases. -/
  revision : node.revision ≤ node'.revision
  /-- The view changes only with the last page of a pass. -/
  view : r ≠ .ok (.request none) →
    node'.records = node.records ∧ node'.revision = node.revision
  /-- A page that is refused ends the pass; nothing else that fails does anything. -/
  refused : ∀ e, r = .error e →
    (∃ page, event = .accept page ∧ node' = node.dropped) ∨
      ((∀ page, event ≠ .accept page) ∧ node' = node)
  /-- A view that is published makes sense. -/
  published : r = .ok (.request none) → View.Sound node.binding node'.revision node'.records

theorem Inv.handle (h : node.Inv) (event : NodeEvent) :
    Action.wp (handle event) (fun r node' => node'.Inv ∧ Handled node event r node') node := by
  cases event with
  | accept page =>
    rw [Node.handle, Action.wp_map]
    refine wp_acceptPage (fun pending offset htakes hnext => ?_)
      (fun pending htakes hlast hvalid => ?_)
      fun _ => ?_
    · obtain ⟨hafter, hle, hcovered⟩ := h.takes htakes
      refine ⟨⟨h.records, fun pending' hpending' => ?_⟩, ⟨rfl, le_refl _, fun _ => ⟨rfl, rfl⟩,
        fun e he => (by cases he), fun hr => (by cases hr)⟩⟩
      obtain rfl := Option.some.inj hpending'
      exact ⟨hafter, page.atRevision, rfl, hcovered⟩
    · obtain ⟨hafter, hle, hcovered⟩ := h.takes htakes
      refine ⟨⟨hcovered, fun pending' hpending' => (by cases hpending')⟩,
        ⟨rfl, hle, fun hr => absurd rfl hr, fun e he => (by cases he), fun _ => ?_⟩⟩
      exact View.sound_of_valid (fun key record hrecord => (hcovered key record hrecord).1)
        (fun key record hrecord => (hcovered key record hrecord).2) hvalid
    · exact ⟨h.of_same rfl rfl (Or.inl rfl), ⟨rfl, le_refl _, fun _ => ⟨rfl, rfl⟩,
        fun e _ => Or.inl ⟨page, rfl, rfl⟩, fun hr => (by cases hr)⟩⟩
  | disconnect =>
    rw [Node.handle, Action.wp_map]
    exact ⟨h.of_same rfl rfl (Or.inl rfl), ⟨rfl, le_refl _, fun _ => ⟨rfl, rfl⟩,
      fun e he => (by cases he), fun hr => (by cases hr)⟩⟩
  | queueConfirmed message =>
    rw [Node.handle, Action.wp_map]
    refine wp_queueConfirmed ?_ ?_ fun e => ?_
    · exact ⟨h.of_same rfl rfl (Or.inr rfl), ⟨rfl, le_refl _, fun _ => ⟨rfl, rfl⟩,
        fun e he => (by cases he), fun hr => (by cases hr)⟩⟩
    · exact ⟨h, ⟨rfl, le_refl _, fun _ => ⟨rfl, rfl⟩, fun e he => (by cases he),
        fun hr => (by cases hr)⟩⟩
    · exact ⟨h, ⟨rfl, le_refl _, fun _ => ⟨rfl, rfl⟩,
        fun _ _ => Or.inr ⟨fun _ => (by simp), rfl⟩, fun hr => (by cases hr)⟩⟩
  | acknowledge key revision =>
    rw [Node.handle, Action.wp_map]
    refine wp_acknowledge ?_ ?_
    · exact ⟨h.of_same rfl rfl (Or.inl rfl), ⟨rfl, le_refl _, fun _ => ⟨rfl, rfl⟩,
        fun e he => (by cases he), fun hr => (by cases hr)⟩⟩
    · exact ⟨h, ⟨rfl, le_refl _, fun _ => ⟨rfl, rfl⟩,
        fun _ _ => Or.inr ⟨fun _ => (by simp), rfl⟩, fun hr => (by cases hr)⟩⟩

theorem inv_after (h : Node.new binding = .ok node) (events : List NodeEvent) :
    (node.after events).Inv :=
  Run.invariant (fun _ event hinv => (hinv.handle event).1) (inv_new h) events

theorem after_append (node : Node) (events later : List NodeEvent) :
    node.after (events ++ later) = (node.after events).after later :=
  Run.after_append node events later

theorem binding_after (h : Node.new binding = .ok node) (events : List NodeEvent) :
    (node.after events).binding = binding := by
  have hnew : node.binding = binding := by
    simp only [Node.new] at h
    split at h
    · rw [← Except.ok.inj h]
    · cases h
  have hboth : (node.after events).Inv ∧ (node.after events).binding = binding :=
    Run.invariant (I := fun node : Node => node.Inv ∧ node.binding = binding)
      (fun _ event hinv => ⟨(hinv.1.handle event).1, (hinv.1.handle event).2.binding.trans hinv.2⟩)
      ⟨inv_new h, hnew⟩ events
  exact hboth.2

/-- **Untrusted pages never corrupt the view.** Whatever a node has been through since it
was created, its revision never goes down from there, and whatever happens next – a page
of any content in particular – replaces the view only by one that makes sense, and only
with the last page of a pass; a page that is refused leaves the view and ends the pass. -/
theorem handled_after {binding : CredentialBinding} {node : Node}
    (hnode : Node.new binding = .ok node) (events : List NodeEvent) :
    (∀ later, (node.after events).revision ≤ (node.after (events ++ later)).revision) ∧
      ∀ event r node', handle event (node.after events) = (r, node') →
        node'.binding = binding ∧ Handled (node.after events) event r node' := by
  have hinv := inv_after hnode events
  refine ⟨fun later => ?_, fun event r node' hhandle => ?_⟩
  · rw [after_append]
    -- the revision of the run so far bounds that of every continuation
    have hboth := Run.invariant
      (I := fun node' : Node => node'.Inv ∧ (node.after events).revision ≤ node'.revision)
      (fun _ event h => ⟨(h.1.handle event).1, h.2.trans (h.1.handle event).2.revision⟩)
      ⟨hinv, le_refl _⟩ later
    exact hboth.2
  · obtain ⟨-, hhandled⟩ := Action.of_wp (hinv.handle event) hhandle
    exact ⟨hhandled.binding.trans (binding_after hnode events), hhandled⟩

/-! ### A node that has its view -/

/-- The node of a small collaboration, before and after its first pass. -/
def small : Node := ⟨⟨"b", "m", "n", "d"⟩, 0, ∅, none, false, ∅, none⟩

/-- The two pages of its first pass. -/
def small.first : NodeEvent :=
  .accept ⟨1, "b", "m", 0, 1, 0, some 1, [⟨1, .member "m" "i" "Owner" true false⟩]⟩

@[inherit_doc small.first]
def small.last : NodeEvent :=
  .accept ⟨1, "b", "m", 0, 1, 1, none, [⟨1, .node "n" "m" "d" false none none⟩]⟩

/-- A message that is meant for another Brain. -/
def small.stray : Message where
  envelope := ⟨1, "message", "key", "other", "n", 5, 2, .node ⟨"n", "m", "d", .codex, "1", []⟩⟩
  valid := by decide +kernel
  fits := by
    rw [Codec.toBytes, Json.size_bytes]
    decide +kernel

/-- The last page of the pass publishes a view of revision one. -/
theorem sound_small :
    (handle small.last (small.after [small.first])).1 = .ok (.request none) ∧
      View.Sound ⟨"b", "m", "n", "d"⟩ (handle small.last (small.after [small.first])).2.revision
        (handle small.last (small.after [small.first])).2.records := by
  have hlast : (handle small.last (small.after [small.first])).1 = .ok (.request none) := by
    decide +kernel
  have hnew : Node.new ⟨"b", "m", "n", "d"⟩ = .ok small := by decide +kernel
  obtain ⟨hbinding, hhandled⟩ := (handled_after hnew [small.first]).2 small.last _ _
    Prod.mk.eta.symm
  have hsound := hhandled.published hlast
  rw [← hhandled.binding, hbinding] at hsound
  exact ⟨hlast, hsound⟩

/-- A message that is not the node's own is refused, and a node that has its view stays
ready. -/
theorem stray_message_refused :
    Node.new ⟨"b", "m", "n", "d"⟩ = .ok small ∧
      (handle (.queueConfirmed small.stray) (small.after [small.first, small.last])).1 =
        .error .invalid ∧
      (handle (.queueConfirmed small.stray) (small.after [small.first, small.last])).2.ready =
          true := by
  decide +kernel

end Node

end Rivloom.Collaboration
