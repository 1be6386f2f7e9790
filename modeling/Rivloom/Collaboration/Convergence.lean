import Rivloom.Lib.Run
import Rivloom.Collaboration.BrainInvariant
import Rivloom.Collaboration.NodeSteps
import Rivloom.Collaboration.Stamps

/-!
# A node's view converges

One node synchronizes with the Brain while anything else happens to either of them. The
world of this file is the Brain, the node, the pages the Brain produced for the node's
session so far – any of which may reach the node, at any time, in any order and more than
once – and every state the Brain has been in.

Whenever the last page of a pass is accepted, the view is the projection of the Brain at
the revision the page names: nothing stale is left, nothing is missing, and nothing of
another member's tasks is there. Three facts carry it. The states of the Brain form a
chain in which every change is stamped (`Rivloom.Collaboration.Brain.Stamped`), so that
the pages of one revision agree wherever they come from; the pass under way is the view
with a first part of the newer records laid over it; and a view that was ever published
is the projection of some state in the chain.
-/

namespace Rivloom.Collaboration

variable {b : Brain} {node : Node}

/-- **The records of a view are exactly what the Brain shows to a member**: one for each
member, one for each node, one for each task the member created, and no other. -/
structure IsProjection (b : Brain) (memberId : String) (records : StrMap SharedRecord) :
    Prop where
  member : ∀ k, records["member:" ++ k]? = b.members[k]?.map (b.sharedMember k)
  node : ∀ k, records["node:" ++ k]? = b.nodes[k]?.map (Brain.sharedNode k)
  task : ∀ k, records["task:" ++ k]? =
    (b.tasks[k]?.filter (Brain.createdBy memberId)).map (Brain.sharedTask k)
  only : ∀ (key : String) record, records[key]? = some record →
    ∃ k, key = "member:" ++ k ∨ key = "node:" ++ k ∨ key = "task:" ++ k

theorem isProjection_projection (b : Brain) (memberId : String) :
    IsProjection b memberId (b.projection memberId) := by
  refine ⟨fun k => ?_, fun k => ?_, fun k => ?_, fun key record h => ?_⟩
  · ext record
    rw [Brain.getElem?_projection, Brain.mem_shared, Option.map_eq_some_iff]
    constructor
    · rintro ⟨⟨k', v, hv, rfl⟩ | ⟨k', v, hv, rfl⟩ | ⟨k', v, hv, -, rfl⟩, hkey⟩
      · obtain rfl := (String.append_right_inj _).mp hkey
        exact ⟨v, hv, rfl⟩
      · exact absurd hkey.symm (Brain.key_prefixes k k').1
      · exact absurd hkey.symm (Brain.key_prefixes k k').2.1
    · rintro ⟨v, hv, rfl⟩
      exact ⟨Or.inl ⟨k, v, hv, rfl⟩, rfl⟩
  · ext record
    rw [Brain.getElem?_projection, Brain.mem_shared, Option.map_eq_some_iff]
    constructor
    · rintro ⟨⟨k', v, hv, rfl⟩ | ⟨k', v, hv, rfl⟩ | ⟨k', v, hv, -, rfl⟩, hkey⟩
      · exact absurd hkey (Brain.key_prefixes k' k).1
      · obtain rfl := (String.append_right_inj _).mp hkey
        exact ⟨v, hv, rfl⟩
      · exact absurd hkey.symm (Brain.key_prefixes k k').2.2
    · rintro ⟨v, hv, rfl⟩
      exact ⟨Or.inr (Or.inl ⟨k, v, hv, rfl⟩), rfl⟩
  · ext record
    rw [Brain.getElem?_projection, Brain.mem_shared, Option.map_eq_some_iff]
    simp only [Option.filter_eq_some_iff]
    constructor
    · rintro ⟨⟨k', v, hv, rfl⟩ | ⟨k', v, hv, rfl⟩ | ⟨k', v, hv, hcreated, rfl⟩, hkey⟩
      · exact absurd hkey (Brain.key_prefixes k' k).2.1
      · exact absurd hkey (Brain.key_prefixes k' k).2.2
      · obtain rfl := (String.append_right_inj _).mp hkey
        exact ⟨v, ⟨hv, hcreated⟩, rfl⟩
    · rintro ⟨v, ⟨hv, hcreated⟩, rfl⟩
      exact ⟨Or.inr (Or.inr ⟨k, v, hv, hcreated, rfl⟩), rfl⟩
  · obtain ⟨hmem, rfl⟩ := Brain.getElem?_projection.mp h
    rcases Brain.mem_shared.mp hmem with ⟨k, v, -, rfl⟩ | ⟨k, v, -, rfl⟩ | ⟨k, v, -, -, rfl⟩
    · exact ⟨k, Or.inl rfl⟩
    · exact ⟨k, Or.inr (Or.inl rfl)⟩
    · exact ⟨k, Or.inr (Or.inr rfl)⟩

theorem IsProjection.eq_projection {memberId : String} {records : StrMap SharedRecord}
    (h : IsProjection b memberId records) : records = b.projection memberId := by
  have hproj := isProjection_projection b memberId
  apply Std.ExtTreeMap.ext_getElem?
  intro key
  by_cases hname : ∃ k, key = "member:" ++ k ∨ key = "node:" ++ k ∨ key = "task:" ++ k
  · obtain ⟨k, rfl | rfl | rfl⟩ := hname
    · rw [h.member, hproj.member]
    · rw [h.node, hproj.node]
    · rw [h.task, hproj.task]
  · have hnone : ∀ {records' : StrMap SharedRecord}, IsProjection b memberId records' →
        records'[key]? = none := fun h' =>
      Option.eq_none_iff_forall_ne_some.mpr fun record hrecord => hname (h'.only key record hrecord)
    rw [hnone h, hnone hproj]

/-! ### The world -/

/-- The Brain and one node, the states the Brain has been in, and the pages it produced
for the node's session. -/
structure SyncWorld where
  brain : Brain
  node : Node
  history : List Brain
  pages : List Page

/-- What can happen to the Brain and the node. -/
inductive SyncEvent where
  | brain (op : BrainOp) (now : ℤ)
  | accept (page : Page)
  | disconnect
  | queueConfirmed (message : Message)
  | acknowledge (key : String) (revision : ℕ)

/-- The page that an operation produced for the session of a binding. -/
def producedPage (binding : CredentialBinding) (op : BrainOp) (r : Except BrainError BrainReply) :
    List Page :=
  match op, r with
  | .reconcile session _, .ok (.page page) => if session.binding = binding then [page] else []
  | _, _ => []

namespace SyncWorld

/-- A Brain, and a node that knows nothing yet. -/
def start (brain : Brain) (node : Node) : SyncWorld :=
  { brain, node, history := [brain], pages := [] }

/-- One event. Only pages that were produced for the node's session reach it. -/
def step (w : SyncWorld) : SyncEvent → SyncWorld
  | .brain op now =>
    let (r, brain) := op.run now w.brain
    { w with
      brain
      history := brain :: w.history
      pages := w.pages ++ producedPage w.node.binding op r }
  | .accept page =>
    if page ∈ w.pages then { w with node := (Node.acceptPage page w.node).2 } else w
  | .disconnect => { w with node := w.node.disconnect }
  | .queueConfirmed message => { w with node := (Node.queueConfirmed message w.node).2 }
  | .acknowledge key revision => { w with node := (Node.acknowledge key revision w.node).2 }

/-- The state after a run. -/
def run (w : SyncWorld) (events : List SyncEvent) : SyncWorld := Run.after step w events

end SyncWorld

/-! ### Pages of one revision agree -/

namespace Brain

/-- Two states of one Brain, in the order in which they were reached. -/
def Related (b b' : Brain) : Prop := Stamped b b' ∨ Stamped b' b

theorem Related.shared_eq {b b' : Brain} (h : Related b b') (heq : b.revision = b'.revision)
    (memberId : String) : b.shared memberId = b'.shared memberId := by
  rcases h with h | h
  · exact (h.shared_same memberId heq.symm).symm
  · exact h.shared_same memberId heq

theorem Related.changes_eq {b b' : Brain} (h : Related b b') (heq : b.revision = b'.revision)
    (memberId : String) (after : ℕ) : b.changes memberId after = b'.changes memberId after := by
  rw [changes, changes, h.shared_eq heq]

theorem Related.projection_eq {b b' : Brain} (h : Related b b') (heq : b.revision = b'.revision)
    (memberId : String) : b.projection memberId = b'.projection memberId := by
  rw [projection, projection, h.shared_eq heq]

/-- What is newer than one state, laid over its projection, gives the projection of the
other. -/
theorem Related.overlay_changes {b b' : Brain} (h : Related b b') (hle : b.revision ≤ b'.revision)
    (memberId : String) :
    Replica.overlay SharedRecord.key (b.projection memberId) (b'.changes memberId b.revision) =
      b'.projection memberId := by
  rcases h with h | h
  · exact h.overlay_changes memberId
  · -- the later state has the smaller revision, so that nothing has changed between them
    have heq : b.revision = b'.revision := Nat.le_antisymm hle h.revision
    rw [← Related.changes_eq (Or.inr h) heq, ← Related.projection_eq (Or.inr h) heq]
    exact (Stamped.refl b).overlay_changes memberId

end Brain

theorem PendingSync.stage_eq_some {records : List SharedRecord} {pending pending' : PendingSync}
    (h : PendingSync.stage records pending = some pending') :
    pending'.records = Replica.overlay SharedRecord.key pending.records records ∧
      pending'.request = pending.request := by
  induction records generalizing pending with
  | nil =>
    rw [← Option.some.inj h]
    exact ⟨rfl, rfl⟩
  | cons record rest ih =>
    rw [PendingSync.stage] at h
    split at h
    · cases h
    · exact ih h

/-- **A page that was produced** shows a part of what changed in the Brain it was read
from, which is the Brain after the request. -/
theorem producedPage_eq {binding own : CredentialBinding} {op : BrainOp} {now : ℤ} {page : Page}
    (hown : own = binding) (h : page ∈ producedPage own op (op.run now b).1) :
    ∃ request, page = (op.run now b).2.page binding.memberId request := by
  subst hown
  cases op with
  | reconcile session request =>
    have hspec : Action.wp (BrainOp.run now (.reconcile session request)) (fun r b' =>
        page ∈ producedPage own (.reconcile session request) r →
          ∃ request, page = b'.page own.memberId request) b := by
      rw [BrainOp.run, Action.wp_map]
      refine Brain.wp_reconcile (fun b' _ _ _ hpage => ?_) (fun _ _ _ _ _ hpage => ?_)
        fun _ _ _ _ hpage => ?_
      · simp only [Except.map, producedPage] at hpage
        split at hpage
        · next hbinding =>
          rw [List.mem_singleton, hbinding] at hpage
          exact ⟨request, hpage⟩
        · cases hpage
      · cases hpage
      · cases hpage
    exact hspec h
  | _ => cases h

/-! ### The invariant -/

/-- **The invariant of a synchronizing node.** -/
structure SyncInv (binding : CredentialBinding) (w : SyncWorld) : Prop where
  own : w.node.binding = binding
  current : w.brain ∈ w.history
  newest : ∀ b ∈ w.history, Brain.Stamped b w.brain
  chain : ∀ b ∈ w.history, ∀ b' ∈ w.history, Brain.Related b b'
  positive : ∀ b ∈ w.history, b.Positive
  /-- A page shows a part of what changed in some state of the Brain. -/
  pages : ∀ page ∈ w.pages, ∃ b ∈ w.history, ∃ request, page = b.page binding.memberId request
  /-- The view is empty, or the projection of some state. -/
  view : (w.node.revision = 0 ∧ w.node.records = ∅) ∨
    ∃ b ∈ w.history, b.revision = w.node.revision ∧
      w.node.records = b.projection binding.memberId
  /-- A pass is the view with the first of the newer records of some state laid over. -/
  sync : ∀ pending, w.node.sync = some pending → ∃ b ∈ w.history,
    pending.request.after = w.node.revision ∧ pending.request.atRevision = some b.revision ∧
      pending.records = Replica.overlay SharedRecord.key w.node.records
        ((b.changes binding.memberId w.node.revision).take pending.request.offset)

namespace SyncInv

variable {binding : CredentialBinding} {w : SyncWorld} {pending : PendingSync}

/-- The pass a page belongs to, seen from the state the page comes from. -/
theorem currentSync (h : SyncInv binding w) (hb : b ∈ w.history)
    (hrevision : ∀ revision, w.node.currentSync.request.atRevision = some revision →
      revision = b.revision) :
    w.node.currentSync.request.after = w.node.revision ∧
      w.node.currentSync.records = Replica.overlay SharedRecord.key w.node.records
        ((b.changes binding.memberId w.node.revision).take w.node.currentSync.request.offset) := by
  cases hsync : w.node.sync with
  | none =>
    simp only [Node.currentSync, hsync, Option.getD_none, Node.firstRequest, List.take_zero,
      Replica.overlay_nil, and_self]
  | some pending =>
    obtain ⟨b', hb', hafter, hat, hrecords⟩ := h.sync pending hsync
    simp only [Node.currentSync, hsync, Option.getD_some] at hrevision ⊢
    refine ⟨hafter, ?_⟩
    rw [hrecords, (h.chain b hb b' hb').changes_eq (hrevision _ hat).symm]

theorem takes (h : SyncInv binding w) {page : Page} (hpage : page ∈ w.pages)
    (htakes : w.node.Takes page pending) :
    ∃ b ∈ w.history, b.revision = page.atRevision ∧ w.node.revision ≤ b.revision ∧
      page.after = w.node.revision ∧
      page.next = (if page.offset + 1 < (b.changes binding.memberId w.node.revision).length
        then some (page.offset + 1) else none) ∧
      pending.records = Replica.overlay SharedRecord.key w.node.records
        ((b.changes binding.memberId w.node.revision).take (page.offset + 1)) := by
  obtain ⟨b, hb, request, rfl⟩ := h.pages page hpage
  have hrevision : ∀ revision, w.node.currentSync.request.atRevision = some revision →
      revision = b.revision := htakes.revision
  obtain ⟨hafter, hrecords⟩ := h.currentSync hb hrevision
  have hrequest : request.after = w.node.revision := htakes.after.trans hafter
  have hoffset : request.offset = w.node.currentSync.request.offset := htakes.offset
  have hle : w.node.revision ≤ b.revision := by
    rw [← hrequest]
    exact (Page.validate_eq_ok.mp htakes.valid).1.after_le
  refine ⟨b, hb, rfl, hle, hrequest, ?_, ?_⟩
  · rw [← hrequest]
    rfl
  · obtain ⟨hstaged, -⟩ := PendingSync.stage_eq_some htakes.stage
    rw [hstaged, hrecords, ← Replica.overlay_append, ← hoffset, ← hrequest, List.take_add]
    rfl

/-- The view with all newer records of a state laid over it is the projection of the
state. -/
theorem overlay_changes (h : SyncInv binding w) (hb : b ∈ w.history)
    (hle : w.node.revision ≤ b.revision) :
    Replica.overlay SharedRecord.key w.node.records
      (b.changes binding.memberId w.node.revision) = b.projection binding.memberId := by
  rcases h.view with ⟨hrevision, hrecords⟩ | ⟨b', hb', hrevision, hrecords⟩
  · rw [hrevision, hrecords]
    exact (h.positive b hb).overlay_changes binding.memberId
  · rw [← hrevision] at hle ⊢
    rw [hrecords]
    exact (h.chain b' hb' b hb).overlay_changes hle binding.memberId

/-- **The last page of a pass publishes the projection.** -/
theorem last (h : SyncInv binding w) {page : Page} (hpage : page ∈ w.pages)
    (htakes : w.node.Takes page pending) (hlast : page.next = none) :
    ∃ b ∈ w.history, b.revision = page.atRevision ∧
      pending.records = b.projection binding.memberId := by
  obtain ⟨b, hb, hrevision, hle, -, hnext, hrecords⟩ := h.takes hpage htakes
  refine ⟨b, hb, hrevision, ?_⟩
  rw [hlast] at hnext
  split at hnext
  · cases hnext
  · next hlength =>
    rw [List.take_of_length_le (by omega)] at hrecords
    rw [hrecords, h.overlay_changes hb hle]

theorem of_dropped (h : SyncInv binding w) (hbinding : node.binding = w.node.binding)
    (hrevision : node.revision = w.node.revision) (hrecords : node.records = w.node.records)
    (hsync : node.sync = none) : SyncInv binding { w with node } where
  own := hbinding.trans h.own
  current := h.current
  newest := h.newest
  chain := h.chain
  positive := h.positive
  pages := h.pages
  view := by
    rw [hrevision, hrecords]
    exact h.view
  sync pending hpending := by
    rw [hsync] at hpending
    cases hpending

theorem accept (h : SyncInv binding w) {page : Page} (hpage : page ∈ w.pages) :
    SyncInv binding { w with node := (Node.acceptPage page w.node).2 } := by
  have hspec : Action.wp (Node.acceptPage page)
      (fun _ node => SyncInv binding { w with node }) w.node := by
    refine Node.wp_acceptPage (fun pending offset htakes hnext => ?_)
      (fun pending htakes hlast _ => ?_) fun _ => h.of_dropped rfl rfl rfl rfl
    · obtain ⟨b, hb, hrevision, hle, hafter, hnext', hrecords⟩ := h.takes hpage htakes
      have hoffset : offset = page.offset + 1 := by
        rw [hnext] at hnext'
        split at hnext'
        · exact Option.some.inj hnext'
        · cases hnext'
      refine ⟨h.own, h.current, h.newest, h.chain, h.positive, h.pages, h.view,
        fun pending' hpending' => ?_⟩
      obtain rfl := Option.some.inj hpending'
      refine ⟨b, hb, hafter, ?_, ?_⟩
      · change some page.atRevision = some b.revision
        rw [hrevision]
      · rw [← hoffset] at hrecords
        exact hrecords
    · obtain ⟨b, hb, hrevision, hrecords⟩ := h.last hpage htakes hlast
      refine ⟨h.own, h.current, h.newest, h.chain, h.positive, h.pages,
        Or.inr ⟨b, hb, hrevision, hrecords⟩, fun pending' hpending' => ?_⟩
      cases hpending'
  exact hspec

/-- An operation of the Brain keeps the invariant: the chain grows, and a page that was
produced shows the newest state. -/
theorem brain (h : SyncInv binding w) (op : BrainOp) (now : ℤ) :
    SyncInv binding (w.step (.brain op now)) := by
  have hstamped := op.stamped now w.brain
  have hnewest : ∀ b ∈ (op.run now w.brain).2 :: w.history,
      Brain.Stamped b (op.run now w.brain).2 := by
    intro b hb
    rcases List.mem_cons.mp hb with rfl | hb
    · exact .refl _
    · exact (h.newest b hb).trans hstamped
  have hview : ∀ {P : Brain → Prop}, (∃ b ∈ w.history, P b) →
      ∃ b ∈ (op.run now w.brain).2 :: w.history, P b := fun ⟨b, hb, hP⟩ =>
    ⟨b, List.mem_cons_of_mem _ hb, hP⟩
  refine ⟨h.own, List.mem_cons_self, hnewest, fun b hb b' hb' => ?_, fun b hb => ?_,
    fun page hpage => ?_, h.view.imp_right hview, fun pending hpending =>
      hview (h.sync pending hpending)⟩
  · rcases List.mem_cons.mp hb with rfl | hb
    · exact Or.inr (hnewest b' hb')
    · rcases List.mem_cons.mp hb' with rfl | hb'
      · exact Or.inl (hnewest b (List.mem_cons_of_mem _ hb))
      · exact h.chain b hb b' hb'
  · rcases List.mem_cons.mp hb with rfl | hb
    · exact hstamped.positive (h.positive _ h.current)
    · exact h.positive b hb
  · rcases List.mem_append.mp hpage with hpage | hpage
    · exact hview (h.pages page hpage)
    · exact ⟨_, List.mem_cons_self, producedPage_eq h.own hpage⟩

/-- **Every event keeps the invariant.** -/
theorem step (h : SyncInv binding w) (event : SyncEvent) : SyncInv binding (w.step event) := by
  cases event with
  | brain op now => exact h.brain op now
  | accept page =>
    rw [SyncWorld.step]
    split
    · next hpage => exact h.accept hpage
    · exact h
  | disconnect => exact h.of_dropped rfl rfl rfl rfl
  | queueConfirmed message =>
    have hspec : Action.wp (Node.queueConfirmed message)
        (fun _ node => SyncInv binding { w with node }) w.node :=
      Node.wp_queueConfirmed ⟨h.own, h.current, h.newest, h.chain, h.positive,
        h.pages, h.view, h.sync⟩
        h fun _ => h
    exact hspec
  | acknowledge key revision =>
    have hspec : Action.wp (Node.acknowledge key revision)
        (fun _ node => SyncInv binding { w with node }) w.node :=
      Node.wp_acknowledge (h.of_dropped rfl rfl rfl rfl) h
    exact hspec

end SyncInv

theorem Brain.Accepted.positive (h : b.Accepted) : b.Positive := by
  intro memberId record hr
  rcases Brain.mem_shared.mp hr with ⟨k, v, hv, rfl⟩ | ⟨k, v, hv, rfl⟩ | ⟨k, v, hv, -, rfl⟩
  · exact (h.valid.member k v hv).revision_pos
  · exact (h.valid.nodeFits_self h.credentials hv).revision_pos
  · exact Nat.zero_lt_of_lt (h.valid.task k v hv).revision_lt

theorem SyncInv.start {brain : Brain} {binding : CredentialBinding} (hbrain : brain.Positive)
    (hnode : Node.new binding = .ok node) : SyncInv binding (SyncWorld.start brain node) := by
  simp only [Node.new] at hnode
  split at hnode
  swap
  · cases hnode
  obtain rfl := Except.ok.inj hnode
  refine ⟨rfl, List.mem_singleton_self _, fun b hb => ?_, fun b hb b' hb' => ?_, fun b hb => ?_,
    fun page hpage => (by cases hpage), Or.inl ⟨rfl, rfl⟩, fun pending h => (by cases h)⟩
  · rw [List.mem_singleton.mp hb]
    exact .refl _
  · rw [List.mem_singleton.mp hb, List.mem_singleton.mp hb']
    exact Or.inl (.refl _)
  · rw [List.mem_singleton.mp hb]
    exact hbrain

/-- **The view of a node converges.** However the operations of the Brain and the steps of
one node are interleaved, when a page that the Brain produced for the node's session ends
a pass, the node has the revision the page names – which the Brain has had – and its
records are exactly what the Brain showed to the node's member at that revision. -/
theorem acceptPage_isProjection {brain : Brain} {binding : CredentialBinding} {node : Node}
    (hbrain : brain.Origin) (hnode : Node.new binding = .ok node) (events : List SyncEvent)
    {page : Page} {node' : Node}
    (hpage : page ∈ ((SyncWorld.start brain node).run events).pages)
    (haccept : Node.acceptPage page ((SyncWorld.start brain node).run events).node =
      (.ok none, node')) :
    node'.revision = page.atRevision ∧
      (∃ b ∈ ((SyncWorld.start brain node).run events).history, b.revision = page.atRevision) ∧
      ∀ b ∈ ((SyncWorld.start brain node).run events).history, b.revision = page.atRevision →
        IsProjection b binding.memberId node'.records := by
  have h : SyncInv binding ((SyncWorld.start brain node).run events) :=
    Run.invariant (fun _ event h => h.step event)
      (SyncInv.start hbrain.accepted.positive hnode) events
  have hspec : Action.wp (Node.acceptPage page) (fun r node' => r = .ok none →
      node'.revision = page.atRevision ∧
      ∃ b ∈ ((SyncWorld.start brain node).run events).history, b.revision = page.atRevision ∧
        node'.records = b.projection binding.memberId)
      ((SyncWorld.start brain node).run events).node := by
    refine Node.wp_acceptPage (fun pending offset _ _ hr => ?_)
      (fun pending htakes hlast _ _ => ⟨rfl, h.last hpage htakes hlast⟩) fun _ hr => ?_
    · cases hr
    · cases hr
  obtain ⟨hrevision, b, hb, hb_revision, hrecords⟩ := Action.of_wp hspec haccept rfl
  refine ⟨hrevision, ⟨b, hb, hb_revision⟩, fun b' hb' hb'_revision => ?_⟩
  rw [hrecords, (h.chain b hb b' hb').projection_eq (hb_revision.trans hb'_revision.symm)]
  exact isProjection_projection b' binding.memberId

namespace SyncWorld

/-- The small Brain, and a new node of its owner. -/
def small : SyncWorld :=
  start Brain.small ⟨Brain.small.session.binding, 0, ∅, none, false, ∅, none⟩

/-- The two pages of the first pass of that node. -/
def small.page (offset : ℕ) : Page :=
  (Brain.small.authorizedAt 6).page "owner"
    ⟨0, if offset = 0 then none else some 2, offset⟩

/-- The pass, up to its last page. -/
def small.events : List SyncEvent :=
  [.brain (.reconcile Brain.small.session ⟨0, none, 0⟩) 6, .accept (page 0),
    .brain (.reconcile Brain.small.session ⟨0, some 2, 1⟩) 6]

end SyncWorld

open SyncWorld in
/-- The second page ends the pass, and the node's view is what the small Brain shows. -/
theorem isProjection_small :
    small.page 1 ∈ (small.run small.events).pages ∧
      ∃ node', Node.acceptPage (small.page 1) (small.run small.events).node = (.ok none, node') ∧
        IsProjection Brain.small "owner" node'.records := by
  obtain ⟨hpage, haccept, hhistory⟩ : small.page 1 ∈ (small.run small.events).pages ∧
      (Node.acceptPage (small.page 1) (small.run small.events).node).1 = .ok none ∧
      Brain.small ∈ (small.run small.events).history := by decide +kernel
  have hnew : Node.new Brain.small.session.binding = .ok small.node := by decide +kernel
  rcases hrun : Node.acceptPage (small.page 1) (small.run small.events).node with ⟨r, node'⟩
  rw [hrun] at haccept
  obtain rfl : r = .ok none := haccept
  exact ⟨hpage, node', rfl,
    (acceptPage_isProjection Brain.origin_small hnew small.events hpage hrun).2.2 Brain.small
      hhistory rfl⟩

end Rivloom.Collaboration
