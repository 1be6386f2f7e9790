import Rivloom.Lib.Replica
import Rivloom.Collaboration.BrainOps
import Rivloom.Collaboration.Node

/-!
# Every change is stamped

What incremental synchronization rests on: an operation of the Brain that changes a
member, a node or a task gives it the revision the operation makes, so that a record
whose revision is not above a known one is as it was then. The relation
`Rivloom.Collaboration.Brain.Stamped` between an earlier and a later Brain says so for
the three tables at once, and says besides that no key disappears, that a task keeps the
message it came with, and that a Brain of the same revision shows the same records. It
is a preorder, every operation respects it – whether it returns or fails – and therefore
so does every run.
-/

namespace Rivloom.Collaboration

/-! ### One table -/

/-- From one table to a later one: a record whose revision is not above the known one is
as it was, and no key has disappeared. -/
structure StampedTable {α : Type} (revision : α → ℕ) (known : ℕ) (m m' : StrMap α) : Prop where
  keep : ∀ (k : String) v, m'[k]? = some v → revision v ≤ known → m[k]? = some v
  keys : ∀ (k : String) v, m[k]? = some v → ∃ v', m'[k]? = some v'

namespace StampedTable

variable {α : Type} {revision : α → ℕ} {known : ℕ} {m m' : StrMap α}

theorem refl (revision : α → ℕ) (known : ℕ) (m : StrMap α) : StampedTable revision known m m :=
  ⟨fun _ _ h _ => h, fun _ v h => ⟨v, h⟩⟩

theorem insert (m : StrMap α) (k : String) {v : α} (h : known < revision v) :
    StampedTable revision known m (m.insert k v) := by
  refine ⟨fun k' v' h' hle => ?_, fun k' v' h' => ?_⟩
  · rw [StrMap.getElem?_insert] at h'
    split at h'
    · rw [← Option.some.inj h'] at hle
      omega
    · exact h'
  · rw [StrMap.getElem?_insert]
    split
    · exact ⟨v, rfl⟩
    · exact ⟨v', h'⟩

theorem update (m : StrMap α) (p : α → Bool) {f : α → α} (h : ∀ v, known < revision (f v)) :
    StampedTable revision known m (m.update p f) := by
  refine ⟨fun k' v' h' hle => ?_, fun k' v' h' => ?_⟩
  · rw [StrMap.getElem?_update] at h'
    obtain ⟨v, hv, rfl⟩ := Option.map_eq_some_iff.mp h'
    split at hle
    · exact absurd (h v) (by omega)
    · next hp => rw [if_neg hp, hv]
  · rw [StrMap.getElem?_update, h']
    exact ⟨_, rfl⟩

theorem trans {known' : ℕ} {m'' : StrMap α} (h : StampedTable revision known m m')
    (h' : StampedTable revision known' m' m'') (hle : known ≤ known') :
    StampedTable revision known m m'' := by
  refine ⟨fun k v hv hrev => h.keep k v (h'.keep k v hv (by omega)) hrev, fun k v hv => ?_⟩
  obtain ⟨v', hv'⟩ := h.keys k v hv
  exact h'.keys k v' hv'

end StampedTable

/-! ### The Brain -/

namespace Brain

/-- **From an earlier Brain to a later one, every change is stamped.** -/
structure Stamped (b b' : Brain) : Prop where
  revision : b.revision ≤ b'.revision
  brainId : b'.brainId = b.brainId
  owner : b'.ownerMemberId = b.ownerMemberId
  members : StampedTable MemberRecord.revision b.revision b.members b'.members
  nodes : StampedTable NodeRecord.revision b.revision b.nodes b'.nodes
  tasks : StampedTable TaskRecord.revision b.revision b.tasks b'.tasks
  source : ∀ (k : String) task task', b.tasks[k]? = some task → b'.tasks[k]? = some task' →
    task'.source = task.source
  same : b'.revision = b.revision →
    b'.members = b.members ∧ b'.nodes = b.nodes ∧ b'.tasks = b.tasks

namespace Stamped

variable {b b' b'' : Brain}

theorem of_same (hrevision : b.revision ≤ b'.revision) (hid : b'.brainId = b.brainId)
    (howner : b'.ownerMemberId = b.ownerMemberId) (hmembers : b'.members = b.members)
    (hnodes : b'.nodes = b.nodes) (htasks : b'.tasks = b.tasks) : Stamped b b' where
  revision := hrevision
  brainId := hid
  owner := howner
  members := hmembers ▸ .refl _ _ _
  nodes := hnodes ▸ .refl _ _ _
  tasks := htasks ▸ .refl _ _ _
  source k task task' h h' := by
    rw [htasks, h] at h'
    rw [Option.some.inj h']
  same _ := ⟨hmembers, hnodes, htasks⟩

theorem refl (b : Brain) : Stamped b b := of_same (le_refl _) rfl rfl rfl rfl rfl

theorem trans (h : Stamped b b') (h' : Stamped b' b'') : Stamped b b'' where
  revision := h.revision.trans h'.revision
  brainId := h'.brainId.trans h.brainId
  owner := h'.owner.trans h.owner
  members := h.members.trans h'.members h.revision
  nodes := h.nodes.trans h'.nodes h.revision
  tasks := h.tasks.trans h'.tasks h.revision
  source k task task'' htask htask'' := by
    obtain ⟨task', htask'⟩ := h.tasks.keys k task htask
    rw [h'.source k task' task'' htask' htask'', h.source k task task' htask htask']
  same heq := by
    have h1 := h.revision
    have h2 := h'.revision
    obtain ⟨hm, hn, ht⟩ := h.same (by omega)
    obtain ⟨hm', hn', ht'⟩ := h'.same (by omega)
    exact ⟨hm'.trans hm, hn'.trans hn, ht'.trans ht⟩

/-- A Brain whose revision grew by one, with new records stamped by it. -/
theorem of_succ (hrevision : b'.revision = b.revision + 1) (hid : b'.brainId = b.brainId)
    (howner : b'.ownerMemberId = b.ownerMemberId)
    (hmembers : StampedTable MemberRecord.revision b.revision b.members b'.members)
    (hnodes : StampedTable NodeRecord.revision b.revision b.nodes b'.nodes)
    (htasks : StampedTable TaskRecord.revision b.revision b.tasks b'.tasks)
    (hsource : ∀ (k : String) task task', b.tasks[k]? = some task → b'.tasks[k]? = some task' →
      task'.source = task.source) : Stamped b b' :=
  ⟨by omega, hid, howner, hmembers, hnodes, htasks, hsource, fun h => by omega⟩

theorem source_refl (b : Brain) (k : String) (task task' : TaskRecord)
    (h : b.tasks[k]? = some task) (h' : b.tasks[k]? = some task') : task'.source = task.source := by
  rw [h] at h'
  rw [Option.some.inj h']

end Stamped

variable {now : ℤ} {b b' : Brain}

theorem stamped_withClocks (b : Brain) (clock credentials invitations : Clock) :
    Stamped b (b.withClocks clock credentials invitations) :=
  .of_same (le_refl _) rfl rfl rfl rfl rfl

theorem stamped_presenceReset (b : Brain) (reason : PresenceReset) (now : ℤ) :
    Stamped b (b.presenceReset reason now) :=
  .of_succ rfl rfl rfl (.refl _ _ _) (.update _ _ fun _ => Nat.lt_succ_self _) (.refl _ _ _)
    (Stamped.source_refl b)

/-- **Every change is stamped.** -/
theorem Change.stamped (h : Change now b b') : Stamped b b' := by
  cases h with
  | same => exact .refl b
  | invited token secret => exact .of_same (Nat.le_succ _) rfl rfl rfl rfl rfl
  | cancelled invitationId => exact .of_same (Nat.le_succ _) rfl rfl rfl rfl rfl
  | enrolled request invitation memberToken nodeToken secret =>
    exact .of_succ rfl rfl rfl (.insert _ _ (Nat.lt_succ_self _)) (.insert _ _ (Nat.lt_succ_self _))
      (.refl _ _ _) (Stamped.source_refl b)
  | revoked memberId member =>
    exact .of_succ rfl rfl rfl (.insert _ _ (Nat.lt_succ_self _))
      (.update _ _ fun _ => Nat.lt_succ_self _) (.refl _ _ _) (Stamped.source_refl b)
  | seen session node =>
    exact .of_succ rfl rfl rfl (.refl _ _ _) (.insert _ _ (Nat.lt_succ_self _)) (.refl _ _ _)
      (Stamped.source_refl b)
  | announced session message node =>
    exact .of_succ rfl rfl rfl (.refl _ _ _) (.insert _ _ (Nat.lt_succ_self _)) (.refl _ _ _)
      (Stamped.source_refl b)
  | submitted session message taskId _ _ hnew =>
    refine .of_succ rfl rfl rfl (.refl _ _ _) (.refl _ _ _) (.insert _ _ (Nat.lt_succ_self _))
      fun k task task' htask htask' => ?_
    simp only [Brain.submitted, StrMap.getElem?_insert] at htask'
    split at htask'
    · next heq =>
      rw [← heq, hnew] at htask
      cases htask
    · exact Stamped.source_refl b k task task' htask htask'
  | progressed taskId task next hfound =>
    refine .of_succ rfl rfl rfl (.refl _ _ _) (.refl _ _ _) (.insert _ _ (Nat.lt_succ_self _))
      fun k old new hold hnew => ?_
    simp only [Brain.progressed, StrMap.getElem?_insert] at hnew
    split at hnew
    · next heq =>
      rw [← heq, hfound] at hold
      rw [← Option.some.inj hnew, ← Option.some.inj hold]
    · exact Stamped.source_refl b k old new hold hnew
  | presenceReset reason => exact stamped_presenceReset b reason now

theorem Residue.stamped (h : Residue now b b') : Stamped b b' := by
  cases h with
  | same => exact .refl b
  | pruned => exact .of_same (le_refl _) rfl rfl rfl rfl rfl
  | reset => exact stamped_presenceReset b .expired now
  | redeemed => exact .of_same (le_refl _) rfl rfl rfl rfl rfl

end Brain

/-- **Every operation is stamped**, whether it returns or fails. -/
theorem BrainOp.stamped (op : BrainOp) (now : ℤ) (b : Brain) :
    Brain.Stamped b (op.run now b).2 := by
  rcases op.changed_or_refused now b with ⟨-, credentials, invitations, -, -, hchange⟩ |
    ⟨b₀, ⟨clock, credentials, invitations, -, -, -, rfl⟩, hresidue⟩
  · exact (Brain.stamped_withClocks b _ _ _).trans hchange.stamped
  · exact (Brain.stamped_withClocks b _ _ _).trans hresidue.stamped

/-! ### What nodes see -/

namespace Brain

variable {record : SharedRecord} {b : Brain}

theorem mem_shared {memberId : String} :
    record ∈ b.shared memberId ↔
      (∃ (k : String) (member : MemberRecord), b.members[k]? = some member ∧
        record = b.sharedMember k member) ∨
      (∃ (k : String) (node : NodeRecord), b.nodes[k]? = some node ∧ record = sharedNode k node) ∨
      ∃ (k : String) (task : TaskRecord), b.tasks[k]? = some task ∧
        createdBy memberId task = true ∧ record = sharedTask k task := by
  simp only [shared, List.mem_append, List.mem_map, List.mem_filter, Prod.exists,
    StrMap.mem_toList, or_assoc, and_assoc, eq_comm]

theorem key_prefixes (a b : String) :
    "member:" ++ a ≠ "node:" ++ b ∧ "member:" ++ a ≠ "task:" ++ b ∧
      "node:" ++ a ≠ "task:" ++ b := by
  refine ⟨?_, ?_, ?_⟩ <;>
  · intro h
    have := congrArg String.toList h
    simp [String.toList_append] at this

/-- **No two shared records have the same key.** -/
theorem nodup_keys_shared (b : Brain) (memberId : String) :
    ((b.shared memberId).map SharedRecord.key).Nodup := by
  have hkeys : ∀ {α : Type} (m : StrMap α), (m.toList.map Prod.fst).Nodup := by
    intro α m
    rw [Std.ExtTreeMap.map_fst_toList_eq_keys]
    exact Std.ExtTreeMap.nodup_keys
  have hinj : ∀ (name : String) {l : List String}, l.Nodup → (l.map (name ++ ·)).Nodup :=
    fun name _ hl => hl.map fun _ _ h => (String.append_right_inj _).mp h
  have hmembers : (b.members.toList.map fun e => b.sharedMember e.1 e.2).map SharedRecord.key =
      (b.members.toList.map Prod.fst).map ("member:" ++ ·) := by
    simp only [List.map_map]
    rfl
  have hnodes : (b.nodes.toList.map fun e => sharedNode e.1 e.2).map SharedRecord.key =
      (b.nodes.toList.map Prod.fst).map ("node:" ++ ·) := by
    simp only [List.map_map]
    rfl
  have htasks : ((b.tasks.toList.filter fun e => createdBy memberId e.2).map
      fun e => sharedTask e.1 e.2).map SharedRecord.key =
      ((b.tasks.toList.filter fun e => createdBy memberId e.2).map Prod.fst).map
          ("task:" ++ ·) := by
    simp only [List.map_map]
    rfl
  rw [shared, List.map_append, List.map_append, hmembers, hnodes, htasks]
  refine List.Nodup.append (List.Nodup.append (hinj _ (hkeys _)) (hinj _ (hkeys _)) ?_)
    (hinj _ ((hkeys _).sublist (List.filter_sublist.map _))) ?_
  · intro key hm hn
    obtain ⟨k, -, rfl⟩ := List.mem_map.mp hm
    obtain ⟨k', -, hk'⟩ := List.mem_map.mp hn
    exact (key_prefixes k k').1 hk'.symm
  · intro key hmn ht
    obtain ⟨k', -, hk'⟩ := List.mem_map.mp ht
    rcases List.mem_append.mp hmn with hm | hn
    · obtain ⟨k, -, rfl⟩ := List.mem_map.mp hm
      exact (key_prefixes k k').2.1 hk'.symm
    · obtain ⟨k, -, rfl⟩ := List.mem_map.mp hn
      exact (key_prefixes k k').2.2 hk'.symm

theorem uniqueKeys_shared (b : Brain) (memberId : String) :
    Replica.UniqueKeys SharedRecord.key (b.shared memberId) :=
  fun _ hr _ hr' => List.inj_on_of_nodup_map (nodup_keys_shared b memberId) hr hr'

/-- **The projection**: the records that the nodes of a member see, by their keys. -/
def projection (b : Brain) (memberId : String) : StrMap SharedRecord :=
  Replica.ofList SharedRecord.key (b.shared memberId)

theorem getElem?_projection {memberId key : String} :
    (b.projection memberId)[key]? = some record ↔ record ∈ b.shared memberId ∧ record.key = key :=
  Replica.getElem?_ofList (uniqueKeys_shared b memberId)

namespace Stamped

variable {b b' : Brain} (h : Stamped b b') (memberId : String)

include h

/-- A shared record whose revision is not above the earlier Brain's was there then. -/
theorem shared_keep (hr : record ∈ b'.shared memberId) (hrev : record.revision ≤ b.revision) :
    record ∈ b.shared memberId := by
  rw [mem_shared] at hr ⊢
  rcases hr with ⟨k, v, hv, rfl⟩ | ⟨k, v, hv, rfl⟩ | ⟨k, v, hv, hcreated, rfl⟩
  · exact Or.inl ⟨k, v, h.members.keep k v hv hrev, by rw [sharedMember, sharedMember, h.owner]⟩
  · exact Or.inr (Or.inl ⟨k, v, h.nodes.keep k v hv hrev, rfl⟩)
  · exact Or.inr (Or.inr ⟨k, v, h.tasks.keep k v hv hrev, hcreated, rfl⟩)

theorem shared_keys (hr : record ∈ b.shared memberId) :
    ∃ record' ∈ b'.shared memberId, record'.key = record.key := by
  rw [mem_shared] at hr
  rcases hr with ⟨k, v, hv, rfl⟩ | ⟨k, v, hv, rfl⟩ | ⟨k, v, hv, hcreated, rfl⟩
  · obtain ⟨v', hv'⟩ := h.members.keys k v hv
    exact ⟨_, mem_shared.mpr (Or.inl ⟨k, v', hv', rfl⟩), rfl⟩
  · obtain ⟨v', hv'⟩ := h.nodes.keys k v hv
    exact ⟨_, mem_shared.mpr (Or.inr (Or.inl ⟨k, v', hv', rfl⟩)), rfl⟩
  · obtain ⟨v', hv'⟩ := h.tasks.keys k v hv
    have hcreated' : createdBy memberId v' = true := by
      rw [createdBy, h.source k v v' hv hv']
      exact hcreated
    exact ⟨_, mem_shared.mpr (Or.inr (Or.inr ⟨k, v', hv', hcreated', rfl⟩)), rfl⟩

theorem shared_same (heq : b'.revision = b.revision) : b'.shared memberId = b.shared memberId := by
  obtain ⟨hm, hn, ht⟩ := h.same heq
  unfold shared sharedMember
  rw [hm, hn, ht, h.owner]

/-- **The newer records, laid over the earlier projection, give the later one.** -/
theorem overlay_changes :
    Replica.overlay SharedRecord.key (b.projection memberId)
      (b'.changes memberId b.revision) = b'.projection memberId :=
  Replica.overlay_changes (uniqueKeys_shared b memberId) (uniqueKeys_shared b' memberId)
    (fun _ hr hrev => h.shared_keep memberId hr hrev) fun _ hr => h.shared_keys memberId hr

end Stamped

/-- Every record was stamped. -/
def Positive (b : Brain) : Prop := ∀ memberId, ∀ record ∈ b.shared memberId, 0 < record.revision

theorem Stamped.positive {b b' : Brain} (h : Stamped b b') (hb : b.Positive) : b'.Positive := by
  intro memberId record hr
  by_cases hrev : record.revision ≤ b.revision
  · exact hb memberId record (h.shared_keep memberId hr hrev)
  · omega

/-- **To a node that knows nothing, the newer records are the whole projection.** -/
theorem Positive.overlay_changes (h : b.Positive) (memberId : String) :
    Replica.overlay SharedRecord.key ∅ (b.changes memberId 0) = b.projection memberId := by
  rw [changes, List.filter_eq_self.mpr fun record hr => decide_eq_true (h memberId record hr)]
  rfl

end Brain

end Rivloom.Collaboration
