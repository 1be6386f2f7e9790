import Mathlib.Data.Finset.Insert
import Rivloom.Lib.Run
import Rivloom.Lib.Tally

/-!
# The registry of agents

The agents of a session are registered in two maps (`registry.rs`): `agent_tree` has what is
known about an agent under its path, and `thread_paths` has the path of a thread, so that an
agent can be found from either side. A counter of its own says how many slots are taken. A slot
is taken by a reservation, which may reserve a path as well, and passes to the agent when the
reservation is committed; releasing an agent frees its slot. The maps are changed under a lock,
the counter by atomic operations before or after, and other calls run in between
(`Rivloom.Agent.Call`).

`thread_paths` always points at the entry of its own thread (`Rivloom.Agent.Indexed`), so a
release frees one slot and only for an agent that has one. But a commit can replace an agent
that is registered already – the same thread at another path, or another thread at the same
path – and takes it out of the maps without freeing its slot: the counter is too high from then
on (`Rivloom.Agent.slot_of_replaced_agent_is_lost`). The counter is right in every run in which
a commit registers an agent that was not there (`Rivloom.Agent.CommitsNewAgent`,
`Rivloom.Agent.agent_slots_are_accounted`).
-/

namespace Rivloom.Agent

variable {limit : ℕ}

/-! ### Agents -/

structure AgentPath where
  text : String
  deriving DecidableEq

/-- `AgentPath::ROOT`. -/
def AgentPath.rootText : String := "/root"

def AgentPath.root : AgentPath := ⟨AgentPath.rootText⟩

def AgentPath.isRoot (path : AgentPath) : Bool := path.text = AgentPath.rootText

structure AgentMetadata (ThreadId : Type) where
  agentId : Option ThreadId := none
  agentPath : Option AgentPath := none
  agentNickname : Option String := none
  agentRole : Option String := none
  deriving DecidableEq

variable {ThreadId : Type} {agentMetadata : AgentMetadata ThreadId} {threadId : ThreadId}
  {metadata : AgentMetadata ThreadId} {agentPath : AgentPath}

/-- The filter of `live_agents`: an agent with a thread that is not the root. -/
def AgentMetadata.isLive (metadata : AgentMetadata ThreadId) : Bool :=
  metadata.agentId.isSome && !metadata.agentPath.any AgentPath.isRoot

variable [DecidableEq ThreadId]

/-- **The two maps**, and the nicknames that were given out. -/
structure ActiveAgents (ThreadId : Type) [DecidableEq ThreadId] where
  agentTree : AList (fun _ : String => AgentMetadata ThreadId) := ∅
  threadPaths : AList (fun _ : ThreadId => String) := ∅
  usedAgentNicknames : Finset String := ∅

namespace ActiveAgents

variable (agents : ActiveAgents ThreadId)

def agentMetadataForThread (threadId : ThreadId) : Option (AgentMetadata ThreadId) :=
  (agents.threadPaths.lookup threadId).bind agents.agentTree.lookup

def liveAgents : List (AgentMetadata ThreadId) :=
  (agents.agentTree.entries.map Sigma.snd).filter AgentMetadata.isLive

/-- The tree without the entry at the path a thread had before, if it moves. -/
def withoutPrevious (threadId : ThreadId) (key : String) :
    AList (fun _ : String => AgentMetadata ThreadId) :=
  match agents.threadPaths.lookup threadId with
  | some previousPath =>
    if previousPath ≠ key then agents.agentTree.erase previousPath else agents.agentTree
  | none => agents.agentTree

/-- The paths without that of the thread whose entry is replaced. -/
def withoutReplaced (threadId : ThreadId) (previousMetadata : Option (AgentMetadata ThreadId))
    (threadPaths : AList (fun _ : ThreadId => String)) : AList (fun _ : ThreadId => String) :=
  match previousMetadata.bind AgentMetadata.agentId with
  | some previousThreadId =>
    if previousThreadId ≠ threadId then threadPaths.erase previousThreadId else threadPaths
  | none => threadPaths

/-- The key of an agent in the tree: its path, or its thread if it has none. -/
def key [ToString ThreadId] (agentMetadata : AgentMetadata ThreadId) (threadId : ThreadId) :
    String :=
  (agentMetadata.agentPath.map AgentPath.text).getD ("thread:" ++ toString threadId)

/-- `register_spawned_thread`, for metadata with this thread id. -/
def register [ToString ThreadId] (agentMetadata : AgentMetadata ThreadId)
    (threadId : ThreadId) : ActiveAgents ThreadId :=
  let key := key agentMetadata threadId
  let agentTree := agents.withoutPrevious threadId key
  { agentTree := agentTree.insert key agentMetadata
    threadPaths := withoutReplaced threadId (agentTree.lookup key)
      (agents.threadPaths.insert threadId key)
    usedAgentNicknames :=
      agentMetadata.agentNickname.elim agents.usedAgentNicknames
        (insert · agents.usedAgentNicknames) }

def registerSpawnedThread [ToString ThreadId] (agentMetadata : AgentMetadata ThreadId) :
    ActiveAgents ThreadId :=
  match agentMetadata.agentId with
  | some threadId => agents.register agentMetadata threadId
  | none => agents

/-- The locked part of `release_spawned_thread`: the maps without the agent, and whether it was
one that has a slot. -/
def releaseSpawnedThread (threadId : ThreadId) : Bool × ActiveAgents ThreadId :=
  match agents.threadPaths.lookup threadId with
  | none => (false, agents)
  | some path =>
    ((agents.agentTree.lookup path).any fun metadata =>
        !metadata.agentPath.any AgentPath.isRoot,
      { agents with
        agentTree := agents.agentTree.erase path
        threadPaths := agents.threadPaths.erase threadId })

def rootMetadata (threadId : ThreadId) : AgentMetadata ThreadId :=
  { agentId := some threadId, agentPath := some AgentPath.root }

/-- `register_root_thread`: the first thread is the root, as long as it is registered. -/
def registerRootThread (threadId : ThreadId) : ActiveAgents ThreadId :=
  match agents.agentTree.lookup AgentPath.rootText with
  | none =>
    { agents with
      agentTree := agents.agentTree.insert AgentPath.rootText (rootMetadata threadId)
      threadPaths := agents.threadPaths.insert threadId AgentPath.rootText }
  | some metadata =>
    match metadata.agentId with
    | some rootThreadId =>
      { agents with threadPaths := agents.threadPaths.insert rootThreadId AgentPath.rootText }
    | none => agents

def reserveAgentPath (agentPath : AgentPath) : Option (ActiveAgents ThreadId) :=
  match agents.agentTree.lookup agentPath.text with
  | some _ => none
  | none =>
    some { agents with
      agentTree := agents.agentTree.insert agentPath.text { agentPath := some agentPath } }

def releaseReservedAgentPath (agentPath : AgentPath) : ActiveAgents ThreadId :=
  if (agents.agentTree.lookup agentPath.text).any fun metadata => metadata.agentId.isNone then
    { agents with agentTree := agents.agentTree.erase agentPath.text }
  else agents

end ActiveAgents

/-! ### Calls

A call is cut where it works on the counter. -/

/-- The registry itself: the maps, under a lock, and the counter. -/
structure AgentRegistry (ThreadId : Type) [DecidableEq ThreadId] where
  activeAgents : ActiveAgents ThreadId := {}
  totalCount : ℕ := 0

/-- **Where a call stands**, or a reservation. -/
inductive Call where
  /-- In `try_increment_spawned`, with the count it has loaded last. -/
  | reserving (maxThreads : ℕ) (current : Option ℕ)
  /-- `AgentLimitReached` was returned. -/
  | limitReached
  /-- A live reservation, and the path it has reserved. -/
  | reserved (reservedAgentPath : Option AgentPath)
  /-- A reservation that is dropped and has released its path. -/
  | dropping
  /-- `release_spawned_thread` after it has taken an agent that has a slot out of the maps. -/
  | releasing
  | finished
  deriving DecidableEq

/-- What a call does next. -/
inductive CallMove (ThreadId : Type) where
  /-- Its next operation on the counter. An exchange can fail for no reason. -/
  | advance (spurious : Bool)
  | reserveAgentPath (agentPath : AgentPath)
  | commit (agentMetadata : AgentMetadata ThreadId)
  | drop

/-- The next operation of a call on the counter. -/
def Call.advance (spurious : Bool) (totalCount : ℕ) : Call → Call × ℕ
  | .reserving maxThreads none => (.reserving maxThreads (some totalCount), totalCount)
  | .reserving maxThreads (some current) =>
    if maxThreads ≤ current then (.limitReached, totalCount)
    else if totalCount = current ∧ !spurious then (.reserved none, totalCount + 1)
    else (.reserving maxThreads (some totalCount), totalCount)
  | .dropping => (.finished, totalCount - 1)
  | .releasing => (.finished, totalCount - 1)
  | call => (call, totalCount)

/-- Release the path of a reservation that is dropped. -/
def AgentRegistry.releasePath (registry : AgentRegistry ThreadId) :
    Option AgentPath → AgentRegistry ThreadId
  | some agentPath =>
    { registry with activeAgents := registry.activeAgents.releaseReservedAgentPath agentPath }
  | none => registry

/-- **One step of a call.** A path is reserved, and a reservation committed or dropped, while it
is live. -/
def Call.move [ToString ThreadId] (registry : AgentRegistry ThreadId) :
    CallMove ThreadId → Call → Call × AgentRegistry ThreadId
  | .advance spurious, call =>
    let advanced := call.advance spurious registry.totalCount
    (advanced.1, { registry with totalCount := advanced.2 })
  | .reserveAgentPath agentPath, .reserved reservedAgentPath =>
    match registry.activeAgents.reserveAgentPath agentPath with
    | some activeAgents => (.reserved (some agentPath), { registry with activeAgents })
    | none => (.reserved reservedAgentPath, registry)
  | .commit agentMetadata, .reserved _ =>
    (.finished,
      { registry with
        activeAgents := registry.activeAgents.registerSpawnedThread agentMetadata })
  | .drop, .reserved reservedAgentPath => (.dropping, registry.releasePath reservedAgentPath)
  | _, call => (call, registry)

/-- The registry and the calls that were made. -/
structure AgentSession (ThreadId : Type) [DecidableEq ThreadId] where
  registry : AgentRegistry ThreadId := {}
  calls : List Call := []

inductive RegistryEvent (ThreadId : Type) where
  | reserveSpawnSlot (maxThreads : Option ℕ)
  | releaseSpawnedThread (threadId : ThreadId)
  | registerRootThread (threadId : ThreadId)
  /-- One of the calls goes on. -/
  | move (i : ℕ) (move : CallMove ThreadId)

/-- **One step of the system.** -/
def AgentSession.step [ToString ThreadId] (s : AgentSession ThreadId) :
    RegistryEvent ThreadId → AgentSession ThreadId
  | .reserveSpawnSlot (some maxThreads) =>
    { s with calls := s.calls ++ [.reserving maxThreads none] }
  | .reserveSpawnSlot none =>
    { registry := { s.registry with totalCount := s.registry.totalCount + 1 }
      calls := s.calls ++ [.reserved none] }
  | .releaseSpawnedThread threadId =>
    let released := s.registry.activeAgents.releaseSpawnedThread threadId
    { registry := { s.registry with activeAgents := released.2 }
      calls := s.calls ++ [if released.1 then .releasing else .finished] }
  | .registerRootThread threadId =>
    { s with
      registry :=
        { s.registry with
          activeAgents := s.registry.activeAgents.registerRootThread threadId } }
  | .move i move =>
    match s.calls[i]? with
    | none => s
    | some call =>
      let moved := call.move s.registry move
      { registry := moved.2, calls := s.calls.set i moved.1 }

/-! ### What is counted -/

/-- A live reservation. -/
def Call.isReservation : Call → Bool
  | .reserved _ => true
  | _ => false

/-- A call that is in progress. -/
def Call.isInProgress : Call → Bool
  | .reserving _ _ | .dropping | .releasing => true
  | .limitReached | .reserved _ | .finished => false

def AgentSession.liveReservations (s : AgentSession ThreadId) : ℕ :=
  s.calls.countP Call.isReservation

/-- No call is in progress. -/
def AgentSession.Quiet (s : AgentSession ThreadId) : Prop :=
  ∀ call ∈ s.calls, call.isInProgress = false

instance (s : AgentSession ThreadId) : Decidable s.Quiet :=
  inferInstanceAs (Decidable (∀ call ∈ s.calls, call.isInProgress = false))

/-- A commit registers an agent that has a thread. -/
def CommitsThread : RegistryEvent ThreadId → Prop
  | .move _ (.commit agentMetadata) => agentMetadata.agentId.isSome
  | _ => True

instance : (event : RegistryEvent ThreadId) → Decidable (CommitsThread event)
  | .move _ (.commit agentMetadata) => inferInstanceAs (Decidable agentMetadata.agentId.isSome)
  | .move _ (.advance _) | .move _ (.reserveAgentPath _) | .move _ .drop | .reserveSpawnSlot _
  | .releaseSpawnedThread _ | .registerRootThread _ => .isTrue trivial

/-- **A commit of a live reservation registers a new agent**: it is not the root, its thread is
not registered as an agent that has a slot, and its place in the tree is not taken by one. -/
def CommitsNewAgent [ToString ThreadId] (s : AgentSession ThreadId) :
    RegistryEvent ThreadId → Prop
  | .move i (.commit agentMetadata) =>
    s.calls[i]?.any Call.isReservation → ∀ threadId ∈ agentMetadata.agentId,
      agentMetadata.isLive ∧
        ¬(s.registry.activeAgents.agentMetadataForThread threadId).any AgentMetadata.isLive ∧
        ¬(s.registry.activeAgents.agentTree.lookup
          (ActiveAgents.key agentMetadata threadId)).any AgentMetadata.isLive
  | _ => True

instance [ToString ThreadId] (s : AgentSession ThreadId) :
    (event : RegistryEvent ThreadId) → Decidable (CommitsNewAgent s event)
  | .move i (.commit agentMetadata) =>
    inferInstanceAs (Decidable (s.calls[i]?.any Call.isReservation →
      ∀ threadId ∈ agentMetadata.agentId,
        agentMetadata.isLive ∧
          ¬(s.registry.activeAgents.agentMetadataForThread threadId).any AgentMetadata.isLive ∧
          ¬(s.registry.activeAgents.agentTree.lookup
            (ActiveAgents.key agentMetadata threadId)).any AgentMetadata.isLive))
  | .move _ (.advance _) | .move _ (.reserveAgentPath _) | .move _ .drop | .reserveSpawnSlot _
  | .releaseSpawnedThread _ | .registerRootThread _ => .isTrue trivial

/-- All reservations use one limit. -/
def UsesLimit (limit : ℕ) : RegistryEvent ThreadId → Prop
  | .reserveSpawnSlot maxThreads => maxThreads = some limit
  | _ => True

/-! ### The maps agree -/

/-- **The path of a thread leads to the entry of that thread.** -/
def Indexed (agents : ActiveAgents ThreadId) : Prop :=
  ∀ threadId path, agents.threadPaths.lookup threadId = some path →
    ∃ metadata, agents.agentTree.lookup path = some metadata ∧ metadata.agentId = some threadId

variable {agents' : ActiveAgents ThreadId}

namespace Indexed

variable {agents : ActiveAgents ThreadId} {threadId threadId' : ThreadId} {path path' : String}

theorem ne_path (h : Indexed agents) (hpath : agents.threadPaths.lookup threadId = some path)
    (hpath' : agents.threadPaths.lookup threadId' = some path') (hne : threadId ≠ threadId') :
    path ≠ path' := by
  rintro rfl
  obtain ⟨metadata, hlookup, hid⟩ := h threadId path hpath
  obtain ⟨metadata', hlookup', hid'⟩ := h threadId' path hpath'
  obtain rfl : metadata = metadata' := Option.some.inj (hlookup.symm.trans hlookup')
  exact hne (Option.some.inj (hid.symm.trans hid'))

/-- The entry of another thread stays where it is when a thread moves. -/
theorem lookup_withoutPrevious (h : Indexed agents) (key : String)
    (hpath : agents.threadPaths.lookup threadId' = some path') (hne : threadId' ≠ threadId) :
    (agents.withoutPrevious threadId key).lookup path' = agents.agentTree.lookup path' := by
  rw [ActiveAgents.withoutPrevious]
  split
  next previousPath hprevious =>
    split_ifs with hmoves
    · exact AList.lookup_erase_ne (h.ne_path hpath hprevious hne)
    · rfl
  · rfl

/-- The paths that remain when an entry is replaced are those of other threads. -/
theorem lookup_withoutReplaced {previousMetadata : Option (AgentMetadata ThreadId)}
    {threadPaths : AList fun _ : ThreadId => String}
    (hpath : (ActiveAgents.withoutReplaced threadId previousMetadata threadPaths).lookup
      threadId' = some path') :
    threadPaths.lookup threadId' = some path' ∧
      (threadId' ≠ threadId → previousMetadata.bind AgentMetadata.agentId ≠ some threadId') := by
  rw [ActiveAgents.withoutReplaced] at hpath
  split at hpath
  next previousThreadId hprevious =>
    split_ifs at hpath with hother
    · have hne : threadId' ≠ previousThreadId := by
        rintro rfl
        rw [AList.lookup_erase] at hpath
        exact absurd hpath (by simp)
      rw [AList.lookup_erase_ne hne] at hpath
      exact ⟨hpath, fun _ heq => hne (Option.some.inj (heq.symm.trans hprevious))⟩
    · refine ⟨hpath, fun hne heq => hne ?_⟩
      have hsame : previousThreadId = threadId := not_not.mp hother
      exact (Option.some.inj (heq.symm.trans hprevious)).trans hsame
  next hprevious =>
    refine ⟨hpath, fun _ heq => ?_⟩
    rw [hprevious] at heq
    exact absurd heq (by simp)

theorem register [ToString ThreadId] (h : Indexed agents)
    (hid : agentMetadata.agentId = some threadId) :
    Indexed (agents.register agentMetadata threadId) := by
  intro threadId' path' hpath
  obtain ⟨hinserted, hkept⟩ := lookup_withoutReplaced hpath
  rw [ActiveAgents.register]
  by_cases hthread : threadId' = threadId
  · subst hthread
    rw [AList.lookup_insert] at hinserted
    obtain rfl := Option.some.inj hinserted
    exact ⟨agentMetadata, AList.lookup_insert _, hid⟩
  · rw [AList.lookup_insert_ne hthread] at hinserted
    obtain ⟨metadata, hlookup, hother⟩ := h threadId' path' hinserted
    rw [← h.lookup_withoutPrevious (ActiveAgents.key agentMetadata threadId) hinserted hthread]
      at hlookup
    -- the entry that is replaced is not the one of this thread, whose path would be gone
    have hne : path' ≠ ActiveAgents.key agentMetadata threadId := by
      rintro rfl
      refine hkept hthread ?_
      rw [hlookup, Option.bind_some, hother]
    exact ⟨metadata, (AList.lookup_insert_ne hne).trans hlookup, hother⟩

theorem registerSpawnedThread [ToString ThreadId] (h : Indexed agents)
    (agentMetadata : AgentMetadata ThreadId) :
    Indexed (agents.registerSpawnedThread agentMetadata) := by
  rw [ActiveAgents.registerSpawnedThread]
  split
  next threadId hid => exact h.register hid
  · exact h

theorem releaseSpawnedThread (h : Indexed agents) (threadId : ThreadId) :
    Indexed (agents.releaseSpawnedThread threadId).2 := by
  rw [ActiveAgents.releaseSpawnedThread]
  split
  · exact h
  next path hpath =>
    intro threadId' path' hpath'
    have hne : threadId' ≠ threadId := by
      rintro rfl
      rw [AList.lookup_erase] at hpath'
      exact absurd hpath' (by simp)
    rw [AList.lookup_erase_ne hne] at hpath'
    obtain ⟨metadata, hlookup, hid⟩ := h threadId' path' hpath'
    exact ⟨metadata, (AList.lookup_erase_ne (h.ne_path hpath' hpath hne)).trans hlookup, hid⟩

theorem insert_path (h : Indexed agents) (hlookup : agents.agentTree.lookup path = some metadata)
    (hid : metadata.agentId = some threadId) :
    Indexed { agents with threadPaths := agents.threadPaths.insert threadId path } := by
  intro threadId' path' hpath
  by_cases hthread : threadId' = threadId
  · subst hthread
    rw [AList.lookup_insert] at hpath
    obtain rfl := Option.some.inj hpath
    exact ⟨metadata, hlookup, hid⟩
  · rw [AList.lookup_insert_ne hthread] at hpath
    exact h threadId' path' hpath

theorem insert_entry (h : Indexed agents) (hvacant : agents.agentTree.lookup path = none)
    (metadata : AgentMetadata ThreadId) :
    Indexed { agents with agentTree := agents.agentTree.insert path metadata } := by
  intro threadId' path' hpath
  obtain ⟨metadata', hlookup, hid⟩ := h threadId' path' hpath
  have hne : path' ≠ path := by
    rintro rfl
    exact absurd (hvacant.symm.trans hlookup) (by simp)
  exact ⟨metadata', (AList.lookup_insert_ne hne).trans hlookup, hid⟩

theorem registerRootThread (h : Indexed agents) (threadId : ThreadId) :
    Indexed (agents.registerRootThread threadId) := by
  rw [ActiveAgents.registerRootThread]
  split
  next hvacant =>
    exact (h.insert_entry hvacant (ActiveAgents.rootMetadata threadId)).insert_path
      (AList.lookup_insert _) rfl
  next metadata hlookup =>
    split
    next rootThreadId hid => exact h.insert_path hlookup hid
    · exact h

theorem reserveAgentPath (h : Indexed agents)
    (hreserved : agents.reserveAgentPath agentPath = some agents') : Indexed agents' := by
  rw [ActiveAgents.reserveAgentPath] at hreserved
  split at hreserved
  · exact absurd hreserved (by simp)
  next hvacant =>
    obtain rfl := Option.some.inj hreserved
    exact h.insert_entry hvacant _

theorem releaseReservedAgentPath (h : Indexed agents) (agentPath : AgentPath) :
    Indexed (agents.releaseReservedAgentPath agentPath) := by
  rw [ActiveAgents.releaseReservedAgentPath]
  split_ifs with hreserved
  · intro threadId' path' hpath
    obtain ⟨metadata, hlookup, hid⟩ := h threadId' path' hpath
    -- a path that is only reserved is the path of no thread
    have hne : path' ≠ agentPath.text := by
      rintro rfl
      rw [hlookup, Option.any_some, hid] at hreserved
      exact absurd hreserved (by simp)
    exact ⟨metadata, (AList.lookup_erase_ne hne).trans hlookup, hid⟩
  · exact h

end Indexed

/-! ### The slots of the agents -/

/-- The slots an entry of the tree takes. -/
def AgentMetadata.slots (metadata : AgentMetadata ThreadId) : ℕ := metadata.isLive.toNat

/-- The slots the agents take. -/
def ActiveAgents.slots (agents : ActiveAgents ThreadId) : ℕ :=
  Tally.registered AgentMetadata.slots agents.agentTree

namespace ActiveAgents

variable {agents : ActiveAgents ThreadId}

theorem length_liveAgents (agents : ActiveAgents ThreadId) :
    agents.liveAgents.length = agents.slots := by
  rw [liveAgents, ← List.countP_eq_length_filter, List.countP_map]
  exact (Tally.tally_toNat _ _).symm

theorem slots_insert_of_vacant {path : String} (hvacant : agents.agentTree.lookup path = none)
    (hfree : metadata.slots = 0) :
    Tally.registered AgentMetadata.slots (agents.agentTree.insert path metadata) =
      agents.slots := by
  have hinsert := Tally.registered_insert AgentMetadata.slots agents.agentTree path metadata
  rw [hvacant, hfree] at hinsert
  exact hinsert

theorem slots_registerRootThread (threadId : ThreadId) :
    (agents.registerRootThread threadId).slots = agents.slots := by
  rw [registerRootThread]
  split
  next hvacant => exact slots_insert_of_vacant hvacant rfl
  next metadata hlookup =>
    split
    · rfl
    · rfl

theorem slots_reserveAgentPath (hreserved : agents.reserveAgentPath agentPath = some agents') :
    agents'.slots = agents.slots := by
  rw [reserveAgentPath] at hreserved
  split at hreserved
  · exact absurd hreserved (by simp)
  next hvacant =>
    obtain rfl := Option.some.inj hreserved
    exact slots_insert_of_vacant hvacant rfl

theorem slots_releaseReservedAgentPath (agentPath : AgentPath) :
    (agents.releaseReservedAgentPath agentPath).slots = agents.slots := by
  rw [releaseReservedAgentPath]
  split_ifs with hreserved
  · have herase := Tally.registered_erase AgentMetadata.slots agents.agentTree agentPath.text
    -- the entry has no thread
    have hfree : (agents.agentTree.lookup agentPath.text).elim 0 AgentMetadata.slots = 0 := by
      obtain ⟨metadata, hlookup, hnone⟩ := (Option.any_eq_true _ _).mp hreserved
      rw [hlookup, Option.elim_some, AgentMetadata.slots, AgentMetadata.isLive,
        Option.isNone_iff_eq_none.mp hnone]
      rfl
    rw [hfree] at herase
    exact herase
  · rfl

/-- **A release frees the slot of the agent it takes out**, and no other. -/
theorem slots_releaseSpawnedThread (h : Indexed agents) (threadId : ThreadId) :
    (agents.releaseSpawnedThread threadId).2.slots +
        (agents.releaseSpawnedThread threadId).1.toNat = agents.slots := by
  rw [releaseSpawnedThread]
  split
  · rfl
  next path hpath =>
    have herase := Tally.registered_erase AgentMetadata.slots agents.agentTree path
    obtain ⟨metadata, hlookup, hid⟩ := h threadId path hpath
    have hslots : metadata.slots = (!metadata.agentPath.any AgentPath.isRoot).toNat := by
      rw [AgentMetadata.slots, AgentMetadata.isLive, hid, Option.isSome_some, Bool.true_and]
    rw [hlookup, Option.elim_some, hslots] at herase
    rw [hlookup, Option.any_some]
    exact herase

omit [DecidableEq ThreadId] in
theorem elim_slots {metadata : Option (AgentMetadata ThreadId)}
    (h : ¬metadata.any AgentMetadata.isLive) : metadata.elim 0 AgentMetadata.slots = 0 := by
  cases metadata with
  | none => rfl
  | some metadata =>
    rw [Option.any_some, Bool.not_eq_true] at h
    rw [Option.elim_some, AgentMetadata.slots, h]
    rfl

theorem slots_withoutPrevious (key : String)
    (hthread : ¬(agents.agentMetadataForThread threadId).any AgentMetadata.isLive) :
    Tally.registered AgentMetadata.slots (agents.withoutPrevious threadId key) =
      agents.slots := by
  rw [agentMetadataForThread] at hthread
  rw [withoutPrevious]
  split
  next previousPath hprevious =>
    split_ifs
    · have herase := Tally.registered_erase AgentMetadata.slots agents.agentTree previousPath
      rw [hprevious, Option.bind_some] at hthread
      rw [elim_slots hthread] at herase
      exact herase
    · rfl
  · rfl

/-- The place of a new agent is as it was, or was left by its own thread. -/
theorem lookup_withoutPrevious_key (threadId : ThreadId) (key : String) :
    (agents.withoutPrevious threadId key).lookup key = agents.agentTree.lookup key := by
  rw [withoutPrevious]
  split
  next previousPath hprevious =>
    split_ifs with hmoves
    · exact AList.lookup_erase_ne (Ne.symm hmoves)
    · rfl
  · rfl

/-- **A new agent takes one slot.** -/
theorem slots_register [ToString ThreadId] (hlive : agentMetadata.isLive)
    (hthread : ¬(agents.agentMetadataForThread threadId).any AgentMetadata.isLive)
    (hplace : ¬(agents.agentTree.lookup (key agentMetadata threadId)).any AgentMetadata.isLive) :
    (agents.register agentMetadata threadId).slots = agents.slots + 1 := by
  have hinsert := Tally.registered_insert AgentMetadata.slots
    (agents.withoutPrevious threadId (key agentMetadata threadId)) (key agentMetadata threadId)
    agentMetadata
  have hone : agentMetadata.slots = 1 := by rw [AgentMetadata.slots, hlive]; rfl
  rw [lookup_withoutPrevious_key, elim_slots hplace, slots_withoutPrevious _ hthread, hone]
    at hinsert
  exact hinsert

end ActiveAgents

/-! ### The slots are accounted for -/

/-- The slots a call takes. -/
def Call.slots : Call → ℕ
  | .reserved _ | .dropping | .releasing => 1
  | .reserving _ _ | .limitReached | .finished => 0

/-- **The counter is right**: every slot is that of a reservation, of an agent, or of a call
that is about to free it. -/
structure Balanced (s : AgentSession ThreadId) : Prop where
  indexed : Indexed s.registry.activeAgents
  count : s.registry.totalCount =
    Tally.tally Call.slots s.calls + s.registry.activeAgents.slots

/-- **What a step of a call may do**: the counter follows the slots of the call and of the
agents. -/
structure Settles (call : Call) (registry : AgentRegistry ThreadId) (call' : Call)
    (registry' : AgentRegistry ThreadId) : Prop where
  indexed : Indexed registry'.activeAgents
  count : registry'.totalCount + call.slots + registry.activeAgents.slots =
    registry.totalCount + call'.slots + registry'.activeAgents.slots

variable {call : Call}

section Moves

variable {registry : AgentRegistry ThreadId}

theorem Settles.of_slots_eq {call call' : Call} {activeAgents : ActiveAgents ThreadId}
    (hcall : call'.slots = call.slots) (hindexed : Indexed activeAgents)
    (hslots : activeAgents.slots = registry.activeAgents.slots) :
    Settles call registry call' { registry with activeAgents } :=
  ⟨hindexed, by rw [hcall, hslots]⟩

variable (h : Indexed registry.activeAgents)

include h

theorem settles_advance (spurious : Bool) (hcall : call.slots ≤ registry.totalCount) :
    Settles call registry (call.advance spurious registry.totalCount).1
      { registry with totalCount := (call.advance spurious registry.totalCount).2 } := by
  refine ⟨h, ?_⟩
  simp only
  cases call with
  | reserving maxThreads current =>
    cases current with
    | none => rfl
    | some current =>
      rw [Call.advance]
      split_ifs
      · rfl
      · simp only [Call.slots]
      · rfl
  | limitReached => rfl
  | reserved reservedAgentPath => rfl
  | dropping =>
    simp only [Call.advance, Call.slots] at hcall ⊢
    omega
  | releasing =>
    simp only [Call.advance, Call.slots] at hcall ⊢
    omega
  | finished => rfl

theorem settles_releasePath (reservedAgentPath : Option AgentPath) :
    Settles (.reserved reservedAgentPath) registry .dropping
      (registry.releasePath reservedAgentPath) := by
  cases reservedAgentPath with
  | none => exact ⟨h, rfl⟩
  | some agentPath =>
    exact .of_slots_eq rfl (h.releaseReservedAgentPath agentPath)
      (ActiveAgents.slots_releaseReservedAgentPath agentPath)

/-- A reservation is committed for a new agent, to which its slot passes. -/
theorem settles_commit [ToString ThreadId] (reservedAgentPath : Option AgentPath)
    (hid : agentMetadata.agentId = some threadId) (hlive : agentMetadata.isLive)
    (hthread : ¬(registry.activeAgents.agentMetadataForThread threadId).any AgentMetadata.isLive)
    (hplace : ¬(registry.activeAgents.agentTree.lookup
      (ActiveAgents.key agentMetadata threadId)).any AgentMetadata.isLive) :
    Settles (.reserved reservedAgentPath) registry .finished
      { registry with
        activeAgents := registry.activeAgents.registerSpawnedThread agentMetadata } := by
  refine ⟨h.registerSpawnedThread agentMetadata, ?_⟩
  have hslots : (registry.activeAgents.registerSpawnedThread agentMetadata).slots =
      registry.activeAgents.slots + 1 := by
    rw [ActiveAgents.registerSpawnedThread, hid]
    exact ActiveAgents.slots_register hlive hthread hplace
  simp only [hslots, Call.slots]
  omega

/-- **A step of a call keeps the account**, if what it commits is a new agent. -/
theorem settles_move [ToString ThreadId] (move : CallMove ThreadId)
    (hcall : call.slots ≤ registry.totalCount)
    (hcommit : ∀ agentMetadata, move = .commit agentMetadata → call.isReservation →
      ∃ threadId, agentMetadata.agentId = some threadId ∧ agentMetadata.isLive ∧
        ¬(registry.activeAgents.agentMetadataForThread threadId).any AgentMetadata.isLive ∧
        ¬(registry.activeAgents.agentTree.lookup
          (ActiveAgents.key agentMetadata threadId)).any AgentMetadata.isLive) :
    Settles call registry (call.move registry move).1 (call.move registry move).2 := by
  -- only a live reservation does anything else than work on the counter
  cases move with
  | advance spurious => exact settles_advance h spurious hcall
  | reserveAgentPath agentPath =>
    cases call with
    | reserved reservedAgentPath =>
      rw [Call.move]
      split
      next activeAgents hreserved =>
        exact .of_slots_eq rfl (h.reserveAgentPath hreserved)
          (ActiveAgents.slots_reserveAgentPath hreserved)
      · exact ⟨h, rfl⟩
    | _ => exact ⟨h, rfl⟩
  | commit agentMetadata =>
    cases call with
    | reserved reservedAgentPath =>
      obtain ⟨threadId, hid, hlive, hthread, hplace⟩ := hcommit agentMetadata rfl rfl
      exact settles_commit h reservedAgentPath hid hlive hthread hplace
    | _ => exact ⟨h, rfl⟩
  | drop =>
    cases call with
    | reserved reservedAgentPath => exact settles_releasePath h reservedAgentPath
    | _ => exact ⟨h, rfl⟩

end Moves

/-- **Every step keeps the account**, if what it commits is a new agent. -/
theorem Balanced.after_step [ToString ThreadId] (s : AgentSession ThreadId)
    (event : RegistryEvent ThreadId) (h : Balanced s)
    (hallowed : CommitsThread event ∧ CommitsNewAgent s event) : Balanced (s.step event) := by
  obtain ⟨hindexed, hcount⟩ := h
  cases event with
  | reserveSpawnSlot maxThreads =>
    cases maxThreads with
    | some maxThreads =>
      refine ⟨hindexed, ?_⟩
      rw [AgentSession.step, Tally.tally_concat]
      exact hcount
    | none =>
      refine ⟨hindexed, ?_⟩
      rw [AgentSession.step, Tally.tally_concat]
      simp only [Call.slots]
      omega
  | releaseSpawnedThread threadId =>
    refine ⟨hindexed.releaseSpawnedThread threadId, ?_⟩
    have hslots := ActiveAgents.slots_releaseSpawnedThread hindexed threadId
    -- the agent is out of the maps, and its slot is that of the call now
    have hcall : (if (s.registry.activeAgents.releaseSpawnedThread threadId).1 then
        Call.releasing else .finished).slots =
          (s.registry.activeAgents.releaseSpawnedThread threadId).1.toNat := by
      cases (s.registry.activeAgents.releaseSpawnedThread threadId).1 with
      | false => rfl
      | true => rfl
    rw [AgentSession.step, Tally.tally_concat, hcall]
    simp only
    omega
  | registerRootThread threadId =>
    refine ⟨hindexed.registerRootThread threadId, ?_⟩
    rw [AgentSession.step, ActiveAgents.slots_registerRootThread]
    exact hcount
  | move i move =>
    rw [AgentSession.step]
    split
    · exact ⟨hindexed, hcount⟩
    next call hget =>
      have hcall : call.slots ≤ s.registry.totalCount :=
        hcount ▸ (Tally.le_tally Call.slots hget).trans (Nat.le_add_right _ _)
      have hsettles := settles_move hindexed move hcall (by
        rintro agentMetadata rfl hreservation
        obtain ⟨hthread, hnew⟩ := hallowed
        obtain ⟨threadId, hid⟩ := Option.isSome_iff_exists.mp hthread
        have hany : s.calls[i]?.any Call.isReservation := by rw [hget]; exact hreservation
        exact ⟨threadId, hid, hnew hany threadId hid⟩)
      have htally := Tally.tally_set Call.slots hget (call.move s.registry move).1
      have hmoved := hsettles.count
      refine ⟨hsettles.indexed, ?_⟩
      simp only
      omega

theorem balanced_init : Balanced ({} : AgentSession ThreadId) :=
  ⟨fun _ _ hpath => absurd hpath (by simp [AList.lookup_empty]), rfl⟩

/-- When no call is in progress, only reservations take slots besides the agents. -/
theorem AgentSession.Quiet.tally_slots {s : AgentSession ThreadId} (h : s.Quiet) :
    Tally.tally Call.slots s.calls = s.liveReservations := by
  rw [AgentSession.liveReservations, ← Tally.tally_toNat]
  refine congrArg List.sum (List.map_congr_left fun call hmem => ?_)
  have hquiet := h call hmem
  cases call with
  | reserved reservedAgentPath => rfl
  | limitReached => rfl
  | finished => rfl
  | reserving maxThreads current => exact absurd hquiet (by simp [Call.isInProgress])
  | dropping => exact absurd hquiet (by simp [Call.isInProgress])
  | releasing => exact absurd hquiet (by simp [Call.isInProgress])

/-! ### The limit -/

/-- A call that was made with this limit. -/
def Call.UsesLimit (limit : ℕ) : Call → Prop
  | .reserving maxThreads _ => maxThreads = limit
  | _ => True

/-- **The counter is within the limit** that every reservation in progress uses. -/
structure Limited (limit : ℕ) (s : AgentSession ThreadId) : Prop where
  count : s.registry.totalCount ≤ limit
  calls : ∀ call ∈ s.calls, call.UsesLimit limit

theorem Call.advance_limited {limit totalCount : ℕ} (spurious : Bool) (hcall : call.UsesLimit limit)
    (hcount : totalCount ≤ limit) :
    (call.advance spurious totalCount).2 ≤ limit ∧
      (call.advance spurious totalCount).1.UsesLimit limit := by
  cases call with
  | reserving maxThreads current =>
    cases current with
    | none => exact ⟨hcount, hcall⟩
    | some current =>
      obtain rfl : maxThreads = limit := hcall
      rw [Call.advance]
      split_ifs with hfull hsame
      · exact ⟨hcount, trivial⟩
      · refine ⟨?_, trivial⟩
        simp only
        omega
      · exact ⟨hcount, rfl⟩
  | dropping => exact ⟨(Nat.sub_le _ _).trans hcount, trivial⟩
  | releasing => exact ⟨(Nat.sub_le _ _).trans hcount, trivial⟩
  | limitReached => exact ⟨hcount, trivial⟩
  | reserved reservedAgentPath => exact ⟨hcount, trivial⟩
  | finished => exact ⟨hcount, trivial⟩

theorem Call.move_limited [ToString ThreadId] (move : CallMove ThreadId)
    (hcall : call.UsesLimit limit) {registry : AgentRegistry ThreadId}
    (hcount : registry.totalCount ≤ limit) :
    (call.move registry move).2.totalCount ≤ limit ∧
      (call.move registry move).1.UsesLimit limit := by
  cases move with
  | advance spurious => exact Call.advance_limited spurious hcall hcount
  | reserveAgentPath agentPath =>
    cases call with
    | reserved reservedAgentPath =>
      rw [Call.move]
      split
      · exact ⟨hcount, trivial⟩
      · exact ⟨hcount, trivial⟩
    | _ => exact ⟨hcount, hcall⟩
  | commit agentMetadata =>
    cases call with
    | reserved reservedAgentPath => exact ⟨hcount, trivial⟩
    | _ => exact ⟨hcount, hcall⟩
  | drop =>
    cases call with
    | reserved reservedAgentPath =>
      cases reservedAgentPath with
      | none => exact ⟨hcount, trivial⟩
      | some agentPath => exact ⟨hcount, trivial⟩
    | _ => exact ⟨hcount, hcall⟩

theorem Limited.after_step [ToString ThreadId] (s : AgentSession ThreadId)
    (event : RegistryEvent ThreadId) (h : Limited limit s) (huses : UsesLimit limit event) :
    Limited limit (s.step event) := by
  -- a new call has the limit, or needs none
  have hconcat : ∀ {call : Call}, call.UsesLimit limit →
      ∀ call' ∈ s.calls ++ [call], call'.UsesLimit limit := by
    intro call hcall call' hmem
    rcases List.mem_append.mp hmem with hmem | hmem
    · exact h.calls call' hmem
    · rw [List.mem_singleton.mp hmem]
      exact hcall
  cases event with
  | reserveSpawnSlot maxThreads =>
    obtain rfl : maxThreads = some limit := huses
    exact ⟨h.count, hconcat rfl⟩
  | releaseSpawnedThread threadId =>
    refine ⟨h.count, hconcat ?_⟩
    split_ifs
    · trivial
    · trivial
  | registerRootThread threadId => exact ⟨h.count, h.calls⟩
  | move i move =>
    rw [AgentSession.step]
    split
    · exact h
    next call hget =>
      have hmoved := call.move_limited move (h.calls call (List.mem_of_getElem? hget)) h.count
      refine ⟨hmoved.1, fun call' hmem => ?_⟩
      rcases List.mem_or_eq_of_mem_set hmem with hmem | rfl
      · exact h.calls call' hmem
      · exact hmoved.2

/-! ### Runs -/

/-- **The slots are accounted for** in every run in which a commit registers a new agent: when
no call is in progress, the counter is the number of the live reservations and of the agents;
and if all reservations use one limit, there are never more agents than that. -/
theorem agent_slots_are_accounted [ToString ThreadId] (events : List (RegistryEvent ThreadId))
    (hthreads : ∀ event ∈ events, CommitsThread event)
    (hnew : Run.Along AgentSession.step CommitsNewAgent {} events) :
    let s := Run.after AgentSession.step ({} : AgentSession ThreadId) events
    (s.Quiet → s.registry.totalCount =
        s.liveReservations + s.registry.activeAgents.liveAgents.length) ∧
      ∀ limit, (∀ event ∈ events, UsesLimit limit event) →
        s.registry.activeAgents.liveAgents.length ≤ limit := by
  intro s
  have hbalanced : Balanced s :=
    Run.invariant_along Balanced.after_step balanced_init
      ((Run.along_of_forall hthreads).and hnew)
  rw [ActiveAgents.length_liveAgents]
  refine ⟨fun hquiet => ?_, fun limit huses => ?_⟩
  · rw [hbalanced.count, hquiet.tally_slots]
  · have hinitial : Limited limit ({} : AgentSession ThreadId) :=
      ⟨Nat.zero_le _, fun _ hmem => absurd hmem List.not_mem_nil⟩
    have hlimited : Limited limit s :=
      Run.invariant_along Limited.after_step hinitial (Run.along_of_forall huses)
    calc s.registry.activeAgents.slots ≤ s.registry.totalCount :=
          hbalanced.count ▸ Nat.le_add_left _ _
      _ ≤ limit := hlimited.count

/-- A reservation that is taken at once, for an agent without a path. -/
def demoSpawn (i threadId : ℕ) : List (RegistryEvent ℕ) :=
  [.reserveSpawnSlot (some 2), .move i (.advance false), .move i (.advance false),
    .move i (.commit { agentId := some threadId })]

theorem agent_slots_are_accounted_demo :
    let s := Run.after AgentSession.step ({} : AgentSession ℕ) (demoSpawn 0 7 ++ demoSpawn 1 8)
    (s.Quiet → s.registry.totalCount =
        s.liveReservations + s.registry.activeAgents.liveAgents.length) ∧
      ∀ limit, (∀ event ∈ demoSpawn 0 7 ++ demoSpawn 1 8, UsesLimit limit event) →
        s.registry.activeAgents.liveAgents.length ≤ limit :=
  agent_slots_are_accounted (demoSpawn 0 7 ++ demoSpawn 1 8) (by decide) (by decide +kernel)

/-- **The slot of an agent that is replaced is lost.** The same thread is committed twice, as by
two calls that resume it, and then released: there is no reservation and no agent, but the
counter is one, and with a limit of one no agent could be spawned any more. -/
theorem slot_of_replaced_agent_is_lost :
    let events := demoSpawn 0 7 ++ demoSpawn 1 7 ++
      [.releaseSpawnedThread 7, .move 2 (.advance false)]
    let s := Run.after AgentSession.step ({} : AgentSession ℕ) events
    (∀ event ∈ events, CommitsThread event) ∧ s.Quiet ∧ s.liveReservations = 0 ∧
      s.registry.activeAgents.liveAgents = [] ∧ s.registry.totalCount = 1 ∧
      ¬(s.registry.totalCount =
        s.liveReservations + s.registry.activeAgents.liveAgents.length) := by
  decide +kernel

end Rivloom.Agent
