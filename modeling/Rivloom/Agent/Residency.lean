import Rivloom.Lib.Run
import Rivloom.Lib.RustStd
import Rivloom.Lib.Tally

/-!
# The places for resident agents

A session keeps a bounded number of agents in memory (`residency.rs`). Whoever wants to load
an agent reserves a place first: the place is *pending* until it is committed, when the agent
becomes a *resident*, or dropped. When all places are taken, a reservation scans the residents
from the least recently used one on, for one that can be unloaded
(`Rivloom.Agent.Phase`). Each access to the shared state is one step under a lock
(`Rivloom.Agent.V2ResidencyState`); between two of them, a reservation waits for the agent it
looks at, and others run.

While it is looked at, a candidate is not among the residents, and its place is counted
nowhere. Another reservation can take that place, and if the candidate then turns out to be
busy, it is put back: there are more agents than places (`Rivloom.Agent.candidate_is_put_back`).
What keeps the bound is that no reservation takes such a place
(`Rivloom.Agent.TakesFreePlace`, `Rivloom.Agent.resident_agents_within_capacity`).
-/

namespace Rivloom.Agent

variable {ThreadId : Type} [DecidableEq ThreadId] {residents : List ThreadId} {capacity : ℕ}
  (protectedThreadId : Option ThreadId) (candidatesToScan : ℕ)

/-! ### The shared state -/

/-- **The residents**, the least recently used one first, and the places that are reserved. -/
structure V2ResidencyState (ThreadId : Type) where
  residents : List ThreadId := []
  pendingSlots : ℕ := 0
  deriving DecidableEq

/-- Make a thread the most recently used resident. -/
def touchResident (residents : List ThreadId) (threadId : ThreadId) : List ThreadId :=
  residents.filter (· ≠ threadId) ++ [threadId]

namespace V2ResidencyState

/-- Whether there was a place, and the state in which it is reserved. -/
def tryReservePendingSlot (capacity : ℕ) (state : V2ResidencyState ThreadId) :
    Bool × V2ResidencyState ThreadId :=
  if capacity ≤ U64.saturatingAdd state.residents.length state.pendingSlots then (false, state)
  else (true, { state with pendingSlots := state.pendingSlots + 1 })

def residentCount (state : V2ResidencyState ThreadId) : ℕ := state.residents.length

/-- The loop of `pop_lru_candidate`: the protected thread is passed over to the end. -/
def scanLruCandidate (protectedThreadId : Option ThreadId) :
    ℕ → List ThreadId → Option ThreadId × List ThreadId
  | 0, residents => (none, residents)
  | _ + 1, [] => (none, [])
  | candidatesToScan + 1, candidateThreadId :: residents =>
    if some candidateThreadId = protectedThreadId then
      scanLruCandidate protectedThreadId candidatesToScan (residents ++ [candidateThreadId])
    else (some candidateThreadId, residents)

/-- Take the least recently used resident out, if it is not the protected one. -/
def popLruCandidate (protectedThreadId : Option ThreadId) (state : V2ResidencyState ThreadId) :
    Option ThreadId × V2ResidencyState ThreadId :=
  let popped := scanLruCandidate protectedThreadId state.residents.length state.residents
  (popped.1, { state with residents := popped.2 })

def touch (state : V2ResidencyState ThreadId) (threadId : ThreadId) :
    V2ResidencyState ThreadId :=
  { state with residents := touchResident state.residents threadId }

def remove (state : V2ResidencyState ThreadId) (threadId : ThreadId) :
    V2ResidencyState ThreadId :=
  { state with residents := state.residents.filter (· ≠ threadId) }

def commitSlot (state : V2ResidencyState ThreadId) (threadId : ThreadId) :
    V2ResidencyState ThreadId :=
  { residents := touchResident state.residents threadId
    pendingSlots := state.pendingSlots - 1 }

def releasePendingSlot (state : V2ResidencyState ThreadId) : V2ResidencyState ThreadId :=
  { state with pendingSlots := state.pendingSlots - 1 }

/-- The places that are taken. -/
def taken (state : V2ResidencyState ThreadId) : ℕ :=
  state.residents.length + state.pendingSlots

end V2ResidencyState

/-! ### Reservations

A call of `reserve_slot` is cut at its awaits. The value of a phase is what the call carries
across. -/

/-- **Where a reservation stands.** -/
inductive Phase (ThreadId : Type) where
  /-- At the head of the loop of `reserve_slot`. -/
  | trying
  /-- There was no place; a scan of the residents begins. -/
  | counting
  /-- In the scan, with so many candidates left to look at. -/
  | popping (left : ℕ)
  /-- The scan looks at a candidate, which it has taken out of the residents. -/
  | examining (candidateThreadId : ThreadId) (left : ℕ)
  /-- `AgentLimitReached` was returned. -/
  | limitReached
  /-- The slot is held by whoever asked for it. -/
  | holding
  /-- The slot was committed or dropped. -/
  | finished
  deriving DecidableEq

/-- What the scan finds out about a candidate. -/
inductive Verdict where
  /-- The manager does not know the thread any more, or it is not one that can be resident. -/
  | gone
  /-- The agent works, or has work waiting. -/
  | busy
  | shutdownFailed
  | unloaded
  deriving DecidableEq

/-- What a reservation does next. -/
inductive Move (ThreadId : Type) where
  /-- The next locked section of `reserve_slot`, up to the next await. -/
  | advance (verdict : Verdict)
  /-- The holder of the slot commits it. -/
  | commit (threadId : ThreadId)
  /-- The holder of the slot drops it. -/
  | drop

/-- A call of `reserve_slot`. -/
structure Reservation (ThreadId : Type) where
  protectedThreadId : Option ThreadId
  phase : Phase ThreadId := .trying
  deriving DecidableEq

/-- One locked section of `reserve_slot`, with the awaits before it. A candidate that was
popped is put back by the next section, if it is put back at all. -/
def advance (capacity : ℕ) (protectedThreadId : Option ThreadId) (verdict : Verdict) :
    Phase ThreadId → V2ResidencyState ThreadId → Phase ThreadId × V2ResidencyState ThreadId
  | .trying, state =>
    match state.tryReservePendingSlot capacity with
    | (true, state) => (.holding, state)
    | (false, state) => (.counting, state)
  | .counting, state => (.popping state.residentCount, state)
  | .popping 0, state => (.limitReached, state)
  | .popping (left + 1), state =>
    match state.popLruCandidate protectedThreadId with
    | (some candidateThreadId, state) => (.examining candidateThreadId left, state)
    | (none, state) => (.limitReached, state)
  | .examining candidateThreadId left, state =>
    match verdict with
    | .gone => (.popping left, state)
    | .busy | .shutdownFailed => (.popping left, state.touch candidateThreadId)
    | .unloaded => (.trying, state)
  | phase, state => (phase, state)

/-- **One step of a reservation.** Only the holder of a slot can commit or drop it. -/
def Reservation.move (capacity : ℕ) (reservation : Reservation ThreadId) :
    Move ThreadId → V2ResidencyState ThreadId → Phase ThreadId × V2ResidencyState ThreadId
  | .advance verdict, state =>
    advance capacity reservation.protectedThreadId verdict reservation.phase state
  | .commit threadId, state =>
    if reservation.phase = .holding then (.finished, state.commitSlot threadId)
    else (reservation.phase, state)
  | .drop, state =>
    if reservation.phase = .holding then (.finished, state.releasePendingSlot)
    else (reservation.phase, state)

/-! ### Interleavings -/

/-- The shared state and the reservations that were made. -/
structure V2Residency (ThreadId : Type) where
  state : V2ResidencyState ThreadId := {}
  reservations : List (Reservation ThreadId) := []
  deriving DecidableEq

inductive ResidencyEvent (ThreadId : Type) where
  /-- Somebody calls `reserve_slot`. -/
  | reserveSlot (protectedThreadId : Option ThreadId)
  /-- One of the reservations goes on. -/
  | move (i : ℕ) (move : Move ThreadId)
  | touch (threadId : ThreadId)
  | remove (threadId : ThreadId)

/-- **One step of the system**, all reservations having the same capacity. -/
def V2Residency.step (capacity : ℕ) (s : V2Residency ThreadId) :
    ResidencyEvent ThreadId → V2Residency ThreadId
  | .reserveSlot protectedThreadId =>
    { s with reservations := s.reservations ++ [{ protectedThreadId }] }
  | .move i move =>
    match s.reservations[i]? with
    | none => s
    | some reservation =>
      let moved := reservation.move capacity move s.state
      { state := moved.2
        reservations := s.reservations.set i { reservation with phase := moved.1 } }
  | .touch threadId => { s with state := s.state.touch threadId }
  | .remove threadId => { s with state := s.state.remove threadId }

/-- Only threads that are resident are touched from outside. -/
def TouchesResident (s : V2Residency ThreadId) : ResidencyEvent ThreadId → Prop
  | .touch threadId => threadId ∈ s.state.residents
  | _ => True

instance (s : V2Residency ThreadId) :
    (event : ResidencyEvent ThreadId) → Decidable (TouchesResident s event)
  | .touch threadId => inferInstanceAs (Decidable (threadId ∈ s.state.residents))
  | .reserveSlot _ | .move _ _ | .remove _ => .isTrue trivial

/-- The slots a reservation in this phase holds. -/
def Phase.held : Phase ThreadId → ℕ
  | .holding => 1
  | _ => 0

/-- The candidates a reservation in this phase looks at. -/
def Phase.examined : Phase ThreadId → ℕ
  | .examining _ _ => 1
  | _ => 0

/-- The slots that are held. -/
def heldSlots (reservations : List (Reservation ThreadId)) : ℕ :=
  Tally.tally (fun reservation => reservation.phase.held) reservations

/-- The candidates that are looked at. -/
def examinedCandidates (reservations : List (Reservation ThreadId)) : ℕ :=
  Tally.tally (fun reservation => reservation.phase.examined) reservations

/-- **No reservation takes the place of a candidate that is looked at.** A reservation that
tries, and finds a place, would find one also if the candidates were still counted. -/
def TakesFreePlace (capacity : ℕ) (s : V2Residency ThreadId) : ResidencyEvent ThreadId → Prop
  | .move i (.advance _) =>
    (s.reservations[i]?.map Reservation.phase) = some .trying →
      U64.saturatingAdd s.state.residents.length s.state.pendingSlots < capacity →
        s.state.taken + examinedCandidates s.reservations < capacity
  | _ => True

instance (capacity : ℕ) (s : V2Residency ThreadId) :
    (event : ResidencyEvent ThreadId) → Decidable (TakesFreePlace capacity s event)
  | .move i (.advance _) =>
    inferInstanceAs (Decidable ((s.reservations[i]?.map Reservation.phase) = some .trying →
      U64.saturatingAdd s.state.residents.length s.state.pendingSlots < capacity →
        s.state.taken + examinedCandidates s.reservations < capacity))
  | .move _ (.commit _) | .move _ .drop | .reserveSlot _ | .touch _ | .remove _ => .isTrue trivial

/-! ### What the sections do to the places -/

theorem length_touchResident_le (residents : List ThreadId) (threadId : ThreadId) :
    (touchResident residents threadId).length ≤ residents.length + 1 := by
  rw [touchResident, List.length_append, List.length_singleton]
  exact Nat.succ_le_succ (List.length_filter_le _ _)

theorem length_touchResident_of_mem {threadId : ThreadId} (h : threadId ∈ residents) :
    (touchResident residents threadId).length ≤ residents.length := by
  have hlost : (residents.filter (· ≠ threadId)).length < residents.length :=
    List.length_filter_lt_length_iff_exists.mpr ⟨threadId, h, by simp⟩
  rw [touchResident, List.length_append, List.length_singleton]
  exact hlost

theorem length_scanLruCandidate (residents : List ThreadId) :
    (V2ResidencyState.scanLruCandidate protectedThreadId candidatesToScan residents).2.length +
        (V2ResidencyState.scanLruCandidate protectedThreadId candidatesToScan
          residents).1.toList.length =
      residents.length := by
  induction candidatesToScan generalizing residents with
  | zero => rfl
  | succ candidatesToScan ih =>
    cases residents with
    | nil => rfl
    | cons candidateThreadId residents =>
      rw [V2ResidencyState.scanLruCandidate]
      split
      · rw [ih, List.length_append, List.length_singleton, List.length_cons]
      · rfl

theorem length_popLruCandidate (state : V2ResidencyState ThreadId) :
    (state.popLruCandidate protectedThreadId).2.residents.length +
        (state.popLruCandidate protectedThreadId).1.toList.length =
      state.residents.length :=
  length_scanLruCandidate protectedThreadId state.residents.length state.residents

/-- **What one step of a reservation does.** It takes a place for itself; or it gives the place
it has held to a thread, or back; or it takes no place at all, where the candidate it looks at
counts as one. -/
inductive Moved (capacity : ℕ) (phase : Phase ThreadId) (state : V2ResidencyState ThreadId) :
    Phase ThreadId × V2ResidencyState ThreadId → Prop
  | reserved (hphase : phase = .trying)
      (hroom : U64.saturatingAdd state.residents.length state.pendingSlots < capacity) :
      Moved capacity phase state
        (.holding, { state with pendingSlots := state.pendingSlots + 1 })
  | spent {state' : V2ResidencyState ThreadId} (hphase : phase = .holding)
      (hresidents : state'.residents.length ≤ state.residents.length + 1)
      (hpending : state'.pendingSlots = state.pendingSlots - 1) :
      Moved capacity phase state (.finished, state')
  | scanned {phase' : Phase ThreadId} {state' : V2ResidencyState ThreadId}
      (hheld : phase'.held = phase.held)
      (hpending : state'.pendingSlots = state.pendingSlots)
      (hplaces : state'.residents.length + phase'.examined ≤
        state.residents.length + phase.examined) :
      Moved capacity phase state (phase', state')

omit [DecidableEq ThreadId] in
theorem Moved.refl (capacity : ℕ) (phase : Phase ThreadId) (state : V2ResidencyState ThreadId) :
    Moved capacity phase state (phase, state) :=
  .scanned rfl rfl le_rfl

theorem moved_advance (capacity : ℕ) (protectedThreadId : Option ThreadId) (verdict : Verdict)
    (phase : Phase ThreadId) (state : V2ResidencyState ThreadId) :
    Moved capacity phase state (advance capacity protectedThreadId verdict phase state) := by
  cases phase with
  | trying =>
    rw [advance, V2ResidencyState.tryReservePendingSlot]
    split_ifs with hfull
    · exact .scanned rfl rfl le_rfl
    · exact .reserved rfl (Nat.lt_of_not_le hfull)
  | counting => exact .scanned rfl rfl le_rfl
  | popping left =>
    cases left with
    | zero => exact .scanned rfl rfl le_rfl
    | succ left =>
      have hlength := length_popLruCandidate protectedThreadId state
      rw [advance]
      -- the candidate leaves the residents and is looked at, or there was none
      cases hpop : state.popLruCandidate protectedThreadId with
      | mk candidate state' =>
        rw [hpop] at hlength
        have hpending : state'.pendingSlots = state.pendingSlots :=
          congrArg (fun popped => popped.2.pendingSlots) hpop.symm
        cases candidate with
        | none => exact .scanned rfl hpending hlength.le
        | some candidateThreadId => exact .scanned rfl hpending hlength.le
  | examining candidateThreadId left =>
    cases verdict with
    | gone => exact .scanned rfl rfl (Nat.le_add_right _ _)
    | busy => exact .scanned rfl rfl (length_touchResident_le _ _)
    | shutdownFailed => exact .scanned rfl rfl (length_touchResident_le _ _)
    | unloaded => exact .scanned rfl rfl (Nat.le_add_right _ _)
  | limitReached => exact .refl _ _ _
  | holding => exact .refl _ _ _
  | finished => exact .refl _ _ _

theorem moved_move (capacity : ℕ) (reservation : Reservation ThreadId) (move : Move ThreadId)
    (state : V2ResidencyState ThreadId) :
    Moved capacity reservation.phase state (reservation.move capacity move state) := by
  cases move with
  | advance verdict => exact moved_advance _ _ _ _ _
  | commit threadId =>
    rw [Reservation.move]
    split_ifs with hholds
    · exact .spent hholds (length_touchResident_le _ _) rfl
    · exact .refl _ _ _
  | drop =>
    rw [Reservation.move]
    split_ifs with hholds
    · exact .spent hholds (Nat.le_succ _) rfl
    · exact .refl _ _ _

/-! ### The bound -/

/-- **Every place is accounted for**: a pending one by the reservation that holds it, and the
residents, the pending places and the candidates fit together. -/
structure Accounted (capacity : ℕ) (s : V2Residency ThreadId) : Prop where
  pending : s.state.pendingSlots = heldSlots s.reservations
  places : s.state.taken + examinedCandidates s.reservations ≤ capacity

variable {reservation : Reservation ThreadId} {state : V2ResidencyState ThreadId}
  (s : V2Residency ThreadId)

omit [DecidableEq ThreadId] in
theorem Accounted.move {s : V2Residency ThreadId} (h : Accounted capacity s) {i : ℕ}
    (hget : s.reservations[i]? = some reservation) {phase : Phase ThreadId}
    (hmoved : Moved capacity reservation.phase s.state (phase, state))
    (hfree : reservation.phase = .trying → phase = .holding →
      U64.saturatingAdd s.state.residents.length s.state.pendingSlots < capacity →
        s.state.taken + examinedCandidates s.reservations < capacity) :
    Accounted capacity
      { state, reservations := s.reservations.set i { reservation with phase } } := by
  obtain ⟨hpending, hplaces⟩ := h
  have hheld : heldSlots (s.reservations.set i { reservation with phase }) +
      reservation.phase.held = heldSlots s.reservations + phase.held :=
    Tally.tally_set _ hget _
  have hexamined : examinedCandidates (s.reservations.set i { reservation with phase }) +
      reservation.phase.examined = examinedCandidates s.reservations + phase.examined :=
    Tally.tally_set _ hget _
  cases hmoved with
  | reserved hphase hroom =>
    have hroom' := hfree hphase rfl hroom
    rw [hphase] at hheld hexamined
    simp only [Phase.held, Phase.examined] at hheld hexamined
    simp only [V2ResidencyState.taken] at hroom'
    constructor
    · simp only
      omega
    · simp only [V2ResidencyState.taken]
      omega
  | spent hphase hresidents hstate =>
    -- the reservation held a slot, so a slot was pending
    have hone : reservation.phase.held ≤ heldSlots s.reservations :=
      Tally.le_tally (fun reservation => reservation.phase.held) hget
    rw [hphase] at hheld hexamined hone
    simp only [Phase.held, Phase.examined] at hheld hexamined hone
    simp only [V2ResidencyState.taken] at hplaces
    constructor
    · simp only
      omega
    · simp only [V2ResidencyState.taken]
      omega
  | scanned hkept hstate hscanned =>
    simp only [V2ResidencyState.taken] at hplaces
    constructor
    · simp only
      omega
    · simp only [V2ResidencyState.taken]
      omega

/-- **Every step keeps the account**, if it touches residents only and takes free places
only. -/
theorem Accounted.after_step (event : ResidencyEvent ThreadId) (h : Accounted capacity s)
    (hallowed : TouchesResident s event ∧ TakesFreePlace capacity s event) :
    Accounted capacity (s.step capacity event) := by
  obtain ⟨htouches, hfree⟩ := hallowed
  cases event with
  | reserveSlot protectedThreadId =>
    refine ⟨?_, ?_⟩
    · rw [V2Residency.step, heldSlots, Tally.tally_concat]
      exact h.pending
    · rw [V2Residency.step, examinedCandidates, Tally.tally_concat]
      exact h.places
  | move i move =>
    rw [V2Residency.step]
    split
    · exact h
    next reservation hget =>
      refine h.move hget (moved_move capacity reservation move s.state) ?_
      intro hphase hholds hroom
      cases move with
      | advance verdict => exact hfree (by rw [hget, Option.map_some, hphase]) hroom
      | commit threadId => simp [Reservation.move, hphase] at hholds
      | drop => simp [Reservation.move, hphase] at hholds
  | touch threadId =>
    refine ⟨h.pending, le_trans ?_ h.places⟩
    have htouched := length_touchResident_of_mem htouches
    exact Nat.add_le_add_right (Nat.add_le_add_right htouched _) _
  | remove threadId =>
    refine ⟨h.pending, le_trans ?_ h.places⟩
    exact Nat.add_le_add_right (Nat.add_le_add_right (List.length_filter_le _ _) _) _

/-- **Resident agents stay within capacity**, in every run in which no reservation takes the
place of a candidate that another one looks at. -/
theorem resident_agents_within_capacity (capacity : ℕ) (events : List (ResidencyEvent ThreadId))
    (htouches : Run.Along (V2Residency.step capacity) TouchesResident {} events)
    (hfree : Run.Along (V2Residency.step capacity) (TakesFreePlace capacity) {} events) :
    (Run.after (V2Residency.step capacity) {} events).state.residents.length +
        (Run.after (V2Residency.step capacity) {} events).state.pendingSlots ≤ capacity := by
  have hinitial : Accounted capacity ({} : V2Residency ThreadId) := ⟨rfl, Nat.zero_le _⟩
  have haccounted := Run.invariant_along Accounted.after_step hinitial (htouches.and hfree)
  exact le_trans (Nat.le_add_right _ _) haccounted.places

/-- Two agents are resident in two places. -/
def demoResidents : List (ResidencyEvent ℕ) :=
  [.reserveSlot none, .move 0 (.advance .gone), .move 0 (.commit 10),
    .reserveSlot none, .move 1 (.advance .gone), .move 1 (.commit 20)]

/-- A third reservation finds no place, and takes the first agent out to look at it. -/
def demoScan : List (ResidencyEvent ℕ) :=
  [.reserveSlot none, .move 2 (.advance .gone), .move 2 (.advance .gone),
    .move 2 (.advance .gone)]

theorem resident_agents_within_capacity_demo :
    (Run.after (V2Residency.step 2) {} (demoResidents ++ demoScan)).state.residents.length +
        (Run.after (V2Residency.step 2) {} (demoResidents ++ demoScan)).state.pendingSlots ≤ 2 :=
  resident_agents_within_capacity 2 (demoResidents ++ demoScan) (by decide) (by decide)

/-- **A candidate is put back after its place was taken.** The fourth reservation takes the
place of the agent the third one looks at, and that agent is busy: there are two residents and
one pending slot in two places. -/
theorem candidate_is_put_back :
    let events := demoResidents ++ demoScan ++
      [.reserveSlot none, .move 3 (.advance .gone), .move 2 (.advance .busy)]
    Run.Along (V2Residency.step 2) TouchesResident {} events ∧
      (Run.after (V2Residency.step 2) {} events).state =
        { residents := [20, 10], pendingSlots := 1 } ∧
      ¬(Run.after (V2Residency.step 2) {} events).state.residents.length +
        (Run.after (V2Residency.step 2) {} events).state.pendingSlots ≤ 2 := by
  decide

/-! ### Who is resident -/

theorem nodup_touchResident (h : residents.Nodup) (threadId : ThreadId) :
    (touchResident residents threadId).Nodup := by
  rw [touchResident, List.nodup_append]
  refine ⟨h.filter _, List.nodup_singleton _, ?_⟩
  intro a ha b hb
  rw [List.mem_singleton.mp hb]
  simpa using (List.mem_filter.mp ha).2

theorem nodup_scanLruCandidate (h : residents.Nodup) :
    let popped := V2ResidencyState.scanLruCandidate protectedThreadId candidatesToScan residents
    popped.2.Nodup ∧ ∀ threadId, popped.1 = some threadId → protectedThreadId ≠ some threadId := by
  induction candidatesToScan generalizing residents with
  | zero => exact ⟨h, by rintro _ ⟨⟩⟩
  | succ candidatesToScan ih =>
    cases residents with
    | nil => exact ⟨h, by rintro _ ⟨⟩⟩
    | cons candidate residents =>
      rw [V2ResidencyState.scanLruCandidate]
      split
      · exact ih ((List.perm_append_singleton candidate residents).nodup_iff.mpr h)
      next hother =>
        refine ⟨(List.nodup_cons.mp h).2, ?_⟩
        rintro _ ⟨⟩
        exact fun hprotected => hother hprotected.symm

/-- The reservation does not look at the thread that it protects. -/
def Reservation.Spares (reservation : Reservation ThreadId) : Prop :=
  ∀ threadId left, reservation.phase = .examining threadId left →
    reservation.protectedThreadId ≠ some threadId

/-- A step of a reservation keeps the residents apart, and spares the protected thread. -/
theorem Reservation.Spares.move (h : reservation.Spares) (hnodup : state.residents.Nodup)
    (capacity : ℕ) (move : Move ThreadId) :
    (reservation.move capacity move state).2.residents.Nodup ∧
      Spares { reservation with phase := (reservation.move capacity move state).1 } := by
  obtain ⟨protectedThreadId, phase⟩ := reservation
  cases move with
  | commit threadId =>
    rw [Reservation.move]
    split_ifs
    · exact ⟨nodup_touchResident hnodup threadId, by rintro _ _ ⟨⟩⟩
    · exact ⟨hnodup, h⟩
  | drop =>
    rw [Reservation.move]
    split_ifs
    · exact ⟨hnodup, by rintro _ _ ⟨⟩⟩
    · exact ⟨hnodup, h⟩
  | advance verdict =>
    rw [Reservation.move]
    cases phase with
    | trying =>
      rw [advance, V2ResidencyState.tryReservePendingSlot]
      split_ifs <;> exact ⟨hnodup, by rintro _ _ ⟨⟩⟩
    | popping left =>
      cases left with
      | zero => exact ⟨hnodup, by rintro _ _ ⟨⟩⟩
      | succ left =>
        -- the scan passes over the protected thread
        obtain ⟨hrest, hcandidate⟩ :=
          nodup_scanLruCandidate protectedThreadId state.residents.length hnodup
        rw [advance, V2ResidencyState.popLruCandidate]
        generalize V2ResidencyState.scanLruCandidate protectedThreadId state.residents.length
          state.residents = popped at hrest hcandidate
        obtain ⟨_ | candidate, rest⟩ := popped
        · exact ⟨hrest, by rintro _ _ ⟨⟩⟩
        · refine ⟨hrest, ?_⟩
          rintro _ _ ⟨⟩
          exact hcandidate candidate rfl
    | examining candidate left =>
      cases verdict with
      | busy | shutdownFailed => exact ⟨nodup_touchResident hnodup candidate, by rintro _ _ ⟨⟩⟩
      | gone | unloaded => exact ⟨hnodup, by rintro _ _ ⟨⟩⟩
    | counting | limitReached | holding | finished => exact ⟨hnodup, by rintro _ _ ⟨⟩⟩

/-- **What holds in every state**, whether or not the capacity is kept. -/
structure Tidy (s : V2Residency ThreadId) : Prop where
  nodup : s.state.residents.Nodup
  spares : ∀ reservation ∈ s.reservations, reservation.Spares

theorem Tidy.after_step (event : ResidencyEvent ThreadId) (h : Tidy s) :
    Tidy (s.step capacity event) := by
  cases event with
  | reserveSlot protectedThreadId =>
    refine ⟨h.nodup, ?_⟩
    intro reservation hmem
    rcases List.mem_append.mp hmem with hmem | hmem
    · exact h.spares reservation hmem
    · rw [List.mem_singleton.mp hmem]
      rintro _ _ ⟨⟩
  | move i move =>
    rw [V2Residency.step]
    split
    · exact h
    next reservation hget =>
      obtain ⟨hnodup, hspares⟩ := Reservation.Spares.move
        (h.spares reservation (List.mem_of_getElem? hget)) h.nodup capacity move
      refine ⟨hnodup, ?_⟩
      intro other hmem
      rcases List.mem_or_eq_of_mem_set hmem with hmem | rfl
      · exact h.spares other hmem
      · exact hspares
  | touch threadId => exact ⟨nodup_touchResident h.nodup threadId, h.spares⟩
  | remove threadId => exact ⟨h.nodup.filter _, h.spares⟩

/-- **No thread is resident twice, and the protected one is spared.** In every interleaving, even
in one that exceeds the capacity, the residents are different threads, and no reservation looks at
the thread that it protects, so that it never unloads that thread. -/
theorem residents_differ_and_protected_is_spared (capacity : ℕ)
    (events : List (ResidencyEvent ThreadId)) :
    let s := Run.after (V2Residency.step capacity) {} events
    s.state.residents.Nodup ∧
      ∀ reservation ∈ s.reservations, ∀ threadId left,
        reservation.phase = .examining threadId left →
          reservation.protectedThreadId ≠ some threadId := by
  intro s
  have h : Tidy s := Run.invariant (I := Tidy) (fun s event h => h.after_step s event)
    ⟨List.nodup_nil, fun _ h => by cases h⟩ events
  exact ⟨h.nodup, h.spares⟩

end Rivloom.Agent
