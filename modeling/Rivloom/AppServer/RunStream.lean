import Mathlib.Data.List.Chain
import Rivloom.AppServer.EventRouter
import Rivloom.Lib.CodecSize
import Rivloom.Lib.Run

/-!
# The events of one run

One route of the router of `Rivloom.AppServer.EventRouter`, the queue it writes and the
worker that reads the queue, in every order of their steps (`Route::push`,
`EventQueue::push`, `RunEventStream::try_recv`). Two things are asked of what the worker
sees.

**Nothing is lost silently.** A full queue takes back its last event and puts a gap in its
place, and drops what comes after for as long as the gap is its last event; a route that
is exhausted sends a gap and nothing more. All of this is said on one list, what was
received followed by what is waiting (`Rivloom.AppServer.RunStream.kept`): two neighbours
in it that are not gaps were pushed one after the other, and its last event is the one that
was pushed last, or a gap (`Rivloom.AppServer.RunStream.Follows`,
`Rivloom.AppServer.RunStream.Ordered`).

**The events are bounded**, in number and in bytes, the gap at the end included. An event is
let through only if there is room for it and for the gap after it, and the gap is measured
with the number of the event that is let through.

## Where the measure fails

The gap that is sent later has a larger number. That makes no difference unless the number
has one more digit. From nine to ten there is room to spare, since nine events of at most
512 bytes are far from the bound. From 99 to 100 there need not be, and if the bound is met
to the byte then it is exceeded by one byte later
(`Rivloom.AppServer.RunStream.LeavesRoom`).

The bytes that a route counts are those of the events that it has sent. A gap that the
queue puts in the place of an event is longer than most events, so among the events that
were ever put into the queue there may be more bytes; what is taken back makes up for that,
unless it is counted as well.
-/

namespace Rivloom.AppServer

open Json (intSize membersSize quoteSize size)

/-! ### The route, its queue and the worker -/

/-- **What a push puts at the end of a queue.** -/
def EventQueue.places (queue : EventQueue) (event : RunEvent) : Option RunEvent :=
  if queue.events.length < eventQueueCapacity then some event
  else if queue.events.getLast?.any fun last => last.kind.isGap then none
  else some { event with kind := .gap .observerLagged }

/-- **The route of a run, its queue and the worker**: the kinds of events that were pushed on the
route, the events that were ever put into the queue, and those that were received. -/
structure RunStream where
  route : Route
  queue : EventQueue
  pushed : List RunEventKind
  placed : List RunEvent
  received : List RunEvent

inductive RunStreamStep where
  | push (kind : RunEventKind)
  | tryRecv

namespace RunStream

variable {event : RunEvent} {queue : EventQueue} {route : Route} {n : ℕ} {e : RunStreamStep}
  (router : EventRouter) (identity : ConnectionIdentity) (received : List RunEvent)

/-- A run that was prepared. -/
def prepared (router : EventRouter) (identity : ConnectionIdentity) (runId threadId : String) :
    RunStream :=
  ⟨router.newRoute identity runId threadId, {}, [], [], []⟩

/-- Push an event on the route. -/
def push (s : RunStream) (kind : RunEventKind) : RunStream :=
  { s with
    route := (s.route.push kind).1
    queue := s.queue.pushAll (s.route.push kind).2
    pushed := s.pushed ++ [kind]
    placed := s.placed ++ ((s.route.push kind).2.bind s.queue.places).toList }

/-- The worker takes the next event. -/
def tryRecv (s : RunStream) : RunStream :=
  { s with
    queue := { s.queue with events := s.queue.events.tail }
    received := s.received ++ s.queue.events.head?.toList }

/-- **One step of the route or of the worker.** -/
def step (s : RunStream) : RunStreamStep → RunStream
  | .push kind => s.push kind
  | .tryRecv => s.tryRecv

/-- **What was received, followed by what is waiting.** -/
def kept (s : RunStream) : List RunEvent := s.received ++ s.queue.events

variable {s : RunStream}

theorem kept_tryRecv (s : RunStream) : s.tryRecv.kept = s.kept := by
  rw [kept, kept, tryRecv, List.append_assoc]
  congr 1
  cases s.queue.events with
  | nil => rfl
  | cons event rest => rfl

theorem events_of_full (hfull : ¬ queue.events.length < eventQueueCapacity) :
    ∃ init prev last, queue.events = init ++ [prev, last] := by
  have hlength : 8 ≤ queue.events.length := Nat.not_lt.mp hfull
  obtain ⟨front, last, hfront⟩ :=
    (List.eq_nil_or_concat queue.events).resolve_left
      (by rintro h; rw [h] at hlength; cases hlength)
  rw [List.concat_eq_append] at hfront
  obtain ⟨init, prev, hinit⟩ := (List.eq_nil_or_concat front).resolve_left (by
    rintro rfl
    rw [hfront] at hlength
    simp at hlength)
  refine ⟨init, prev, last, ?_⟩
  rw [hfront, hinit, List.concat_eq_append, List.append_assoc]
  rfl

/-- **What becomes of an event that is sent**: it is put at the end; or the queue is full, and it
is dropped behind a gap, or takes with it the last event and leaves a gap. -/
theorem kept_pushAll (queue : EventQueue) (event : RunEvent) :
    (queue.events.length < eventQueueCapacity ∧ queue.places event = some event ∧
      received ++ (queue.push event).events = received ++ queue.events ++ [event]) ∨
    (∃ front last, last.kind.isGap = true ∧ received ++ queue.events = front ++ [last] ∧
      queue.places event = none ∧
      received ++ (queue.push event).events = received ++ queue.events) ∨
    ∃ front prev last, received ++ queue.events = front ++ [prev, last] ∧
      queue.places event = some { event with kind := .gap .observerLagged } ∧
      received ++ (queue.push event).events =
        front ++ [prev, { event with kind := .gap .observerLagged }] := by
  by_cases hfull : queue.events.length < eventQueueCapacity
  · refine Or.inl ⟨hfull, ?_, ?_⟩
    · rw [EventQueue.places, if_pos hfull]
    · rw [EventQueue.push, if_pos hfull, List.append_assoc]
  obtain ⟨init, prev, last, hevents⟩ := events_of_full hfull
  have hlast : queue.events.getLast? = some last := by
    rw [hevents]
    simp
  cases hgap : last.kind.isGap with
  | true =>
    have hany : (queue.events.getLast?.any fun last => last.kind.isGap) = true := by
      rw [hlast]
      exact hgap
    refine Or.inr (Or.inl ⟨received ++ init ++ [prev], last, hgap, ?_, ?_, ?_⟩)
    · rw [hevents]
      simp
    · rw [EventQueue.places, if_neg hfull, if_pos hany]
    · rw [EventQueue.push, if_neg hfull, if_pos hany]
  | false =>
    have hany : ¬ (queue.events.getLast?.any fun last => last.kind.isGap) = true := by
      rw [hlast]
      simp [hgap]
    refine Or.inr (Or.inr ⟨received ++ init, prev, last, ?_, ?_, ?_⟩)
    · rw [hevents, List.append_assoc]
    · rw [EventQueue.places, if_neg hfull, if_neg hany]
    · rw [EventQueue.push, if_neg hfull, if_neg hany, hevents]
      simp

/-- **What a push does**: it is ignored by a route that is saturated, exhausts the route, or is
sent. -/
theorem push_cases (route : Route) (kind : RunEventKind) :
    (route.saturated = true ∧ route.push kind = (route, none)) ∨
    (route.saturated = false ∧ route.exhausted kind = true ∧ route.push kind =
      ({ route with saturated := true }, some (route.event (.gap .limitExceeded)))) ∨
    (route.saturated = false ∧ route.exhausted kind = false ∧ route.push kind =
      ({ route with
          nextSequence := route.nextSequence + 1
          totalBytes := route.totalBytes + serializedLen (route.event kind) },
        some (route.event kind))) := by
  rw [Route.push]
  cases hsaturated : route.saturated with
  | true => exact Or.inl ⟨rfl, rfl⟩
  | false =>
    cases hexhausted : route.exhausted kind with
    | true => exact Or.inr (Or.inl ⟨rfl, rfl, rfl⟩)
    | false => exact Or.inr (Or.inr ⟨rfl, rfl, rfl⟩)

theorem of_not_exhausted {kind : RunEventKind} (h : route.exhausted kind = false) :
    route.nextSequence.toNat < maxRunEvents ∧
      serializedLen (route.event kind) ≤ maxRunEventBytes ∧
      route.totalBytes + serializedLen (route.event kind) +
        serializedLen (route.event (.gap .limitExceeded)) ≤ maxRunEventTotalBytes := by
  rw [Route.exhausted, Bool.or_eq_false_iff, Bool.or_eq_false_iff, decide_eq_false_iff_not,
    decide_eq_false_iff_not, decide_eq_false_iff_not] at h
  exact ⟨Nat.not_le.mp h.1.1, Nat.not_lt.mp h.1.2, Nat.not_lt.mp h.2⟩

theorem toNat_succ {n : UInt32} (h : n.toNat < maxRunEvents) : (n + 1).toNat = n.toNat + 1 := by
  have hlt : n.toNat < 128 := h
  rw [UInt32.toNat_add, UInt32.toNat_one]
  omega

/-! ### Nothing is lost silently -/

/-- **The event after another one**: it has a larger number, and the next one unless one of the two
is a gap. -/
def Follows (a b : RunEvent) : Prop :=
  a.sequence.toNat < b.sequence.toNat ∧ (a.kind.isGap = true ∨ b.kind.isGap = true ∨
    b.sequence.toNat = a.sequence.toNat + 1)

/-- **What holds in every state** of the events that were kept. -/
structure Ordered (s : RunStream) : Prop where
  bound : s.route.nextSequence.toNat ≤ maxRunEvents
  /-- An open route has numbered every event that was pushed. -/
  counted : s.route.saturated = false → s.route.nextSequence.toNat = s.pushed.length + 1
  chain : s.kept.IsChain Follows
  first : ∀ event, s.kept.head? = some event → event.sequence.toNat = 1
  /-- The last event is the one that was pushed last, or a gap. -/
  last : ∀ event, s.kept.getLast? = some event → event.sequence.toNat ≤ s.pushed.length ∧
    (event.kind.isGap = true ∨ s.route.saturated = false ∧ event.sequence.toNat = s.pushed.length)
  nonempty : s.pushed ≠ [] ∨ s.route.saturated = true → s.kept ≠ []
  /-- An event that is not a gap was pushed. -/
  genuine : ∀ event ∈ s.kept, event.kind.isGap = false → event.runId = s.route.runId ∧
    s.pushed[event.sequence.toNat - 1]? = some event.kind

/-- An event that is sent by an open route, at the end of the events that were kept. -/
theorem Ordered.follows (h : s.Ordered) (hopen : s.route.saturated = false) {last event : RunEvent}
    (hlast : s.kept.getLast? = some last)
    (hsequence : event.sequence.toNat = s.route.nextSequence.toNat) : Follows last event := by
  obtain ⟨hle, hcase⟩ := h.last last hlast
  have hnext := h.counted hopen
  refine ⟨by omega, ?_⟩
  rcases hcase with hgap | ⟨-, heq⟩
  · exact Or.inl hgap
  · exact Or.inr (Or.inr (by omega))

theorem chain_replace {front : List RunEvent} {prev last event : RunEvent}
    (h : (front ++ [prev, last]).IsChain Follows) (hgap : event.kind.isGap = true)
    (hlt : last.sequence.toNat < event.sequence.toNat) :
    (front ++ [prev, event]).IsChain Follows := by
  obtain ⟨hfront, hprev, -⟩ := List.isChain_append_cons_cons.mp h
  refine List.isChain_append_cons_cons.mpr ⟨hfront, ?_, List.isChain_singleton event⟩
  exact ⟨Nat.lt_trans hprev.1 hlt, Or.inr (Or.inl hgap)⟩

/-- **An open route sends an event**: the one that was pushed, or a gap. -/
theorem Ordered.send (h : s.Ordered) (hopen : s.route.saturated = false) {kind : RunEventKind}
    {placed : List RunEvent} (hrun : route.runId = s.route.runId)
    (hevent : event.runId = s.route.runId ∧ event.sequence = s.route.nextSequence)
    (hkind : event.kind.isGap = true ∨ event.kind = kind ∧ route.saturated = false)
    (hbound : route.nextSequence.toNat ≤ maxRunEvents)
    (hcounted : route.saturated = false → route.nextSequence.toNat = s.pushed.length + 2) :
    Ordered ⟨route, s.queue.push event, s.pushed ++ [kind], placed, s.received⟩ := by
  have hnext := h.counted hopen
  have hsequence : event.sequence.toNat = s.pushed.length + 1 := by rw [hevent.2, hnext]
  have hlength : (s.pushed ++ [kind]).length = s.pushed.length + 1 := by
    rw [List.length_append, List.length_singleton]
  -- what was pushed before is still found
  have hold : ∀ e ∈ s.kept, e.kind.isGap = false → e.runId = route.runId ∧
      (s.pushed ++ [kind])[e.sequence.toNat - 1]? = some e.kind := by
    intro e he hgap
    obtain ⟨hid, hpushed⟩ := h.genuine e he hgap
    refine ⟨hid.trans hrun.symm, ?_⟩
    rw [List.getElem?_append_left (List.getElem?_eq_some_iff.mp hpushed).1, hpushed]
  rcases kept_pushAll s.received s.queue event with
    ⟨-, -, hkept⟩ | ⟨front, last, hgap, hfront, -, hkept⟩ | ⟨front, prev, last, hfront, -, hkept⟩
  · change _ = s.kept ++ [event] at hkept
    refine ⟨hbound, fun ho => by rw [hcounted ho, hlength], ?_, ?_, ?_, ?_, ?_⟩
    · rw [kept, hkept]
      refine List.isChain_append.mpr ⟨h.chain, List.isChain_singleton event, ?_⟩
      intro last hlast first hfirst
      obtain rfl := Option.some.inj hfirst
      exact h.follows hopen hlast (by rw [hevent.2])
    · rw [kept, hkept]
      intro first hfirst
      by_cases hempty : s.kept = []
      · rw [hempty] at hfirst
        obtain rfl := Option.some.inj hfirst
        have hnone : s.pushed = [] := by
          by_contra hsome
          exact h.nonempty (Or.inl hsome) hempty
        rw [hsequence, hnone]
        rfl
      · rw [List.head?_append_of_ne_nil _ hempty] at hfirst
        exact h.first first hfirst
    · rw [kept, hkept]
      intro last hlast
      rw [List.getLast?_concat] at hlast
      obtain rfl := Option.some.inj hlast
      dsimp only
      rw [hlength]
      exact ⟨by omega, hkind.imp_right fun hsent => ⟨hsent.2, hsequence⟩⟩
    · rw [kept, hkept]
      exact fun _ => List.concat_ne_nil _ _
    · rw [kept, hkept]
      intro e he hgap
      rcases List.mem_append.mp he with he | he
      · exact hold e he hgap
      · obtain rfl := List.mem_singleton.mp he
        refine ⟨hevent.1.trans hrun.symm, ?_⟩
        rcases hkind with hisgap | ⟨hsame, -⟩
        · exact Bool.noConfusion (hisgap.symm.trans hgap)
        · rw [hsequence, hsame, Nat.add_sub_cancel, List.getElem?_concat_length]
  · change s.kept = front ++ [last] at hfront
    change _ = s.kept at hkept
    refine ⟨hbound, fun ho => by rw [hcounted ho, hlength], ?_, ?_, ?_, ?_, ?_⟩
    · rw [kept, hkept]
      exact h.chain
    · rw [kept, hkept]
      exact h.first
    · rw [kept, hkept, hfront, List.getLast?_concat]
      rintro e he
      obtain rfl := Option.some.inj he
      have hle := (h.last last (by rw [hfront, List.getLast?_concat])).1
      dsimp only
      rw [hlength]
      exact ⟨by omega, Or.inl hgap⟩
    · rw [kept, hkept, hfront]
      exact fun _ => List.concat_ne_nil _ _
    · rw [kept, hkept]
      exact hold
  · change s.kept = front ++ [prev, last] at hfront
    have hlast : s.kept.getLast? = some last := by
      rw [hfront]
      simp
    have hle := (h.last last hlast).1
    refine ⟨hbound, fun ho => by rw [hcounted ho, hlength], ?_, ?_, ?_, ?_, ?_⟩
    · rw [kept, hkept]
      refine chain_replace (hfront ▸ h.chain) rfl ?_
      change last.sequence.toNat < event.sequence.toNat
      omega
    · rw [kept, hkept]
      have hfirst := h.first
      rw [hfront] at hfirst
      cases front with
      | nil => exact hfirst
      | cons first rest => exact hfirst
    · rw [kept, hkept, List.append_cons, List.getLast?_concat]
      rintro e he
      obtain rfl := Option.some.inj he
      refine ⟨?_, Or.inl rfl⟩
      change event.sequence.toNat ≤ (s.pushed ++ [kind]).length
      omega
    · rw [kept, hkept]
      exact fun _ => List.append_ne_nil_of_right_ne_nil _ (List.cons_ne_nil _ _)
    · rw [kept, hkept]
      intro e he hgap
      refine hold e ?_ hgap
      rw [hfront]
      rcases List.mem_append.mp he with he | he
      · exact List.mem_append_left _ he
      · rcases List.mem_cons.mp he with rfl | he
        · exact List.mem_append_right _ List.mem_cons_self
        · rw [List.mem_singleton.mp he] at hgap
          cases hgap

theorem Ordered.push (h : s.Ordered) (kind : RunEventKind) : (s.push kind).Ordered := by
  rw [RunStream.push]
  rcases push_cases s.route kind with ⟨hsaturated, heq⟩ | ⟨hopen, -, heq⟩ | ⟨hopen, hfits, heq⟩
  · -- a saturated route ends in a gap
    rw [heq]
    refine ⟨h.bound, fun ho => Bool.noConfusion (hsaturated.symm.trans ho), h.chain, h.first,
      fun event hlast => ?_, fun _ => h.nonempty (Or.inr hsaturated), fun event he hgap => ?_⟩
    · obtain ⟨hle, hcase⟩ := h.last event hlast
      refine ⟨?_, Or.inl (hcase.resolve_right fun ho => ?_)⟩
      · rw [List.length_append]
        exact Nat.le_add_right_of_le hle
      · exact Bool.noConfusion (hsaturated.symm.trans ho.1)
    · obtain ⟨hid, hpushed⟩ := h.genuine event he hgap
      refine ⟨hid, ?_⟩
      dsimp only
      rw [List.getElem?_append_left (List.getElem?_eq_some_iff.mp hpushed).1, hpushed]
  · rw [heq]
    exact h.send hopen rfl ⟨rfl, rfl⟩ (Or.inl rfl) h.bound nofun
  · rw [heq]
    have hlt := (of_not_exhausted hfits).1
    have hnext := h.counted hopen
    refine h.send hopen rfl ⟨rfl, rfl⟩ (Or.inr ⟨rfl, hopen⟩) ?_ fun _ => ?_
    · change (s.route.nextSequence + 1).toNat ≤ maxRunEvents
      rw [toNat_succ hlt]
      exact hlt
    · change (s.route.nextSequence + 1).toNat = _
      rw [toNat_succ hlt]
      omega

theorem Ordered.tryRecv (h : s.Ordered) : s.tryRecv.Ordered := by
  refine ⟨h.bound, h.counted, ?_, ?_, ?_, ?_, ?_⟩
  · rw [kept_tryRecv]
    exact h.chain
  · rw [kept_tryRecv]
    exact h.first
  · rw [kept_tryRecv]
    exact h.last
  · rw [kept_tryRecv]
    exact h.nonempty
  · rw [kept_tryRecv]
    exact h.genuine

/-- **One step keeps the events in order.** -/
theorem Ordered.step (h : s.Ordered) (e : RunStreamStep) : (s.step e).Ordered := by
  cases e with
  | push kind => exact h.push kind
  | tryRecv => exact h.tryRecv

theorem ordered_prepared (runId threadId : String) :
    (prepared router identity runId threadId).Ordered where
  bound := (by decide : (1 : UInt32).toNat ≤ maxRunEvents)
  counted _ := rfl
  chain := List.isChain_nil
  first := nofun
  last := nofun
  nonempty := by
    rintro (hpushed | hsaturated)
    · exact absurd rfl hpushed
    · cases hsaturated
  genuine := nofun

theorem sequence_of_no_gap {events : List RunEvent} (h : events.IsChain Follows)
    (hnone : ∀ event ∈ events, event.kind.isGap = false)
    (hfirst : ∀ event, events.head? = some event → event.sequence.toNat = n) {k : ℕ}
    (hk : events[k]? = some event) : event.sequence.toNat = n + k := by
  induction events generalizing n k with
  | nil => cases hk
  | cons first rest ih =>
    cases k with
    | zero =>
      obtain rfl := Option.some.inj hk
      exact hfirst first rfl
    | succ k =>
      have hnext : ∀ e, rest.head? = some e → e.sequence.toNat = n + 1 := by
        intro e he
        have hfollows := h.rel_head? he
        have he' := hnone e (List.mem_cons_of_mem _ (List.mem_of_head? he))
        rcases hfollows.2 with hgap | hgap | hsucc
        · exact Bool.noConfusion ((hnone first List.mem_cons_self).symm.trans hgap)
        · exact Bool.noConfusion (he'.symm.trans hgap)
        · rw [hsucc, hfirst first rfl]
      have hrest := ih h.tail (fun e he => hnone e (List.mem_cons_of_mem _ he)) hnext hk
      omega

/-- **Once everything was received and nothing of it is a gap, everything was received that was
pushed.** -/
theorem Ordered.received_of_no_gap (h : s.Ordered) (hdrained : s.queue.events = [])
    (hnone : ∀ event ∈ s.received, event.kind.isGap = false) {i : ℕ} {kind : RunEventKind}
    (hi : s.pushed[i]? = some kind) :
    ∃ event ∈ s.received, event.kind = kind ∧ event.sequence.toNat = i + 1 := by
  have hkept : s.kept = s.received := by rw [kept, hdrained, List.append_nil]
  have hlt : i < s.pushed.length := (List.getElem?_eq_some_iff.mp hi).1
  have hsequence : ∀ {k : ℕ} {event : RunEvent}, s.received[k]? = some event →
      event.sequence.toNat = 1 + k := fun hk =>
    sequence_of_no_gap (hkept ▸ h.chain) hnone (hkept ▸ h.first) hk
  have hsome := h.nonempty (Or.inl (List.ne_nil_of_length_pos (Nat.zero_lt_of_lt hlt)))
  rw [hkept] at hsome
  -- the last event was pushed last, so that there are as many events as were pushed
  have hlength : s.received.length = s.pushed.length := by
    have hlast := List.getLast?_eq_getLast_of_ne_nil hsome
    have hnumber := (h.last (s.received.getLast hsome) (by rw [hkept, hlast])).2
    rw [List.getLast?_eq_getElem?] at hlast
    have hpos := List.length_pos_of_ne_nil hsome
    rcases hnumber with hgap | ⟨-, heq⟩
    · exact Bool.noConfusion ((hnone _ (List.getLast_mem hsome)).symm.trans hgap)
    · have hindex := hsequence hlast
      omega
  obtain ⟨event, hevent⟩ : ∃ event, s.received[i]? = some event :=
    ⟨_, List.getElem?_eq_getElem (hlength ▸ hlt)⟩
  have hnumber := hsequence hevent
  have hmem := List.mem_of_getElem? hevent
  obtain ⟨-, hpushed⟩ := h.genuine event (hkept ▸ hmem) (hnone event hmem)
  rw [hnumber, Nat.add_sub_cancel_left, hi] at hpushed
  exact ⟨event, hmem, (Option.some.inj hpushed).symm, by omega⟩

/-- **No event is lost silently.** In every order of the pushes on a route and of the steps of its
worker, the events that are received have increasing numbers, the first of them the number one;
those that are not gaps were pushed; between two neighbours of which neither is a gap nothing
that was pushed is missing; once everything was received, nothing that was pushed is missing
at the end, unless the last event is a gap; and an event that ends the turn was received, or a
gap was. -/
theorem no_event_is_lost_silently (router : EventRouter) (identity : ConnectionIdentity)
    (runId threadId : String) (steps : List RunStreamStep) :
    let s := Run.after step (prepared router identity runId threadId) steps
    s.received.IsChain (fun a b => a.sequence.toNat < b.sequence.toNat) ∧
    (∀ event ∈ s.received, event.kind.isGap = false →
      event.runId = s.route.runId ∧ s.pushed[event.sequence.toNat - 1]? = some event.kind) ∧
    (∀ event, s.received.head? = some event → event.sequence.toNat = 1) ∧
    (∀ before a b after, s.received = before ++ a :: b :: after →
      (∃ i, a.sequence.toNat < i ∧ i < b.sequence.toNat) →
        a.kind.isGap = true ∨ b.kind.isGap = true) ∧
    (s.queue.events = [] → s.pushed ≠ [] → ∃ last, s.received.getLast? = some last ∧
      (last.sequence.toNat < s.pushed.length → last.kind.isGap = true)) ∧
    (s.queue.events = [] → ∀ i kind, s.pushed[i]? = some kind → isTerminal kind = true →
      (∃ event ∈ s.received, event.kind = kind ∧ event.sequence.toNat = i + 1) ∨
        ∃ event ∈ s.received, event.kind.isGap = true) := by
  intro s
  have h : s.Ordered := Run.invariant (fun _ e hs => hs.step e)
    (ordered_prepared router identity runId threadId) steps
  have hchain : s.received.IsChain Follows := h.chain.left_of_append
  refine ⟨hchain.imp fun _ _ hfollows => hfollows.1,
    fun event he => h.genuine event (List.mem_append_left _ he), fun event he => ?_,
    fun before a b after hreceived hmissing => ?_, fun hdrained hpushed => ?_,
    fun hdrained i kind hi _ => ?_⟩
  · refine h.first event ?_
    rw [kept, List.head?_append, he]
    rfl
  · obtain ⟨-, hfollows⟩ :=
      List.isChain_iff_forall_rel_of_append_cons_cons.mp hchain hreceived
    obtain ⟨i, ha, hb⟩ := hmissing
    rcases hfollows with hgap | hgap | hnext
    · exact Or.inl hgap
    · exact Or.inr hgap
    · omega
  · have hkept : s.kept = s.received := by rw [kept, hdrained, List.append_nil]
    have hsome := h.nonempty (Or.inl hpushed)
    rw [hkept] at hsome
    refine ⟨s.received.getLast hsome, List.getLast?_eq_getLast_of_ne_nil hsome, fun hlt => ?_⟩
    have hlast := (h.last (s.received.getLast hsome) (by
      rw [hkept, List.getLast?_eq_getLast_of_ne_nil hsome])).2
    rcases hlast with hgap | ⟨-, heq⟩
    · exact hgap
    · omega
  · by_cases hgap : ∃ event ∈ s.received, event.kind.isGap = true
    · exact Or.inr hgap
    · refine Or.inl (h.received_of_no_gap hdrained (fun event he => ?_) hi)
      rw [← Bool.not_eq_true]
      exact fun htrue => hgap ⟨event, he, htrue⟩

/-! ### The sizes of the events -/

/-- The size of an event: what every event takes, the run, the number and the kind. -/
theorem serializedLen_eq (event : RunEvent) : serializedLen event =
    30 + quoteSize event.runId + intSize event.sequence.toNat + event.kind.json.size := by
  have hnames : quoteSize "runId" = 7 ∧ quoteSize "sequence" = 10 ∧
      quoteSize "kind" = 6 := by decide
  rw [serializedLen, Json.size_bytes, RunEvent.json, size, membersSize, membersSize,
    membersSize, size, size, hnames.1, hnames.2.1, hnames.2.2]
  omega

/-- The sizes of the kinds. -/
def kindLen : RunEventKind → ℕ
  | .running => 18
  | .waitingApproval => 26
  | .completed => 20
  | .failed => 17
  | .interrupted => 22
  | .gap .observerLagged => 40
  | .gap .limitExceeded => 39

theorem size_kind (kind : RunEventKind) : kind.json.size = kindLen kind := by
  cases kind with
  | gap reason => cases reason <;> decide
  | _ => decide

theorem size_kind_le (kind : RunEventKind) : 17 ≤ kind.json.size ∧ kind.json.size ≤ 40 := by
  rw [size_kind]
  cases kind with
  | gap reason => cases reason <;> decide
  | _ => decide

theorem intSize_succ (hpos : 0 < n) (hlt : n < maxRunEvents) :
    intSize (n + 1 : ℕ) = intSize n ∨ n = 9 ∨ n = 99 := by
  have hall : ∀ n < 128, 0 < n → intSize (n + 1 : ℕ) = intSize n ∨ n = 9 ∨ n = 99 := by
    decide +kernel
  exact hall n hlt hpos

theorem intSize_le_three (hlt : n ≤ maxRunEvents) : intSize n ≤ 3 := by
  refine Json.intSize_le (by decide) (Int.natCast_nonneg n) ?_
  have hle : n ≤ 128 := hlt
  omega

theorem serializedLen_gap_le (hid : validId event.runId = true)
    (hsequence : event.sequence.toNat ≤ maxRunEvents) : serializedLen event ≤ 843 := by
  rw [validId, Bool.and_eq_true, decide_eq_true_eq] at hid
  have hbytes : event.runId.utf8ByteSize ≤ 128 := hid.2
  have hquote := Json.quoteSize_le event.runId
  have hdigits := intSize_le_three hsequence
  have hkind := (size_kind_le event.kind).2
  rw [serializedLen_eq]
  omega

/-! ### The budget -/

/-- The bytes of some events. -/
def bytes (events : List RunEvent) : ℕ := (events.map serializedLen).sum

theorem bytes_append (events events' : List RunEvent) :
    bytes (events ++ events') = bytes events + bytes events' := by
  rw [bytes, List.map_append, List.sum_append]
  rfl

theorem bytes_pair (a b : RunEvent) : bytes [a, b] = serializedLen a + serializedLen b := rfl

theorem bytes_singleton (event : RunEvent) : bytes [event] = serializedLen event :=
  Nat.add_zero _

/-- **A push leaves room for the gap after it**: it does not fill the bytes of the run to the last
one where the number of the gap gets one more digit. -/
def LeavesRoom (s : RunStream) : RunStreamStep → Prop
  | .push kind => s.route.saturated = false → s.route.nextSequence = 99 →
      s.route.totalBytes + serializedLen (s.route.event kind) +
        serializedLen (s.route.event (.gap .limitExceeded)) ≠ maxRunEventTotalBytes
  | .tryRecv => True

/-- **The worker keeps up**: a push does not find the queue full. -/
def KeepsUp (s : RunStream) : RunStreamStep → Prop
  | .push _ => s.queue.events.length < eventQueueCapacity
  | .tryRecv => True

/-- **What holds in every state** of the numbers and bytes. -/
structure Budget (s : RunStream) : Prop where
  id : validId s.route.runId = true
  pos : 0 < s.route.nextSequence.toNat
  bound : s.route.nextSequence.toNat ≤ maxRunEvents
  total : s.route.totalBytes ≤ (s.route.nextSequence.toNat - 1) * maxRunEventBytes
  placed : s.placed.length + 1 ≤ s.route.nextSequence.toNat ∨
    s.route.saturated = true ∧ s.placed.length ≤ s.route.nextSequence.toNat
  small : ∀ event ∈ s.placed, event.kind.isGap = false → serializedLen event ≤ maxRunEventBytes
  run : ∀ event ∈ s.kept, event.runId = s.route.runId
  /-- While the route is open there is room for the gap that may come next. -/
  room : s.route.saturated = false → bytes s.kept ≤ s.route.totalBytes ∧
    s.route.totalBytes + serializedLen (s.route.event (.gap .limitExceeded)) ≤ maxRunEventTotalBytes
  fits : bytes s.kept ≤ maxRunEventTotalBytes

/-- **What an event costs that is sent**: at most its bytes, whatever the queue makes of it. -/
theorem bytes_push (queue : EventQueue) (event : RunEvent)
    (hrun : ∀ e ∈ received ++ queue.events, e.runId = event.runId) :
    bytes (received ++ (queue.push event).events) ≤
      bytes (received ++ queue.events) + serializedLen event := by
  rcases kept_pushAll received queue event with
    ⟨-, -, hkept⟩ | ⟨front, last, -, -, -, hkept⟩ | ⟨front, prev, last, hfront, -, hkept⟩
  · rw [hkept, bytes_append _ [event], bytes_singleton]
  · rw [hkept]
    exact Nat.le_add_right _ _
  · -- the gap is longer than the event by less than the event that is taken back
    have hlast : serializedLen { event with kind := .gap .observerLagged } ≤
        serializedLen last + serializedLen event := by
      have hid := hrun last (by rw [hfront]; simp)
      have hquote := Json.le_quoteSize event.runId
      have hkind := (size_kind_le event.kind).1
      have hkind' := (size_kind_le last.kind).1
      rw [serializedLen_eq, serializedLen_eq, serializedLen_eq, size_kind (.gap _)]
      dsimp only [kindLen]
      omega
    rw [hkept, hfront, bytes_append, bytes_append, bytes_pair, bytes_pair]
    omega

theorem places_cases {event placed : RunEvent} (h : queue.places event = some placed) :
    placed = event ∨ placed.kind.isGap = true := by
  rw [EventQueue.places] at h
  split at h
  · exact Or.inl (Option.some.inj h).symm
  · split at h
    · cases h
    · rw [← Option.some.inj h]
      exact Or.inr rfl

theorem runId_push {received : List RunEvent} {runId : String}
    (hrun : ∀ e ∈ received ++ queue.events, e.runId = runId) (hevent : event.runId = runId) :
    ∀ e ∈ received ++ (queue.push event).events, e.runId = runId := by
  intro e he
  rcases kept_pushAll received queue event with
    ⟨-, -, hkept⟩ | ⟨front, last, -, -, -, hkept⟩ | ⟨front, prev, last, hfront, -, hkept⟩
  · rw [hkept] at he
    rcases List.mem_append.mp he with he | he
    · exact hrun e he
    · rw [List.mem_singleton.mp he]
      exact hevent
  · rw [hkept] at he
    exact hrun e he
  · rw [hfront] at hrun
    rw [hkept] at he
    rcases List.mem_append.mp he with he | he
    · exact hrun e (List.mem_append_left _ he)
    · rcases List.mem_cons.mp he with rfl | he
      · exact hrun e (List.mem_append_right _ List.mem_cons_self)
      · rw [List.mem_singleton.mp he]
        exact hevent

theorem length_places (queue : EventQueue) (event : RunEvent) :
    (queue.places event).toList.length ≤ 1 := by
  cases queue.places event with
  | none => exact Nat.zero_le 1
  | some placed => exact Nat.le_refl 1

/-- **There is room for the next gap**, with its larger number. -/
theorem room_succ {kind : RunEventKind} (hid : validId route.runId = true)
    (hpos : 0 < route.nextSequence.toNat)
    (htotal : route.totalBytes ≤ (route.nextSequence.toNat - 1) * maxRunEventBytes)
    (hfits : route.exhausted kind = false)
    (hroom : route.nextSequence = 99 → route.totalBytes + serializedLen (route.event kind) +
      serializedLen (route.event (.gap .limitExceeded)) ≠ maxRunEventTotalBytes) :
    route.totalBytes + serializedLen (route.event kind) +
      serializedLen ⟨route.runId, route.nextSequence + 1, .gap .limitExceeded⟩ ≤
        maxRunEventTotalBytes := by
  obtain ⟨hlt, hsmall, hfits⟩ := of_not_exhausted hfits
  have hsucc := toNat_succ hlt
  have hgap := serializedLen_eq (route.event (.gap .limitExceeded))
  have hnext := serializedLen_eq ⟨route.runId, route.nextSequence + 1, .gap .limitExceeded⟩
  dsimp only [Route.event] at hgap hnext
  rw [hsucc] at hnext
  rcases intSize_succ hpos hlt with hsame | hnine | hninetynine
  · rw [hsame] at hnext
    dsimp only [Route.event] at hfits ⊢
    omega
  · -- nine events are far from the bound
    have hfar : serializedLen ⟨route.runId, route.nextSequence + 1, .gap .limitExceeded⟩ ≤ 843 := by
      refine serializedLen_gap_le hid ?_
      dsimp only
      rw [hsucc]
      exact hlt
    rw [hnine] at htotal
    simp only [maxRunEventBytes, maxRunEventTotalBytes] at htotal hsmall ⊢
    omega
  · have hdigits : intSize (99 + 1 : ℕ) = intSize (99 : ℕ) + 1 := by decide
    have hne := hroom (UInt32.toNat_inj.mp hninetynine)
    rw [hninetynine] at hnext hgap
    rw [hdigits] at hnext
    dsimp only [Route.event] at hfits hne ⊢
    omega

theorem Budget.push (h : s.Budget) {kind : RunEventKind} (hroom : s.LeavesRoom (.push kind)) :
    (s.push kind).Budget := by
  -- what is put into the queue is the event that is sent, or a gap
  have hsmall : ∀ {event : RunEvent},
      (event.kind.isGap = false → serializedLen event ≤ maxRunEventBytes) →
      ∀ e ∈ s.placed ++ (s.queue.places event).toList, e.kind.isGap = false →
        serializedLen e ≤ maxRunEventBytes := by
    intro event hevent e he hgap
    rcases List.mem_append.mp he with he | he
    · exact h.small e he hgap
    · rcases places_cases (Option.mem_toList.mp he) with rfl | htrue
      · exact hevent hgap
      · exact Bool.noConfusion (htrue.symm.trans hgap)
  have hlength : ∀ event : RunEvent, (s.placed ++ (s.queue.places event).toList).length ≤
      s.placed.length + 1 := by
    intro event
    rw [List.length_append]
    exact Nat.add_le_add_left (length_places _ _) _
  rw [RunStream.push]
  rcases push_cases s.route kind with ⟨hsaturated, heq⟩ | ⟨hopen, -, heq⟩ | ⟨hopen, hfits, heq⟩
  · rw [heq]
    have hnone : s.placed ++ ((none : Option RunEvent).bind s.queue.places).toList = s.placed :=
      List.append_nil _
    dsimp only
    rw [hnone]
    exact ⟨h.id, h.pos, h.bound, h.total, h.placed, h.small, h.run,
      fun ho => Bool.noConfusion (hsaturated.symm.trans ho), h.fits⟩
  · rw [heq]
    have hplaced := h.placed.resolve_right fun hs => Bool.noConfusion (hopen.symm.trans hs.1)
    have hsent := bytes_push s.received s.queue (s.route.event (.gap .limitExceeded)) h.run
    have hbefore := h.room hopen
    refine ⟨h.id, h.pos, h.bound, h.total, Or.inr ⟨rfl, ?_⟩, hsmall nofun,
      runId_push h.run rfl, nofun, ?_⟩
    · exact Nat.le_trans (hlength _) hplaced
    · change bytes (s.received ++ s.queue.events) ≤ _ ∧ _ at hbefore
      change bytes (s.received ++ (s.queue.push _).events) ≤ _
      omega
  · rw [heq]
    obtain ⟨hlt, hevent, -⟩ := of_not_exhausted hfits
    have hplaced := h.placed.resolve_right fun hs => Bool.noConfusion (hopen.symm.trans hs.1)
    have hsent := bytes_push s.received s.queue (s.route.event kind) h.run
    have hbefore := h.room hopen
    have hnext := room_succ h.id h.pos h.total hfits (hroom hopen)
    have hsucc := toNat_succ hlt
    have htotal := h.total
    have hpos := h.pos
    have hkept : bytes (s.received ++ (s.queue.push (s.route.event kind)).events) ≤
        s.route.totalBytes + serializedLen (s.route.event kind) := by
      change bytes (s.received ++ s.queue.events) ≤ _ ∧ _ at hbefore
      omega
    refine ⟨h.id, ?_, ?_, ?_, Or.inl ?_, hsmall fun _ => hevent, runId_push h.run rfl,
      fun _ => ⟨hkept, hnext⟩, ?_⟩
    · dsimp only
      omega
    · dsimp only
      omega
    · dsimp only
      rw [hsucc, Nat.add_sub_cancel]
      obtain ⟨n, hn⟩ := Nat.exists_eq_succ_of_ne_zero (Nat.ne_of_gt hpos)
      rw [hn, Nat.succ_sub_one] at htotal
      rw [hn, Nat.succ_mul]
      exact Nat.add_le_add htotal hevent
    · have hle := hlength (s.route.event kind)
      dsimp only [Option.bind_some]
      omega
    · exact Nat.le_trans hkept (Nat.le_of_add_right_le hnext)

theorem Budget.tryRecv (h : s.Budget) : s.tryRecv.Budget := by
  refine ⟨h.id, h.pos, h.bound, h.total, h.placed, h.small, ?_, ?_, ?_⟩
  · rw [kept_tryRecv]
    exact h.run
  · rw [kept_tryRecv]
    exact h.room
  · rw [kept_tryRecv]
    exact h.fits

/-- **One step keeps the budget.** -/
theorem Budget.step (h : s.Budget) (hroom : s.LeavesRoom e) : (s.step e).Budget := by
  cases e with
  | push kind => exact h.push hroom
  | tryRecv => exact h.tryRecv

theorem budget_prepared {runId threadId : String} (hid : validId runId = true) :
    (prepared router identity runId threadId).Budget where
  id := hid
  pos := (by decide : 0 < (1 : UInt32).toNat)
  bound := (by decide : (1 : UInt32).toNat ≤ maxRunEvents)
  total := Nat.zero_le _
  placed := Or.inl (by decide : 0 + 1 ≤ (1 : UInt32).toNat)
  small := nofun
  run := nofun
  room _ := by
    refine ⟨Nat.le_refl 0, ?_⟩
    have hgap : serializedLen ⟨runId, 1, .gap .limitExceeded⟩ ≤ 843 :=
      serializedLen_gap_le hid (by decide : (1 : UInt32).toNat ≤ maxRunEvents)
    change 0 + serializedLen ⟨runId, 1, .gap .limitExceeded⟩ ≤ 16 * 1024
    omega
  fits := Nat.zero_le _

/-- If the worker keeps up, everything that was put into the queue is kept. -/
theorem placed_step (h : s.placed = s.kept) (hkeeps : s.KeepsUp e) :
    (s.step e).placed = (s.step e).kept := by
  cases e with
  | tryRecv =>
    rw [step, kept_tryRecv]
    exact h
  | push kind =>
    change s.queue.events.length < eventQueueCapacity at hkeeps
    change (s.push kind).placed = (s.push kind).kept
    rw [RunStream.push, kept]
    dsimp only
    cases hsent : (s.route.push kind).2 with
    | none =>
      rw [Option.bind_none, Option.toList_none, List.append_nil]
      exact h
    | some event =>
      rw [Option.bind_some, EventQueue.pushAll, EventQueue.push, EventQueue.places,
        if_pos hkeeps, if_pos hkeeps, h, kept, List.append_assoc]
      rfl

/-- A step counts one event more at most, and leaves one more waiting at most. -/
theorem step_le (s : RunStream) (e : RunStreamStep) :
    (s.step e).route.nextSequence.toNat ≤ s.route.nextSequence.toNat + 1 ∧
      (s.step e).queue.events.length ≤ s.queue.events.length + 1 := by
  cases e with
  | tryRecv =>
    refine ⟨Nat.le_succ _, ?_⟩
    change s.queue.events.tail.length ≤ _
    rw [List.length_tail]
    omega
  | push kind =>
    change (s.route.push kind).1.nextSequence.toNat ≤ _ ∧
      (s.queue.pushAll (s.route.push kind).2).events.length ≤ _
    constructor
    · rcases push_cases s.route kind with ⟨-, hpush⟩ | ⟨-, -, hpush⟩ | ⟨-, hexhausted, hpush⟩
      · rw [hpush]
        exact Nat.le_succ _
      · rw [hpush]
        exact Nat.le_succ _
      · rw [hpush]
        exact (toNat_succ (of_not_exhausted hexhausted).1).le
    · cases (s.route.push kind).2 with
      | none => exact Nat.le_succ _
      | some event =>
        rcases kept_pushAll [] s.queue event with ⟨-, -, hevents⟩ | ⟨_, _, -, -, -, hevents⟩ |
          ⟨front, prev, last, hqueue, -, hevents⟩
        · rw [List.nil_append, List.nil_append] at hevents
          rw [EventQueue.pushAll, hevents, List.length_append, List.length_singleton]
        · rw [List.nil_append, List.nil_append] at hevents
          rw [EventQueue.pushAll, hevents]
          exact Nat.le_succ _
        · rw [List.nil_append] at hevents hqueue
          rw [EventQueue.pushAll, hevents, hqueue, List.length_append, List.length_append]
          exact Nat.le_succ _

/-- **A short run leaves room, and its worker keeps up.** -/
theorem along_of_short {steps : List RunStreamStep}
    (hcounted : s.route.nextSequence.toNat + steps.length ≤ 99)
    (hwaiting : s.queue.events.length + steps.length ≤ eventQueueCapacity) :
    Run.Along step LeavesRoom s steps ∧ Run.Along step KeepsUp s steps := by
  induction steps generalizing s with
  | nil => exact ⟨trivial, trivial⟩
  | cons e steps ih =>
    obtain ⟨hnext, hlength⟩ := s.step_le e
    rw [List.length_cons] at hcounted hwaiting
    obtain ⟨hleaves, hkeeps⟩ := ih (s := s.step e) (by omega) (by omega)
    refine ⟨⟨?_, hleaves⟩, ⟨?_, hkeeps⟩⟩
    · cases e with
      | tryRecv => trivial
      | push kind =>
        intro _ hlast
        rw [hlast] at hcounted
        exact absurd hcounted (by rw [show (99 : UInt32).toNat = 99 from rfl]; omega)
    · cases e with
      | tryRecv => trivial
      | push kind =>
        change s.queue.events.length < eventQueueCapacity
        omega

/-- **The events of a run are bounded.** In every order of the pushes on a route and of the steps
of its worker, along which every push leaves room for the gap after it: at most 128 events are
ever put into the queue, the gap at the end included; each of them that is not a gap takes at
most 512 bytes; and those that were received or are waiting take at most 16 KiB. As long as the
worker keeps up these are all that were ever put into the queue. -/
theorem run_events_are_bounded (router : EventRouter) (identity : ConnectionIdentity)
    (runId threadId : String) (hid : validId runId = true) (steps : List RunStreamStep)
    (hroom : Run.Along step LeavesRoom (prepared router identity runId threadId) steps) :
    let s := Run.after step (prepared router identity runId threadId) steps
    s.placed.length ≤ maxRunEvents ∧
    (∀ event ∈ s.placed, event.kind.isGap = false → serializedLen event ≤ maxRunEventBytes) ∧
    bytes (s.received ++ s.queue.events) ≤ maxRunEventTotalBytes ∧
    (Run.Along step KeepsUp (prepared router identity runId threadId) steps →
      bytes s.placed ≤ maxRunEventTotalBytes) := by
  intro s
  have h : s.Budget := Run.invariant_along (I := Budget) (fun _ _ hs hallowed => hs.step hallowed)
    (budget_prepared router identity hid) hroom
  refine ⟨?_, h.small, h.fits, fun hkeeps => ?_⟩
  · have hbound := h.bound
    rcases h.placed with hle | ⟨-, hle⟩
    · omega
    · omega
  · have hplaced : s.placed = s.kept := Run.invariant_along (I := fun s => s.placed = s.kept)
      (fun _ _ hs hallowed => placed_step hs hallowed) rfl hkeeps
    rw [hplaced]
    exact h.fits

theorem run_events_are_bounded_for_one_turn :
    let start := prepared ⟨1, 1, [], fun _ => none⟩ 1 "run-1" "thread-1"
    let s := Run.after step start [.push .running, .tryRecv, .push .completed]
    s.placed.length ≤ maxRunEvents ∧
    (∀ event ∈ s.placed, event.kind.isGap = false → serializedLen event ≤ maxRunEventBytes) ∧
    bytes (s.received ++ s.queue.events) ≤ maxRunEventTotalBytes ∧
    bytes s.placed ≤ maxRunEventTotalBytes := by
  intro start s
  have hshort : Run.Along step LeavesRoom start [.push .running, .tryRecv, .push .completed] ∧
      Run.Along step KeepsUp start [.push .running, .tryRecv, .push .completed] :=
    along_of_short (by decide) (by decide)
  obtain ⟨hlength, hsmall, hkept, hplaced⟩ := run_events_are_bounded ⟨1, 1, [], fun _ => none⟩ 1
    "run-1" "thread-1" (by decide) _ hshort.1
  exact ⟨hlength, hsmall, hkept, hplaced hshort.2⟩

/-! ### Runs that exceed the budget

What a run does depends on the sizes of its events only. A meter keeps the sizes and
computes with them. -/

/-- The size of an event of a run, from the size of the id of the run and its number. -/
def eventLen (quote n : ℕ) (kind : RunEventKind) : ℕ :=
  30 + quote + intSize n + kindLen kind

/-- **The sizes of a run**: the next number, the bytes that the route counts, whether it is
saturated, the bytes ever put into the queue, the bytes received, and the sizes of the events that
are waiting, each with whether it is a gap. -/
structure Meter where
  next : ℕ := 1
  total : ℕ := 0
  saturated : Bool := false
  placed : ℕ := 0
  received : ℕ := 0
  queue : List (ℕ × Bool) := []

namespace Meter

/-- An event goes into the queue. -/
def enqueue (m : Meter) (quote n : ℕ) (kind : RunEventKind) : Meter :=
  if m.queue.length < eventQueueCapacity then
    { m with
      placed := m.placed + eventLen quote n kind
      queue := m.queue ++ [(eventLen quote n kind, kind.isGap)] }
  else if m.queue.getLast?.any fun last => last.2 then m
  else
    { m with
      placed := m.placed + eventLen quote n (.gap .observerLagged)
      queue := m.queue.dropLast ++ [(eventLen quote n (.gap .observerLagged), true)] }

def exhausted (m : Meter) (quote : ℕ) (kind : RunEventKind) : Bool :=
  decide (maxRunEvents ≤ m.next) || decide (maxRunEventBytes < eventLen quote m.next kind) ||
    decide (maxRunEventTotalBytes < m.total + eventLen quote m.next kind +
      eventLen quote m.next (.gap .limitExceeded))

def step (quote : ℕ) (m : Meter) : RunStreamStep → Meter
  | .push kind =>
    if m.saturated then m
    else if m.exhausted quote kind then
      { m with saturated := true }.enqueue quote m.next (.gap .limitExceeded)
    else
      { m with next := m.next + 1, total := m.total + eventLen quote m.next kind }.enqueue
        quote m.next kind
  | .tryRecv =>
    { m with
      received := m.received + (m.queue.head?.map Prod.fst).getD 0
      queue := m.queue.tail }

end Meter

/-- **The meter shows the sizes of the run.** -/
structure Measures (s : RunStream) (quote : ℕ) (m : Meter) : Prop where
  quote : quoteSize s.route.runId = quote
  next : s.route.nextSequence.toNat = m.next
  total : s.route.totalBytes = m.total
  saturated : s.route.saturated = m.saturated
  placed : bytes s.placed = m.placed
  received : bytes s.received = m.received
  queue : s.queue.events.map (fun event => (serializedLen event, event.kind.isGap)) = m.queue

variable {quote : ℕ} {m : Meter} {kind : RunEventKind}

theorem Measures.serializedLen_event (h : s.Measures quote m) (kind : RunEventKind) :
    serializedLen (s.route.event kind) = eventLen quote m.next kind := by
  rw [serializedLen_eq, size_kind]
  dsimp only [Route.event]
  rw [h.quote, h.next]
  rfl

theorem Measures.exhausted (h : s.Measures quote m) (kind : RunEventKind) :
    s.route.exhausted kind = m.exhausted quote kind := by
  rw [Route.exhausted, Meter.exhausted, h.serializedLen_event, h.serializedLen_event, h.next,
    h.total]

/-- **An event goes into the queue**, on the run and on the meter. -/
theorem Measures.enqueue (h : s.Measures quote m)
    (hlen : serializedLen event = eventLen quote n event.kind)
    (hgap : serializedLen { event with kind := .gap .observerLagged } =
      eventLen quote n (.gap .observerLagged)) (pushed : List RunEventKind) :
    Measures
      { s with
        queue := s.queue.push event
        pushed := pushed
        placed := s.placed ++ (s.queue.places event).toList } quote
          (m.enqueue quote n event.kind) := by
  have hlength : s.queue.events.length = m.queue.length := by
    rw [← h.queue, List.length_map]
  have hlast : (s.queue.events.getLast?.any fun last => last.kind.isGap) =
      m.queue.getLast?.any fun last => last.2 := by
    rw [← h.queue, List.getLast?_map, Option.any_map]
  rw [EventQueue.push, EventQueue.places, Meter.enqueue, hlength, hlast]
  split
  · refine ⟨h.quote, h.next, h.total, h.saturated, ?_, h.received, ?_⟩
    · rw [Option.toList_some, bytes_append, bytes_singleton, h.placed, hlen]
    · rw [List.map_append, h.queue, List.map_singleton, hlen]
  · split
    · refine ⟨h.quote, h.next, h.total, h.saturated, ?_, h.received, h.queue⟩
      rw [Option.toList_none, List.append_nil, h.placed]
    · refine ⟨h.quote, h.next, h.total, h.saturated, ?_, h.received, ?_⟩
      · rw [Option.toList_some, bytes_append, bytes_singleton, h.placed, hgap]
      · rw [List.map_append, List.map_dropLast, h.queue, List.map_singleton, hgap]
        rfl

theorem Measures.push (h : s.Measures quote m) (kind : RunEventKind) :
    (s.push kind).Measures quote (m.step quote (.push kind)) := by
  rw [RunStream.push, Meter.step, ← h.exhausted]
  rcases push_cases s.route kind with ⟨hsaturated, hpush⟩ | ⟨hopen, hexhausted, hpush⟩ |
    ⟨hopen, hexhausted, hpush⟩
  · rw [hpush, if_pos (h.saturated.symm.trans hsaturated), Option.bind_none, Option.toList_none,
      List.append_nil]
    exact ⟨h.quote, h.next, h.total, h.saturated, h.placed, h.received, h.queue⟩
  · rw [hpush, if_neg (Bool.eq_false_iff.mp (h.saturated.symm.trans hopen)), if_pos hexhausted,
      Option.bind_some]
    have hmarked : Measures { s with route := { s.route with saturated := true } } quote
        { m with saturated := true } :=
      ⟨h.quote, h.next, h.total, rfl, h.placed, h.received, h.queue⟩
    exact hmarked.enqueue (h.serializedLen_event _) (h.serializedLen_event (.gap .observerLagged)) _
  · rw [hpush, if_neg (Bool.eq_false_iff.mp (h.saturated.symm.trans hopen)),
      if_neg (Bool.eq_false_iff.mp hexhausted), Option.bind_some]
    have hsent : Measures
        { s with
          route :=
            { s.route with
              nextSequence := s.route.nextSequence + 1
              totalBytes := s.route.totalBytes + serializedLen (s.route.event kind) } } quote
        { m with next := m.next + 1, total := m.total + eventLen quote m.next kind } := by
      refine ⟨h.quote, ?_, ?_, h.saturated, h.placed, h.received, h.queue⟩
      · dsimp only
        rw [toNat_succ (of_not_exhausted hexhausted).1, h.next]
      · dsimp only
        rw [h.total, h.serializedLen_event]
    exact hsent.enqueue (h.serializedLen_event kind)
      (h.serializedLen_event (.gap .observerLagged)) (s.pushed ++ [kind])

theorem Measures.tryRecv (h : s.Measures quote m) :
    s.tryRecv.Measures quote (m.step quote .tryRecv) := by
  refine ⟨h.quote, h.next, h.total, h.saturated, h.placed, ?_, ?_⟩
  · dsimp only [RunStream.tryRecv, Meter.step]
    rw [bytes_append, h.received, ← h.queue, List.head?_map, Option.map_map]
    cases s.queue.events.head? with
    | none => rfl
    | some event => rw [Option.toList_some, bytes_singleton]; rfl
  · dsimp only [RunStream.tryRecv, Meter.step]
    rw [← h.queue, List.map_tail]

/-- **The meter follows every run.** -/
theorem Measures.after (h : s.Measures quote m) (steps : List RunStreamStep) :
    (Run.after step s steps).Measures quote (Run.after (Meter.step quote) m steps) := by
  induction steps generalizing s m with
  | nil => exact h
  | cons e steps ih =>
    refine ih ?_
    cases e with
    | push kind => exact h.push kind
    | tryRecv => exact h.tryRecv

theorem measures_prepared (runId threadId : String) :
    (prepared router identity runId threadId).Measures (quoteSize runId) {} :=
  ⟨rfl, rfl, rfl, rfl, rfl, rfl, rfl⟩

/-- Every event is received as soon as it was pushed. -/
def promptly (kinds : List RunEventKind) : List RunStreamStep :=
  kinds.flatMap fun kind => [.push kind, .tryRecv]

/-- An id of plain letters. -/
def letters (n : ℕ) : String := String.ofList (List.replicate n 'r')

theorem quoteSize_letters (n : ℕ) : quoteSize (letters n) = 2 + n := by
  rw [letters, Json.quoteSize_replicate]
  exact congrArg (2 + ·) (Nat.mul_one n)

/-- A run whose worker receives every event at once. -/
def promptRun : RunStream :=
  Run.after step (prepared ⟨1, 1, [], fun _ => none⟩ 1 (letters 105) "thread-1")
    (promptly (List.replicate 84 .waitingApproval ++ List.replicate 16 .running))

/-- A run whose worker receives one event for two that are pushed. -/
def laggingRun : RunStream :=
  Run.after step (prepared ⟨1, 1, [], fun _ => none⟩ 1 (letters 70) "thread-1")
    (List.replicate 8 (.push .running) ++
      (List.replicate 59 [.push .running, .tryRecv, .push .running]).flatten)

/-- **Two runs exceed the bytes of a run.** The bytes of the first are full to the last one when
its next number gets a third digit, and the gap that ends it takes one more. On the second no
limit of the route is met, and the queue takes more gaps than the route has counted. -/
theorem runs_exceed_the_budget :
    validId (letters 105) = true ∧ validId (letters 70) = true ∧
    promptRun.queue.events = [] ∧
    bytes promptRun.received = maxRunEventTotalBytes + 1 ∧
    bytes promptRun.placed = maxRunEventTotalBytes + 1 ∧
    laggingRun.route.saturated = false ∧
    bytes laggingRun.placed = maxRunEventTotalBytes + 304 := by
  have hprompt := (measures_prepared ⟨1, 1, [], fun _ => none⟩ 1 (letters 105) "thread-1").after
    (promptly (List.replicate 84 .waitingApproval ++ List.replicate 16 .running))
  have hlagging := (measures_prepared ⟨1, 1, [], fun _ => none⟩ 1 (letters 70) "thread-1").after
    (List.replicate 8 (.push .running) ++
      (List.replicate 59 [.push .running, .tryRecv, .push .running]).flatten)
  rw [quoteSize_letters] at hprompt hlagging
  refine ⟨by decide +kernel, by decide +kernel, List.map_eq_nil_iff.mp (hprompt.queue.trans ?_),
    hprompt.received.trans ?_, hprompt.placed.trans ?_, hlagging.saturated.trans ?_,
    hlagging.placed.trans ?_⟩
  all_goals decide +kernel

end RunStream

end Rivloom.AppServer
