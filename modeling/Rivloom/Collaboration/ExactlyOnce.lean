import Rivloom.Lib.Run
import Rivloom.Collaboration.BrainCodec

/-!
# A message is applied exactly once

A node that does not hear back sends its message again, perhaps with another id, another
time or another revision, and cannot know whether the first copy arrived. The Brain
remembers what it applied by the sender, the key and the hash of the payload. This file
follows all calls of one run – of any number of nodes, with any other operations and
restarts between them – and shows that the memory does what it is for.

The argument is one fact about the memory and one about a call. What is remembered under
a sender and a key is never forgotten or replaced
(`Rivloom.Collaboration.Brain.Remembers.step`); and a call changes something only if
nothing is remembered under its key, and then remembers itself with the revision it
answers (`Rivloom.Collaboration.ApplyCall.Outcome`).
-/

namespace Rivloom.Collaboration

variable {record : ReplayRecord} {senderNodeId key : String} {b : Brain} {events : List BrainEvent}
  {now : ℤ}

namespace Brain

/-! ### The memory -/

/-- What is remembered under a sender and a key. -/
def Remembers (b : Brain) (senderNodeId key : String) (record : ReplayRecord) : Prop :=
  b.findReplay senderNodeId key = some record

theorem Remembers.of_prefix {b b' : Brain} (h : b.Remembers senderNodeId key record)
    (hlonger : b.replays <+: b'.replays) : b'.Remembers senderNodeId key record := by
  obtain ⟨rest, hrest⟩ := hlonger
  rw [Remembers, findReplay] at h ⊢
  rw [← hrest, List.find?_append, h, Option.some_or]

theorem Change.replays_prefix {b b' : Brain} (h : Change now b b') : b.replays <+: b'.replays := by
  cases h with
  | announced | submitted => exact List.prefix_append _ _
  | _ => exact List.prefix_refl _

theorem Residue.replays_prefix {b b' : Brain} (h : Residue now b b') :
    b.replays <+: b'.replays := by
  cases h <;> exact List.prefix_refl _

theorem replays_prefix_run (op : BrainOp) (now : ℤ) (b : Brain) :
    b.replays <+: (op.run now b).2.replays := by
  rcases op.changed_or_refused now b with ⟨-, credentials, invitations, -, -, hchange⟩ |
    ⟨b₀, ⟨clock, credentials, invitations, -, -, -, rfl⟩, hresidue⟩
  · exact hchange.replays_prefix
  · exact hresidue.replays_prefix

/-- **What is remembered stays remembered**, through operations and restarts. -/
theorem Remembers.step (h : b.Remembers senderNodeId key record) (hregistries : b.Registries)
    (event : BrainEvent) : (b.step event).Remembers senderNodeId key record := by
  cases event with
  | op op now => exact h.of_prefix (replays_prefix_run op now b)
  | restart =>
    rw [Brain.step, hregistries.restart]
    exact h

/-- Some member, node or task, or the revision, differs. -/
def Differs (b b' : Brain) : Prop :=
  b'.members ≠ b.members ∨ b'.nodes ≠ b.nodes ∨ b'.tasks ≠ b.tasks ∨ b'.revision ≠ b.revision

theorem ClocksOnly.not_differs {b b' : Brain} (h : ClocksOnly b b') : ¬Differs b b' := by
  obtain ⟨clock, credentials, invitations, rfl⟩ := h
  rintro (hd | hd | hd | hd) <;> exact hd rfl

end Brain

/-! ### Calls -/

/-- A call that applies a message, with the Brain it finds. -/
structure ApplyCall where
  session : ConnectionIdentity
  message : Message
  now : ℤ
  before : Brain

variable {c : ApplyCall}

namespace ApplyCall

/-- What the call returns. -/
def result (c : ApplyCall) : Except BrainError ℕ :=
  (Brain.apply c.session c.message c.now c.before).1

/-- The Brain that the call leaves. -/
def after (c : ApplyCall) : Brain := (Brain.apply c.session c.message c.now c.before).2

/-- Two calls under one sender and one key. -/
def SameKey (c c' : ApplyCall) : Prop :=
  c.message.admission.senderNodeId = c'.message.admission.senderNodeId ∧
    c.message.admission.key = c'.message.admission.key

/-- The call changes something. -/
def Changes (c : ApplyCall) : Prop := Brain.Differs c.before c.after

/-- What the Brain that the call finds remembers under its sender and key. -/
def Recalls (c : ApplyCall) (record : ReplayRecord) : Prop :=
  c.before.Remembers c.message.admission.senderNodeId c.message.admission.key record

/-- **How a call ends**: it is answered from memory, it conflicts with the memory, it is
applied and remembered, or it fails. -/
inductive Outcome (c : ApplyCall) : Prop
  | replay (record : ReplayRecord) (hfound : c.Recalls record)
      (hsame : record.fingerprint = c.message.payloadHash)
      (hresult : c.result = .ok record.revision) (hafter : Brain.ClocksOnly c.before c.after)
  | conflict (record : ReplayRecord) (hfound : c.Recalls record)
      (hother : record.fingerprint ≠ c.message.payloadHash)
      (hresult : c.result = .error .conflict) (hafter : Brain.ClocksOnly c.before c.after)
  | applied (hnew : c.before.findReplay c.message.admission.senderNodeId c.message.admission.key =
        none) (hresult : c.result = .ok (c.before.revision + 1))
      (hrevision : c.after.revision = c.before.revision + 1)
      (hreplays : c.after.replays = c.before.replays ++ [c.before.replayOf c.message])
  | failed (e : BrainError) (hresult : c.result = .error e)
      (hafter : Brain.ClocksOnly c.before c.after)
      (hrecalls : c.before.Admits c.session c.now → c.before.Addressed c.session c.message →
        c.before.findReplay c.message.admission.senderNodeId c.message.admission.key = none)

/-- **Every call ends in one of these ways.** -/
theorem outcome (c : ApplyCall) : c.Outcome := by
  have hspec : Action.wp (Brain.apply c.session c.message c.now)
      (fun r b' => r = c.result → b' = c.after → c.Outcome) c.before := by
    refine Brain.wp_apply (fun record hadmits haddressed hfound hsame hr hb => ?_)
      (fun record hadmits haddressed hfound hother hr hb => ?_)
      (fun node hadmits hcan hpayload hnode hr hb => ?_)
      (fun taskId hadmits hcan hpayload hnew hroom hr hb => ?_)
      fun e b' hobs hnone hr hb => ?_
    · rw [← haddressed.2] at hfound
      exact .replay record hfound hsame hr.symm ⟨_, _, _, hb.symm⟩
    · rw [← haddressed.2] at hfound
      exact .conflict record hfound hother hr.symm ⟨_, _, _, hb.symm⟩
    · have hnew := hcan.new
      rw [← hcan.addressed.2] at hnew
      exact .applied hnew hr.symm (by rw [← hb]; rfl) (by rw [← hb]; rfl)
    · have hnew := hcan.new
      rw [← hcan.addressed.2] at hnew
      exact .applied hnew hr.symm (by rw [← hb]; rfl) (by rw [← hb]; rfl)
    · obtain ⟨clock, credentials, invitations, -, -, -, rfl⟩ := hobs
      refine .failed e hr.symm ⟨_, _, _, hb.symm⟩ fun hadmits haddressed => ?_
      rw [haddressed.2]
      exact hnone hadmits haddressed
  exact hspec rfl rfl

theorem clocksOnly_of_recalls (h : c.Recalls record) : Brain.ClocksOnly c.before c.after := by
  cases c.outcome with
  | replay _ _ _ _ hafter | conflict _ _ _ _ hafter | failed _ _ hafter _ => exact hafter
  | applied hnew => cases hnew.symm.trans h

/-- A call that changes something found nothing under its key, and remembers itself. -/
theorem remembers_of_changes (h : c.Changes) :
    c.result = .ok (c.before.revision + 1) ∧ c.after.revision = c.before.revision + 1 ∧
      c.after.Remembers c.message.admission.senderNodeId c.message.admission.key
        (c.before.replayOf c.message) := by
  cases c.outcome with
  | replay _ _ _ _ hafter | conflict _ _ _ _ hafter | failed _ _ hafter _ =>
    exact absurd h hafter.not_differs
  | applied hnew hresult hrevision hreplays =>
    refine ⟨hresult, hrevision, ?_⟩
    rw [Brain.Remembers, Brain.findReplay, hreplays, List.find?_append]
    rw [Brain.findReplay] at hnew
    rw [hnew, Option.none_or]
    simp [Brain.replayOf]

/-- What is remembered after a call was remembered before, or is the call. -/
theorem remembers_after (h : c.after.Remembers senderNodeId key record) :
    c.before.Remembers senderNodeId key record ∨
      (c.Changes ∧ (c.message.admission.senderNodeId = senderNodeId ∧
        c.message.admission.key = key) ∧ record = c.before.replayOf c.message) := by
  cases c.outcome with
  | replay _ _ _ _ hafter | conflict _ _ _ _ hafter | failed _ _ hafter _ =>
    obtain ⟨clock, credentials, invitations, heq⟩ := hafter
    rw [heq] at h
    exact Or.inl h
  | applied hnew hresult hrevision hreplays =>
    rw [Brain.Remembers, Brain.findReplay, hreplays, List.find?_append, Option.or_eq_some_iff] at h
    refine h.imp_right ?_
    rintro ⟨_, hfound⟩
    have hrecord := List.mem_singleton.mp (List.mem_of_find?_eq_some hfound)
    have hkey := List.find?_some hfound
    rw [hrecord] at hkey
    simp only [Brain.replayOf, Bool.and_eq_true, beq_iff_eq] at hkey
    exact ⟨Or.inr (Or.inr (Or.inr (by rw [hrevision]; exact Nat.succ_ne_self _))), hkey, hrecord⟩

/-- A call that is answered leaves its answer remembered, and either it found it there or
it was applied. -/
theorem remembers_of_ok {revision : ℕ} (h : c.result = .ok revision) :
    ∃ record, c.after.Remembers c.message.admission.senderNodeId c.message.admission.key record ∧
      record.revision = revision ∧
          (c.Recalls record ∨ (c.Changes ∧ c.after.revision = revision)) := by
  cases c.outcome with
  | replay record hfound hsame hresult hafter =>
    obtain rfl := Except.ok.inj (hresult.symm.trans h)
    obtain ⟨clock, credentials, invitations, heq⟩ := hafter
    exact ⟨record, by rw [heq]; exact hfound, rfl, Or.inl hfound⟩
  | conflict record hfound hother hresult hafter => cases hresult.symm.trans h
  | applied hnew hresult hrevision hreplays =>
    obtain rfl := Except.ok.inj (hresult.symm.trans h)
    have hchanges : c.Changes :=
      Or.inr (Or.inr (Or.inr (by rw [hrevision]; exact Nat.succ_ne_self _)))
    exact ⟨_, (remembers_of_changes hchanges).2.2, rfl, Or.inr ⟨hchanges, hrevision⟩⟩
  | failed e hresult hafter hrecalls => cases hresult.symm.trans h

end ApplyCall

/-! ### Runs -/

/-- The calls that apply a message in a run, in order. -/
def applyCalls : Brain → List BrainEvent → List ApplyCall
  | _, [] => []
  | b, event :: events =>
    (match event with
      | .op (.apply session message) now => [⟨session, message, now, b⟩]
      | _ => []) ++ applyCalls (b.step event) events

theorem Brain.Remembers.before (h : b.Remembers senderNodeId key record)
    (hregistries : b.Registries) (hc : c ∈ applyCalls b events) :
    c.before.Remembers senderNodeId key record := by
  induction events generalizing b with
  | nil => cases hc
  | cons event events ih =>
    rcases List.mem_append.mp hc with hhead | hrest
    · split at hhead
      · rw [List.mem_singleton.mp hhead]
        exact h
      · cases hhead
    · exact ih (h.step hregistries event) (hregistries.step event) hrest

/-- **What one call leaves remembered, every later call finds.** -/
theorem pairwise_applyCalls (hregistries : b.Registries) (events : List BrainEvent) :
    (applyCalls b events).Pairwise fun c c' => ∀ senderNodeId key record,
      c.after.Remembers senderNodeId key record → c'.before.Remembers senderNodeId key record := by
  induction events generalizing b with
  | nil => exact List.Pairwise.nil
  | cons event events ih =>
    refine List.pairwise_append.mpr ⟨?_, ih (hregistries.step event), fun c hc c' hc' => ?_⟩
    · split
      · exact List.pairwise_singleton _ _
      · exact List.Pairwise.nil
    · intro senderNodeId key record hremembers
      split at hc
      · next session message now =>
        rw [List.mem_singleton.mp hc] at hremembers
        have hstep : b.step (.op (.apply session message) now) =
            ApplyCall.after ⟨session, message, now, b⟩ := Action.map_snd _ _ _
        rw [← hstep] at hremembers
        exact hremembers.before (hregistries.step _) hc'
      · cases hc

theorem Brain.replays_run {op : BrainOp} (hop : ∀ session message, op ≠ .apply session message) :
    (op.run now b).2.replays = b.replays := by
  have hspec := op.wp_run now b
  rw [Action.wp] at hspec
  generalize (op.run now b).1 = r at hspec
  generalize (op.run now b).2 = b' at hspec ⊢
  cases r with
  | ok reply =>
    cases (show BrainOp.Effect now b op reply b' from hspec) with
    | replayed | announced | submitted => exact absurd rfl (hop _ _)
    | served _ hreset _ => cases hreset <;> rfl
    | _ => rfl
  | error e =>
    obtain ⟨b₀, ⟨clock, credentials, invitations, -, -, -, rfl⟩, hresidue⟩ :
      Refused now b b' := hspec
    cases hresidue <;> rfl

/-- **What a call finds was remembered at the start, or by a call of the run.** -/
theorem recalls_origin (hregistries : b.Registries) (hc : c ∈ applyCalls b events)
    (h : c.Recalls record) :
    b.Remembers c.message.admission.senderNodeId c.message.admission.key record ∨
      ∃ c₀ ∈ applyCalls b events, c₀.SameKey c ∧ c₀.Changes ∧
        record = c₀.before.replayOf c₀.message := by
  induction events generalizing b with
  | nil => cases hc
  | cons event events ih =>
    rcases List.mem_append.mp hc with hhead | hrest
    · left
      split at hhead
      · rw [List.mem_singleton.mp hhead] at h ⊢
        exact h
      · cases hhead
    · rcases ih (hregistries.step event) hrest with hstart | ⟨c₀, hc₀, hc₀'⟩
      swap
      · exact Or.inr ⟨c₀, List.mem_append_right _ hc₀, hc₀'⟩
      -- the memory after the first event is the one before it, unless the event applied a message
      cases event with
      | restart =>
        rw [Brain.step, hregistries.restart] at hstart
        exact Or.inl hstart
      | op op now =>
        by_cases hop : ∀ session message, op ≠ .apply session message
        · rw [Brain.step, Brain.Remembers, Brain.findReplay, Brain.replays_run hop] at hstart
          exact Or.inl hstart
        · simp only [not_forall, not_not] at hop
          obtain ⟨session, message, rfl⟩ := hop
          have hstep : b.step (.op (.apply session message) now) =
              ApplyCall.after ⟨session, message, now, b⟩ := Action.map_snd _ _ _
          rw [hstep] at hstart
          refine (ApplyCall.remembers_after hstart).imp_right ?_
          rintro ⟨hchanges, hkey, hrecord⟩
          exact ⟨⟨session, message, now, b⟩, List.mem_append_left _ (List.mem_singleton_self _),
            hkey, hchanges, hrecord⟩

/-! ### Exactly once -/

namespace ApplyCall

/-- A call that is refused: it fails, and as a conflict if its session is served and its
message is addressed to this Brain by the node of the session. -/
def Refused (c : ApplyCall) : Prop :=
  (∃ e, c.result = .error e) ∧
    (c.before.Admits c.session c.now → c.before.Addressed c.session c.message →
      c.result = .error .conflict)

/-- Two calls under one key that are both answered get the same answer. -/
def Agree (c c' : ApplyCall) : Prop :=
  c.SameKey c' → ∀ revision revision', c.result = .ok revision → c'.result = .ok revision' →
    revision = revision'

instance : Std.Symm Agree :=
  ⟨fun _ _ h hkey _ _ hr hr' => (h ⟨hkey.1.symm, hkey.2.symm⟩ _ _ hr' hr).symm⟩

/-- A call that finds another payload remembered under its key is refused. -/
theorem refused_of_recalls (h : c.Recalls record)
    (hother : record.fingerprint ≠ c.message.payloadHash) : c.Refused := by
  cases c.outcome with
  | replay record' hfound hsame =>
    obtain rfl := Option.some.inj (hfound.symm.trans h)
    exact absurd hsame hother
  | conflict _ _ _ hresult => exact ⟨⟨_, hresult⟩, fun _ _ => hresult⟩
  | applied hnew => cases hnew.symm.trans h
  | failed e hresult hafter hrecalls =>
    refine ⟨⟨e, hresult⟩, fun hadmits haddressed => ?_⟩
    cases (hrecalls hadmits haddressed).symm.trans h

end ApplyCall

/-- **What exactly-once submission means** for the calls of a run that starts from a
Brain. -/
structure ExactlyOnce (b : Brain) (calls : List ApplyCall) : Prop where
  /-- Under one key at most one call changes anything. -/
  once : calls.Pairwise fun c c' => c.SameKey c' → c.Changes → ¬c'.Changes
  /-- An answer is the revision at which the message was applied, by a call of the run or
  before the run. -/
  answer : ∀ c ∈ calls, ∀ revision, c.result = .ok revision →
    (∃ c₀ ∈ calls, c₀.SameKey c ∧ c₀.Changes ∧ c₀.result = .ok revision ∧
      c₀.after.revision = revision) ∨
    ∃ record, b.Remembers c.message.admission.senderNodeId c.message.admission.key record ∧
      record.revision = revision
  /-- All answers under one key are the same. -/
  agree : ∀ c ∈ calls, ∀ c' ∈ calls, c.Agree c'
  /-- Once a message was applied, a call under its key moves nothing but clocks, and is
  refused if its payload has another hash. -/
  later : calls.Pairwise fun c c' => c.SameKey c' → c.Changes →
    Brain.ClocksOnly c'.before c'.after ∧
      (c'.message.payloadHash ≠ c.message.payloadHash → c'.Refused)
  /-- The same for what was applied before the run. -/
  earlier : ∀ c ∈ calls, ∀ record,
    b.Remembers c.message.admission.senderNodeId c.message.admission.key record →
    Brain.ClocksOnly c.before c.after ∧
      (record.fingerprint ≠ c.message.payloadHash → c.Refused)

/-- **A message is applied exactly once**, however the calls of any number of nodes are
interleaved with each other, with the other operations and with restarts. -/
theorem applyCalls_exactlyOnce {b : Brain} (hb : b.Reachable) (events : List BrainEvent) :
    ExactlyOnce b (applyCalls b events) := by
  have hregistries := hb.registries
  have hpairwise := pairwise_applyCalls hregistries events
  -- what an applied message leaves behind, a later call under the same key finds
  have hrecalls : ∀ {c c' : ApplyCall}, (∀ senderNodeId key record,
      c.after.Remembers senderNodeId key record → c'.before.Remembers senderNodeId key record) →
      c.SameKey c' → c.Changes → c'.Recalls (c.before.replayOf c.message) := by
    intro c c' hlater hkey hchanges
    rw [ApplyCall.Recalls, ← hkey.1, ← hkey.2]
    exact hlater _ _ _ (ApplyCall.remembers_of_changes hchanges).2.2
  refine ⟨?_, fun c hc revision hresult => ?_, fun c hc c' hc' => ?_, ?_,
    fun c hc record hremembers => ?_⟩
  · refine hpairwise.imp fun hlater hkey hchanges => ?_
    exact (ApplyCall.clocksOnly_of_recalls (hrecalls hlater hkey hchanges)).not_differs
  · obtain ⟨record, -, rfl, hfound | ⟨hchanges, hrevision⟩⟩ := ApplyCall.remembers_of_ok hresult
    · rcases recalls_origin hregistries hc hfound with hstart | ⟨c₀, hc₀, hkey, hchanges, rfl⟩
      · exact Or.inr ⟨record, hstart, rfl⟩
      · obtain ⟨hresult₀, hrevision₀, -⟩ := ApplyCall.remembers_of_changes hchanges
        exact Or.inl ⟨c₀, hc₀, hkey, hchanges, hresult₀, hrevision₀⟩
    · exact Or.inl ⟨c, hc, ⟨rfl, rfl⟩, hchanges, hresult, hrevision⟩
  · have hagree : (applyCalls b events).Pairwise ApplyCall.Agree := by
      refine hpairwise.imp fun {c c'} hlater hkey revision revision' hr hr' => ?_
      obtain ⟨record, hremembers, rfl, -⟩ := ApplyCall.remembers_of_ok hr
      have hfound : c'.Recalls record := by
        rw [ApplyCall.Recalls, ← hkey.1, ← hkey.2]
        exact hlater _ _ _ hremembers
      cases c'.outcome with
      | replay record' hfound' _ hresult' =>
        obtain rfl := Option.some.inj (hfound'.symm.trans hfound)
        exact Except.ok.inj (hresult'.symm.trans hr')
      | conflict _ _ _ hresult' | failed _ hresult' => cases hresult'.symm.trans hr'
      | applied hnew => cases hnew.symm.trans hfound
    refine hagree.forall_of_forall (fun c _ _ r r' hr hr' => ?_) hc hc'
    exact Except.ok.inj (hr.symm.trans hr')
  · refine hpairwise.imp fun hlater hkey hchanges => ?_
    have hfound := hrecalls hlater hkey hchanges
    exact ⟨ApplyCall.clocksOnly_of_recalls hfound,
      fun hother => ApplyCall.refused_of_recalls hfound (Ne.symm hother)⟩
  · have hfound : c.Recalls record := hremembers.before hregistries hc
    exact ⟨ApplyCall.clocksOnly_of_recalls hfound, ApplyCall.refused_of_recalls hfound⟩

/-- A draft of a task for the small Brain. -/
def Brain.small.draft : Message where
  envelope :=
    ⟨1, "message", "key", "brain", "node", 5, 2,
      .task ⟨"task", "owner", "goal", [], .patch, .draft⟩⟩
  valid := by decide +kernel
  fits := by
    rw [Codec.toBytes, Json.size_bytes]
    decide +kernel

/-- The draft is applied at the next revision of the small Brain, and sent again after a
restart. -/
theorem exactlyOnce_small_retry :
    let calls := applyCalls Brain.small
      [.op (.apply Brain.small.session Brain.small.draft) 6, .restart,
        .op (.apply Brain.small.session Brain.small.draft) 7]
    calls.map (fun c => c.now) = [6, 7] ∧
      ApplyCall.result ⟨Brain.small.session, Brain.small.draft, 6, Brain.small⟩ = .ok 3 ∧
      ExactlyOnce Brain.small calls :=
  ⟨rfl, by decide +kernel, applyCalls_exactlyOnce Brain.reachable_small _⟩

end Rivloom.Collaboration
