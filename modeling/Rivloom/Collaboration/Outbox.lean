import Rivloom.Collaboration.NodeSafety
import Rivloom.Collaboration.Sizes

/-!
# The message that waits to be sent

A node keeps the one message that was confirmed for sending until it is acknowledged. It
is sent again after every reconciliation, with the same key and the same payload and with
the revision that the node knows by then (`Message::with_revision`). The message is checked
as a whole each time, its size in bytes among the rest.

Nothing of the message changes but its revision, so of the checks only two can turn out
otherwise than when the message was made. The revision itself is within bounds, since it
comes from a page that was checked. The size grows with the digits of the revision: a
message that was made at revision 9 and has 32768 bytes is sent at revision 9 and cannot be
sent at revision 10 (`Rivloom.Collaboration.Node.full_message_gets_stuck`). It stays where
it is, and no other message can be confirmed until it is gone.
-/

namespace Rivloom.Collaboration

open Json (quoteSize size size_bytes)

variable {revision : ℕ}

/-- The number of digits of a revision. -/
def digits (revision : ℕ) : ℕ := Json.intSize revision

namespace Message

variable (message : Message)

/-- **The size of a message for another revision** differs by the digits of the revision. -/
theorem size_withRevision (envelope : Envelope) (revision : ℕ) :
    (Envelope.codec.toBytes { envelope with revision }).size + digits envelope.revision =
      (Envelope.codec.toBytes envelope).size + digits revision := by
  rw [Codec.toBytes, Codec.toBytes, size_bytes, size_bytes, Envelope.codec,
    Codec.size_struct _ _ _ (by decide), Codec.size_struct _ _ _ (by decide)]
  simp only [Codec.Fields.valuesSize, Equiv.coe_fn_mk, Protocol.u64, Codec.uint, size]
  rw [digits, digits]
  omega

theorem valid_withRevision (h : revision ≤ maxRevision) :
    Envelope.valid { message.envelope with revision } = true := by
  have hvalid := message.valid
  simp only [Envelope.valid, Bool.and_eq_true, decide_eq_true_eq] at hvalid ⊢
  exact ⟨⟨hvalid.1.1, h⟩, hvalid.2⟩

/-- **A message for another revision is refused only for its size.** -/
theorem withRevision_cases (h : revision ≤ maxRevision) :
    ((Envelope.codec.toBytes message.envelope).size + digits revision ≤
        maxMessageBytes + digits message.envelope.revision ∧
      ∃ out, message.withRevision revision = .ok out ∧
        out.envelope = { message.envelope with revision }) ∨
    (¬ (Envelope.codec.toBytes message.envelope).size + digits revision ≤
        maxMessageBytes + digits message.envelope.revision ∧
      message.withRevision revision = .error .messageTooLarge) := by
  have hsize := size_withRevision message.envelope revision
  rw [withRevision, tryFrom, dif_pos (message.valid_withRevision h)]
  dsimp only at hsize ⊢
  split
  · exact Or.inl ⟨by omega, _, rfl, rfl⟩
  · exact Or.inr ⟨by omega, rfl⟩

end Message

namespace Node

variable {node : Node} {message : Message} (goal a b c : String)

theorem revision_le_handle (h : node.revision ≤ maxRevision) (event : NodeEvent) :
    Action.wp (handle event) (fun _ node' => node'.revision ≤ maxRevision) node := by
  cases event with
  | accept page =>
    rw [handle, Action.wp_map]
    refine wp_acceptPage (fun pending offset _ _ => h) (fun pending htakes _ _ => ?_) fun _ => h
    exact (Page.validate_eq_ok.mp htakes.valid).1.revision_le
  | disconnect => exact h
  | queueConfirmed message =>
    rw [handle, Action.wp_map]
    exact wp_queueConfirmed h h fun _ => h
  | acknowledge key revision =>
    rw [handle, Action.wp_map]
    exact wp_acknowledge h h

theorem revision_le_after {binding : CredentialBinding} (hnode : Node.new binding = .ok node)
    (events : List NodeEvent) : (node.after events).revision ≤ maxRevision := by
  have hnew : node.revision ≤ maxRevision := by
    simp only [Node.new] at hnode
    split at hnode
    · rw [← Except.ok.inj hnode]
      exact Nat.zero_le _
    · cases hnode
  exact Run.invariant (I := fun node : Node => node.revision ≤ maxRevision)
    (fun _ event h => revision_le_handle h event) hnew events

/-- What does not queue or acknowledge a message leaves the one that is pending. -/
theorem pendingMessage_after {events : List NodeEvent}
    (h : ∀ event ∈ events, (∃ page, event = .accept page) ∨ event = .disconnect) :
    (node.after events).pendingMessage = node.pendingMessage := by
  induction events generalizing node with
  | nil => rfl
  | cons event events ih =>
    refine (ih fun e hmem => h e (List.mem_cons_of_mem _ hmem)).trans ?_
    rcases h event List.mem_cons_self with ⟨page, rfl⟩ | rfl
    · have hpage : Action.wp (handle (.accept page))
          (fun _ node' => node'.pendingMessage = node.pendingMessage) node := by
        rw [handle, Action.wp_map]
        exact wp_acceptPage (fun _ _ _ _ => rfl) (fun _ _ _ _ => rfl) fun _ => rfl
      exact hpage
    · rfl

theorem handle_queueConfirmed (hbrain : message.admission.brainId = node.binding.brainId)
    (hsender : message.admission.senderNodeId = node.binding.nodeId)
    (hallowed : allowed node.binding message = true) (hnone : node.pendingMessage = none) :
    (handle (.queueConfirmed message) node).2 = { node with pendingMessage := some message } := by
  have hqueued : Action.wp (handle (.queueConfirmed message))
      (fun _ node' => node' = { node with pendingMessage := some message }) node := by
    rw [handle, Action.wp_map]
    simp only [queueConfirmed, Action.wp_bind, Action.wp_get, Action.andThen_ok, Action.wp_ensure,
      hbrain, hsender, hallowed, beq_self_eq_true, Bool.and_self, hnone]
    exact ⟨fun _ => rfl, fun hfalse => by cases hfalse⟩
  exact hqueued

/-- A message that was queued stays pending through passes and disconnections. -/
theorem pendingMessage_queued (events : List NodeEvent)
    (hbrain : message.admission.brainId = node.binding.brainId)
    (hsender : message.admission.senderNodeId = node.binding.nodeId)
    (hallowed : allowed node.binding message = true) (hnone : node.pendingMessage = none)
    (h : ∀ event ∈ events, (∃ page, event = .accept page) ∨ event = .disconnect) :
    (node.after ([.queueConfirmed message] ++ events)).pendingMessage = some message := by
  rw [after_append, pendingMessage_after h]
  change (handle (.queueConfirmed message) node).2.pendingMessage = _
  rw [handle_queueConfirmed hbrain hsender hallowed hnone]

theorem outgoing_of_ready (hready : node.ready = true)
    (hpending : node.pendingMessage = some message) :
    node.outgoing = (message.withRevision node.revision).mapError fun _ => .invalid := by
  rw [outgoing, if_pos hready, hpending]

/-- **When a confirmed message can be sent.** Whatever a node has been through, if it is ready and
a message is pending then the message is sent with the same key and the same payload and with the
revision of the node, exactly if the digits of this revision fit beside the rest of the message. -/
theorem confirmed_message_is_sendable {binding : CredentialBinding} {node : Node}
    (hnode : Node.new binding = .ok node) (events : List NodeEvent) (message : Message)
    (hready : (node.after events).ready = true)
    (hpending : (node.after events).pendingMessage = some message) :
    (∃ out, (node.after events).outgoing = .ok out ∧
      out.admission.key = message.admission.key ∧ out.payloadHash = message.payloadHash ∧
      out.admission.revision = (node.after events).revision) ↔
    (Envelope.codec.toBytes message.envelope).size + digits (node.after events).revision ≤
      maxMessageBytes + digits message.envelope.revision := by
  rw [outgoing_of_ready hready hpending]
  rcases message.withRevision_cases (revision_le_after hnode events) with
    ⟨hfits, out, hout, henvelope⟩ | ⟨hlarge, herror⟩
  · refine ⟨fun _ => hfits, fun _ => ⟨out, ?_, ?_, ?_, ?_⟩⟩
    · rw [hout]
      rfl
    · rw [Message.admission, henvelope]
      rfl
    · rw [Message.payloadHash, henvelope]
      rfl
    · rw [Message.admission, henvelope]
  · refine ⟨?_, fun hfits => absurd hfits hlarge⟩
    rintro ⟨out, hout, -⟩
    rw [herror] at hout
    cases hout

/-- The pages of a first pass that ends at a revision, and a page without records after it. -/
def small.passTo (revision : ℕ) : List NodeEvent :=
  [.accept ⟨1, "b", "m", 0, revision, 0, some 1, [⟨1, .member "m" "i" "Owner" true false⟩]⟩,
    .accept ⟨1, "b", "m", 0, revision, 1, none, [⟨1, .node "n" "m" "d" false none none⟩]⟩]

@[inherit_doc small.passTo]
def small.nothingNew (after revision : ℕ) : NodeEvent :=
  .accept ⟨1, "b", "m", after, revision, 0, none, []⟩

theorem small.of_mem_passTo {event : NodeEvent} (h : event ∈ small.passTo revision) :
    (∃ page, event = .accept page) ∨ event = .disconnect := by
  rcases List.mem_pair.mp h with rfl | rfl
  · exact Or.inl ⟨_, rfl⟩
  · exact Or.inl ⟨_, rfl⟩

/-- A short message for the Brain of the small collaboration. -/
def small.announcement : Message where
  envelope := ⟨1, "message", "key", "b", "n", 5, 9, .node ⟨"n", "m", "d", .codex, "1", []⟩⟩
  valid := by decide +kernel
  fits := by
    rw [Codec.toBytes, size_bytes]
    decide +kernel

theorem announcement_is_sendable :
    let s := small.after ([.queueConfirmed small.announcement] ++ small.passTo 9 ++
      [.disconnect, small.nothingNew 9 maxRevision])
    s.revision = maxRevision ∧
    ∃ out, s.outgoing = .ok out ∧
      out.admission.key = small.announcement.admission.key ∧
      out.payloadHash = small.announcement.payloadHash ∧ out.admission.revision = s.revision := by
  intro s
  have hnew : Node.new ⟨"b", "m", "n", "d"⟩ = .ok small := by decide +kernel
  have hstate : s.ready = true ∧ s.revision = maxRevision := by decide +kernel
  refine ⟨hstate.2, (confirmed_message_is_sendable hnew _ small.announcement hstate.1 ?_).mpr ?_⟩
  · rw [List.append_assoc]
    refine pendingMessage_queued _ (by decide) (by decide) (by decide) rfl ?_
    intro event hmem
    rcases List.mem_append.mp hmem with hmem | hmem
    · exact small.of_mem_passTo hmem
    · rcases List.mem_pair.mp hmem with rfl | rfl
      · exact Or.inr rfl
      · exact Or.inl ⟨_, rfl⟩
  · rw [Codec.toBytes, size_bytes, hstate.2]
    decide +kernel

/-! ### A message that is full -/

/-- The draft of a task, made for revision 9. -/
def draft (goal : String) (constraints : List String) : Envelope :=
  ⟨1, "m", "k", "b", "n", 5, 9, .task ⟨"t", "m", goal, constraints, .patch, .draft⟩⟩

theorem size_draftTask :
    (Protocol.Task.codec.enc ⟨"t", "m", goal, [a, b, c], .patch, .draft⟩).size =
      109 + quoteSize goal + quoteSize a + quoteSize b + quoteSize c := by
  have hshort : quoteSize "t" = 3 ∧ quoteSize "m" = 3 := by decide +kernel
  have hpatch : (Protocol.ArtifactKind.codec.enc .patch).size = 7 := by decide +kernel
  have hdraft : (TaskStatus.codec.enc .draft).size = 7 := by decide +kernel
  have hlist : ((Codec.list Codec.string).enc [a, b, c]).size =
      4 + quoteSize a + quoteSize b + quoteSize c := by
    simp only [Codec.list, Codec.string, List.map_cons, List.map_nil, size, Json.itemsSize]
    omega
  rw [Protocol.Task.codec, Codec.size_struct _ _ _ (by decide)]
  simp only [Codec.Fields.valuesSize, Equiv.coe_fn_mk, Codec.size_string, hshort, hpatch, hdraft,
    hlist]
  generalize hnames : Codec.Fields.namesSize _ = names
  have hvalue : names = 84 := by
    rw [← hnames]
    decide +kernel
  omega

/-- **The size of a draft**, from the sizes of its texts. -/
theorem size_draft :
    (Envelope.codec.toBytes (draft goal [a, b, c])).size =
      258 + quoteSize goal + quoteSize a + quoteSize b + quoteSize c := by
  have hshort : quoteSize "m" = 3 ∧ quoteSize "k" = 3 ∧ quoteSize "b" = 3 ∧
      quoteSize "n" = 3 := by
    decide +kernel
  have hversion : ((Codec.uint 32).enc 1).size = 1 := by decide +kernel
  have hsent : (Protocol.i64.enc 5).size = 1 := by decide +kernel
  have hrevision : (Protocol.u64.enc 9).size = 1 := by decide +kernel
  have hpayload : (Protocol.Payload.codec.enc
      (.task ⟨"t", "m", goal, [a, b, c], .patch, .draft⟩)).size =
      23 + (Protocol.Task.codec.enc ⟨"t", "m", goal, [a, b, c], .patch, .draft⟩).size := by
    have htags : quoteSize "type" = 6 ∧ quoteSize "task" = 6 ∧
        quoteSize "data" = 6 := by
      decide +kernel
    refine (Codec.size_tagged "type" "data" (by decide) Protocol.Payload.variants _).trans ?_
    change 5 + quoteSize "type" + quoteSize "task" + quoteSize "data" + _ = _
    rw [htags.1, htags.2.1, htags.2.2]
    rfl
  rw [Codec.toBytes, size_bytes, Envelope.codec, Codec.size_struct _ _ _ (by decide)]
  simp only [Codec.Fields.valuesSize, Equiv.coe_fn_mk, Codec.size_string, draft, hshort, hversion,
    hsent, hrevision, hpayload, size_draftTask]
  generalize hnames : Codec.Fields.namesSize _ = names
  have hvalue : names = 110 := by
    rw [← hnames]
    decide +kernel
  omega

/-- A text that repeats one character. -/
def repeated (n : ℕ) (c : Char) : String := String.ofList (List.replicate n c)

theorem utf8ByteSize_repeated (n : ℕ) (c : Char) :
    (repeated n c).utf8ByteSize = n * c.utf8Size := by
  rw [repeated, utf8ByteSize_ofList, byteLength, List.map_replicate, List.sum_replicate]
  rfl

theorem text_repeated {n maxBytes : ℕ} {c : Char} (hc : isWhitespace c = false)
    (hle : (n + 1) * c.utf8Size ≤ maxBytes) :
    Protocol.text (repeated (n + 1) c) maxBytes = true := by
  rw [Protocol.text, trimIsEmpty, utf8ByteSize_repeated, repeated, String.toList_ofList,
    List.replicate_succ, List.all_cons, hc, decide_eq_true hle]
  rfl

/-- The envelope of a message that takes every byte it may take: the goal repeats an escape
character, as terminals print them, which takes six bytes. -/
def small.fullEnvelope : Envelope :=
  draft (repeated 4096 '\x1b') [repeated 1024 '\x1b', repeated 1024 'r', repeated 758 'r']

theorem valid_full : small.fullEnvelope.valid = true := by
  have hgoal : Protocol.text (repeated 4096 '\x1b') 4096 = true :=
    text_repeated (by decide) (by decide)
  have hfirst : Protocol.text (repeated 1024 '\x1b') 1024 = true :=
    text_repeated (by decide) (by decide)
  have hsecond : Protocol.text (repeated 1024 'r') 1024 = true :=
    text_repeated (by decide) (by decide)
  have hthird : Protocol.text (repeated 758 'r') 1024 = true :=
    text_repeated (by decide) (by decide)
  have hpayload : Protocol.Payload.valid (.task ⟨"t", "m", repeated 4096 '\x1b',
      [repeated 1024 '\x1b', repeated 1024 'r', repeated 758 'r'], .patch, .draft⟩) = true := by
    simp only [Protocol.Payload.valid, hgoal, hfirst, hsecond, hthird, List.all_cons, List.all_nil,
      List.map_cons, List.map_nil, utf8ByteSize_repeated]
    decide +kernel
  rw [small.fullEnvelope, Envelope.valid, draft, hpayload]
  decide +kernel

theorem size_fullEnvelope : (Envelope.codec.toBytes small.fullEnvelope).size = maxMessageBytes := by
  rw [small.fullEnvelope, size_draft, repeated, repeated, repeated, repeated,
    Json.quoteSize_replicate, Json.quoteSize_replicate, Json.quoteSize_replicate,
    Json.quoteSize_replicate]
  decide +kernel

/-- **A message that takes every byte it may take.** -/
def small.full : Message := ⟨small.fullEnvelope, valid_full, size_fullEnvelope.le⟩

theorem size_full : (Envelope.codec.toBytes small.full.envelope).size = maxMessageBytes :=
  size_fullEnvelope

/-- **A message that is full gets stuck**: it is confirmed, it is sent at revision 9, and at
revision 10, although the node is ready and the message is pending, it is not. -/
theorem full_message_gets_stuck :
    let first := small.after ([.queueConfirmed small.full] ++ small.passTo 9)
    let later := small.after ([.queueConfirmed small.full] ++ small.passTo 9 ++
      [small.nothingNew 9 10])
    (handle (.queueConfirmed small.full) small).1 = .ok .done ∧
    (∃ out, first.outgoing = .ok out) ∧
    later.ready = true ∧ later.revision = 10 ∧ later.pendingMessage = some small.full ∧
    later.outgoing = .error .invalid := by
  intro first later
  have hready : first.ready = true ∧ first.revision = 9 ∧
      later.ready = true ∧ later.revision = 10 := by
    decide +kernel
  have hqueued (events : List NodeEvent) := @pendingMessage_queued small small.full events rfl rfl
    (by decide +kernel) rfl
  have hfirst : first.pendingMessage = some small.full :=
    hqueued (small.passTo 9) fun event hmem => small.of_mem_passTo hmem
  have hlater : later.pendingMessage = some small.full := by
    refine hqueued (small.passTo 9 ++ [small.nothingNew 9 10]) fun event hmem => ?_
    rcases List.mem_append.mp hmem with hmem | hmem
    · exact small.of_mem_passTo hmem
    · exact Or.inl ⟨_, List.mem_singleton.mp hmem⟩
  refine ⟨by decide +kernel, ?_, hready.2.2.1, hready.2.2.2, hlater, ?_⟩
  · rw [outgoing_of_ready hready.1 hfirst, hready.2.1]
    rcases small.full.withRevision_cases (by decide : 9 ≤ maxRevision) with
      ⟨-, out, hout, -⟩ | ⟨hlarge, -⟩
    · exact ⟨out, by rw [hout]; rfl⟩
    · rw [size_full] at hlarge
      exact absurd (Nat.le_refl _) hlarge
  · rw [outgoing_of_ready hready.2.2.1 hlater, hready.2.2.2]
    rcases small.full.withRevision_cases (by decide : 10 ≤ maxRevision) with
      ⟨hfits, -⟩ | ⟨-, herror⟩
    · rw [size_full] at hfits
      exact absurd hfits (by decide +kernel)
    · rw [herror]
      rfl

end Node

end Rivloom.Collaboration
