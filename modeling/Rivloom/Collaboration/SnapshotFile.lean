import Rivloom.Collaboration.Durability
import Rivloom.Lib.CodecPath

/-!
# Snapshots and files

Writing a Brain and reading it back, from the side of the reader: what a snapshot may not
look like, what reading and writing again makes of a snapshot, and what it takes for a
file that was written to be opened.

Opening is more than reading. Before it returns, `Rivloom.Collaboration.BrainStore.openExisting`
commits a transaction of its own, which takes the nodes offline that were online when the
file was written (`Rivloom.Collaboration.Brain.restarted`). That transaction has the limits
of any other: there must be a next revision if some node was online, and what comes out
must fit. So there are Brains that are written and read without fail and whose file is not
opened.
-/

namespace Rivloom.Collaboration

variable {path : List Json.Step}

/-! ### What a snapshot may not look like -/

theorem reaches_uniqueMap {α β : Type} {limit : ℕ} {c : Codec α} {d : Codec β}
    (h : c.Reaches path d) : (uniqueMap limit c).Reaches (.entry :: path) d := by
  intro j v hwithin hflaw
  cases hwithin with
  | entry hmem hrest =>
    exact ⟨_, rfl, Or.inr ⟨_, hmem, Or.inr (h _ _ hrest hflaw)⟩⟩

namespace Brain

variable {b : Brain} {j : Json} {ms : List (String × Json)} {field : String × Json} {now : ℤ}
  {bytes : ByteArray} {brainId : String}

/-- The maps of a snapshot. -/
def tables : List (List Json.Step) :=
  [[.field 7 "members"], [.field 8 "nodes"], [.field 9 "tasks"],
    [.field 5 "credentials", .field 2 "records"], [.field 6 "invitations", .field 2 "pending"]]

/-- The fields of a message. -/
def envelopeFields : List String :=
  ["protocolVersion", "messageId", "idempotencyKey", "brainId", "senderNodeId", "sentAt",
    "revision", "payload"]

/-- The records of a snapshot, down to its messages, and the names of their fields. -/
def records : List (List Json.Step × List String) :=
  [([], ["version", "brainId", "ownerMemberId", "revision", "clock", "credentials", "invitations",
      "members", "nodes", "tasks", "replays"]),
    ([.field 4 "clock"], ["high_water_at"]),
    ([.field 5 "credentials"], ["brainId", "clock", "records"]),
    ([.field 5 "credentials", .field 1 "clock"], ["high_water_at"]),
    ([.field 5 "credentials", .field 2 "records", .entry],
      ["binding", "issuedAt", "expiresAt", "verifier", "revoked"]),
    ([.field 5 "credentials", .field 2 "records", .entry, .field 0 "binding"],
      ["brainId", "memberId", "nodeId", "deviceId"]),
    ([.field 6 "invitations"], ["brainId", "clock", "pending"]),
    ([.field 6 "invitations", .field 1 "clock"], ["high_water_at"]),
    ([.field 6 "invitations", .field 2 "pending", .entry], ["verifier", "issuedAt", "expiresAt"]),
    ([.field 7 "members", .entry], ["identityId", "displayName", "revoked", "revision"]),
    ([.field 8 "nodes", .entry],
      ["memberId", "deviceId", "lastSeenAt", "online", "revision", "announcement"]),
    ([.field 8 "nodes", .entry, .field 5 "announcement"], envelopeFields),
    ([.field 9 "tasks", .entry], ["source", "status", "revision"]),
    ([.field 9 "tasks", .entry, .field 0 "source"], envelopeFields),
    ([.field 10 "replays", .item], ["senderNodeId", "key", "fingerprint", "revision"])]

/-- **What no snapshot may have**: a key twice in one of its maps, a key that is too long,
or a field that there is not. -/
inductive Flawed (j : Json) : Prop
  | repeated {path : List Json.Step} {input : List (String × Json)} (htable : path ∈ tables)
      (hwithin : Json.Within path j (.obj input)) (hrepeated : ¬(input.map Prod.fst).Nodup)
  | overlong {path : List Json.Step} {input : List (String × Json)} {entry : String × Json}
      (htable : path ∈ tables) (hwithin : Json.Within path j (.obj input)) (hmem : entry ∈ input)
      (hlong : 128 < entry.1.utf8ByteSize)
  | unknown {record : List Json.Step × List String} {ms : List (String × Json)}
      {field : String × Json} (hrecord : record ∈ records)
      (hwithin : Json.Within record.1 j (.obj ms)) (hmem : field ∈ ms)
      (hunknown : field.1 ∉ record.2)

/-! Every map and every record is reached by the reader. -/

section Reaches

variable {β : Type} {d : Codec β} {path : List Json.Step}

theorem reaches_credentials (h : CredentialRegistry.snapshotCodec.Reaches path d) :
    codec.Reaches (.field 5 "credentials" :: path) d := by
  have hregistry : CredentialRegistry.codec.Reaches path d := h
  exact .struct (.tail (.tail (.tail (.tail (.tail (.head _ _ _)))))) hregistry

theorem reaches_invitations (h : InvitationRegistry.snapshotCodec.Reaches path d) :
    codec.Reaches (.field 6 "invitations" :: path) d := by
  have hregistry : InvitationRegistry.codec.Reaches path d := h
  exact .struct (.tail (.tail (.tail (.tail (.tail (.tail (.head _ _ _))))))) hregistry

theorem reaches_records (h : (uniqueMap 64 StoredCredential.codec).Reaches path d) :
    codec.Reaches (.field 5 "credentials" :: .field 2 "records" :: path) d :=
  reaches_credentials (.struct (.tail (.tail (.head _ _ _))) h)

theorem reaches_pending (h : (uniqueMap 32 PendingInvitation.codec).Reaches path d) :
    codec.Reaches (.field 6 "invitations" :: .field 2 "pending" :: path) d :=
  reaches_invitations (.struct (.tail (.tail (.head _ _ _))) h)

theorem reaches_members (h : (uniqueMap 64 MemberRecord.codec).Reaches path d) :
    codec.Reaches (.field 7 "members" :: path) d :=
  .struct (.tail (.tail (.tail (.tail (.tail (.tail (.tail (.head _ _ _)))))))) h

theorem reaches_nodes (h : (uniqueMap 64 NodeRecord.codec).Reaches path d) :
    codec.Reaches (.field 8 "nodes" :: path) d :=
  .struct (.tail (.tail (.tail (.tail (.tail (.tail (.tail (.tail (.head _ _ _))))))))) h

theorem reaches_tasks (h : (uniqueMap 64 TaskRecord.codec).Reaches path d) :
    codec.Reaches (.field 9 "tasks" :: path) d :=
  .struct (.tail (.tail (.tail (.tail (.tail (.tail (.tail (.tail (.tail (.head _ _ _)))))))))) h

theorem reaches_replays (h : (Codec.list ReplayRecord.codec).Reaches path d) :
    codec.Reaches (.field 10 "replays" :: path) d :=
  .struct (.tail (.tail (.tail (.tail (.tail (.tail (.tail (.tail (.tail (.tail
    (.head _ _ _))))))))))) h

end Reaches

theorem flaw_of_table (htable : path ∈ tables) {input : List (String × Json)}
    (hwithin : Json.Within path j (.obj input))
    (h : ¬(input.map Prod.fst).Nodup ∨ ∃ entry ∈ input, maxKeyBytes < entry.1.utf8ByteSize) :
    codec.flaw j := by
  have hmap : ∀ {α : Type} {limit : ℕ} {c : Codec α}, (uniqueMap limit c).flaw (.obj input) := by
    intro α limit c
    refine ⟨input, rfl, h.imp_right ?_⟩
    rintro ⟨entry, hmem, hlong⟩
    exact ⟨entry, hmem, Or.inl hlong⟩
  simp only [tables, List.mem_cons, List.not_mem_nil, or_false] at htable
  rcases htable with rfl | rfl | rfl | rfl | rfl
  · exact reaches_members (.here _) _ _ hwithin hmap
  · exact reaches_nodes (.here _) _ _ hwithin hmap
  · exact reaches_tasks (.here _) _ _ hwithin hmap
  · exact reaches_records (.here _) _ _ hwithin hmap
  · exact reaches_pending (.here _) _ _ hwithin hmap

theorem flaw_of_unknown {α τ : Type} {f : Codec.Fields τ} {e : α ≃ τ} {hnames : f.names.Nodup}
    (hmem : field ∈ ms) (h : field.1 ∉ f.names) : (Codec.struct f e hnames).flaw (.obj ms) :=
  Or.inl ⟨ms, rfl, Or.inl ⟨field, hmem, h⟩⟩

theorem flaw_of_record {record : List Json.Step × List String} (hrecord : record ∈ records)
    (hwithin : Json.Within record.1 j (.obj ms)) (hmem : field ∈ ms)
    (hunknown : field.1 ∉ record.2) : codec.flaw j := by
  simp only [records, List.mem_cons, List.not_mem_nil, or_false] at hrecord
  rcases hrecord with rfl | rfl | rfl | rfl | rfl | rfl | rfl | rfl | rfl | rfl | rfl | rfl | rfl |
    rfl | rfl
  · exact Codec.Reaches.here codec _ _ hwithin (flaw_of_unknown hmem hunknown)
  · have hclock : codec.Reaches [.field 4 "clock"] Clock.codec :=
      .struct (.tail (.tail (.tail (.tail (.head _ _ _))))) (.here _)
    exact hclock _ _ hwithin (flaw_of_unknown hmem hunknown)
  · exact reaches_credentials (.here _) _ _ hwithin (flaw_of_unknown hmem hunknown)
  · have hclock : CredentialRegistry.snapshotCodec.Reaches [.field 1 "clock"] Clock.codec :=
      .struct (.tail (.head _ _ _)) (.here _)
    exact reaches_credentials hclock _ _ hwithin (flaw_of_unknown hmem hunknown)
  · exact reaches_records (reaches_uniqueMap (.here _)) _ _ hwithin (flaw_of_unknown hmem hunknown)
  · have hbinding : StoredCredential.codec.Reaches [.field 0 "binding"] CredentialBinding.codec :=
      .struct (.head _ _ _) (.here _)
    exact reaches_records (reaches_uniqueMap hbinding) _ _ hwithin (flaw_of_unknown hmem hunknown)
  · exact reaches_invitations (.here _) _ _ hwithin (flaw_of_unknown hmem hunknown)
  · have hclock : InvitationRegistry.snapshotCodec.Reaches [.field 1 "clock"] Clock.codec :=
      .struct (.tail (.head _ _ _)) (.here _)
    exact reaches_invitations hclock _ _ hwithin (flaw_of_unknown hmem hunknown)
  · exact reaches_pending (reaches_uniqueMap (.here _)) _ _ hwithin (flaw_of_unknown hmem hunknown)
  · exact reaches_members (reaches_uniqueMap (.here _)) _ _ hwithin (flaw_of_unknown hmem hunknown)
  · exact reaches_nodes (reaches_uniqueMap (.here _)) _ _ hwithin (flaw_of_unknown hmem hunknown)
  · have hmessage : NodeRecord.codec.Reaches [.field 5 "announcement"] Message.codec := by
      refine .struct (.tail (.tail (.tail (.tail (.tail (.head _ _ _)))))) (.option (.here _) ?_)
      rintro (⟨_, hnull, -⟩ | ⟨_, hnull, -⟩) <;> cases hnull
    have henvelope : Envelope.codec.flaw (.obj ms) := flaw_of_unknown hmem hunknown
    exact reaches_nodes (reaches_uniqueMap hmessage) _ _ hwithin henvelope
  · exact reaches_tasks (reaches_uniqueMap (.here _)) _ _ hwithin (flaw_of_unknown hmem hunknown)
  · have hmessage : TaskRecord.codec.Reaches [.field 0 "source"] Message.codec :=
      .struct (.head _ _ _) (.here _)
    have henvelope : Envelope.codec.flaw (.obj ms) := flaw_of_unknown hmem hunknown
    exact reaches_tasks (reaches_uniqueMap hmessage) _ _ hwithin henvelope
  · exact reaches_replays (.list (.here _)) _ _ hwithin (flaw_of_unknown hmem hunknown)

/-- **A flawed snapshot is not read.** -/
theorem Flawed.flaw (h : Flawed j) : codec.flaw j := by
  cases h with
  | repeated htable hwithin hrepeated => exact flaw_of_table htable hwithin (Or.inl hrepeated)
  | overlong htable hwithin hmem hlong =>
    exact flaw_of_table htable hwithin (Or.inr ⟨_, hmem, hlong⟩)
  | unknown hrecord hwithin hmem hunknown => exact flaw_of_record hrecord hwithin hmem hunknown

theorem decode_of_flaw (hread : Json.ofBytes bytes = some j) (h : codec.flaw j) :
    (decode bytes brainId).isOk = false := by
  rw [decode]
  split
  · rfl
  · rw [Codec.ofBytes, hread, Option.bind_some, codec.dec_flaw j h]
    rfl

/-- **What was read is written and read again.** It can be written unless it has become too
long, which happens: a snapshot may leave out what is absent, or list the fields of a
record without their names. -/
theorem encode_of_decode (h : decode bytes brainId = .ok b) :
    ((codec.toBytes b).size ≤ maxBrainBytes → b.encode = .ok (codec.toBytes b)) ∧
      ∀ bytes', b.encode = .ok bytes' → decode bytes' brainId = .ok b := by
  have hregistries := (Reachable.decode h).registries
  obtain ⟨-, -, hvalid, rfl⟩ := decode_eq_ok.mp h
  exact ⟨fun hsize => encode_eq_ok.mpr ⟨hvalid, rfl, hsize⟩,
    fun bytes' hencode => decode_encode hregistries hencode⟩

/-! ### Restarts -/

/-- Some node is online. -/
def AnyOnline (b : Brain) : Prop :=
  ∃ (key : String) (node : NodeRecord), b.nodes[key]? = some node ∧ node.online = true

theorem anyExpired_restart : b.AnyExpired .restart now ↔ b.AnyOnline := by
  simp only [AnyExpired, AnyOnline, expired, Bool.and_true]

/-- **The Brain after a restart**: its nodes are offline, at a new revision if any of them
was not. -/
def restarted (b : Brain) (now : ℤ) : Brain :=
  (if b.nodes.any fun _ node => node.online then b.presenceReset .restart now else b).tick now

/-- What the transaction of a restart does: it fails only where a node is online and there
is no next revision. -/
theorem wp_restart (h : b.clock.Accepts now) {Q : Except BrainError ℕ → Brain → Prop}
    (hok : (b.AnyOnline → b.revision < maxRevision) →
      Q (.ok (b.restarted now).revision) (b.restarted now))
    (hfull : b.AnyOnline → maxRevision ≤ b.revision → Q (.error .capacity) (b.tick now)) :
    Action.wp (resetPresence .restart now) Q (b.tick now) := by
  have hany : (b.nodes.any fun _ node => node.online) = true ↔ b.AnyOnline := StrMap.any_eq_true
  have hclock : (b.tick now).clock.Accepts now := ⟨h.1, le_refl now⟩
  refine wp_resetPresence (fun _ hnone => ?_) (fun _ hsome hrevision => ?_)
    (fun _ hsome hrevision => ?_) (fun hnot => absurd hclock hnot)
  · have hoffline : ¬b.AnyOnline := fun honline => hnone (anyExpired_restart.mpr honline)
    have hrestarted : b.restarted now = b.tick now := by
      rw [restarted, if_neg fun honline => hoffline (hany.mp honline)]
    have hq := hok fun honline => absurd honline hoffline
    rw [hrestarted] at hq
    exact hq
  · have honline : b.AnyOnline := anyExpired_restart.mp hsome
    have hrestarted : b.restarted now = (b.presenceReset .restart now).tick now := by
      rw [restarted, if_pos (hany.mpr honline)]
    have hq := hok fun _ => hrevision
    rw [hrestarted] at hq
    exact hq
  · exact hfull (anyExpired_restart.mp hsome) hrevision

theorem Accepted.restarted (h : b.Accepted) (hclock : b.clock.Accepts now)
    (hrevision : b.AnyOnline → b.revision < maxRevision) : (b.restarted now).Valid := by
  have hticked : (b.tick now).Accepted := h.withClocks hclock (Or.inl rfl) (Or.inl rfl)
  rcases hrun : (BrainOp.resetPresence .restart).run now (b.tick now) with ⟨r, b'⟩
  have hwp : Action.wp ((BrainOp.resetPresence .restart).run now)
      (fun r b' => r = .ok (.revision (b.restarted now).revision) ∧ b' = b.restarted now)
      (b.tick now) := by
    rw [BrainOp.run, Action.wp_map]
    exact wp_restart hclock (fun _ => ⟨rfl, rfl⟩)
      fun honline hfull => absurd (hrevision honline) (Nat.not_lt.mpr hfull)
  obtain ⟨rfl, rfl⟩ := Action.of_wp hwp hrun
  exact ((BrainOp.effect_of_run hrun).changed.accepted hticked).valid

end Brain

/-! ### Opening a file -/

namespace BrainStore

variable {b : Brain} {now : ℤ} {env : Environment} {encoded : ByteArray} {first : Environment}
  {store : BrainStore}

theorem openExisting_eq_ok (hregistries : b.Registries) (hencode : b.encode = .ok encoded)
    (h : openExisting (holding b).file b.brainId now first env = .ok store) :
    ∃ revision, transact now (Brain.resetPresence .restart now) env (holding b) =
      (.ok revision, store) := by
  rw [openExisting, Except.bind_eq_ok] at h
  obtain ⟨s, hloaded, h⟩ := h
  cases hfirst : first.unreadable with
  | some e =>
    rw [loaded] at hloaded
    unfold read at hloaded
    rw [hfirst] at hloaded
    cases hloaded
  | none =>
    obtain rfl := Except.ok.inj (hloaded.symm.trans (loaded_holding hregistries hencode hfirst))
    rcases hrun : transact now (Brain.resetPresence .restart now) env (holding b) with
      ⟨e | revision, s'⟩
    · rw [hrun] at h
      cases h
    · rw [hrun] at h
      have hstore : s' = store := Except.ok.inj h
      exact ⟨revision, by rw [hstore]⟩

/-- **What it takes to open a file**: the time is not before one that the Brain has
observed, there is a next revision if one is needed, and the Brain with its nodes offline
fits. -/
theorem restarted_of_openExisting (hregistries : b.Registries) (hencode : b.encode = .ok encoded)
    (h : openExisting (holding b).file b.brainId now first env = .ok store) :
    store.brain = b.restarted now ∧ b.clock.Accepts now ∧
      (b.AnyOnline → b.revision < maxRevision) ∧
      (Brain.codec.toBytes (b.restarted now)).size ≤ maxBrainBytes := by
  obtain ⟨revision, hrun⟩ := openExisting_eq_ok hregistries hencode h
  obtain ⟨hclock, hreturned, encoded', hencode'⟩ := returned_of_transact hregistries hrun
  have hwp := Brain.wp_restart hclock
    (Q := fun r b' => r = .ok revision → b' = b.restarted now ∧
      (b.AnyOnline → b.revision < maxRevision))
    (fun hrevision _ => ⟨rfl, hrevision⟩) (fun _ _ hr => by cases hr)
  obtain ⟨hbrain, hrevision⟩ := Action.of_wp hwp hreturned rfl
  obtain ⟨-, rfl, hsize⟩ := Brain.encode_eq_ok.mp hencode'
  exact ⟨hbrain, hclock, hrevision, hbrain ▸ hsize⟩

/-- **That is all it takes**, as long as the file system works. -/
theorem openExisting_of_restarted (h : b.Accepted) (hregistries : b.Registries)
    (hencode : b.encode = .ok encoded) (hfirst : first.unreadable = none) (henv : env.Works)
    (hclock : b.clock.Accepts now) (hrevision : b.AnyOnline → b.revision < maxRevision)
    (hsize : (Brain.codec.toBytes (b.restarted now)).size ≤ maxBrainBytes) :
    ∃ store, openExisting (holding b).file b.brainId now first env = .ok store := by
  have hreturned : Brain.resetPresence .restart now (b.tick now) =
      (.ok (b.restarted now).revision, b.restarted now) := by
    refine @Brain.wp_restart b now hclock (fun r b' => (r, b') = _) (fun _ => rfl) ?_
    exact fun honline hfull => absurd (hrevision honline) (Nat.not_lt.mpr hfull)
  have hvalid := h.restarted hclock hrevision
  have hresult := ((inUse_holding hencode).transact hregistries hencode henv hclock hreturned
    (Brain.encode_eq_ok.mpr ⟨hvalid, rfl, hsize⟩)).1
  refine ⟨(transact now (Brain.resetPresence .restart now) env (holding b)).2, ?_⟩
  rw [openExisting, loaded_holding hregistries hencode hfirst]
  change (transact now (Brain.resetPresence .restart now) env (holding b)).1.map _ = _
  rw [hresult]
  rfl

/-- **The snapshot codec.** A Brain that is written is read back. Its document always
fits, and is read back; the file is opened exactly if the restart that opening commits can
be. What is read can be written again unless it has grown too long, and what is written
then is read as the same. A flawed snapshot is not read. -/
theorem snapshot_codec {b : Brain} (h : b.Reachable) {encoded : ByteArray}
    (hencode : b.encode = .ok encoded) :
    Brain.decode encoded b.brainId = .ok b ∧
    (∃ bytes, document b = .ok bytes ∧ load bytes b.brainId = .ok b ∧
      ∀ (now : ℤ) (first env : Environment), first.unreadable = none → env.Works →
        ((∃ store, openExisting (some bytes) b.brainId now first env = .ok store) ↔
          b.clock.Accepts now ∧ (b.AnyOnline → b.revision < maxRevision) ∧
            (Brain.codec.toBytes (b.restarted now)).size ≤ maxBrainBytes)) ∧
    (∀ (bytes : ByteArray) (brainId : String) (b' : Brain),
      Brain.decode bytes brainId = .ok b' →
        ((Brain.codec.toBytes b').size ≤ maxBrainBytes → ∃ bytes', b'.encode = .ok bytes') ∧
        ∀ bytes', b'.encode = .ok bytes' → Brain.decode bytes' brainId = .ok b') ∧
    (∀ (bytes : ByteArray) (brainId : String) (j : Json), Json.ofBytes bytes = some j →
      Brain.Flawed j ∨ Brain.codec.flaw j → (Brain.decode bytes brainId).isOk = false) := by
  have hregistries := h.registries
  have hvalid := (Brain.encode_eq_ok.mp hencode).1
  have haccepted : b.Accepted := ⟨hvalid, hregistries.credentials, hregistries.invitations⟩
  have hdocument : document b = .ok (Document.codec.toBytes b.envelope) :=
    document_eq_ok.mpr ⟨⟨encoded, hencode⟩, rfl⟩
  refine ⟨Brain.decode_encode hregistries hencode, ⟨_, hdocument,
    load_document hregistries hdocument, fun now first env hfirst henv => ⟨?_, ?_⟩⟩, ?_, ?_⟩
  · rintro ⟨store, hopen⟩
    exact (restarted_of_openExisting hregistries hencode hopen).2
  · rintro ⟨hclock, hrevision, hsize⟩
    exact openExisting_of_restarted haccepted hregistries hencode hfirst henv hclock hrevision hsize
  · intro bytes brainId b' hdecode
    obtain ⟨hfits, hagain⟩ := Brain.encode_of_decode hdecode
    exact ⟨fun hsize => ⟨_, hfits hsize⟩, hagain⟩
  · rintro bytes brainId j hread (hflawed | hflaw)
    · exact Brain.decode_of_flaw hread hflawed.flaw
    · exact Brain.decode_of_flaw hread hflaw

/-- The small Brain is read back from its snapshot, and its file is opened. -/
theorem openExisting_small :
    ∃ store, openExisting (holding Brain.small).file "brain" 6 .quiet .quiet = .ok store := by
  obtain ⟨-, ⟨bytes, hdocument, -, hopen⟩, -⟩ :=
    snapshot_codec Brain.reachable_small Brain.encode_small
  have hfile : (holding Brain.small).file = some bytes := by
    rw [(document_eq_ok.mp hdocument).2]
    rfl
  rw [hfile]
  refine (hopen 6 .quiet .quiet rfl ⟨rfl, rfl, rfl⟩).mpr ⟨by decide, fun _ => by decide, ?_⟩
  rw [Codec.toBytes, Json.size_bytes]
  decide +kernel

/-- The small Brain at its last revision. -/
def exhausted : Brain := { Brain.small with revision := maxRevision }

/-- **A file that is written and cannot be opened**: a node is online, and there is no
revision left at which to take it offline. -/
theorem not_opened_exhausted :
    exhausted.validate = .ok () ∧ ∃ bytes, document exhausted = .ok bytes ∧
      ∀ (now : ℤ) (first env : Environment),
        (openExisting (some bytes) "brain" now first env).isOk = false := by
  have hvalidate : exhausted.validate = .ok () := by decide +kernel
  have hregistries : exhausted.Registries :=
    ⟨Brain.registries_small.credentials, Brain.registries_small.invitations,
      Brain.registries_small.records_size, Brain.registries_small.pending_size⟩
  have hencode : exhausted.encode = .ok (Brain.codec.toBytes exhausted) :=
    (Brain.validate_eq_ok.mp hvalidate).encode_eq (by decide +kernel)
  have honline : exhausted.AnyOnline := ⟨"node", _, rfl, rfl⟩
  refine ⟨hvalidate, _, document_eq_ok.mpr ⟨⟨_, hencode⟩, rfl⟩, fun now first env => ?_⟩
  change (openExisting (holding exhausted).file exhausted.brainId now first env).isOk = false
  cases hopen : openExisting (holding exhausted).file exhausted.brainId now first env with
  | error e => rfl
  | ok store =>
    obtain ⟨-, -, hrevision, -⟩ := restarted_of_openExisting hregistries hencode hopen
    exact absurd (hrevision honline) (lt_irrefl maxRevision)

end BrainStore

end Rivloom.Collaboration
