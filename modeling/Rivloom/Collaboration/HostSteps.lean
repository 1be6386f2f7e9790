import Rivloom.Collaboration.Host

/-!
# What a request can do

The two halves that every statement about hosts is put together from. The first is about
invariants: a property of Brains that moving clocks and running operations both keep
(`Rivloom.Collaboration.Brain.Stable`) is kept by every event at a host, since whatever a
request stages is composed of those. The second is about the store: a request leaves it
alone, or runs exactly one transaction on it, and which one is decided by the operation and
the phase of the session (`Rivloom.Collaboration.HostSession.Performs`).
-/

namespace Rivloom.Collaboration

open Rivloom.Action (andThen_ok of_wp wp wp_bind wp_ensure wp_focus wp_get wp_modify)

variable {m : Moment} {session session' : HostSession} {α : Type} {operation : Operation}
  {P : Brain → Prop} {request : Request} {host host' : Host} {reply : Reply} {x : BrainAction α}

namespace Brain

/-! ### Stable properties -/

/-- **A property that is kept whatever happens to a Brain**: it says that the registries are
in order, and neither a clock that moves nor an operation, whether it returns or fails,
makes it false. -/
structure Stable (P : Brain → Prop) : Prop where
  registries : ∀ b, P b → b.Registries
  observed : ∀ b b' now, Observed now b b' → P b → P b'
  run : ∀ (op : BrainOp) now b, P b → P (op.run now b).2

variable {P : Brain → Prop} {b : Brain} {now : ℤ}

theorem observed_tick (h : b.clock.Accepts now) : Observed now b (b.tick now) :=
  observed_of_accepts h (Or.inl rfl) (Or.inl rfl)

theorem wp_onCredentials_authorizeTask {identity : ConnectionIdentity}
    {Q : Except BrainError Unit → Brain → Prop}
    (hok : b.credentials.clock.Accepts now → b.credentials.Authorized identity now →
      Q (.ok ()) (b.withClocks b.clock ⟨now⟩ b.invitations.clock))
    (herr : ∀ credentials, b.credentials.clock.Ticks now credentials →
      ¬(b.credentials.clock.Accepts now ∧ b.credentials.Authorized identity now) →
      Q (.error (.access .rejected)) (b.withClocks b.clock credentials b.invitations.clock)) :
    wp (onCredentials (CredentialRegistry.authorizeTask identity now)) Q b := by
  rw [onCredentials, wp_focus]
  refine CredentialRegistry.wp_authorizeTask (fun hclock hauthorized => hok hclock hauthorized)
    (fun hclock hnot => ?_) fun hclock => ?_
  · exact herr ⟨now⟩ (Or.inr ⟨hclock, rfl⟩) fun h => hnot h.2
  · exact herr b.credentials.clock (Or.inl rfl) fun h => hclock h.1

namespace Stable

theorem authorizeTask (h : Stable P) (identity : ConnectionIdentity) (now : ℤ) :
    Action.Preserves P (onCredentials (CredentialRegistry.authorizeTask identity now)) := by
  intro b hb
  have hobserved : ∀ credentials, b.credentials.clock.Ticks now credentials →
      P (b.withClocks b.clock credentials b.invitations.clock) := fun credentials hticks =>
    h.observed b _ now ⟨b.clock, credentials, b.invitations.clock, Or.inl rfl, hticks, Or.inl rfl,
      rfl⟩ hb
  exact wp_onCredentials_authorizeTask (Q := fun _ b' => P b')
    (fun hclock _ => hobserved _ (Or.inr ⟨hclock, rfl⟩)) fun credentials hticks _ =>
      hobserved credentials hticks

theorem owner (h : Stable P) (identity : ConnectionIdentity) (now : ℤ) :
    Action.Preserves P (Brain.owner identity now) :=
  .bind (h.authorizeTask identity now) fun _ => .bind .get fun _ => .ensure _ _

theorem method {wrap : α → BrainReply} (h : Stable P) (op : BrainOp) (hx : op.run now = wrap <$> x)
    : Action.Preserves P x := by
  intro b hb
  have hrun := h.run op now b hb
  rw [hx, Action.map_snd] at hrun
  exact hrun

/-- **What an authenticated session asks for keeps a stable property.** -/
theorem serveOperation (h : Stable P) (identity : ConnectionIdentity) (operation : Operation)
    (m : Moment) : Action.Preserves P (Brain.serveOperation identity operation m) := by
  refine .bind (h.authorizeTask identity m.now) fun _ => ?_
  cases operation with
  | sync request =>
    exact .bind (h.method (.reconcile identity request) rfl) fun _ => .pure _
  | submit message => exact .bind (h.method (.apply identity message) rfl) fun _ => .pure _
  | pulse =>
    refine .bind .get fun b => .bind ?_ fun _ => .pure _
    exact h.method (.heartbeat identity b.revision) rfl
  | invite =>
    refine .bind (h.owner identity m.now) fun _ => .bind ?_ fun _ => .pure _
    exact h.method (.createInvitation m.invitationId m.invitationSecret) rfl
  | cancelInvite invitationId =>
    refine .bind (h.owner identity m.now) fun _ => .bind ?_ fun _ => .bind .get fun _ => .pure _
    exact h.method (.cancelInvitation invitationId) rfl
  | revoke memberId revision =>
    refine .bind (h.owner identity m.now) fun _ => .bind ?_ fun _ => .pure _
    exact h.method (.revokeMember memberId revision) rfl
  | authenticate | join => exact .lift _

end Stable

theorem stable_registries : Stable Registries where
  registries _ h := h
  observed b b' now hobserved h := by
    obtain ⟨clock, credentials, invitations, -, hc, hi, rfl⟩ := hobserved
    exact h.withClocks hc hi
  run op now b h := h.run op now

end Brain

/-! ### One transaction -/

theorem load_unique {bytes : ByteArray} {brainId brainId' : String} {b b' : Brain}
    (h : load bytes brainId = .ok b) (h' : load bytes brainId' = .ok b') : b = b' := by
  rw [load] at h h'
  cases hdocument : Document.codec.ofBytes bytes with
  | none =>
    rw [hdocument] at h
    cases h
  | some document =>
    simp only [hdocument] at h h'
    split at h
    · cases h
    · next hgood =>
      rw [if_neg hgood] at h'
      obtain ⟨-, hread, -⟩ := Brain.decode_eq_ok.mp (Except.mapError_eq_ok.mp h)
      obtain ⟨-, hread', -⟩ := Brain.decode_eq_ok.mp (Except.mapError_eq_ok.mp h')
      exact Option.some.inj (hread.symm.trans hread')

namespace BrainStore

variable {α : Type} {s s' : BrainStore} {now : ℤ} {operation : BrainAction α} {env : Environment}
  {r : Except StorageError α}

/-- A Brain that a store has, in memory or in its file. -/
def Shows (s : BrainStore) (b : Brain) : Prop :=
  s.brain = b ∨ ∃ bytes, s.file = some bytes ∧ load bytes b.brainId = .ok b

theorem file_of_transact (h : transact now operation env s = (r, s')) :
    s'.file = (s.disturbed env).file ∨
      ∃ staged, stage s.brain now operation = .ok staged ∧ s'.file = some staged.bytes := by
  have hwp : wp (transact now operation env) (fun _ s' =>
      s'.file = (s.disturbed env).file ∨
        ∃ staged, stage s.brain now operation = .ok staged ∧ s'.file = some staged.bytes) s := by
    rw [transact, wp_bind, wp_modify, andThen_ok, wp_bind, wp_get, andThen_ok, wp_bind, wp_ensure]
    refine ⟨fun _ => ?_, fun _ => Or.inl rfl⟩
    rw [andThen_ok]
    split
    · exact Or.inl rfl
    · rw [wp_bind, Action.wp_lift]
      cases hstage : stage (s.disturbed env).brain now operation with
      | error e => exact Or.inl rfl
      | ok staged =>
        rw [andThen_ok]
        by_cases hhash : Sha256.digest staged.bytes = (s.disturbed env).diskHash
        · simp only [if_pos hhash]
          exact Or.inl rfl
        · simp only [if_neg hhash]
          cases hwrite : env.replacement with
          | confirmed | unconfirmed => exact Or.inr ⟨staged, hstage, rfl⟩
          | unnamed | failed => exact Or.inl rfl
  exact of_wp hwp h

/-- The Brain in memory is left as it was, or it is what was staged. -/
theorem brain_of_transact (h : transact now operation env s = (r, s')) :
    s'.brain = s.brain ∨
      ∃ staged, stage s.brain now operation = .ok staged ∧ s'.brain = staged.candidate := by
  have houtcome := of_wp (wp_transact s now operation env) h
  cases houtcome with
  | unavailable | changed | refused | unconfirmed => exact Or.inl rfl
  | same _ _ hstage | written _ _ hstage => exact Or.inr ⟨_, hstage, rfl⟩

/-- What is staged is the Brain at the time of the call, or what the operation made of
it. -/
theorem candidate_of_stage (hregistries : s.brain.Registries) {staged : Staged α}
    (h : stage s.brain now operation = .ok staged) :
    s.brain.clock.Accepts now ∧ document staged.candidate = .ok staged.bytes ∧
      (staged.candidate = s.brain.tick now ∨
        ∃ value, operation (s.brain.tick now) = (.ok value, staged.candidate)) := by
  have hstaging := staging_stage hregistries now operation
  rw [h] at hstaging
  cases hstaging with
  | kept hclock hrun hdocument => exact ⟨hclock, hdocument, Or.inr ⟨_, hrun⟩⟩
  | rolledBack hclock hfail hdocument => exact ⟨hclock, hdocument, Or.inl rfl⟩

/-- **What a transaction can bring about**, in memory or in the file: the Brain at the time
of the call, or what the operation made of it when it returned. -/
theorem kept_of_shows (hregistries : s.brain.Registries)
    (hoperation : Action.Preserves Brain.Registries operation)
    (h : transact now operation env s = (r, s')) {b : Brain} (hshows : s'.Shows b)
    (hnew : ¬(s.disturbed env).Shows b) :
    b = s.brain.tick now ∨ ∃ value, operation (s.brain.tick now) = (.ok value, b) := by
  rcases hshows with rfl | ⟨bytes, hfile, hload⟩
  · rcases brain_of_transact h with hsame | ⟨staged, hstage, hstaged⟩
    · exact absurd (Or.inl hsame.symm) hnew
    · rw [hstaged]
      exact (candidate_of_stage hregistries hstage).2.2
  · rcases file_of_transact h with hsame | ⟨staged, hstage, hstaged⟩
    · exact absurd (Or.inr ⟨bytes, hsame.symm.trans hfile, hload⟩) hnew
    · obtain ⟨hclock, hdocument, hcandidate⟩ := candidate_of_stage hregistries hstage
      obtain rfl : staged.bytes = bytes := Option.some.inj (hstaged.symm.trans hfile)
      have hkeeps : staged.candidate.Registries := by
        rcases hcandidate with heq | ⟨value, hrun⟩
        · rw [heq]
          exact hregistries.tick now
        · have hrun' := hoperation _ (hregistries.tick now)
          rw [hrun] at hrun'
          exact hrun'
      rw [load_unique hload (load_document hkeeps hdocument)]
      exact hcandidate

end BrainStore

/-- **A transaction keeps a stable property** if what it stages does. -/
theorem Brain.Stable.transact (h : Brain.Stable P) {operation : BrainAction α}
    (hoperation : Action.Preserves P operation) (now : ℤ) (env : Environment) {s : BrainStore}
    (hs : P s.brain) : P (BrainStore.transact now operation env s).2.brain := by
  have hrun : BrainStore.transact now operation env s =
      ((BrainStore.transact now operation env s).1, (BrainStore.transact now operation env s).2) :=
        rfl
  rcases BrainStore.brain_of_transact hrun with hsame | ⟨staged, hstage, hstaged⟩
  · rw [hsame]
    exact hs
  · obtain ⟨hclock, -, hcandidate⟩ :=
      BrainStore.candidate_of_stage (h.registries _ hs) hstage
    have hticked := h.observed _ _ now (Brain.observed_tick hclock) hs
    rw [hstaged]
    rcases hcandidate with heq | ⟨value, hrun⟩
    · rw [heq]
      exact hticked
    · have hkept := hoperation _ hticked
      rw [hrun] at hkept
      exact hkept

/-! ### One request -/

namespace HostSession

/-- A request that is taken up: the session is open, the request is well formed, and its id
was not seen before. -/
structure Admits (session : HostSession) (request : Request) : Prop where
  opened : session.phase ≠ .closed
  version : request.version = 1
  id : Protocol.id request.id = true
  room : session.seen.length < 256
  new : request.id ∉ session.seen

/-- **The transaction of an operation in a phase**, with what is answered when it returns
and the phase that the session goes on to. -/
inductive Performs (m : Moment) :
    Phase → Operation → (α : Type) → BrainAction α → (α → Reply) → (α → Phase) → Prop
  | authenticate {phase : Phase} (hphase : phase = .fresh ∨ phase = .joined)
      (binding : CredentialBinding) (secret : SecretToken) :
      Performs m phase (.authenticate binding secret) ConnectionIdentity
        (Brain.connect binding secret m.now) (fun _ => .authenticated) .active
  | join {phase : Phase} (hphase : phase = .fresh) (brainId invitationId : String)
      (secret : SecretToken) (identityId deviceId displayName : String) :
      Performs m phase (.join brainId invitationId secret identityId deviceId displayName)
        Enrollment
        (Brain.join { brainId, invitationId, secret, identityId, deviceId, displayName }
          m.join m.now)
        (fun enrollment => .joined enrollment.credential.binding enrollment.credential.expiresAt
          enrollment.credential.secret)
        (fun _ => .joined)
  | serve {phase : Phase} (identity : ConnectionIdentity) (hphase : phase = .active identity)
      {operation : Operation}
      (hauthenticate : ∀ binding secret, operation ≠ .authenticate binding secret)
      (hjoin : ∀ brainId invitationId secret identityId deviceId displayName,
        operation ≠ .join brainId invitationId secret identityId deviceId displayName) :
      Performs m phase operation Reply (Brain.serveOperation identity operation m) id
        (fun _ => .active identity)

/-- **How a request is handled**: it is refused before it is taken up; it is taken up and
turned away before it reaches the store; or its transaction is run, and is answered or
fails. -/
inductive Handled (request : Request) (m : Moment) (host : Host) (session : HostSession) :
    Reply → Host → HostSession → Prop
  | refused {e : WireError} (he : e ≠ .conflict) (hrequest : ¬session.Admits request) :
      Handled request m host session (.error e) host { session with phase := .closed }
  | turnedAway {e : WireError} {operations : Limiter} (he : e ≠ .conflict)
      (hadmits : session.Admits request) :
      Handled request m host session (.error e) { host with operations }
        ⟨.closed, request.id :: session.seen⟩
  | answered {α : Type} {operation : BrainAction α} {answer : α → Reply} {next : α → Phase}
      {operations : Limiter} {store : BrainStore} {value : α} (hadmits : session.Admits request)
      (hperforms : Performs m session.phase request.operation α operation answer next)
      (hrun : BrainStore.transact m.now operation m.env host.store = (.ok value, store)) :
      Handled request m host session (answer value) { host with operations, store }
        ⟨next value, request.id :: session.seen⟩
  | failed {α : Type} {operation : BrainAction α} {answer : α → Reply} {next : α → Phase}
      {operations : Limiter} {store : BrainStore} {e : StorageError}
      (hadmits : session.Admits request)
      (hperforms : Performs m session.phase request.operation α operation answer next)
      (hrun : BrainStore.transact m.now operation m.env host.store = (.error e, store)) :
      Handled request m host session (.error (.ofStorage e)) { host with operations, store }
        ⟨if WireError.ofStorage e = .conflict then session.phase else .closed,
          request.id :: session.seen⟩

/-- **What is asked of the store** is one transaction, or nothing. -/
theorem wp_perform {host : Host} {Q : Except WireError Reply → Host × HostSession → Prop}
    (hrejected : Q (.error .rejected) (host, session))
    (hok : ∀ {α : Type} {x : BrainAction α} {answer : α → Reply} {next : α → Phase} {value : α}
      {store : BrainStore}, Performs m session.phase operation α x answer next →
      BrainStore.transact m.now x m.env host.store = (.ok value, store) →
      Q (.ok (answer value)) ({ host with store }, { session with phase := next value }))
    (herr : ∀ {α : Type} {x : BrainAction α} {answer : α → Reply} {next : α → Phase}
      {e : StorageError} {store : BrainStore}, Performs m session.phase operation α x answer next →
      BrainStore.transact m.now x m.env host.store = (.error e, store) →
      Q (.error (.ofStorage e)) ({ host with store }, session)) :
    wp (perform operation m) Q (host, session) := by
  have hstore : ∀ {α : Type} {x : BrainAction α} {answer : α → Reply} {next : α → Phase}
      {R : Except WireError α → Host × HostSession → Prop},
      Performs m session.phase operation α x answer next →
      (∀ value store, BrainStore.transact m.now x m.env host.store = (.ok value, store) →
        R (.ok value) ({ host with store }, session)) →
      (∀ e store, BrainStore.transact m.now x m.env host.store = (.error e, store) →
        R (.error (.ofStorage e)) ({ host with store }, session)) →
      wp (onStore (BrainStore.transact m.now x m.env)) R (host, session) := by
    intro α x answer next R _ hreturned hfailed
    rw [onStore, wp_focus, wp]
    rcases hrun : BrainStore.transact m.now x m.env host.store with ⟨e | value, store⟩
    · exact hfailed e store hrun
    · exact hreturned value store hrun
  rw [perform, wp_bind, wp_get, andThen_ok]
  split
  · next binding secret =>
    rw [wp_bind, wp_ensure]
    refine ⟨fun hphase => ?_, fun _ => hrejected⟩
    rw [Bool.or_eq_true, beq_iff_eq, beq_iff_eq] at hphase
    have hperforms := Performs.authenticate (m := m) hphase binding secret
    rw [andThen_ok, wp_bind]
    exact hstore hperforms (fun _ _ hrun => hok hperforms hrun) fun _ _ hrun => herr hperforms hrun
  · next brainId invitationId secret identityId deviceId displayName =>
    rw [wp_bind, wp_ensure]
    refine ⟨fun hphase => ?_, fun _ => hrejected⟩
    have hperforms := Performs.join (m := m) (beq_iff_eq.mp hphase) brainId invitationId secret
      identityId deviceId displayName
    rw [andThen_ok, wp_bind]
    exact hstore hperforms (fun _ _ hrun => hok hperforms hrun) fun _ _ hrun => herr hperforms hrun
  · next hauthenticate hjoin =>
    split
    · next identity hphase =>
      have hperforms := Performs.serve (m := m) identity hphase hauthenticate hjoin
      refine hstore hperforms (fun value store hrun => ?_) fun _ _ hrun => herr hperforms hrun
      have h := hok hperforms hrun
      rw [← hphase] at h
      exact h
    · exact hrejected

/-- **Every request is handled in one of four ways.** -/
theorem handled (request : Request) (m : Moment) (host : Host) (session : HostSession) :
    Handled request m host session (handle request m (host, session)).1.result
      (handle request m (host, session)).2.1 (handle request m (host, session)).2.2 := by
  have hwp : wp (respond request m) (fun r w => match r with
      | .ok reply => Handled request m host session reply w.1 w.2
      | .error e => Handled request m host session (.error e) w.1
        (if e = .conflict then w.2 else { w.2 with phase := .closed })) (host, session) := by
    rw [respond, wp_bind, wp_get, andThen_ok, wp_bind, wp_ensure]
    refine ⟨fun hgood => ?_, fun hbad => ?_⟩
    swap
    · refine .refused (by decide) fun hadmits => ?_
      simp [closed, hadmits.opened, hadmits.version, hadmits.id] at hbad
    simp only [Bool.not_eq_true', Bool.or_eq_false_iff, bne_eq_false_iff_eq, Bool.not_eq_false',
      closed, beq_eq_false_iff_ne] at hgood
    obtain ⟨⟨hopened, hversion⟩, hid⟩ := hgood
    rw [andThen_ok, wp_bind, wp_ensure]
    refine ⟨fun hroom => ?_, fun hfull => .refused (by decide) fun hadmits => ?_⟩
    swap
    · exact absurd hadmits.room (of_decide_eq_false hfull)
    rw [andThen_ok, wp_bind, wp_ensure]
    refine ⟨fun hnew => ?_, fun hseen => .refused (by decide) fun hadmits => ?_⟩
    swap
    · exact hadmits.new (by simpa using hseen)
    have hadmits : session.Admits request :=
      ⟨hopened, hversion, hid, of_decide_eq_true hroom, by simpa using hnew⟩
    rw [andThen_ok, wp_bind, wp_modify, andThen_ok, wp_bind, wp_ensure]
    refine ⟨fun _ => ?_, fun _ => .turnedAway (by decide) hadmits⟩
    rw [andThen_ok, wp_bind, wp_modify, andThen_ok, wp_bind, wp_ensure]
    refine ⟨fun _ => ?_, fun _ => .turnedAway (by decide) hadmits⟩
    rw [andThen_ok, wp_bind, wp_ensure]
    refine ⟨fun _ => ?_, fun _ => .turnedAway (by decide) hadmits⟩
    rw [andThen_ok]
    refine wp_perform (.turnedAway (by decide) hadmits)
      (fun hperforms hrun => .answered hadmits hperforms hrun) fun hperforms hrun => ?_
    have hfailed := @Handled.failed request m host session _ _ _ _
      (host.operations.take m.instant).2 _ _ hadmits hperforms hrun
    dsimp only
    split at hfailed
    · next hconflict =>
      rw [if_pos hconflict]
      exact hfailed
    · next hconflict =>
      rw [if_neg hconflict]
      exact hfailed
  rw [wp] at hwp
  rw [handle]
  rcases hrun : respond request m (host, session) with ⟨e | reply, w⟩
  · rw [hrun] at hwp
    dsimp only at hwp ⊢
    split
    · next hconflict =>
      rw [if_pos hconflict] at hwp
      exact hwp
    · next hconflict =>
      rw [if_neg hconflict] at hwp
      exact hwp
  · rw [hrun] at hwp
    exact hwp

theorem Handled.returned (h : Handled request m host session reply host' session')
    (hreply : ∀ e, reply ≠ .error e) (hregistries : host.store.brain.Registries) :
    ∃ (α : Type) (x : BrainAction α) (answer : α → Reply) (next : α → Phase) (value : α),
      Performs m session.phase request.operation α x answer next ∧ reply = answer value ∧
      host.store.brain.clock.Accepts m.now ∧
      x (host.store.brain.tick m.now) = (.ok value, host'.store.brain) := by
  cases h with
  | refused | turnedAway | failed => exact absurd rfl (hreply _)
  | answered hadmits hperforms hrun =>
    obtain ⟨hclock, hreturned, -⟩ := BrainStore.returned_of_transact hregistries hrun
    exact ⟨_, _, _, _, _, hperforms, rfl, hclock, hreturned⟩

end HostSession

/-! ### Invariants of a host -/

theorem HostSession.Performs.preserves {phase : Phase} {answer : α → Reply} {next : α → Phase}
    (hperforms : HostSession.Performs m phase operation α x answer next) (h : Brain.Stable P) :
    Action.Preserves P x := by
  cases hperforms with
  | authenticate _ binding secret => exact h.method (.connect binding secret) rfl
  | join _ brainId invitationId secret identityId deviceId displayName =>
    exact h.method
      (.join { brainId, invitationId, secret, identityId, deviceId, displayName } m.join)
      rfl
  | serve identity _ _ _ => exact h.serveOperation identity operation m

namespace Brain.Stable

variable {P : Brain → Prop}

theorem handled (h : Stable P)
    (hhandled : HostSession.Handled request m host session reply host' session')
    (hs : P host.store.brain) : P host'.store.brain := by
  cases hhandled with
  | refused | turnedAway => exact hs
  | answered hadmits hperforms hrun | failed hadmits hperforms hrun =>
    have hkept := h.transact (hperforms.preserves h) m.now m.env hs
    rw [hrun] at hkept
    exact hkept

/-- **Every event at a host keeps a stable property** of the Brain in its memory. -/
theorem step (h : Stable P) (w : HostWorld) (event : HostEvent) (hw : P w.brain) :
    P (w.step event).brain := by
  cases event with
  | session instant admissionPoisoned =>
    have hstore : wp (Host.session instant admissionPoisoned)
        (fun _ host => host.store = w.host.store) w.host := by
      simp only [Host.session, wp_bind, wp_get, wp_modify, wp_ensure,
        andThen_ok, Action.andThen_error, Action.wp_pure, implies_true, and_self]
    rw [HostWorld.step]
    rcases hrun : Host.session instant admissionPoisoned w.host with ⟨e | session, host⟩
    all_goals
      have hsame := of_wp hstore hrun
      dsimp only [HostWorld.brain]
      rw [hsame]
      exact hw
  | request index request m =>
    rw [HostWorld.step]
    split
    · exact hw
    · next session _ => exact h.handled (HostSession.handled request m w.host session) hw
  | drop index =>
    rw [HostWorld.step]
    split <;> exact hw
  | transact op now env => exact h.transact (h.run op now) now env hw
  | run op now => exact h.run op now _ hw
  | restart =>
    have hsame : (w.step .restart).brain = w.brain := (h.registries _ hw).restart
    rw [hsame]
    exact hw

/-- **A stable property holds after every run of a host.** -/
theorem after (h : Stable P) {w : HostWorld} (hw : P w.brain) (events : List HostEvent) :
    P (Run.after HostWorld.step w events).brain :=
  Run.invariant (I := fun w : HostWorld => P w.brain) h.step hw events

end Brain.Stable

end Rivloom.Collaboration
