import Rivloom.Collaboration.ExactlyOnce
import Rivloom.Collaboration.HostSteps

/-!
# What a session may change

A host believes nothing that a peer says about itself, so the question is what a request
can change, on which session, after which history. The answer is in two parts. A request
changes a record only if it joins with the secret of an invitation that is pending, or if
its session authenticated before and the credential it did so with can be used *now*; and
the three requests of an administrator change something only for the owner. The other
part is about requests that change nothing at all: those that repeat an id, those that are
not well formed, and all those on a session that was answered with an error.

What a request changes is measured in memory and in the file
(`Rivloom.Collaboration.BrainStore.Shows`), since a write that was not confirmed may leave
in the file what memory does not have. The clocks of the Brain and of its registries do not
count as records: authenticating moves them.

That a session *authenticated before* is a fact about the history of requests
(`Rivloom.Collaboration.HostWorld.Authenticated`), not about the phase it is in; that the
two agree is `Rivloom.Collaboration.HostWorld.authenticated_of_active`, by induction over the
run. What else a session remembers – the ids it saw, that it is closed – is carried along a
run by one rule, `Rivloom.Collaboration.HostWorld.sessionAt_after`.
-/

namespace Rivloom.Collaboration

open Rivloom.Action (bind_eq_ok of_wp wp)

variable {identity : ConnectionIdentity} {b b' : Brain} {operation : Operation} {id : String}

/-- The requests of an administrator. -/
def Operation.ownerOnly : Operation → Bool
  | .invite | .cancelInvite _ | .revoke _ _ => true
  | .authenticate _ _ | .join _ _ _ _ _ _ | .sync _ | .submit _ | .pulse => false

/-- The answers for a session that has authenticated. -/
def Reply.served : Reply → Bool
  | .page _ | .applied _ _ | .pulsed _ | .invited _ _ _ _ | .administered _ => true
  | .authenticated | .joined _ _ _ | .error _ => false

/-- A fresh session asks to join with the secret of an invitation that is pending and has
not expired. -/
def HostSession.Joins (session : HostSession) (b : Brain) (operation : Operation) (now : ℤ) :
    Prop :=
  session.phase = .fresh ∧
    ∃ invitationId secret invitation, b.invitations.pending[invitationId]? = some invitation ∧
      now < invitation.expiresAt ∧ secret.digest .invitation = invitation.verifier ∧
      ∃ brainId identityId deviceId displayName,
        operation = .join brainId invitationId secret identityId deviceId displayName

namespace Brain

variable {reply : Reply} {m : Moment} {now : ℤ}

/-! ### What an operation that returned has passed -/

/-- **The gates of a request** that returned: the credential of its session could be used,
and where only the owner may ask, it was the owner's. -/
theorem authorized_of_serveOperation (h : serveOperation identity operation m b = (.ok reply, b')) :
    b.credentials.Authorized identity m.now ∧
      (operation.ownerOnly = true → identity.binding.memberId = b.ownerMemberId) := by
  have hgate : ∀ (b b₁ : Brain),
      onCredentials (CredentialRegistry.authorizeTask identity m.now) b = (.ok (), b₁) →
        b.credentials.Authorized identity m.now ∧ b₁.ownerMemberId = b.ownerMemberId := by
    intro b b₁ hrun
    have hwp := @wp_onCredentials_authorizeTask b m.now identity
      (fun r b₁ => r = .ok () →
        b.credentials.Authorized identity m.now ∧ b₁.ownerMemberId = b.ownerMemberId)
      (fun _ hauthorized _ => ⟨hauthorized, rfl⟩) fun _ _ _ hr => by cases hr
    exact of_wp hwp hrun rfl
  obtain ⟨⟨⟩, b₁, hauthorize, hrest⟩ := bind_eq_ok h
  obtain ⟨hauthorized, hsame⟩ := hgate b b₁ hauthorize
  refine ⟨hauthorized, fun honly => ?_⟩
  have howner : ∀ b₂, owner identity m.now b₁ = (.ok (), b₂) →
      identity.binding.memberId = b.ownerMemberId := by
    intro b₂ hrun
    obtain ⟨⟨⟩, b₃, hauthorize', hrest'⟩ := bind_eq_ok hrun
    obtain ⟨b₄, b₅, hget, hensure⟩ := bind_eq_ok hrest'
    obtain ⟨hget, -⟩ := Prod.mk.inj hget
    obtain rfl := Except.ok.inj hget
    obtain ⟨-, hsame'⟩ := hgate b₁ _ hauthorize'
    cases hmember : identity.binding.memberId == b₃.ownerMemberId with
    | true => rw [beq_iff_eq.mp hmember, hsame', hsame]
    | false =>
      rw [hmember] at hensure
      cases (Prod.mk.inj hensure).1
  cases operation with
  | invite | cancelInvite | revoke =>
    obtain ⟨⟨⟩, b₂, hrun, -⟩ := bind_eq_ok hrest
    exact howner b₂ hrun
  | authenticate | join | sync | submit | pulse => cases honly

/-- What an authenticated session is answered is one of the answers for it. -/
theorem served_of_serveOperation (h : serveOperation identity operation m b = (.ok reply, b')) :
    reply.served = true := by
  have hreturn : ∀ {reply' : Reply} {b₁ : Brain}, reply'.served = true →
      (pure reply' : BrainAction Reply) b₁ = (.ok reply, b') → reply.served = true := by
    intro reply' b₁ hserved hpure
    rw [← Except.ok.inj (Prod.mk.inj hpure).1]
    exact hserved
  obtain ⟨⟨⟩, b₁, -, hrest⟩ := bind_eq_ok h
  cases operation with
  | sync | submit =>
    obtain ⟨value, b₂, -, hpure⟩ := bind_eq_ok hrest
    exact hreturn rfl hpure
  | pulse =>
    obtain ⟨b₂, b₃, -, hrest⟩ := bind_eq_ok hrest
    obtain ⟨revision, b₄, -, hpure⟩ := bind_eq_ok hrest
    exact hreturn rfl hpure
  | invite | revoke =>
    obtain ⟨⟨⟩, b₂, -, hrest⟩ := bind_eq_ok hrest
    obtain ⟨value, b₃, -, hpure⟩ := bind_eq_ok hrest
    exact hreturn rfl hpure
  | cancelInvite =>
    obtain ⟨⟨⟩, b₂, -, hrest⟩ := bind_eq_ok hrest
    obtain ⟨⟨⟩, b₃, -, hrest⟩ := bind_eq_ok hrest
    obtain ⟨b₄, b₅, -, hpure⟩ := bind_eq_ok hrest
    exact hreturn rfl hpure
  | authenticate | join => cases (Prod.mk.inj hrest).1

/-- **Authenticating** moves clocks, and it needs the secret of a credential that can be
used. -/
structure Connected (b : Brain) (binding : CredentialBinding) (secret : SecretToken) (now : ℤ)
    (identity : ConnectionIdentity) (b' : Brain) : Prop where
  clocks : ClocksOnly b b'
  binding_eq : identity.binding = binding
  secret_eq : secret.digest .nodeCredential = identity.verifier
  authorized : b.credentials.Authorized identity now

theorem connected_of_connect {binding : CredentialBinding} {secret : SecretToken}
    (h : connect binding secret now b = (.ok identity, b')) :
    b.Connected binding secret now identity b' := by
  have hwp := @wp_connect b now binding secret
    (fun r b' => ∀ identity, r = .ok identity → b.Connected binding secret now identity b')
    (fun record _ _ hactive hsecret identity hr => by
      obtain rfl := Except.ok.inj hr
      exact ⟨⟨⟨now⟩, ⟨now⟩, b.invitations.clock, rfl⟩, rfl, hsecret, record, hactive, rfl⟩)
    fun _ _ _ hr => by cases hr
  exact of_wp hwp h identity rfl

/-- **Joining** needs the secret of an invitation that is pending, and a credential that may
be issued. -/
theorem canRedeem_of_join {request : JoinRequest} {random : JoinRandom} {enrollment : Enrollment}
    (h : join request random now b = (.ok enrollment, b')) :
    b.credentials.CanIssue enrollment.credential.binding now ∧
      ∃ invitation, b.invitations.CanRedeem request now invitation := by
  have hwp := @wp_join b now random request
    (fun r _ => ∀ enrollment, r = .ok enrollment →
      b.credentials.CanIssue enrollment.credential.binding now ∧
        ∃ invitation, b.invitations.CanRedeem request now invitation)
    (fun invitation _ _ _ _ _ _ _ _ _ _ _ hredeem hissue _ _ hr => by
      obtain rfl := Except.ok.inj hr
      exact ⟨hissue, invitation, hredeem⟩)
    fun _ _ _ _ hr => by cases hr
  exact of_wp hwp h enrollment rfl

end Brain

namespace HostSession

variable {request : Request} {m : Moment} {host host' : Host} {session session' : HostSession}
  {reply : Reply} {phase : Phase} {α : Type}

/-- **What a transaction of a request needs** to change a record. -/
theorem Performs.gate {x : BrainAction α} {answer : α → Reply} {next : α → Phase}
    (h : Performs m phase operation α x answer next) {value : α}
    (hrun : x (b.tick m.now) = (.ok value, b')) :
    Brain.ClocksOnly b b' ∨ HostSession.Joins ⟨phase, []⟩ b operation m.now ∨
      ∃ identity, phase = .active identity ∧ b.credentials.Authorized identity m.now ∧
        (operation.ownerOnly = true → identity.binding.memberId = b.ownerMemberId) := by
  cases h with
  | authenticate hphase binding secret =>
    obtain ⟨clock, credentials, invitations, rfl⟩ := (Brain.connected_of_connect hrun).clocks
    exact Or.inl ⟨clock, credentials, invitations, rfl⟩
  | join hphase brainId invitationId secret identityId deviceId displayName =>
    obtain ⟨-, invitation, hredeem⟩ := Brain.canRedeem_of_join hrun
    exact Or.inr (Or.inl ⟨hphase, invitationId, secret, invitation, hredeem.pending,
      hredeem.unexpired, hredeem.secret, brainId, identityId, deviceId, displayName, rfl⟩)
  | serve identity hphase =>
    have hgate := Brain.authorized_of_serveOperation hrun
    exact Or.inr (Or.inr ⟨identity, hphase, hgate⟩)

theorem Performs.answer_ne_error {x : BrainAction α} {answer : α → Reply} {next : α → Phase}
    (h : Performs m phase operation α x answer next) {value : α} (hrun : x b = (.ok value, b'))
    (e : WireError) : answer value ≠ .error e := by
  cases h with
  | authenticate | join => exact Reply.noConfusion
  | serve =>
    intro heq
    have hserved := Brain.served_of_serveOperation hrun
    rw [show value = .error e from heq] at hserved
    cases hserved

/-- **What a request needs** to bring about a Brain that was not there before, in memory or
in the file, and that differs in more than its clocks. -/
theorem Handled.gate (h : Handled request m host session reply host' session')
    (hregistries : host.store.brain.Registries) {b : Brain} (hshows : host'.store.Shows b)
    (hnew : ¬host.store.Shows b) (houtside : ¬(host.store.disturbed m.env).Shows b)
    (hdiffers : ¬Brain.ClocksOnly host.store.brain b) :
    session.Joins host.store.brain request.operation m.now ∨
      ∃ identity, session.phase = .active identity ∧
        host.store.brain.credentials.Authorized identity m.now ∧
        (request.operation.ownerOnly = true →
          identity.binding.memberId = host.store.brain.ownerMemberId) := by
  have htransact : ∀ {α : Type} {x : BrainAction α} {answer : α → Reply} {next : α → Phase}
      {r : Except StorageError α}, Performs m session.phase request.operation α x answer next →
      BrainStore.transact m.now x m.env host.store = (r, host'.store) →
      session.Joins host.store.brain request.operation m.now ∨
        ∃ identity, session.phase = .active identity ∧
          host.store.brain.credentials.Authorized identity m.now ∧
          (request.operation.ownerOnly = true →
            identity.binding.memberId = host.store.brain.ownerMemberId) := by
    intro α x answer next r hperforms hrun
    rcases BrainStore.kept_of_shows hregistries (hperforms.preserves Brain.stable_registries) hrun
      hshows houtside with rfl | ⟨value, hvalue⟩
    · exact absurd ⟨⟨m.now⟩, host.store.brain.credentials.clock, host.store.brain.invitations.clock,
        rfl⟩ hdiffers
    · exact (hperforms.gate hvalue).resolve_left hdiffers
  cases h with
  | refused | turnedAway => exact absurd hshows hnew
  | answered hadmits hperforms hrun => exact htransact hperforms hrun
  | failed hadmits hperforms hrun => exact htransact hperforms hrun

/-- A session that a request has nothing to ask of any more: it saw the id before, or it is
closed. -/
def Spent (id : String) (session : HostSession) : Prop :=
  id ∈ session.seen ∨ session.phase = .closed

theorem Spent.not_admits (h : session.Spent request.id) : ¬session.Admits request := by
  intro hadmits
  rcases h with hseen | hclosed
  · exact hadmits.new hseen
  · exact hadmits.opened hclosed

theorem Handled.host_of_not_admits (h : Handled request m host session reply host' session')
    (hnot : ¬session.Admits request) : host' = host := by
  cases h with
  | refused => rfl
  | turnedAway _ hadmits | answered hadmits | failed hadmits => exact absurd hadmits hnot

theorem Handled.spent (h : Handled request m host session reply host' session') :
    session'.Spent request.id := by
  cases h with
  | refused => exact Or.inr rfl
  | turnedAway | answered | failed => exact Or.inl List.mem_cons_self

theorem Handled.spent_of_spent (h : Handled request m host session reply host' session')
    (hspent : session.Spent id) : session'.Spent id := by
  cases h with
  | refused => exact Or.inr rfl
  | turnedAway => exact Or.inr rfl
  | answered hadmits | failed hadmits =>
    rcases hspent with hseen | hclosed
    · exact Or.inl (List.mem_cons_of_mem _ hseen)
    · exact absurd hclosed hadmits.opened

theorem Handled.eq_of_closed (h : Handled request m host session reply host' session')
    (hclosed : session.phase = .closed) : host' = host ∧ session' = session := by
  cases h with
  | refused => exact ⟨rfl, by rw [← hclosed]⟩
  | turnedAway _ hadmits | answered hadmits | failed hadmits =>
    exact absurd hclosed hadmits.opened

theorem Handled.closed_of_error {e : WireError}
    (h : Handled request m host session (.error e) host' session')
    (hregistries : host.store.brain.Registries) (he : e ≠ .conflict) :
    session'.phase = .closed := by
  generalize hreply : Reply.error e = reply at h
  cases h with
  | refused | turnedAway => rfl
  | answered hadmits hperforms hrun =>
    obtain ⟨-, hreturned, -⟩ := BrainStore.returned_of_transact hregistries hrun
    exact absurd hreply.symm (hperforms.answer_ne_error hreturned e)
  | failed hadmits hperforms hrun =>
    obtain rfl := Reply.error.inj hreply
    exact if_neg he

/-- A session is active because it was, or because it has just authenticated. -/
theorem Handled.active (h : Handled request m host session reply host' session')
    (hregistries : host.store.brain.Registries) (hactive : session'.phase = .active identity) :
    session.phase = .active identity ∨
      reply = .authenticated ∧ ∃ secret, request.operation = .authenticate identity.binding secret ∧
        secret.digest .nodeCredential = identity.verifier := by
  cases h with
  | refused | turnedAway => cases hactive
  | @answered _ _ _ _ _ _ value hadmits hperforms hrun =>
    obtain ⟨-, hreturned, -⟩ := BrainStore.returned_of_transact hregistries hrun
    generalize hoperation : request.operation = operation at hperforms
    cases hperforms with
    | authenticate hphase binding secret =>
      obtain rfl : value = identity := Phase.active.inj hactive
      have hconnected := Brain.connected_of_connect hreturned
      rw [hconnected.binding_eq]
      exact Or.inr ⟨rfl, secret, rfl, hconnected.secret_eq⟩
    | join => cases hactive
    | serve identity' hphase => exact Or.inl (hphase.trans hactive)
  | failed hadmits hperforms hrun =>
    dsimp only at hactive
    split at hactive
    · exact Or.inl hactive
    · cases hactive

end HostSession

/-- A moment at which nothing goes wrong, except that there are no random bytes. -/
def Moment.plain (now : ℤ) : Moment :=
  { now, instant := 0, join := ⟨none, none, none⟩, invitationId := none, invitationSecret := none
    operationsPoisoned := false, storePoisoned := false, env := .quiet }

namespace HostWorld

variable {session : HostSession} {w₀ : HostWorld} {events : List HostEvent}

/-! ### Sessions along a run -/

variable {w : HostWorld} {index : ℕ}

theorem lt_of_sessionAt (h : w.sessionAt index = some session) : index < w.sessions.length := by
  by_contra hge
  rw [sessionAt, List.getElem?_eq_none (Nat.le_of_not_lt hge)] at h
  cases h

theorem step_request (h : w.sessionAt index = some session) (request : Request) (m : Moment) :
    w.step (.request index request m) =
      { host := (HostSession.handle request m (w.host, session)).2.1
        sessions := w.sessions.set index
          (some (HostSession.handle request m (w.host, session)).2.2) } := by
  rw [step, h]

theorem sessionAt_set {host : Host} {place : ℕ} {entry : Option HostSession}
    (hplace : place < w.sessions.length) :
    (HostWorld.mk host (w.sessions.set place entry)).sessionAt index =
      if place = index then entry else w.sessionAt index := by
  rw [sessionAt, List.getElem?_set]
  split
  · rw [Option.join_some]
  · rfl

theorem length_step (w : HostWorld) (event : HostEvent) :
    w.sessions.length ≤ (w.step event).sessions.length := by
  cases event with
  | session instant admissionPoisoned =>
    rw [step]
    split
    · rw [List.length_append]
      exact Nat.le_add_right _ _
    · exact le_refl _
  | request place =>
    rw [step]
    split
    · exact le_refl _
    · rw [List.length_set]
  | drop place =>
    rw [step]
    split
    · exact le_refl _
    · rw [List.length_set]
  | transact | run | restart => exact le_refl _

/-- **Where the session at a place comes from**: it was there, it has just begun, or a
request has been handled in it. -/
theorem sessionAt_step {event : HostEvent} {session' : HostSession}
    (h : (w.step event).sessionAt index = some session') :
    w.sessionAt index = some session' ∨ (w.sessions.length ≤ index ∧ session'.phase = .fresh) ∨
      ∃ request m session, event = .request index request m ∧ w.sessionAt index = some session ∧
        session' = (HostSession.handle request m (w.host, session)).2.2 := by
  cases event with
  | session instant admissionPoisoned =>
    rw [step] at h
    have hfresh : wp (Host.session instant admissionPoisoned)
        (fun r _ => ∀ session, r = .ok session → session.phase = .fresh) w.host := by
      simp [Host.session, Action.wp_ensure]
    rcases hrun : Host.session instant admissionPoisoned w.host with ⟨e | session, host⟩
    · rw [hrun] at h
      exact Or.inl h
    · rw [hrun] at h
      simp only [sessionAt] at h
      by_cases hlt : index < w.sessions.length
      · rw [List.getElem?_append_left hlt] at h
        exact Or.inl h
      · refine Or.inr (Or.inl ⟨Nat.le_of_not_lt hlt, ?_⟩)
        rw [List.getElem?_append_right (Nat.le_of_not_lt hlt), List.getElem?_singleton] at h
        split at h
        · obtain rfl : session = session' := Option.some.inj h
          exact of_wp hfresh hrun session rfl
        · cases h
  | request place request m =>
    rw [step] at h
    split at h
    · exact Or.inl h
    · next session hsession =>
      rw [sessionAt_set (lt_of_sessionAt hsession)] at h
      split at h
      · next heq =>
        subst heq
        exact Or.inr (Or.inr ⟨request, m, session, rfl, hsession, (Option.some.inj h).symm⟩)
      · exact Or.inl h
  | drop place =>
    rw [step] at h
    split at h
    · exact Or.inl h
    · next session hsession =>
      rw [sessionAt_set (lt_of_sessionAt hsession)] at h
      split at h
      · cases h
      · exact Or.inl h
  | transact | run | restart => exact Or.inl h

/-- **What every request keeps of a session is kept along a run.** A place is not used
twice, so no other session comes up in it. -/
theorem sessionAt_after {P : HostSession → Prop}
    (hP : ∀ request m host session, P session →
      P (HostSession.handle request m (host, session)).2.2)
    (hplace : index < w.sessions.length)
    (h : ∀ session, w.sessionAt index = some session → P session)
    (events : List HostEvent) :
    ∀ session, (Run.after step w events).sessionAt index = some session → P session := by
  refine (Run.invariant (I := fun w : HostWorld => index < w.sessions.length ∧
    ∀ session, w.sessionAt index = some session → P session) ?_ ⟨hplace, h⟩ events).2
  rintro w event ⟨hplace, h⟩
  refine ⟨hplace.trans_le (w.length_step event), fun session' hsession' => ?_⟩
  rcases sessionAt_step hsession' with hsame | ⟨hnew, -⟩ | ⟨request, m, session, -, hsession, rfl⟩
  · exact h session' hsame
  · exact absurd hplace (Nat.not_lt.mpr hnew)
  · exact hP request m w.host session (h session hsession)

/-! ### Histories -/

/-- The world of a host that has just started. -/
def start (s : BrainStore) (instant : ℕ) : HostWorld := ⟨.new s instant, []⟩

/-- **A session authenticated** in a run: it presented the secret of the credential that it
is now known by, and was told so. -/
def Authenticated (w₀ : HostWorld) (events : List HostEvent) (index : ℕ)
    (identity : ConnectionIdentity) : Prop :=
  ∃ before request m later secret, events = before ++ .request index request m :: later ∧
    request.operation = .authenticate identity.binding secret ∧
    secret.digest .nodeCredential = identity.verifier ∧
    (Run.after step w₀ before).reply index request m = some .authenticated

/-- **An id was used** in a session, in a run: a request with it was made. -/
def Asked (w₀ : HostWorld) (events : List HostEvent) (index : ℕ) (id : String) : Prop :=
  ∃ before request m later session, events = before ++ .request index request m :: later ∧
    request.id = id ∧ (Run.after step w₀ before).sessionAt index = some session

theorem Authenticated.later (h : w₀.Authenticated events index identity) (event : HostEvent) :
    w₀.Authenticated (events ++ [event]) index identity := by
  obtain ⟨before, request, m, later, secret, rfl, hrest⟩ := h
  exact ⟨before, request, m, later ++ [event], secret, by simp, hrest⟩

/-- **A session that is active authenticated before.** -/
theorem authenticated_of_active (hregistries : w₀.brain.Registries) (hsessions : w₀.sessions = [])
    (events : List HostEvent) (hsession : (Run.after step w₀ events).sessionAt index = some session)
    (hactive : session.phase = .active identity) : w₀.Authenticated events index identity := by
  induction events using List.reverseRecOn generalizing session with
  | nil =>
    rw [Run.after_nil, sessionAt, hsessions] at hsession
    cases hsession
  | append_singleton events event ih =>
    rw [Run.after_append, Run.after_cons, Run.after_nil] at hsession
    rcases sessionAt_step hsession with hsame | ⟨-, hfresh⟩ | ⟨request, m, before,
      rfl, hbefore, rfl⟩
    · exact (ih hsame hactive).later event
    · rw [hactive] at hfresh
      cases hfresh
    · have hregistries' : (Run.after step w₀ events).brain.Registries :=
        Brain.stable_registries.after hregistries events
      have hhandled := HostSession.handled request m (Run.after step w₀ events).host before
      rcases hhandled.active hregistries' hactive with hwas | ⟨hreply, secret, hoperation, hsecret⟩
      · exact (ih hbefore hwas).later _
      · refine ⟨events, request, m, [], secret, rfl, hoperation, hsecret, ?_⟩
        rw [reply, hbefore, Option.map_some, hreply]

theorem Asked.spent (h : w₀.Asked events index id)
    (hsession : (Run.after step w₀ events).sessionAt index = some session) : session.Spent id := by
  obtain ⟨before, request, m, later, session₀, rfl, rfl, hsession₀⟩ := h
  rw [Run.after_append, Run.after_cons] at hsession
  refine sessionAt_after (P := HostSession.Spent request.id)
    (fun request' m' host session hspent =>
      (HostSession.handled request' m' host session).spent_of_spent hspent)
    ((lt_of_sessionAt hsession₀).trans_le (length_step _ _)) (fun session' hsession' => ?_) later
    session hsession
  rw [step_request hsession₀, sessionAt_set (lt_of_sessionAt hsession₀), if_pos rfl] at hsession'
  obtain rfl := Option.some.inj hsession'
  exact (HostSession.handled request m _ session₀).spent

theorem step_of_closed (h : w.sessionAt index = some session) (hclosed : session.phase = .closed)
    (request : Request) (m : Moment) : w.step (.request index request m) = w := by
  obtain ⟨hhost, hsession⟩ := (HostSession.handled request m w.host session).eq_of_closed hclosed
  have hentry : w.sessions[index]? = some (some session) := by
    rwa [sessionAt, Option.join_eq_some_iff] at h
  rw [step_request h, hhost, hsession]
  obtain ⟨hlt, hget⟩ := List.getElem?_eq_some_iff.mp hentry
  rw [← hget, List.set_getElem_self]

/-- **What a session may change.** After any run of a host, with any number of sessions: a
request brings about a Brain that differs from the one before in more than its clocks only
if it joins, in a fresh session, with the secret of an invitation that is pending, or if its
session authenticated before and the credential can still be used – the owner's, for the
requests of an administrator. A request that repeats an id of its session or is not well
formed leaves the host as it is; and after an error other than a conflict, no request in
that session ever changes anything. -/
theorem host_gate {s : BrainStore} (hs : s.Ready) (instant : ℕ) (events : List HostEvent)
    (index : ℕ) (request : Request) (m : Moment) :
    let w₀ := start s instant
    let w := Run.after step w₀ events
    let w' := w.step (.request index request m)
    (∀ b, w'.host.store.Shows b → ¬w.host.store.Shows b →
      ¬(w.host.store.disturbed m.env).Shows b → ¬Brain.ClocksOnly w.brain b →
      (∃ session, w.sessionAt index = some session ∧
        session.Joins w.brain request.operation m.now) ∨
      ∃ identity, w₀.Authenticated events index identity ∧
        w.brain.credentials.Authorized identity m.now ∧
        (request.operation.ownerOnly = true →
          identity.binding.memberId = w.brain.ownerMemberId)) ∧
    (w₀.Asked events index request.id ∨ request.version ≠ 1 ∨ Protocol.id request.id = false →
      w'.host = w.host) ∧
    (∀ e, w.reply index request m = some (.error e) → e ≠ .conflict →
      ∀ later request' m', (Run.after step w' later).step (.request index request' m') =
        Run.after step w' later) := by
  intro w₀ w w'
  have hregistries₀ : w₀.brain.Registries := hs.durable.registries
  have hregistries : w.brain.Registries := Brain.stable_registries.after hregistries₀ events
  cases hsession : w.sessionAt index with
  | none =>
    -- There is no such session, and nothing happens.
    have hsame : w' = w := by
      simp only [w', step, hsession]
    refine ⟨fun b hshows hnew => absurd (hsame ▸ hshows) hnew, fun _ => by rw [hsame], ?_⟩
    intro e hreply
    rw [reply, hsession] at hreply
    cases hreply
  | some session =>
    have hhandled := HostSession.handled request m w.host session
    have hstep : w' = _ := step_request hsession request m
    refine ⟨fun b hshows hnew houtside hdiffers => ?_, fun hbad => ?_, ?_⟩
    · rw [hstep] at hshows
      rcases hhandled.gate hregistries hshows hnew houtside hdiffers with
        hjoins | ⟨identity, hactive, hgate⟩
      · exact Or.inl ⟨session, rfl, hjoins⟩
      · exact Or.inr ⟨identity, authenticated_of_active hregistries₀ rfl events hsession hactive,
          hgate⟩
    · rw [hstep]
      refine hhandled.host_of_not_admits ?_
      rcases hbad with hasked | hversion | hid
      · exact (hasked.spent hsession).not_admits
      · exact fun hadmits => hversion hadmits.version
      · intro hadmits
        rw [hadmits.id] at hid
        cases hid
    · intro e hreply he later request' m'
      rw [reply, hsession, Option.map_some, Option.some.injEq] at hreply
      rw [hreply] at hhandled
      have hlt := lt_of_sessionAt hsession
      have hclosed : ∀ session', (Run.after step w' later).sessionAt index = some session' →
          session'.phase = .closed := by
        refine sessionAt_after (P := fun session => session.phase = .closed)
          (fun request m host session hclosed => ?_)
          (hlt.trans_le (length_step w (.request index request m))) (fun session' hsession' => ?_)
          later
        · rw [((HostSession.handled request m host session).eq_of_closed hclosed).2]
          exact hclosed
        · rw [step_request hsession, sessionAt_set hlt, if_pos rfl] at hsession'
          obtain rfl := Option.some.inj hsession'
          exact hhandled.closed_of_error hregistries he
      cases hlater : (Run.after step w' later).sessionAt index with
      | none => simp only [step, hlater]
      | some session' => exact step_of_closed hlater (hclosed session' hlater) request' m'

/-- A session of the small Brain asks for a pulse before it has authenticated. It is turned
away, and a second request of it, however good, changes nothing. -/
theorem host_gate_small :
    let w := Run.after step (start (.holding Brain.small) 0) [.session 0 false]
    let w' := w.step (.request 0 ⟨1, "first", .pulse⟩ (Moment.plain 6))
    w.reply 0 ⟨1, "first", .pulse⟩ (Moment.plain 6) = some (.error .rejected) ∧
      w'.step (.request 0 ⟨1, "second", .pulse⟩ (Moment.plain 7)) = w' :=
  ⟨rfl, (host_gate BrainStore.ready_small 0 [.session 0 false] 0 ⟨1, "first", .pulse⟩
    (Moment.plain 6)).2.2 .rejected rfl (by decide) [] ⟨1, "second", .pulse⟩ (Moment.plain 7)⟩

end HostWorld

end Rivloom.Collaboration
