import Rivloom.Collaboration.Durability
import Rivloom.Collaboration.Wire

/-!
# The host of a Brain

The side of a connection that has the Brain (`host.rs`). A host serves any number of
sessions over one store. A session is a small state machine: it begins fresh, it may join
once, it may authenticate, and whatever error it is answered with closes it, a conflict
excepted. Nothing a peer says about itself is believed: what a session may do is decided by
the identity it authenticated with, and the credential of that identity is looked at again
inside every transaction.

`Rivloom.Collaboration.HostSession.handle` is the whole of it: the checks on the request,
the ids that were seen before, the budget of operations, the phase of the session, and then
one transaction. What comes from outside in one request – the time, the random bytes, the
state of the locks and of the file system – is a `Rivloom.Collaboration.Moment`.
-/

namespace Rivloom.Collaboration

open Rivloom.Action (ensure focus lift modify)

/-! ### Budgets -/

/-- A budget of events in each minute. -/
structure Limiter where
  /-- When the minute began, in nanoseconds of a clock that never goes back. -/
  start : ℕ
  remaining : ℕ
  limit : ℕ

namespace Limiter

/-- A budget that was not used. -/
def new (limit now : ℕ) : Limiter := { start := now, remaining := limit, limit }

/-- The length of a minute. -/
def minute : ℕ := 60 * 10 ^ 9

/-- Use the budget once, if there is any left. -/
def take (limiter : Limiter) (now : ℕ) : Bool × Limiter :=
  let limiter :=
    if minute ≤ now - limiter.start then { limiter with start := now, remaining := limiter.limit }
    else limiter
  if limiter.remaining = 0 then (false, limiter)
  else (true, { limiter with remaining := limiter.remaining - 1 })

end Limiter

/-! ### Hosts and sessions -/

/-- **A host**: one store, and what bounds its use. -/
structure Host where
  store : BrainStore
  active : ℕ
  admission : Limiter
  operations : Limiter

/-- How far a session has come. -/
inductive Phase where
  | fresh
  | joined
  | active (identity : ConnectionIdentity)
  | closed
  deriving DecidableEq

/-- One connection. -/
structure HostSession where
  phase : Phase
  /-- The ids of the requests that were taken up. -/
  seen : List String

/-- **What a request meets**: the time, the random bytes it may draw, whether a lock is
poisoned, and the file system. -/
structure Moment where
  now : ℤ
  /-- The same moment on the clock of the budgets. -/
  instant : ℕ
  join : JoinRandom
  invitationId : Random
  invitationSecret : Random
  operationsPoisoned : Bool
  storePoisoned : Bool
  env : Environment

/-- A new host. -/
def Host.new (store : BrainStore) (instant : ℕ) : Host :=
  { store, active := 0, admission := .new 64 instant, operations := .new 1024 instant }

/-- Begin a session, if there are not too many. -/
def Host.session (instant : ℕ) (admissionPoisoned : Bool) : Action Host WireError HostSession := do
  ensure (!admissionPoisoned) .unavailable
  let host ← Action.get
  ensure (host.active < 16) .busy
  let taken := host.admission.take instant
  modify fun host => { host with admission := taken.2 }
  ensure taken.1 .busy
  modify fun host => { host with active := host.active + 1 }
  return { phase := .fresh, seen := [] }

/-- What a peer is told of a failure of the store. -/
def WireError.ofStorage : StorageError → WireError
  | .state .conflict => .conflict
  | .state .capacity | .state (.access .capacity) => .busy
  | .state .invalid | .state (.access .rejected) => .rejected
  | .state (.access .entropyUnavailable) => .unavailable
  | .read | .write | .invalid | .existing | .locked | .changed | .unavailable => .unavailable

namespace Brain

/-- The owner, and nobody else. -/
def owner (identity : ConnectionIdentity) (now : ℤ) : BrainAction Unit := do
  onCredentials (CredentialRegistry.authorizeTask identity now)
  let b ← Action.get
  ensure (identity.binding.memberId == b.ownerMemberId) (.access .rejected)

/-- **What an authenticated session asks for**, inside its transaction. -/
def serveOperation (identity : ConnectionIdentity) (operation : Operation) (m : Moment) :
    BrainAction Reply := do
  onCredentials (CredentialRegistry.authorizeTask identity m.now)
  match operation with
  | .sync request =>
    let page ← reconcile identity request m.now
    return .page page
  | .submit message =>
    let key := message.admission.key
    let revision ← apply identity message m.now
    return .applied key revision
  | .pulse =>
    let b ← Action.get
    let revision ← heartbeat identity b.revision m.now
    return .pulsed revision
  | .invite =>
    owner identity m.now
    let invitation ← createInvitation m.invitationId m.invitationSecret m.now
    return .invited invitation.brainId invitation.invitationId invitation.expiresAt
      invitation.secret
  | .cancelInvite invitationId =>
    owner identity m.now
    cancelInvitation invitationId m.now
    let b ← Action.get
    return .administered b.revision
  | .revoke memberId revision =>
    owner identity m.now
    let revision ← revokeMember memberId revision m.now
    return .administered revision
  | .authenticate _ _ | .join _ _ _ _ _ _ => lift (.error .invalid)

end Brain

namespace HostSession

/-- A session that is of no more use. -/
def closed (session : HostSession) : Bool := session.phase == .closed

/-- Work on the store. -/
def onStore {α : Type} (x : Action BrainStore StorageError α) :
    Action (Host × HostSession) WireError α :=
  focus (fun w => w.1.store) (fun store w => ({ w.1 with store }, w.2)) WireError.ofStorage x

/-- Go on to a phase. -/
def enter (phase : Phase) : Action (Host × HostSession) WireError Unit :=
  modify fun w => (w.1, { w.2 with phase })

/-- What is asked of the store, once the request has been taken up. -/
def perform (operation : Operation) (m : Moment) : Action (Host × HostSession) WireError Reply := do
  let w ← Action.get
  match operation with
  | .authenticate binding secret =>
    ensure (w.2.phase == .fresh || w.2.phase == .joined) .rejected
    let identity ← onStore (BrainStore.transact m.now (Brain.connect binding secret m.now) m.env)
    enter (.active identity)
    return .authenticated
  | .join brainId invitationId secret identityId deviceId displayName =>
    ensure (w.2.phase == .fresh) .rejected
    let enrollment ← onStore (BrainStore.transact m.now
      (Brain.join { brainId, invitationId, secret, identityId, deviceId, displayName } m.join m.now)
      m.env)
    enter .joined
    return .joined enrollment.credential.binding enrollment.credential.expiresAt
      enrollment.credential.secret
  | operation =>
    match w.2.phase with
    | .active identity =>
      onStore (BrainStore.transact m.now (Brain.serveOperation identity operation m) m.env)
    | _ => lift (.error .rejected)

/-- Take up a request and do what it asks for. -/
def respond (request : Request) (m : Moment) : Action (Host × HostSession) WireError Reply := do
  let w ← Action.get
  ensure (!(w.2.closed || request.version != 1 || !Protocol.id request.id)) .rejected
  ensure (w.2.seen.length < 256) .busy
  ensure (!w.2.seen.contains request.id) .rejected
  modify fun w => (w.1, { w.2 with seen := request.id :: w.2.seen })
  ensure (!m.operationsPoisoned) .unavailable
  let taken := w.1.operations.take m.instant
  modify fun w => ({ w.1 with operations := taken.2 }, w.2)
  ensure taken.1 .busy
  ensure (!m.storePoisoned) .unavailable
  perform request.operation m

/-- **Handle a request.** Every error closes the session, except a conflict. -/
def handle (request : Request) (m : Moment) (w : Host × HostSession) :
    Response × (Host × HostSession) :=
  let outcome := respond request m w
  let id := if Protocol.id request.id then request.id else "invalid"
  match outcome with
  | (.ok reply, w') => ({ version := 1, id, result := reply }, w')
  | (.error error, w') =>
    ({ version := 1, id, result := .error error },
      if error = .conflict then w' else (w'.1, { w'.2 with phase := .closed }))

end HostSession

/-! ### A host and its sessions -/

/-- A host with its sessions, in the order in which they began; one that ended leaves its
place empty. -/
structure HostWorld where
  host : Host
  sessions : List (Option HostSession)

/-- **What can happen at a host**: a session begins, makes a request or ends; the
application itself commits an operation, or works on the Brain in memory; and the Brain is
written and read back. -/
inductive HostEvent where
  | session (instant : ℕ) (admissionPoisoned : Bool)
  | request (index : ℕ) (request : Request) (m : Moment)
  | drop (index : ℕ)
  | transact (op : BrainOp) (now : ℤ) (env : Environment)
  | run (op : BrainOp) (now : ℤ)
  | restart

namespace HostWorld

/-- The session at a place, if it began and has not ended. -/
def sessionAt (w : HostWorld) (index : ℕ) : Option HostSession := w.sessions[index]?.join

/-- The Brain in the memory of the host. -/
def brain (w : HostWorld) : Brain := w.host.store.brain

/-- The world with another store. -/
def withStore (w : HostWorld) (store : BrainStore) : HostWorld :=
  { w with host := { w.host with store } }

/-- What a session is answered, if there is one. -/
def reply (w : HostWorld) (index : ℕ) (request : Request) (m : Moment) : Option Reply :=
  (w.sessionAt index).map fun session => (HostSession.handle request m (w.host, session)).1.result

/-- One event. -/
def step (w : HostWorld) : HostEvent → HostWorld
  | .session instant admissionPoisoned =>
    match Host.session instant admissionPoisoned w.host with
    | (.ok session, host) => { host, sessions := w.sessions ++ [some session] }
    | (.error _, host) => { w with host }
  | .request index request m =>
    match w.sessionAt index with
    | none => w
    | some session =>
      let outcome := (HostSession.handle request m (w.host, session)).2
      { host := outcome.1, sessions := w.sessions.set index (some outcome.2) }
  | .drop index =>
    match w.sessionAt index with
    | none => w
    | some _ =>
      { host := { w.host with active := w.host.active - 1 }
        sessions := w.sessions.set index none }
  | .transact op now env =>
    w.withStore (BrainStore.transact now (op.run now) env w.host.store).2
  | .run op now => w.withStore { w.host.store with brain := (op.run now w.brain).2 }
  | .restart => w.withStore { w.host.store with brain := w.brain.restart }

end HostWorld

end Rivloom.Collaboration
