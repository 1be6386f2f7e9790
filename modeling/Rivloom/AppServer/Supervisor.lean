import Rivloom.Lib.Run

/-!
# The supervisor of the App Server

The supervisor starts the App Server, keeps one connection to it, and tells two kinds of
observers what happens: the connection observers that a connection was made or lost, the status
observers the status of the runtime (`process.rs`). Two threads do this. The calls of the
supervisor come one after the other, since each needs the supervisor for itself; and every
connection has a reader, which ends the connection when reading fails. They share the lifecycle
– the status and the active process – under a lock, and notify after they have released it.

So every notification is owed for a while before it is made. Whoever takes the active process
out of the lifecycle owes the observers that the connection is lost, and whoever sets the status
owes them the status. The invariant is two equations (`Rivloom.AppServer.Supervisor.Inv`): what
the observers were told about connections, followed by what is owed to them, is that every
connection was made and lost, in turn; and the statuses they were told, followed by those owed
to them, are the statuses that the lifecycle took. That nothing can be told out of order is then
a matter of how much can be owed at one time, and here the joins count: a call that changes the
status has waited for the reader before.

A reader that ends without having failed – it was told to stop, or it panicked outside of the
code below – may do so at any time.
-/

namespace Rivloom.AppServer

/-! ### The supervisor and its readers -/

inductive RuntimeStatus where
  | starting
  | connected (appVersion appServerUserAgent platform codexHome : String)
  | error (message : String) (retryable : Bool)
  | stopped
  deriving DecidableEq

def RuntimeStatus.isConnected : RuntimeStatus → Bool
  | .connected .. => true
  | .starting | .error .. | .stopped => false

def RuntimeStatus.isError : RuntimeStatus → Bool
  | .error .. => true
  | .starting | .connected .. | .stopped => false

def startupErrorStatus : RuntimeStatus := .error "核心服务暂时无法启动。" true

/-- What the observers are told. Connections are counted. -/
inductive Emission where
  | connected (connection : ℕ)
  | disconnected (connection : ℕ)
  | status (status : RuntimeStatus)
  deriving DecidableEq

structure ActiveProcess where
  generation : UInt64
  connection : ℕ
  deriving DecidableEq

/-- **How far a reader is.** -/
inductive ReaderPhase where
  | running
  /-- It has taken the active process, and owes that the connection is lost. -/
  | failing (process : ActiveProcess)
  /-- It owes the status. -/
  | failed
  | done
  deriving DecidableEq

structure Reader where
  generation : UInt64
  connection : ℕ
  phase : ReaderPhase
  deriving DecidableEq

/-- Why the supervisor waits for its reader. -/
inductive Purpose where
  | start | shutdown | drop
  deriving DecidableEq

/-- **How far the call of the supervisor is.** -/
inductive MainPhase where
  /-- No call is in progress. -/
  | idle
  /-- It waits for the reader. -/
  | joining (purpose : Purpose)
  /-- It is about to set the status. -/
  | setting (status : RuntimeStatus)
  /-- It owes the status. -/
  | publishing (status : RuntimeStatus)
  /-- It launches the process and initializes the connection. -/
  | launching
  /-- It is about to activate the connection. -/
  | activating (status : RuntimeStatus)
  /-- It owes that the connection is made, and the status. -/
  | connecting (process : ActiveProcess) (status : RuntimeStatus)
  /-- It owes the status. -/
  | announcing (process : ActiveProcess) (status : RuntimeStatus)
  /-- It starts the reader. -/
  | spawning (process : ActiveProcess)
  /-- The reader could not be started: it is about to take the active process. -/
  | losing (process : ActiveProcess)
  /-- It owes that the connection is lost, and the status. -/
  | failing (process : ActiveProcess)
  /-- It owes the status. -/
  | failed
  /-- It is about to take the active process. -/
  | cleaning (purpose : Purpose)
  /-- It owes that the connection is lost. -/
  | closing (process : ActiveProcess) (purpose : Purpose)
  /-- The supervisor was dropped. -/
  | dropped
  deriving DecidableEq

/-- **The supervisor**: the lifecycle, the call in progress, the readers that were ever started
and the one whose handle is kept; then the number of connections that were made, what the
observers were told, and the statuses that the lifecycle took. -/
structure Supervisor where
  status : RuntimeStatus
  nextGeneration : UInt64
  active : Option ActiveProcess
  main : MainPhase
  handle : Option ℕ
  readers : List Reader
  connections : ℕ
  log : List Emission
  taken : List RuntimeStatus

inductive SupervisorStep where
  | start | retry | shutdown | drop
  /-- The call in progress takes its next step. -/
  | proceed
  /-- The process was launched, and the connection initialized. -/
  | launched (appVersion appServerUserAgent platform codexHome : String)
  | launchFailed
  | spawned
  | notSpawned
  /-- A reader has failed to read, to understand or to route a message. -/
  | readerFails (reader : ℕ)
  /-- A reader that has failed takes its next step. -/
  | readerProceeds (reader : ℕ)
  /-- A reader ends. -/
  | readerEnds (reader : ℕ)

namespace Supervisor

variable {process : ActiveProcess} {reader : Reader} {status : RuntimeStatus} {i : ℕ}
  {main : MainPhase} {purpose : Purpose} (log more : List Emission)

/-- A new supervisor, which has told that it is stopped. -/
def new : Supervisor :=
  { status := .stopped, nextGeneration := 1, active := none, main := .idle, handle := none,
    readers := [], connections := 0, log := [.status .stopped], taken := [.stopped] }

def setStatus (s : Supervisor) (status : RuntimeStatus) : Supervisor :=
  { s with status, taken := s.taken ++ [status] }

def emit (s : Supervisor) (emission : Emission) :
    Supervisor := { s with log := s.log ++ [emission] }

/-- **Begin to start**, unless the App Server is started already. -/
def beginStart (s : Supervisor) : Supervisor :=
  match s.status with
  | .starting | .connected .. => s
  | .error .. | .stopped => { s with main := .joining .start }

/-- The reader whose handle is kept. -/
def current (s : Supervisor) : Option Reader := s.handle.bind fun reader => s.readers[reader]?

/-- There is no reader to wait for. -/
def isJoined (s : Supervisor) : Bool := s.current.all fun reader => reader.phase = .done

/-- What comes after the reader has ended. -/
def afterJoin : Purpose → MainPhase
  | .start => .setting .starting
  | .shutdown => .setting .stopped
  | .drop => .dropped

/-- **Make a connection the active one.** -/
def activate (s : Supervisor) (status : RuntimeStatus) : Supervisor :=
  { s.setStatus status with
    nextGeneration := s.nextGeneration + 1
    active := some ⟨s.nextGeneration, s.connections⟩
    connections := s.connections + 1
    main := .connecting ⟨s.nextGeneration, s.connections⟩ status }

/-- **Take the active process, if it is of a generation**: the connection has failed. -/
def failActive (s : Supervisor) (generation : UInt64) : Option (ActiveProcess × Supervisor) :=
  match s.active with
  | none => none
  | some process =>
    if process.generation = generation then
      some (process, { s.setStatus startupErrorStatus with active := none })
    else none

/-- **The next step of the call in progress.** -/
def proceed (s : Supervisor) : Supervisor :=
  match s.main with
  | .joining purpose => if s.isJoined then { s with handle := none, main := afterJoin purpose }
    else s
  | .setting status => { s.setStatus status with main := .publishing status }
  | .publishing status =>
    { s.emit (.status status) with main := if status = .starting then .launching else .idle }
  | .activating status => s.activate status
  | .connecting process status =>
    { s.emit (.connected process.connection) with main := .announcing process status }
  | .announcing process status => { s.emit (.status status) with main := .spawning process }
  | .losing process =>
    match s.failActive process.generation with
    | some (process, s) => { s with main := .failing process }
    | none => { s with main := .idle }
  | .failing process => { s.emit (.disconnected process.connection) with main := .failed }
  | .failed => { s.emit (.status startupErrorStatus) with main := .idle }
  | .cleaning purpose =>
    match s.active with
    | some process => { s with active := none, main := .closing process purpose }
    | none => { s with main := .joining purpose }
  | .closing process purpose =>
    { s.emit (.disconnected process.connection) with main := .joining purpose }
  | .idle | .launching | .spawning _ | .dropped => s

def setReader (s : Supervisor) (i : ℕ) (reader : Reader) (phase : ReaderPhase) : Supervisor :=
  { s with readers := s.readers.set i { reader with phase } }

/-- **One atomic step of one thread.** -/
def step (s : Supervisor) : SupervisorStep → Supervisor
  | .start => if s.main = .idle then s.beginStart else s
  | .retry => if s.main = .idle ∧ s.status.isError = true then s.beginStart else s
  | .shutdown =>
    if s.main = .idle ∧ s.status ≠ .stopped then { s with main := .cleaning .shutdown } else s
  | .drop => if s.main = .idle then { s with main := .cleaning .drop } else s
  | .proceed => s.proceed
  | .launched appVersion appServerUserAgent platform codexHome =>
    if s.main = .launching then
      { s with main := .activating (.connected appVersion appServerUserAgent platform codexHome) }
    else s
  | .launchFailed => if s.main = .launching then { s with main := .setting startupErrorStatus }
    else s
  | .spawned =>
    match s.main with
    | .spawning process =>
      { s with
        readers := s.readers ++ [⟨process.generation, process.connection, .running⟩]
        handle := some s.readers.length
        main := .idle }
    | _ => s
  | .notSpawned =>
    match s.main with
    | .spawning process => { s with main := .losing process }
    | _ => s
  | .readerFails i =>
    match s.readers[i]? with
    | some reader =>
      if reader.phase = .running then
        match s.failActive reader.generation with
        | some (process, s) => s.setReader i reader (.failing process)
        | none => s.setReader i reader .done
      else s
    | none => s
  | .readerProceeds i =>
    match s.readers[i]? with
    | some reader =>
      match reader.phase with
      | .failing process =>
        (s.emit (.disconnected process.connection)).setReader i reader .failed
      | .failed => (s.emit (.status startupErrorStatus)).setReader i reader .done
      | .running | .done => s
    | none => s
  | .readerEnds i =>
    match s.readers[i]? with
    | some reader => if reader.phase = .running then s.setReader i reader .done else s
    | none => s

/-! ### What is owed -/

/-- What the observers were told about connections. -/
def connectionEvents (log : List Emission) : List Emission :=
  log.filter fun emission => match emission with
    | .connected _ | .disconnected _ => true
    | .status _ => false

/-- The statuses that the observers were told. -/
def published (log : List Emission) : List RuntimeStatus :=
  log.filterMap fun emission => match emission with
    | .status status => some status
    | .connected _ | .disconnected _ => none

/-- **So many connections, each of them made and lost.** -/
def alternating : ℕ → List Emission
  | 0 => []
  | n + 1 => alternating n ++ [.connected n, .disconnected n]

/-- The connection that a call owes to have been made. -/
def connects : MainPhase → List Emission
  | .connecting process _ => [.connected process.connection]
  | _ => []

/-- The connection that a call owes to be lost. -/
def loses : MainPhase → List ℕ
  | .failing process | .closing process _ => [process.connection]
  | _ => []

/-- The status that a call owes. -/
def owesStatus : MainPhase → List RuntimeStatus
  | .publishing status | .connecting _ status | .announcing _ status => [status]
  | .failing _ | .failed => [startupErrorStatus]
  | _ => []

/-- The connection that a reader owes to be lost. -/
def readerLoses (reader : Reader) : List ℕ :=
  match reader.phase with
  | .failing process => [process.connection]
  | .running | .failed | .done => []

/-- The status that a reader owes. -/
def readerOwesStatus (reader : Reader) : List RuntimeStatus :=
  match reader.phase with
  | .failing _ | .failed => [startupErrorStatus]
  | .running | .done => []

/-- The connections that are made and, as far as the observers know, not lost. -/
def openConnections (s : Supervisor) : List ℕ :=
  s.active.toList.map ActiveProcess.connection ++ loses s.main ++
    s.current.toList.flatMap readerLoses

/-- What fits a call: no reader is alive where it changes the status, and whether there is an
active process. -/
def Fits (s : Supervisor) : Prop :=
  match s.main with
  | .idle | .cleaning _ => True
  | .joining _ => s.active = none
  | .setting status | .publishing status =>
    s.active = none ∧ s.handle = none ∧ status.isConnected = false
  | .launching | .failed | .dropped | .failing _ => s.active = none ∧ s.handle = none
  | .activating status => s.active = none ∧ s.handle = none ∧ status.isConnected = true
  | .connecting process status | .announcing process status =>
    s.active = some process ∧ s.handle = none ∧ status.isConnected = true
  | .spawning process | .losing process => s.active = some process ∧ s.handle = none
  | .closing _ _ => s.active = none

/-- When it is told that the App Server has failed or is stopped, every connection is lost. -/
def Settled (log : List Emission) : Prop :=
  ∀ before status rest, log = before ++ .status status :: rest →
    status.isError = true ∨ status = .stopped → ∃ n, connectionEvents before = alternating n

/-- **What holds in every state.** -/
structure Inv (s : Supervisor) : Prop where
  /-- What was told and what is owed about connections. -/
  events : connectionEvents s.log ++ (connects s.main ++ s.openConnections.map .disconnected) =
    alternating s.connections
  /-- What was told and what is owed about the status. -/
  statuses : published s.log ++ (owesStatus s.main ++ s.current.toList.flatMap readerOwesStatus) =
    s.taken
  last : s.taken.getLast? = some s.status
  active : ∀ process, s.active = some process →
    s.status.isConnected = true ∧ process.connection + 1 = s.connections
  fits : s.Fits
  /-- A reader that is alive is the one whose handle is kept. -/
  alive : ∀ i reader, s.readers[i]? = some reader → reader.phase ≠ .done → s.handle = some i
  latest : ∀ reader, s.current = some reader → reader.phase ≠ .done →
    reader.connection + 1 = s.connections
  /-- A reader that has failed took the active process, and nobody else did. -/
  failed : ∀ reader, s.current = some reader → reader.phase ≠ .running → reader.phase ≠ .done →
    s.active = none ∧ loses s.main = []
  own : ∀ reader process, s.current = some reader → reader.phase = .failing process →
    process.connection = reader.connection
  settled : Settled s.log

variable {s : Supervisor}

theorem connectionEvents_append :
    connectionEvents (log ++ more) = connectionEvents log ++ connectionEvents more :=
  List.filter_append ..

theorem published_append :
    published (log ++ more) = published log ++ published more := List.filterMap_append

theorem Settled.append {log : List Emission} (h : Settled log) {emission : Emission}
    (hemission : ∀ status, emission = .status status →
      status.isError = true ∨ status = .stopped → ∃ n, connectionEvents log = alternating n) :
    Settled (log ++ [emission]) := by
  intro before status rest heq hstatus
  rcases List.eq_nil_or_concat rest with rfl | ⟨rest', last, rfl⟩
  · obtain ⟨rfl, hlast⟩ := List.append_inj' heq rfl
    exact hemission status (List.singleton_inj.mp hlast) hstatus
  · rw [List.concat_eq_append, ← List.cons_append, ← List.append_assoc] at heq
    obtain ⟨hlog, -⟩ := List.append_inj' heq rfl
    exact h before status rest' hlog hstatus

/-! ### The call in progress -/

/-- **The call goes on**, and owes what it owed. -/
theorem Inv.goOn (h : s.Inv) (hconnects : connects main = connects s.main)
    (hloses : loses main = loses s.main) (howes : owesStatus main = owesStatus s.main)
    (hfits : ({ s with main } : Supervisor).Fits) : ({ s with main } : Supervisor).Inv :=
  { h with
    events := by
      have hevents := h.events
      rw [openConnections] at hevents ⊢
      rw [hconnects, hloses]
      exact hevents
    statuses := by
      rw [howes]
      exact h.statuses
    fits := hfits
    failed := hloses ▸ h.failed }

theorem Inv.fits_of (h : s.Inv) (hmain : s.main = main) : ({ s with main } : Supervisor).Fits := by
  subst hmain
  exact h.fits

theorem current_of_handle (h : s.handle = none) : s.current = none := by
  rw [current, h]
  rfl

/-- What holds of the reader whose handle is kept holds if there is none. -/
theorem no_reader {P : Prop} (hcurrent : s.current = none) (hreader : s.current = some reader) :
    P := by
  rw [hcurrent] at hreader
  cases hreader

theorem the_reader {P : Reader → Prop} (hcurrent : s.current = some reader) (hP : P reader) :
    ∀ r, s.current = some r → P r := by
  intro r hr
  obtain rfl := Option.some.inj (hcurrent.symm.trans hr)
  exact hP

/-- A status that is set while none is owed is owed. -/
theorem Inv.owes_set (h : s.Inv) (howes : owesStatus s.main = []) (hcurrent : s.current = none)
    (status : RuntimeStatus) :
    published s.log ++ ([status] ++ s.current.toList.flatMap readerOwesStatus) =
      s.taken ++ [status] := by
  have hstatuses := h.statuses
  rw [howes, hcurrent] at hstatuses
  rw [hcurrent, ← hstatuses]
  simp

/-- **A reader was waited for.** -/
theorem Inv.joined (h : s.Inv) (hmain : s.main = .joining purpose) (hjoined : s.isJoined = true) :
    ({ s with handle := none, main := afterJoin purpose } : Supervisor).Inv := by
  have hdone : ∀ reader, s.current = some reader → reader.phase = .done := by
    intro reader hreader
    rw [isJoined, hreader] at hjoined
    simpa using hjoined
  have hactive : s.active = none := h.fits_of hmain
  have hloses : s.current.toList.flatMap readerLoses = [] := by
    cases hcurrent : s.current with
    | none => rfl
    | some reader => simp [readerLoses, hdone reader hcurrent]
  have howes : s.current.toList.flatMap readerOwesStatus = [] := by
    cases hcurrent : s.current with
    | none => rfl
    | some reader => simp [readerOwesStatus, hdone reader hcurrent]
  have hnext : connects (afterJoin purpose) = [] ∧ loses (afterJoin purpose) = [] ∧
      owesStatus (afterJoin purpose) = [] := by cases purpose <;> exact ⟨rfl, rfl, rfl⟩
  refine ⟨?_, ?_, h.last, h.active, ?_, fun i reader hreader halive => ?_,
    fun _ hc => (by cases hc), fun _ hc => (by cases hc), fun _ _ hc => (by cases hc), h.settled⟩
  · have hevents := h.events
    rw [openConnections, hmain, hloses] at hevents
    rw [openConnections]
    dsimp only
    rw [hnext.1, hnext.2.1]
    exact hevents
  · have hstatuses := h.statuses
    rw [hmain, howes] at hstatuses
    dsimp only
    rw [hnext.2.2]
    exact hstatuses
  · cases purpose with
    | start => exact ⟨hactive, rfl, rfl⟩
    | shutdown => exact ⟨hactive, rfl, rfl⟩
    | drop => exact ⟨hactive, rfl⟩
  · -- the reader that was waited for is not alive
    have hhandle := h.alive i reader hreader halive
    refine absurd (hdone reader ?_) halive
    rw [current, hhandle]
    exact hreader

/-- **The call sets the status**, while nobody else owes one. -/
theorem Inv.set (h : s.Inv) (hmain : s.main = .setting status) :
    ({ s.setStatus status with main := .publishing status } : Supervisor).Inv := by
  obtain ⟨hactive, hhandle, hkind⟩ : s.active = none ∧ s.handle = none ∧ _ := h.fits_of hmain
  have hcurrent := current_of_handle hhandle
  refine ⟨?_, h.owes_set (by rw [hmain]; rfl) hcurrent status, List.getLast?_concat,
    fun process hprocess => ?_, ⟨hactive, hhandle, hkind⟩, h.alive,
      fun _ hr => no_reader hcurrent hr,
    fun _ hr => no_reader hcurrent hr, fun _ _ hr => no_reader hcurrent hr, h.settled⟩
  · have hevents := h.events
    rw [openConnections, hmain] at hevents
    exact hevents
  · exact absurd (hactive.symm.trans hprocess) (by simp)

/-- **The call tells the status that it owes.** -/
theorem Inv.publish (h : s.Inv) (hconnects : connects main = connects s.main)
    (hloses : loses main = loses s.main) (howes : owesStatus s.main = status :: owesStatus main)
    (hfits : ({ s.emit (.status status) with main } : Supervisor).Fits)
    (hsettled : status.isError = true ∨ status = .stopped →
      connects s.main = [] ∧ s.openConnections = []) :
    ({ s.emit (.status status) with main } : Supervisor).Inv :=
  { h with
    events := by
      have hevents := h.events
      rw [openConnections] at hevents ⊢
      rw [hconnects, hloses]
      change connectionEvents (s.log ++ [.status status]) ++ _ = _
      rw [connectionEvents_append]
      exact (List.append_nil (connectionEvents s.log)).symm ▸ hevents
    statuses := by
      have hstatuses := h.statuses
      rw [howes] at hstatuses
      change published (s.log ++ [.status status]) ++ _ = s.taken
      rw [published_append, ← hstatuses, List.append_assoc]
      rfl
    fits := hfits
    failed := hloses ▸ h.failed
    settled := by
      refine h.settled.append fun status' heq hstatus => ?_
      cases heq
      obtain ⟨hnone, hopen⟩ := hsettled hstatus
      have hevents := h.events
      rw [hnone, hopen, List.map_nil, List.append_nil, List.append_nil] at hevents
      exact ⟨_, hevents⟩ }

/-- **The call tells that a connection is lost.** -/
theorem Inv.disconnect (h : s.Inv) {connection : ℕ} (hconnects : connects s.main = [])
    (hconnects' : connects main = []) (hloses : loses s.main = [connection])
    (hloses' : loses main = []) (howes : owesStatus main = owesStatus s.main)
    (hactive : s.active = none) (hcurrent : s.current.toList.flatMap readerLoses = [])
    (hfits : ({ s.emit (.disconnected connection) with main } : Supervisor).Fits) :
    ({ s.emit (.disconnected connection) with main } : Supervisor).Inv :=
  { h with
    events := by
      have hevents := h.events
      rw [openConnections, hconnects, hloses, hactive, hcurrent] at hevents
      rw [openConnections, hconnects', hloses']
      change connectionEvents (s.log ++ [.disconnected connection]) ++ ([] ++ List.map _
        (s.active.toList.map ActiveProcess.connection ++ [] ++
          s.current.toList.flatMap readerLoses)) = _
      rw [connectionEvents_append, hactive, hcurrent, List.append_assoc]
      exact hevents
    statuses := by
      rw [howes]
      change published (s.log ++ [.disconnected connection]) ++ _ = s.taken
      rw [published_append, show published [.disconnected connection] = [] from rfl,
        List.append_nil]
      exact h.statuses
    fits := hfits
    failed reader hreader hrunning hdone := ⟨hactive, hloses'⟩
    settled := h.settled.append fun _ heq => (by cases heq) }

/-- **A connection becomes the active one.** -/
theorem Inv.activate (h : s.Inv) (hmain : s.main = .activating status) :
    (s.activate status).Inv := by
  obtain ⟨hactive, hhandle, hkind⟩ : s.active = none ∧ s.handle = none ∧ _ := h.fits_of hmain
  have hcurrent := current_of_handle hhandle
  refine ⟨?_, h.owes_set (by rw [hmain]; rfl) hcurrent status, List.getLast?_concat,
    fun process hprocess => ?_, ⟨rfl, hhandle, hkind⟩, h.alive, fun _ hr => no_reader hcurrent hr,
    fun _ hr => no_reader hcurrent hr, fun _ _ hr => no_reader hcurrent hr, h.settled⟩
  · have hevents := h.events
    rw [openConnections, hmain, hactive, hcurrent] at hevents
    change connectionEvents s.log ++ ([.connected s.connections] ++ List.map .disconnected
      ([s.connections] ++ [] ++ s.current.toList.flatMap readerLoses)) =
        alternating s.connections ++ _
    rw [hcurrent, ← hevents]
    simp [connects, loses]
  · obtain rfl := Option.some.inj hprocess
    exact ⟨hkind, rfl⟩

/-- **The call tells that a connection is made.** -/
theorem Inv.connect (h : s.Inv) (hmain : s.main = .connecting process status) :
    ({ s.emit (.connected process.connection) with main := .announcing process status } :
      Supervisor).Inv := by
  obtain ⟨hactive, hhandle, hkind⟩ : s.active = some process ∧ s.handle = none ∧ _ :=
    h.fits_of hmain
  have hcurrent := current_of_handle hhandle
  refine ⟨?_, ?_, h.last, h.active, ⟨hactive, hhandle, hkind⟩, h.alive,
    fun _ hr => no_reader hcurrent hr,
    fun _ hr => no_reader hcurrent hr, fun _ _ hr => no_reader hcurrent hr,
    h.settled.append fun _ heq => (by cases heq)⟩
  · have hevents := h.events
    rw [openConnections, hmain] at hevents
    change connectionEvents (s.log ++ [.connected process.connection]) ++ ([] ++ List.map _
      (s.active.toList.map ActiveProcess.connection ++ [] ++ s.current.toList.flatMap
        readerLoses)) = _
    rw [connectionEvents_append, List.append_assoc]
    exact hevents
  · have hstatuses := h.statuses
    rw [hmain] at hstatuses
    change published (s.log ++ [.connected process.connection]) ++ _ = s.taken
    rw [published_append, show published [.connected process.connection] = [] from rfl,
      List.append_nil]
    exact hstatuses

/-- **How an active process is taken**: it is of another generation, or there is none; or it is
taken, and the status is set. -/
theorem failActive_cases (s : Supervisor) (generation : UInt64) :
    (s.failActive generation = none ∧ ∀ process, s.active = some process →
        process.generation ≠ generation) ∨
      ∃ process, s.active = some process ∧
        s.failActive generation =
          some (process, { s.setStatus startupErrorStatus with active := none }) := by
  rw [failActive]
  cases s.active with
  | none => exact Or.inl ⟨rfl, fun _ h => (by cases h)⟩
  | some process =>
    dsimp only
    by_cases hsame : process.generation = generation
    · rw [if_pos hsame]
      exact Or.inr ⟨process, rfl, rfl⟩
    · rw [if_neg hsame]
      refine Or.inl ⟨rfl, fun p hp => ?_⟩
      rwa [← Option.some.inj hp]

/-- **The reader could not be started**: the connection has failed. -/
theorem Inv.lose (h : s.Inv) (hmain : s.main = .losing process) : s.proceed.Inv := by
  obtain ⟨hactive, hhandle⟩ : s.active = some process ∧ s.handle = none := h.fits_of hmain
  have hcurrent := current_of_handle hhandle
  have hnext : s.proceed =
      { s.setStatus startupErrorStatus with active := none, main := .failing process } := by
    rw [proceed, hmain]
    dsimp only
    rw [failActive, hactive]
    dsimp only
    rw [if_pos rfl]
  rw [hnext]
  refine ⟨?_, h.owes_set (by rw [hmain]; rfl) hcurrent _, List.getLast?_concat,
    fun p hp => (by cases hp), ⟨rfl, hhandle⟩, h.alive, fun _ hr => no_reader hcurrent hr,
    fun _ hr => no_reader hcurrent hr, fun _ _ hr => no_reader hcurrent hr, h.settled⟩
  have hevents := h.events
  rw [openConnections, hmain, hactive] at hevents
  exact hevents

/-- **The call takes the active process**, to close its connection. -/
theorem Inv.take (h : s.Inv) (hmain : s.main = .cleaning purpose)
    (hactive : s.active = some process) :
    ({ s with active := none, main := .closing process purpose } : Supervisor).Inv := by
  refine ⟨?_, ?_, h.last, fun p hp => (by cases hp), rfl, h.alive, h.latest,
    fun reader hreader hrunning hdone => ?_, h.own, h.settled⟩
  · have hevents := h.events
    rw [openConnections, hmain, hactive] at hevents
    exact hevents
  · have hstatuses := h.statuses
    rw [hmain] at hstatuses
    exact hstatuses
  · -- a reader that has failed would have taken it
    exact absurd (hactive.symm.trans (h.failed reader hreader hrunning hdone).1) (by simp)

/-- **A reader is started.** -/
theorem Inv.spawn (h : s.Inv) (hmain : s.main = .spawning process) :
    ({ s with
      readers := s.readers ++ [⟨process.generation, process.connection, .running⟩]
      handle := some s.readers.length
      main := .idle } : Supervisor).Inv := by
  obtain ⟨hactive, hhandle⟩ : s.active = some process ∧ s.handle = none := h.fits_of hmain
  set next : Supervisor := { s with
    readers := s.readers ++ [⟨process.generation, process.connection, .running⟩]
    handle := some s.readers.length
    main := .idle } with hnext
  have hcurrent : next.current = some ⟨process.generation, process.connection, .running⟩ :=
    List.getElem?_concat_length
  refine ⟨?_, ?_, h.last, h.active, trivial, fun i reader hreader halive => ?_,
    the_reader hcurrent fun _ => (h.active process hactive).2,
    the_reader hcurrent fun hrunning => absurd rfl hrunning,
    fun _ _ hr hfailing => (by cases Option.some.inj (hcurrent.symm.trans hr); cases hfailing),
      h.settled⟩
  · have hevents := h.events
    rw [openConnections, hmain, current_of_handle hhandle] at hevents
    rw [openConnections, hcurrent]
    exact hevents
  · have hstatuses := h.statuses
    rw [hmain, current_of_handle hhandle] at hstatuses
    rw [hcurrent]
    exact hstatuses
  · rcases Nat.lt_trichotomy i s.readers.length with hlt | heq | hgt
    · -- the earlier readers have ended
      have hearlier : s.readers[i]? = some reader := by
        rw [← hreader, hnext, List.getElem?_append_left hlt]
      exact absurd (hhandle.symm.trans (h.alive i reader hearlier halive)) (by simp)
    · rw [heq]
    · rw [hnext, List.getElem?_eq_none (by simp; omega)] at hreader
      cases hreader

/-! ### The readers -/

/-- While a reader may be alive, the call owes neither a connection nor a status. -/
theorem Inv.of_handle (h : s.Inv) (hhandle : s.handle = some i) :
    connects s.main = [] ∧ owesStatus s.main = [] := by
  have hfits := h.fits
  rw [Fits] at hfits
  generalize s.main = main at hfits ⊢
  cases main <;> simp_all [connects, owesStatus]

/-- While a reader may be alive and there is an active process, the call has not taken one. -/
theorem Inv.of_handle_active (h : s.Inv) (hhandle : s.handle = some i)
    (hactive : s.active = some process) :
    s.main = .idle ∨ ∃ purpose, s.main = .cleaning purpose := by
  have hfits := h.fits
  rw [Fits] at hfits
  generalize s.main = main at hfits ⊢
  cases main <;> simp_all

theorem current_setReader (hhandle : s.handle = some i) (hreader : s.readers[i]? = some reader)
    (phase : ReaderPhase) : (s.setReader i reader phase).current = some { reader with phase } := by
  obtain ⟨hlt, -⟩ := List.getElem?_eq_some_iff.mp hreader
  change s.handle.bind _ = _
  rw [hhandle]
  exact List.getElem?_set_self hlt

theorem alive_setReader (h : s.Inv) (hhandle : s.handle = some i) (phase : ReaderPhase) :
    ∀ j r, (s.setReader i reader phase).readers[j]? = some r →
      r.phase ≠ .done → s.handle = some j := by
  intro j r hr halive
  by_cases hj : i = j
  · rw [hhandle, hj]
  · rw [setReader, List.getElem?_set_ne hj] at hr
    exact h.alive j r hr halive

/-- A reader that is alive is the one whose handle is kept. -/
theorem Inv.current_of_alive (h : s.Inv) (hreader : s.readers[i]? = some reader)
    (halive : reader.phase ≠ .done) : s.handle = some i ∧ s.current = some reader := by
  have hhandle := h.alive i reader hreader halive
  refine ⟨hhandle, ?_⟩
  rw [current, hhandle]
  exact hreader

/-- **A reader ends without having failed.** -/
theorem Inv.endReader (h : s.Inv) (hreader : s.readers[i]? = some reader)
    (hrunning : reader.phase = .running) : (s.setReader i reader .done).Inv := by
  obtain ⟨hhandle, hbefore⟩ := h.current_of_alive hreader (by rw [hrunning]; simp)
  have hcurrent := current_setReader hhandle hreader .done
  have hloses : (some reader).toList.flatMap readerLoses = [] := by simp [readerLoses, hrunning]
  have howes : (some reader).toList.flatMap readerOwesStatus = [] := by
    simp [readerOwesStatus, hrunning]
  refine ⟨?_, ?_, h.last, h.active, h.fits, alive_setReader h hhandle .done,
    the_reader hcurrent fun hdone => absurd rfl hdone,
    the_reader hcurrent fun _ hdone => absurd rfl hdone,
    fun _ _ hr hfailing => (by cases Option.some.inj (hcurrent.symm.trans hr); cases hfailing),
      h.settled⟩
  · have hevents := h.events
    rw [openConnections, hbefore, hloses] at hevents
    rw [openConnections, hcurrent]
    exact hevents
  · have hstatuses := h.statuses
    rw [hbefore, howes] at hstatuses
    rw [hcurrent]
    exact hstatuses

/-- **A reader fails and takes the active process**, which is its own. -/
theorem Inv.failReader (h : s.Inv) (hreader : s.readers[i]? = some reader)
    (hrunning : reader.phase = .running) (hactive : s.active = some process) :
    (Supervisor.setReader { s.setStatus startupErrorStatus with active := none } i reader
      (.failing process)).Inv := by
  have halive : reader.phase ≠ .done := by rw [hrunning]; simp
  obtain ⟨hhandle, hbefore⟩ := h.current_of_alive hreader halive
  have hmain := h.of_handle_active hhandle hactive
  set next : Supervisor := Supervisor.setReader
    { s.setStatus startupErrorStatus with active := none } i reader (.failing process) with hnext
  have hcurrent : next.current = some { reader with phase := .failing process } := by
    refine current_setReader ?_ ?_ _
    · exact hhandle
    · exact hreader
  -- the call owes nothing, and owes nothing afterwards
  obtain ⟨hconnects, hloses, howes, hfits⟩ :
      connects s.main = [] ∧ loses s.main = [] ∧ owesStatus s.main = [] ∧ next.Fits := by
    rcases hmain with hmain | ⟨purpose, hmain⟩
    · have hsame : next.main = .idle := hmain
      rw [Fits, hsame, hmain]
      exact ⟨rfl, rfl, rfl, trivial⟩
    · have hsame : next.main = .cleaning purpose := hmain
      rw [Fits, hsame, hmain]
      exact ⟨rfl, rfl, rfl, trivial⟩
  refine ⟨?_, ?_, List.getLast?_concat, fun p hp => (by cases hp), hfits, fun j r hr hlive => ?_,
    the_reader hcurrent fun _ => h.latest reader hbefore halive, fun r hr _ _ => ⟨rfl, hloses⟩,
    fun r p hr hfailing => ?_, h.settled⟩
  · have hevents := h.events
    rw [openConnections, hbefore, hactive, hloses, hconnects] at hevents
    rw [openConnections, hcurrent]
    change connectionEvents s.log ++ (connects s.main ++ List.map _ ([] ++ loses s.main ++ _)) =
      alternating s.connections
    rw [hloses, hconnects, ← hevents]
    simp [readerLoses, hrunning]
  · have hstatuses := h.statuses
    rw [hbefore, howes] at hstatuses
    rw [hcurrent]
    change published s.log ++ (owesStatus s.main ++ _) = s.taken ++ [startupErrorStatus]
    rw [howes, ← hstatuses]
    simp [readerOwesStatus, hrunning]
  · by_cases hj : i = j
    · exact hj ▸ hhandle
    · rw [hnext, setReader, List.getElem?_set_ne hj] at hr
      exact h.alive j r hr hlive
  · obtain rfl := Option.some.inj (hcurrent.symm.trans hr)
    obtain rfl : process = p := ReaderPhase.failing.inj hfailing
    -- the active process is of the latest connection, and so is the reader
    have hprocess := (h.active process hactive).2
    have hlatest := h.latest reader hbefore halive
    dsimp only
    omega

/-- **A reader tells that its connection is lost.** -/
theorem Inv.readerDisconnects (h : s.Inv) (hreader : s.readers[i]? = some reader)
    (hfailing : reader.phase = .failing process) :
    ((s.emit (.disconnected process.connection)).setReader i reader .failed).Inv := by
  have halive : reader.phase ≠ .done := by rw [hfailing]; simp
  obtain ⟨hhandle, hbefore⟩ := h.current_of_alive hreader halive
  obtain ⟨hactive, hloses⟩ := h.failed reader hbefore (by rw [hfailing]; simp) halive
  obtain ⟨hconnects, howes⟩ := h.of_handle hhandle
  have hcurrent := current_setReader (s := s.emit (.disconnected process.connection)) hhandle
    hreader .failed
  refine ⟨?_, ?_, h.last, h.active, h.fits, alive_setReader h hhandle .failed,
    the_reader hcurrent fun _ => h.latest reader hbefore halive,
    fun r hr _ _ => ⟨hactive, hloses⟩,
    fun _ _ hr hfailing => (by cases Option.some.inj (hcurrent.symm.trans hr); cases hfailing),
    h.settled.append fun _ heq => (by cases heq)⟩
  · have hevents := h.events
    rw [openConnections, hbefore, hactive, hloses, hconnects] at hevents
    rw [openConnections, hcurrent]
    change connectionEvents (s.log ++ [.disconnected process.connection]) ++ (connects s.main ++
      List.map _ (s.active.toList.map _ ++ loses s.main ++ _)) = alternating s.connections
    rw [connectionEvents_append, hloses, hconnects, hactive, ← hevents]
    simp [readerLoses, hfailing, connectionEvents]
  · have hstatuses := h.statuses
    rw [hbefore, howes] at hstatuses
    rw [hcurrent]
    change published (s.log ++ [.disconnected process.connection]) ++ (owesStatus s.main ++ _) =
      s.taken
    rw [published_append, howes, ← hstatuses]
    simp [readerOwesStatus, hfailing, published]

/-- **A reader tells that the App Server has failed**, and ends. -/
theorem Inv.readerPublishes (h : s.Inv) (hreader : s.readers[i]? = some reader)
    (hfailed : reader.phase = .failed) :
    ((s.emit (.status startupErrorStatus)).setReader i reader .done).Inv := by
  have halive : reader.phase ≠ .done := by rw [hfailed]; simp
  obtain ⟨hhandle, hbefore⟩ := h.current_of_alive hreader halive
  obtain ⟨hactive, hloses⟩ := h.failed reader hbefore (by rw [hfailed]; simp) halive
  obtain ⟨hconnects, howes⟩ := h.of_handle hhandle
  have hcurrent := current_setReader (s := s.emit (.status startupErrorStatus)) hhandle hreader
    .done
  have hevents : connectionEvents s.log = alternating s.connections := by
    have hevents := h.events
    rw [openConnections, hbefore, hactive, hloses, hconnects] at hevents
    simpa [readerLoses, hfailed] using hevents
  refine ⟨?_, ?_, h.last, h.active, h.fits, alive_setReader h hhandle .done,
    the_reader hcurrent fun hdone => absurd rfl hdone,
    the_reader hcurrent fun _ hdone => absurd rfl hdone,
    fun _ _ hr hfailing => (by cases Option.some.inj (hcurrent.symm.trans hr); cases hfailing),
    h.settled.append fun _ _ _ => ⟨_, hevents⟩⟩
  · rw [openConnections, hcurrent]
    change connectionEvents (s.log ++ [.status startupErrorStatus]) ++ (connects s.main ++
      List.map _ (s.active.toList.map _ ++ loses s.main ++ _)) = alternating s.connections
    rw [connectionEvents_append, hloses, hconnects, hactive, hevents]
    simp [readerLoses, connectionEvents]
  · have hstatuses := h.statuses
    rw [hbefore, howes] at hstatuses
    rw [hcurrent]
    change published (s.log ++ [.status startupErrorStatus]) ++ (owesStatus s.main ++ _) = s.taken
    rw [published_append, howes, ← hstatuses]
    simp [readerOwesStatus, hfailed, published]

/-! ### Every step -/

/-- A call that is alone and has no active process has left no connection open. -/
theorem openConnections_eq_nil (hactive : s.active = none) (hhandle : s.handle = none)
    (hloses : loses s.main = []) : s.openConnections = [] := by
  rw [openConnections, hactive, hloses, current_of_handle hhandle]
  rfl

theorem Inv.proceed (h : s.Inv) : s.proceed.Inv := by
  have hfits := h.fits
  rw [Fits] at hfits
  cases hmain : s.main with
  | idle | launching | spawning process | dropped =>
    rw [Supervisor.proceed, hmain]
    exact h
  | joining purpose =>
    rw [Supervisor.proceed, hmain]
    dsimp only
    split
    · exact h.joined hmain ‹_›
    · exact h
  | setting status =>
    rw [Supervisor.proceed, hmain]
    exact h.set hmain
  | publishing status =>
    rw [hmain] at hfits
    obtain ⟨hactive, hhandle, -⟩ := hfits
    have hloses : loses s.main = [] := by rw [hmain]; rfl
    have hsettled : status.isError = true ∨ status = .stopped →
        connects s.main = [] ∧ s.openConnections = [] :=
      fun _ => ⟨by rw [hmain]; rfl, openConnections_eq_nil hactive hhandle hloses⟩
    rw [Supervisor.proceed, hmain]
    dsimp only
    split
    · exact h.publish (by rw [hmain]; rfl) (by rw [hmain]; rfl) (by rw [hmain]; rfl)
        ⟨hactive, hhandle⟩ hsettled
    · exact h.publish (by rw [hmain]; rfl) (by rw [hmain]; rfl) (by rw [hmain]; rfl)
        trivial hsettled
  | activating status =>
    rw [Supervisor.proceed, hmain]
    exact h.activate hmain
  | connecting process status =>
    rw [Supervisor.proceed, hmain]
    exact h.connect hmain
  | announcing process status =>
    rw [hmain] at hfits
    obtain ⟨hactive, hhandle, hkind⟩ := hfits
    rw [Supervisor.proceed, hmain]
    refine h.publish ?_ ?_ ?_ ⟨hactive, hhandle⟩ fun hstatus => ?_
    · rw [hmain]
      rfl
    · rw [hmain]
      rfl
    · rw [hmain]
      rfl
    · -- the status of a connection is no error
      cases status with
      | connected => rcases hstatus with hstatus | hstatus <;> cases hstatus
      | starting | error | stopped => cases hkind
  | losing process => exact h.lose hmain
  | failing process =>
    rw [hmain] at hfits
    obtain ⟨hactive, hhandle⟩ := hfits
    rw [Supervisor.proceed, hmain]
    refine h.disconnect ?_ rfl ?_ rfl ?_ hactive ?_ ⟨hactive, hhandle⟩
    · rw [hmain]
      rfl
    · rw [hmain]
      rfl
    · rw [hmain]
      rfl
    · rw [current_of_handle hhandle]
      rfl
  | failed =>
    rw [hmain] at hfits
    obtain ⟨hactive, hhandle⟩ := hfits
    have hloses : loses s.main = [] := by rw [hmain]; rfl
    rw [Supervisor.proceed, hmain]
    refine h.publish ?_ ?_ ?_ trivial fun _ => ⟨by rw [hmain]; rfl,
      openConnections_eq_nil hactive hhandle hloses⟩
    · rw [hmain]
      rfl
    · rw [hloses]
      rfl
    · rw [hmain]
      rfl
  | cleaning purpose =>
    rw [Supervisor.proceed, hmain]
    dsimp only
    split
    · exact h.take hmain ‹_›
    · rename_i hactive
      exact h.goOn (by rw [hmain]; rfl) (by rw [hmain]; rfl) (by rw [hmain]; rfl) hactive
  | closing process purpose =>
    rw [hmain] at hfits
    rw [Supervisor.proceed, hmain]
    have hloses : loses s.main = [process.connection] := by rw [hmain]; rfl
    refine h.disconnect ?_ rfl hloses rfl ?_ hfits ?_ hfits
    · rw [hmain]
      rfl
    · rw [hmain]
      rfl
    · -- the call took the process, and so the reader did not
      cases hcurrent : s.current with
      | none => rfl
      | some reader =>
        cases hphase : reader.phase with
        | running | failed | done => simp [readerLoses, hphase]
        | failing own =>
          have hnone := (h.failed reader hcurrent (by rw [hphase]; simp) (by rw [hphase]; simp)).2
          rw [hloses] at hnone
          cases hnone

theorem Inv.beginStart (h : s.Inv) (hmain : s.main = .idle) : s.beginStart.Inv := by
  have hinactive : s.status.isConnected = false → s.active = none := by
    intro hstatus
    cases hactive : s.active with
    | none => rfl
    | some process =>
      rw [(h.active process hactive).1] at hstatus
      cases hstatus
  have hgo : s.active = none → ({ s with main := .joining .start } : Supervisor).Inv :=
    fun hactive => h.goOn (by rw [hmain]; rfl) (by rw [hmain]; rfl) (by rw [hmain]; rfl) hactive
  rw [Supervisor.beginStart]
  split
  · exact h
  · exact h
  · rename_i hstatus
    exact hgo (hinactive (by rw [hstatus]; rfl))
  · rename_i hstatus
    exact hgo (hinactive (by rw [hstatus]; rfl))

/-- **One step keeps the invariant.** -/
theorem Inv.step (h : s.Inv) (o : SupervisorStep) : (s.step o).Inv := by
  -- an idle call owes nothing, and neither does one that has just begun
  have hgo : ∀ {main}, connects s.main = [] → loses s.main = [] → owesStatus s.main = [] →
      connects main = [] → loses main = [] → owesStatus main = [] →
      ({ s with main } : Supervisor).Fits → ({ s with main } : Supervisor).Inv :=
    fun h₁ h₂ h₃ h₁' h₂' h₃' hfits =>
      h.goOn (h₁'.trans h₁.symm) (h₂'.trans h₂.symm) (h₃'.trans h₃.symm) hfits
  cases o with
  | start =>
    rw [Supervisor.step]
    split
    · exact h.beginStart ‹_›
    · exact h
  | retry =>
    rw [Supervisor.step]
    split
    · rename_i hidle
      exact h.beginStart hidle.1
    · exact h
  | shutdown =>
    rw [Supervisor.step]
    split
    · rename_i hidle
      have hmain := hidle.1
      refine hgo ?_ ?_ ?_ rfl rfl rfl trivial <;> rw [hmain] <;> rfl
    · exact h
  | drop =>
    rw [Supervisor.step]
    split
    · rename_i hmain
      refine hgo ?_ ?_ ?_ rfl rfl rfl trivial <;> rw [hmain] <;> rfl
    · exact h
  | proceed => exact h.proceed
  | launched appVersion appServerUserAgent platform codexHome =>
    rw [Supervisor.step]
    split
    · rename_i hmain
      have hfits := h.fits
      rw [Fits, hmain] at hfits
      refine hgo ?_ ?_ ?_ rfl rfl rfl ⟨hfits.1, hfits.2, rfl⟩ <;> rw [hmain] <;> rfl
    · exact h
  | launchFailed =>
    rw [Supervisor.step]
    split
    · rename_i hmain
      have hfits := h.fits
      rw [Fits, hmain] at hfits
      refine hgo ?_ ?_ ?_ rfl rfl rfl ⟨hfits.1, hfits.2, rfl⟩ <;> rw [hmain] <;> rfl
    · exact h
  | spawned =>
    rw [Supervisor.step]
    split
    · exact h.spawn ‹_›
    · exact h
  | notSpawned =>
    rw [Supervisor.step]
    split
    · rename_i hmain
      have hfits := h.fits
      rw [Fits, hmain] at hfits
      refine hgo ?_ ?_ ?_ rfl rfl rfl hfits <;> rw [hmain] <;> rfl
    · exact h
  | readerFails i =>
    rw [Supervisor.step]
    split
    · rename_i reader hreader
      split
      · rename_i hrunning
        rcases failActive_cases s reader.generation with ⟨heq, -⟩ | ⟨process, hactive, heq⟩
        · rw [heq]
          exact h.endReader hreader hrunning
        · rw [heq]
          exact h.failReader hreader hrunning hactive
      · exact h
    · exact h
  | readerProceeds i =>
    rw [Supervisor.step]
    split
    · rename_i reader hreader
      split
      · exact h.readerDisconnects hreader ‹_›
      · exact h.readerPublishes hreader ‹_›
      · exact h
      · exact h
    · exact h
  | readerEnds i =>
    rw [Supervisor.step]
    split
    · rename_i reader hreader
      split
      · exact h.endReader hreader ‹_›
      · exact h
    · exact h

theorem inv_new : new.Inv where
  events := rfl
  statuses := rfl
  last := rfl
  active _ h := by cases h
  fits := trivial
  alive _ _ h := by cases h
  latest _ h := by cases h
  failed _ h := by cases h
  own _ _ h := by cases h
  settled before status rest heq _ := by
    cases before with
    | nil => exact ⟨0, rfl⟩
    | cons first before => cases before <;> cases heq

/-! ### The statement -/

/-- Where connections are made and lost in turn, no two can be owed to be lost. -/
theorem eq_of_alternating {told : List Emission} {lost : List ℕ} {n : ℕ}
    (h : told ++ lost.map .disconnected = alternating n) :
    told = alternating n ∨ ∃ m, n = m + 1 ∧ told = alternating m ++ [.connected m] := by
  rcases List.eq_nil_or_concat lost with rfl | ⟨lost, last, rfl⟩
  · rw [List.map_nil, List.append_nil] at h
    exact Or.inl h
  cases n with
  | zero => simp [alternating] at h
  | succ m =>
    rw [List.concat_eq_append, List.map_append, ← List.append_assoc, alternating,
      show [Emission.connected m, .disconnected m] = [.connected m] ++ [.disconnected m] from rfl,
      ← List.append_assoc] at h
    obtain ⟨hinit, -⟩ := List.append_inj' h rfl
    refine Or.inr ⟨m, rfl, ?_⟩
    rcases List.eq_nil_or_concat lost with rfl | ⟨lost, other, rfl⟩
    · rw [List.map_nil, List.append_nil] at hinit
      exact hinit
    · rw [List.concat_eq_append, List.map_append, ← List.append_assoc] at hinit
      obtain ⟨-, hlast⟩ := List.append_inj' hinit rfl
      cases hlast

/-- A reader is in the middle of failing. -/
def isFailing (reader : Reader) : Bool :=
  match reader.phase with
  | .failing _ | .failed => true
  | .running | .done => false

/-- **The observers are told in order.** In whatever order the calls and the readers take their
steps:

* what is told about connections is that they are made and lost in turn, beginning with the
  first that is made;
* when an error or a stop is told, every connection that was told to be made was told to be lost
  before;
* the statuses that are told are those that the lifecycle took, in their order, and when no call
  is in progress and no reader is in the middle of failing, all of them are told and the last
  one is the status of the lifecycle;
* a reader that has failed ends its own connection and no other. -/
theorem observers_are_told_in_order (steps : List SupervisorStep) :
    let s := Run.after step new steps
    (connectionEvents s.log = alternating s.connections ∨
      ∃ n, s.connections = n + 1 ∧ (connectionEvents s.log = alternating n ∨
        connectionEvents s.log = alternating n ++ [.connected n])) ∧
    (∀ before status rest, s.log = before ++ .status status :: rest →
      status.isError = true ∨ status = .stopped → ∃ n, connectionEvents before = alternating n) ∧
    published s.log <+: s.taken ∧
    (s.main = .idle ∨ s.main = .dropped → (∀ reader ∈ s.readers, isFailing reader = false) →
      published s.log = s.taken ∧ (published s.log).getLast? = some s.status) ∧
    ∀ reader ∈ s.readers, ∀ process, reader.phase = .failing process →
      process.connection = reader.connection := by
  intro s
  have h : s.Inv := Run.invariant (I := Inv) (fun _ o h => h.step o) inv_new steps
  refine ⟨?_, h.settled, ?_, fun hidle hreaders => ?_, fun reader hreader process hfailing => ?_⟩
  · have hevents := h.events
    by_cases hconnects : connects s.main = []
    · rw [hconnects, List.nil_append] at hevents
      rcases eq_of_alternating hevents with hall | ⟨n, hn, hone⟩
      · exact Or.inl hall
      · exact Or.inr ⟨n, hn, Or.inr hone⟩
    · -- the observers were not told yet of the connection that was just made
      have hfits := h.fits
      cases hmain : s.main with
      | connecting process status =>
        rw [Fits, hmain] at hfits
        obtain ⟨hactive, hhandle, -⟩ := hfits
        have hconnection := (h.active process hactive).2
        rw [openConnections, hmain, hactive, current_of_handle hhandle, ← hconnection,
          alternating] at hevents
        obtain ⟨hall, -⟩ := List.append_inj' hevents rfl
        exact Or.inr ⟨process.connection, hconnection.symm, Or.inl hall⟩
      | _ =>
        rw [hmain] at hconnects
        exact absurd rfl hconnects
  · rw [← h.statuses]
    exact List.prefix_append _ _
  · have howes : owesStatus s.main = [] := by
      rcases hidle with hidle | hidle <;> rw [hidle] <;> rfl
    have hnone : s.current.toList.flatMap readerOwesStatus = [] := by
      cases hcurrent : s.current with
      | none => rfl
      | some reader =>
        have hmem : reader ∈ s.readers := by
          obtain ⟨i, -, hi⟩ := Option.bind_eq_some_iff.mp hcurrent
          exact List.mem_of_getElem? hi
        have hquiet := hreaders reader hmem
        cases hphase : reader.phase <;> simp_all [isFailing, readerOwesStatus]
    have hstatuses := h.statuses
    rw [howes, hnone, List.append_nil, List.append_nil] at hstatuses
    rw [hstatuses]
    exact ⟨rfl, h.last⟩
  · obtain ⟨i, hi⟩ := List.getElem?_of_mem hreader
    have hhandle := h.alive i reader hi (by rw [hfailing]; simp)
    refine h.own reader process ?_ hfailing
    rw [current, hhandle]
    exact hi

/-- A reader that is alive is the only one. -/
theorem Inv.eq_of_alive (h : s.Inv) {i j : ℕ} {reader other : Reader}
    (hi : s.readers[i]? = some reader) (hj : s.readers[j]? = some other)
    (hreader : reader.phase ≠ .done) (hother : other.phase ≠ .done) : i = j :=
  Option.some.inj ((h.alive i reader hi hreader).symm.trans (h.alive j other hj hother))

/-- **One App Server at a time.** In whatever order the calls and the readers take their steps, at
most one reader is alive; a process is active only while the status is connected, and it is the
one whose connection was made last; and from the moment when a call sets out to launch an App
Server until it has made the connection no process is active and every reader has ended. -/
theorem one_app_server_at_a_time (steps : List SupervisorStep) :
    let s := Run.after step new steps
    (∀ (i j : ℕ) (reader other : Reader), s.readers[i]? = some reader → s.readers[j]? = some other →
      reader.phase ≠ .done → other.phase ≠ .done → i = j) ∧
    (∀ process, s.active = some process →
      s.status.isConnected = true ∧ process.connection + 1 = s.connections) ∧
    (s.main = .launching ∨ (∃ status, s.main = .activating status) →
      s.active = none ∧ ∀ reader ∈ s.readers, reader.phase = .done) := by
  intro s
  have h : s.Inv := Run.invariant (I := Inv) (fun _ o h => h.step o) inv_new steps
  refine ⟨fun i j reader other => h.eq_of_alive, h.active, fun hmain => ?_⟩
  obtain ⟨hactive, hhandle⟩ : s.active = none ∧ s.handle = none := by
    have hfits := h.fits
    rcases hmain with hmain | ⟨status, hmain⟩
    · rw [Fits, hmain] at hfits
      exact hfits
    · rw [Fits, hmain] at hfits
      exact ⟨hfits.1, hfits.2.1⟩
  refine ⟨hactive, fun reader hreader => ?_⟩
  -- a reader that were alive would be the one whose handle is kept
  by_contra halive
  obtain ⟨i, hi⟩ := List.getElem?_of_mem hreader
  have hkept := h.alive i reader hi halive
  rw [hhandle] at hkept
  cases hkept

end Supervisor

end Rivloom.AppServer
