import Mathlib.Data.List.Perm.Basic
import Rivloom.Lib.Run
import Rivloom.Lib.RustStd
import Rivloom.NetworkProxy.Constraints

/-!
# The log of blocked requests

The state of the proxy is one value behind a lock (`runtime.rs`): the configuration, what was
compiled from it, and the log of the requests that were blocked, with their total. Requests are
recorded and drained under the lock, and the log keeps the last two hundred. The configuration
is replaced while all this goes on: nearly every call asks the reloader first whether there is
a new one (`reload_if_needed`), a domain can be added to a list (`update_domain_list`), and a
reload can be forced.

The log is carried over to the new state, but not always under the lock. `reload_if_needed` and
`update_domain_list` copy the log, let go of the lock and write the copy back later: what was
recorded meanwhile is lost, and what was drained comes back. And `force_reload` carries the log
but not the total (`Rivloom.NetworkProxy.log_is_written_back`). In every run in which the log is
written back as it is, and no total is dropped (`Rivloom.NetworkProxy.WritesLogBack`), each
request is drained at most once, is lost to the bound of the log only, and is counted
(`Rivloom.NetworkProxy.blocked_log_is_accounted`).

The requests of a run are numbered, so that two that look alike are told apart, and a run keeps
what was recorded, evicted and drained.
-/

namespace Rivloom.NetworkProxy

/-! ### The state behind the lock -/

structure BlockedRequest where
  host : String
  reason : String
  client : Option String
  method : Option String
  mode : Option NetworkMode
  protocol : String
  executionId : Option String
  decision : Option String
  source : Option String
  port : Option ℕ
  timestamp : ℤ
  deriving DecidableEq

/-- A request in the log, with its number. -/
structure Recorded where
  serial : ℕ
  request : BlockedRequest
  deriving DecidableEq

/-- `MAX_BLOCKED_EVENTS`. -/
def maxBlockedEvents : ℕ := 200

/-- What is configured: `κ` stands for the fields of the configuration that no check here reads,
`ρ` for what is compiled from it. -/
structure Configured (κ ρ : Type) where
  config : NetworkProxyConfig
  otherFields : κ
  constraints : NetworkProxyConstraints
  compiled : ρ

/-- **The state of the proxy.** -/
structure ConfigState (κ ρ : Type) extends Configured κ ρ where
  blocked : List Recorded := []
  blockedTotal : ℕ := 0

variable {κ ρ : Type} {state : ConfigState κ ρ} {entry : Recorded}

/-- The loop that drops the first entries of a log that is too long, and what it drops. -/
def trimBlocked : List Recorded → List Recorded × List Recorded
  | [] => ([], [])
  | entry :: blocked =>
    if maxBlockedEvents < (entry :: blocked).length then
      (entry :: (trimBlocked blocked).1, (trimBlocked blocked).2)
    else ([], entry :: blocked)

namespace ConfigState

variable (state : ConfigState κ ρ)

/-- The locked section of `record_blocked`, and what it evicts. -/
def recordBlocked (entry : Recorded) : List Recorded × ConfigState κ ρ :=
  let trimmed := trimBlocked (state.blocked ++ [entry])
  (trimmed.1,
    { state with
      blocked := trimmed.2
      blockedTotal := U64.saturatingAdd state.blockedTotal 1 })

/-- The locked section of `drain_blocked`, and what it takes. -/
def drainBlocked : List Recorded × ConfigState κ ρ :=
  (state.blocked, { state with blocked := [] })

/-- Another configuration with this log and this total. -/
def withConfigured (configured : Configured κ ρ) : ConfigState κ ρ :=
  { configured with blocked := state.blocked, blockedTotal := state.blockedTotal }

/-- The locked section of `force_reload`: the log is carried over, the total is that of the new
state. -/
def forceReload (configured : Configured κ ρ) : ConfigState κ ρ :=
  { configured with blocked := state.blocked }

end ConfigState

/-! ### Adding a domain to a list -/

inductive DomainListKind where
  | allow
  | deny
  deriving DecidableEq

namespace DomainListKind

def listName : DomainListKind → String
  | allow => "allowlist"
  | deny => "denylist"

def constraintField : DomainListKind → String
  | allow => "network.allowed_domains"
  | deny => "network.denied_domains"

def permission : DomainListKind → NetworkDomainPermission
  | allow => .allow
  | deny => .deny

def entries (config : NetworkProxyConfig) : DomainListKind → List Text
  | allow => config.allowedDomains.getD []
  | deny => config.deniedDomains.getD []

def oppositeEntries (config : NetworkProxyConfig) : DomainListKind → List Text
  | allow => config.deniedDomains.getD []
  | deny => config.allowedDomains.getD []

end DomainListKind

inductive ProxyError where
  /-- "invalid network host" -/
  | invalidHost
  /-- What the reloader answered. -/
  | reload
  /-- "… constrained by managed config" -/
  | constrained (constraintField : String) (cause : NetworkProxyConstraintError)
  /-- "failed to compile updated network …" -/
  | compile (listName : String)

variable (syn : HostSyntax)

def upsertDomainPermission (config : NetworkProxyConfig) (host : Text)
    (permission : NetworkDomainPermission) : NetworkProxyConfig :=
  { config with
    domains := some
      ((config.domains.getD []).filter
          (fun entry => normalizeHost syn entry.pattern ≠ normalizeHost syn host) ++
        [⟨host, permission⟩]) }

variable (build : NetworkProxyConfig → κ → NetworkProxyConstraints → Option (Configured κ ρ))

/-- What `update_domain_list` makes of the configuration it has read: nothing if the host is in
the list already, and otherwise a new one. -/
def updatedConfig (host : Text) (target : DomainListKind) (state : Configured κ ρ) :
    Except ProxyError (Option (Configured κ ρ)) :=
  if (target.entries state.config).any (normalizeHost syn · = host) ∧
      ¬(target.oppositeEntries state.config).any (normalizeHost syn · = host) then .ok none
  else
    let candidate := upsertDomainPermission syn state.config host target.permission
    match validatePolicyAgainstConstraints syn candidate state.constraints with
    | .error cause => .error (.constrained target.constraintField cause)
    | .ok () =>
      match build candidate state.otherFields state.constraints with
      | some configured => .ok (some configured)
      | none => .error (.compile target.listName)

/-! ### Calls

A call is cut at its awaits, between which the lock is free. -/

/-- What a call does once it has asked for a reload. -/
inductive Operation (κ ρ : Type) where
  | recordBlocked (request : BlockedRequest) (executionId : Option String)
  | drainBlocked
  | updateDomainList (host : Text) (target : DomainListKind)
  | replaceConfigState (newState : Configured κ ρ)
  /-- Any other call, which only reads. -/
  | read

/-- **Where a call stands.** -/
inductive Phase (κ ρ : Type) where
  /-- In `reload_if_needed`, waiting for the reloader. -/
  | reloading (operation : Operation κ ρ)
  /-- There is a new configuration; the log is still to be read. -/
  | reloaded (operation : Operation κ ρ) (newState : Configured κ ρ)
  /-- The new configuration, with the log as it was read, is still to be written. -/
  | writingBack (operation : Operation κ ρ) (newState : ConfigState κ ρ)
  /-- `reload_if_needed` has returned. -/
  | ready (operation : Operation κ ρ)
  /-- In `update_domain_list`, with the state it has read and the one it is to write. -/
  | updating (host : Text) (target : DomainListKind) (previous : Configured κ ρ)
      (newState : ConfigState κ ρ)
  /-- In `force_reload`, waiting for the reloader. -/
  | forcing
  | forced (newState : Configured κ ρ)
  | finished (result : Except ProxyError (List Recorded))

/-- What the reloader answers. -/
inductive ReloaderAnswer (κ ρ : Type) where
  | failed
  | unchanged
  | changed (newState : Configured κ ρ)

/-- What a step does to the log, for the record of the run. -/
inductive LogNote where
  | nothing
  | recorded (entry : Recorded) (evicted : List Recorded)
  | drained (entries : List Recorded)

variable [DecidableEq κ]

/-- The check of `update_domain_list` under the lock: the configuration is the one it has read. -/
def Configured.isSame (state previous : Configured κ ρ) : Bool :=
  state.constraints = previous.constraints ∧ state.config = previous.config ∧
    state.otherFields = previous.otherFields

/-- The section of a call after `reload_if_needed`. -/
def Operation.perform (serial : ℕ) (state : ConfigState κ ρ) :
    Operation κ ρ → Phase κ ρ × ConfigState κ ρ × LogNote
  | .recordBlocked request executionId =>
    let entry : Recorded := ⟨serial, { request with executionId }⟩
    let recorded := state.recordBlocked entry
    (.finished (.ok []), recorded.2, .recorded entry recorded.1)
  | .drainBlocked =>
    (.finished (.ok state.drainBlocked.1), state.drainBlocked.2, .drained state.drainBlocked.1)
  | .updateDomainList host target =>
    match updatedConfig syn build host target state.toConfigured with
    | .error error => (.finished (.error error), state, .nothing)
    | .ok none => (.finished (.ok []), state, .nothing)
    | .ok (some configured) =>
      (.updating host target state.toConfigured (state.withConfigured configured), state,
        .nothing)
  | .replaceConfigState newState =>
    (.finished (.ok []), state.withConfigured newState, .nothing)
  | .read => (.finished (.ok []), state, .nothing)

/-- **One step of a call**, from one await to the next. -/
def Phase.advance (serial : ℕ) (answer : ReloaderAnswer κ ρ) (state : ConfigState κ ρ) :
    Phase κ ρ → Phase κ ρ × ConfigState κ ρ × LogNote
  | .reloading operation =>
    match answer with
    | .failed => (.finished (.error .reload), state, .nothing)
    | .unchanged => (.ready operation, state, .nothing)
    | .changed newState => (.reloaded operation newState, state, .nothing)
  | .reloaded operation newState =>
    (.writingBack operation (state.withConfigured newState), state, .nothing)
  | .writingBack operation newState => (.ready operation, newState, .nothing)
  | .ready operation => operation.perform syn build serial state
  | .updating host target previous newState =>
    if state.toConfigured.isSame previous then (.finished (.ok []), newState, .nothing)
    else (.reloading (.updateDomainList host target), state, .nothing)
  | .forcing =>
    match answer with
    | .changed newState => (.forced newState, state, .nothing)
    | .failed | .unchanged => (.finished (.error .reload), state, .nothing)
  | .forced newState => (.finished (.ok []), state.forceReload newState, .nothing)
  | .finished result => (.finished result, state, .nothing)

/-! ### Runs -/

/-- The state, the calls that were made, and the record of the run. -/
structure NetworkProxyState (κ ρ : Type) where
  state : ConfigState κ ρ
  calls : List (Phase κ ρ) := []
  recorded : List Recorded := []
  evicted : List Recorded := []
  drains : List (List Recorded) := []

inductive ProxyEvent (κ ρ : Type) where
  | call (operation : Operation κ ρ)
  /-- `add_allowed_domain` and `add_denied_domain`. -/
  | addDomain (host : Text) (target : DomainListKind)
  | forceReload
  /-- One of the calls goes on. -/
  | advance (i : ℕ) (answer : ReloaderAnswer κ ρ)

/-- The first phase of `update_domain_list`. -/
def addingDomain (host : Text) (target : DomainListKind) : Phase κ ρ :=
  match Host.parse syn host with
  | none => .finished (.error .invalidHost)
  | some host => .reloading (.updateDomainList host.text target)

/-- Enter what a step did to the log. -/
def NetworkProxyState.noting (s : NetworkProxyState κ ρ) : LogNote → NetworkProxyState κ ρ
  | .nothing => s
  | .recorded entry evicted =>
    { s with recorded := s.recorded ++ [entry], evicted := s.evicted ++ evicted }
  | .drained entries => { s with drains := s.drains ++ [entries] }

/-- **One step of the system.** -/
def NetworkProxyState.step (s : NetworkProxyState κ ρ) :
    ProxyEvent κ ρ → NetworkProxyState κ ρ
  | .call operation => { s with calls := s.calls ++ [.reloading operation] }
  | .addDomain host target => { s with calls := s.calls ++ [addingDomain syn host target] }
  | .forceReload => { s with calls := s.calls ++ [.forcing] }
  | .advance i answer =>
    match s.calls[i]? with
    | none => s
    | some phase =>
      let advanced := phase.advance syn build s.recorded.length answer s.state
      { s.noting advanced.2.2 with
        state := advanced.2.1
        calls := s.calls.set i advanced.1 }

/-- The log and the total of a state are those of another. -/
def ConfigState.SameLog (newState state : ConfigState κ ρ) : Prop :=
  newState.blocked = state.blocked ∧ newState.blockedTotal = state.blockedTotal

instance (newState state : ConfigState κ ρ) : Decidable (newState.SameLog state) :=
  inferInstanceAs (Decidable
    (newState.blocked = state.blocked ∧ newState.blockedTotal = state.blockedTotal))

/-- A call that writes a copy of the log back has copied it as it still is, and a reload is
forced while nothing was counted. -/
def Phase.WritesLogBack (state : ConfigState κ ρ) : Phase κ ρ → Prop
  | .writingBack _ newState => newState.SameLog state
  | .updating _ _ previous newState =>
    state.toConfigured.isSame previous → newState.SameLog state
  | .forced _ => state.blockedTotal = 0
  | _ => True

instance (state : ConfigState κ ρ) (phase : Phase κ ρ) :
    Decidable (phase.WritesLogBack state) :=
  match phase with
  | .writingBack _ newState => inferInstanceAs (Decidable (newState.SameLog state))
  | .updating _ _ previous newState =>
    inferInstanceAs (Decidable (state.toConfigured.isSame previous → newState.SameLog state))
  | .forced _ => inferInstanceAs (Decidable (state.blockedTotal = 0))
  | .reloading _ | .reloaded _ _ | .ready _ | .forcing | .finished _ => .isTrue trivial

/-- **The log is written back as it is** by the call that goes on. -/
def WritesLogBack (s : NetworkProxyState κ ρ) : ProxyEvent κ ρ → Prop
  | .advance i _ => ∀ phase ∈ s.calls[i]?, phase.WritesLogBack s.state
  | _ => True

instance (s : NetworkProxyState κ ρ) :
    (event : ProxyEvent κ ρ) → Decidable (WritesLogBack s event)
  | .advance i _ =>
    inferInstanceAs (Decidable (∀ phase ∈ s.calls[i]?, phase.WritesLogBack s.state))
  | .call _ | .addDomain _ _ | .forceReload => .isTrue trivial

/-! ### What a step does to the log -/

theorem trimBlocked_append (blocked : List Recorded) :
    (trimBlocked blocked).1 ++ (trimBlocked blocked).2 = blocked := by
  induction blocked with
  | nil => rfl
  | cons entry blocked ih =>
    rw [trimBlocked]
    split_ifs
    · exact congrArg (entry :: ·) ih
    · rfl

/-- **The cap has put an entry out**: at least as many were recorded after it as the log holds. -/
def Outnumbered (recorded : List Recorded) (entry : Recorded) : Prop :=
  ∃ before later, recorded = before ++ entry :: later ∧ maxBlockedEvents ≤ later.length

theorem Outnumbered.append {recorded : List Recorded} (h : Outnumbered recorded entry)
    (front more : List Recorded) : Outnumbered (front ++ recorded ++ more) entry := by
  obtain ⟨before, later, rfl, hmany⟩ := h
  refine ⟨front ++ before, later ++ more, by simp, ?_⟩
  rw [List.length_append]
  exact Nat.le_add_right_of_le hmany

/-- What is dropped from the front has the cap behind it. -/
theorem outnumbered_of_trim {blocked : List Recorded} (h : entry ∈ (trimBlocked blocked).1) :
    Outnumbered blocked entry := by
  induction blocked with
  | nil => cases h
  | cons first blocked ih =>
    rw [trimBlocked] at h
    split_ifs at h with hfull
    · rcases List.mem_cons.mp h with rfl | hrest
      · exact ⟨[], blocked, rfl, Nat.le_of_lt_succ hfull⟩
      · simpa using (ih hrest).append [first] []
    · cases h

theorem perm_of_trim {recorded evicted drained blocked : List Recorded}
    (hparts : recorded.Perm (evicted ++ drained ++ blocked)) (entry : Recorded) :
    (recorded ++ [entry]).Perm
      (evicted ++ (trimBlocked (blocked ++ [entry])).1 ++ drained ++
        (trimBlocked (blocked ++ [entry])).2) := by
  have htrim := trimBlocked_append (blocked ++ [entry])
  have hlog : (recorded ++ [entry]).Perm (evicted ++ drained ++ (blocked ++ [entry])) := by
    rw [← List.append_assoc]
    exact hparts.append_right [entry]
  refine hlog.trans ?_
  nth_rewrite 1 [← htrim]
  -- what is cut off moves in front of what was drained
  rw [← List.append_assoc, List.append_assoc evicted drained, List.append_assoc evicted _ drained]
  exact (List.perm_append_comm.append_left evicted).append_right _

/-- **What one step of a call does to the log**: nothing, or it records a request, or it drains
the log. -/
inductive Noted (serial : ℕ) (state : ConfigState κ ρ) : ConfigState κ ρ × LogNote → Prop
  | nothing {newState : ConfigState κ ρ} (hsame : newState.SameLog state) :
      Noted serial state (newState, .nothing)
  | recorded (request : BlockedRequest) :
      Noted serial state ((state.recordBlocked ⟨serial, request⟩).2,
        .recorded ⟨serial, request⟩ (state.recordBlocked ⟨serial, request⟩).1)
  | drained : Noted serial state (state.drainBlocked.2, .drained state.drainBlocked.1)

omit [DecidableEq κ] in
theorem noted_perform (serial : ℕ) (state : ConfigState κ ρ) (operation : Operation κ ρ) :
    Noted serial state (operation.perform syn build serial state).2 := by
  cases operation with
  | recordBlocked request executionId => exact .recorded _
  | drainBlocked => exact .drained
  | updateDomainList host target =>
    rw [Operation.perform]
    split
    · exact .nothing ⟨rfl, rfl⟩
    · exact .nothing ⟨rfl, rfl⟩
    · exact .nothing ⟨rfl, rfl⟩
  | replaceConfigState newState => exact .nothing ⟨rfl, rfl⟩
  | read => exact .nothing ⟨rfl, rfl⟩

theorem noted_advance (serial : ℕ) (answer : ReloaderAnswer κ ρ) {phase : Phase κ ρ}
    (hback : phase.WritesLogBack state) :
    Noted serial state (phase.advance syn build serial answer state).2 := by
  cases phase with
  | reloading operation =>
    cases answer with
    | failed => exact .nothing ⟨rfl, rfl⟩
    | unchanged => exact .nothing ⟨rfl, rfl⟩
    | changed newState => exact .nothing ⟨rfl, rfl⟩
  | reloaded operation newState => exact .nothing ⟨rfl, rfl⟩
  | writingBack operation newState => exact .nothing hback
  | ready operation => exact noted_perform syn build serial state operation
  | updating host target previous newState =>
    rw [Phase.advance]
    split_ifs with hsame
    · exact .nothing (hback hsame)
    · exact .nothing ⟨rfl, rfl⟩
  | forcing =>
    cases answer with
    | failed => exact .nothing ⟨rfl, rfl⟩
    | unchanged => exact .nothing ⟨rfl, rfl⟩
    | changed newState => exact .nothing ⟨rfl, rfl⟩
  -- the total of the new state is zero, and so was the one it replaces
  | forced newState => exact .nothing ⟨rfl, Eq.symm hback⟩
  | finished result => exact .nothing ⟨rfl, rfl⟩

/-! ### The account -/

/-- **Every request that was recorded is accounted for**: it was evicted, or drained, or it is in
the log, and only one of these; the cap evicts and nothing else does; and all are counted. -/
structure Accounted (s : NetworkProxyState κ ρ) : Prop where
  serials : s.recorded.map Recorded.serial = List.range s.recorded.length
  parts : s.recorded.Perm (s.evicted ++ s.drains.flatten ++ s.state.blocked)
  /-- The log is the end of what was recorded. -/
  latest : s.state.blocked <:+ s.recorded
  outnumbered : ∀ entry ∈ s.evicted, Outnumbered s.recorded entry
  total : s.state.blockedTotal = min s.recorded.length U64.maxValue

variable {s : NetworkProxyState κ ρ}

omit [DecidableEq κ] in
theorem Accounted.noted (h : Accounted s) {note : LogNote}
    (hnoted : Noted s.recorded.length s.state (state, note)) (calls : List (Phase κ ρ)) :
    Accounted { s.noting note with state, calls } := by
  obtain ⟨hserials, hparts, hlatest, houtnumbered, htotal⟩ := h
  cases hnoted with
  | nothing hsame =>
    refine ⟨hserials, ?_, ?_, houtnumbered, hsame.2.trans htotal⟩
    · simp only [NetworkProxyState.noting, hsame.1]
      exact hparts
    · simp only [NetworkProxyState.noting, hsame.1]
      exact hlatest
  | recorded request =>
    obtain ⟨front, hfront⟩ := hlatest
    refine ⟨?_, ?_, ?_, ?_, ?_⟩
    · simp only [NetworkProxyState.noting, List.map_append, List.map_cons, List.map_nil,
        List.length_append, List.length_singleton, hserials, List.range_succ]
    · simp only [NetworkProxyState.noting, ConfigState.recordBlocked]
      exact perm_of_trim hparts _
    · simp only [NetworkProxyState.noting, ConfigState.recordBlocked]
      refine List.IsSuffix.trans ⟨_, trimBlocked_append _⟩ ⟨front, ?_⟩
      rw [← List.append_assoc, hfront]
    · -- an entry was put out before, or this record puts it out of a log that ends the records
      intro entry hentry
      simp only [NetworkProxyState.noting] at hentry ⊢
      rcases List.mem_append.mp hentry with hbefore | hnow
      · simpa using (houtnumbered entry hbefore).append [] [_]
      · have hout := (outnumbered_of_trim hnow).append front []
        rw [List.append_nil, ← List.append_assoc, hfront] at hout
        exact hout
    · simp only [NetworkProxyState.noting, ConfigState.recordBlocked, htotal, List.length_append,
        List.length_singleton, U64.saturatingAdd_min_left]
  | drained =>
    refine ⟨hserials, ?_, List.nil_suffix, houtnumbered, htotal⟩
    simp only [NetworkProxyState.noting, ConfigState.drainBlocked, List.flatten_append,
      List.flatten_cons, List.flatten_nil, List.append_nil]
    rw [← List.append_assoc]
    exact hparts

/-- **Every step keeps the account**, if it writes the log back as it is. -/
theorem Accounted.after_step (s : NetworkProxyState κ ρ) (event : ProxyEvent κ ρ)
    (h : Accounted s) (hback : WritesLogBack s event) : Accounted (s.step syn build event) := by
  cases event with
  | call operation => exact ⟨h.serials, h.parts, h.latest, h.outnumbered, h.total⟩
  | addDomain host target => exact ⟨h.serials, h.parts, h.latest, h.outnumbered, h.total⟩
  | forceReload => exact ⟨h.serials, h.parts, h.latest, h.outnumbered, h.total⟩
  | advance i answer =>
    rw [NetworkProxyState.step]
    split
    · exact h
    next phase hget =>
      exact h.noted (noted_advance syn build _ answer (hback phase hget)) _

omit [DecidableEq κ] in
theorem recorded_noting (s : NetworkProxyState κ ρ) (note : LogNote) :
    s.recorded.length ≤ (s.noting note).recorded.length := by
  cases note with
  | nothing => exact le_rfl
  | recorded entry evicted =>
    rw [NetworkProxyState.noting, List.length_append]
    exact Nat.le_add_right _ _
  | drained entries => exact le_rfl

theorem recorded_step (s : NetworkProxyState κ ρ) (event : ProxyEvent κ ρ) :
    s.recorded.length ≤ (s.step syn build event).recorded.length := by
  cases event with
  | call operation => exact le_rfl
  | addDomain host target => exact le_rfl
  | forceReload => exact le_rfl
  | advance i answer =>
    rw [NetworkProxyState.step]
    split
    · exact le_rfl
    next phase hget => exact recorded_noting s _

omit [DecidableEq κ] in
theorem Accounted.nodup_drains (h : Accounted s) : s.drains.flatten.Nodup := by
  have hrecorded : s.recorded.Nodup := by
    refine List.Nodup.of_map Recorded.serial ?_
    rw [h.serials]
    exact List.nodup_range
  have hparts := h.parts.nodup_iff.mp hrecorded
  exact (List.nodup_append.mp (List.nodup_append.mp hparts).1).2.1

/-- **The log of blocked requests is accounted for** in every run in which it is written back as
it is. Each request is drained at most once; it is in the log or was drained, or it was evicted,
and then at least `maxBlockedEvents` requests were recorded after it; and the total counts the
requests and never decreases. -/
theorem blocked_log_is_accounted (configured : Configured κ ρ) (events : List (ProxyEvent κ ρ))
    (hback : Run.Along (NetworkProxyState.step syn build) WritesLogBack
      { state := { configured with } } events) :
    let run := Run.after (NetworkProxyState.step syn build) { state := { configured with } }
    (run events).drains.flatten.Nodup ∧
      (∀ entry ∈ (run events).recorded, entry ∈ (run events).drains.flatten ∨
        entry ∈ (run events).state.blocked ∨ entry ∈ (run events).evicted ∧
          ∃ before later, (run events).recorded = before ++ entry :: later ∧
            maxBlockedEvents ≤ later.length) ∧
      ((run events).recorded.length ≤ U64.maxValue →
        (run events).state.blockedTotal = (run events).recorded.length) ∧
      ∀ earlier later, events = earlier ++ later →
        (run earlier).state.blockedTotal ≤ (run events).state.blockedTotal := by
  intro run
  have hinitial : Accounted ({ state := { configured with } } : NetworkProxyState κ ρ) :=
    ⟨rfl, List.Perm.refl _, List.suffix_rfl, fun _ hnone => absurd hnone List.not_mem_nil, rfl⟩
  have haccounted : Accounted (run events) :=
    Run.invariant_along (Accounted.after_step syn build) hinitial hback
  refine ⟨haccounted.nodup_drains, ?_, ?_, ?_⟩
  · intro entry hmem
    have hparts := haccounted.parts.mem_iff.mp hmem
    rw [List.mem_append, List.mem_append] at hparts
    rcases hparts with (hevicted | hdrained) | hlog
    · exact Or.inr (Or.inr ⟨hevicted, haccounted.outnumbered entry hevicted⟩)
    · exact Or.inl hdrained
    · exact Or.inr (Or.inl hlog)
  · intro hbound
    rw [haccounted.total, min_eq_left hbound]
  · rintro earlier later rfl
    have hearlier : Accounted (run earlier) :=
      Run.invariant_along (Accounted.after_step syn build) hinitial (Run.along_append.mp hback).1
    have hgrows : (run earlier).recorded.length ≤ (run (earlier ++ later)).recorded.length := by
      simp only [run, Run.after_append]
      exact Run.respects
        (R := fun s s' : NetworkProxyState κ ρ => s.recorded.length ≤ s'.recorded.length)
        (fun _ => le_rfl) (fun h h' => h.trans h') (recorded_step syn build) _ later
    rw [hearlier.total, haccounted.total]
    exact min_le_min_right _ hgrows

/-! ### A run -/

/-- Hosts without addresses. -/
def demoSyntax : HostSyntax where
  isIpAddr _ := false
  parseUrlHost text := some text

/-- A configuration with one allowed domain, and no constraints. -/
def demoConfigured : Configured Unit Unit where
  config := allowing ["example.com".toList]
  otherFields := ()
  constraints := { managing [] with allowedDomains := none }
  compiled := ()

def demoBuild (config : NetworkProxyConfig) (otherFields : Unit)
    (constraints : NetworkProxyConstraints) : Option (Configured Unit Unit) :=
  some { config, otherFields, constraints, compiled := () }

def demoRequest : BlockedRequest where
  host := "blocked.com"
  reason := "not_allowed"
  client := none
  method := none
  mode := none
  protocol := "http"
  executionId := none
  decision := none
  source := none
  port := some 80
  timestamp := 0

/-- A request is recorded by the call at this position, without a reload. -/
def demoRecord (i : ℕ) : List (ProxyEvent Unit Unit) :=
  [.call (.recordBlocked demoRequest none), .advance i .unchanged, .advance i .unchanged]

/-- The log is drained by the call at this position, without a reload. -/
def demoDrain (i : ℕ) : List (ProxyEvent Unit Unit) :=
  [.call .drainBlocked, .advance i .unchanged, .advance i .unchanged]

/-- A call at this position finds a new configuration and reads the log. -/
def demoReload (i : ℕ) : List (ProxyEvent Unit Unit) :=
  [.call .read, .advance i (.changed demoConfigured), .advance i .unchanged]

/-- The state of the proxy after these events. -/
def demoRun (events : List (ProxyEvent Unit Unit)) : NetworkProxyState Unit Unit :=
  Run.after (NetworkProxyState.step demoSyntax demoBuild)
    { state := { demoConfigured with } } events

/-- A request is recorded, the configuration is reloaded, and the log is drained. -/
def demoReloaded : List (ProxyEvent Unit Unit) :=
  demoRecord 0 ++ demoReload 1 ++ [.advance 1 .unchanged] ++ demoDrain 2

theorem blocked_log_is_accounted_demo :
    (demoRun demoReloaded).drains.flatten.Nodup ∧
      (∀ entry ∈ (demoRun demoReloaded).recorded,
        entry ∈ (demoRun demoReloaded).drains.flatten ∨
          entry ∈ (demoRun demoReloaded).state.blocked ∨
          entry ∈ (demoRun demoReloaded).evicted ∧
            ∃ before later, (demoRun demoReloaded).recorded = before ++ entry :: later ∧
              maxBlockedEvents ≤ later.length) ∧
      ((demoRun demoReloaded).recorded.length ≤ U64.maxValue →
        (demoRun demoReloaded).state.blockedTotal = (demoRun demoReloaded).recorded.length) ∧
      ∀ earlier later, demoReloaded = earlier ++ later →
        (demoRun earlier).state.blockedTotal ≤ (demoRun demoReloaded).state.blockedTotal :=
  blocked_log_is_accounted demoSyntax demoBuild demoConfigured demoReloaded (by decide +kernel)

/-- The log is drained between the copy and the writing. -/
def demoDrainedTwice : List (ProxyEvent Unit Unit) :=
  demoRecord 0 ++ demoReload 1 ++ demoDrain 2 ++ [.advance 1 .unchanged] ++ demoDrain 3

/-- A request is recorded between the copy and the writing. -/
def demoLost : List (ProxyEvent Unit Unit) :=
  demoReload 0 ++ demoRecord 1 ++ [.advance 0 .unchanged]

/-- A reload is forced when a request was recorded. -/
def demoForced : List (ProxyEvent Unit Unit) :=
  demoRecord 0 ++ [.forceReload, .advance 1 (.changed demoConfigured), .advance 1 .unchanged]

/-- **A copy of the log is written back.** If the log was drained meanwhile, the next drain
returns the same request again; if a request was recorded, it is neither drained nor in the log
nor was it evicted, and it is not counted; and a forced reload sets the total to zero. -/
theorem log_is_written_back :
    (demoRun demoDrainedTwice).drains = [[⟨0, demoRequest⟩], [⟨0, demoRequest⟩]] ∧
      ((demoRun demoLost).recorded = [⟨0, demoRequest⟩] ∧ (demoRun demoLost).drains = [] ∧
        (demoRun demoLost).state.blocked = [] ∧ (demoRun demoLost).evicted = [] ∧
        (demoRun demoLost).state.blockedTotal = 0) ∧
      (demoRun demoForced).recorded = [⟨0, demoRequest⟩] ∧
      (demoRun demoForced).state.blockedTotal = 0 := by
  decide +kernel

end Rivloom.NetworkProxy
