import Mathlib.Data.List.Nodup
import Mathlib.Logic.Function.Basic
import Mathlib.Tactic.Common
import Rivloom.Lib.Action
import Rivloom.Lib.Json
import Rivloom.Lib.RustStd

/-!
# The router of run events

The notifications of the App Server about the turns of its threads become events of runs
(`event_router.rs`). For every run that was prepared there is a route, which knows the thread
of the run and, from the first notification or from whoever started the run, its turn; and
there is a queue, which the route writes and one worker reads. A route lives until its turn
has ended, or until nobody holds the queue any more.

Three bounds apply to the events of one run. The queue holds eight; when it is full, its last
event is replaced by a *gap*, which tells the worker that something was lost
(`Rivloom.AppServer.EventQueue.push`). And a route counts its events and their bytes, and
when either is exhausted it sends a gap and then nothing any more
(`Rivloom.AppServer.Route.push`).
-/

namespace Rivloom.AppServer

/-! ### Events -/

def maxCorrelationIdBytes : ℕ := 128

def eventQueueCapacity : ℕ := 8

def maxRunEvents : ℕ := 128

def maxRunEventBytes : ℕ := 512

def maxRunEventTotalBytes : ℕ := 16 * 1024

/-- One connection to the App Server, as told from the others. -/
abbrev ConnectionIdentity := ℕ

inductive RunEventGapReason where
  | observerLagged | limitExceeded
  deriving DecidableEq

inductive RunEventKind where
  | running | waitingApproval | completed | failed | interrupted
  | gap (reason : RunEventGapReason)
  deriving DecidableEq

structure RunEvent where
  runId : String
  sequence : UInt32
  kind : RunEventKind
  deriving DecidableEq

def RunEventGapReason.word : RunEventGapReason → String
  | .observerLagged => "observerLagged"
  | .limitExceeded => "limitExceeded"

def RunEventKind.json : RunEventKind → Json
  | .running => .obj [("type", .str "running")]
  | .waitingApproval => .obj [("type", .str "waitingApproval")]
  | .completed => .obj [("type", .str "completed")]
  | .failed => .obj [("type", .str "failed")]
  | .interrupted => .obj [("type", .str "interrupted")]
  | .gap reason => .obj [("type", .str "gap"), ("reason", .str reason.word)]

def RunEvent.json (event : RunEvent) : Json :=
  .obj [("runId", .str event.runId), ("sequence", .num event.sequence.toNat),
    ("kind", event.kind.json)]

def serializedLen (event : RunEvent) : ℕ := event.json.bytes.size

/-- An event that is a gap. -/
def RunEventKind.isGap : RunEventKind → Bool
  | .gap _ => true
  | _ => false

/-- An event that ends a turn. -/
def isTerminal : RunEventKind → Bool
  | .completed | .failed | .interrupted => true
  | .running | .waitingApproval | .gap _ => false

/-! ### Queues -/

/-- **The queue between a route and a worker.** -/
structure EventQueue where
  active : Bool := true
  events : List RunEvent := []
  deriving DecidableEq

/-- Put an event at the end. A full queue loses its last event, and says so. -/
def EventQueue.push (queue : EventQueue) (event : RunEvent) : EventQueue :=
  if queue.events.length < eventQueueCapacity then
    { queue with events := queue.events ++ [event] }
  else if queue.events.getLast?.any fun last => last.kind.isGap then queue
  else
    { queue with
      events := queue.events.dropLast ++ [{ event with kind := .gap .observerLagged }] }

/-- Put an event at the end, if there is one. -/
def EventQueue.pushAll (queue : EventQueue) : Option RunEvent → EventQueue
  | some event => queue.push event
  | none => queue

/-! ### Notifications -/

def validId (value : String) : Bool :=
  !trimIsEmpty value && decide (value.utf8ByteSize ≤ maxCorrelationIdBytes)

/-! ### Routes -/

structure Route where
  routeId : ℕ
  connectionIdentity : ConnectionIdentity
  runId : String
  threadId : String
  turnId : Option String
  nextSequence : UInt32
  totalBytes : ℕ
  saturated : Bool
  deriving DecidableEq

namespace Route

def event (route : Route) (kind : RunEventKind) : RunEvent :=
  { runId := route.runId, sequence := route.nextSequence, kind }

/-- One more event does not fit. -/
def exhausted (route : Route) (kind : RunEventKind) : Bool :=
  decide (maxRunEvents ≤ route.nextSequence.toNat) ||
    decide (maxRunEventBytes < serializedLen (route.event kind)) ||
    decide (maxRunEventTotalBytes < route.totalBytes + serializedLen (route.event kind) +
      serializedLen (route.event (.gap .limitExceeded)))

/-- **The event that goes into the queue**, if any, and the route after it. -/
def push (route : Route) (kind : RunEventKind) : Route × Option RunEvent :=
  if route.saturated then (route, none)
  else if route.exhausted kind then
    ({ route with saturated := true }, some (route.event (.gap .limitExceeded)))
  else
    ({ route with
        nextSequence := route.nextSequence + 1
        totalBytes := route.totalBytes + serializedLen (route.event kind) },
      some (route.event kind))

end Route

/-! ### The router -/

/-- **The router**: its routes, and the queues that somebody holds, by their routes. -/
structure EventRouter where
  identity : ℕ
  nextRouteId : ℕ
  routes : List Route
  queues : ℕ → Option EventQueue

namespace EventRouter

/-- The route of a run that was prepared: it does not know the turn yet. -/
def newRoute (router : EventRouter) (connectionIdentity : ConnectionIdentity)
    (runId threadId : String) : Route :=
  { routeId := router.nextRouteId, connectionIdentity, runId, threadId, turnId := none,
    nextSequence := 1, totalBytes := 0, saturated := false }

/-! ### One route among the others -/

variable {router : EventRouter} {routeId : ℕ} {queue : EventQueue}

end EventRouter

end Rivloom.AppServer
