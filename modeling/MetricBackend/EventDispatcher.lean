import Mathlib.Data.Finset.Basic
import MetricBackend.DomainEvents

/-! The dispatcher of `application/src/dispatcher.rs`: a bounded channel between accepted Events and a
`WorkHandler`, with a set of keys that keeps an Event from being scheduled twice. Offers run on the
threads of their callers, so a call is cut where another thread can run: after the admission check,
after the insert into the key set and after a failed send. The dispatcher task moves through its phases
one step at a time. Metrics and the backlog guard, which read the state only, are left out. -/

namespace MetricBackend

structure DispatcherConfig where
  queueCapacity : Nat
  workerConcurrency : Nat
  lowWatermark : Nat
  refillTarget : Nat
  refillBatchSize : Nat
  pollInterval : Duration
  metricsInterval : Duration
  sourceTimeout : Duration
  shutdownDrain : Duration
  maxPendingEvents : Option Nat
  maxOldestPendingAge : Option Duration

/-- The values of `Default`. -/
def DispatcherConfig.defaultValue : DispatcherConfig where
  queueCapacity := 4096
  workerConcurrency := 32
  lowWatermark := 1024
  refillTarget := 3072
  refillBatchSize := 512
  pollInterval := Duration.fromMillis 100
  metricsInterval := Duration.fromSecs 5
  sourceTimeout := Duration.fromSecs 5
  shutdownDrain := Duration.fromSecs 10
  maxPendingEvents := none
  maxOldestPendingAge := some (Duration.fromSecs (60 * 60))

inductive DispatcherStartError where
  | invalidConfiguration
  | backlogUnavailable
  | backlogInvalidData
deriving DecidableEq, Repr

inductive EventBacklogError where
  | unavailable
  | invalidData
deriving DecidableEq, Repr

namespace EventDispatcher

def validateConfig (config : DispatcherConfig) : Except DispatcherStartError Unit :=
  if 1 ≤ config.queueCapacity ∧ config.queueCapacity ≤ 100000
    ∧ 1 ≤ config.workerConcurrency ∧ config.workerConcurrency ≤ 4096
    ∧ config.workerConcurrency ≤ config.queueCapacity
    ∧ config.lowWatermark < config.refillTarget
    ∧ config.refillTarget ≤ config.queueCapacity
    ∧ 1 ≤ config.refillBatchSize ∧ config.refillBatchSize ≤ min config.refillTarget 32768
    ∧ ¬ config.pollInterval.isZero
    ∧ ¬ config.metricsInterval.isZero
    ∧ ¬ config.sourceTimeout.isZero
    ∧ ¬ config.shutdownDrain.isZero
    ∧ (config.maxPendingEvents.all fun maximum => 0 < maximum)
    ∧ (config.maxOldestPendingAge.all fun maximum => ¬ maximum.isZero) then .ok ()
  else .error .invalidConfiguration

inductive OfferSource where
  | fresh
  | refill
deriving DecidableEq, Repr

/-- Where a call of `offer_pending_with_source` stands: past the admission check, past the insert into
the key set, or past a send that failed. -/
inductive OfferStage where
  | admitted
  | inserted
  | refused
deriving DecidableEq, Repr

/-- A call of `offer_pending_with_source` that has not returned. -/
structure Offer where
  event : PendingEvent
  source : OfferSource
  stage : OfferStage
deriving DecidableEq

/-- The key that the call added to the key set and that nothing else answers for yet. -/
def Offer.held (offer : Offer) : List EventKey :=
  match offer.stage with
  | .admitted => []
  | .inserted | .refused => [offer.event.key]

/-- How a spawned handler ended: its future returned, polling its future panicked, or `handle` panicked
before there was a future. `catch_unwind` covers the second way only. -/
inductive WorkEnding where
  | returned
  | panicked
  | panickedInCall
deriving DecidableEq, Repr

/-- What `join_next` yields for a task that was not aborted: the completion flag, or a `JoinError`. -/
def WorkEnding.joined : WorkEnding → Option Bool
  | .returned => some true
  | .panicked => some false
  | .panickedInCall => none

/-- A task in the `JoinSet`. -/
structure Work where
  event : PendingEvent
  ending : Option WorkEnding
deriving DecidableEq

def Work.key (work : Work) : EventKey := work.event.key

/-- Where the dispatcher task stands. Until the refill of `start` is over nobody else holds the
dispatcher. -/
inductive Phase where
  | loading (startup : Bool) (wanted : Nat) (excluded : Finset EventKey)
  | refilling (startup : Bool) (events : List PendingEvent)
  | selecting
  | stopping
  | draining
  | aborting
  | stopped (deadline : Bool)
  | failed (error : DispatcherStartError)
deriving DecidableEq

def Phase.shared : Phase → Bool
  | .loading startup _ _ | .refilling startup _ => !startup
  | .failed _ => false
  | _ => true

/-- The drain deadline has passed. -/
def Phase.pastDeadline : Phase → Bool
  | .aborting | .stopped true => true
  | _ => false

structure World where
  keys : Finset EventKey
  accepting : Bool
  cancelled : Bool
  queue : List PendingEvent
  closed : Bool
  running : List Work
  offers : List Offer
  phase : Phase
  /-- The keys of work given up at the drain deadline. -/
  aborted : List EventKey
  /-- What the calls returned, the last one first. -/
  answers : List (Except PendingEvent Unit)
deriving DecidableEq

inductive TrySendError where
  | full
  | closed
deriving DecidableEq, Repr

inductive Action where
  | offer (event : PendingEvent)
  | insert (index : Nat)
  | send (index : Nat)
  | remove (index : Nat)
  | shutdown
  | refill
  | load (loaded : Except EventBacklogError (List PendingEvent))
  | next
  | receive
  | finish (index : Nat) (ending : WorkEnding)
  | join (index : Nat)
  | stop
  | close
  | deadline
  | reap (index : Nat)
  | leave
deriving DecidableEq

namespace World

def isAccepting (world : World) : Bool := world.accepting && !world.cancelled

/-! ### One offer -/

/-- `mpsc::Sender::try_send`: the messages in the channel after it. -/
def trySend (config : DispatcherConfig) (world : World) (event : PendingEvent) :
    Except TrySendError (List PendingEvent) :=
  if world.closed then .error .closed
  else if config.queueCapacity ≤ world.queue.length then .error .full
  else .ok (world.queue ++ [event])

def answer (world : World) (result : Except PendingEvent Unit) : World :=
  { world with answers := result :: world.answers }

/-- The admission check of a call. -/
def admitEvent (world : World) (source : OfferSource) (event : PendingEvent) : World :=
  if world.isAccepting then { world with offers := world.offers ++ [⟨event, source, .admitted⟩] }
  else world.answer (.error event)

/-- The insert into the key set. A key that is there already makes the call return. -/
def insertKey (world : World) (index : Nat) : World :=
  match world.offers[index]? with
  | some ⟨event, source, .admitted⟩ =>
      if event.key ∈ world.keys then
        { world with offers := world.offers.eraseIdx index }.answer (.ok ())
      else
        { world with
          keys := insert event.key world.keys
          offers := world.offers.set index ⟨event, source, .inserted⟩ }
  | _ => world

def send (config : DispatcherConfig) (world : World) (index : Nat) : World :=
  match world.offers[index]? with
  | some ⟨event, source, .inserted⟩ =>
      match world.trySend config event with
      | .ok queue =>
          { world with
            queue := queue
            offers := world.offers.eraseIdx index }.answer (.ok ())
      | .error _ => { world with offers := world.offers.set index ⟨event, source, .refused⟩ }
  | _ => world

/-- The key of an event that the channel did not take leaves the key set. -/
def removeKey (world : World) (index : Nat) : World :=
  match world.offers[index]? with
  | some ⟨event, _, .refused⟩ =>
      { world with
        keys := world.keys.erase event.key
        offers := world.offers.eraseIdx index }.answer (.error event)
  | _ => world

/-- A call with nothing in between. -/
def offerPendingWithSource (config : DispatcherConfig) (world : World) (event : PendingEvent) :
    World × Except PendingEvent Unit :=
  if ¬ world.isAccepting then (world, .error event)
  else if event.key ∈ world.keys then (world, .ok ())
  else
    let inserted := { world with keys := insert event.key world.keys }
    match inserted.trySend config event with
    | .ok queue => ({ inserted with queue := queue }, .ok ())
    | .error _ => ({ inserted with keys := inserted.keys.erase event.key }, .error event)

/-! ### The dispatcher task -/

/-- The part of `refill_once` before the backlog answers. -/
def refillOnce (config : DispatcherConfig) (world : World) (startup : Bool) : World :=
  let depth := world.queue.length
  if config.refillTarget ≤ depth then { world with phase := .selecting }
  else
    let wanted := min (config.refillTarget - depth) config.refillBatchSize
    { world with phase := .loading startup wanted world.keys }

/-- What `refill_once` does with a load that failed: an error at startup, nothing later. -/
def loadFailed (startup : Bool) (error : EventBacklogError) : Phase :=
  match startup, error with
  | true, .invalidData => .failed .backlogInvalidData
  | true, .unavailable => .failed .backlogUnavailable
  | false, _ => .selecting

/-- The backlog answers `load_due`; a timeout counts as `Unavailable`. -/
def load (world : World) (loaded : Except EventBacklogError (List PendingEvent)) : World :=
  match world.phase with
  | .loading startup _ _ =>
      match loaded with
      | .ok events => { world with phase := .refilling startup events }
      | .error error => { world with phase := loadFailed startup error }
  | _ => world

/-- The loop over the loaded events. The task is inside a call while an offer of its own is open. -/
def next (world : World) : World :=
  match world.phase with
  | .refilling startup events =>
      if world.offers.any fun offer => offer.source = .refill then world
      else
        match events with
        | [] => { world with phase := .selecting }
        | event :: rest => { world with phase := .refilling startup rest }.admitEvent .refill event
  | _ => world

def spawnWork (world : World) (event : PendingEvent) : World :=
  { world with running := world.running ++ [⟨event, none⟩] }

/-- `recv` in the select loop and `try_recv` in the drain. -/
def receive (config : DispatcherConfig) (world : World) : World :=
  if (world.phase = .selecting ∨ world.phase = .draining)
    ∧ world.running.length < config.workerConcurrency then
    match world.queue with
    | [] => world
    | event :: queue => { world with queue := queue }.spawnWork event
  else world

/-- The future of a spawned task comes to an end. -/
def finish (world : World) (index : Nat) (ending : WorkEnding) : World :=
  match world.running[index]? with
  | some ⟨event, none⟩ => { world with running := world.running.set index ⟨event, some ending⟩ }
  | _ => world

/-- The drain loop takes messages off the channel before it waits. -/
def drainWaits (config : DispatcherConfig) (world : World) : Bool :=
  config.workerConcurrency ≤ world.running.length ∨ world.queue = []

/-- A `JoinError` does not carry the key of its task. -/
def completeWork (world : World) (key : EventKey) : Option Bool → World
  | some _ => { world with keys := world.keys.erase key }
  | none => world

def joins (config : DispatcherConfig) (world : World) : Bool :=
  world.phase = .selecting ∨ world.phase = .draining ∧ world.drainWaits config

def join (config : DispatcherConfig) (world : World) (index : Nat) : World :=
  match world.joins config, world.running[index]? with
  | true, some ⟨event, some ending⟩ =>
      { world with running := world.running.eraseIdx index }.completeWork event.key ending.joined
  | _, _ => world

/-- The select loop breaks on shutdown. The channel cannot end by itself, the task holds a sender. -/
def stop (world : World) : World :=
  if world.phase = .selecting ∧ world.cancelled then
    { world with
      accepting := false
      phase := .stopping }
  else world

def close (world : World) : World :=
  if world.phase = .stopping then
    { world with
      closed := true
      phase := .draining }
  else world

/-- The deadline of the drain passes while it waits for a task, and `abort_all` is called. -/
def deadline (config : DispatcherConfig) (world : World) : World :=
  if world.phase = .draining ∧ world.drainWaits config ∧ world.running ≠ [] then
    { world with phase := .aborting }
  else world

/-- A task ends after `abort_all` and is joined without `complete_work`. -/
def reap (world : World) (index : Nat) : World :=
  match world.phase, world.running[index]? with
  | .aborting, some work =>
      { world with
        running := world.running.eraseIdx index
        aborted := world.aborted ++ [work.key] }
  | _, _ => world

/-- The task returns and drops the receiver, with the messages that are still in the channel. -/
def leave (world : World) : World :=
  match world.phase, world.running with
  | .draining, [] => if world.queue = [] then { world with phase := .stopped false } else world
  | .aborting, [] =>
      { world with
        queue := []
        aborted := world.aborted ++ world.queue.map PendingEvent.key
        phase := .stopped true }
  | _, _ => world

def execute (config : DispatcherConfig) (world : World) : Action → World
  | .offer event => if world.phase.shared then world.admitEvent .fresh event else world
  | .insert index => world.insertKey index
  | .send index => world.send config index
  | .remove index => world.removeKey index
  | .shutdown => { world with cancelled := true }
  | .refill =>
      if world.phase = .selecting ∧ world.queue.length ≤ config.lowWatermark then
        world.refillOnce config false
      else world
  | .load loaded => world.load loaded
  | .next => world.next
  | .receive => world.receive config
  | .finish index ending => world.finish index ending
  | .join index => world.join config index
  | .stop => world.stop
  | .close => world.close
  | .deadline => world.deadline config
  | .reap index => world.reap index
  | .leave => world.leave

/-- `Dispatcher::start` up to the first load. -/
def start (config : DispatcherConfig) (cancelled : Bool) : Except DispatcherStartError World := do
  validateConfig config
  let world : World :=
    { keys := ∅
      accepting := true
      cancelled := cancelled
      queue := []
      closed := false
      running := []
      offers := []
      phase := .selecting
      aborted := []
      answers := [] }
  return world.refillOnce config true

end World

end EventDispatcher

end MetricBackend
