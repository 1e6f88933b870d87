import MetricBackend.DomainEvents
import MetricBackend.PortsMonitors

/-! The event writer of `application/src/writer.rs`: calls of `persist` send commands over a bounded channel to a task
that inserts them in batches and answers each over a channel of its own. The callers, the task and the clock take steps
in any order. A prepared event and the sender of a response are owned values; the call that made them names them. The
counters, histograms and the outcome of a handoff, which nothing reads, are left out. -/

namespace MetricBackend

structure EventWriterConfig where
  channelCapacity : Nat
  maxWait : Duration
  maxDocuments : Nat
  maxBytes : Nat
  operationTimeout : Duration
  shutdownDrain : Duration

/-- The values of `Default`. -/
def EventWriterConfig.defaultValue : EventWriterConfig where
  channelCapacity := 512
  maxWait := Duration.fromMillis 20
  maxDocuments := 250
  maxBytes := 8 * 1024 * 1024
  operationTimeout := Duration.fromSecs 10
  shutdownDrain := Duration.fromSecs 10

inductive EventWriterStartError where
  | invalidConfiguration
deriving DecidableEq, Repr

inductive EventSinkError where
  | unavailable
  | ambiguous
deriving DecidableEq, Repr

inductive EventWriteStatus where
  | inserted
  | duplicate
  | rejected
deriving DecidableEq, Repr

inductive EventStoreError where
  | unavailable
  | ambiguous
deriving DecidableEq, Repr

abbrev PersistResult : Type := Except EventSinkError DurableOutcome

namespace EventWriter

/-- A call of `persist`. -/
abbrev Call : Type := Nat

structure PreparedEvent where
  call : Call
  event : AcceptedEvent
  encodedLen : Nat
deriving DecidableEq

structure Command where
  prepared : PreparedEvent
  response : Call
deriving DecidableEq

/-- `usize::saturating_add`. -/
def saturatingAdd (left right : Nat) : Nat := min (left + right) (2 ^ 64 - 1)

structure Batch where
  events : List PreparedEvent
  responses : List Call
  encodedBytes : Nat
deriving DecidableEq

namespace Batch

def new (command : Command) : Batch where
  events := [command.prepared]
  responses := [command.response]
  encodedBytes := command.prepared.encodedLen

def canPush (self : Batch) (command : Command) (config : EventWriterConfig) : Bool :=
  self.events.length < config.maxDocuments
    && (self.events.isEmpty || saturatingAdd self.encodedBytes command.prepared.encodedLen ≤ config.maxBytes)

def push (self : Batch) (command : Command) : Batch where
  events := self.events ++ [command.prepared]
  responses := self.responses ++ [command.response]
  encodedBytes := saturatingAdd self.encodedBytes command.prepared.encodedLen

end Batch

/-- What `timeout(operation_timeout, store.insert_batch(..))` ends with. -/
inductive StoreOutcome where
  | statuses (statuses : List EventWriteStatus)
  | failed (error : EventStoreError)
  | timedOut
deriving DecidableEq

def statusResult : EventWriteStatus → PersistResult
  | .inserted => .ok .accepted
  | .duplicate => .ok .duplicate
  | .rejected => .error .unavailable

/-- `reject_batch`. -/
def rejectBatch (batch : Batch) (error : EventSinkError) : List (Call × PersistResult) :=
  batch.responses.map fun response => (response, .error error)

/-- The responses that `flush_batch` sends. -/
def flushResponses (batch : Batch) : StoreOutcome → List (Call × PersistResult)
  | .statuses statuses =>
      if statuses.length = batch.events.length then
        ((batch.events.zip batch.responses).zip statuses).map fun item => (item.1.2, statusResult item.2)
      else rejectBatch batch .ambiguous
  | .failed .unavailable => rejectBatch batch .unavailable
  | .failed .ambiguous => rejectBatch batch .ambiguous
  | .timedOut => rejectBatch batch .ambiguous

/-- The prepared events whose event `flush_batch` offers to the handoff. -/
def flushOffers (batch : Batch) : StoreOutcome → List PreparedEvent
  | .statuses statuses =>
      if statuses.length = batch.events.length then
        (((batch.events.zip batch.responses).zip statuses).filter fun item => item.2 = .inserted).map fun item => item.1.1
      else []
  | .failed _ => []
  | .timedOut => []

/-- Which of the two loops the task is in. -/
inductive Loop where
  | run
  | drain
deriving DecidableEq, Repr

/-- Where the task stands: at the top of a loop, filling a batch, waiting for the store, rejecting what the channel holds
after the deadline of the drain, or gone with the receiver. -/
inductive Phase where
  | choosing (loop : Loop) (carry : Option Command)
  | collecting (loop : Loop) (batch : Batch)
  | flushing (loop : Loop) (batch : Batch) (carry : Option Command) (shutdownRequested : Bool)
  | rejecting (carry : Option Command)
  | closed
deriving DecidableEq

/-- The calls whose response senders the task holds. -/
def Phase.held : Phase → List Call
  | .choosing _ carry => carry.toList.map (·.response)
  | .collecting _ batch => batch.responses
  | .flushing _ batch carry _ => batch.responses ++ carry.toList.map (·.response)
  | .rejecting carry => carry.toList.map (·.response)
  | .closed => []

structure World where
  shutdown : Bool
  accepting : Bool
  /-- An `EventWriter` exists, and with it a sender. -/
  handles : Bool
  /-- The calls so far. -/
  calls : List Call
  /-- The commands of the calls that wait for a place in the channel. -/
  sending : List Command
  channel : List Command
  phase : Phase
  /-- What the task sent to the calls. -/
  responses : List (Call × PersistResult)
  /-- What the calls returned. -/
  results : List (Call × PersistResult)
  /-- The calls of `insert_batch`. -/
  inserts : List (List PreparedEvent)
  /-- What they ended with. -/
  reports : List (List PreparedEvent × StoreOutcome)
  /-- What the handoff was offered. -/
  offered : List PreparedEvent
deriving DecidableEq

def validateConfig (config : EventWriterConfig) : Except EventWriterStartError Unit :=
  if 0 < config.channelCapacity ∧ 100 ≤ config.maxDocuments ∧ config.maxDocuments ≤ 500 ∧ 0 < config.maxBytes
    ∧ ¬ config.maxWait.isZero ∧ ¬ config.operationTimeout.isZero ∧ ¬ config.shutdownDrain.isZero then .ok ()
  else .error .invalidConfiguration

/-- `EventWriter::start`. -/
def start (config : EventWriterConfig) : Except EventWriterStartError World := do
  validateConfig config
  return {
    shutdown := false
    accepting := true
    handles := true
    calls := []
    sending := []
    channel := []
    phase := .choosing .run none
    responses := []
    results := []
    inserts := []
    reports := []
    offered := [] }

namespace World

def isAccepting (world : World) : Bool := world.accepting && !world.shutdown

/-- A call returns before it sends. -/
def refuse (world : World) (call : Call) : World :=
  { world with
    calls := call :: world.calls
    results := (call, .error .unavailable) :: world.results }

/-- The task sends responses, which the calls return. -/
def respond (world : World) (answers : List (Call × PersistResult)) : World :=
  { world with
    responses := answers ++ world.responses
    results := answers ++ world.results }

/-- Response senders are dropped, and the calls return that the task is gone. -/
def dropResponses (world : World) (calls : List Call) : World :=
  { world with results := calls.map (fun call => (call, .error .unavailable)) ++ world.results }

/-- The task ends: what it holds and what is in the channel is dropped. -/
def close (world : World) : World :=
  { world.dropResponses (world.phase.held ++ world.channel.map (·.response)) with
    channel := []
    phase := .closed }

/-- `flush_batch` up to the store. -/
def beginFlush (world : World) (loop : Loop) (batch : Batch) (carry : Option Command) (shutdownRequested : Bool) : World :=
  { world with
    phase := .flushing loop batch carry shutdownRequested
    inserts := world.inserts ++ [batch.events] }

/-- `flush_batch` once the store has answered. -/
def endFlush (world : World) (batch : Batch) (outcome : StoreOutcome) : World :=
  { world.respond (flushResponses batch outcome) with
    reports := world.reports ++ [(batch.events, outcome)]
    offered := world.offered ++ flushOffers batch outcome }

/-- What follows a flush. -/
def afterFlush (world : World) (loop : Loop) (carry : Option Command) (shutdownRequested : Bool) : World :=
  if shutdownRequested then
    { world.respond (carry.toList.map fun command => (command.response, .error .unavailable)) with
      phase := .choosing .drain none }
  else { world with phase := .choosing loop carry }

end World

/-- A step of a caller, of the shutdown signal or of the runtime. -/
inductive CallerStep (config : EventWriterConfig) (world : World) : World → Prop
  /-- `persist` of a writer that does not accept, or of an event that `prepare` refuses. -/
  | refused (call : Call) (hcall : call ∉ world.calls) (hhandles : world.handles = true) :
      CallerStep config world (world.refuse call)
  | prepared (call : Call) (event : AcceptedEvent) (encodedLen : Nat) (hcall : call ∉ world.calls)
      (hhandles : world.handles = true) (haccepting : world.isAccepting = true) :
      CallerStep config world
        { world with
          calls := call :: world.calls
          sending := world.sending ++ [⟨⟨call, event, encodedLen⟩, call⟩] }
  | sent (before : List Command) (command : Command) (after : List Command)
      (hsending : world.sending = before ++ command :: after) (hopen : world.phase ≠ .closed)
      (hroom : world.channel.length < config.channelCapacity) :
      CallerStep config world
        { world with
          sending := before ++ after
          channel := world.channel ++ [command] }
  | unsent (before : List Command) (command : Command) (after : List Command)
      (hsending : world.sending = before ++ command :: after) (hclosed : world.phase = .closed) :
      CallerStep config world ({ world with sending := before ++ after }.dropResponses [command.response])
  | shutdown : CallerStep config world { world with shutdown := true }
  /-- The last handle is dropped. -/
  | released (hsending : world.sending = []) : CallerStep config world { world with handles := false }
  /-- The task is aborted or panics. -/
  | aborted : CallerStep config world world.close

/-- A step of the task. The branches of a `select!` that are ready at one time are taken in any order: a signal or a
deadline can come between the polls of two branches. -/
inductive WriterStep (config : EventWriterConfig) (world : World) : World → Prop
  | takeCarry (loop : Loop) (command : Command) (hphase : world.phase = .choosing loop (some command)) :
      WriterStep config world { world with phase := .collecting loop (.new command) }
  | receive (loop : Loop) (command : Command) (rest : List Command) (hphase : world.phase = .choosing loop none)
      (hchannel : world.channel = command :: rest) :
      WriterStep config world
        { world with
          channel := rest
          phase := .collecting loop (.new command) }
  | cancelled (hphase : world.phase = .choosing .run none) (hshutdown : world.shutdown = true) :
      WriterStep config world
        { world with
          accepting := false
          phase := .choosing .drain none }
  | disconnected (hphase : world.phase = .choosing .run none) (hchannel : world.channel = [])
      (hhandles : world.handles = false) :
      WriterStep config world { world with accepting := false }.close
  | drained (hphase : world.phase = .choosing .drain none) (hchannel : world.channel = []) :
      WriterStep config world world.close
  | push (loop : Loop) (batch : Batch) (command : Command) (rest : List Command)
      (hphase : world.phase = .collecting loop batch) (hroom : batch.events.length < config.maxDocuments)
      (hchannel : world.channel = command :: rest) (hpush : batch.canPush command config = true) :
      WriterStep config world
        { world with
          channel := rest
          phase := .collecting loop (batch.push command) }
  | carry (loop : Loop) (batch : Batch) (command : Command) (rest : List Command)
      (hphase : world.phase = .collecting loop batch) (hroom : batch.events.length < config.maxDocuments)
      (hchannel : world.channel = command :: rest) (hpush : batch.canPush command config = false) :
      WriterStep config world ({ world with channel := rest }.beginFlush loop batch (some command) false)
  | full (loop : Loop) (batch : Batch) (hphase : world.phase = .collecting loop batch)
      (hroom : ¬ batch.events.length < config.maxDocuments) :
      WriterStep config world (world.beginFlush loop batch none false)
  | deadline (batch : Batch) (hphase : world.phase = .collecting .run batch)
      (hroom : batch.events.length < config.maxDocuments) :
      WriterStep config world (world.beginFlush .run batch none false)
  | stopped (batch : Batch) (hphase : world.phase = .collecting .run batch)
      (hroom : batch.events.length < config.maxDocuments) (hshutdown : world.shutdown = true) :
      WriterStep config world ({ world with accepting := false }.beginFlush .run batch none true)
  | exhausted (loop : Loop) (batch : Batch) (hphase : world.phase = .collecting loop batch)
      (hroom : batch.events.length < config.maxDocuments) (hchannel : world.channel = [])
      (hend : loop = .drain ∨ world.handles = false) :
      WriterStep config world (world.beginFlush loop batch none false)
  | flushed (loop : Loop) (batch : Batch) (carry : Option Command) (shutdownRequested : Bool) (outcome : StoreOutcome)
      (hphase : world.phase = .flushing loop batch carry shutdownRequested) :
      WriterStep config world ((world.endFlush batch outcome).afterFlush loop carry shutdownRequested)
  /-- The deadline of the drain passes while the store is at work: the batch is dropped. -/
  | elapsed (batch : Batch) (carry : Option Command) (shutdownRequested : Bool)
      (hphase : world.phase = .flushing .drain batch carry shutdownRequested) :
      WriterStep config world { world.dropResponses batch.responses with phase := .rejecting carry }
  | reject (carry : Option Command) (command : Command) (rest : List Command) (hphase : world.phase = .rejecting carry)
      (hchannel : world.channel = command :: rest) :
      WriterStep config world ({ world with channel := rest }.respond [(command.response, .error .unavailable)])
  | rejected (carry : Option Command) (hphase : world.phase = .rejecting carry) (hchannel : world.channel = []) :
      WriterStep config world world.close

/-- The worlds that a writer comes to. -/
inductive Reachable (config : EventWriterConfig) : World → Prop
  | start {world : World} (h : start config = .ok world) : Reachable config world
  | caller {world next : World} (h : Reachable config world) (hstep : CallerStep config world next) : Reachable config next
  | writer {world next : World} (h : Reachable config world) (hstep : WriterStep config world next) : Reachable config next

end EventWriter

end MetricBackend
