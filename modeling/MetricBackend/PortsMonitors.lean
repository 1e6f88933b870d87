import MetricBackend.DomainMonitors

/-! What the monitor stores share: the errors and outcomes of `ports/src/lib.rs`, and the checks and
times that both adapters derive in the same way. -/

namespace MetricBackend

inductive SignalStoreError where
  | notFound
  | conflict
  | invalidData
  | capacity
  | unavailable
deriving DecidableEq, Repr

inductive DurableOutcome where
  | accepted
  | duplicate
deriving DecidableEq, Repr

/-- `map_err(invalid)`: any error of a check counts as invalid data. -/
def invalid {ε α : Type} (result : Except ε α) : Except SignalStoreError α :=
  result.mapError fun _ => .invalidData

@[simp] theorem invalid_eq_ok {ε α : Type} {result : Except ε α} {value : α} :
    invalid result = .ok value ↔ result = .ok value := by
  cases result <;> simp [invalid, Except.mapError]

/-- Interval variants can be built by anyone and are parsed again where they enter a store. -/
def reparseSchedule : MonitorSchedule → Except SignalStoreError Unit
  | .interval minutes => do
      let _ ← invalid (MonitorSchedule.ofInterval minutes)
      return ()
  | .crontab _ _ => .ok ()

/-- The time from which a monitor without a check-in counts as due. -/
def due (definition : MonitorDefinition) : Except SignalStoreError Timestamp :=
  if definition.isUptime then .ok definition.nextExpectedAt
  else invalid (definition.config.missedAt definition.nextExpectedAt)

def addDays (value : Timestamp) (days : Nat) : Except SignalStoreError Timestamp :=
  invalid (Timestamp.fromUnixMillis (value.unixMillis + days * 86400000))

/-- An in-progress run without a deadline takes the one of its monitor. -/
def withTimeout (config : MonitorConfig) (incoming : MonitorRun) :
    Except SignalStoreError MonitorRun :=
  if incoming.status = .inProgress ∧ incoming.timeoutAt = none then do
    return { incoming with timeoutAt := some (← invalid (config.timeoutAt incoming.startedAt)) }
  else .ok incoming

end MetricBackend
