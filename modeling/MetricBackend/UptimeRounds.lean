import MetricBackend.DomainMonitors
import MetricBackend.LibRounds
import MetricBackend.LibTable

/-! The order of claimed uptime monitors, `fair_by_host` of `application/src/uptime.rs`. The parser of URLs is a
parameter. -/

namespace MetricBackend

namespace UptimeRounds

/-- What `host_key` reads of a parsed `Url`. -/
structure Url where
  hostStr : Option Text
  portOrKnownDefault : Option ℕ

variable (parseUrl : Text → Option Url)

/-- `UptimeEndpoint::host_key`. -/
def hostKey (endpoint : Text) : Except MonitorValueError Text := do
  let parsed ← (parseUrl endpoint).elim (.error .invalidEndpoint) .ok
  let host ← parsed.hostStr.elim (.error .invalidEndpoint) .ok
  let port ← parsed.portOrKnownDefault.elim (.error .invalidEndpoint) .ok
  return toAsciiLowercase host ++ ':' :: Nat.toDigits 10 port

def hostOf (monitor : MonitorDefinition) : Option Text :=
  monitor.uptime.bind fun config => (hostKey parseUrl config.endpoint).toOption

/-- The queues of monitors by host. -/
def groups (monitors : List MonitorDefinition) : Table Text (List MonitorDefinition) :=
  Table.groupFold Prod.fst [] (fun queue entry => queue ++ [entry.2]) ∅
    (monitors.filterMap fun monitor => (hostOf parseUrl monitor).map (·, monitor))

/-- `retain` visits the queues in the order of the hosts: each round is a round of the rows. -/
def fairByHost (monitors : List MonitorDefinition) : List MonitorDefinition :=
  Rounds.serve (groups parseUrl monitors).toList

variable {parseUrl} {monitors : List MonitorDefinition} {host : Text}

theorem filter_hosted (monitors : List MonitorDefinition) :
    ((monitors.filterMap fun monitor => (hostOf parseUrl monitor).map (·, monitor)).filter
        fun entry => entry.1 = host).map Prod.snd
      = monitors.filter fun monitor => hostOf parseUrl monitor = some host := by
  induction monitors with
  | nil => rfl
  | cons monitor monitors ih =>
      rw [List.filter_cons, List.filterMap_cons]
      cases hhost : hostOf parseUrl monitor with
      | none =>
          rw [if_neg (by simp)]
          exact ih
      | some found =>
          by_cases heq : found = host
          · rw [if_pos (by simp [heq])]
            exact (congrArg (List.map Prod.snd) (List.filter_cons_of_pos (by simp [heq]))).trans
              (congrArg (monitor :: ·) ih)
          · rw [if_neg (by simp [heq])]
            exact (congrArg (List.map Prod.snd) (List.filter_cons_of_neg (by simp [heq]))).trans ih

theorem get_groups : (groups parseUrl monitors)[host]?
    = if (monitors.filter fun monitor => hostOf parseUrl monitor = some host) = [] then none
      else some (monitors.filter fun monitor => hostOf parseUrl monitor = some host) := by
  rw [groups, Table.get_groupFold_append _ _ _ _ (fun entry => entry.1 = host) fun _ => decide_eq_true_iff,
    ← filter_hosted]
  simp only [List.map_eq_nil_iff]

theorem keyed_groups : Rounds.Keyed (hostOf parseUrl) (groups parseUrl monitors).toList := by
  refine ⟨Table.nodup_keys_toList _, fun ⟨host, queue⟩ hqueue monitor hmonitor => ?_⟩
  have hget := Table.mem_toList.mp hqueue
  rw [get_groups] at hget
  split_ifs at hget with hempty
  rw [← Option.some.inj hget] at hmonitor
  exact of_decide_eq_true (List.mem_filter.mp hmonitor).2

/-- The queue of a host holds its monitors in their order. -/
theorem queueOf_groups : Rounds.queueOf (groups parseUrl monitors).toList host
    = monitors.filter fun monitor => hostOf parseUrl monitor = some host := by
  by_cases hempty : (monitors.filter fun monitor => hostOf parseUrl monitor = some host) = []
  · rw [hempty]
    refine Rounds.queueOf_of_notMem fun hmem => ?_
    obtain ⟨⟨_, queue⟩, hqueue, rfl⟩ := List.mem_map.mp hmem
    have hget := Table.mem_toList.mp hqueue
    rw [get_groups, if_pos hempty] at hget
    cases hget
  · refine keyed_groups.queueOf_eq (Table.mem_toList.mpr ?_)
    rw [get_groups, if_neg hempty]

/-- The result is the monitors with a host, those of each host in their order, and before any point of it the hosts
that still have monitors have had as many as each other, up to one. -/
theorem fairByHost_balanced (parseUrl : Text → Option Url) (monitors : List MonitorDefinition) :
    (fairByHost parseUrl monitors).Perm (monitors.filter fun monitor => (hostOf parseUrl monitor).isSome)
      ∧ (∀ host, (fairByHost parseUrl monitors).filter (fun monitor => hostOf parseUrl monitor = some host)
        = monitors.filter fun monitor => hostOf parseUrl monitor = some host)
      ∧ ∀ before after host other, fairByHost parseUrl monitors = before ++ after →
        (∃ monitor ∈ after, hostOf parseUrl monitor = some host) →
        (∃ monitor ∈ after, hostOf parseUrl monitor = some other) →
        before.countP (fun monitor => hostOf parseUrl monitor = some host)
          ≤ before.countP (fun monitor => hostOf parseUrl monitor = some other) + 1
        ∧ before.countP (fun monitor => hostOf parseUrl monitor = some other)
          ≤ before.countP (fun monitor => hostOf parseUrl monitor = some host) + 1 := by
  have hfilter : ∀ host, (fairByHost parseUrl monitors).filter (fun monitor => hostOf parseUrl monitor = some host)
      = monitors.filter fun monitor => hostOf parseUrl monitor = some host := fun host => by
    rw [fairByHost, Rounds.filter_serve keyed_groups, queueOf_groups]
  refine ⟨Rounds.perm_filter_isSome (fun monitor hmonitor => Rounds.exists_key_of_mem_serve keyed_groups hmonitor) hfilter,
    hfilter, fun before after host other hresult hhost hother => ?_⟩
  obtain ⟨rounds, hrounds⟩ := Rounds.exists_rounds keyed_groups hresult
  obtain ⟨hle, hge⟩ := hrounds host hhost
  obtain ⟨hle', hge'⟩ := hrounds other hother
  exact ⟨by omega, by omega⟩

end UptimeRounds

end MetricBackend
