import MetricBackend.IngestCheckIns
import MetricBackend.LibTable

/-! The per-project windows of `application/src/ingest.rs` that limit feedback and check-ins: `admit_window`, and
`admit_feedback`, which has the same body with codes of its own. -/

namespace MetricBackend

structure FeedbackRateWindow where
  openedAt : Int
  submissions : Nat
deriving DecidableEq

abbrev RateWindows : Type := Table ProjectId FeedbackRateWindow

/-- `admit_window`: what a call gets, and the windows after it. The submissions are counted by `u32::saturating_add`. -/
def admitWindow (windows : RateWindows) (projectId : ProjectId) (receivedAt : Timestamp) (maximum capacity : Nat)
    (rateCode capacityCode : String) : Except IngestError Unit × RateWindows :=
  let now := receivedAt.unixMillis
  match windows[projectId]? with
  | some window =>
      if 60000 ≤ now - window.openedAt then (.ok (), windows.insert projectId ⟨now, 1⟩)
      else if maximum ≤ window.submissions then (.error ⟨.rateLimited, rateCode⟩, windows)
      else
        (.ok (), windows.insert projectId { window with submissions := min (window.submissions + 1) (2 ^ 32 - 1) })
  | none =>
      if capacity ≤ windows.size then (.error ⟨.rateLimited, capacityCode⟩, windows)
      else (.ok (), windows.insert projectId ⟨now, 1⟩)

def admitFeedback (windows : RateWindows) (projectId : ProjectId) (receivedAt : Timestamp)
    (maxSubmissionsPerMinute limiterCapacity : Nat) : Except IngestError Unit × RateWindows :=
  admitWindow windows projectId receivedAt maxSubmissionsPerMinute limiterCapacity "feedback_rate_limited"
    "feedback_limiter_capacity"

def admitMonitor (windows : RateWindows) (projectId : ProjectId) (receivedAt : Timestamp)
    (maxCheckInsPerMinute limiterCapacity : Nat) : Except IngestError Unit × RateWindows :=
  admitWindow windows projectId receivedAt maxCheckInsPerMinute limiterCapacity "monitor_rate_limited"
    "monitor_limiter_capacity"

/-- The limits of one of the callers. -/
structure WindowLimits where
  maximum : Nat
  capacity : Nat
  rateCode : String
  capacityCode : String
  one_le_maximum : 1 ≤ maximum
  maximum_lt : maximum < 2 ^ 32
  one_le_capacity : 1 ≤ capacity
  codes_ne : rateCode ≠ capacityCode

structure RateCall where
  projectId : ProjectId
  receivedAt : Timestamp

namespace WindowLimits

section Steps

variable (limits : WindowLimits) (windows : RateWindows) (call : RateCall)

def admitCall : Except IngestError Unit × RateWindows :=
  admitWindow windows call.projectId call.receivedAt limits.maximum limits.capacity limits.rateCode limits.capacityCode

theorem admit_eq_admitFeedback (hrate : limits.rateCode = "feedback_rate_limited")
    (hcapacity : limits.capacityCode = "feedback_limiter_capacity") : limits.admitCall windows call
      = admitFeedback windows call.projectId call.receivedAt limits.maximum limits.capacity := by
  rw [admitCall, hrate, hcapacity, admitFeedback]

theorem admit_eq_admitMonitor (hrate : limits.rateCode = "monitor_rate_limited")
    (hcapacity : limits.capacityCode = "monitor_limiter_capacity") : limits.admitCall windows call
      = admitMonitor windows call.projectId call.receivedAt limits.maximum limits.capacity := by
  rw [admitCall, hrate, hcapacity, admitMonitor]

/-- The call opens a window of its project: it is admitted, and no window of the project is open. -/
def Opens : Prop :=
  (limits.admitCall windows call).1.isOk = true
    ∧ ∀ window, windows[call.projectId]? = some window → 60000 ≤ call.receivedAt.unixMillis - window.openedAt

/-- What a call can do. -/
theorem admit_cases :
    (∃ window, windows[call.projectId]? = some window ∧ 60000 ≤ call.receivedAt.unixMillis - window.openedAt
      ∧ limits.admitCall windows call = (.ok (), windows.insert call.projectId ⟨call.receivedAt.unixMillis, 1⟩))
    ∨ (∃ window, windows[call.projectId]? = some window ∧ call.receivedAt.unixMillis - window.openedAt < 60000
      ∧ limits.maximum ≤ window.submissions
      ∧ limits.admitCall windows call = (.error ⟨.rateLimited, limits.rateCode⟩, windows))
    ∨ (∃ window, windows[call.projectId]? = some window ∧ call.receivedAt.unixMillis - window.openedAt < 60000
      ∧ window.submissions < limits.maximum
      ∧ limits.admitCall windows call
        = (.ok (), windows.insert call.projectId { window with submissions := window.submissions + 1 }))
    ∨ (windows[call.projectId]? = none ∧ limits.capacity ≤ windows.size
      ∧ limits.admitCall windows call = (.error ⟨.rateLimited, limits.capacityCode⟩, windows))
    ∨ (windows[call.projectId]? = none ∧ windows.size < limits.capacity
      ∧ limits.admitCall windows call = (.ok (), windows.insert call.projectId ⟨call.receivedAt.unixMillis, 1⟩)) := by
  simp only [admitCall, admitWindow]
  cases hwindow : windows[call.projectId]? with
  | none =>
      by_cases hfull : limits.capacity ≤ windows.size
      · exact .inr (.inr (.inr (.inl ⟨rfl, hfull, if_pos hfull⟩)))
      · exact .inr (.inr (.inr (.inr ⟨rfl, not_le.mp hfull, if_neg hfull⟩)))
  | some window =>
      by_cases hexpired : 60000 ≤ call.receivedAt.unixMillis - window.openedAt
      · exact .inl ⟨window, rfl, hexpired, if_pos hexpired⟩
      · by_cases hspent : limits.maximum ≤ window.submissions
        · exact .inr (.inl ⟨window, rfl, not_le.mp hexpired, hspent, by dsimp only; rw [if_neg hexpired, if_pos hspent]⟩)
        · refine .inr (.inr (.inl ⟨window, rfl, not_le.mp hexpired, not_le.mp hspent, ?_⟩))
          have hmaximum := limits.maximum_lt
          dsimp only
          rw [if_neg hexpired, if_neg hspent, Nat.min_eq_left (by omega)]

/-- Calls of other projects leave a window alone. -/
theorem get_admit_of_ne {projectId : ProjectId} (hne : call.projectId ≠ projectId) :
    (limits.admitCall windows call).2[projectId]? = windows[projectId]? := by
  obtain ⟨_, _, _, h⟩ | ⟨_, _, _, _, h⟩ | ⟨_, _, _, _, h⟩ | ⟨_, _, h⟩ | ⟨_, _, h⟩ := limits.admit_cases windows call <;>
    rw [h]
  · exact Table.get_insert_of_ne _ _ hne
  · exact Table.get_insert_of_ne _ _ hne
  · exact Table.get_insert_of_ne _ _ hne

/-- There are never more windows than the capacity. -/
theorem size_admit_le (h : windows.size ≤ limits.capacity) :
    (limits.admitCall windows call).2.size ≤ limits.capacity := by
  have hreplace : ∀ window value, windows[call.projectId]? = some window →
      (windows.insert call.projectId value).size = windows.size := by
    intro window value hwindow
    rw [Std.ExtTreeMap.size_insert]
    exact if_pos (Std.ExtTreeMap.mem_iff_isSome_getElem?.mpr (by rw [hwindow]; rfl))
  obtain ⟨_, hwindow, _, heq⟩ | ⟨_, _, _, _, heq⟩ | ⟨_, hwindow, _, _, heq⟩ | ⟨_, _, heq⟩ | ⟨_, hroom, heq⟩ :=
    limits.admit_cases windows call
  · rw [heq]
    exact (hreplace _ _ hwindow).le.trans h
  · rw [heq]
    exact h
  · rw [heq]
    exact (hreplace _ _ hwindow).le.trans h
  · rw [heq]
    exact h
  · rw [heq]
    exact Std.ExtTreeMap.size_insert_le.trans hroom

end Steps

/-! ### Runs -/

variable (limits : WindowLimits)

/-- The windows after calls, from the first one of the process on. -/
def after (calls : List RateCall) : RateWindows :=
  calls.foldl (fun windows call => (limits.admitCall windows call).2) ∅

/-- The calls of a project that are admitted. -/
def admitted (projectId : ProjectId) (windows : RateWindows) : List RateCall → Nat
  | [] => 0
  | call :: calls =>
      (if call.projectId = projectId ∧ (limits.admitCall windows call).1.isOk = true then 1 else 0)
        + admitted projectId (limits.admitCall windows call).2 calls

/-- No call opens a window of the project. -/
def Keeps (projectId : ProjectId) (windows : RateWindows) : List RateCall → Prop
  | [] => True
  | call :: calls =>
      (call.projectId = projectId → ¬ limits.Opens windows call) ∧ Keeps projectId (limits.admitCall windows call).2 calls

/-- A window that is open counts what it admits. -/
theorem admitted_le {projectId : ProjectId} {windows : RateWindows} {window : FeedbackRateWindow}
    (hwindow : windows[projectId]? = some window) (hle : window.submissions ≤ limits.maximum) {calls : List RateCall}
    (hkeeps : limits.Keeps projectId windows calls) :
    window.submissions + limits.admitted projectId windows calls ≤ limits.maximum := by
  induction calls generalizing windows window with
  | nil => exact hle
  | cons call calls ih =>
      obtain ⟨hcall, hcalls⟩ := hkeeps
      rw [admitted]
      by_cases hproject : call.projectId = projectId
      · obtain ⟨other, hother, hexpired, heq⟩ | ⟨other, hother, _, _, heq⟩ | ⟨other, hother, _, hroom, heq⟩ |
          ⟨hnone, _, _⟩ | ⟨hnone, _, _⟩ := limits.admit_cases windows call
        · -- the window would be opened again
          refine absurd ⟨by rw [heq]; rfl, fun found hfound => ?_⟩ (hcall hproject)
          rw [hother] at hfound
          exact Option.some.inj hfound ▸ hexpired
        · rw [heq] at hcalls ⊢
          rw [if_neg (fun h => nomatch h.2), Nat.zero_add]
          exact ih hwindow hle hcalls
        · rw [hproject, hwindow] at hother
          obtain rfl := Option.some.inj hother
          rw [heq] at hcalls ⊢
          have hopen : (windows.insert call.projectId ⟨window.openedAt, window.submissions + 1⟩)[projectId]?
              = some ⟨window.openedAt, window.submissions + 1⟩ := by
            rw [hproject, Table.get_insert_self]
          have hnext := ih hopen hroom hcalls
          rw [if_pos ⟨hproject, rfl⟩]
          dsimp only at hnext ⊢
          omega
        · rw [hproject, hwindow] at hnone
          cases hnone
        · rw [hproject, hwindow] at hnone
          cases hnone
      · rw [if_neg (fun h => hproject h.1), Nat.zero_add]
        exact ih (by rw [limits.get_admit_of_ne windows call hproject, hwindow]) hle hcalls

/-- From its opening to the next one a window admits no more than the maximum. -/
theorem admitted_of_opens {windows : RateWindows} {opening : RateCall} (hopens : limits.Opens windows opening)
    {calls : List RateCall} (hkeeps : limits.Keeps opening.projectId (limits.admitCall windows opening).2 calls) :
    limits.admitted opening.projectId windows (opening :: calls) ≤ limits.maximum := by
  obtain ⟨hok, hexpired⟩ := hopens
  have hopened : (limits.admitCall windows opening).2[opening.projectId]?
      = some ⟨opening.receivedAt.unixMillis, 1⟩ := by
    obtain ⟨_, _, _, heq⟩ | ⟨_, _, _, _, heq⟩ | ⟨window, hwindow, hopen, _, _⟩ | ⟨_, _, heq⟩ | ⟨_, _, heq⟩ :=
      limits.admit_cases windows opening
    · rw [heq, Table.get_insert_self]
    · rw [heq] at hok
      cases hok
    · exact absurd (hexpired window hwindow) (not_le.mpr hopen)
    · rw [heq] at hok
      cases hok
    · rw [heq, Table.get_insert_self]
  rw [admitted, if_pos ⟨rfl, hok⟩]
  exact limits.admitted_le hopened limits.one_le_maximum hkeeps

theorem size_after_le (calls : List RateCall) : (limits.after calls).size ≤ limits.capacity := by
  induction calls using List.reverseRecOn with
  | nil => exact Nat.zero_le _
  | append_singleton calls call ih =>
      rw [after, List.foldl_append]
      exact limits.size_admit_le _ call ih

/-- Other projects with a window that was opened less than a minute ago. -/
def recent (windows : RateWindows) (call : RateCall) : List (ProjectId × FeedbackRateWindow) :=
  windows.toList.filter fun row =>
    decide (row.1 ≠ call.projectId ∧ call.receivedAt.unixMillis - row.2.openedAt < 60000)

/-- Windows are fair along a run: each admits no more than the maximum, errors change nothing, and a project is only
refused for the capacity while so many other projects have a recent window. -/
structure FairRun (calls : List RateCall) : Prop where
  admitted : ∀ before opening between rest, calls = before ++ opening :: (between ++ rest) →
    limits.Opens (limits.after before) opening →
    limits.Keeps opening.projectId (limits.admitCall (limits.after before) opening).2 between →
    limits.admitted opening.projectId (limits.after before) (opening :: between) ≤ limits.maximum
  unchanged : ∀ before call rest, calls = before ++ call :: rest → ∀ error,
    (limits.admitCall (limits.after before) call).1 = .error error →
    (limits.admitCall (limits.after before) call).2 = limits.after before
  crowded : ∀ before call rest, calls = before ++ call :: rest →
    (limits.admitCall (limits.after before) call).1 = .error ⟨.rateLimited, limits.capacityCode⟩ →
    limits.capacity ≤ (recent (limits.after before) call).length

/-- The project of the call has a window, or there is room for another one, or none of the windows has run out. -/
def Current (windows : RateWindows) (call : RateCall) : Prop :=
  windows[call.projectId]? ≠ none ∨ windows.size < limits.capacity
    ∨ ∀ (projectId : ProjectId) (window : FeedbackRateWindow), windows[projectId]? = some window →
      call.receivedAt.unixMillis - window.openedAt < 60000

/-- A refusal for the capacity is fair when none of the windows has run out. -/
theorem crowded_iff {windows : RateWindows} (hsize : windows.size ≤ limits.capacity) (call : RateCall) :
    ((limits.admitCall windows call).1 = .error ⟨.rateLimited, limits.capacityCode⟩ →
      limits.capacity ≤ (recent windows call).length) ↔ limits.Current windows call := by
  have hother : (∃ window, windows[call.projectId]? = some window) ∨ windows.size < limits.capacity →
      (limits.admitCall windows call).1 ≠ .error ⟨.rateLimited, limits.capacityCode⟩ := by
    intro hfree
    obtain ⟨_, _, _, heq⟩ | ⟨_, _, _, _, heq⟩ | ⟨_, _, _, _, heq⟩ | ⟨hnone, hfull, heq⟩ | ⟨_, _, heq⟩ :=
      limits.admit_cases windows call
    · rw [heq]
      exact fun h => nomatch h
    · rw [heq]
      exact fun h => limits.codes_ne (IngestError.mk.inj (Except.error.inj h)).2
    · rw [heq]
      exact fun h => nomatch h
    · obtain ⟨window, hwindow⟩ | hroom := hfree
      · rw [hnone] at hwindow
        cases hwindow
      · exact absurd hroom (not_lt.mpr hfull)
    · rw [heq]
      exact fun h => nomatch h
  by_cases hwindow : windows[call.projectId]? = none
  · by_cases hroom : windows.size < limits.capacity
    · exact iff_of_true (fun h => absurd h (hother (.inr hroom))) (Or.inr (.inl hroom))
    · have hrefused : (limits.admitCall windows call).1 = .error ⟨.rateLimited, limits.capacityCode⟩ := by
        simp only [admitCall, admitWindow, hwindow]
        rw [if_pos (not_lt.mp hroom)]
      have hlength : windows.toList.length = limits.capacity := by
        rw [Std.ExtTreeMap.length_toList]
        exact Nat.le_antisymm hsize (not_lt.mp hroom)
      rw [forall_prop_of_true hrefused, Current, ← hlength, recent]
      have hall : windows.toList.length ≤ (recent windows call).length ↔ ∀ row ∈ windows.toList,
          decide (row.1 ≠ call.projectId ∧ call.receivedAt.unixMillis - row.2.openedAt < 60000) = true := by
        rw [← List.length_filter_eq_length_iff, recent]
        exact ⟨fun h => Nat.le_antisymm (List.length_filter_le _ _) h, fun h => h.ge⟩
      refine hall.trans ⟨fun h => .inr (.inr fun projectId window hfound => ?_), fun h row hrow => ?_⟩
      · exact (of_decide_eq_true (h (projectId, window) (Table.mem_toList.mpr hfound))).2
      · have hfound := Table.mem_toList.mp hrow
        refine decide_eq_true ⟨fun hsame => ?_, ?_⟩
        · rw [hsame, hwindow] at hfound
          cases hfound
        · obtain h | h | h := h
          · exact absurd hwindow h
          · rw [hlength] at h
            exact absurd h hroom
          · exact h _ _ hfound
  · exact iff_of_true (fun h => absurd h (hother (.inl (Option.ne_none_iff_exists'.mp hwindow)))) (Or.inl hwindow)

/-- Room for one project. -/
def oneProject : WindowLimits where
  maximum := 30
  capacity := 1
  rateCode := "feedback_rate_limited"
  capacityCode := "feedback_limiter_capacity"
  one_le_maximum := by decide
  maximum_lt := by decide
  one_le_capacity := by decide
  codes_ne := by decide

def idleCall : RateCall := ⟨⟨1, ProjectId.positive_one⟩, ⟨0, inRange_epoch⟩⟩
def refusedCall : RateCall := ⟨⟨2, ProjectId.positive_two⟩, ⟨1000000000, by decide⟩⟩

/-- Eleven days after its only call, a project still keeps another one out. -/
theorem fairRun_idle : ¬ ∀ (limits : WindowLimits) (calls : List RateCall),
    calls.Pairwise (fun earlier later => earlier.receivedAt ≤ later.receivedAt) → limits.FairRun calls := by
  intro h
  have hfair := h oneProject [idleCall, refusedCall] (by decide)
  have hafter : oneProject.after [idleCall] = (∅ : RateWindows).insert idleCall.projectId ⟨0, 1⟩ := by
    obtain ⟨_, hwindow, _, _⟩ | ⟨_, hwindow, _⟩ | ⟨_, hwindow, _⟩ | ⟨_, hfull, _⟩ | ⟨_, _, heq⟩ :=
      oneProject.admit_cases ∅ idleCall
    · rw [Table.get_empty] at hwindow
      cases hwindow
    · rw [Table.get_empty] at hwindow
      cases hwindow
    · rw [Table.get_empty] at hwindow
      cases hwindow
    · exact absurd hfull (by decide)
    · exact congrArg Prod.snd heq
  have hcurrent := (oneProject.crowded_iff (oneProject.size_after_le [idleCall]) refusedCall).mp
    (hfair.crowded [idleCall] refusedCall [] rfl)
  rw [hafter] at hcurrent
  obtain hwindow | hroom | hrecent := hcurrent
  · refine hwindow ?_
    rw [Table.get_insert_of_ne _ _ (by decide), Table.get_empty]
  · rw [Std.ExtTreeMap.size_insert] at hroom
    exact absurd hroom (by decide)
  · exact absurd (hrecent idleCall.projectId ⟨0, 1⟩ (Table.get_insert_self _ _ _)) (by decide)

/-- A run is fair when every call of a project without a window finds room, or no window that has run out. -/
theorem fairRun_iff (calls : List RateCall) :
    limits.FairRun calls ↔ ∀ before call rest, calls = before ++ call :: rest →
      limits.Current (limits.after before) call := by
  constructor
  · intro h before call rest heq
    exact (limits.crowded_iff (limits.size_after_le before) call).mp (h.crowded before call rest heq)
  · intro h
    refine ⟨fun before opening between rest _ hopens hkeeps => limits.admitted_of_opens hopens hkeeps, ?_, ?_⟩
    · intro before call rest _ error herror
      obtain ⟨_, _, _, heq⟩ | ⟨_, _, _, _, heq⟩ | ⟨_, _, _, _, heq⟩ | ⟨_, _, heq⟩ | ⟨_, _, heq⟩ :=
        limits.admit_cases (limits.after before) call
      · rw [heq] at herror
        cases herror
      · rw [heq]
      · rw [heq] at herror
        cases herror
      · rw [heq]
      · rw [heq] at herror
        cases herror
    · intro before call rest heq
      exact (limits.crowded_iff (limits.size_after_le before) call).mpr (h before call rest heq)

end WindowLimits

end MetricBackend
