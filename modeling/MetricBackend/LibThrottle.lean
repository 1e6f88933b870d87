import Mathlib.Data.Int.Order.Basic
import Mathlib.Data.List.Basic

/-! A throttle: a count of what was emitted since the start of a window of time, which is set back when the
window has run out, and the last instant of an emission. Along any run of it a window has at most so many
emissions, and the spaced ones are a cooldown apart. -/

namespace MetricBackend

structure Throttle where
  last : Option Int
  start : Option Int
  count : Nat
deriving DecidableEq

namespace Throttle

structure Limits where
  window : Int
  cooldown : Int
  limit : Nat

/-- What happens at an instant: nothing is kept, the window is looked at, an emission outside of the count, or
one that counts, which a cooldown may keep apart from others. -/
inductive Kind where
  | idle
  | rolled
  | uncounted
  | counted (spaced : Bool)
deriving DecidableEq

def Kind.counts : Kind → Bool
  | counted _ => true
  | _ => false

def Kind.isSpaced : Kind → Bool
  | counted spaced => spaced
  | _ => false

section Steps

variable (limits : Limits) (throttle : Throttle) (now : Int)

def expired : Bool := throttle.start.all fun start => limits.window ≤ now - start

def startAt : Option Int := if throttle.expired limits now then some now else throttle.start

def countAt : Nat := if throttle.expired limits now then 0 else throttle.count

def ready : Bool := throttle.last.all fun last => limits.cooldown ≤ now - last

inductive Step : Kind → Throttle → Prop where
  | idle : Step .idle throttle
  | rolled : Step .rolled ⟨throttle.last, throttle.startAt limits now, throttle.countAt limits now⟩
  | uncounted : Step .uncounted ⟨some now, throttle.startAt limits now, throttle.countAt limits now⟩
  | counted (spaced : Bool) (hready : spaced = true → throttle.ready limits now = true)
      (hroom : throttle.countAt limits now < limits.limit) :
      Step (.counted spaced) ⟨some now, throttle.startAt limits now, throttle.countAt limits now + 1⟩

end Steps

structure Entry where
  now : Int
  kind : Kind
  after : Throttle

/-- Runs with a clock that does not go back, the latest entry first. -/
inductive Run (limits : Limits) (first : Throttle) : List Entry → Throttle → Prop where
  | start : Run limits first [] first
  | step {history : List Entry} {throttle next : Throttle} {now : Int} {kind : Kind}
      (hrun : Run limits first history throttle) (hclock : ∀ entry ∈ history, entry.now ≤ now)
      (hstep : Step limits throttle now kind next) : Run limits first (⟨now, kind, next⟩ :: history) next

/-- A start of a window that the run kept at some point. -/
def IsStart (first : Throttle) (history : List Entry) (start : Int) : Prop :=
  first.start = some start ∨ ∃ entry ∈ history, entry.after.start = some start

/-- The counted emissions of the window from a start. -/
def emitted (limits : Limits) (history : List Entry) (start : Int) : Nat :=
  history.countP fun entry => entry.kind.counts && decide (start ≤ entry.now ∧ entry.now < start + limits.window)

section Runs

variable {limits : Limits} {first throttle next : Throttle} {history : List Entry} {now start : Int} {kind : Kind}

theorem emitted_cons (entry : Entry) :
    emitted limits (entry :: history) start = emitted limits history start
      + if entry.kind.counts = true ∧ start ≤ entry.now ∧ entry.now < start + limits.window then 1 else 0 := by
  rw [emitted, emitted, List.countP_cons]
  simp only [Bool.and_eq_true, decide_eq_true_iff]

theorem isStart_cons (entry : Entry) :
    IsStart first (entry :: history) start ↔ IsStart first history start ∨ entry.after.start = some start := by
  simp only [IsStart, List.mem_cons, exists_eq_or_imp]
  rw [or_assoc]
  exact or_congr_right or_comm

theorem step_cases (h : Step limits throttle now kind next) :
    (kind = .idle ∧ next = throttle)
      ∨ (next.start = throttle.startAt limits now
        ∧ next.count = throttle.countAt limits now + (if kind.counts = true then 1 else 0)
        ∧ (kind.counts = true → throttle.countAt limits now < limits.limit)) := by
  cases h with
  | idle => exact .inl ⟨rfl, rfl⟩
  | rolled => exact .inr ⟨rfl, rfl, fun h => nomatch h⟩
  | uncounted => exact .inr ⟨rfl, rfl, fun h => nomatch h⟩
  | counted spaced hready hroom => exact .inr ⟨rfl, rfl, fun _ => hroom⟩

/-- What holds of a run: the counted emissions are recent, those of the current window are in the count, those
of any window within the limit, and a window that is not current any more has run out. -/
structure Bounded (limits : Limits) (first : Throttle) (history : List Entry) (throttle : Throttle) : Prop where
  isStart : ∀ start, throttle.start = some start → IsStart first history start
  recent : ∀ entry ∈ history, entry.kind.counts = true →
    ∃ start, throttle.start = some start ∧ entry.now < start + limits.window
  counted : ∀ start, throttle.start = some start → emitted limits history start ≤ throttle.count
  within : ∀ start, IsStart first history start → emitted limits history start ≤ limits.limit
  past : ∀ start, IsStart first history start → throttle.start = some start ∨
    ∃ entry ∈ history, start + limits.window ≤ entry.now

theorem Bounded.idle (h : Bounded limits first history throttle) :
    Bounded limits first (⟨now, .idle, throttle⟩ :: history) throttle := by
  have hemitted : ∀ start, emitted limits (⟨now, .idle, throttle⟩ :: history) start = emitted limits history start := by
    intro start
    rw [emitted_cons, if_neg (fun h => nomatch h.1), Nat.add_zero]
  have hstarts : ∀ start, IsStart first (⟨now, .idle, throttle⟩ :: history) start → IsStart first history start :=
    fun start hstart => ((isStart_cons _).mp hstart).elim id (h.isStart start)
  refine ⟨fun start hstart => (isStart_cons _).mpr (.inr hstart), fun entry hentry hcounts => ?_, fun start hstart => ?_,
    fun start hstart => ?_, fun start hstart => ?_⟩
  · rcases List.mem_cons.mp hentry with rfl | hentry
    · exact nomatch hcounts
    · exact h.recent entry hentry hcounts
  · rw [hemitted]
    exact h.counted start hstart
  · rw [hemitted]
    exact h.within start (hstarts start hstart)
  · exact (h.past start (hstarts start hstart)).imp id fun ⟨entry, hentry, hlate⟩ =>
      ⟨entry, List.mem_cons_of_mem _ hentry, hlate⟩

/-- A window that has run out gets no more emissions. -/
theorem emitted_past (hclock : ∀ entry ∈ history, entry.now ≤ now)
    (hpast : ∃ entry ∈ history, start + limits.window ≤ entry.now) :
    emitted limits (⟨now, kind, next⟩ :: history) start = emitted limits history start := by
  obtain ⟨entry, hentry, hlate⟩ := hpast
  have hnow := hclock entry hentry
  rw [emitted_cons, if_neg, Nat.add_zero]
  rintro ⟨-, -, hbefore⟩
  dsimp only at hbefore
  omega

/-- An emission in the current window. -/
theorem Bounded.same (h : Bounded limits first history throttle) (hclock : ∀ entry ∈ history, entry.now ≤ now)
    (hexpired : throttle.expired limits now = false) (hstart : next.start = throttle.start)
    (hcount : next.count = throttle.count + (if kind.counts = true then 1 else 0))
    (hroom : kind.counts = true → throttle.count < limits.limit) :
    Bounded limits first (⟨now, kind, next⟩ :: history) next := by
  obtain ⟨current, hcurrent, hnow⟩ : ∃ current, throttle.start = some current ∧ now < current + limits.window := by
    cases hsome : throttle.start with
    | none => simp [expired, hsome] at hexpired
    | some current =>
        simp only [expired, hsome, Option.all_some, decide_eq_false_iff_not] at hexpired
        exact ⟨current, rfl, by omega⟩
  have hstarts : ∀ start, IsStart first (⟨now, kind, next⟩ :: history) start → IsStart first history start := by
    intro start hisStart
    refine ((isStart_cons _).mp hisStart).elim id fun hafter => h.isStart start ?_
    rw [← hstart]
    exact hafter
  have hemitted : emitted limits (⟨now, kind, next⟩ :: history) current
      ≤ emitted limits history current + (if kind.counts = true then 1 else 0) := by
    rw [emitted_cons]
    split_ifs with hboth hcounts
    · exact Nat.le_refl _
    · exact absurd hboth.1 hcounts
    · exact Nat.le_succ _
    · exact Nat.le_refl _
  have hcounted := h.counted current hcurrent
  have hwithin := h.within current (h.isStart current hcurrent)
  refine ⟨fun start hnext => (isStart_cons _).mpr (.inr hnext), fun entry hentry hcounts => ?_, fun start hnext => ?_,
    fun start hisStart => ?_, fun start hisStart => ?_⟩
  · rcases List.mem_cons.mp hentry with rfl | hentry
    · exact ⟨current, hstart.trans hcurrent, hnow⟩
    · rw [hstart]
      exact h.recent entry hentry hcounts
  · obtain rfl : current = start := Option.some.inj (hcurrent.symm.trans (hstart.symm.trans hnext))
    omega
  · rcases h.past start (hstarts start hisStart) with hsame | hpast
    · obtain rfl : current = start := Option.some.inj (hcurrent.symm.trans hsame)
      by_cases hcounts : kind.counts = true
      · have := hroom hcounts
        rw [if_pos hcounts] at hemitted
        omega
      · rw [if_neg hcounts] at hemitted
        omega
    · rw [emitted_past hclock hpast]
      exact h.within start (hstarts start hisStart)
  · exact (h.past start (hstarts start hisStart)).imp (fun hsame => hstart.trans hsame) fun ⟨entry, hentry, hlate⟩ =>
      ⟨entry, List.mem_cons_of_mem _ hentry, hlate⟩

/-- A window that starts now has no emission yet. -/
theorem Bounded.emitted_now (h : Bounded limits first history throttle) (hexpired : throttle.expired limits now = true) :
    emitted limits history now = 0 := by
  rw [emitted, List.countP_eq_zero]
  intro entry hentry hin
  rw [Bool.and_eq_true, decide_eq_true_iff] at hin
  obtain ⟨current, hcurrent, hbefore⟩ := h.recent entry hentry hin.1
  simp only [expired, hcurrent, Option.all_some, decide_eq_true_iff] at hexpired
  omega

/-- The first instant of a new window. -/
theorem Bounded.fresh (hwindow : 0 < limits.window) (h : Bounded limits first history throttle)
    (hclock : ∀ entry ∈ history, entry.now ≤ now) (hexpired : throttle.expired limits now = true)
    (hstart : next.start = some now) (hcount : next.count = if kind.counts = true then 1 else 0)
    (hroom : kind.counts = true → 0 < limits.limit) :
    Bounded limits first (⟨now, kind, next⟩ :: history) next := by
  have hemitted : emitted limits (⟨now, kind, next⟩ :: history) now ≤ if kind.counts = true then 1 else 0 := by
    rw [emitted_cons, h.emitted_now hexpired, Nat.zero_add]
    split_ifs with hboth hcounts
    · exact Nat.le_refl _
    · exact absurd hboth.1 hcounts
    · exact Nat.zero_le _
    · exact Nat.le_refl _
  have hlimit : (if kind.counts = true then 1 else 0) ≤ limits.limit := by
    split_ifs with hcounts
    · exact hroom hcounts
    · exact Nat.zero_le _
  have hold : ∀ start, IsStart first history start →
      ∃ entry ∈ (⟨now, kind, next⟩ :: history : List Entry), start + limits.window ≤ entry.now := by
    intro start hisStart
    rcases h.past start hisStart with hsame | ⟨entry, hentry, hlate⟩
    · simp only [expired, hsame, Option.all_some, decide_eq_true_iff] at hexpired
      exact ⟨_, List.mem_cons_self, by dsimp only; omega⟩
    · exact ⟨entry, List.mem_cons_of_mem _ hentry, hlate⟩
  refine ⟨fun start hnext => (isStart_cons _).mpr (.inr hnext), fun entry hentry hcounts => ?_, fun start hnext => ?_,
    fun start hisStart => ?_, fun start hisStart => ?_⟩
  · refine ⟨now, hstart, ?_⟩
    rcases List.mem_cons.mp hentry with rfl | hentry
    · dsimp only
      omega
    · have := hclock entry hentry
      omega
  · obtain rfl : now = start := Option.some.inj (hstart.symm.trans hnext)
    omega
  · rcases (isStart_cons _).mp hisStart with hbefore | hafter
    · obtain ⟨entry, hentry, hlate⟩ := hold start hbefore
      have hnone : emitted limits (⟨now, kind, next⟩ :: history) start = emitted limits history start := by
        have hnow : entry.now ≤ now := by
          rcases List.mem_cons.mp hentry with rfl | hentry
          · exact le_refl _
          · exact hclock entry hentry
        rw [emitted_cons, if_neg, Nat.add_zero]
        rintro ⟨-, -, hin⟩
        dsimp only at hin
        omega
      rw [hnone]
      exact h.within start hbefore
    · obtain rfl : now = start := Option.some.inj (hstart.symm.trans hafter)
      exact Nat.le_trans hemitted hlimit
  · rcases (isStart_cons _).mp hisStart with hbefore | hafter
    · exact .inr (hold start hbefore)
    · exact .inl hafter

theorem Bounded.step (hwindow : 0 < limits.window) (h : Bounded limits first history throttle)
    (hclock : ∀ entry ∈ history, entry.now ≤ now) (hstep : Step limits throttle now kind next) :
    Bounded limits first (⟨now, kind, next⟩ :: history) next := by
  rcases step_cases hstep with ⟨rfl, rfl⟩ | ⟨hstart, hcount, hroom⟩
  · exact h.idle
  · rw [startAt] at hstart
    rw [countAt] at hcount hroom
    cases hexpired : throttle.expired limits now with
    | false =>
        simp only [hexpired, Bool.false_eq_true, if_false] at hstart hcount hroom
        exact h.same hclock hexpired hstart hcount hroom
    | true =>
        simp only [hexpired, if_true, Nat.zero_add] at hstart hcount hroom
        exact h.fresh hwindow hclock hexpired hstart hcount hroom

theorem Run.bounded (hwindow : 0 < limits.window) (hrun : Run limits first history throttle) :
    Bounded limits first history throttle := by
  induction hrun with
  | start =>
      refine ⟨fun _ => .inl, fun _ hentry => (nomatch hentry), fun _ _ => Nat.zero_le _, fun _ _ => Nat.zero_le _, ?_⟩
      rintro start (hstart | ⟨_, hentry, -⟩)
      · exact .inl hstart
      · exact nomatch hentry
  | step hrun hclock hstep ih => exact ih.step hwindow hclock hstep

/-- In a run a window has at most as many counted emissions as the limit says. -/
theorem Run.emitted_le (hwindow : 0 < limits.window) (hrun : Run limits first history throttle)
    (hstart : IsStart first history start) : emitted limits history start ≤ limits.limit :=
  (hrun.bounded hwindow).within start hstart

/-! ### Spacing -/

/-- A spaced emission is not after the last instant that the throttle remembers. -/
theorem Run.exists_last (hrun : Run limits first history throttle) :
    ∀ entry ∈ history, entry.kind.isSpaced = true → ∃ last, throttle.last = some last ∧ entry.now ≤ last := by
  induction hrun with
  | start => exact fun _ hentry => nomatch hentry
  | @step history throttle next now kind hrun hclock hstep ih =>
      have hlast : next.last = throttle.last ∧ kind.isSpaced = false ∨ next.last = some now := by
        cases hstep with
        | idle => exact .inl ⟨rfl, rfl⟩
        | rolled => exact .inl ⟨rfl, rfl⟩
        | uncounted => exact .inr rfl
        | counted => exact .inr rfl
      intro entry hentry hspaced
      rcases hlast with ⟨hkept, hkind⟩ | hnow
      · rcases List.mem_cons.mp hentry with rfl | hentry
        · exact absurd (hkind.symm.trans hspaced) (by simp)
        · rw [hkept]
          exact ih entry hentry hspaced
      · refine ⟨now, hnow, ?_⟩
        rcases List.mem_cons.mp hentry with rfl | hentry
        · exact le_refl _
        · exact hclock entry hentry

/-- Any two spaced emissions of a run are a cooldown apart. -/
theorem Run.spaced (hrun : Run limits first history throttle) :
    history.Pairwise fun later earlier => later.kind.isSpaced = true → earlier.kind.isSpaced = true →
      limits.cooldown ≤ later.now - earlier.now := by
  induction hrun with
  | start => exact .nil
  | @step history throttle next now kind hrun hclock hstep ih =>
      refine .cons (fun earlier hearlier hspaced hearlierSpaced => ?_) ih
      obtain ⟨last, hlast, hle⟩ := hrun.exists_last earlier hearlier hearlierSpaced
      cases hstep with
      | counted spaced hready hroom =>
          have := hready hspaced
          simp only [ready, hlast, Option.all_some, decide_eq_true_iff] at this
          dsimp only
          omega
      | _ => exact nomatch hspaced

end Runs

end Throttle

end MetricBackend
