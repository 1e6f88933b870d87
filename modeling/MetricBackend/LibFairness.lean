import Mathlib.Order.WellFounded

/-! Infinite runs of a server among other steps, and what has to happen in them: where a rank falls with each step of
the server and no other step raises it, nobody waits for ever. -/

namespace MetricBackend

variable {σ β : Type}

/-- An infinite run: a step of the server, another step or none at all, one after the other. While somebody waits, the
server takes a further step. -/
structure FairRun (own other : σ → σ → Prop) (waiting : σ → Prop) (run : Nat → σ) : Prop where
  step : ∀ n, own (run n) (run (n + 1)) ∨ other (run n) (run (n + 1)) ∨ run (n + 1) = run n
  fair : ∀ n, waiting (run n) → ∃ m, n ≤ m ∧ own (run m) (run (m + 1))

namespace FairRun

variable {own other : σ → σ → Prop} {waiting invariant : σ → Prop} {run : Nat → σ}

/-- What each step keeps holds all along the run. -/
theorem invariant_of_step (h : FairRun own other waiting run)
    (hown : ∀ {before after}, invariant before → own before after → invariant after)
    (hother : ∀ {before after}, invariant before → other before after → invariant after)
    (hstart : invariant (run 0)) (n : Nat) : invariant (run n) := by
  induction n with
  | zero => exact hstart
  | succ n ih =>
      obtain hstep | hstep | hstep := h.step n
      · exact hown ih hstep
      · exact hother ih hstep
      · rw [hstep]
        exact ih

variable [Preorder β] {rank : σ → β}

/-- A rank that no step raises while somebody waits. -/
theorem rank_le (h : FairRun own other waiting run) (hinv : ∀ n, invariant (run n)) (hwaiting : ∀ n, waiting (run n))
    (hown : ∀ {before after}, invariant before → own before after → waiting before → waiting after →
      rank after < rank before)
    (hother : ∀ {before after}, invariant before → other before after → waiting before → waiting after →
      rank after ≤ rank before) {n m : Nat} (hle : n ≤ m) : rank (run m) ≤ rank (run n) := by
  induction m, hle using Nat.le_induction with
  | base => exact le_rfl
  | succ m _ ih =>
      refine le_trans ?_ ih
      obtain hstep | hstep | hstep := h.step m
      · exact (hown (hinv m) hstep (hwaiting m) (hwaiting (m + 1))).le
      · exact hother (hinv m) hstep (hwaiting m) (hwaiting (m + 1))
      · rw [hstep]

/-- Nobody waits for ever. -/
theorem eventually [WellFoundedLT β] (h : FairRun own other waiting run) (hinv : ∀ n, invariant (run n))
    (hown : ∀ {before after}, invariant before → own before after → waiting before → waiting after →
      rank after < rank before)
    (hother : ∀ {before after}, invariant before → other before after → waiting before → waiting after →
      rank after ≤ rank before) : ∃ n, ¬ waiting (run n) := by
  by_contra hnever
  push Not at hnever
  have hfalse : ∀ (value : β) (n : Nat), rank (run n) = value → False := by
    intro value
    induction value using WellFoundedLT.induction with
    | ind value ih =>
        intro n hvalue
        obtain ⟨m, hle, hstep⟩ := h.fair n (hnever n)
        have hlower := hown (hinv m) hstep (hnever m) (hnever (m + 1))
        exact ih _ (hvalue ▸ hlower.trans_le (h.rank_le hinv hnever hown hother hle)) (m + 1) rfl
  exact hfalse _ 0 rfl

end FairRun

end MetricBackend
