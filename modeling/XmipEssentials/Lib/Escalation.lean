import Mathlib.Data.Nat.Find
import Mathlib.Order.Monotone.Basic

/-!
# A queue that raises its own capacity

So many arrive each round, and so many are drained as there is capacity for: fewer than arrive,
until two remedies have come, and more from then on. The first comes where more wait than a bound,
the second where, the first having come, more wait than another (`Step`). A round may bring fewer
than it should, where some arrivals take the place of what waits; what arrived and was not drained
since then grows all the same (`Step.own`), so whatever waited at first both remedies come, one
after the other and by a round that is known (`Course.of_run`), and from the second on the queue
falls until none waits (`falls`, `cleared`).
-/

namespace Escalation

/-- How many arrive a round, how many are drained of them before the first remedy, after it and
after the second, and how many waiting bring each on. -/
structure Plan where
  arrival : Nat
  low : Nat
  mid : Nat
  high : Nat
  first : Nat
  second : Nat
  low_le : low ≤ mid
  slow : mid < arrival
  fast : arrival < high

/-- How many wait, how many of them arrived since the queue was first drained, and which remedies
have come. -/
structure Queue where
  waiting : Nat
  own : Nat
  raised : Bool
  added : Bool

/-- How many a round drains. -/
def Plan.capacity (p : Plan) (q : Queue) : Nat :=
  if q.added then p.high else if q.raised then p.mid else p.low

/-- One round. -/
structure Step (p : Plan) (q q' : Queue) : Prop where
  waiting : ∃ new ≤ p.arrival, q'.waiting = q.waiting + new - p.capacity q
  own : q.own + p.arrival ≤ q'.own + p.capacity q
  own_le : q'.own ≤ q'.waiting
  raised : q'.raised = true ↔ q.raised = true ∨ p.first < q'.waiting
  added : q'.added = true ↔ q.added = true ∨ (q.raised = true ∧ p.second < q'.waiting)

variable {p : Plan} {x : Nat → Queue}

namespace Plan

theorem capacity_le_high (p : Plan) (q : Queue) : p.capacity q ≤ p.high := by
  have hlow := p.low_le
  have hslow := p.slow
  have hfast := p.fast
  unfold capacity
  split_ifs <;> omega

theorem capacity_le_mid (p : Plan) {q : Queue} (h : q.added = false) : p.capacity q ≤ p.mid := by
  have hlow := p.low_le
  unfold capacity
  rw [h, if_neg Bool.false_ne_true]
  split_ifs <;> omega

end Plan

namespace Step

variable {q q' : Queue}

/-- The remedies only add to the capacity. -/
theorem capacity_mono (h : Step p q q') : p.capacity q ≤ p.capacity q' := by
  have hlow := p.low_le
  have hslow := p.slow
  have hfast := p.fast
  unfold Plan.capacity
  by_cases hadded : q.added = true
  · rw [if_pos hadded, if_pos (h.added.mpr (.inl hadded))]
  · rw [if_neg hadded]
    by_cases hraised : q.raised = true
    · rw [if_pos hraised, if_pos (h.raised.mpr (.inl hraised))]
      split_ifs <;> omega
    · rw [if_neg hraised]
      split_ifs <;> omega

/-- With both remedies come, fewer wait after a round than before, or none before and after. -/
theorem falls (h : Step p q q') (hadded : q.added = true) :
    q'.waiting < q.waiting ∨ (q.waiting = 0 ∧ q'.waiting = 0) := by
  have hfast := p.fast
  obtain ⟨new, hnew, hwaiting⟩ := h.waiting
  rw [Plan.capacity, if_pos hadded] at hwaiting
  omega

end Step

/-! ### Every run -/

/-- When the remedies come: the first in an earlier round than the second, and each for good. -/
structure Course (x : Nat → Queue) (raise add : Nat) : Prop where
  begun : 0 < raise
  before : raise < add
  raised : ∀ n, (x n).raised = true ↔ raise ≤ n
  added : ∀ n, (x n).added = true ↔ add ≤ n

/-- While the second remedy has not come, what arrived and was not drained grows. -/
theorem le_own (hrun : ∀ n, Step p (x n) (x (n + 1))) (hraised : (x 0).raised = false) {n : Nat}
    (hadded : ∀ m ≤ n, (x m).added = false) :
    p.arrival - p.low + n * (p.arrival - p.mid) ≤ (x (n + 1)).own := by
  have hlow := p.low_le
  have hslow := p.slow
  induction n with
  | zero =>
    -- The first round drains as many as are drained before either remedy.
    have hown := (hrun 0).own
    rw [Plan.capacity, hadded 0 (Nat.le_refl 0), if_neg Bool.false_ne_true, hraised,
      if_neg Bool.false_ne_true] at hown
    omega
  | succ n ih =>
    have hbefore := ih fun m hm => hadded m (Nat.le_succ_of_le hm)
    have hown := (hrun (n + 1)).own
    have hcapacity := p.capacity_le_mid (hadded (n + 1) (Nat.le_refl _))
    rw [Nat.succ_mul]
    omega

/-- A mark that once set stays set is set from a first round on. -/
theorem exists_first {mark : Nat → Bool} (hstays : ∀ n, mark n = true → mark (n + 1) = true)
    {n : Nat} (hn : mark n = true) : ∃ first ≤ n, ∀ m, mark m = true ↔ first ≤ m := by
  have hex : ∃ n, mark n = true := ⟨n, hn⟩
  refine ⟨Nat.find hex, Nat.find_min' hex hn,
    fun m => ⟨fun hm => Nat.find_min' hex hm, fun hle => ?_⟩⟩
  induction m, hle using Nat.le_induction with
  | base => exact Nat.find_spec hex
  | succ m _ ih => exact hstays m ih

/-- **Both remedies come**, the first before the second, by the round at which enough have arrived
for both. -/
theorem Course.of_run (hrun : ∀ n, Step p (x n) (x (n + 1))) (hraised : (x 0).raised = false)
    (hadded : (x 0).added = false) {n : Nat}
    (hfirst : p.first < p.arrival - p.low + n * (p.arrival - p.mid))
    (hsecond : p.second < p.arrival - p.low + (n + 1) * (p.arrival - p.mid)) :
    ∃ raise add, Course x raise add ∧ add ≤ n + 2 := by
  have hraisedStays (m : Nat) (hm : (x m).raised = true) : (x (m + 1)).raised = true :=
    (hrun m).raised.mpr (.inl hm)
  have haddedStays (m : Nat) (hm : (x m).added = true) : (x (m + 1)).added = true :=
    (hrun m).added.mpr (.inl hm)
  have hsoon : (x (n + 2)).added = true := by
    by_contra hnot
    -- None of the rounds before had both remedies either, so enough arrived for the one and then
    -- the other.
    have hnone : ∀ m ≤ n + 1, (x m).added = false := by
      intro m hm
      refine Bool.eq_false_iff.mpr fun hcome => hnot ?_
      obtain ⟨first, hfirst, hiff⟩ := exists_first haddedStays hcome
      exact (hiff _).mpr (hfirst.trans (Nat.le_succ_of_le hm))
    have hearly := (le_own hrun hraised fun m hm => hnone m (Nat.le_succ_of_le hm)).trans
      (hrun n).own_le
    have hlate := (le_own hrun hraised hnone).trans (hrun (n + 1)).own_le
    have hcome : (x (n + 1)).raised = true := (hrun n).raised.mpr (.inr (hfirst.trans_le hearly))
    apply hnot
    exact (hrun (n + 1)).added.mpr (.inr ⟨hcome, hsecond.trans_le hlate⟩)
  obtain ⟨add, hadd, haddiff⟩ := exists_first haddedStays hsoon
  have haddpos : add ≠ 0 := by
    rintro rfl
    exact Bool.false_ne_true (hadded.symm.trans ((haddiff 0).mpr (Nat.le_refl 0)))
  obtain ⟨last, rfl⟩ := Nat.exists_eq_succ_of_ne_zero haddpos
  -- The round before it, the second had not come, so the first had.
  have hjust : (x last).raised = true := by
    rcases (hrun last).added.mp ((haddiff _).mpr (Nat.le_refl _)) with halready | ⟨hcome, -⟩
    · exact absurd ((haddiff last).mp halready) (Nat.not_succ_le_self last)
    · exact hcome
  obtain ⟨raise, hraise, hraiseiff⟩ := exists_first hraisedStays hjust
  refine ⟨raise, last + 1, ⟨Nat.pos_of_ne_zero ?_, Nat.lt_succ_of_le hraise, hraiseiff, haddiff⟩,
    hadd⟩
  rintro rfl
  exact Bool.false_ne_true (hraised.symm.trans ((hraiseiff 0).mpr (Nat.le_refl 0)))

/-- **Then it clears**: a round comes from which on none waits. -/
theorem cleared (hrun : ∀ n, Step p (x n) (x (n + 1))) {add : Nat}
    (hadded : ∀ n, add ≤ n → (x n).added = true) :
    ∃ last ≥ add, ∀ n ≥ last, (x n).waiting = 0 := by
  -- What waits falls each turn until it is nothing, however much there is left.
  have hreach (left : Nat) : ∀ n ≥ add, (x n).waiting ≤ left →
    ∃ last ≥ add, (x last).waiting = 0 := by
    induction left with
    | zero => exact fun n hn hle => ⟨n, hn, Nat.le_zero.mp hle⟩
    | succ left ih =>
      intro n hn hle
      rcases (hrun n).falls (hadded n hn) with hfell | ⟨hzero, -⟩
      · exact ih (n + 1) (Nat.le_succ_of_le hn) (by omega)
      · exact ⟨n, hn, hzero⟩
  obtain ⟨last, hlast, hzero⟩ := hreach _ add (Nat.le_refl add) (Nat.le_refl _)
  refine ⟨last, hlast, fun n hn => ?_⟩
  -- Once nothing waits, nothing comes to wait again.
  induction n, hn using Nat.le_induction with
  | base => exact hzero
  | succ n hn ih =>
    rcases (hrun n).falls (hadded n (hlast.trans hn)) with hfell | ⟨-, hstill⟩
    · omega
    · exact hstill

end Escalation
