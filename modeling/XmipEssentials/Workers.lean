import Mathlib.Data.List.Sort
import XmipEssentials.Relay

/-!
# The pairs of a round driven from several threads at once

Workers take places from one counter, judge the item at each, and keep what came of it with its
place; one whose place is past the end stops. What the workers kept is joined in their order and
sorted back into the items' (`Pool.result`). A step is one worker's: a fetch, or a judgment
(`Step`); any worker may take the next.

* `drive_each` — every run ends, judges each item once, and comes to the items judged in their
  order.
-/

namespace XmipEssentials

open Conc

namespace Workers

variable {α β : Type}

/-! ### The pool -/

/-- What a worker is at. -/
inductive At (α : Type) where
  /-- It takes the next place from the counter. -/
  | fetching
  /-- It judges the item at a place it took. -/
  | judging (place : Nat) (item : α)
  /-- Its place was past the end. -/
  | ended
  deriving DecidableEq

/-- A worker: what it is at, and what it judged, with each place. -/
structure Hand (α β : Type) where
  now : At α
  mine : List (Nat × β)

/-- The workers, the counter they share, and the places judged so far, in the order they were. -/
structure Pool (α β : Type) where
  next : Nat
  hands : List (Hand α β)
  calls : List Nat

/-- How many workers there are: one at least, and no more than there are items. -/
def clamped (workers : Nat) (items : List α) : Nat := max 1 (min workers (max items.length 1))

/-- The workers as they start. -/
def start (items : List α) (workers : Nat) : Pool α β :=
  ⟨0, List.replicate (clamped workers items) ⟨.fetching, []⟩, []⟩

/-- One step of a worker of the pool. -/
inductive Step (items : List α) (judge : α → β) : Pool α β → Pool α β → Prop where
  /-- It took a place an item is at. -/
  | took {next : Nat} {item : α} {mine : List (Nat × β)} {calls : List Nat}
      (before after : List (Hand α β))
      (found : items[next]? = some item) :
      Step items judge ⟨next, before ++ ⟨.fetching, mine⟩ :: after, calls⟩
        ⟨next + 1, before ++ ⟨.judging next item, mine⟩ :: after, calls⟩
  /-- It took a place past the end, and stopped. -/
  | ended {next : Nat} {mine : List (Nat × β)} {calls : List Nat} (before after : List (Hand α β))
      (past : items[next]? = none) :
      Step items judge ⟨next, before ++ ⟨.fetching, mine⟩ :: after, calls⟩
        ⟨next + 1, before ++ ⟨.ended, mine⟩ :: after, calls⟩
  /-- It judged the item it had taken. -/
  | judged {next place : Nat} {item : α} {mine : List (Nat × β)} {calls : List Nat}
      (before after : List (Hand α β)) :
      Step items judge ⟨next, before ++ ⟨.judging place item, mine⟩ :: after, calls⟩
        ⟨next, before ++ ⟨.fetching, mine ++ [(place, judge item)]⟩ :: after, calls ++ [place]⟩

/-- A run of so many steps, of any workers in any order. -/
inductive Run (items : List α) (judge : α → β) (workers : Nat) : Nat → Pool α β → Prop where
  | start : Run items judge workers 0 (start items workers)
  | step {steps : Nat} {p p' : Pool α β} (run : Run items judge workers steps p)
      (step : Step items judge p p') :
      Run items judge workers (steps + 1) p'

/-- What all the workers kept, joined in their order. -/
def Pool.kept (p : Pool α β) : List (Nat × β) := p.hands.flatMap Hand.mine

/-- What they come to: what they kept, sorted back by its places. -/
def Pool.result (p : Pool α β) : List β :=
  -- a stable sort, by the places alone
  (p.kept.mergeSort fun one other => one.1 ≤ other.1).map Prod.snd

/-- Every worker ended. -/
def Pool.Ended (p : Pool α β) : Prop := ∀ hand ∈ p.hands, hand.now = .ended

/-! ### What every step keeps -/

/-- The place a worker took and has not judged yet. -/
def Hand.holds (h : Hand α β) : List Nat :=
  match h.now with
  | .judging place _ => [place]
  | _ => []

/-- Whether a worker stopped. -/
def Hand.stopped (h : Hand α β) : Bool :=
  match h.now with
  | .ended => true
  | _ => false

/-- **What holds throughout**: each place the counter has passed is judged or held by one worker,
what was kept of a place is its item judged, and the counter ran past the end once for each worker
that stopped. -/
structure Sound (items : List α) (judge : α → β) (p : Pool α β) : Prop where
  places : (p.hands.flatMap fun hand => hand.mine.map Prod.fst ++ hand.holds).Perm
    (List.range (min p.next items.length))
  calls : p.calls.Perm (p.kept.map Prod.fst)
  kept : ∀ one ∈ p.kept, (items[one.1]?).map judge = some one.2
  holds : ∀ hand ∈ p.hands, ∀ place item, hand.now = .judging place item → items[place]? = some item
  counted : p.next = min p.next items.length + p.hands.countP Hand.stopped
  stopped : 0 < p.hands.countP Hand.stopped → items.length ≤ p.next

variable {items : List α} {judge : α → β} {p p' : Pool α β}

private theorem sound_start (workers : Nat) :
    Sound items judge (start items workers : Pool α β) where
  places := by
    have hnone : ∀ n : Nat, (List.replicate n (⟨.fetching, []⟩ : Hand α β)).flatMap
        (fun hand => hand.mine.map Prod.fst ++ hand.holds) = [] := by
      intro n
      rw [List.flatMap_eq_nil_iff]
      intro hand hhand
      rw [List.eq_of_mem_replicate hhand]
      rfl
    rw [start, hnone, Nat.zero_min]
    exact .nil
  calls := by
    have hnone : (start items workers : Pool α β).kept = [] := by
      rw [Pool.kept, List.flatMap_eq_nil_iff]
      intro hand hhand
      rw [List.eq_of_mem_replicate hhand]
    rw [hnone]
    exact .nil
  kept one hone := by
    obtain ⟨hand, hhand, hmem⟩ := List.mem_flatMap.mp hone
    rw [List.eq_of_mem_replicate hhand] at hmem
    cases hmem
  holds hand hhand place item hnow := by
    rw [List.eq_of_mem_replicate hhand] at hnow
    cases hnow
  counted := by
    rw [start, List.countP_replicate]
    simp [Hand.stopped]
  stopped h := by
    rw [start, List.countP_replicate] at h
    simp [Hand.stopped] at h

/-- One more place is counted, where one more is. -/
theorem perm_insert {l l' : List Nat} {bound place : Nat} (h : l.Perm (List.range bound))
    (hl : l'.Perm (l ++ [place])) (hplace : place = bound) : l'.Perm (List.range (bound + 1)) := by
  subst hplace
  rw [List.range_succ]
  exact hl.trans (h.append_right [place])

/-- What the workers kept, one of them apart. -/
theorem kept_mk (next : Nat) (before after : List (Hand α β)) (hand : Hand α β) (calls : List Nat) :
    Pool.kept ⟨next, before ++ hand :: after, calls⟩ =
      before.flatMap Hand.mine ++ (hand.mine ++ after.flatMap Hand.mine) := by
  rw [Pool.kept, List.flatMap_append, List.flatMap_cons]

/-- What a step of one worker leaves of what held of each. -/
theorem forall_replace {P : Hand α β → Prop} {before after : List (Hand α β)}
    {hand hand' : Hand α β} (h : ∀ one ∈ before ++ hand :: after, P one) (hnew : P hand') :
    ∀ one ∈ before ++ hand' :: after, P one := by
  rw [List.forall_mem_append, List.forall_mem_cons] at h ⊢
  exact ⟨h.1, hnew, h.2.2⟩

/-- **A step keeps it.** -/
theorem Sound.step (h : Sound items judge p) (hstep : Step items judge p p') :
    Sound items judge p' := by
  have hplaces := h.places
  have hcalls := h.calls
  have hkept := h.kept
  have hcounted := h.counted
  have hstopped := h.stopped
  cases hstep with
  | @took next item mine calls before after found =>
    have hlt : next < items.length := (List.getElem?_eq_some_iff.mp found).1
    rw [kept_mk] at hcalls hkept
    dsimp only at hplaces hcounted hstopped
    simp only [List.countP_append, List.countP_cons, Hand.stopped, Bool.false_eq_true,
      ↓reduceIte] at hcounted hstopped
    have hbound : min next items.length = next := Nat.min_eq_left hlt.le
    have hbound' : min (next + 1) items.length = next + 1 := Nat.min_eq_left hlt
    refine ⟨?_, by rwa [kept_mk], by rwa [kept_mk], ?_, ?_, ?_⟩
    · dsimp only
      rw [hbound] at hplaces
      rw [hbound']
      refine perm_insert hplaces ?_ rfl
      -- The place taken is the worker's from now on.
      rw [List.perm_iff_count]
      intro place
      simp only [List.flatMap_append, List.flatMap_cons, List.count_append, Hand.holds,
        List.count_nil]
      omega
    · apply forall_replace h.holds
      intro place item' hnow
      cases hnow
      exact found
    · simp only [List.countP_append, List.countP_cons, Hand.stopped, Bool.false_eq_true, ↓reduceIte]
      omega
    · simp only [List.countP_append, List.countP_cons, Hand.stopped, Bool.false_eq_true, ↓reduceIte]
      omega
  | @ended next mine calls before after past =>
    have hle : items.length ≤ next := List.getElem?_eq_none_iff.mp past
    rw [kept_mk] at hcalls hkept
    dsimp only at hplaces hcounted hstopped
    simp only [List.countP_append, List.countP_cons, Hand.stopped, Bool.false_eq_true,
      ↓reduceIte] at hcounted hstopped
    have hbound : min next items.length = items.length := Nat.min_eq_right hle
    have hbound' : min (next + 1) items.length = items.length :=
      Nat.min_eq_right (Nat.le_succ_of_le hle)
    refine ⟨?_, by rwa [kept_mk], by rwa [kept_mk], ?_, ?_, fun _ => Nat.le_succ_of_le hle⟩
    · dsimp only
      rw [hbound] at hplaces
      rw [hbound']
      simpa only [List.flatMap_append, List.flatMap_cons, Hand.holds] using hplaces
    · exact forall_replace h.holds fun place item' hnow => nomatch hnow
    · simp only [List.countP_append, List.countP_cons, Hand.stopped, ↓reduceIte]
      omega
  | @judged next place item mine calls before after =>
    have hitem : items[place]? = some item :=
      h.holds ⟨.judging place item, mine⟩ (List.mem_append_right _ List.mem_cons_self) place item
        rfl
    rw [kept_mk] at hcalls hkept
    dsimp only at hplaces hcounted hstopped
    simp only [List.countP_append, List.countP_cons, Hand.stopped, Bool.false_eq_true,
      ↓reduceIte] at hcounted hstopped
    refine ⟨?_, ?_, ?_, ?_, ?_, ?_⟩
    · simpa only [List.flatMap_append, List.flatMap_cons, Hand.holds, List.map_append,
        List.map_singleton, List.append_nil] using hplaces
    · -- One call more, and its place among those kept.
      rw [kept_mk]
      rw [List.perm_iff_count] at hcalls ⊢
      intro one
      have hone := hcalls one
      simp only [List.map_append, List.count_append, List.map_singleton] at hone ⊢
      omega
    · rw [kept_mk]
      intro one hone
      simp only [List.mem_append, List.mem_singleton] at hone hkept
      rcases hone with hone | (hone | rfl) | hone
      · exact hkept one (.inl hone)
      · exact hkept one (.inr (.inl hone))
      · rw [hitem, Option.map_some]
      · exact hkept one (.inr (.inr hone))
    · exact forall_replace h.holds fun place item' hnow => nomatch hnow
    · simp only [List.countP_append, List.countP_cons, Hand.stopped, Bool.false_eq_true, ↓reduceIte]
      omega
    · simp only [List.countP_append, List.countP_cons, Hand.stopped, Bool.false_eq_true, ↓reduceIte]
      omega

/-- **It holds of every run.** -/
theorem Run.sound {workers steps : Nat} (h : Run items judge workers steps p) :
    Sound items judge p := by
  induction h with
  | start => exact sound_start workers
  | step _ hstep ih => exact ih.step hstep

/-! ### Every run ends -/

/-- How many steps are left at the most. -/
def Pool.left (items : List α) (p : Pool α β) : Nat :=
  2 * (items.length - p.next) + p.hands.countP (fun hand => !hand.stopped) +
    (p.hands.flatMap Hand.holds).length

private theorem left_step (hstep : Step items judge p p') : p'.left items < p.left items := by
  -- Taking a place counts it off twice and holds it once; ending and judging count one off.
  cases hstep with
  | @took next item mine calls before after found =>
    have hlt : next < items.length := (List.getElem?_eq_some_iff.mp found).1
    simp only [Pool.left, List.countP_append, List.countP_cons, Hand.stopped, List.flatMap_append,
      List.flatMap_cons, Hand.holds, List.length_append, List.length_singleton, List.length_nil]
    omega
  | @ended next mine calls before after past =>
    simp only [Pool.left, List.countP_append, List.countP_cons, Hand.stopped, List.flatMap_append,
      List.flatMap_cons, Hand.holds, List.length_append]
    simp
    omega
  | @judged next place item mine calls before after =>
    simp only [Pool.left, List.countP_append, List.countP_cons, Hand.stopped, List.flatMap_append,
      List.flatMap_cons, Hand.holds, List.length_append, List.length_singleton, List.length_nil]
    omega

/-- A run takes no more steps than there were left at its start. -/
theorem Run.steps_le {workers steps : Nat} (h : Run items judge workers steps p) :
    steps + p.left items ≤ 2 * items.length + clamped workers items := by
  induction h with
  | start =>
    have hholds : ∀ n : Nat, (List.replicate n (⟨.fetching, []⟩ : Hand α β)).flatMap Hand.holds =
      [] := by
      intro n
      rw [List.flatMap_eq_nil_iff]
      intro hand hhand
      rw [List.eq_of_mem_replicate hhand]
      rfl
    rw [Pool.left, Workers.start, hholds, List.countP_replicate]
    simp [Hand.stopped]
  | step _ hstep ih =>
    have hless := left_step hstep
    omega

/-- There are as many workers throughout. -/
theorem Run.length_hands {workers steps : Nat} (h : Run items judge workers steps p) :
    p.hands.length = clamped workers items := by
  induction h with
  | start => exact List.length_replicate
  | step _ hstep ih =>
    rw [← ih]
    cases hstep with
    | took before after => simp only [List.length_append, List.length_cons]
    | ended before after => simp only [List.length_append, List.length_cons]
    | judged before after => simp only [List.length_append, List.length_cons]

/-- While a worker has not ended, it can take a step. -/
theorem ended_or_step (items : List α) (judge : α → β) (p : Pool α β) :
    p.Ended ∨ ∃ p', Step items judge p p' := by
  by_cases hended : p.Ended
  · exact .inl hended
  · right
    obtain ⟨next, hands, calls⟩ := p
    simp only [Pool.Ended, not_forall] at hended
    obtain ⟨hand, hhand, hnow⟩ := hended
    obtain ⟨before, after, rfl⟩ := List.append_of_mem hhand
    obtain ⟨now, mine⟩ := hand
    cases now with
    | fetching =>
      cases hfound : items[next]? with
      | some item => exact ⟨_, .took before after hfound⟩
      | none => exact ⟨_, .ended before after hfound⟩
    | judging place item => exact ⟨_, .judged before after⟩
    | ended => exact absurd rfl hnow

/-! ### What they come to -/

/-- Where every worker ended, the places kept are those of the items. -/
theorem Sound.perm_of_ended (h : Sound items judge p) (hended : p.Ended) (hsome : p.hands ≠ []) :
    (p.kept.map Prod.fst).Perm (List.range items.length) := by
  have hstopped : p.hands.countP Hand.stopped = p.hands.length := by
    apply List.countP_eq_length.mpr
    intro hand hhand
    rw [Hand.stopped, hended hand hhand]
  have hpast : items.length ≤ p.next := h.stopped (hstopped ▸ List.length_pos_iff.mpr hsome)
  have hplaces := h.places
  rw [Nat.min_eq_right hpast] at hplaces
  have hkept : p.kept.map Prod.fst =
      p.hands.flatMap fun hand => hand.mine.map Prod.fst ++ hand.holds := by
    rw [Pool.kept, List.map_flatMap]
    apply List.flatMap_congr
    intro hand hhand
    rw [Hand.holds, hended hand hhand, List.append_nil]
  rwa [hkept]

/-- **What they come to is the items judged, in their order.** -/
theorem Sound.result_eq (h : Sound items judge p) (hended : p.Ended) (hsome : p.hands ≠ []) :
    p.result = items.map judge := by
  have hperm := h.perm_of_ended hended hsome
  have hkept := h.kept
  let before : Nat × β → Nat × β → Bool := fun one other => one.1 ≤ other.1
  have hsame : (p.kept.mergeSort before).Perm p.kept := List.mergeSort_perm p.kept before
  have hsorted : (p.kept.mergeSort before).Pairwise fun one other => before one other = true := by
    refine List.pairwise_mergeSort (fun a b c hab hbc => ?_) (fun a b => ?_) p.kept
    · exact decide_eq_true ((of_decide_eq_true hab).trans (of_decide_eq_true hbc))
    · rw [Bool.or_eq_true, decide_eq_true_iff, decide_eq_true_iff]
      exact Nat.le_total a.1 b.1
  change (p.kept.mergeSort before).map Prod.snd = _
  generalize p.kept.mergeSort before = sorted at hsorted hsame
  -- The places of the sorted list are the items' in order, and each has its item judged.
  have hplaces : sorted.map Prod.fst = List.range items.length := by
    refine List.Perm.eq_of_pairwise' (r := (· ≤ ·)) ?_ List.pairwise_le_range
      ((hsame.map Prod.fst).trans hperm)
    exact List.pairwise_map.mpr (hsorted.imp fun hle => of_decide_eq_true hle)
  have hlength : sorted.length = items.length := by
    rw [← List.length_map, hplaces, List.length_range]
  refine List.ext_getElem (by rw [List.length_map, List.length_map, hlength]) fun place hlt hlt' =>
    ?_
  rw [List.getElem_map, List.getElem_map]
  rw [List.length_map] at hlt hlt'
  have hplace : sorted[place].1 = place := by
    have hget := congrArg (·[place]?) hplaces
    rwa [List.getElem?_map, List.getElem?_eq_getElem hlt, List.getElem?_range hlt', Option.map_some,
      Option.some_inj] at hget
  have hjudged := hkept sorted[place] (hsame.mem_iff.mp (List.getElem_mem hlt))
  rw [hplace, List.getElem?_eq_getElem hlt', Option.map_some, Option.some_inj] at hjudged
  exact hjudged.symm

/-! ### Judged in parallel, judged in turn -/

private theorem clamped_pos (workers : Nat) (items : List α) : 0 < clamped workers items :=
  Nat.le_max_left 1 _

private theorem Run.hands_ne_nil {workers steps : Nat} (h : Run items judge workers steps p) :
    p.hands ≠ [] :=
  List.ne_nil_of_length_pos (h.length_hands ▸ clamped_pos workers items)

/-- Every run can be gone on with until every worker ended. -/
theorem exists_ended (items : List α) (judge : α → β) (workers : Nat) :
    ∃ steps p, Run items judge workers steps p ∧ p.Ended := by
  -- Induction on how many steps are left at the most.
  have hrest : ∀ left steps p, p.left items ≤ left → Run items judge workers steps p →
      ∃ steps p, Run items judge workers steps p ∧ p.Ended := by
    intro left
    induction left with
    | zero =>
      intro steps p hleft hrun
      rcases ended_or_step items judge p with hended | ⟨p', hstep⟩
      · exact ⟨steps, p, hrun, hended⟩
      · have hless := left_step hstep
        omega
    | succ left ih =>
      intro steps p hleft hrun
      rcases ended_or_step items judge p with hended | ⟨p', hstep⟩
      · exact ⟨steps, p, hrun, hended⟩
      · exact ih (steps + 1) p' (by have hless := left_step hstep; omega) (hrun.step hstep)
  exact hrest _ 0 _ le_rfl .start

/-- The workers come to what the items come to judged in turn. -/
theorem Run.driveEach_eq {workers steps : Nat} (h : Run items judge workers steps p)
    (hended : p.Ended) :
    driveEach items (fun item => pure (judge item)) = pure p.result := by
  rw [h.sound.result_eq hended h.hands_ne_nil, driveEach]
  clear h hended
  induction items with
  | nil => rfl
  | cons item items ih =>
    rw [Prog.each, ih]
    rfl

/-- **Parallel judging is sequential judging.** However the workers' fetches interleave, no run goes
on past so many steps and none is stuck before every worker ended; and where they have, each item
was judged once and the result is the items judged, in their order. -/
theorem drive_each {workers steps : Nat} (h : Run items judge workers steps p) :
    steps ≤ 2 * items.length + clamped workers items ∧ (p.Ended ∨ ∃ p', Step items judge p p') ∧
      (p.Ended → p.calls.Perm (List.range items.length) ∧ p.result = items.map judge) := by
  refine ⟨?_, ended_or_step items judge p, fun hended => ?_⟩
  · have hsteps := h.steps_le
    omega
  · exact ⟨h.sound.calls.trans (h.sound.perm_of_ended hended h.hands_ne_nil),
      h.sound.result_eq hended h.hands_ne_nil⟩

/-- Three items and two workers. -/
theorem drive_each_three :
    ∃ steps p, Run [1, 2, 3] (· * 2) 2 steps p ∧ p.Ended ∧ steps ≤ 8 ∧ p.result = [2, 4, 6] := by
  obtain ⟨steps, p, hrun, hended⟩ := exists_ended [1, 2, 3] (· * 2) 2
  obtain ⟨hsteps, -, hall⟩ := drive_each hrun
  exact ⟨steps, p, hrun, hended, hsteps, (hall hended).2⟩

end Workers

end XmipEssentials
