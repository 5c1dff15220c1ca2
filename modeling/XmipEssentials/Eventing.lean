import XmipEssentials.Records
import XmipEssentials.Roles

/-!
# The Events a node raises

A node raises an Event for each stage it serves whose failing pairs changed since the round before,
so a steady node is quiet. What it keeps of the round before is how many failed
(`Eventing.failing`), never which, so a round that trades one failing pair for another raises none
(`Eventing.event_iff`).

The hub the Events are published to belongs to another crate, and so does the reading of a stage out
of a scope, `stageOf`. A pair is read by the scope its record is published under.
-/

namespace XmipEssentials

open Keyed Snapshot

/-- How the work an Event speaks of ended. -/
inductive Eventing.Ended where
  | success
  | failure
  deriving DecidableEq, Repr

/-- An Event of a stage at a scope: how many pairs stand there, and how many of them fail. -/
structure Eventing.Event where
  stage : Stage
  outcome : Ended
  scope : Text
  pairs : Nat
  failing : Nat
  deriving DecidableEq, Repr

/-- A node's eventing: the stages it serves, and how many pairs failed at each in the round before,
where there was one. -/
structure Eventing where
  node : Text
  stages : List Stage
  failing : Stage → Option Nat

namespace Eventing

variable {S : Type} [Snapshot S] (stageOf : Text → Option Stage)

/-- A node's eventing before its first round. -/
def start {κ : Type} [Capability κ] (node : Text) (capability : κ) : Eventing :=
  ⟨node, Capability.stages capability, fun _ => none⟩

/-- The scope a stage of the node stands at. -/
def scopeOf (e : Eventing) (stage : Stage) : Text := e.node ++ '/' :: stage.name

/-- What a snapshot holds at a stage of the node. -/
def records (e : Eventing) (snapshot : S) (stage : Stage) : List HealthRecord :=
  Snapshot.health (e.scopeOf stage) snapshot

/-- The records of those that fail there. -/
def failed (e : Eventing) (snapshot : S) (stage : Stage) : List HealthRecord :=
  ((e.records snapshot stage).filter fun record => record.health == .done).filter
    fun record => stageOf record.scope == some stage

/-- An Event for a stage when its failing pairs changed since the round before: the eventing after,
and the Event if one is raised. -/
def raise (e : Eventing) (snapshot : S) (stage : Stage) : Eventing × Option Event :=
  let records := e.records snapshot stage
  let failing := (e.failed stageOf snapshot stage).length
  let before := (e.failing stage).getD 0
  let e := { e with failing := Function.update e.failing stage (some failing) }
  if records.isEmpty || failing == before then (e, none)
  else
    let outcome := if before < failing then Ended.failure else .success
    (e, some ⟨stage, outcome, e.scopeOf stage, records.length, failing⟩)

/-- What changed at each of the stages, one after the other. -/
def raiseEach (snapshot : S) : List Stage → Eventing → Eventing × List Event
  | [], e => (e, [])
  | stage :: rest, e =>
    let raised := e.raise stageOf snapshot stage
    let after := raiseEach snapshot rest raised.1
    (after.1, raised.2.toList ++ after.2)

/-- One round: what changed at every stage the node serves. -/
def round (e : Eventing) (snapshot : S) : Eventing × List Event :=
  raiseEach stageOf snapshot e.stages e

/-- A node's eventing before round `k` of these. -/
def before (e : Eventing) (rounds : ℕ → S) : ℕ → Eventing
  | 0 => e
  | k + 1 => ((before e rounds k).round stageOf (rounds k)).1

/-- The Events a node raises in round `k` of these. -/
def events (e : Eventing) (rounds : ℕ → S) (k : ℕ) : List Event :=
  ((e.before stageOf rounds k).round stageOf (rounds k)).2

/-- The pairs that fail at a stage, by their scopes. -/
def failingPairs (e : Eventing) (snapshot : S) (stage : Stage) : Finset Text :=
  ((e.failed stageOf snapshot stage).map HealthRecord.scope).toFinset

/-- Those that failed in the round before round `k`: none before the first. -/
def failingBefore (e : Eventing) (rounds : ℕ → S) (stage : Stage) : ℕ → Finset Text
  | 0 => ∅
  | k + 1 => e.failingPairs stageOf (rounds k) stage

/-! ### What one round does -/

variable {stageOf} {e : Eventing} {snapshot : S} {stage : Stage} {l : List Stage}

private theorem raise_failing (t : Stage) :
    (e.raise stageOf snapshot stage).1.failing t =
      if t = stage then some (e.failed stageOf snapshot stage).length else e.failing t := by
  have hupdate : (e.raise stageOf snapshot stage).1.failing =
      Function.update e.failing stage (some (e.failed stageOf snapshot stage).length) := by
    unfold raise
    dsimp only
    split <;> rfl
  rw [hupdate, Function.update_apply]

@[simp] theorem raise_node : (e.raise stageOf snapshot stage).1.node = e.node := by
  unfold raise
  dsimp only
  split <;> rfl

@[simp] theorem raise_stages : (e.raise stageOf snapshot stage).1.stages = e.stages := by
  unfold raise
  dsimp only
  split <;> rfl

/-- A node of the same name reads the same of a snapshot. -/
theorem failed_congr {e' : Eventing} (h : e'.node = e.node) :
    e'.failed stageOf snapshot stage = e.failed stageOf snapshot stage := by
  rw [failed, failed, records, records, scopeOf, scopeOf, h]

private theorem records_congr {e' : Eventing} (h : e'.node = e.node) :
    e'.records snapshot stage = e.records snapshot stage := by
  rw [records, records, scopeOf, scopeOf, h]

/-- What an Event of a stage says, if one is raised. -/
def saying (stageOf : Text → Option Stage) (e : Eventing) (snapshot : S) (stage : Stage) : Event :=
  let failing := (e.failed stageOf snapshot stage).length
  ⟨stage, if (e.failing stage).getD 0 < failing then .failure else .success, e.scopeOf stage,
    (e.records snapshot stage).length, failing⟩

/-- **What raises an Event: a record at the stage, and another number of them failing.** -/
theorem mem_raise {event : Event} :
    event ∈ (e.raise stageOf snapshot stage).2 ↔
      e.records snapshot stage ≠ [] ∧
        (e.failed stageOf snapshot stage).length ≠ (e.failing stage).getD 0 ∧
        event = e.saying stageOf snapshot stage := by
  -- quiet: there is no record, or as many failed as before
  have hquiet : ((e.records snapshot stage).isEmpty ||
      (e.failed stageOf snapshot stage).length == (e.failing stage).getD 0) = true ↔
      e.records snapshot stage = [] ∨
        (e.failed stageOf snapshot stage).length = (e.failing stage).getD 0 := by
    rw [Bool.or_eq_true, List.isEmpty_iff, beq_iff_eq]
  unfold raise
  dsimp only
  by_cases h : e.records snapshot stage = [] ∨
      (e.failed stageOf snapshot stage).length = (e.failing stage).getD 0
  · rw [if_pos (hquiet.mpr h)]
    constructor
    · intro hnone
      cases hnone
    · rintro ⟨hrecords, hcount, -⟩
      exact absurd h (not_or.mpr ⟨hrecords, hcount⟩)
  · rw [if_neg (mt hquiet.mp h), Option.mem_some_iff]
    rw [not_or] at h
    exact ⟨fun heq => ⟨h.1, h.2, heq.symm⟩, fun hraised => hraised.2.2.symm⟩

private theorem raiseEach_node : (raiseEach stageOf snapshot l e).1.node = e.node := by
  induction l generalizing e with
  | nil => rfl
  | cons t l ih =>
    rw [raiseEach]
    exact ih.trans raise_node

private theorem raiseEach_stages : (raiseEach stageOf snapshot l e).1.stages = e.stages := by
  induction l generalizing e with
  | nil => rfl
  | cons t l ih =>
    rw [raiseEach]
    exact ih.trans raise_stages

/-- After a round the eventing holds how many fail at each stage it went over. -/
theorem raiseEach_failing :
    (raiseEach stageOf snapshot l e).1.failing stage =
      if stage ∈ l then some (e.failed stageOf snapshot stage).length else e.failing stage := by
  induction l generalizing e with
  | nil => rfl
  | cons t l ih =>
    rw [raiseEach]
    dsimp only
    rw [ih, raise_failing, failed_congr raise_node]
    by_cases hl : stage ∈ l
    · rw [if_pos hl, if_pos (List.mem_cons_of_mem _ hl)]
    · by_cases ht : stage = t
      · subst ht
        rw [if_neg hl, if_pos rfl, if_pos List.mem_cons_self]
      · rw [if_neg hl, if_neg ht, if_neg (List.not_mem_cons_of_ne_of_not_mem ht hl)]

/-- A stage gone over twice is raised once: the second time its count is the one just kept. -/
theorem exists_mem_raiseEach :
    (∃ event ∈ (raiseEach stageOf snapshot l e).2, event.stage = stage) ↔
      stage ∈ l ∧ e.records snapshot stage ≠ [] ∧
        (e.failed stageOf snapshot stage).length ≠ (e.failing stage).getD 0 := by
  induction l generalizing e with
  | nil => simp [raiseEach]
  | cons t l ih =>
    -- an Event of a stage is raised in its own turn, or in a later one
    have hsplit : (∃ event ∈ (raiseEach stageOf snapshot (t :: l) e).2, event.stage = stage) ↔
        (∃ event ∈ (e.raise stageOf snapshot t).2, event.stage = stage) ∨
          ∃ event ∈ (raiseEach stageOf snapshot l (e.raise stageOf snapshot t).1).2,
            event.stage = stage := by
      rw [raiseEach]
      simp only [List.mem_append, Option.mem_toList, Option.mem_def, or_and_right, exists_or]
    -- its own turn raises it where records are there and the count changed
    have hfirst : (∃ event ∈ (e.raise stageOf snapshot t).2, event.stage = stage) ↔
        t = stage ∧ e.records snapshot t ≠ [] ∧
          (e.failed stageOf snapshot t).length ≠ (e.failing t).getD 0 := by
      constructor
      · rintro ⟨event, hmem, hstage⟩
        obtain ⟨hrecords, hcount, rfl⟩ := mem_raise.mp hmem
        exact ⟨hstage, hrecords, hcount⟩
      · rintro ⟨hstage, hrecords, hcount⟩
        exact ⟨_, mem_raise.mpr ⟨hrecords, hcount, rfl⟩, hstage⟩
    rw [hsplit, hfirst, ih, records_congr raise_node, failed_congr raise_node, raise_failing]
    -- its own stage's turn sets the count, so a second turn of it raises none
    by_cases ht : stage = t
    · subst ht
      rw [if_pos rfl, Option.getD_some]
      simp
    · -- another stage's turn leaves what is read of this one
      rw [if_neg ht, List.mem_cons]
      simp [ht, Ne.symm ht]

/-! ### Over a run of rounds -/

section Run

variable (rounds : ℕ → S) (k : ℕ)

private theorem before_node : (e.before stageOf rounds k).node = e.node := by
  induction k with
  | zero => rfl
  | succ k ih =>
    rw [before, round]
    exact raiseEach_node.trans ih

private theorem before_stages : (e.before stageOf rounds k).stages = e.stages := by
  induction k with
  | zero => rfl
  | succ k ih =>
    rw [before, round]
    exact raiseEach_stages.trans ih

private theorem card_failingPairs (hdistinct : Snapshot.Distinct S) :
    (e.failingPairs stageOf snapshot stage).card = (e.failed stageOf snapshot stage).length := by
  have hsublist : (e.failed stageOf snapshot stage).Sublist (e.records snapshot stage) :=
    List.filter_sublist.trans List.filter_sublist
  rw [failingPairs, List.toFinset_card_of_nodup, List.length_map]
  exact (hdistinct _ snapshot).sublist (hsublist.map HealthRecord.scope)

/-- **What a node keeps of the round before is how many failed.** -/
theorem before_failing (hdistinct : Snapshot.Distinct S) (hnew : ∀ stage, e.failing stage = none)
    (hstage : stage ∈ e.stages) :
    ((e.before stageOf rounds k).failing stage).getD 0 =
      (e.failingBefore stageOf rounds stage k).card := by
  cases k with
  | zero => rw [before, hnew, failingBefore, Finset.card_empty, Option.getD_none]
  | succ k =>
    have hserved : stage ∈ (e.before stageOf rounds k).stages := by
      rw [before_stages]
      exact hstage
    rw [before, round, raiseEach_failing, if_pos hserved, Option.getD_some, failingBefore,
      card_failingPairs hdistinct, failed_congr (before_node rounds k)]

/-- **An Event is raised in a round just where the number failing changed and some record is left
to say so.** -/
theorem exists_event (hdistinct : Snapshot.Distinct S) (hnew : ∀ stage, e.failing stage = none)
    (hstage : stage ∈ e.stages) :
    (∃ event ∈ e.events stageOf rounds k, event.stage = stage) ↔
      e.records (rounds k) stage ≠ [] ∧
        (e.failingPairs stageOf (rounds k) stage).card ≠
          (e.failingBefore stageOf rounds stage k).card := by
  have hnode : (e.before stageOf rounds k).node = e.node := before_node rounds k
  rw [events, round, exists_mem_raiseEach, before_stages, records_congr hnode, failed_congr hnode,
    before_failing rounds k hdistinct hnew hstage, card_failingPairs hdistinct]
  exact ⟨fun h => h.2, fun h => ⟨hstage, h⟩⟩

/-- **In any run of rounds, a stage's Event tells whether its failing pairs changed just where they
did not change, or changed in number with a record left at the stage.** A round in which one pair
recovers as another begins to fail raises none. -/
theorem event_iff {κ : Type} [Capability κ] (hdistinct : Snapshot.Distinct S) (node : Text)
    (capability : κ) (hstage : stage ∈ Capability.stages capability) :
    ((∃ event ∈ (start node capability).events stageOf rounds k, event.stage = stage) ↔
        (start node capability).failingPairs stageOf (rounds k) stage ≠
          (start node capability).failingBefore stageOf rounds stage k) ↔
      (start node capability).failingPairs stageOf (rounds k) stage =
          (start node capability).failingBefore stageOf rounds stage k ∨
        (start node capability).records (rounds k) stage ≠ [] ∧
          ((start node capability).failingPairs stageOf (rounds k) stage).card ≠
            ((start node capability).failingBefore stageOf rounds stage k).card := by
  rw [exists_event rounds k hdistinct (fun _ => rfl) hstage]
  constructor
  · -- where it tells, either the pairs are the same or the Event is raised
    intro htells
    by_cases hsame : (start node capability).failingPairs stageOf (rounds k) stage =
        (start node capability).failingBefore stageOf rounds stage k
    · exact .inl hsame
    · exact .inr (htells.mpr hsame)
  · -- the same pairs are as many, and raise nothing
    rintro (hsame | hcounted)
    · rw [hsame]
      exact ⟨fun h => absurd rfl h.2, fun h => absurd rfl h⟩
    · -- other pairs, and not as many: raised, as it should be
      exact ⟨fun _ hsame => hcounted.2 (congrArg Finset.card hsame), fun _ => hcounted⟩

end Run

/-! ### One recovers as another fails -/

/-- The stage a scope names, where one of its words does. -/
def wordOf (scope : Text) : Option Stage :=
  (scope.splitOn '/').findSome? fun word => Stage.all.find? fun stage => stage.name == word

/-- A sending node's record of the `tcp` pair of a contract. -/
def tcpRecord (contract : Contract) (health : Health) : HealthRecord :=
  ⟨['n', '/', 's', 'e', 'n', 'd', '/', 't', 'c', 'p', '/'] ++ contract.name, health, 0, [], 0⟩

/-- Rounds in which JSON fails to begin with, and XML from then on. -/
def traded : ℕ → Records
  | 0 => recordAll recordHealth [tcpRecord .json .done, tcpRecord .xml .fine] new
  | _ + 1 => recordAll recordHealth [tcpRecord .json .fine, tcpRecord .xml .done] new

/-- A node that sends. -/
def sender : Roles := ⟨false, false, true, false, false⟩

/-- The round in which JSON recovers and XML begins to fail changes the pairs that fail, and raises
no Event. -/
theorem traded_silent :
    .send ∈ Capability.stages sender ∧
      (start ['n'] sender).failingPairs wordOf (traded 1) .send ≠
        (start ['n'] sender).failingBefore wordOf traded .send 1 ∧
      ¬∃ event ∈ (start ['n'] sender).events wordOf traded 1, event.stage = .send := by
  refine ⟨by decide, by decide, by decide⟩

theorem event_iff_traded :
    (∃ event ∈ (start ['n'] sender).events wordOf traded 0, event.stage = .send) ↔
      (start ['n'] sender).failingPairs wordOf (traded 0) .send ≠ ∅ :=
  (event_iff traded 0 Records.distinct ['n'] sender (by decide)).mpr (.inr ⟨by decide, by decide⟩)

end Eventing

end XmipEssentials
