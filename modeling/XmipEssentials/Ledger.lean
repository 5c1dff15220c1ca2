import Mathlib.Data.List.AList
import XmipEssentials.Observe

/-!
# The ledger: what a run of verdicts accumulates into

Every pair's record over time (`Tally`), the throughput per stage and transport, and the one way
both are published. The schedule and the relays use the same one. The feed of recent items is left
out: nothing here reads it back.
-/

namespace XmipEssentials

open Text

/-! ### One pair's record over time -/

/-- How many rounds a pair has run, how many failed, and the last round's outcome. -/
structure Tally where
  rounds : Nat
  failures : Nat
  last : Option Outcome
  deriving DecidableEq, Repr

namespace Tally

/-- A pair not yet run. -/
def default : Tally := ⟨0, 0, none⟩

/-- The record with one more round's outcome. -/
def fold (t : Tally) (outcome : Outcome) : Tally where
  rounds := t.rounds + 1
  failures :=
    match outcome with
    | .failed _ => t.failures + 1
    | _ => t.failures
  last := some outcome

end Tally

/-- Severity from the failure rate of a pair that passes now and has failed before: between
unblemished green and red. -/
def rateSeverity (t : Tally) : Nat :=
  if t.rounds = 0 then 40 else max 1 (min 80 (t.failures * 80 / t.rounds))

/-- A pair's health from its record over time. -/
def overTime (scope : Text) (t : Tally) (now : Int) : HealthRecord :=
  let passed := t.rounds - t.failures
  match t.last with
  | some .delivered =>
    if t.failures = 0 then
      ⟨scope, .fine, 0, decimal passed ++ '/' :: decimal t.rounds ++ " rounds passed".toList, now⟩
    else
      ⟨scope, .stressed, rateSeverity t, decimal passed ++ '/' :: decimal t.rounds ++
        " rounds passed, ".toList ++ decimal t.failures ++ " failed".toList, now⟩
  | some (.oneSided why) => ⟨scope, .stressed, 40, why, now⟩
  | some (.failed why) =>
    ⟨scope, .done, 90, why ++ " — ".toList ++ decimal t.failures ++ " of ".toList ++
      decimal t.rounds ++ " rounds have failed".toList, now⟩
  | none => ⟨scope, .stressed, 40, "not yet run".toList, now⟩

@[simp] theorem overTime_scope (scope : Text) (t : Tally) (now : Int) :
    (overTime scope t now).scope = scope := by
  unfold overTime
  split
  · split <;> rfl
  all_goals rfl

/-! ### The ledger -/

/-- What one stage has moved over one transport: the items it delivered, the bytes it sent out, and
the rounds that failed there. -/
structure Throughput where
  delivered : Nat
  bytes : Nat
  failed : Nat
  deriving DecidableEq, Repr

/-- What the verdicts published under one node scope have added up to. -/
structure Ledger where
  node : Text
  tallies : AList fun _ : Text => Tally
  stages : AList fun _ : Stage × Text => Throughput

namespace Ledger

/-- An empty ledger publishing under `node`. -/
def new (node : Text) : Ledger := ⟨node, ∅, ∅⟩

/-- What `stage` has moved over `transport`. -/
def moved (l : Ledger) (stage : Stage) (transport : Text) : Throughput :=
  (l.stages.lookup (stage, transport)).getD ⟨0, 0, 0⟩

/-- What a stage has moved with one more verdict. -/
def Throughput.count (t : Throughput) (v : Verdict) : Throughput :=
  match v.outcome with
  | .delivered =>
    { t with
      delivered := t.delivered + 1
      bytes := if v.stage = .send then t.bytes + v.bytes else t.bytes }
  | .failed _ => { t with failed := t.failed + 1 }
  | .oneSided _ => t

variable {S : Type} [Snapshot S]

/-- One verdict folded into its pair's tally, and the pair's health over time published. The
throughput counts the stage's own verdict, not the identity steps beneath it. -/
def fold (l : Ledger) (v : Verdict) (snapshot : S) (now : Int) : Ledger × S :=
  let stages :=
    if v.point.isNone then
      l.stages.insert (v.stage, v.transport) (Throughput.count (l.moved v.stage v.transport) v)
    else l.stages
  let scope := v.scope l.node
  let tally := ((l.tallies.lookup scope).getD .default).fold v.outcome
  ({ l with stages := stages, tallies := l.tallies.insert scope tally },
    Snapshot.recordHealth (overTime scope tally now) snapshot)

/-- The counts a stage's throughput over one transport is published as. -/
def counts (node : Text) (now : Int) (stage : Stage) (transport : Text) (moved : Throughput) :
    List Count :=
  let scope := node ++ '/' :: stage.name ++ '/' :: transport
  let count := fun counted value => (⟨scope, counted, value, now, now, now⟩ : Count)
  [count (Counted.at stage) moved.delivered, count .failed moved.failed] ++
    if stage = .send then [count .bytes moved.bytes] else []

/-- A round closed: the pairs that waited keep their standing, and the throughput so far is
published beneath each stage's own scope, per transport. -/
def close (l : Ledger) (snapshot : S) (now : Int) : S :=
  let published := (Snapshot.healthRecords snapshot).map HealthRecord.scope
  let waited := l.tallies.entries.filter fun pair => pair.1 ∉ published
  let stood := waited.foldl
    (fun s pair => Snapshot.recordHealth (overTime pair.1 pair.2 now) s) snapshot
  (l.stages.entries.flatMap fun pair => counts l.node now pair.1.1 pair.1.2 pair.2).foldl
    (fun s count => Snapshot.recordCount count s) stood

end Ledger

end XmipEssentials
