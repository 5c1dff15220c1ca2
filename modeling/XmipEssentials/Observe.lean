import XmipEssentials.Lib.Keyed
import XmipEssentials.Verdict

/-!
# What is published

A snapshot is what a process publishes of itself, and belongs to another crate. The rig records
into it and reads its records back, so here it is any type with those operations (`Snapshot`); what
the results rest on is that each kind of record is kept in a collection of its own, one record to a
key, the last written (`Snapshot.Keeps`).
-/

namespace XmipEssentials

open Keyed

/-- How a scope stands. -/
inductive Health where
  | fine
  | paused
  | working
  | stressed
  | exhausted
  | holding
  | done
  deriving DecidableEq, Repr

/-- How one scope stands, and why. -/
structure HealthRecord where
  scope : Text
  health : Health
  severity : Nat
  evidence : Text
  observedUnixNanos : Int
  deriving DecidableEq, Repr

/-- What a count counts. -/
inductive Counted where
  | streams
  | journeys
  | messages
  | bytes
  | failed
  deriving DecidableEq, Repr

/-- What a stage's items are counted as. -/
def Counted.at : Stage → Counted
  | .receive => .streams
  | .process => .journeys
  | .send => .messages

/-- One figure of one scope. -/
structure Count where
  scope : Text
  counted : Counted
  value : Nat
  windowStartUnixNanos : Int
  windowEndUnixNanos : Int
  observedUnixNanos : Int
  deriving DecidableEq, Repr

/-- What a count is kept by. -/
def Count.key (c : Count) : Text × Counted := (c.scope, c.counted)

/-- The kinds of row a node writes beside its health and its counts. -/
inductive RowKind where
  | subscription
  | eventSubscription
  | deadMessage
  | unheardEvent
  deriving DecidableEq, Repr

/-- A snapshot, as the `observe` crate has it: what is recorded into it, and read back. -/
class Snapshot (S : Type) where
  new : S
  recordHealth : HealthRecord → S → S
  recordCount : Count → S → S
  healthRecords : S → List HealthRecord
  allCounts : S → List Count
  /-- The records at and beneath a scope, the worst first. -/
  health : Text → S → List HealthRecord
  /-- A row of a kind: what it says is the kind's own. -/
  Row : RowKind → Type
  /-- The scope of the node a row is of. -/
  rowNode : {k : RowKind} → Row k → Text
  /-- Which of its node's rows it is. -/
  rowName : {k : RowKind} → Row k → Text
  recordRow : {k : RowKind} → Row k → S → S
  rows : (k : RowKind) → S → List (Row k)

variable {S : Type} [Snapshot S]

/-- What a row is kept by. -/
def Snapshot.rowKey {k : RowKind} (row : Row S k) : Text × Text := (rowNode row, rowName row)

/-- Each kind of record has a collection of its own, which keeps one record to a key, the last
written, and is empty to begin with. -/
structure Snapshot.Keeps (S : Type) [Snapshot S] : Prop where
  health_new : healthRecords (new : S) = []
  counts_new : allCounts (new : S) = []
  rows_new : ∀ k, rows k (new : S) = []
  health : KeepsLast HealthRecord.scope (recordHealth : HealthRecord → S → S) healthRecords
  counts : KeepsLast Count.key (recordCount : Count → S → S) allCounts
  rows : ∀ k, KeepsLast (rowKey : Row S k → Text × Text) (recordRow : Row S k → S → S) (rows k)
  health_recordCount : ∀ (c : Count) (s : S), healthRecords (recordCount c s) = healthRecords s
  health_recordRow : ∀ {k} (row : Row S k) (s : S),
    healthRecords (recordRow row s) = healthRecords s
  counts_recordHealth : ∀ (r : HealthRecord) (s : S), allCounts (recordHealth r s) = allCounts s
  counts_recordRow : ∀ {k} (row : Row S k) (s : S), allCounts (recordRow row s) = allCounts s
  rows_recordHealth : ∀ k (r : HealthRecord) (s : S),
    Snapshot.rows k (recordHealth r s) = Snapshot.rows k s
  rows_recordCount : ∀ k (c : Count) (s : S),
    Snapshot.rows k (recordCount c s) = Snapshot.rows k s
  rows_recordRow : ∀ {k l} (row : Row S k) (s : S), l ≠ k →
    Snapshot.rows l (recordRow row s) = Snapshot.rows l s

/-- What is read beneath a scope holds a record to a scope. -/
def Snapshot.Distinct (S : Type) [Snapshot S] : Prop :=
  ∀ (scope : Text) (s : S), ((health scope s).map HealthRecord.scope).Nodup

/-- Of a scope a snapshot holds one record, this one. -/
def Snapshot.Publishes (snapshot : S) (scope : Text) (r : HealthRecord) : Prop :=
  ∀ x, x ∈ healthRecords snapshot ∧ x.scope = scope ↔ x = r

/-! ### Apart from observed times -/

/-- A health record without the time it was observed at. -/
def HealthRecord.untimed (r : HealthRecord) : HealthRecord := { r with observedUnixNanos := 0 }

theorem HealthRecord.untimed_eq_iff {r r' : HealthRecord} :
    r.untimed = r'.untimed ↔
      r.scope = r'.scope ∧ r.health = r'.health ∧ r.severity = r'.severity ∧
        r.evidence = r'.evidence := by
  simp [untimed]

/-- Two snapshots hold the same records, apart from when the standings were observed. -/
structure Snapshot.Alike (s t : S) : Prop where
  health : (healthRecords s).map HealthRecord.untimed = (healthRecords t).map HealthRecord.untimed
  counts : allCounts s = allCounts t
  rows : ∀ k, Snapshot.rows k s = Snapshot.rows k t

/-- What a snapshot keeps, and how it orders the standings beneath a scope, does not rest on when
they were observed. -/
structure Snapshot.Timeless (S : Type) [Snapshot S] : Prop where
  recordHealth : ∀ {s t : S} {r r' : HealthRecord}, Alike s t → r.untimed = r'.untimed →
    Alike (recordHealth r s) (recordHealth r' t)
  recordCount : ∀ {s t : S} (c : Count), Alike s t → Alike (recordCount c s) (recordCount c t)
  recordRow : ∀ {s t : S} {k : RowKind} (row : Row S k), Alike s t →
    Alike (recordRow row s) (recordRow row t)
  health : ∀ {s t : S} (scope : Text), Alike s t →
    (health scope s).map HealthRecord.untimed = (health scope t).map HealthRecord.untimed

namespace Snapshot.Alike

theorem refl (s : S) : Alike s s := ⟨rfl, rfl, fun _ => rfl⟩

theorem trans {s t u : S} (h : Alike s t) (h' : Alike t u) : Alike s u :=
  ⟨h.health.trans h'.health, h.counts.trans h'.counts, fun k => (h.rows k).trans (h'.rows k)⟩

/-- The same list recorded into two that are alike leaves them alike. -/
theorem recorded {α : Type} {record : α → S → S}
    (hrecord : ∀ {s t : S} (a : α), Alike s t → Alike (record a s) (record a t)) (l : List α)
    {s t : S} (h : Alike s t) : Alike (recordAll record l s) (recordAll record l t) := by
  induction l generalizing s t with
  | nil => exact h
  | cons a l ih => exact ih (hrecord a h)

end Snapshot.Alike

end XmipEssentials
