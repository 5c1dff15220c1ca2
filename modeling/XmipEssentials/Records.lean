import Mathlib.Data.List.Sort
import XmipEssentials.Observe

/-!
# A snapshot in lists

The plainest snapshot there is: a list to each kind of record, which keeps the last of each key
(`Keyed.Keep`). It meets what the results ask of a snapshot, so they speak of something.
-/

namespace XmipEssentials

open Keyed Snapshot

/-- A row of a node: which of its rows it is, and what it says. -/
structure NodeRow where
  node : Text
  name : Text
  said : Text
  deriving DecidableEq, Repr

/-- What a row of a node is kept by. -/
def NodeRow.key (row : NodeRow) : Text × Text := (row.node, row.name)

/-- A list to each kind of record. -/
structure Records where
  health : Keep HealthRecord.scope
  counts : Keep Count.key
  rows : RowKind → Keep NodeRow.key

namespace Records

/-- At a scope, or beneath it. -/
def beneath (scope : Text) (record : HealthRecord) : Bool :=
  record.scope = scope ∨ scope ++ ['/'] <+: record.scope

/-- Worst first. -/
def worse (r r' : HealthRecord) : Prop := r'.severity ≤ r.severity

instance : DecidableRel worse := fun _ _ => inferInstanceAs (Decidable (_ ≤ _))

instance : Snapshot Records where
  new := ⟨Keep.empty _, Keep.empty _, fun _ => Keep.empty _⟩
  recordHealth r s := { s with health := s.health.put r }
  recordCount c s := { s with counts := s.counts.put c }
  healthRecords s := s.health.all
  allCounts s := s.counts.all
  health scope s := (s.health.all.filter (beneath scope)).insertionSort worse
  Row _ := NodeRow
  rowNode row := row.node
  rowName row := row.name
  recordRow {k} row s := { s with rows := Function.update s.rows k ((s.rows k).put row) }
  rows k s := (s.rows k).all

theorem keeps : Snapshot.Keeps Records where
  health_new := rfl
  counts_new := rfl
  rows_new _ := rfl
  health := ⟨fun a x s => Keep.keepsLast.mem_record a x s.health, fun s => s.health.nodup⟩
  counts := ⟨fun a x s => Keep.keepsLast.mem_record a x s.counts, fun s => s.counts.nodup⟩
  rows k := by
    -- a row of its own kind, kept by key
    refine ⟨fun a x s => ?_, fun s => (s.rows k).nodup⟩
    change x ∈ (Function.update s.rows k ((s.rows k).put a) k).all ↔ _
    rw [Function.update_self]
    exact Keep.keepsLast.mem_record a x (s.rows k)
  health_recordCount _ _ := rfl
  health_recordRow _ _ := rfl
  counts_recordHealth _ _ := rfl
  counts_recordRow _ _ := rfl
  rows_recordHealth _ _ _ := rfl
  rows_recordCount _ _ _ := rfl
  rows_recordRow {k l} row s hne := by
    -- a row of one kind leaves every other kind alone
    change (Function.update s.rows k ((s.rows k).put row) l).all = (s.rows l).all
    rw [Function.update_of_ne hne]

theorem distinct : Snapshot.Distinct Records := by
  intro scope s
  have hsorted : ((s.health.all.filter (beneath scope)).insertionSort worse).Perm
      (s.health.all.filter (beneath scope)) := List.perm_insertionSort _ _
  change (((s.health.all.filter (beneath scope)).insertionSort worse).map HealthRecord.scope).Nodup
  rw [(hsorted.map HealthRecord.scope).nodup_iff]
  exact s.health.nodup.sublist (List.filter_sublist.map HealthRecord.scope)

/-- What is kept of the records does not rest on their times. -/
private theorem untimed_put {k k' : Keep HealthRecord.scope} {r r' : HealthRecord}
    (hk : k.all.map HealthRecord.untimed = k'.all.map HealthRecord.untimed)
    (hr : r.untimed = r'.untimed) :
    (k.put r).all.map HealthRecord.untimed = (k'.put r').all.map HealthRecord.untimed := by
  have hfilter (l : List HealthRecord) (scope : Text) :
      (l.filter fun x => x.scope ≠ scope).map HealthRecord.untimed =
        (l.map HealthRecord.untimed).filter fun x => x.scope ≠ scope := by
    rw [List.filter_map]
    rfl
  have hscope : r.scope = r'.scope := (HealthRecord.untimed_eq_iff.mp hr).1
  rw [Keep.put_all, Keep.put_all, List.map_append, List.map_append, List.map_singleton,
    List.map_singleton, hr, hscope, hfilter, hfilter, hk]

theorem timeless : Snapshot.Timeless Records where
  recordHealth h hr := ⟨untimed_put h.health hr, h.counts, h.rows⟩
  recordCount {s t} c h := by
    refine ⟨h.health, ?_, h.rows⟩
    -- equal but for times, and a count has none: so the two are equal
    have hcounts : s.counts = t.counts := Keep.ext h.counts
    change (s.counts.put c).all = (t.counts.put c).all
    rw [hcounts]
  recordRow {s t k} row h := by
    refine ⟨h.health, h.counts, fun l => ?_⟩
    have hrows : s.rows l = t.rows l := Keep.ext (h.rows l)
    change (Function.update s.rows k ((s.rows k).put row) l).all =
      (Function.update t.rows k ((t.rows k).put row) l).all
    by_cases hl : l = k
    · subst hl
      rw [Function.update_self, Function.update_self, hrows]
    · rw [Function.update_of_ne hl, Function.update_of_ne hl, hrows]
  health {s t} scope h := by
    -- filtering and sorting read no time
    have hbeneath (l : List HealthRecord) :
        (l.filter (beneath scope)).map HealthRecord.untimed =
          (l.map HealthRecord.untimed).filter (beneath scope) := by
      rw [List.filter_map]
      rfl
    change ((s.health.all.filter (beneath scope)).insertionSort worse).map HealthRecord.untimed =
      ((t.health.all.filter (beneath scope)).insertionSort worse).map HealthRecord.untimed
    rw [List.map_insertionSort worse worse HealthRecord.untimed _ fun _ _ _ _ => Iff.rfl,
      List.map_insertionSort worse worse HealthRecord.untimed _ fun _ _ _ _ => Iff.rfl,
      hbeneath, hbeneath]
    exact congrArg (fun l => (l.filter (beneath scope)).insertionSort worse) h.health

end Records

end XmipEssentials
