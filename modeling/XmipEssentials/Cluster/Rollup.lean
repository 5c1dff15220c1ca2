import XmipEssentials.Ledger
import XmipEssentials.Roster

/-!
# The merge that assembles a view, and the rollup over it

A cluster's view is every node's snapshot merged in order, each with the record of its process, and
the rollup over the result; a roll merges that view into its own snapshot. `mem_health_merge` and
its like say what one merge leaves of each kind; the kinds that the merge does not name come through
none (`rows_merge_of_ne`).
-/

namespace XmipEssentials

open Text Keyed Snapshot

variable {S : Type} [Snapshot S]

/-- Every health record, count, Subscription and Event subscription of one snapshot copied into
another. -/
def merge (into source : S) : S :=
  let into := recordAll recordHealth (healthRecords source) into
  let into := recordAll recordCount (allCounts source) into
  let into := recordAll recordRow (rows .subscription source) into
  recordAll recordRow (rows .eventSubscription source) into

/-- Where the nodes of a cluster hang. -/
def nodesScope (root : Text) : Text := root ++ "/node".toList

/-- The scope of a node. -/
def nodeScope (root name : Text) : Text := nodesScope root ++ '/' :: name

/-- A text without a prefix, as often as it starts with it. -/
def trimStart (start : Text) (t : Text) : Text :=
  if _h : start ≠ [] ∧ start <+: t then trimStart start (t.drop start.length) else t
termination_by t.length
decreasing_by
  have hpos := List.length_pos_of_ne_nil _h.1
  have hle := _h.2.length_le
  simp only [List.length_drop]
  omega

/-- The rollup the surface owes, at `<cluster>/node`: the worst leaf across every node, and which
node carries it. -/
def rollup (root : Text) (snapshot : S) (count : Nat) (now : Int) : HealthRecord :=
  let nodes := nodesScope root
  let records := Snapshot.health nodes snapshot
  let fine := (records.filter fun record => record.health = .fine).length
  match records.head? with
  | some worst =>
    if worst.health ≠ .fine then
      ⟨nodes, worst.health, worst.severity - 1,
        decimal count ++ " nodes, ".toList ++ decimal fine ++ " of ".toList ++
          decimal records.length ++ " leaves fine; worst ".toList ++
          trimStart (nodes ++ ['/']) worst.scope ++ ": ".toList ++ worst.evidence, now⟩
    else
      ⟨nodes, .fine, 0, decimal count ++ " nodes, all ".toList ++ decimal records.length ++
        " leaves fine".toList, now⟩
  | none =>
    ⟨nodes, .working, 20, decimal count ++ " nodes, nothing published yet".toList, now⟩

@[simp] theorem rollup_scope (root : Text) (snapshot : S) (count : Nat) (now : Int) :
    (rollup root snapshot count now).scope = nodesScope root := by
  unfold rollup
  dsimp only
  split
  · split <;> rfl
  · rfl

/-! ### What a merge leaves -/

section Merge

variable (keeps : Snapshot.Keeps S)

include keeps

theorem mem_health_merge (x : HealthRecord) (into source : S) :
    x ∈ healthRecords (merge into source) ↔
      x ∈ healthRecords source ∨
        (x ∈ healthRecords into ∧ x.scope ∉ (healthRecords source).map HealthRecord.scope) := by
  rw [merge, recordAll_unchanged keeps.health_recordRow, recordAll_unchanged keeps.health_recordRow,
    recordAll_unchanged keeps.health_recordCount, keeps.health.mem_copy]

theorem mem_counts_merge (x : Count) (into source : S) :
    x ∈ allCounts (merge into source) ↔
      x ∈ allCounts source ∨ (x ∈ allCounts into ∧ x.key ∉ (allCounts source).map Count.key) := by
  rw [merge, recordAll_unchanged keeps.counts_recordRow, recordAll_unchanged keeps.counts_recordRow,
    keeps.counts.mem_copy, recordAll_unchanged keeps.counts_recordHealth]

theorem mem_subscriptions_merge (x : Row S .subscription) (into source : S) :
    x ∈ rows .subscription (merge into source) ↔
      x ∈ rows .subscription source ∨
        (x ∈ rows .subscription into ∧ rowKey x ∉ (rows .subscription source).map rowKey) := by
  rw [merge, recordAll_unchanged fun row s => keeps.rows_recordRow row s (by decide),
    (keeps.rows .subscription).mem_copy, recordAll_unchanged (keeps.rows_recordCount _),
    recordAll_unchanged (keeps.rows_recordHealth _)]

theorem mem_eventSubscriptions_merge (x : Row S .eventSubscription) (into source : S) :
    x ∈ rows .eventSubscription (merge into source) ↔
      x ∈ rows .eventSubscription source ∨
        (x ∈ rows .eventSubscription into ∧
          rowKey x ∉ (rows .eventSubscription source).map rowKey) := by
  rw [merge, (keeps.rows .eventSubscription).mem_copy,
    recordAll_unchanged fun row s => keeps.rows_recordRow row s (by decide),
    recordAll_unchanged (keeps.rows_recordCount _), recordAll_unchanged (keeps.rows_recordHealth _)]

/-- A kind the merge does not name comes through none of it. -/
theorem rows_merge_of_ne {k : RowKind} (hk : k ≠ .subscription) (hk' : k ≠ .eventSubscription)
    (into source : S) : rows k (merge into source) = rows k into := by
  rw [merge, recordAll_unchanged fun row s => keeps.rows_recordRow row s hk',
    recordAll_unchanged fun row s => keeps.rows_recordRow row s hk,
    recordAll_unchanged (keeps.rows_recordCount _), recordAll_unchanged (keeps.rows_recordHealth _)]

end Merge

end XmipEssentials
