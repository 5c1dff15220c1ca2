import XmipEssentials.History
import XmipEssentials.Relay

/-!
# Figures of a ledger and of what it publishes

A ledger's figure of a stage and a transport is one of its throughput's (`Ledger.figure`), and a
snapshot's is the value of the count kept for a scope (`Snapshot.figure`). What verdicts add to a
figure they add one by one (`Verdict.adds`), so figures of several ledgers can be summed; and a
closed round publishes just the ledger's own (`Ledger.figure_close`), whatever a relay records
beside it (`Relay.figure_published`).
-/

namespace XmipEssentials

open Text Keyed Snapshot

/-! ### What a verdict adds -/

/-- What a stage's throughput is published as: its items, its failed rounds, and at Send its
bytes. -/
def Throughput.figure (stage : Stage) (counted : Counted) (moved : Throughput) : Nat :=
  if counted = Counted.at stage then moved.delivered
  else if counted = .failed then moved.failed
  else if stage = .send ∧ counted = .bytes then moved.bytes
  else 0

/-- What a verdict adds to a figure of a stage and a transport. -/
def Verdict.adds (stage : Stage) (transport : Text) (counted : Counted) (v : Verdict) : Nat :=
  if v.point = none ∧ v.stage = stage ∧ v.transport = transport then
    (Ledger.Throughput.count ⟨0, 0, 0⟩ v).figure stage counted
  else 0

/-- What verdicts add together. -/
def added (stage : Stage) (transport : Text) (counted : Counted) (verdicts : List Verdict) : Nat :=
  (verdicts.map (Verdict.adds stage transport counted)).sum

/-- The ledger's figure of a stage and a transport. -/
def Ledger.figure (stage : Stage) (transport : Text) (counted : Counted) (l : Ledger) : Nat :=
  (l.moved stage transport).figure stage counted

/-- The figure a snapshot holds of a scope: nothing, where it holds none. -/
def Snapshot.figure {S : Type} [Snapshot S] (scope : Text) (counted : Counted) (snapshot : S) :
    Nat :=
  ((allCounts snapshot).find? fun c => c.key = (scope, counted)).elim 0 Count.value

variable {S : Type} [Snapshot S] {stage : Stage} {transport : Text} {counted : Counted}

theorem added_append (verdicts verdicts' : List Verdict) :
    added stage transport counted (verdicts ++ verdicts') =
      added stage transport counted verdicts + added stage transport counted verdicts' := by
  rw [added, List.map_append, List.sum_append, added, added]

theorem added_flatten (judged : List (List Verdict)) :
    added stage transport counted judged.flatten =
      (judged.map (added stage transport counted)).sum := by
  induction judged with
  | nil => rfl
  | cons verdicts judged ih =>
    rw [List.flatten_cons, added_append, ih, List.map_cons, List.sum_cons]

private theorem Throughput.figure_count (moved : Throughput) {v : Verdict}
    (hpoint : v.point = none) :
    (Ledger.Throughput.count moved v).figure v.stage counted =
      moved.figure v.stage counted + v.adds v.stage v.transport counted := by
  rw [Verdict.adds, if_pos ⟨hpoint, rfl, rfl⟩]
  unfold Ledger.Throughput.count figure
  cases v.outcome with
  | delivered =>
    dsimp only
    split_ifs <;> omega
  | oneSided why =>
    dsimp only
    split_ifs <;> omega
  | failed why =>
    dsimp only
    split_ifs <;> omega

namespace Ledger

theorem figure_new (node : Text) : (new node).figure stage transport counted = 0 := by
  change (⟨0, 0, 0⟩ : Throughput).figure stage counted = 0
  unfold Throughput.figure
  split_ifs <;> rfl

/-- One verdict folded. -/
theorem figure_fold (l : Ledger) (v : Verdict) (snapshot : S) (now : Int) :
    (l.fold v snapshot now).1.figure stage transport counted =
      l.figure stage transport counted + v.adds stage transport counted := by
  unfold figure moved
  change (((if v.point.isNone then l.stages.insert (v.stage, v.transport) _ else l.stages).lookup
    (stage, transport)).getD ⟨0, 0, 0⟩).figure stage counted = _
  by_cases hpoint : v.point = none
  · rw [if_pos (by rw [hpoint]; rfl)]
    by_cases hof : v.stage = stage ∧ v.transport = transport
    · obtain ⟨rfl, rfl⟩ := hof
      rw [AList.lookup_insert, Option.getD_some]
      exact Throughput.figure_count _ hpoint
    · have hne : (stage, transport) ≠ (v.stage, v.transport) := fun heq =>
        hof ⟨(congrArg Prod.fst heq).symm, (congrArg Prod.snd heq).symm⟩
      rw [AList.lookup_insert_ne hne, Verdict.adds, if_neg fun hall => hof hall.2, Nat.add_zero]
  · rw [if_neg fun hnone => hpoint (Option.isNone_iff_eq_none.mp hnone), Verdict.adds,
      if_neg fun hall => hpoint hall.1, Nat.add_zero]

/-- Verdicts folded, from wherever the round has come to. -/
theorem folded_figure (keeps : Snapshot.Keeps S) (now : Int) (verdicts : List Verdict) {l : Ledger}
    {snapshot : S} (hshows : l.UnderWay snapshot now) :
    let folded := verdicts.foldl (fun folded v => folded.1.fold v folded.2 now) (l, snapshot)
    folded.1.node = l.node ∧ folded.1.UnderWay folded.2 now ∧ ∀ stage transport counted,
      folded.1.figure stage transport counted =
        l.figure stage transport counted + added stage transport counted verdicts := by
  induction verdicts generalizing l snapshot with
  | nil => exact ⟨rfl, hshows, fun _ _ _ => rfl⟩
  | cons v verdicts ih =>
    obtain ⟨hnode, hlater, hfigure⟩ := ih (hshows.fold keeps v)
    refine ⟨hnode, hlater, fun stage transport counted =>
      (hfigure stage transport counted).trans ?_⟩
    rw [figure_fold, Nat.add_assoc]
    rfl

end Ledger

/-! ### What is published -/

/-- A figure told by every count of its scope and kind. -/
theorem Snapshot.figure_of {snapshot : S} {scope : Text} {value : Nat}
    (hall : ∀ c ∈ allCounts snapshot, c.key = (scope, counted) → c.value = value)
    (hsome : value ≠ 0 → ∃ c ∈ allCounts snapshot, c.key = (scope, counted)) :
    Snapshot.figure scope counted snapshot = value := by
  unfold Snapshot.figure
  cases hfind : (allCounts snapshot).find? fun c => c.key = (scope, counted) with
  | some c =>
    have hkey := List.find?_some hfind
    exact hall c (List.mem_of_find?_eq_some hfind) (of_decide_eq_true hkey)
  | none =>
    by_contra hne
    obtain ⟨c, hc, hkey⟩ := hsome (Ne.symm hne)
    exact absurd (decide_eq_true hkey) (List.find?_eq_none.mp hfind c hc)

/-- The scope a stage's throughput over a transport is published under. -/
def throughputScope (node : Text) (stage : Stage) (transport : Text) : Text :=
  node ++ '/' :: stage.name ++ '/' :: transport

/-- **A closed round publishes the ledger's figures.** -/
theorem Ledger.figure_close (keeps : Snapshot.Keeps S) {l : Ledger} {snapshot : S} {now : Int}
    (hshows : l.UnderWay snapshot now) (stage : Stage) (transport : Text) (counted : Counted) :
    Snapshot.figure (throughputScope l.node stage transport) counted (l.close snapshot now) =
      l.figure stage transport counted := by
  refine Snapshot.figure_of (fun c hc hkey => ?_) fun hpositive => ?_
  · -- each count of the snapshot is of one kind, and the figure of that kind is its value
    obtain ⟨stage', transport', moved, hlookup, hin⟩ := (mem_counts_close keeps hshows c).mp hc
    obtain ⟨counted', value, rfl, hof⟩ := mem_counts.mp hin
    obtain ⟨rfl, rfl⟩ := counted_scope_inj (congrArg Prod.fst hkey)
    obtain rfl : counted' = counted := congrArg Prod.snd hkey
    unfold Ledger.figure Ledger.moved Throughput.figure
    rw [hlookup, Option.getD_some]
    rcases hof with ⟨rfl, rfl⟩ | ⟨rfl, rfl⟩ | ⟨rfl, rfl, rfl⟩
    · rw [if_pos rfl]
    · rw [if_neg (by cases stage' <;> decide), if_pos rfl]
    · rfl
  · -- A figure that is not nothing is of a throughput that is there.
    unfold Ledger.figure Ledger.moved at hpositive
    cases hlookup : l.stages.lookup (stage, transport) with
    | none =>
      rw [hlookup] at hpositive
      refine absurd ?_ hpositive
      change (⟨0, 0, 0⟩ : Throughput).figure stage counted = 0
      unfold Throughput.figure
      split_ifs <;> rfl
    | some moved =>
      rw [hlookup, Option.getD_some] at hpositive
      refine ⟨⟨throughputScope l.node stage transport, counted, moved.figure stage counted, now,
        now, now⟩,
        (mem_counts_close keeps hshows _).mpr ⟨stage, transport, moved, hlookup, mem_counts.mpr
          ⟨counted, moved.figure stage counted, rfl, ?_⟩⟩, rfl⟩
      unfold Throughput.figure at hpositive ⊢
      split_ifs at hpositive ⊢ with hitems hfailed hbytes
      · exact .inl ⟨hitems, rfl⟩
      · exact .inr (.inl ⟨hfailed, rfl⟩)
      · exact .inr (.inr ⟨hbytes.1, hbytes.2, rfl⟩)
      · exact absurd rfl hpositive

/-- The count found by its scope and kind is the one kept for them. -/
theorem Snapshot.find_count (keeps : Snapshot.Keeps S) (snapshot : S) (key : Text × Counted)
    (c : Count) :
    (allCounts snapshot).find? (fun c => c.key = key) = some c ↔ c ∈ allCounts snapshot ∧
    c.key = key := by
  constructor
  · intro hfind
    have hkey := List.find?_some hfind
    exact ⟨List.mem_of_find?_eq_some hfind, of_decide_eq_true hkey⟩
  · rintro ⟨hc, rfl⟩
    obtain ⟨c', hfind⟩ : ∃ c', (allCounts snapshot).find? (fun c' => c'.key = c.key) = some c' :=
      Option.isSome_iff_exists.mp (List.find?_isSome.mpr ⟨c, hc, decide_eq_true rfl⟩)
    have hsame := List.find?_some hfind
    rw [hfind, List.inj_on_of_nodup_map (keeps.counts.nodup snapshot)
      (List.mem_of_find?_eq_some hfind) hc
      (of_decide_eq_true hsame)]

/-- Another scope's count, recorded, leaves a figure as it is. -/
theorem Snapshot.figure_recordCount (keeps : Snapshot.Keeps S) {snapshot : S} {scope : Text}
    {c : Count} (hscope : c.scope ≠ scope) :
    Snapshot.figure scope counted (recordCount c snapshot) =
      Snapshot.figure scope counted snapshot := by
  have hfind : (allCounts (recordCount c snapshot)).find? (fun c => c.key = (scope, counted)) =
      (allCounts snapshot).find? fun c => c.key = (scope, counted) := by
    ext c'
    rw [find_count keeps, find_count keeps, keeps.counts.mem_record]
    refine and_congr_left fun hkey => ⟨fun h => ?_, fun h => .inr ⟨h, fun hsame => ?_⟩⟩
    · rcases h with rfl | ⟨hbefore, -⟩
      · exact absurd (congrArg Prod.fst hkey) hscope
      · exact hbefore
    · exact hscope (congrArg Prod.fst (hsame.symm.trans hkey))
  rw [Snapshot.figure, hfind, Snapshot.figure]

private theorem Snapshot.figure_recordHealth (keeps : Snapshot.Keeps S) (snapshot : S)
    (scope : Text) (record : HealthRecord) :
    Snapshot.figure scope counted (recordHealth record snapshot) =
      Snapshot.figure scope counted snapshot := by
  rw [Snapshot.figure, keeps.counts_recordHealth, Snapshot.figure]

namespace Relay

variable {κ : Type} [Capability κ]

omit [Capability κ] in
/-- The records of a relay's links hold no count. -/
theorem figure_published (keeps : Snapshot.Keeps S) (t : Ticked κ S) (scope : Text) :
    Snapshot.figure scope counted t.published = Snapshot.figure scope counted t.snapshot := by
  unfold Ticked.published
  generalize t.records = records
  induction records generalizing t with
  | nil => rfl
  | cons record records ih =>
    rw [List.foldl_cons]
    exact (ih { t with snapshot := recordHealth record t.snapshot }).trans
      (Snapshot.figure_recordHealth keeps _ _ _)

/-- A stage's own scope is none of the drop box's. -/
theorem throughputScope_ne_dropBox (node : Text) (stage : Stage) (transport rest : Text) :
    node ++ "/drop-box/".toList ++ rest ≠ throughputScope node stage transport := by
  intro heq
  rw [throughputScope, List.append_assoc, List.append_assoc, List.append_cancel_left_eq] at heq
  have hsecond : some 'd' = stage.name.head? := by
    have hat := congrArg (fun text => text[1]?) heq
    cases stage <;> exact hat
  revert hsecond
  cases stage <;> decide

end Relay

end XmipEssentials
