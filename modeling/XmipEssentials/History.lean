import Mathlib.Algebra.GroupWithZero.Nat
import Mathlib.Data.List.Infix
import XmipEssentials.Ledger
import XmipEssentials.Records

/-!
# The ledger tells the whole history

A round folds its verdicts into the ledger and a snapshot begun for it, and closes it. What is
published is a running sum: a tally to a scope and a throughput to a stage and transport.
`Ledger.Tells` says that these sums are those of the whole history of verdicts, each of its own part
of it (`Tally.of`, `Throughput.of`), and one verdict more keeps it so (`Tells.fold`). A snapshot
under way holds the standings of the tallies as they are (`Ledger.UnderWay`), and a closed one the
standing of every tally and the counts of every throughput.

The counters are natural numbers here: those of the source have 64 bits, and a failure rate is
worked out in them while fewer than 2^57 rounds have run.
-/

namespace XmipEssentials

open Text Keyed Snapshot

variable {S : Type} [Snapshot S]

/-! ### What a history comes to -/

namespace Outcome

def isDelivered : Outcome → Bool
  | delivered => true
  | _ => false

def isFailed : Outcome → Bool
  | failed _ => true
  | _ => false

end Outcome

/-- The tally of a whole history of outcomes. -/
def Tally.of (outcomes : List Outcome) : Tally :=
  ⟨outcomes.length, outcomes.countP Outcome.isFailed, outcomes.getLast?⟩

/-- What a stage has moved by a whole history of its own verdicts over one transport. -/
def Throughput.of (stage : Stage) (verdicts : List Verdict) : Throughput where
  delivered := verdicts.countP fun v => v.outcome.isDelivered
  bytes :=
    if stage = .send then ((verdicts.filter fun v => v.outcome.isDelivered).map Verdict.bytes).sum
      else 0
  failed := verdicts.countP fun v => v.outcome.isFailed

/-- The outcomes of one scope among the verdicts, in order. -/
def outcomesAt (node scope : Text) (verdicts : List Verdict) : List Outcome :=
  (verdicts.filter fun v => v.scope node = scope).map Verdict.outcome

/-- The verdicts of one stage over one transport, without the identity steps beneath them. -/
def transported (stage : Stage) (transport : Text) (verdicts : List Verdict) : List Verdict :=
  verdicts.filter fun v => v.point = none ∧ v.stage = stage ∧ v.transport = transport

private theorem Tally.of_concat (outcomes : List Outcome) (outcome : Outcome) :
    Tally.of (outcomes ++ [outcome]) = (Tally.of outcomes).fold outcome := by
  unfold Tally.of Tally.fold
  rw [List.getLast?_concat, List.countP_append, List.length_append]
  cases outcome <;> rfl

private theorem Throughput.of_concat (stage : Stage) (verdicts : List Verdict) {v : Verdict}
    (hstage : v.stage = stage) :
    Throughput.of stage (verdicts ++ [v]) = Ledger.Throughput.count (Throughput.of stage verdicts)
      v := by
  unfold Throughput.of Ledger.Throughput.count
  rw [List.countP_append, List.countP_append, List.filter_append, List.map_append, List.sum_append,
    hstage]
  cases houtcome : v.outcome with
  | delivered =>
    by_cases hsend : stage = .send
    · simp [hsend, houtcome, Outcome.isDelivered, Outcome.isFailed]
    · simp [hsend, houtcome, Outcome.isDelivered, Outcome.isFailed]
  | oneSided why => simp [houtcome, Outcome.isDelivered, Outcome.isFailed]
  | failed why => simp [houtcome, Outcome.isDelivered, Outcome.isFailed]

private theorem outcomesAt_concat (node scope : Text) (verdicts : List Verdict) (v : Verdict) :
    outcomesAt node scope (verdicts ++ [v]) =
      if v.scope node = scope then outcomesAt node scope verdicts ++ [v.outcome]
      else outcomesAt node scope verdicts := by
  unfold outcomesAt
  rw [List.filter_append, List.map_append, List.filter_singleton]
  by_cases hscope : v.scope node = scope
  · rw [decide_eq_true hscope, if_pos hscope]
    rfl
  · rw [decide_eq_false hscope, if_neg hscope]
    exact List.append_nil _

private theorem transported_concat (stage : Stage) (transport : Text) (verdicts : List Verdict)
    (v : Verdict) :
    transported stage transport (verdicts ++ [v]) =
      if v.point = none ∧ v.stage = stage ∧ v.transport = transport then
        transported stage transport verdicts ++ [v]
      else transported stage transport verdicts := by
  unfold transported
  rw [List.filter_append, List.filter_singleton]
  split_ifs with hof
  · rw [decide_eq_true hof]
    rfl
  · rw [decide_eq_false hof]
    exact List.append_nil _

/-- No more rounds failed than were run. -/
theorem Tally.failures_le (outcomes : List Outcome) :
    (Tally.of outcomes).failures ≤ (Tally.of outcomes).rounds := List.countP_le_length

private theorem severity_overTime {t : Tally} (hlast : t.last = some .delivered)
    (hfailures : t.failures ≠ 0) (scope : Text) (now : Int) : (overTime scope t now).severity =
      rateSeverity t := by
  unfold overTime
  rw [hlast]
  dsimp only
  rw [if_neg hfailures]

/-- The severity of a pair that passes and has failed before. -/
theorem rateSeverity_of {outcomes : List Outcome} (h : outcomes ≠ []) :
    1 ≤ rateSeverity (Tally.of outcomes) ∧ rateSeverity (Tally.of outcomes) ≤ 80 := by
  have hrounds : (Tally.of outcomes).rounds ≠ 0 := fun hzero => h (List.length_eq_zero_iff.mp hzero)
  unfold rateSeverity
  rw [if_neg hrounds]
  omega

namespace Ledger

/-! ### One verdict more -/

/-- A sum there is where there is anything to sum. -/
def summed {α β : Type} (sum : List α → β) (l : List α) : Option β :=
  if l = [] then none else some (sum l)

/-- The ledger's sums are those of the whole history. -/
structure Tells (l : Ledger) (history : List Verdict) : Prop where
  tallies : ∀ scope, l.tallies.lookup scope = summed Tally.of (outcomesAt l.node scope history)
  stages : ∀ stage transport, l.stages.lookup (stage, transport) =
    summed (Throughput.of stage) (transported stage transport history)

private theorem summed_concat {α β : Type} (sum : List α → β) (l : List α) (a : α) :
    summed sum (l ++ [a]) = some (sum (l ++ [a])) :=
  if_neg (List.concat_ne_nil a l)

private theorem tells_new (node : Text) : Tells (new node) [] :=
  ⟨fun _ => rfl, fun _ _ => rfl⟩

private theorem summed_eq_some {α β : Type} {sum : List α → β} {l : List α} {b : β} :
    summed sum l = some b ↔ l ≠ [] ∧ b = sum l := by
  unfold summed
  by_cases hnil : l = []
  · rw [if_pos hnil]
    exact iff_of_false (Option.some_ne_none b).symm fun h => h.1 hnil
  · rw [if_neg hnil, Option.some_inj, eq_comm]
    exact (and_iff_right hnil).symm

private theorem getD_summed {α β : Type} (sum : List α → β) (l : List α) :
    (summed sum l).getD (sum []) = sum l := by
  unfold summed
  split_ifs with hnil
  · rw [hnil]
    rfl
  · rfl

private theorem Tells.moved {l : Ledger} {history : List Verdict} (h : l.Tells history)
    (stage : Stage) (transport : Text) :
    l.moved stage transport = Throughput.of stage (transported stage transport history) := by
  have hnothing : Throughput.of stage [] = ⟨0, 0, 0⟩ := by
    unfold Throughput.of
    split_ifs <;> rfl
  unfold Ledger.moved
  rw [h.stages, ← hnothing]
  exact getD_summed (Throughput.of stage) _

/-- **One verdict folded** keeps the sums those of the whole history. -/
theorem Tells.fold {l : Ledger} {history : List Verdict} (h : l.Tells history) (v : Verdict)
    (snapshot : S) (now : Int) : (l.fold v snapshot now).1.Tells (history ++ [v]) := by
  constructor
  · intro scope
    change (l.tallies.insert (v.scope l.node) _).lookup scope =
      summed Tally.of (outcomesAt l.node scope (history ++ [v]))
    rw [outcomesAt_concat]
    by_cases hscope : v.scope l.node = scope
    · rw [if_pos hscope, hscope, AList.lookup_insert, h.tallies, summed_concat, Tally.of_concat]
      exact congrArg (fun t => some (Tally.fold t v.outcome)) (getD_summed Tally.of _)
    · rw [if_neg hscope, AList.lookup_insert_ne (Ne.symm hscope), h.tallies]
  · intro stage transport
    change (if v.point.isNone then l.stages.insert (v.stage, v.transport) _ else l.stages).lookup
      (stage, transport) = _
    rw [transported_concat]
    -- An identity step is no transport verdict, and touches no throughput.
    by_cases hpoint : v.point = none
    · rw [if_pos (by rw [hpoint]; rfl)]
      by_cases hof : v.stage = stage ∧ v.transport = transport
      · obtain ⟨hstage, htransport⟩ := hof
        rw [if_pos ⟨hpoint, hstage, htransport⟩, hstage, htransport, AList.lookup_insert, h.moved,
          summed_concat, Throughput.of_concat _ _ hstage]
      · have hne : (stage, transport) ≠ (v.stage, v.transport) := fun heq =>
          hof ⟨(congrArg Prod.fst heq).symm, (congrArg Prod.snd heq).symm⟩
        rw [if_neg fun hall => hof hall.2, AList.lookup_insert_ne hne, h.stages]
    · rw [if_neg fun hnone => hpoint (Option.isNone_iff_eq_none.mp hnone),
        if_neg fun hall => hpoint hall.1, h.stages]

/-! ### A round -/

/-- A snapshot under way holds standings as the tallies are, and no count yet. -/
structure UnderWay (l : Ledger) (snapshot : S) (now : Int) : Prop where
  health : ∀ record ∈ healthRecords snapshot, ∃ tally, l.tallies.lookup record.scope = some tally ∧
    record = overTime record.scope tally now
  counts : allCounts snapshot = []

theorem underWay_new (keeps : Snapshot.Keeps S) (l : Ledger) (now : Int) :
    l.UnderWay (Snapshot.new : S) now := by
  refine ⟨fun record hrecord => ?_, keeps.counts_new⟩
  rw [keeps.health_new] at hrecord
  exact absurd hrecord List.not_mem_nil

theorem UnderWay.fold (keeps : Snapshot.Keeps S) {l : Ledger} {snapshot : S} {now : Int}
    (h : l.UnderWay snapshot now) (v : Verdict) :
    (l.fold v snapshot now).1.UnderWay (l.fold v snapshot now).2 now := by
  have hcounts : allCounts (l.fold v snapshot now).2 = [] :=
    (keeps.counts_recordHealth _ _).trans h.counts
  refine ⟨fun record hrecord => ?_, hcounts⟩
  unfold Ledger.fold at hrecord ⊢
  dsimp only at hrecord ⊢
  rcases (keeps.health.mem_record _ _ _).mp hrecord with rfl | ⟨hbefore, hscope⟩
  · rw [overTime_scope, AList.lookup_insert]
    exact ⟨_, rfl, rfl⟩
  · rw [overTime_scope] at hscope
    rw [AList.lookup_insert_ne hscope]
    exact h.health record hbefore

/-- A round: its verdicts folded into the ledger and a snapshot begun for it, and the round
closed. -/
def round (l : Ledger) (verdicts : List Verdict) (now : Int) : Ledger × S :=
  let folded := verdicts.foldl (fun folded v => folded.1.fold v folded.2 now) (l, Snapshot.new)
  (folded.1, folded.1.close folded.2 now)

/-- A round's verdicts folded, from wherever the round has come to. -/
theorem folded_tells (keeps : Snapshot.Keeps S) (now : Int) (verdicts : List Verdict) {l : Ledger}
    {history : List Verdict} {snapshot : S} (h : l.Tells history)
    (hshows : l.UnderWay snapshot now) :
    let folded := verdicts.foldl (fun folded v => folded.1.fold v folded.2 now) (l, snapshot)
    folded.1.node = l.node ∧ folded.1.Tells (history ++ verdicts) ∧
      folded.1.UnderWay folded.2 now := by
  induction verdicts generalizing l history snapshot with
  | nil =>
    rw [List.append_nil]
    exact ⟨rfl, h, hshows⟩
  | cons v verdicts ih =>
    rw [List.foldl_cons, List.append_cons]
    exact ih (h.fold v snapshot now) (hshows.fold keeps v)

/-! ### What a closed round publishes -/

private theorem close_eq (l : Ledger) (snapshot : S) (now : Int) : l.close snapshot now =
    recordAll recordCount
      (l.stages.entries.flatMap fun pair => counts l.node now pair.1.1 pair.1.2 pair.2)
      (recordAll recordHealth
        ((l.tallies.entries.filter fun pair =>
          pair.1 ∉ (healthRecords snapshot).map HealthRecord.scope).map fun pair =>
            overTime pair.1 pair.2 now) snapshot) := by
  unfold close recordAll
  rw [List.foldl_map]

/-- **The standings published** are those of every tally. -/
theorem mem_health_close (keeps : Snapshot.Keeps S) {l : Ledger} {snapshot : S} {now : Int}
    (h : l.UnderWay snapshot now) (record : HealthRecord) :
    record ∈ healthRecords (l.close snapshot now) ↔
      ∃ tally, l.tallies.lookup record.scope = some tally ∧
        record = overTime record.scope tally now := by
  have hscopes (waited : List (Sigma fun _ : Text => Tally)) :
      (waited.map fun pair => overTime pair.1 pair.2 now).map HealthRecord.scope =
        waited.map Sigma.fst := by
    rw [List.map_map]
    exact List.map_congr_left fun pair _ => overTime_scope pair.1 pair.2 now
  have hnodup := l.tallies.nodupKeys
  -- what is published over time comes after what the round published itself
  rw [close_eq, recordAll_unchanged keeps.health_recordCount, keeps.health.mem_recordAll]
  · rw [hscopes]
    constructor
    · rintro (hwaited | ⟨hbefore, -⟩)
      · obtain ⟨pair, hpair, rfl⟩ := List.mem_map.mp hwaited
        rw [overTime_scope]
        exact ⟨pair.2, AList.mem_lookup_iff.mpr (List.mem_filter.mp hpair).1, rfl⟩
      · exact h.health record hbefore
    · rintro ⟨tally, hlookup, hrecord⟩
      by_cases hpublished : record.scope ∈ (healthRecords snapshot).map HealthRecord.scope
      · -- The round drove the pair: what it published is of the same tally.
        obtain ⟨other, hother, hscope⟩ := List.mem_map.mp hpublished
        obtain ⟨tally', hlookup', hother'⟩ := h.health other hother
        rw [hscope, hlookup] at hlookup'
        obtain rfl := Option.some.inj hlookup'
        rw [hscope, ← hrecord] at hother'
        refine Or.inr ⟨hother' ▸ hother, fun hwaited => ?_⟩
        obtain ⟨pair, hpair, hfst⟩ := List.mem_map.mp hwaited
        exact of_decide_eq_true (List.mem_filter.mp hpair).2 (hfst ▸ hpublished)
      · have hwaited : (⟨record.scope, tally⟩ : Sigma fun _ : Text => Tally) ∈
            l.tallies.entries.filter fun pair =>
              pair.1 ∉ (healthRecords snapshot).map HealthRecord.scope :=
          List.mem_filter.mpr ⟨AList.mem_lookup_iff.mp hlookup, decide_eq_true hpublished⟩
        exact Or.inl (List.mem_map.mpr ⟨_, hwaited, hrecord.symm⟩)
  · -- no tally is published twice
    rw [hscopes]
    exact hnodup.sublist List.filter_sublist

/-- The scope a stage's throughput over a transport is counted under tells the two apart. -/
theorem counted_scope_inj {node : Text} {stage stage' : Stage} {transport transport' : Text}
    (h : node ++ '/' :: stage.name ++ '/' :: transport = node ++ '/' :: stage'.name ++
      '/' :: transport') :
    stage = stage' ∧ transport = transport' := by
  have hplain (stage : Stage) : '/' ∉ stage.name := by cases stage <;> decide
  rw [List.append_assoc, List.append_assoc, List.append_cancel_left_eq, List.cons_append,
    List.cons_append, List.cons_inj_right] at h
  have hsplit := congrArg (splitOnce ['/']) h
  rw [List.append_cons, List.append_cons stage'.name, splitOnce_append (hplain stage),
    splitOnce_append (hplain stage')] at hsplit
  obtain ⟨hstage, htransport⟩ := Prod.mk.inj (Option.some.inj hsplit)
  exact ⟨Stage.name_injective hstage, htransport⟩

theorem mem_counts {node : Text} {now : Int} {stage : Stage} {transport : Text} {moved : Throughput}
    {c : Count} : c ∈ counts node now stage transport moved ↔
      ∃ counted value, c = ⟨node ++ '/' :: stage.name ++ '/' :: transport, counted, value, now, now,
        now⟩ ∧
        (counted = Counted.at stage ∧ value = moved.delivered ∨ counted = .failed ∧
          value = moved.failed ∨
          stage = .send ∧ counted = .bytes ∧ value = moved.bytes) := by
  unfold counts
  dsimp only
  rw [List.mem_append, List.mem_cons, List.mem_singleton]
  constructor
  · -- a count of delivered and one of failed each, and of bytes at Send alone
    rintro ((rfl | rfl) | hbytes)
    · exact ⟨_, _, rfl, Or.inl ⟨rfl, rfl⟩⟩
    · exact ⟨_, _, rfl, Or.inr (Or.inl ⟨rfl, rfl⟩)⟩
    · split_ifs at hbytes with hsend
      · rw [List.mem_singleton.mp hbytes]
        exact ⟨_, _, rfl, Or.inr (Or.inr ⟨hsend, rfl, rfl⟩)⟩
      · exact absurd hbytes List.not_mem_nil
  · rintro ⟨counted, value, rfl, ⟨rfl, rfl⟩ | ⟨rfl, rfl⟩ | ⟨hsend, rfl, rfl⟩⟩
    · exact Or.inl (Or.inl rfl)
    · exact Or.inl (Or.inr rfl)
    · rw [if_pos hsend]
      exact Or.inr (List.mem_singleton.mpr rfl)

private theorem nodup_key_counts (node : Text) (now : Int) (stage : Stage) (transport : Text)
    (moved : Throughput) :
    ((counts node now stage transport moved).map Count.key).Nodup := by
  have hcounted : ((counts node now stage transport moved).map Count.counted).Nodup := by
    cases stage with
    | receive => exact (by decide : [Counted.streams, Counted.failed].Nodup)
    | process => exact (by decide : [Counted.journeys, Counted.failed].Nodup)
    | send => exact (by decide : [Counted.messages, Counted.failed, Counted.bytes].Nodup)
  apply List.Nodup.of_map Prod.snd
  rwa [List.map_map]

/-- No two of the counts published are of one scope and figure. -/
theorem nodup_key_flatMap (l : Ledger) (now : Int) :
    ((l.stages.entries.flatMap fun pair => counts l.node now pair.1.1 pair.1.2 pair.2).map
      Count.key).Nodup := by
  have hkeys : l.stages.entries.Pairwise fun pair pair' => pair.1 ≠ pair'.1 :=
    List.pairwise_map.mp l.stages.nodupKeys
  rw [List.map_flatMap, List.nodup_flatMap]
  refine ⟨fun pair _ => nodup_key_counts _ _ _ _ _, hkeys.imp fun hne key hkey hkey' => hne ?_⟩
  obtain ⟨c, hc, rfl⟩ := List.mem_map.mp hkey
  obtain ⟨c', hc', hsame⟩ := List.mem_map.mp hkey'
  obtain ⟨_, _, rfl, -⟩ := mem_counts.mp hc
  obtain ⟨_, _, rfl, -⟩ := mem_counts.mp hc'
  obtain ⟨hstage, htransport⟩ := counted_scope_inj (congrArg Prod.fst hsame)
  exact Prod.ext hstage.symm htransport.symm

/-- **The counts published** are those of every throughput. -/
theorem mem_counts_close (keeps : Snapshot.Keeps S) {l : Ledger} {snapshot : S} {now : Int}
    (h : l.UnderWay snapshot now) (c : Count) : c ∈ allCounts (l.close snapshot now) ↔
      ∃ stage transport moved, l.stages.lookup (stage, transport) = some moved ∧
        c ∈ counts l.node now stage transport moved := by
  rw [close_eq, keeps.counts.mem_recordAll (nodup_key_flatMap l now),
    recordAll_unchanged keeps.counts_recordHealth, h.counts, List.mem_flatMap]
  constructor
  · rintro (⟨⟨⟨stage, transport⟩, moved⟩, hentry, hc⟩ | ⟨hc, -⟩)
    · exact ⟨stage, transport, moved, AList.mem_lookup_iff.mpr hentry, hc⟩
    · exact absurd hc List.not_mem_nil
  · rintro ⟨stage, transport, moved, hlookup, hc⟩
    exact Or.inl ⟨⟨(stage, transport), moved⟩, AList.mem_lookup_iff.mp hlookup, hc⟩

/-! ### Whole runs -/

/-- The ledger after rounds of these verdicts at these times, the first first. -/
def after (S : Type) [Snapshot S] (l : Ledger) (rounds : List (List Verdict × Int)) : Ledger :=
  rounds.foldl (fun l one => (l.round one.1 one.2 : Ledger × S).1) l

private theorem tells_after (keeps : Snapshot.Keeps S) (rounds : List (List Verdict × Int))
    {l : Ledger} {history : List Verdict} (h : l.Tells history) : (after S l rounds).node = l.node ∧
      (after S l rounds).Tells (history ++ (rounds.map Prod.fst).flatten) := by
  unfold after
  induction rounds generalizing l history with
  | nil =>
    rw [List.map_nil, List.flatten_nil, List.append_nil]
    exact ⟨rfl, h⟩
  | cons one rounds ih =>
    obtain ⟨hnode, htells, -⟩ := folded_tells keeps one.2 one.1 h (underWay_new keeps l one.2)
    rw [List.foldl_cons, List.map_cons, List.flatten_cons, ← List.append_assoc]
    have hlater := ih (l := (l.round one.1 one.2 : Ledger × S).1) htells
    exact ⟨hlater.1.trans hnode, hlater.2⟩

/-- **The ledger tells the whole history.** After any rounds of any verdicts, one more publishes one
standing for every scope that ever had a verdict and for no other: the judgement of all its
outcomes, of which no more failed than there were, and which a pair that passes and has failed
before is given a severity from 1 to 80 for, worked out in 64 bits while fewer than 2^57 of them
came. It publishes as each stage's throughput over a transport how many of its own verdicts there
were delivered and failed, and at Send the bytes delivered. -/
theorem tells_whole_history (keeps : Snapshot.Keeps S) (node : Text)
    (rounds : List (List Verdict × Int)) (verdicts : List Verdict) (now : Int) :
    let published : S := ((after S (new node) rounds).round verdicts now).2
    let history := (rounds.map Prod.fst).flatten ++ verdicts
    ((healthRecords published).map HealthRecord.scope).Nodup ∧
    (∀ record, record ∈ healthRecords published ↔ outcomesAt node record.scope history ≠ [] ∧
      record = overTime record.scope (Tally.of (outcomesAt node record.scope history)) now) ∧
    (∀ scope, (Tally.of (outcomesAt node scope history)).failures ≤
      (Tally.of (outcomesAt node scope history)).rounds) ∧
    (∀ scope, (outcomesAt node scope history).length < 2 ^ 57 →
      (Tally.of (outcomesAt node scope history)).failures * 80 < 2 ^ 64) ∧
    (∀ record ∈ healthRecords published, (outcomesAt node record.scope history).getLast? =
      some .delivered →
      (∃ outcome ∈ outcomesAt node record.scope history, outcome.isFailed = true) →
      1 ≤ record.severity ∧ record.severity ≤ 80) ∧
    (∀ stage transport counted value,
      (∃ c ∈ allCounts published, c.scope = node ++ '/' :: stage.name ++ '/' :: transport ∧
        c.counted = counted ∧ c.value = value) ↔
      transported stage transport history ≠ [] ∧
        (counted = Counted.at stage ∧
            value = (transported stage transport history).countP (fun v => v.outcome.isDelivered) ∨
          counted = .failed ∧
            value = (transported stage transport history).countP (fun v => v.outcome.isFailed) ∨
          stage = .send ∧ counted = .bytes ∧ value = (((transported stage transport history).filter
            fun v => v.outcome.isDelivered).map Verdict.bytes).sum)) ∧
    ((allCounts published).map Count.key).Nodup := by
  intro published history
  -- the rounds before are told whole, and this round's verdicts come on top
  obtain ⟨hnode, hbefore⟩ := tells_after keeps rounds (tells_new node)
  obtain ⟨hsame, htells, hshows⟩ :=
    folded_tells keeps now verdicts hbefore (underWay_new keeps (after S (new node) rounds) now)
  rw [List.nil_append] at htells
  -- a scope's record is of every outcome there ever was of it
  have hstanding (record : HealthRecord) : record ∈ healthRecords published ↔
      outcomesAt node record.scope history ≠ [] ∧
        record = overTime record.scope (Tally.of (outcomesAt node record.scope history)) now := by
    apply (mem_health_close keeps hshows record).trans
    simp only [htells.tallies, hsame, hnode, summed_eq_some]
    constructor
    · rintro ⟨tally, ⟨hne, rfl⟩, hrecord⟩
      exact ⟨hne, hrecord⟩
    · rintro ⟨hne, hrecord⟩
      exact ⟨_, ⟨hne, rfl⟩, hrecord⟩
  refine ⟨keeps.health.nodup published, hstanding, fun scope => Tally.failures_le _,
    fun scope hfew => ?_, fun record hrecord hlast hfailed => ?_,
    fun stage transport counted value => ?_, keeps.counts.nodup published⟩
  · -- eighty times the failures is what the severity divides: it stays within a u64
    have hle := Tally.failures_le (outcomesAt node scope history)
    change _ ≤ (outcomesAt node scope history).length at hle
    omega
  · -- a record that ends delivered shows the failures before it
    obtain ⟨hne, heq⟩ := (hstanding record).mp hrecord
    have hfailures : (Tally.of (outcomesAt node record.scope history)).failures ≠ 0 :=
      (List.countP_pos_iff.mpr hfailed).ne'
    rw [heq, severity_overTime hlast hfailures]
    exact rateSeverity_of hne
  · -- each count is of one stage and one transport, whose verdicts are the history's
    have hcount (c : Count) := mem_counts_close keeps hshows c
    simp only [htells.stages, hsame, hnode, summed_eq_some, mem_counts] at hcount
    constructor
    · rintro ⟨c, hc, hscope, rfl, rfl⟩
      obtain ⟨stage', transport', moved, ⟨hne, rfl⟩, _, _, rfl, hof⟩ := (hcount c).mp hc
      obtain ⟨rfl, rfl⟩ := counted_scope_inj hscope
      refine ⟨hne, hof.imp_right (Or.imp_right ?_)⟩
      rintro ⟨rfl, hcounted, hbytes⟩
      exact ⟨rfl, hcounted, hbytes⟩
    · rintro ⟨hne, hof⟩
      refine ⟨⟨_, counted, value, now, now, now⟩, (hcount _).mpr
        ⟨stage, transport, _, ⟨hne, rfl⟩, counted, value, rfl, ?_⟩, rfl, rfl, rfl⟩
      refine hof.imp_right (Or.imp_right ?_)
      rintro ⟨rfl, hcounted, hbytes⟩
      exact ⟨rfl, hcounted, hbytes⟩

/-- A pair that failed its first round and passed its second: half its rounds failed. -/
theorem tells_whole_history_half :
    let verdict (outcome : Outcome) : Verdict := ⟨.send, ['t'], .bytes, outcome, 6, none, 0⟩
    let published : Records :=
      ((after Records (new ['n']) [([verdict (.failed ['w'])], 1)]).round [verdict .delivered] 2).2
    (⟨"n/send/t/bytes".toList, .stressed, 40, "1/2 rounds passed, 1 failed".toList, 2⟩ :
      HealthRecord) ∈
        healthRecords published ∧
      ∃ c ∈ allCounts published, c.scope = "n/send/t".toList ∧ c.counted = .bytes ∧
        c.value = 6 := by
  intro verdict published
  have hwhole := tells_whole_history Records.keeps ['n'] [([verdict (.failed ['w'])], 1)]
    [verdict .delivered] 2
  refine ⟨(hwhole.2.1 _).mpr ⟨by decide, by decide⟩, ?_⟩
  exact (hwhole.2.2.2.2.2.1 .send ['t'] .bytes 6).mpr
    ⟨by decide, Or.inr (Or.inr ⟨rfl, rfl, by decide⟩)⟩

end Ledger

end XmipEssentials
