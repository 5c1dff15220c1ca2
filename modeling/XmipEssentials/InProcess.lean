import XmipEssentials.Cluster.Orders
import XmipEssentials.Cluster.Rollup
import XmipEssentials.DailyBacklog
import XmipEssentials.ExclusiveClaim.Judge
import XmipEssentials.Filing
import XmipEssentials.LowLatency
import XmipEssentials.Retention

/-!
# The scenarios a roll runs in its own process

Each scenario publishes under its own subtree of the cluster's root, and a round merges what those
chosen published into one snapshot. A merge keeps one record to a scope, so it loses nothing only
where no two publish one scope. Each stays beneath its own (`Under`): what it publishes is named
from its scope, and so is every standing it keeps from round to round (`Homed`), which is why it
goes on so over a run.

* `InProcess.board_holds` — over any rounds, whatever the scenarios' calls come to, the snapshot of
  a round holds just what each scenario chosen published in it, record for record and count for
  count, and each of those beneath its own scope.
-/

namespace XmipEssentials

open Text Keyed Conc Snapshot

/-! ### At a scope, or beneath it -/

/-- A scope is `root`, or lies beneath it. -/
def Within (root scope : Text) : Prop := scope = root ∨ root ++ ['/'] <+: scope

private theorem within_self (root : Text) : Within root root := .inl rfl

private theorem within_append (root rest : Text) : Within root (root ++ '/' :: rest) :=
  .inr ⟨rest, by rw [List.append_assoc, List.singleton_append]⟩

/-- What lies beneath a scope lies beneath those above it. -/
theorem Within.append {root scope : Text} (h : Within root scope) (rest : Text) :
    Within root (scope ++ '/' :: rest) := by
  rcases h with rfl | hbeneath
  · exact within_append scope rest
  · exact .inr (hbeneath.trans (List.prefix_append _ _))

/-- A scope does not lie within two of other names, side by side. -/
theorem Within.name_unique {root a b scope : Text} (ha : '/' ∉ a) (hb : '/' ∉ b)
    (h : Within (root ++ '/' :: a) scope) (h' : Within (root ++ '/' :: b) scope) : a = b := by
  -- Past the root, the name is what stands before the next slash.
  have hname {c : Text} (hc : '/' ∉ c) (hwithin : Within (root ++ '/' :: c) scope) :
      (scope.drop (root.length + 1)).takeWhile (· ≠ '/') = c := by
    have hall : ∀ x ∈ c, decide (x ≠ '/') = true := fun x hx => decide_eq_true fun heq =>
      hc (heq ▸ hx)
    have hdrop (rest : Text) : (root ++ '/' :: c ++ rest).drop (root.length + 1) = c ++ rest := by
      rw [List.append_assoc, ← List.drop_drop, List.drop_left]
      rfl
    rcases hwithin with rfl | ⟨more, rfl⟩
    · have hself := hdrop []
      rw [List.append_nil, List.append_nil] at hself
      rw [hself, List.takeWhile_eq_self_iff]
      exact hall
    · rw [List.append_assoc, hdrop, List.takeWhile_append_of_pos hall]
      simp
  rw [← hname ha h, hname hb h']

variable {S : Type} [Snapshot S]

/-- All a snapshot holds is published at a scope or beneath it, and it holds no rows. -/
structure Under (root : Text) (s : S) : Prop where
  health : ∀ r ∈ healthRecords s, Within root r.scope
  counts : ∀ c ∈ allCounts s, Within root c.scope
  rows : ∀ k, rows k s = []

/-- Every scope a table keeps something of is the scope, or beneath it. -/
def Homed {β : Type} (root : Text) (table : AList fun _ : Text => β) : Prop :=
  ∀ scope ∈ table, Within root scope

private theorem homed_empty {β : Type} (root : Text) : Homed root (∅ : AList fun _ : Text => β) :=
  fun scope h => absurd h (AList.notMem_empty scope)

private theorem Homed.insert {β : Type} {root scope : Text} {table : AList fun _ : Text => β}
    (h : Homed root table) (hscope : Within root scope) (b : β) :
    Homed root (table.insert scope b) := by
  intro other hother
  rcases (AList.mem_insert table).mp hother with rfl | hold
  · exact hscope
  · exact h other hold

private theorem Homed.entry {β : Type} {root : Text} {table : AList fun _ : Text => β}
    (h : Homed root table) {entry : Sigma fun _ : Text => β} (hentry : entry ∈ table.entries) :
    Within root entry.1 :=
  h entry.1 (List.mem_keys_of_mem hentry)

omit [Snapshot S] in
private theorem Verdict.within_scope (v : Verdict) (node : Text) : Within node (v.scope node) := by
  have hbase :
    Within node (node ++ '/' :: v.stage.name ++ '/' :: v.transport ++ '/' :: v.contract.name) :=
    ((within_append node _).append _).append _
  unfold Verdict.scope
  cases v.point with
  | none => exact hbase
  | some point => exact hbase.append point

/-- What each of a list keeps, the whole of it keeps. -/
theorem Under.foldl {root : Text} {s : S} {α : Type} {record : S → α → S} {l : List α}
    (h : Under root s) (hrecord : ∀ a ∈ l, ∀ s, Under root s → Under root (record s a)) :
    Under root (l.foldl record s) := by
  induction l generalizing s with
  | nil => exact h
  | cons a l ih =>
    exact ih (hrecord a List.mem_cons_self s h) fun b hb => hrecord b (List.mem_cons_of_mem a hb)

section

variable (keeps : Keeps S) {root : Text} {s : S}

include keeps

private theorem under_new (root : Text) : Under root (new : S) where
  health r hr := by
    rw [keeps.health_new] at hr
    cases hr
  counts c hc := by
    rw [keeps.counts_new] at hc
    cases hc
  rows := keeps.rows_new

private theorem Under.recordHealth (h : Under root s) {r : HealthRecord}
    (hr : Within root r.scope) :
    Under root (recordHealth r s) where
  health x hx := by
    rcases (keeps.health.mem_record r x s).mp hx with rfl | ⟨hx, -⟩
    · exact hr
    · exact h.health x hx
  counts c hc := by
    rw [keeps.counts_recordHealth] at hc
    exact h.counts c hc
  rows k := (keeps.rows_recordHealth k r s).trans (h.rows k)

private theorem Under.recordCount (h : Under root s) {c : Count} (hc : Within root c.scope) :
    Under root (recordCount c s) where
  health x hx := by
    rw [keeps.health_recordCount] at hx
    exact h.health x hx
  counts x hx := by
    rcases (keeps.counts.mem_record c x s).mp hx with rfl | ⟨hx, -⟩
    · exact hc
    · exact h.counts x hx
  rows k := (keeps.rows_recordCount k c s).trans (h.rows k)

/-! ### Round trips -/

private theorem Ledger.under_fold {l : Ledger} (hl : Homed l.node l.tallies) (h : Under l.node s)
    (v : Verdict) (now : Int) :
    let after := l.fold v s now
    after.1.node = l.node ∧ Homed l.node after.1.tallies ∧ Under l.node after.2 := by
  refine ⟨rfl, hl.insert (v.within_scope l.node) _, h.recordHealth keeps ?_⟩
  rw [overTime_scope]
  exact v.within_scope l.node

private theorem Ledger.under_close {l : Ledger} (hl : Homed l.node l.tallies) (h : Under l.node s)
    (now : Int) :
    Under l.node (l.close s now) := by
  refine Under.foldl (Under.foldl h fun pair hpair s hs => hs.recordHealth keeps ?_)
    fun c hc s hs =>
    hs.recordCount keeps ?_
  · -- What is recorded of a pair, and what is counted of it, stands beneath the node.
    rw [overTime_scope]
    exact hl.entry (List.mem_filter.mp hpair).1
  · obtain ⟨pair, -, hcount⟩ := List.mem_flatMap.mp hc
    have hscope : c.scope = l.node ++ '/' :: pair.1.1.name ++ '/' :: pair.1.2 := by
      unfold Ledger.counts at hcount
      dsimp only at hcount
      split at hcount <;>
        simp only [List.mem_append, List.mem_cons, List.not_mem_nil, or_false] at hcount
      · rcases hcount with (rfl | rfl) | rfl <;> rfl
      · rcases hcount with rfl | rfl <;> rfl
    rw [hscope]
    exact (within_append l.node _).append _

/-- A schedule's tick stays beneath its scope, and keeps to it. -/
theorem Schedule.under_tick (E : Rig) (s : Schedule) (hs : Homed s.ledger.node s.ledger.tallies) :
    (s.tick (S := S) E).Yields fun after =>
      Under s.ledger.node after.1 ∧ after.2.ledger.node = s.ledger.node ∧
        Homed s.ledger.node after.2.ledger.tallies := by
  -- The verdicts are folded one after another, and each stands beneath the node.
  have hfold (now : Int) : ∀ (verdicts : List Verdict) (l : Ledger) (snapshot : S), l.node =
    s.ledger.node → Homed s.ledger.node l.tallies →
      Under s.ledger.node snapshot →
      let after := verdicts.foldl (fun into v => into.1.fold v into.2 now) (l, snapshot)
      after.1.node = s.ledger.node ∧ Homed s.ledger.node after.1.tallies ∧
        Under s.ledger.node after.2 := by
    intro verdicts
    induction verdicts with
    | nil => exact fun l snapshot hnode htallies h => ⟨hnode, htallies, h⟩
    | cons v verdicts ih =>
      intro l snapshot hnode htallies h
      have hone := Ledger.under_fold keeps (hnode.symm ▸ htallies) (hnode.symm ▸ h) v now
      rw [hnode] at hone
      exact ih _ _ hone.1 hone.2.1 hone.2.2
  refine (Prog.Yields.trivial _).bind fun now _ => (Prog.Yields.trivial _).bind fun verdicts _ => ?_
  obtain ⟨hnode, htallies, h⟩ := hfold now verdicts s.ledger Snapshot.new rfl hs (under_new keeps _)
  refine ⟨?_, hnode, htallies⟩
  rw [← hnode] at htallies h
  have hclosed := Ledger.under_close keeps htallies h now
  rwa [hnode] at hclosed

end

/-! ### Latencies -/

namespace LowLatency

variable (millis : Nat → Text) (enc : Encoders)

omit [Snapshot S] in
private theorem homed_drive {l : LowLatency} (hl : Homed l.node l.seen) (now : Int)
    (pair : Text × Contract) (answer : Exchange × Nat) :
    Homed l.node (l.drive millis enc now pair answer).1.seen := by
  unfold drive
  dsimp only
  rw [folded_seen]
  exact hl.insert ((within_append l.node _).append _) _

omit [Snapshot S] in
private theorem homed_driveEach {l : LowLatency} (hl : Homed l.node l.seen) (now : Int)
    (driven : List ((Text × Contract) × Exchange × Nat)) :
    Homed l.node (driveEach millis enc now driven l).1.seen := by
  induction driven generalizing l with
  | nil => exact hl
  | cons one driven ih =>
    have hone := homed_drive millis enc hl now one.1 one.2
    have hnode : (l.drive millis enc now one.1 one.2).1.node = l.node := drive_node
    have hrest := ih (hnode.symm ▸ hone)
    rwa [hnode] at hrest

/-- A tick stays beneath its scope, and keeps to it. -/
theorem under_tick (keeps : Keeps S) {l : LowLatency} (hl : Homed l.node l.seen) (turn : Turn) :
    let after : S × LowLatency := l.tick millis enc turn
    Under l.node after.1 ∧ after.2.node = l.node ∧ Homed l.node after.2.seen := by
  have hnode : (l.driven millis enc turn).1.node = l.node := driveEach_node _
  have hround : Homed { l with round := l.round + 1 }.node { l with round := l.round + 1 }.seen :=
    hl
  have hseen : Homed l.node (l.driven millis enc turn).1.seen :=
    homed_driveEach millis enc hround turn.now _
  refine ⟨Under.foldl (under_new keeps _) fun r hr s hs => hs.recordHealth keeps ?_, hnode, hseen⟩
  -- What is published is of a pair driven in this turn, or of one that waits.
  rcases List.mem_append.mp hr with hdriven | hwaited
  · have hscope := List.mem_map_of_mem (f := HealthRecord.scope) hdriven
    rw [driven, map_scope_driveEach] at hscope
    obtain ⟨one, -, hscope⟩ := List.mem_map.mp hscope
    rw [← hscope]
    exact (within_append l.node _).append _
  · have hscope := List.mem_map_of_mem (f := HealthRecord.scope) hwaited
    rw [map_scope_waiting] at hscope
    obtain ⟨entry, hentry, hscope⟩ := List.mem_map.mp hscope
    rw [← hscope]
    exact hseen.entry (List.mem_filter.mp hentry).1

end LowLatency

/-! ### Loads -/

/-- A load's tick stays beneath its scope, and keeps to it. -/
theorem HeavyLoad.under_tick (keeps : Keeps S) {E : Rig} {D : Shown} {h h' : HeavyLoad}
    {snapshot : S} (hh : Homed h.node h.standings) (hcomes : (h.tick E D).Comes (snapshot, h')) :
    Under h.node snapshot ∧ h'.node = h.node ∧ Homed h.node h'.standings := by
  obtain ⟨turns, now, hturned, rfl⟩ := exists_turned_of_tick hcomes
  have hnode : h'.node = h.node := hturned.node
  have hstandings : Homed h.node h'.standings := by
    -- What is entered in a table that is at home stays at home.
    have henter :
      ∀ (entries : List (Text × (Mark × Text))) (table : AList fun _ : Text => Standing),
      Homed h.node table →
        (∀ entry ∈ entries, Within h.node entry.1) →
        Homed h.node (entries.foldl (Tabled.enter Standing.fold .default) table) := by
      intro entries
      induction entries with
      | nil => exact fun table htable _ => htable
      | cons entry entries ih =>
        intro table htable hentries
        rw [List.forall_mem_cons] at hentries
        exact ih _ (htable.insert hentries.1 _) hentries.2
    rw [hturned.standings]
    apply henter _ _ hh
    intro entry hentry
    obtain ⟨said, -, rfl⟩ := List.mem_map.mp hentry
    exact (within_append h.node _).append _
  refine ⟨?_, hnode, hstandings⟩
  refine (Under.foldl (under_new keeps _) fun entry hentry s hs =>
    hs.recordHealth keeps ?_).recordCount keeps ?_
  · -- Each pair's leaf is beneath the node, and so is what is counted.
    exact hstandings.entry hentry
  · rw [hnode]
    exact within_self h.node

/-! ### Retention -/

namespace Retention

private theorem foldl_push_node (l : List Contract) (r : Retention) :
    (l.foldl push r).node = r.node := by
  induction l generalizing r with
  | nil => rfl
  | cons contract l ih => exact ih (r.push contract)

private theorem createDays_node (days : Nat) (r : Retention) :
    (createDays days r).node = r.node := by
  induction days generalizing r with
  | zero => rfl
  | succ days ih => exact (ih r.createDay).trans (foldl_push_node contracts _)

private theorem sweepItem_node (nowSecs : Nat) (s : Sweeping) (item : Item) :
    (sweepItem nowSecs s item).test.node = s.test.node := by
  unfold sweepItem
  split
  · rfl
  · unfold tryArchive
    dsimp only
    split_ifs
    · rfl
    · split <;> rfl

private theorem sweepLive_node (r : Retention) (nowSecs : Nat) :
    (r.sweepLive nowSecs).1.node = r.node := by
  have hfold : ∀ (items : List Item) (s : Sweeping), (items.foldl (sweepItem nowSecs) s).test.node =
    s.test.node := by
    intro items
    induction items with
    | nil => exact fun _ => rfl
    | cons item items ih => exact fun s => (ih _).trans (sweepItem_node nowSecs s item)
  exact hfold r.live _

private theorem under_publish (keeps : Keeps S) (leaks : Leaks) (now : Int)
    (parts : List (Sweep × Contract)) (r : Retention) {snapshot : S} (h : Under r.node snapshot) :
    Under r.node (publish leaks now parts r snapshot).1 ∧
    (publish leaks now parts r snapshot).2.node = r.node := by
  induction parts generalizing r snapshot with
  | nil => exact ⟨h, rfl⟩
  | cons part parts ih =>
    exact ih (r.verdict part.1 part.2 leaks now).2
      (h.recordHealth keeps ((within_append r.node _).append _))

/-- A tick stays beneath its scope. -/
theorem under_tick (keeps : Keeps S) (r : Retention) (nowSecs : Nat) (now : Int) :
    let after : S × Retention := r.tick nowSecs now
    Under r.node after.1 ∧ after.2.node = r.node := by
  have hnode : (({ r with round := r.round + 1 }.createThrough nowSecs).sweepLive nowSecs).1.node =
    r.node :=
    (sweepLive_node _ nowSecs).trans (createDays_node _ _)
  have hpublished :=
    under_publish keeps
      (({ r with round := r.round + 1 }.createThrough nowSecs).sweepLive nowSecs).2 now
    (Sweep.all.flatMap fun sweep => contracts.map fun contract => (sweep, contract))
    (({ r with round := r.round + 1 }.createThrough nowSecs).sweepLive nowSecs).1
      (under_new keeps _)
  rwa [hnode] at hpublished

end Retention

/-! ### Filing -/

/-- A filing's tick stays beneath its scope. -/
theorem Filing.under_tick (keeps : Keeps S) (E : Rig) (hand : Cabinets) (now : Int) (f : Filing) :
    let after : S × Filing := f.tick E hand now
    Under f.node after.1 ∧ after.2.node = f.node := by
  -- One pair after another is folded in, each at a scope beneath the node.
  have hfold : ∀ (judged : List Judged) (g : Filing) (snapshot : S),
    (∀ one ∈ judged, Within g.node one.scope) →
      Under g.node snapshot →
      Under g.node (judged.foldl (folded now) (g, snapshot)).2 ∧
      (judged.foldl (folded now) (g, snapshot)).1.node = g.node := by
    intro judged
    induction judged with
    | nil => exact fun g snapshot _ h => ⟨h, rfl⟩
    | cons one judged ih =>
      intro g snapshot hscopes h
      rw [List.forall_mem_cons] at hscopes
      exact ih (folded now (g, snapshot) one).1 (folded now (g, snapshot) one).2 hscopes.2
        (h.recordHealth (r := Standing.health _ one.scope now) keeps hscopes.1)
  have hscopes : ∀ one ∈ f.next.fileRound E hand, Within f.next.node one.scope := by
    intro one hone
    obtain ⟨pair, -, rfl⟩ := List.mem_map.mp hone
    rw [scope_judge]
    exact (within_append f.node _).append _
  obtain ⟨h, hnode⟩ := hfold (f.next.fileRound E hand) f.next Snapshot.new hscopes
    (under_new keeps _)
  refine ⟨h.recordCount keeps ?_, hnode⟩
  exact hnode.symm ▸ within_self f.node

/-! ### The backlog -/

namespace DailyBacklog

private theorem node_escalate (r : DailyBacklog) (share : Nat) :
    (r.escalate share).node = r.node := by
  unfold escalate
  split_ifs <;> rfl

private theorem arrive_node (count : Nat) (r : DailyBacklog) :
    (arrive count r).Yields fun after => after.node = r.node := by
  induction count generalizing r with
  | zero => exact rfl
  | succ count ih =>
    apply (Prog.Yields.trivial _).bind
    intro created _
    cases created with
    | ok _ => exact (Prog.Yields.trivial _).bind fun _ _ => ih { r with seq := r.seq + 1 }
    | error why => exact ih { r with seq := r.seq + 1 }

private theorem under_published (keeps : Keeps S) (r : DailyBacklog) (now : Int) :
    Under r.node (r.published now : S) := by
  have hdrain : Within r.node (r.node ++ "/drain".toList) := within_append r.node "drain".toList
  exact
    (((under_new keeps r.node).recordHealth (r := r.standing.health _ now) keeps hdrain).recordCount
      keeps
    (within_self r.node)).recordCount keeps (within_self r.node)

/-- A tick stays beneath its scope. -/
theorem under_tick (keeps : Keeps S) (r : DailyBacklog) :
    (r.tick (S := S)).Yields fun after => Under r.node after.1 ∧ after.2.node = r.node := by
  refine (Prog.Yields.trivial _).bind fun now _ =>
    (arrive_node ARRIVAL _).bind fun arrived harrived =>
    (Prog.Yields.trivial _).bind fun processed _ => (Prog.Yields.trivial _).bind fun measured _ =>
      ?_
  have hjudged (share capacity : Nat) (r' : DailyBacklog) (hr : r'.node = arrived.node) :
      ((r'.escalate share).judged share processed capacity).node = r.node :=
    calc ((r'.escalate share).judged share processed capacity).node
        = r'.node := node_escalate r' share
      _ = arrived.node := hr
      _ = r.node := harrived
  have hnode :=
    hjudged (measured.1 / max measured.2 1) (arrived.nodes * arrived.readers * PER_READER)
    { arrived with
      drained := arrived.drained + processed
      backlog := measured.1
      feeders := measured.2 } rfl
  exact ⟨hnode ▸ under_published keeps _ now, hnode⟩

end DailyBacklog

/-! ### Exclusive claims -/

namespace ExclusiveClaim

/-- Percent of rounds a pressured run drops the atomic claim. -/
def BREACH_RATE : UInt8 := 12

/-- The transport the claim runs over. -/
def SUBSTRATE : Text := "file".toList

/-- The claim exercise of a process, and how each style stood under the node. -/
structure Claim extends Exercise where
  node : Text
  standings : AList fun _ : Text => Standing

namespace Claim

/-- A claim exercise publishing under `node`, with the atomic claim intact and no other process in
it. -/
def new (node : Text) (tag : Nat) : Claim where
  tag := tag
  shared := false
  round := 0
  rate := 0
  node := node
  standings := ∅

/-- The same exercise with the atomic claim removed now and then. -/
def underPressure (c : Claim) : Claim := { c with rate := BREACH_RATE }

/-- A style's verdict folded into its standing, and what it publishes. -/
def fold (c : Claim) (style : Style) (verdict : ExclusiveClaim.Verdict) (now : Int) :
    HealthRecord × Claim :=
  let scope := c.node ++ '/' :: SUBSTRATE ++ '/' :: style.name
  let (ok, line) :=
    match verdict with
    | .held line => (true, line)
    | .contended line | .missed line => (false, line)
  let mark := if ok then Mark.pass else .fail
  let standing := ((c.standings.lookup scope).getD .default).record mark line
  (standing.health scope now, { c with standings := c.standings.insert scope standing })

variable {S : Type} [Snapshot S]

/-- One style folded and published. -/
def folded (judged : Style → ExclusiveClaim.Verdict) (now : Int) (into : S × Claim)
    (style : Style) : S × Claim :=
  let (record, c) := into.2.fold style (judged style) now
  (Snapshot.recordHealth record into.1, c)

/-- One round: what the pickup of each style was judged, folded and published. -/
def tick (judged : Exercise → Style → ExclusiveClaim.Verdict) (now : Int) (c : Claim) : S × Claim :=
  let c := { c with round := c.round + 1 }
  Style.all.foldl (folded (judged c.toExercise) now) (Snapshot.new, c)

/-- A tick stays beneath its scope. -/
theorem under_tick (keeps : Keeps S) (judged : Exercise → Style → ExclusiveClaim.Verdict)
    (now : Int) (c : Claim) :
    let after : S × Claim := c.tick judged now
    Under c.node after.1 ∧ after.2.node = c.node := by
  -- One style after another is folded in, each at a scope beneath the node.
  have hfold : ∀ (styles : List Style) (judged : Style → ExclusiveClaim.Verdict) (into : S × Claim),
    into.2.node = c.node →
      Under c.node into.1 →
      Under c.node (styles.foldl (folded judged now) into).1 ∧
      (styles.foldl (folded judged now) into).2.node = c.node := by
    intro styles judged
    induction styles with
    | nil => exact fun into hnode h => ⟨h, hnode⟩
    | cons style styles ih =>
      intro into hnode h
      refine ih (folded judged now into style) hnode (h.recordHealth keeps ?_)
      change Within c.node (into.2.node ++ '/' :: SUBSTRATE ++ '/' :: style.name)
      rw [hnode]
      exact (within_append c.node _).append _
  exact hfold Style.all _ (Snapshot.new, { c with round := c.round + 1 }) rfl (under_new keeps _)

end Claim

end ExclusiveClaim

/-! ### The scenarios of a roll -/

/-- A scenario a roll may run itself. -/
inductive Scenario where
  | roundTrip
  | lowLatency
  | heavyLoad
  | retention
  | filing
  | exclusiveClaim
  | dailyBacklog
  deriving DecidableEq, Repr

namespace Scenario

/-- In the order a round ticks them. -/
def all : List Scenario :=
  [roundTrip, lowLatency, heavyLoad, retention, filing, exclusiveClaim, dailyBacklog]

/-- What it is chosen by, and published under. -/
def name : Scenario → Text
  | roundTrip => "round-trip".toList
  | lowLatency => "low-latency".toList
  | heavyLoad => "heavy-load".toList
  | retention => "retention".toList
  | filing => "filing".toList
  | exclusiveClaim => "exclusive-claim".toList
  | dailyBacklog => "daily-backlog".toList

private theorem slash_notMem_name (scenario : Scenario) : '/' ∉ scenario.name := by
  cases scenario <;> decide

private theorem name_injective : Function.Injective name := by
  intro a b h
  cases a <;> cases b <;> first | rfl | exact absurd h (by decide)

private theorem nodup_all : all.Nodup := by decide

/-- Where it publishes. -/
def scope (root : Text) (scenario : Scenario) : Text := root ++ '/' :: scenario.name

/-- No two share a scope, nor anything beneath one. -/
theorem eq_of_within {root scope : Text} {a b : Scenario} (ha : Within (a.scope root) scope)
    (hb : Within (b.scope root) scope) :
    a = b :=
  name_injective (Within.name_unique a.slash_notMem_name b.slash_notMem_name ha hb)

end Scenario

/-- The same exercise with a payload of so many bytes. -/
def HeavyLoad.withBytes (bytes : Nat) (h : HeavyLoad) : HeavyLoad := { h with bytes := max bytes 1 }

/-- Every scenario a roll may run itself, and which of them it was told to. -/
structure InProcess where
  chosen : List Text
  /-- The nodes run the round trip. -/
  relayed : Bool
  roundTrip : Schedule
  lowLatency : LowLatency
  heavyLoad : HeavyLoad
  retention : Retention
  filing : Filing
  exclusiveClaim : ExclusiveClaim.Claim
  dailyBacklog : DailyBacklog

namespace InProcess

/-- What a roll's scenarios run over: the contracts and what is shown of sizes and times, the
estate's transports and what they can carry, its cabinets, the identity pipeline and the rotation,
the cores, the size of a load, and the process's id. -/
structure Ground where
  rig : Rig
  shown : Shown
  millis : Nat → Text
  transports : List Text
  ceiling : Text → Option Nat
  cabinets : List Text
  identity : Identity
  rotation : Stage → Text → Contract → Nat → Option Fault
  cores : Cores
  loadBytes : Nat
  tag : Nat

/-- The scenarios under `root`, sized for the level. `chosen` names the ones to run, `relayed` says
the nodes run the round trip. -/
def new (G : Ground) (root : Text) (stress : Stress) (chosen : List Text) (relayed : Bool) :
    Prog BacklogOp InProcess := do
  let slice := stress.workers G.cores * 16
  let scope := fun scenario : Scenario => scenario.scope root
  let dailyBacklog ← DailyBacklog.shared (scope .dailyBacklog) G.tag
  pure {
    chosen, relayed
    roundTrip :=
      { (Schedule.new (scope .roundTrip) G.transports G.identity) with
        rotation := some G.rotation }.pairsPerRound slice
    lowLatency :=
      ((LowLatency.new (scope .lowLatency) G.transports).at .realistic).pairsPerRound slice
    heavyLoad :=
      ({ (HeavyLoad.new (scope .heavyLoad) G.transports G.ceiling) with
        stress := some .realistic }.withBytes G.loadBytes).pairsPerRound
        (stress.workers G.cores * 8)
    retention := (Retention.new (scope .retention)).at .realistic
    filing := { (Filing.new (scope .filing) G.cabinets) with stress := some .realistic }
    exclusiveClaim := (ExclusiveClaim.Claim.new (scope .exclusiveClaim) G.tag).underPressure
    dailyBacklog }

/-- Whether a round runs the scenario: where it is chosen, and for the round trip, where the nodes
do not run it. -/
def runs (p : InProcess) : Scenario → Bool
  | .roundTrip => drives p.chosen Scenario.roundTrip.name && !p.relayed
  | scenario => drives p.chosen scenario.name

variable {S : Type} [Snapshot S]

/-- A scenario's tick, at so many seconds of simulated time: what it publishes, and the scenarios
after. Whatever its calls are answered, its exchanges take, its cabinets hand back and its pickups
are judged. -/
inductive Ticks (G : Ground) (simulated : Nat) : Scenario → InProcess → S → InProcess → Prop
  | roundTrip {p : InProcess} {out : S} {after : Schedule}
      (ticked : (p.roundTrip.tick G.rig).Comes (out, after)) :
    Ticks G simulated .roundTrip p out { p with roundTrip := after }
  | lowLatency {p : InProcess} (turn : LowLatency.Turn) :
    Ticks G simulated .lowLatency p (p.lowLatency.tick G.millis G.rig.enc turn).1
      { p with lowLatency := (p.lowLatency.tick (S := S) G.millis G.rig.enc turn).2 }
  | heavyLoad {p : InProcess} {out : S} {after : HeavyLoad}
      (ticked : (p.heavyLoad.tick G.rig G.shown).Comes (out, after)) :
    Ticks G simulated .heavyLoad p out { p with heavyLoad := after }
  | retention {p : InProcess} (now : Int) :
    Ticks G simulated .retention p (p.retention.tick simulated now).1
      { p with retention := (p.retention.tick (S := S) simulated now).2 }
  | filing {p : InProcess} (hand : Filing.Cabinets) (now : Int) :
    Ticks G simulated .filing p (p.filing.tick G.rig hand now).1
      { p with filing := (p.filing.tick (S := S) G.rig hand now).2 }
  | exclusiveClaim {p : InProcess} (judged : ExclusiveClaim.Exercise → ExclusiveClaim.Style →
      ExclusiveClaim.Verdict) (now : Int) :
    Ticks G simulated .exclusiveClaim p (p.exclusiveClaim.tick judged now).1
      { p with exclusiveClaim := (p.exclusiveClaim.tick (S := S) judged now).2 }
  | dailyBacklog {p : InProcess} {out : S} {after : DailyBacklog}
      (ticked : p.dailyBacklog.tick.Comes (out, after)) :
    Ticks G simulated .dailyBacklog p out { p with dailyBacklog := after }

/-- The scenarios ticked in turn, each merged into the snapshot so far: what each published, the
snapshot, and the scenarios after. -/
inductive Merges (G : Ground) (simulated : Nat) :
    List Scenario → InProcess → S → List (Scenario × S) → S → InProcess → Prop
  | done {p : InProcess} {s : S} : Merges G simulated [] p s [] s p
  | skip {p p' : InProcess} {s s' : S} {scenario : Scenario} {l : List Scenario}
      {outs : List (Scenario × S)}
      (hruns : p.runs scenario = false) (rest : Merges G simulated l p s outs s' p') :
    Merges G simulated (scenario :: l) p s outs s' p'
  | run {p p₁ p' : InProcess} {s s' out : S} {scenario : Scenario} {l : List Scenario}
      {outs : List (Scenario × S)}
      (hruns : p.runs scenario = true) (ticks : Ticks G simulated scenario p out p₁)
      (rest : Merges G simulated l p₁ (merge s out) outs s' p') :
    Merges G simulated (scenario :: l) p s ((scenario, out) :: outs) s' p'

/-- One round of every chosen scenario, merged into one snapshot. -/
def Tick (G : Ground) (simulated : Nat) (p : InProcess) (outs : List (Scenario × S)) (snapshot : S)
    (p' : InProcess) : Prop :=
  Merges G simulated Scenario.all p Snapshot.new outs snapshot p'

/-- A roll's scenarios, after any rounds. -/
inductive Rolled (S : Type) [Snapshot S] (G : Ground) (root : Text) (chosen : List Text)
    (relayed : Bool) : InProcess → Prop
  | new {stress : Stress} {p : InProcess} (comes : (new G root stress chosen relayed).Comes p) :
      Rolled S G root chosen relayed p
  | tick {simulated : Nat} {p p' : InProcess} {outs : List (Scenario × S)} {snapshot : S}
      (rolled : Rolled S G root chosen relayed p) (ticked : Tick G simulated p outs snapshot p') :
    Rolled S G root chosen relayed p'

/-! ### Each at home -/

/-- Each scenario publishes under its own scope, and what it keeps from round to round is named from
it. -/
structure Settled (root : Text) (p : InProcess) : Prop where
  roundTrip : p.roundTrip.ledger.node = Scenario.roundTrip.scope root ∧
    Homed (Scenario.roundTrip.scope root) p.roundTrip.ledger.tallies
  lowLatency : p.lowLatency.node = Scenario.lowLatency.scope root ∧
    Homed (Scenario.lowLatency.scope root) p.lowLatency.seen
  heavyLoad : p.heavyLoad.node = Scenario.heavyLoad.scope root ∧
    Homed (Scenario.heavyLoad.scope root) p.heavyLoad.standings
  retention : p.retention.node = Scenario.retention.scope root
  filing : p.filing.node = Scenario.filing.scope root
  exclusiveClaim : p.exclusiveClaim.node = Scenario.exclusiveClaim.scope root
  dailyBacklog : p.dailyBacklog.node = Scenario.dailyBacklog.scope root

variable {G : Ground} {root : Text} {simulated : Nat} {p p' : InProcess} {s s' out snapshot : S}
    {scenario : Scenario}
  {chosen : List Text} {relayed : Bool} {outs : List (Scenario × S)}

private theorem Settled.new (stress : Stress) (chosen : List Text) (relayed : Bool) :
    (InProcess.new G root stress chosen relayed).Yields fun p => Settled root p ∧
    p.chosen = chosen ∧ p.relayed = relayed := by
  refine fun _ => ⟨?_, rfl, rfl⟩
  exact
    { roundTrip := ⟨rfl, homed_empty _⟩
      lowLatency := ⟨rfl, homed_empty _⟩
      heavyLoad := ⟨rfl, homed_empty _⟩
      retention := rfl
      filing := rfl
      exclusiveClaim := rfl
      dailyBacklog := rfl }

/-- A tick publishes at its scenario's scope or beneath it, and leaves every scenario at home. -/
theorem Ticks.under (keeps : Keeps S) (hticks : Ticks G simulated scenario p out p')
    (h : Settled root p) :
    Under (scenario.scope root) out ∧ Settled root p' ∧ p'.chosen = p.chosen ∧
    p'.relayed = p.relayed := by
  -- Every scenario publishes beneath its own node, and touches no other's.
  cases hticks with
  | roundTrip ticked =>
    obtain ⟨hnode, htallies⟩ := h.roundTrip
    have hafter := (Schedule.under_tick keeps G.rig p.roundTrip (hnode ▸ htallies)).of_comes ticked
    rw [hnode] at hafter
    exact ⟨hafter.1, { h with roundTrip := hafter.2 }, rfl, rfl⟩
  | lowLatency turn =>
    obtain ⟨hnode, hseen⟩ := h.lowLatency
    have hafter := LowLatency.under_tick G.millis G.rig.enc keeps (l := p.lowLatency)
      (hnode ▸ hseen) turn
    dsimp only at hafter
    rw [hnode] at hafter
    exact ⟨hafter.1, { h with lowLatency := hafter.2 }, rfl, rfl⟩
  | heavyLoad ticked =>
    obtain ⟨hnode, hstandings⟩ := h.heavyLoad
    have hafter := HeavyLoad.under_tick keeps (hnode ▸ hstandings) ticked
    rw [hnode] at hafter
    exact ⟨hafter.1, { h with heavyLoad := hafter.2 }, rfl, rfl⟩
  | retention now =>
    have hafter := Retention.under_tick keeps p.retention simulated now
    dsimp only at hafter
    rw [h.retention] at hafter
    exact ⟨hafter.1, { h with retention := hafter.2 }, rfl, rfl⟩
  | filing hand now =>
    have hafter := Filing.under_tick keeps G.rig hand now p.filing
    dsimp only at hafter
    rw [h.filing] at hafter
    exact ⟨hafter.1, { h with filing := hafter.2 }, rfl, rfl⟩
  | exclusiveClaim judged now =>
    have hafter := ExclusiveClaim.Claim.under_tick keeps judged now p.exclusiveClaim
    dsimp only at hafter
    rw [h.exclusiveClaim] at hafter
    exact ⟨hafter.1, { h with exclusiveClaim := hafter.2 }, rfl, rfl⟩
  | dailyBacklog ticked =>
    have hafter := (DailyBacklog.under_tick keeps p.dailyBacklog).of_comes ticked
    rw [h.dailyBacklog] at hafter
    exact ⟨hafter.1, { h with dailyBacklog := hafter.2 }, rfl, rfl⟩

/-- What stands beneath none of the scenarios still to tick. -/
structure Aside (root : Text) (l : List Scenario) (s : S) : Prop where
  health : ∀ r ∈ healthRecords s, ∀ scenario ∈ l, ¬Within (scenario.scope root) r.scope
  counts : ∀ c ∈ allCounts s, ∀ scenario ∈ l, ¬Within (scenario.scope root) c.scope
  rows : ∀ k, rows k s = []

/-- A snapshot holds what another held and what the scenarios published, and nothing else. -/
structure Gathers (s : S) (outs : List (Scenario × S)) (s' : S) : Prop where
  health : ∀ r, r ∈ healthRecords s' ↔ r ∈ healthRecords s ∨ ∃ out ∈ outs, r ∈ healthRecords out.2
  counts : ∀ c, c ∈ allCounts s' ↔ c ∈ allCounts s ∨ ∃ out ∈ outs, c ∈ allCounts out.2
  rows : ∀ k, rows k s' = []

/-- Merging in what a scenario published takes nothing away, and leaves the ones after it free. -/
theorem Aside.merged (keeps : Keeps S) {l : List Scenario} (h : Aside root (scenario :: l) s)
    (hnotMem : scenario ∉ l) (hout : Under (scenario.scope root) out) :
    Aside root l (merge s out) ∧
    (∀ r, r ∈ healthRecords (merge s out) ↔ r ∈ healthRecords s ∨ r ∈ healthRecords out) ∧
      ∀ c, c ∈ allCounts (merge s out) ↔ c ∈ allCounts s ∨ c ∈ allCounts out := by
  -- Nothing was recorded at a scope of this scenario yet, so a merge forgets nothing.
  have hhealth : ∀ r, r ∈ healthRecords (merge s out) ↔ r ∈ healthRecords s ∨
    r ∈ healthRecords out := by
    intro r
    rw [mem_health_merge keeps]
    constructor
    · rintro (hmem | ⟨hmem, -⟩)
      · exact .inr hmem
      · exact .inl hmem
    · rintro (hmem | hmem)
      · refine .inr ⟨hmem, fun hscope => ?_⟩
        obtain ⟨other, hother, hsame⟩ := List.mem_map.mp hscope
        exact h.health r hmem scenario List.mem_cons_self (hsame ▸ hout.health other hother)
      · exact .inl hmem
  have hcounts : ∀ c, c ∈ allCounts (merge s out) ↔ c ∈ allCounts s ∨ c ∈ allCounts out := by
    intro c
    rw [mem_counts_merge keeps]
    constructor
    · rintro (hmem | ⟨hmem, -⟩)
      · exact .inr hmem
      · exact .inl hmem
    · rintro (hmem | hmem)
      · refine .inr ⟨hmem, fun hkey => ?_⟩
        obtain ⟨other, hother, hsame⟩ := List.mem_map.mp hkey
        have hscope : other.scope = c.scope := congrArg Prod.fst hsame
        exact h.counts c hmem scenario List.mem_cons_self (hscope ▸ hout.counts other hother)
      · exact .inl hmem
  -- No scenario publishes rows.
  have hrows : ∀ k, Snapshot.rows k (merge s out) = [] := by
    intro k
    cases k with
    | subscription =>
      apply List.eq_nil_iff_forall_not_mem.mpr
      intro row hrow
      rw [mem_subscriptions_merge keeps, h.rows, hout.rows] at hrow
      rcases hrow with hrow | ⟨hrow, -⟩ <;> cases hrow
    | eventSubscription =>
      apply List.eq_nil_iff_forall_not_mem.mpr
      intro row hrow
      rw [mem_eventSubscriptions_merge keeps, h.rows, hout.rows] at hrow
      rcases hrow with hrow | ⟨hrow, -⟩ <;> cases hrow
    | deadMessage => exact (rows_merge_of_ne keeps (by decide) (by decide) s out).trans (h.rows _)
    | unheardEvent => exact (rows_merge_of_ne keeps (by decide) (by decide) s out).trans (h.rows _)
  refine ⟨⟨fun r hr other hother hwithin => ?_, fun c hc other hother hwithin => ?_, hrows⟩,
    hhealth, hcounts⟩
  · -- What is new is this scenario's, which comes no second time.
    rcases (hhealth r).mp hr with hmem | hmem
    · exact h.health r hmem other (List.mem_cons_of_mem _ hother) hwithin
    · exact hnotMem (Scenario.eq_of_within (hout.health r hmem) hwithin ▸ hother)
  · rcases (hcounts c).mp hc with hmem | hmem
    · exact h.counts c hmem other (List.mem_cons_of_mem _ hother) hwithin
    · exact hnotMem (Scenario.eq_of_within (hout.counts c hmem) hwithin ▸ hother)

/-- The scenarios ticked are those the round runs, each beneath its own scope, and what they
published is what is held. -/
theorem Merges.gathers (keeps : Keeps S) {l : List Scenario}
    (hmerges : Merges G simulated l p s outs s' p') (hnodup : l.Nodup) (h : Settled root p)
    (haside : Aside root l s) :
    outs.map Prod.fst = l.filter p.runs ∧ (∀ out ∈ outs, Under (out.1.scope root) out.2) ∧
      Gathers s outs s' ∧ Settled root p' ∧ p'.chosen = p.chosen ∧ p'.relayed = p.relayed := by
  -- Scenario by scenario, in their order; one that does not run leaves all as it was.
  induction hmerges with
  | done =>
    exact ⟨rfl, fun _ hout => absurd hout List.not_mem_nil,
      ⟨fun r => by simp, fun c => by simp, haside.rows⟩, h, rfl, rfl⟩
  | @skip p p' s s' scenario l outs hruns rest ih =>
    obtain ⟨-, hnodup⟩ := List.nodup_cons.mp hnodup
    have hrest := ih hnodup h
      ⟨fun r hr other hother => haside.health r hr other (List.mem_cons_of_mem _ hother),
        fun c hc other hother => haside.counts c hc other (List.mem_cons_of_mem _ hother),
        haside.rows⟩
    rw [List.filter_cons_of_neg (by rw [hruns]; exact Bool.false_ne_true)]
    exact hrest
  | @run p p₁ p' s s' out scenario l outs hruns ticks rest ih =>
    obtain ⟨hnotMem, hnodup⟩ := List.nodup_cons.mp hnodup
    obtain ⟨hout, hsettled, hchosen, hrelayed⟩ := ticks.under keeps h
    obtain ⟨haside₁, hhealth, hcounts⟩ := haside.merged keeps hnotMem hout
    obtain ⟨hran, houts, hgathers, hsettled', hchosen', hrelayed'⟩ := ih hnodup hsettled haside₁
    -- What was chosen does not change, so the same scenarios run as did before the tick.
    have hsame : p₁.runs = p.runs := by
      funext scenario
      cases scenario <;> simp only [runs, hchosen, hrelayed]
    refine ⟨?_, ?_, ⟨fun r => ?_, fun c => ?_, hgathers.rows⟩, hsettled', hchosen'.trans hchosen,
      hrelayed'.trans hrelayed⟩
    · rw [List.filter_cons_of_pos hruns, List.map_cons, hran, hsame]
    · rw [List.forall_mem_cons]
      exact ⟨hout, houts⟩
    · rw [hgathers.health, hhealth, List.exists_mem_cons_iff, or_assoc]
    · rw [hgathers.counts, hcounts, List.exists_mem_cons_iff, or_assoc]

private theorem Settled.gathers (keeps : Keeps S) (h : Settled root p)
    (ticked : Tick G simulated p outs snapshot p') :
    outs.map Prod.fst = Scenario.all.filter p.runs ∧
    (∀ out ∈ outs, Under (out.1.scope root) out.2) ∧
      Gathers (Snapshot.new : S) outs snapshot ∧ Settled root p' ∧ p'.chosen = p.chosen ∧
      p'.relayed = p.relayed := by
  refine ticked.gathers keeps Scenario.nodup_all h ⟨fun r hr => ?_, fun c hc => ?_, keeps.rows_new⟩
  · rw [keeps.health_new] at hr
    cases hr
  · rw [keeps.counts_new] at hc
    cases hc

/-- Over any rounds the scenarios keep to their scopes, and to what the roll was told. -/
theorem Rolled.settled (keeps : Keeps S) (h : Rolled S G root chosen relayed p) :
    Settled root p ∧ p.chosen = chosen ∧ p.relayed = relayed := by
  induction h with
  | new comes => exact (Settled.new _ chosen relayed).of_comes comes
  | tick rolled ticked ih =>
    obtain ⟨hsettled, hchosen, hrelayed⟩ := ih
    obtain ⟨-, -, -, hafter, hchosen', hrelayed'⟩ := hsettled.gathers keeps ticked
    exact ⟨hafter, hchosen'.trans hchosen, hrelayed'.trans hrelayed⟩

/-- **Nothing a scenario publishes covers another's.** After any rounds, a round's snapshot holds
just what each of the scenarios it ran published in it, every record and every count, and no rows.
It ran those chosen, and the round trip only where the nodes do not, and each of them published at
its own scope or beneath it. -/
theorem board_holds (keeps : Keeps S) (hrolled : Rolled S G root chosen relayed p)
    (hticked : Tick G simulated p outs snapshot p') :
    (∀ scenario, scenario ∈ outs.map Prod.fst ↔
        drives chosen scenario.name = true ∧ (scenario = .roundTrip → relayed = false)) ∧
      (outs.map Prod.fst).Nodup ∧ (∀ out ∈ outs, Under (out.1.scope root) out.2) ∧
      (∀ r, r ∈ healthRecords snapshot ↔ ∃ out ∈ outs, r ∈ healthRecords out.2) ∧
      (∀ c, c ∈ allCounts snapshot ↔ ∃ out ∈ outs, c ∈ allCounts out.2) ∧
      ∀ k, rows k snapshot = [] := by
  obtain ⟨hsettled, rfl, rfl⟩ := hrolled.settled keeps
  obtain ⟨hran, houts, hgathers, -⟩ := hsettled.gathers keeps hticked
  refine ⟨fun scenario => ?_, ?_, houts, fun r => ?_, fun c => ?_, hgathers.rows⟩
  · -- A scenario runs where it was chosen, and the round trip only where no node relays it.
    have hall : scenario ∈ Scenario.all := by cases scenario <;> decide
    rw [hran, List.mem_filter, and_iff_right hall]
    cases scenario <;> simp [runs]
  · rw [hran]
    exact Scenario.nodup_all.filter _
  · rw [hgathers.health, keeps.health_new, or_iff_right List.not_mem_nil]
  · rw [hgathers.counts, keeps.counts_new, or_iff_right List.not_mem_nil]

/-- A roll over one transport and one cabinet. -/
def bare : Ground where
  rig := Schedule.anyRig
  shown := ⟨fun _ => [], fun _ _ _ _ => []⟩
  millis _ := []
  transports := ["file".toList]
  ceiling _ := none
  cabinets := ["file".toList]
  identity := ⟨fun _ _ _ => [], fun _ _ _ => .delivered⟩
  rotation _ _ _ _ := none
  cores := ⟨1, Nat.one_pos⟩
  loadBytes := 1
  tag := 7

theorem board_holds_retention_filing : ∃ (outs : List (Scenario × Records)) (snapshot : Records),
    outs.map Prod.fst = [.retention, .filing] ∧ ∀ r, r ∈ healthRecords snapshot ↔
    ∃ out ∈ outs, r ∈ healthRecords out.2 := by
  obtain ⟨p, hcomes, hchosen⟩ :
    ∃ p, (new bare ['c'] .calm [Scenario.retention.name, Scenario.filing.name] false).Comes p ∧
      p.chosen = [Scenario.retention.name, Scenario.filing.name] :=
    ⟨_, Prog.runs_call.mpr ⟨.ok (), (), trivial, .pure⟩, rfl⟩
  have hruns (q : InProcess) (hq : q.chosen = p.chosen) (scenario : Scenario) :
      q.runs scenario = decide (scenario = .retention ∨ scenario = .filing) := by
    cases scenario <;> (simp only [runs, hq, hchosen]; rfl)
  -- Only the two that were chosen tick; the others are skipped.
  have hlast : ∀ (q : InProcess) (s : Records), q.chosen = p.chosen →
      Merges bare 0 [.exclusiveClaim, .dailyBacklog] q s [] s q := fun q s hq =>
    .skip (hruns q hq .exclusiveClaim) (.skip (hruns q hq .dailyBacklog) .done)
  have hticked : Tick bare 0 p _ _ _ :=
    .skip (hruns p rfl .roundTrip) (.skip (hruns p rfl .lowLatency) (.skip (hruns p rfl .heavyLoad)
      (.run (hruns p rfl .retention) (.retention 1)
      (.run (hruns _ rfl .filing) (.filing Filing.returning 1) (hlast _ _ rfl)))))
  exact ⟨_, _, rfl, (board_holds Records.keeps (.new hcomes) hticked).2.2.2.1⟩

end InProcess

end XmipEssentials
