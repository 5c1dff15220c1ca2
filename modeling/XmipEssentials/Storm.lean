import XmipEssentials.Standings
import XmipEssentials.Workers

/-!
# The storm: every pair at once, and whether the tests keep their shape

A tick drives every transport by every contract from the level's workers, catches what panics, lays
the round's faults over what came back, and folds each line into its pair's standing. It then judges
itself: that it took no longer than its budget, that nothing panicked, that what was not delivered
says why, and that the rollup tells the truth of what is beneath it. Its own leaf is green just
where none of these broke.

* `weathered_tells` — over any run of ticks, whatever the exchanges came to, whichever of them
  panicked and in whatever order the workers took the pairs: each pair's leaf is its standing over
  all its rounds, what is counted is what was delivered over the whole run, and the storm's own leaf
  is fine just where the tick broke nothing.
* `broken_eq_nil_iff` — exactly when a tick breaks nothing.

What carries the first is that the workers come to the lines in the pairs' order
(`Workers.drive_each`) and that a table tells its history as it is published
(`Tabled.Tells.reported`). Of the crate the snapshot is of, the storm reads the records beneath a
scope and the rollup at it; how long a duration is written is left to `Gauge`, as is the time limit.
-/

namespace XmipEssentials

open Text Conc Tabled Keyed

/-- A text with nothing in it to read. -/
def blank (t : Text) : Bool := (trim t).isEmpty

/-- A health as it is written for a developer. -/
def Health.debug : Health → Text
  | .fine => "Fine".toList
  | .paused => "Paused".toList
  | .working => "Working".toList
  | .stressed => "Stressed".toList
  | .exhausted => "Exhausted".toList
  | .holding => "Holding".toList
  | .done => "Done".toList

/-- What the storm reads of other crates. -/
structure Gauge (S : Type) where
  /-- What the records beneath a scope roll up to. -/
  worst : Text → S → Option Health
  /-- How long any adapter waits on its far end. -/
  timeout : Nat
  cores : Cores
  /-- How a duration is written. -/
  shown : Nat → Text

/-- The storm: the whole matrix at a level, and what its ticks came to so far. -/
structure Storm where
  node : Text
  transports : List Text
  stress : Stress
  faults : FaultPlan
  round : Nat
  standings : AList fun _ : Text => Standing
  delivered : Nat
  movedBytes : Nat
  panics : Nat
  lastTick : Nat
  broken : List Text

/-- The same storm at a level: its faults, its payload sizes, its workers. -/
def Storm.at (stress : Stress) (s : Storm) : Storm :=
  { s with stress, faults := if stress = .calm then .none else FaultPlan.realistic.at stress }

namespace Storm

/-- A storm publishing under `node` over these transports. -/
def new (node : Text) (transports : List Text) : Storm where
  node := node
  transports := transports
  stress := .realistic
  faults := FaultPlan.realistic.at .realistic
  round := 0
  standings := ∅
  delivered := 0
  movedBytes := 0
  panics := 0
  lastTick := 0
  broken := []

variable {S : Type} [Snapshot S]

/-- How long a tick may take: every pair waited on to its timeout, three times over, shared across
the workers. -/
def budget (G : Gauge S) (s : Storm) : Nat :=
  G.timeout * 3 * min (s.transports.length * contracts.length) (2 ^ 32 - 1) / min
    (max (s.stress.workers G.cores) 1) (2 ^ 32 - 1)

/-! ### One pair -/

/-- One pair judged this round. -/
structure Line where
  scope : Text
  outcome : Outcome
  bytes : Nat
  panicked : Bool
  deriving DecidableEq, Repr

/-- How the round went for the pair, and what an operator reads of it. -/
def Line.verdict (line : Line) : Mark × Text :=
  match line.outcome with
  | .delivered => (.pass, decimal line.bytes ++ " bytes out and back".toList)
  | .oneSided why => (.warn, why)
  | .failed why => (.fail, why)

/-- What came of each pair's exchange, caught: its outcome and the bytes it moved, or what a panic
said. -/
abbrev Caught : Type := Text × Contract → Except Text (Outcome × Nat)

/-- The round's fault on the pair, if one fires on any stage. -/
def fault (s : Storm) (pair : Text × Contract) : Option Fault :=
  Stage.all.findSome? fun stage => s.faults.faultFor stage pair.1 pair.2 s.round

/-- One pair this round: what its exchange came to, then the round's fault over it where it did not
panic. -/
def judge (caught : Caught) (s : Storm) (pair : Text × Contract) : Line :=
  let scope := pairScope s.node pair
  match caught pair with
  | .error message => ⟨scope, .failed ("panicked: ".toList ++ message), 0, true⟩
  | .ok (outcome, bytes) =>
    match s.fault pair with
    | some fault => ⟨scope, .failed fault.evidence, 0, false⟩
    | none => ⟨scope, outcome, bytes, false⟩

/-! ### One tick -/

/-- The invariants any snapshot under stress must keep, as the lines that broke them. -/
def violations (G : Gauge S) (snapshot : S) (node : Text) : List Text :=
  let records := Snapshot.health node snapshot
  let found := (records.filter fun r => r.health ≠ .fine ∧ blank r.evidence).map fun r =>
    r.scope ++ " is ".toList ++ r.health.debug ++ " with no reason".toList
  let trouble := records.any fun r => r.health ≠ .fine
  match G.worst node snapshot with
  | some .fine =>
    if trouble then found ++ [node ++ " rolls up Fine over a leaf that is not".toList] else found
  | some health =>
    if !trouble then
      found ++ [node ++ " rolls up ".toList ++ health.debug ++ " over nothing but Fine".toList]
        else found
  | none =>
    if !records.isEmpty then
      found ++ [node ++ " rolls up to nothing over ".toList ++ decimal records.length ++
        " records".toList]
    else found

/-- One line folded in: what it counts, its pair's standing, and whether it says why it was not
delivered. -/
def folded (now : Int) (into : Storm × S × List Text) (line : Line) : Storm × S × List Text :=
  let (s, snapshot, broken) := into
  let (mark, evidence) := line.verdict
  let broken :=
    if mark ≠ .pass ∧ blank evidence then
      broken ++ [line.scope ++ " was not delivered and gave no reason".toList]
    else broken
  let standing := ((s.standings.lookup line.scope).getD .default).record mark evidence
  ({ s with
      delivered := if line.outcome = .delivered then s.delivered + 1 else s.delivered
      movedBytes := if line.outcome = .delivered then s.movedBytes + line.bytes else s.movedBytes
      standings := s.standings.insert line.scope standing },
    Snapshot.recordHealth (standing.health line.scope now) snapshot, broken)

/-- The tick's own leaf: green with the timing, red naming what broke. -/
def tickRecord (G : Gauge S) (s : Storm) (broken : List Text) (now : Int) : HealthRecord :=
  let timing := decimal (s.transports.length * contracts.length) ++ " pairs from ".toList ++
    decimal (s.stress.workers G.cores) ++ " workers in ".toList ++ G.shown s.lastTick ++
      " (budget ".toList ++
    G.shown (s.budget G) ++ ") at ".toList ++ s.stress.name
  let (health, severity, evidence) :=
    if broken = [] then (Health.fine, 0, timing)
    else (.done, 90, timing ++ ": ".toList ++ "; ".toList.intercalate broken)
  ⟨s.node ++ "/tick".toList, health, severity, evidence, now⟩

/-- The pairs delivered so far as Streams, and the bytes that moved. -/
def recordCounts (s : Storm) (now : Int) (snapshot : S) : S :=
  [(Counted.streams, s.delivered), (.bytes, s.movedBytes)].foldl
    (fun snapshot one => Snapshot.recordCount ⟨s.node, one.1, one.2, now, now, now⟩ snapshot)
      snapshot

/-- What a tick makes of its lines: each folded into its standing, then the invariants over what was
published, and the tick's own verdict. -/
def concluded (G : Gauge S) (elapsed : Nat) (now : Int) (lines : List Line) (s : Storm) :
    S × Storm :=
  let panicked := lines.countP Line.panicked
  let (s, snapshot, broken) :=
    lines.foldl (folded now) ({ s with lastTick := elapsed }, (Snapshot.new : S), [])
  let s := { s with panics := s.panics + panicked }
  let broken := broken ++ violations G snapshot s.node
  let broken :=
    if s.budget G < s.lastTick then
      broken ++ ["the tick took ".toList ++ G.shown s.lastTick ++ ", over its budget of ".toList ++
        G.shown (s.budget G)]
    else broken
  let broken := if 0 < panicked then
    broken ++ [decimal panicked ++ " pair(s) panicked this round".toList] else broken
  (s.recordCounts now (Snapshot.recordHealth (s.tickRecord G broken now) snapshot),
    { s with broken })

/-- The storm in its next round. -/
def next (s : Storm) : Storm := { s with round := s.round + 1 }

/-- The lines of a round, in the pairs' order. -/
def lines (caught : Caught) (s : Storm) : List Line := (allPairs s.transports).map (s.judge caught)

/-- One tick of a storm: every pair at once from the level's workers, each exchange come to
something it can or caught in a panic, and what the workers came to concluded. -/
structure Ticked (E : Rig) (G : Gauge S) (caught : Caught) (elapsed : Nat) (now : Int) (s : Storm)
    (snapshot : S) (s' : Storm) : Prop where
  came : ∀ pair r, caught pair = .ok r →
    (E.roundTripWith pair.1 pair.2 (E.payload pair.2 (s.stress.sizeFor s.next.round))).Comes r
  drove : ∃ steps p, Workers.Run (allPairs s.transports) (s.next.judge caught)
    (s.stress.workers G.cores) steps p ∧
    p.Ended ∧ s.next.concluded G elapsed now p.result = (snapshot, s')

/-- Any number of ticks of a new storm, and the lines they judged. -/
inductive Weathered (E : Rig) (G : Gauge S) : Storm → List Line → Prop
  | new {s : Storm} (hstandings : s.standings = ∅) (hdelivered : s.delivered = 0)
      (hmoved : s.movedBytes = 0)
      (hpanics : s.panics = 0) : Weathered E G s []
  | tick {s s' : Storm} {before : List Line} {caught : Caught} {elapsed : Nat} {now : Int}
      {snapshot : S}
      (weathered : Weathered E G s before) (ticked : Ticked E G caught elapsed now s snapshot s') :
      Weathered E G s' (before ++ s.next.lines caught)

/-! ### What a tick comes to -/

/-- What a line says of its pair's scope. -/
def Line.entry (line : Line) : Text × (Mark × Text) := (line.scope, line.verdict)

/-- The bytes of the lines delivered. -/
def moved (lines : List Line) : Nat :=
  (lines.map fun line => if line.outcome = .delivered then line.bytes else 0).sum

/-- The lines that were not delivered and do not say why. -/
def unexplained (lines : List Line) : List Line :=
  lines.filter fun line => line.verdict.1 ≠ .pass ∧ blank line.verdict.2

/-- The standings of the lines, folded and published one after another. -/
def published (now : Int) (lines : List Line) (into : (AList fun _ : Text => Standing) × S) :
    (AList fun _ : Text => Standing) × S := publish now (lines.map Line.entry) into

/-- What a tick breaks: what its lines left unsaid, what the snapshot of its pairs says wrong, its
budget, and panics. -/
def brokenBy (G : Gauge S) (elapsed : Nat) (lines : List Line) (pairs : S) (s : Storm) :
    List Text :=
  (unexplained lines).map
    (fun line => line.scope ++ " was not delivered and gave no reason".toList) ++
      violations G pairs s.node ++
    (if s.budget G < elapsed then
      ["the tick took ".toList ++ G.shown elapsed ++ ", over its budget of ".toList ++
        G.shown (s.budget G)] else []) ++
    if 0 < lines.countP Line.panicked then
      [decimal (lines.countP Line.panicked) ++ " pair(s) panicked this round".toList] else []

private theorem published_cons (now : Int) (line : Line) (lines : List Line)
    (table : AList fun _ : Text => Standing) (snapshot : S) :
    published now (line :: lines) (table, snapshot) =
      let standing := ((table.lookup line.scope).getD .default).record line.verdict.1 line.verdict.2
      published now lines (table.insert line.scope standing,
        Snapshot.recordHealth (standing.health line.scope now) snapshot) := by
  rw [published, List.map_cons, publish_cons]
  rfl

/-- **The lines of a round folded in**, one by one. -/
theorem foldl_folded (now : Int) (lines : List Line) (s : Storm) (snapshot : S)
    (broken : List Text) :
    lines.foldl (folded now) (s, snapshot, broken) =
      ({ s with
          delivered := s.delivered + lines.countP (·.outcome = .delivered)
          movedBytes := s.movedBytes + moved lines
          standings := (published now lines (s.standings, snapshot)).1 },
        (published now lines (s.standings, snapshot)).2,
        broken ++ (unexplained lines).map fun line =>
        line.scope ++ " was not delivered and gave no reason".toList) := by
  induction lines generalizing s snapshot broken with
  | nil => simp [unexplained, moved, published, publish]
  | cons line lines ih =>
    -- one line more is counted where it was delivered
    have hcounted : (if line.outcome = .delivered then s.delivered + 1 else s.delivered) +
        lines.countP (·.outcome = .delivered) = s.delivered + (line :: lines).countP
          (·.outcome = .delivered) := by
      rw [List.countP_cons]
      by_cases hdelivered : line.outcome = .delivered
      · rw [if_pos hdelivered, if_pos (decide_eq_true hdelivered)]
        omega
      · rw [if_neg hdelivered, if_neg (by simpa using hdelivered), Nat.add_zero]
    -- its bytes likewise
    have hmoved : (if line.outcome = .delivered then s.movedBytes + line.bytes else s.movedBytes) +
      moved lines =
        s.movedBytes + moved (line :: lines) := by
      rw [moved, moved, List.map_cons, List.sum_cons]
      split_ifs <;> omega
    -- and it is a breach where it was not delivered and says nothing
    have hunexplained (wording : Line → Text) :
        (if line.verdict.1 ≠ .pass ∧ blank line.verdict.2 then broken ++ [wording line]
          else broken) ++
          (unexplained lines).map wording = broken ++ (unexplained (line :: lines)).map
            wording := by
      rw [unexplained, unexplained, List.filter_cons]
      by_cases hnone : line.verdict.1 ≠ .pass ∧ blank line.verdict.2 = true
      · rw [if_pos hnone, if_pos (decide_eq_true hnone), List.map_cons, List.append_assoc]
        rfl
      · rw [if_neg hnone, if_neg (by simpa using hnone)]
    rw [List.foldl_cons, folded]
    dsimp only
    rw [ih, published_cons]
    dsimp only
    rw [hcounted, hmoved, hunexplained fun line => line.scope ++
      " was not delivered and gave no reason".toList]

/-- **What a tick makes of its lines.** -/
theorem concluded_eq (G : Gauge S) (elapsed : Nat) (now : Int) (lines : List Line) (s : Storm) :
    concluded G elapsed now lines s =
      let pairs := (published now lines (s.standings, (Snapshot.new : S))).2
      let s' : Storm := { s with
        lastTick := elapsed
        delivered := s.delivered + lines.countP (·.outcome = .delivered)
        movedBytes := s.movedBytes + moved lines
        standings := (published now lines (s.standings, (Snapshot.new : S))).1
        panics := s.panics + lines.countP Line.panicked }
      let broken := brokenBy G elapsed lines pairs s
      (s'.recordCounts now (Snapshot.recordHealth (s'.tickRecord G broken now) pairs),
        { s' with broken }) := by
  rw [concluded, foldl_folded]
  dsimp only
  -- what is written of the tick itself is appended to what the lines broke
  have hbroken (kept : List Text) (slow panicked : Prop) [Decidable slow] [Decidable panicked]
    (late unwell : Text) :
      (if panicked then (if slow then kept ++ [late] else kept) ++ [unwell] else if slow then
        kept ++ [late] else kept) =
        kept ++ (if slow then [late] else []) ++ if panicked then [unwell] else [] := by
    split_ifs <;> simp
  rw [hbroken, List.nil_append]
  rfl

/-! ### Over a run -/

variable {E : Rig} {G : Gauge S} {caught : Caught} {elapsed : Nat} {now : Int} {s s' : Storm}
    {snapshot : S}
  {before : List Line}

/-- Whatever order the workers took the pairs in, the lines concluded are the pairs' own. -/
theorem Ticked.concluded_eq (h : Ticked E G caught elapsed now s snapshot s') :
    s.next.concluded G elapsed now (s.next.lines caught) = (snapshot, s') := by
  obtain ⟨steps, p, hrun, hended, hconcluded⟩ := h.drove
  obtain ⟨-, -, hall⟩ := Workers.drive_each hrun
  rwa [(hall hended).2] at hconcluded

/-- What the pairs of a round published, before the tick judged itself. -/
def pairs (now : Int) (caught : Caught) (s : Storm) : (AList fun _ : Text => Standing) × S :=
  published now (s.next.lines caught) (s.standings, Snapshot.new)

/-- What a tick leaves of the storm, and publishes. -/
structure Left (G : Gauge S) (caught : Caught) (elapsed : Nat) (now : Int) (s : Storm)
    (snapshot : S) (s' : Storm) :
    Prop where
  node : s'.node = s.node
  standings : s'.standings = (pairs now caught s : _ × S).1
  delivered : s'.delivered = s.delivered + (s.next.lines caught).countP (·.outcome = .delivered)
  movedBytes : s'.movedBytes = s.movedBytes + moved (s.next.lines caught)
  panics : s'.panics = s.panics + (s.next.lines caught).countP Line.panicked
  broken : s'.broken = brokenBy G elapsed (s.next.lines caught) (pairs now caught s : _ × S).2
    s.next
  snapshot : snapshot =
    s'.recordCounts now
      (Snapshot.recordHealth (s'.tickRecord G s'.broken now) (pairs now caught s : _ × S).2)

theorem Ticked.left (h : Ticked E G caught elapsed now s snapshot s') :
    Left G caught elapsed now s snapshot s' := by
  have heq := h.concluded_eq
  rw [Storm.concluded_eq] at heq
  obtain ⟨rfl, rfl⟩ := Prod.mk.inj heq
  exact ⟨rfl, rfl, rfl, rfl, rfl, rfl, rfl⟩

/-- What a round's standings come to, from a table that tells what was said before it. -/
theorem reported_published (hkeeps : Snapshot.Keeps S) {table : AList fun _ : Text => Standing}
    {history : List (Text × (Mark × Text))} (htells : Tells Standing.fold .default table history)
    (now : Int)
    (lines : List Line) :
    Tells Standing.fold .default (published now lines (table, (Snapshot.new : S))).1
      (history ++ lines.map Line.entry) ∧
      ∀ x, x ∈ Snapshot.healthRecords (published now lines (table, (Snapshot.new : S))).2 ↔
        x.scope ∈ lines.map Line.scope ∧
          x = (Standing.ofRounds (saidOf x.scope (history ++ lines.map Line.entry))).health x.scope
            now := by
  have hscopes : (lines.map Line.entry).map Prod.fst = lines.map Line.scope := by
    rw [List.map_map]
    rfl
  have hpublished := publish_tells hkeeps htells now (lines.map Line.entry)
  rwa [hscopes] at hpublished

private theorem moved_append (lines more : List Line) :
    moved (lines ++ more) = moved lines + moved more := by
  rw [moved, List.map_append, List.sum_append]
  rfl

/-- **What is kept over a run**: of each scope all that was said of it, and how many lines were
delivered and panicked. -/
theorem Weathered.sums (hkeeps : Snapshot.Keeps S) (h : Weathered E G s before) :
    Tells Standing.fold .default s.standings (before.map Line.entry) ∧
      s.delivered = before.countP (·.outcome = .delivered) ∧ s.movedBytes = moved before ∧
      s.panics = before.countP Line.panicked := by
  induction h with
  | new hstandings hdelivered hmoved hpanics =>
    rw [hstandings]
    exact ⟨tells_empty, hdelivered, hmoved, hpanics⟩
  | tick _ ticked ih =>
    obtain ⟨htells, hdelivered, hmoved, hpanics⟩ := ih
    have hleft := ticked.left
    refine ⟨?_, ?_, ?_, ?_⟩
    · rw [hleft.standings, List.map_append]
      exact (reported_published hkeeps htells _ _).1
    · rw [hleft.delivered, hdelivered, List.countP_append]
    · rw [hleft.movedBytes, hmoved, moved_append]
    · rw [hleft.panics, hpanics, List.countP_append]

/-- The lines of a round are at the scopes of its pairs. -/
theorem scope_judge (caught : Caught) (s : Storm) (pair : Text × Contract) :
    (s.judge caught pair).scope = pairScope s.node pair := by
  rw [judge]
  cases caught pair with
  | error message => rfl
  | ok came =>
    dsimp only
    cases s.fault pair with
    | none => rfl
    | some fault => rfl

private theorem mem_scopes_lines {caught : Caught} {s : Storm} {scope : Text} :
    scope ∈ (s.lines caught).map Line.scope ↔
    ∃ pair ∈ allPairs s.transports, scope = pairScope s.node pair := by
  rw [lines, List.map_map, List.mem_map]
  simp only [Function.comp_apply, scope_judge, eq_comm]

/-- The storm's own leaf is no pair's. -/
theorem tick_ne_pairScope (node : Text) (pair : Text × Contract) :
    node ++ "/tick".toList ≠ pairScope node pair := by
  intro h
  rw [pairScope, List.append_assoc] at h
  have htick : "tick".toList = pair.1 ++ '/' :: pair.2.name :=
    (List.cons_inj_right '/').mp (List.append_cancel_left h)
  have hslash : '/' ∈ "tick".toList := by
    rw [htick]
    exact List.mem_append_right _ List.mem_cons_self
  exact absurd hslash (by decide)

/-- **What a run publishes.** Each pair's leaf is its standing over all its rounds, beside it stands
the storm's own, and no other; what is counted is what was delivered over the run; and the storm's
own leaf is fine just where its tick broke nothing. -/
theorem weathered_tells (hkeeps : Snapshot.Keeps S) (hweathered : Weathered E G s before)
    (hticked : Ticked E G caught elapsed now s snapshot s') :
    let all := before ++ s.next.lines caught
    let leaf := s'.tickRecord G s'.broken now
    (∀ x, x ∈ Snapshot.healthRecords snapshot ↔ x = leaf ∨ ∃ pair ∈ allPairs s.transports,
      x = (Standing.ofRounds (saidOf (pairScope s.node pair) (all.map Line.entry))).health
        (pairScope s.node pair) now) ∧
    (∀ c, c ∈ Snapshot.allCounts snapshot ↔
      c = ⟨s.node, .streams, all.countP (·.outcome = .delivered), now, now, now⟩ ∨
        c = ⟨s.node, .bytes, moved all, now, now, now⟩) ∧
    s'.panics = all.countP Line.panicked ∧ (leaf.health = .fine ↔ s'.broken = []) := by
  intro all leaf
  obtain ⟨htells, -⟩ := hweathered.sums hkeeps
  obtain ⟨-, hdelivered, hmoved, hpanics⟩ := (hweathered.tick hticked).sums hkeeps
  have hleft := hticked.left
  have hsnapshot := hleft.snapshot
  rw [recordCounts, List.foldl_cons, List.foldl_cons, List.foldl_nil, hdelivered, hmoved,
    hleft.node] at hsnapshot
  obtain ⟨-, hpairs⟩ := reported_published hkeeps htells now (s.next.lines caught)
  refine ⟨fun x => ?_, fun c => ?_, hpanics, ?_⟩
  · rw [hsnapshot, hkeeps.health_recordCount, hkeeps.health_recordCount, hkeeps.health.mem_record]
    -- Beside the pairs' leaves stands the storm's own, at a scope of its own.
    apply or_congr_right
    rw [pairs, hpairs, mem_scopes_lines, ← List.map_append]
    have hleaf : leaf.scope = s.node ++ "/tick".toList := congrArg (· ++ "/tick".toList) hleft.node
    constructor
    · rintro ⟨⟨⟨pair, hpair, hscope⟩, hx⟩, -⟩
      rw [hscope] at hx
      exact ⟨pair, hpair, hx⟩
    · rintro ⟨pair, hpair, rfl⟩
      exact ⟨⟨⟨pair, hpair, rfl⟩, rfl⟩,
        fun heq => tick_ne_pairScope s.node pair (hleaf.symm.trans heq.symm)⟩
  · rw [hsnapshot, hkeeps.counts.mem_record, hkeeps.counts.mem_record, hkeeps.counts_recordHealth]
    have hnone : Snapshot.allCounts (pairs now caught s : _ × S).2 = [] :=
      allCounts_publish hkeeps _ _ _
    rw [hnone]
    constructor
    · rintro (rfl | ⟨rfl | ⟨hnil, -⟩, -⟩)
      · exact .inr rfl
      · exact .inl rfl
      · exact absurd hnil List.not_mem_nil
    · rintro (rfl | rfl)
      · exact .inr ⟨.inl rfl, fun heq => absurd (congrArg Prod.snd heq) nofun⟩
      · exact .inl rfl
  · change (s'.tickRecord G s'.broken now).health = .fine ↔ _
    rw [tickRecord]
    dsimp only
    split_ifs with hbroken
    · exact iff_of_true rfl hbroken
    · exact iff_of_false nofun hbroken

/-! ### What breaks a tick -/

/-- What is read beneath a scope is what was recorded at it or beneath it. -/
def Lists (S : Type) [Snapshot S] : Prop :=
  ∀ (scope : Text) (snapshot : S) (x : HealthRecord), x ∈ Snapshot.health scope snapshot ↔
    x ∈ Snapshot.healthRecords snapshot ∧ (x.scope = scope ∨ scope ++ ['/'] <+: x.scope)

/-- A rollup that tells the truth: none of no records, and fine just of records that are all
fine. -/
structure Honest (G : Gauge S) : Prop where
  none : ∀ node snapshot, G.worst node snapshot = none → Snapshot.health node snapshot = []
  fine : ∀ node snapshot health, G.worst node snapshot = some health →
    (health = .fine ↔ ∀ x ∈ Snapshot.health node snapshot, x.health = .fine)

/-- An exchange neither panicked nor, unless a fault was laid over it, was left undelivered without
saying why. -/
def Explained (caught : Caught) (s : Storm) (pair : Text × Contract) : Prop :=
  ∃ r, caught pair = .ok r ∧ (s.fault pair = none → match r.1 with
    | .delivered => True
    | .oneSided why => blank why = false
    | .failed why => blank why = false)

/-- A text with a letter in it can be read. -/
theorem blank_eq_false {t : Text} {c : Char} (hc : c ∈ t) (hblack : isWhitespace c = false) :
    blank t = false := by
  rw [blank, List.isEmpty_eq_false_iff, trim, Ne, List.rdropWhile_eq_nil_iff]
  intro hall
  rw [← List.takeWhile_append_dropWhile (p := isWhitespace) (l := t), List.mem_append] at hc
  have hwhite : isWhitespace c = true := hc.elim List.mem_takeWhile_imp (hall c)
  exact Bool.false_ne_true (hblack.symm.trans hwhite)

private theorem blank_evidence (fault : Fault) : blank fault.evidence = false := by
  refine blank_eq_false (c := 'f') ?_ (by decide)
  exact List.mem_append_left _ (List.mem_append_right _ (by decide))

private theorem blank_delivered (bytes : Nat) :
    blank (decimal bytes ++ " bytes out and back".toList) = false :=
  blank_eq_false (c := 'b') (List.mem_append_right _ (by decide)) (by decide)

/-- A pair's line neither panicked nor lacks a reason just where its exchange is explained. -/
theorem explained_iff (caught : Caught) (s : Storm) (pair : Text × Contract) :
    Explained caught s pair ↔ (s.judge caught pair).panicked = false ∧
      ((s.judge caught pair).verdict.1 = .pass ∨ blank (s.judge caught pair).verdict.2 =
        false) := by
  rw [Explained, judge]
  cases hcaught : caught pair with
  -- a panic explains nothing
  | error message => exact iff_of_false nofun fun h => Bool.false_ne_true h.1.symm
  | ok came =>
    obtain ⟨outcome, bytes⟩ := came
    dsimp only
    cases hfault : s.fault pair with
    -- a fault struck carries its evidence
    | some fault => exact iff_of_true ⟨_, rfl, nofun⟩ ⟨rfl, .inr (blank_evidence fault)⟩
    | none =>
      cases outcome with
      | delivered => exact iff_of_true ⟨_, rfl, fun _ => trivial⟩ ⟨rfl, .inl rfl⟩
      -- without a fault, what the exchange came to is what its line shows
      | oneSided why =>
        refine ⟨fun ⟨r, heq, h⟩ => ⟨rfl, .inr ?_⟩,
          fun h => ⟨_, rfl, fun _ => h.2.resolve_left nofun⟩⟩
        obtain rfl := Except.ok.inj heq
        exact h rfl
      | failed why =>
        refine ⟨fun ⟨r, heq, h⟩ => ⟨rfl, .inr ?_⟩,
          fun h => ⟨_, rfl, fun _ => h.2.resolve_left nofun⟩⟩
        obtain rfl := Except.ok.inj heq
        exact h rfl

/-- Under an honest rollup the invariants break just where a record that is not fine lacks a
reason. -/
theorem violations_eq_nil_iff (hhonest : Honest G) (snapshot : S) (node : Text) :
    violations G snapshot node = [] ↔
      ∀ x ∈ Snapshot.health node snapshot, x.health ≠ .fine → blank x.evidence = false := by
  -- of the records that are not fine each gives its reason
  have hfound : ((Snapshot.health node snapshot).filter fun r => r.health ≠ .fine ∧
    blank r.evidence).map (fun r =>
      r.scope ++ " is ".toList ++ r.health.debug ++ " with no reason".toList) = [] ↔
      ∀ x ∈ Snapshot.health node snapshot, x.health ≠ .fine → blank x.evidence = false := by
    rw [List.map_eq_nil_iff, List.filter_eq_nil_iff]
    simp only [decide_eq_true_eq, not_and, Bool.not_eq_true]
  have htrouble : ((Snapshot.health node snapshot).any fun r => r.health ≠ .fine) = false ↔
      ∀ x ∈ Snapshot.health node snapshot, x.health = .fine := by
    rw [List.any_eq_false]
    simp only [decide_eq_true_eq, not_not]
  -- the rollup's word has to be the records' own
  rw [violations, ← hfound]
  cases hworst : G.worst node snapshot with
  | none =>
    -- nothing beneath: the rollup tells nothing and so breaks nothing
    rw [hhonest.none node snapshot hworst]
    exact Iff.rfl
  | some health =>
    have hfine := hhonest.fine node snapshot health hworst
    by_cases hhealth : health = .fine
    · subst hhealth
      rw [htrouble.mpr (hfine.mp rfl)]
      exact Iff.rfl
    · -- the rollup is not fine, so some record beneath is not either
      have hsome : ((Snapshot.health node snapshot).any fun r => r.health ≠ .fine) = true := by
        rw [← Bool.not_eq_false, htrouble]
        intro hall
        exact hhealth (hfine.mpr hall)
      cases health with
      | fine => exact absurd rfl hhealth
      | _ =>
        rw [hsome]
        exact Iff.rfl

/-- What the last line of a scope says is what its standing says. -/
theorem evidence_told (rounds : List (Mark × Text)) (one : Mark × Text) (scope : Text) (now : Int) :
    ((Standing.ofRounds (rounds ++ [one])).health scope now).evidence = one.2 := by
  rw [Standing.health_ofRounds]

/-- What was last said of a scope in a round is what one of its lines says. -/
theorem exists_saidOf_last {lines : List Line} {scope : Text} (h : scope ∈ lines.map Line.scope) :
    ∃ line ∈ lines, ∃ rounds, saidOf scope (lines.map Line.entry) = rounds ++ [line.verdict] := by
  obtain hnone | ⟨rounds, one, heq⟩ := List.eq_nil_or_concat' (saidOf scope (lines.map Line.entry))
  · rw [saidOf_eq_nil, List.map_map] at hnone
    exact absurd h hnone
  · have hone : one ∈ saidOf scope (lines.map Line.entry) :=
      heq ▸ List.mem_append_right _ (List.mem_singleton_self one)
    obtain ⟨entry, hentry, rfl⟩ := List.mem_map.mp hone
    obtain ⟨line, hline, rfl⟩ := List.mem_map.mp (List.mem_filter.mp hentry).1
    exact ⟨line, hline, rounds, heq⟩

private theorem blank_of_pass {line : Line} (h : line.verdict.1 = .pass) :
    blank line.verdict.2 = false := by
  obtain ⟨scope, outcome, bytes, panicked⟩ := line
  cases outcome with
  | delivered => exact blank_delivered bytes
  | oneSided why => cases h
  | failed why => cases h

/-- **Exactly when a tick breaks nothing**: every pair's exchange is explained, and the tick kept to
its budget. -/
theorem broken_eq_nil_iff (hkeeps : Snapshot.Keeps S) (hlists : Lists S) (hhonest : Honest G)
    (hweathered : Weathered E G s before) (hticked : Ticked E G caught elapsed now s snapshot s') :
    s'.broken = [] ↔ (∀ pair ∈ allPairs s.transports, Explained caught s.next pair) ∧
    elapsed ≤ s.budget G := by
  obtain ⟨htells, -⟩ := hweathered.sums hkeeps
  have hpairs := (reported_published hkeeps htells now (s.next.lines caught)).2
  have hexplained : (∀ pair ∈ allPairs s.transports, Explained caught s.next pair) ↔
      (s.next.lines caught).countP Line.panicked = 0 ∧ unexplained (s.next.lines caught) = [] := by
    simp only [explained_iff]
    rw [List.countP_eq_zero, unexplained, List.filter_eq_nil_iff, lines]
    simp only [List.forall_mem_map, decide_eq_true_eq, not_and, Bool.not_eq_true, ne_eq]
    exact
      ⟨fun h => ⟨fun pair hpair => (h pair hpair).1,
        fun pair hpair hmark => (h pair hpair).2.resolve_left hmark⟩,
      fun h pair hpair => ⟨h.1 pair hpair, or_iff_not_imp_left.mpr (h.2 pair hpair)⟩⟩
  -- A leaf that is not fine says what its pair's line of this round says.
  have hviolations (hsaid : unexplained (s.next.lines caught) = []) :
      violations G (pairs now caught s : _ × S).2 s.next.node = [] := by
    rw [violations_eq_nil_iff hhonest]
    intro x hx _
    obtain ⟨hscope, heq⟩ := (hpairs x).mp ((hlists _ _ _).mp hx).1
    obtain ⟨line, hline, rounds, hrounds⟩ := exists_saidOf_last hscope
    rw [saidOf_append, hrounds, ← List.append_assoc] at heq
    rw [heq, evidence_told]
    by_contra hblank
    -- Its line gives a reason, or was delivered and says what moved.
    have hpass : line.verdict.1 = .pass := by
      by_contra hmark
      have hmem : line ∈ unexplained (s.next.lines caught) :=
        List.mem_filter.mpr ⟨hline, decide_eq_true ⟨hmark, (Bool.not_eq_false _).mp hblank⟩⟩
      rw [hsaid] at hmem
      exact List.not_mem_nil hmem
    exact hblank (blank_of_pass hpass)
  have hless : (if s.next.budget G < elapsed then
      ["the tick took ".toList ++ G.shown elapsed ++ ", over its budget of ".toList ++
        G.shown (s.next.budget G)]
      else []) = [] ↔ elapsed ≤ s.budget G := by
    rw [ite_eq_right_iff, ← not_lt]
    exact ⟨fun h hlt => List.cons_ne_nil _ _ (h hlt), fun h hlt => absurd hlt h⟩
  have hpanicked : (if 0 < (s.next.lines caught).countP Line.panicked then
      [decimal ((s.next.lines caught).countP Line.panicked) ++
        " pair(s) panicked this round".toList] else []) = [] ↔
      (s.next.lines caught).countP Line.panicked = 0 := by
    rw [ite_eq_right_iff]
    exact ⟨fun h => Nat.eq_zero_of_not_pos fun hpos => List.cons_ne_nil _ _ (h hpos),
      fun h hpos => absurd h hpos.ne'⟩
  rw [hticked.left.broken, brokenBy, hexplained, List.append_eq_nil_iff, List.append_eq_nil_iff,
    List.append_eq_nil_iff, List.map_eq_nil_iff, hless, hpanicked]
  exact ⟨fun ⟨⟨⟨hsaid, _⟩, hin⟩, hnone⟩ => ⟨⟨hnone, hsaid⟩, hin⟩,
    fun ⟨⟨hnone, hsaid⟩, hin⟩ => ⟨⟨⟨hsaid, hviolations hsaid⟩, hin⟩, hnone⟩⟩

/-! ### A storm of one transport -/

/-- The plainest rollup of lists of records: fine of records that are, holding of any other. -/
def plainGauge : Gauge Records where
  worst node snapshot :=
    if (Snapshot.health node snapshot).isEmpty then none
    else if ∀ x ∈ Snapshot.health node snapshot, x.health = .fine then some .fine else some .holding
  timeout := 1
  cores := ⟨1, Nat.one_pos⟩
  shown := decimal

private theorem lists_records : Lists Records := by
  intro scope snapshot x
  change x ∈ (snapshot.health.all.filter (Records.beneath scope)).insertionSort Records.worse ↔ _
  rw [List.mem_insertionSort, List.mem_filter, Records.beneath, decide_eq_true_eq]
  rfl

private theorem honest_plainGauge : Honest plainGauge where
  none node snapshot h := by
    by_contra hsome
    have hempty : (Snapshot.health node snapshot).isEmpty = false :=
      List.isEmpty_eq_false_iff.mpr hsome
    rw [plainGauge] at h
    dsimp only at h
    rw [hempty, if_neg Bool.false_ne_true] at h
    split_ifs at h
  fine node snapshot health h := by
    rw [plainGauge] at h
    dsimp only at h
    split_ifs at h with hempty hall
    · exact iff_of_true (Option.some.inj h).symm hall
    · exact iff_of_false (fun hfine => nomatch (Option.some.inj h).trans hfine) hall

/-- A new storm over one transport. -/
def oneTransport : Storm := new ['n'] [['t']]

/-- Every exchange panics. -/
def panicking : Caught := fun _ => .error "blew up".toList

/-- Every exchange of the first tick gives back its payload. -/
def delivering : Caught := fun pair =>
  .ok (.delivered, (plainEstate.rig.payload pair.2
    (oneTransport.stress.sizeFor oneTransport.next.round)).length)

/-- A round whose transport gives back the payload can come to a delivery of it. -/
theorem comes_delivered (transport : Text) (contract : Contract) (payload : List UInt8) :
    (plainEstate.rig.roundTripWith transport contract payload).Comes
      (.delivered, payload.length) := by
  refine Prog.runs_bind.mpr ⟨.ok payload, (), ?_, .pure⟩
  refine Prog.runs_perform_bind.mpr ⟨none, (), trivial, ?_⟩
  refine Prog.runs_perform_bind.mpr ⟨.returned payload, (), trivial, ?_⟩
  dsimp only
  rw [if_pos rfl]
  exact .pure

/-- A first tick of the storm, whatever its exchanges can have come to. -/
theorem exists_ticked {caught : Caught} (elapsed : Nat)
    (hcame : ∀ pair r, caught pair = .ok r → (plainEstate.rig.roundTripWith pair.1 pair.2
      (plainEstate.rig.payload pair.2
        (oneTransport.stress.sizeFor oneTransport.next.round))).Comes r) :
    ∃ (snapshot : Records) (s' : Storm),
      Ticked plainEstate.rig plainGauge caught elapsed 1 oneTransport snapshot s' := by
  obtain ⟨steps, p, hrun, hended⟩ := Workers.exists_ended (allPairs [['t']])
    (oneTransport.next.judge caught) (oneTransport.stress.workers plainGauge.cores)
  exact ⟨_, _, hcame, steps, p, hrun, hended, rfl⟩

private theorem exists_panicking : ∃ (snapshot : Records) (s' : Storm),
    Ticked plainEstate.rig plainGauge panicking 0 1 oneTransport snapshot s' :=
  exists_ticked 0 fun _ _ h => absurd h nofun

private theorem exists_delivering (elapsed : Nat) : ∃ (snapshot : Records) (s' : Storm),
    Ticked plainEstate.rig plainGauge delivering elapsed 1 oneTransport snapshot s' :=
  exists_ticked elapsed fun pair _ h => Except.ok.inj h ▸ comes_delivered pair.1 pair.2 _

/-- Each pair of a storm that panics stands done, at its own scope. -/
theorem weathered_tells_panicking : ∃ (snapshot : Records) (s' : Storm), s'.panics = 20 ∧
    ∀ contract, ∃ x ∈ Snapshot.healthRecords snapshot, x.scope =
      pairScope ['n'] (['t'], contract) := by
  obtain ⟨snapshot, s', hticked⟩ := exists_panicking
  obtain ⟨hhealth, -, hpanics, -⟩ := weathered_tells Records.keeps (.new rfl rfl rfl rfl) hticked
  refine ⟨snapshot, s', hpanics.trans (by decide), fun contract => ?_⟩
  exact ⟨_, (hhealth _).mpr (.inr ⟨(['t'], contract), by cases contract <;> decide, rfl⟩), rfl⟩

/-- A storm that delivers in time breaks nothing; one that panics is not explained, and one that
delivers too late is over its budget, and each breaks its tick. -/
theorem broken_eq_nil_iff_thrice :
    (∃ (snapshot : Records) (s' : Storm),
      Ticked plainEstate.rig plainGauge delivering 0 1 oneTransport snapshot s' ∧
      s'.broken = []) ∧
    (∃ (snapshot : Records) (s' : Storm),
      Ticked plainEstate.rig plainGauge panicking 0 1 oneTransport snapshot s' ∧
      s'.broken ≠ [] ∧ ¬Explained panicking oneTransport.next (['t'], .bytes) ∧
      0 ≤ oneTransport.budget plainGauge) ∧
    ∃ (snapshot : Records) (s' : Storm),
      Ticked plainEstate.rig plainGauge delivering (oneTransport.budget plainGauge + 1) 1
        oneTransport snapshot s' ∧
      s'.broken ≠ [] ∧ ∀ pair, Explained delivering oneTransport.next pair := by
  have hexplained (pair : Text × Contract) : Explained delivering oneTransport.next pair :=
    -- every exchange delivers, so every line explains itself
    ⟨_, rfl, fun _ => trivial⟩
  have hpanicked (pair : Text × Contract) : ¬Explained panicking oneTransport.next pair :=
    fun ⟨_, hr, _⟩ => nomatch hr
  refine ⟨?_, ?_, ?_⟩
  · -- delivered in time: nothing is broken
    obtain ⟨snapshot, s', hticked⟩ := exists_delivering 0
    exact ⟨snapshot, s', hticked, (broken_eq_nil_iff Records.keeps lists_records
      honest_plainGauge (.new rfl rfl rfl rfl) hticked).mpr
        ⟨fun pair _ => hexplained pair, Nat.zero_le _⟩⟩
  · -- one panicked: the pair's line does not explain itself
    obtain ⟨snapshot, s', hticked⟩ := exists_panicking
    refine ⟨snapshot, s', hticked, fun hnil => ?_, hpanicked _, Nat.zero_le _⟩
    have hall := ((broken_eq_nil_iff Records.keeps lists_records honest_plainGauge
      (.new rfl rfl rfl rfl) hticked).mp hnil).1
    exact hpanicked _ (hall (['t'], .bytes) (by decide))
  · -- delivered, but a microsecond past the budget
    obtain ⟨snapshot, s', hticked⟩ := exists_delivering (oneTransport.budget plainGauge + 1)
    refine ⟨snapshot, s', hticked, fun hnil => ?_, hexplained⟩
    exact Nat.not_succ_le_self _ ((broken_eq_nil_iff Records.keeps lists_records
      honest_plainGauge (.new rfl rfl rfl rfl) hticked).mp hnil).2

end Storm

end XmipEssentials
