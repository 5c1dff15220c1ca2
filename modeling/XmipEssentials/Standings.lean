import XmipEssentials.FairRotation
import XmipEssentials.Lib.Tabled
import XmipEssentials.MovedBytes

/-!
# What a standing says of every round

A standing keeps three things of the rounds it was told of: how many failed, how the last went, and
the last's line. So what it publishes is settled by the last round and by whether one before it
failed (`Standing.health_ofRounds`).

The tests that keep a standing to a pair keep them in one table, by scope. The heavy-load test
carries a slice of its pairs a round and publishes the whole table each time. Over any number of
rounds what it publishes is, of each pair it carried so far, the standing over all the pair's
rounds, whichever rounds those were; and once as many rounds went by as the bound asks for, that is
every pair (`HeavyLoad.board_tells`). What carries it is that one pair has one scope
(`pairScope_inj`), that a round says of a pair's scope just what its load came to
(`exists_turned`), and that a table tells its history (`Tabled.Tells`).
-/

namespace XmipEssentials

open Text Conc Tabled

/-! ### A scope's rounds -/

namespace Standing

/-- One round's mark and line folded in. -/
def fold (s : Standing) (one : Mark × Text) : Standing := s.record one.1 one.2

/-- The standing of a scope after these rounds. -/
def ofRounds (rounds : List (Mark × Text)) : Standing := rounds.foldl fold default

/-- How a scope stands, and how severely, by its last round and whether one before it failed. -/
def read (failed : Bool) : Mark → Health × Nat
  | .pass => if failed then (.stressed, 45) else (.fine, 0)
  | .warn => (.stressed, 40)
  | .fail => (.done, 90)

private theorem ofRounds_append (rounds : List (Mark × Text)) (one : Mark × Text) :
    ofRounds (rounds ++ [one]) = (ofRounds rounds).record one.1 one.2 := by
  rw [ofRounds, List.foldl_append]
  rfl

private theorem failures_ofRounds (rounds : List (Mark × Text)) :
    (ofRounds rounds).failures = rounds.countP fun one => one.1 = .fail := by
  induction rounds using List.reverseRecOn with
  | nil => rfl
  | append_singleton rounds one ih =>
    rw [ofRounds_append, List.countP_append, List.countP_singleton, record, ih]
    by_cases hfail : one.1 = .fail
    · rw [if_pos hfail, if_pos (decide_eq_true hfail)]
    · rw [if_neg hfail, if_neg (by simpa using hfail)]
      rfl

/-- **What a standing publishes** is settled by the last round, and by whether one before it
failed. -/
theorem health_ofRounds (rounds : List (Mark × Text)) (one : Mark × Text) (scope : Text)
    (now : Int) :
    (ofRounds (rounds ++ [one])).health scope now =
      let (health, severity) := read (rounds.any fun before => before.1 = .fail) one.1
      ⟨scope, health, severity, one.2, now⟩ := by
  obtain ⟨mark, line⟩ := one
  have hfailures := failures_ofRounds (rounds ++ [(mark, line)])
  -- clean so far: none of the rounds before failed
  have hclean : (rounds.countP fun before => before.1 = .fail) = 0 ↔
      (rounds.any fun before => before.1 = .fail) = false := by
    rw [List.countP_eq_zero, List.any_eq_false]
  rw [ofRounds_append] at hfailures ⊢
  rw [List.countP_append, List.countP_singleton] at hfailures
  unfold health
  rw [hfailures]
  -- the mark of the last round decides, and for a pass whether any failed before
  cases mark with
  | pass =>
    simp only [record, read, hclean, decide_true, true_and, if_true, Nat.add_zero, reduceCtorEq,
      if_false, decide_false]
    cases rounds.any fun before => before.1 = .fail with
    | false => rfl
    | true => rfl
  | warn => rfl
  | fail => rfl

/-- A scope every round of which passed is fine. -/
theorem fine_of_pass {rounds : List (Mark × Text)} {scope : Text} {now : Int} (hsome : rounds ≠ [])
    (hpass : ∀ one ∈ rounds, one.1 = .pass) :
    ((ofRounds rounds).health scope now).health = .fine := by
  obtain rfl | ⟨rest, one, rfl⟩ := List.eq_nil_or_concat' rounds
  · exact absurd rfl hsome
  · rw [List.forall_mem_append, List.forall_mem_singleton] at hpass
    have hclean : (rest.any fun before => before.1 = .fail) = false := by
      rw [List.any_eq_false]
      intro before hbefore
      rw [hpass.1 before hbefore]
      decide
    rw [health_ofRounds, hclean, hpass.2]
    rfl

end Standing

/-! ### Standings published as they are folded -/

section Publishing

variable {S : Type} [Snapshot S]

/-- What a round says of its scopes, each folded into its standing and the standing published. -/
def publish (now : Int) (round : List (Text × (Mark × Text)))
    (into : (AList fun _ : Text => Standing) × S) :
    (AList fun _ : Text => Standing) × S :=
  round.foldl (reporting Standing.fold .default (fun scope standing => standing.health scope now)
    Snapshot.recordHealth) into

theorem publish_cons (now : Int) (entry : Text × (Mark × Text))
    (round : List (Text × (Mark × Text))) (table : AList fun _ : Text => Standing) (snapshot : S) :
    publish now (entry :: round) (table, snapshot) =
      let standing := ((table.lookup entry.1).getD .default).record entry.2.1 entry.2.2
      publish now round (table.insert entry.1 standing,
        Snapshot.recordHealth (standing.health entry.1 now) snapshot) := by
  rw [publish, List.foldl_cons, reporting_eq]
  rfl

/-- **What a round publishes**, from a table that tells what was said before it: of each scope it
says something of, the standing over all that was ever said of it. -/
theorem publish_tells (hkeeps : Snapshot.Keeps S) {table : AList fun _ : Text => Standing}
    {history : List (Text × (Mark × Text))} (htells : Tells Standing.fold .default table history)
    (now : Int)
    (round : List (Text × (Mark × Text))) :
    Tells Standing.fold .default (publish now round (table, (Snapshot.new : S))).1
      (history ++ round) ∧
      ∀ x, x ∈ Snapshot.healthRecords (publish now round (table, (Snapshot.new : S))).2 ↔
        x.scope ∈ round.map Prod.fst ∧
        x = (Standing.ofRounds (saidOf x.scope (history ++ round))).health x.scope now := by
  have hscope (scope : Text) (standing : Standing) : (standing.health scope now).scope = scope :=
    rfl
  obtain ⟨hall, hmem⟩ := htells.reported hkeeps.health hscope round (Snapshot.new : S)
  refine ⟨hall, fun x => (hmem x).trans ?_⟩
  rw [hkeeps.health_new]
  split_ifs with hscope
  · exact (and_iff_right hscope).symm
  · exact iff_of_false List.not_mem_nil fun h => hscope h.1

/-- What is counted is kept elsewhere. -/
theorem allCounts_publish (hkeeps : Snapshot.Keeps S) (now : Int)
    (round : List (Text × (Mark × Text))) (table : AList fun _ : Text => Standing) :
    Snapshot.allCounts (publish now round (table, (Snapshot.new : S))).2 = [] :=
  (foldl_reporting_unchanged _ _ _ _ hkeeps.counts_recordHealth _ _).trans hkeeps.counts_new

end Publishing

/-! ### A pair's scope -/

/-- The scope a test publishes a pair under. -/
def pairScope (node : Text) (pair : Text × Contract) : Text :=
  node ++ '/' :: pair.1 ++ '/' :: pair.2.name

private theorem slash_not_mem_name (c : Contract) : '/' ∉ c.name := by
  intro h
  rcases c.name_plain '/' h with hlower | hdigit | heq
  · exact absurd hlower (by decide)
  · exact absurd hdigit (by decide)
  · exact absurd heq (by decide)

/-- **One pair has one scope**, whatever its transport is called. -/
theorem pairScope_inj {node : Text} {pair pair' : Text × Contract}
    (h : pairScope node pair = pairScope node pair') :
    pair = pair' := by
  obtain ⟨transport, contract⟩ := pair
  obtain ⟨transport', contract'⟩ := pair'
  have hsplit := congrArg (rsplitOnce '/') h
  -- A contract's name has no slash, so the last one of the scope stands before it.
  rw [pairScope, pairScope, rsplitOnce_append (slash_not_mem_name contract),
    rsplitOnce_append (slash_not_mem_name contract'), Option.some.injEq, Prod.mk.injEq] at hsplit
  obtain ⟨htransport, hname⟩ := hsplit
  obtain rfl : transport = transport' :=
    (List.cons_inj_right '/').mp (List.append_cancel_left htransport)
  rw [Contract.name_injective hname]

/-- What a history says of pairs, by their scopes. -/
def byScope {ι : Type} (node : Text) (history : List ((Text × Contract) × ι)) : List (Text × ι) :=
  history.map fun entry => (pairScope node entry.1, entry.2)

private theorem byScope_append {ι : Type} (node : Text)
    (history more : List ((Text × Contract) × ι)) :
    byScope node (history ++ more) = byScope node history ++ byScope node more := List.map_append

/-- What is said of a pair's scope is what is said of the pair. -/
theorem saidOf_byScope {ι : Type} (node : Text) (pair : Text × Contract)
    (history : List ((Text × Contract) × ι)) :
    saidOf (pairScope node pair) (byScope node history) = saidOf pair history := by
  induction history with
  | nil => rfl
  | cons entry history ih =>
    rw [byScope, List.map_cons, ← List.singleton_append, saidOf_append,
      ← List.singleton_append (l := history), saidOf_append]
    refine congrArg₂ (· ++ ·) ?_ ih
    obtain ⟨pair', i⟩ := entry
    by_cases hpair : pair' = pair
    · subst hpair
      rw [saidOf_singleton_self, saidOf_singleton_self]
    · have hscope : pairScope node pair' ≠ pairScope node pair :=
        fun hscope => hpair (pairScope_inj hscope)
      rw [saidOf_singleton_of_ne (show (pair', i).1 ≠ pair from hpair),
        saidOf_singleton_of_ne (show (pairScope node pair', i).1 ≠ pairScope node pair from hscope)]

/-! ### The heavy-load test's board -/

namespace HeavyLoad

variable {S : Type} [Snapshot S] {E : Rig} {D : Shown} {h h' : HeavyLoad}

/-- A pair carried in a round, and what came of it. -/
abbrev Turn : Type := (Text × Contract) × Line

/-- What a turn says of its pair. -/
def Turn.entry (turn : Turn) : (Text × Contract) × (Mark × Text) :=
  (turn.1, turn.2.mark, turn.2.evidence)

/-- What so many turns say of their pairs. -/
def log (turns : List Turn) : List ((Text × Contract) × (Mark × Text)) := turns.map Turn.entry

private theorem map_fst_log (turns : List Turn) :
    (log turns).map Prod.fst = turns.map Prod.fst := by
  rw [log, List.map_map]
  rfl

/-- The turns of a round: a pair carried at each of its places, and the table folded over them. -/
structure Turned (E : Rig) (D : Shown) (h : HeavyLoad) (places : List Nat) (turns : List Turn)
    (h' : HeavyLoad) : Prop where
  pairs : turns.map Prod.fst = places.filterMap h.pairAt
  came : ∀ turn ∈ turns, (h.carry E D turn.1.1 turn.1.2).Comes turn.2
  standings : h'.standings = (byScope h.node (log turns)).foldl (enter Standing.fold .default)
    h.standings
  node : h'.node = h.node

/-- **The loads of a round** are one turn after another. -/
theorem exists_turned {places : List Nat} (hcomes : (carryEach E D places h).Comes h') :
    ∃ turns, Turned E D h places turns h' := by
  induction places generalizing h with
  | nil =>
    obtain ⟨rfl, -⟩ := Prog.runs_pure.mp hcomes
    exact ⟨[], rfl, fun _ hturn => absurd hturn List.not_mem_nil, rfl, rfl⟩
  | cons place places ih =>
    unfold carryEach at hcomes
    cases hpair : h.pairAt place with
    | none =>
      rw [hpair] at hcomes
      obtain ⟨turns, hturned⟩ := ih hcomes
      exact ⟨turns, by rw [List.filterMap_cons_none hpair]; exact hturned.pairs, hturned.came,
        hturned.standings, hturned.node⟩
    | some pair =>
      rw [hpair] at hcomes
      obtain ⟨line, _, hline, hrest⟩ := Prog.runs_bind.mp hcomes
      obtain ⟨turns, hturned⟩ := ih hrest
      -- What is recorded of a pair changes nothing that a load is carried by.
      refine ⟨(pair, line) :: turns, ?_, ?_, hturned.standings, hturned.node⟩
      · rw [List.filterMap_cons_some hpair, List.map_cons, hturned.pairs]
        rfl
      · exact List.forall_mem_cons.mpr ⟨hline, hturned.came⟩

/-- **A tick** carries the turns of its places, and publishes what the table then holds. -/
theorem exists_turned_of_tick {snapshot : S} (hcomes : (h.tick E D).Comes (snapshot, h')) :
    ∃ turns now, Turned E D h.next h.next.places turns h' ∧ snapshot = h'.snapshot now := by
  obtain ⟨now, _, -, hrest⟩ := Prog.runs_perform_bind.mp hcomes
  obtain ⟨after, _, hloads, hend⟩ := Prog.runs_bind.mp hrest
  obtain ⟨heq, -⟩ := Prog.runs_pure.mp hend
  obtain ⟨rfl, rfl⟩ := Prod.mk.inj heq
  obtain ⟨turns, hturned⟩ := exists_turned hloads
  exact ⟨turns, now, ⟨hturned.pairs, hturned.came, hturned.standings, hturned.node⟩, rfl⟩

/-- What a round publishes of a table: a record to each scope it holds. -/
theorem mem_snapshot (hkeeps : Snapshot.Keeps S) (now : Int) (x : HealthRecord) :
    x ∈ Snapshot.healthRecords (h.snapshot now : S) ↔
      ∃ scope standing, h.standings.lookup scope = some standing ∧
      x = standing.health scope now := by
  have hrecorded : ∀ (entries : List (Sigma fun _ : Text => Standing)) (s : S),
      entries.foldl (fun s pair => Snapshot.recordHealth (pair.2.health pair.1 now) s) s =
        Keyed.recordAll Snapshot.recordHealth (entries.map fun pair => pair.2.health pair.1 now)
          s := by
    intro entries s
    rw [Keyed.recordAll, List.foldl_map]
  -- no two standings share a scope, so no record replaces another
  have hkeys :
    ((h.standings.entries.map fun pair => pair.2.health pair.1 now).map
      HealthRecord.scope).Nodup := by
    rw [List.map_map]
    exact h.standings.nodupKeys
  rw [HeavyLoad.snapshot, hkeeps.health_recordCount, hrecorded, hkeeps.health.mem_recordAll hkeys,
    hkeeps.health_new, List.mem_map]
  simp only [List.not_mem_nil, false_and, or_false]
  -- what is shown is what the table holds
  constructor
  · rintro ⟨⟨scope, standing⟩, hmem, rfl⟩
    exact ⟨scope, standing, AList.mem_lookup_iff.mpr hmem, rfl⟩
  · rintro ⟨scope, standing, hlookup, rfl⟩
    exact ⟨⟨scope, standing⟩, AList.mem_lookup_iff.mp hlookup, rfl⟩

/-- What a table told of pairs' turns publishes: of each pair that had one, its standing over all
its rounds. -/
theorem mem_snapshot_of_tells (hkeeps : Snapshot.Keeps S) {node : Text} {turns : List Turn}
    (now : Int) (htells : Tells Standing.fold .default h.standings (byScope node (log turns)))
    (x : HealthRecord) :
    x ∈ Snapshot.healthRecords (h.snapshot now : S) ↔
      ∃ pair ∈ turns.map Prod.fst, x = (Standing.ofRounds (saidOf pair (log turns))).health
        (pairScope node pair) now := by
  have hscopes : (byScope node (log turns)).map Prod.fst =
    (turns.map Prod.fst).map (pairScope node) := by
    rw [← map_fst_log, byScope, List.map_map, List.map_map]
    rfl
  rw [mem_snapshot hkeeps]
  simp only [htells.lookup_eq_some, hscopes, List.mem_map (f := pairScope node)]
  constructor
  · rintro ⟨_, _, ⟨⟨pair, hpair, rfl⟩, rfl⟩, rfl⟩
    exact ⟨pair, hpair, by rw [saidOf_byScope, Standing.ofRounds]⟩
  · rintro ⟨pair, hpair, rfl⟩
    exact ⟨pairScope node pair, _, ⟨⟨pair, hpair, rfl⟩, rfl⟩,
      by rw [saidOf_byScope, Standing.ofRounds]⟩

/-- So many ticks of a test that has carried nothing yet, and what each published. -/
structure Board (S : Type) [Snapshot S] (E : Rig) (D : Shown) (bound rounds : Nat)
    (h : Nat → HeavyLoad) (published : Nat → S) : Prop where
  new : (h 0).standings = ∅
  bound_pos : 0 < bound
  perRound : (h 0).perRound = some bound
  pairs : 0 < (h 0).matrix
  start : (h 0).cursor < (h 0).matrix
  ticks : ∀ round < rounds, ((h round).tick E D).Comes (published round, h (round + 1))

/-- The turns of the rounds before one. -/
def before (turns : Nat → List Turn) (round : Nat) : List Turn := (List.range round).flatMap turns

private theorem before_succ (turns : Nat → List Turn) (round : Nat) :
    before turns (round + 1) = before turns round ++ turns round := by
  rw [before, List.range_succ, List.flatMap_append, List.flatMap_singleton]
  rfl

private theorem log_append (turns more : List Turn) : log (turns ++ more) = log turns ++ log more :=
  List.map_append

variable {bound rounds : Nat} {h : Nat → HeavyLoad} {published : Nat → S}

private theorem Board.ran (hboard : Board S E D bound rounds h published) :
    Rounds S E D bound rounds h :=
  ⟨hboard.bound_pos, hboard.perRound, hboard.pairs, hboard.start,
    fun round hlt => ⟨published round, hboard.ticks round hlt⟩⟩

/-- The table tells every turn there was, round after round. -/
theorem Board.tells (hboard : Board S E D bound rounds h published) {turns : Nat → List Turn}
    (hturned : ∀ round < rounds, Turned E D (h round).next (h round).places (turns round)
    (h (round + 1))) :
    ∀ round ≤ rounds, (h round).node = (h 0).node ∧
      Tells Standing.fold .default (h round).standings
        (byScope (h 0).node (log (before turns round))) := by
  intro round
  induction round with
  | zero =>
    refine fun _ => ⟨rfl, ?_⟩
    rw [hboard.new]
    exact tells_empty
  | succ round ih =>
    intro hle
    obtain ⟨hnode, htells⟩ := ih (Nat.le_of_succ_le hle)
    have hround := hturned round hle
    have hsame : (h round).next.node = (h 0).node := hnode
    refine ⟨hround.node.trans hsame, ?_⟩
    -- the round's turns are entered after those of the rounds before
    rw [hround.standings, hsame, before_succ, log_append, byScope_append]
    exact htells.enterAll _

/-- The pair at a place of the matrix is one of all pairs, and each of those is at one. -/
theorem exists_pairAt {h : HeavyLoad} {pair : Text × Contract}
    (hpair : pair ∈ allPairs h.transports) :
    ∃ place < h.matrix, h.pairAt place = some pair := by
  obtain ⟨transport, htransport, hmem⟩ := List.mem_flatMap.mp hpair
  obtain ⟨contract, -, rfl⟩ := List.mem_map.mp hmem
  obtain ⟨row, hrow, rfl⟩ := List.getElem_of_mem htransport
  obtain ⟨column, hcolumn, rfl⟩ := List.getElem_of_mem (Contract.mem_contracts contract)
  refine ⟨row * contracts.length + column, ?_, ?_⟩
  · -- A whole row is as long as the contracts are many.
    have hnext : (row + 1) * contracts.length ≤ h.transports.length * contracts.length :=
      Nat.mul_le_mul_right _ hrow
    rw [Nat.succ_mul] at hnext
    rw [matrix]
    omega
  · have hpos : 0 < contracts.length := Nat.lt_of_le_of_lt (Nat.zero_le _) hcolumn
    rw [pairAt, Nat.mul_comm, Nat.mul_add_div hpos, Nat.div_eq_of_lt hcolumn, Nat.add_zero,
      Nat.mul_add_mod, Nat.mod_eq_of_lt hcolumn, List.getElem?_eq_getElem hrow,
      List.getElem?_eq_getElem hcolumn]
    rfl

/-- **What the board shows over a run.** Each round carries the pairs at its places, publishes of
every pair carried so far its standing over all its rounds and nothing else, and within as many
rounds as go round the matrix has every pair on it. -/
theorem board_tells (hkeeps : Snapshot.Keeps S) (hboard : Board S E D bound rounds h published) :
    ∃ turns : Nat → List Turn,
      (∀ round < rounds, (turns round).map Prod.fst = (h round).places.filterMap (h round).pairAt ∧
        ∀ turn ∈ turns round, ((h round).next.carry E D turn.1.1 turn.1.2).Comes turn.2) ∧
      (∀ round < rounds, ∃ now, ∀ x, x ∈ Snapshot.healthRecords (published round) ↔
        ∃ pair ∈ (before turns (round + 1)).map Prod.fst,
          x = (Standing.ofRounds (saidOf pair (log (before turns (round + 1))))).health
            (pairScope (h 0).node pair) now) ∧
      ∀ round < rounds, (h 0).matrix ⌈/⌉ bound ≤ round + 1 →
        ∀ pair ∈ allPairs (h 0).transports, pair ∈ (before turns (round + 1)).map Prod.fst := by
  have hall (round : Nat) : ∃ turns, round < rounds → ∃ now,
      Turned E D (h round).next (h round).places turns (h (round + 1)) ∧
        published round = (h (round + 1)).snapshot now := by
    by_cases hlt : round < rounds
    · obtain ⟨turns, now, hturned, hpublished⟩ := exists_turned_of_tick (hboard.ticks round hlt)
      exact ⟨turns, fun _ => ⟨now, hturned, hpublished⟩⟩
    · exact ⟨[], fun h => absurd h hlt⟩
  choose turns hturns using hall
  have hturned (round : Nat) (hlt : round < rounds) :
      Turned E D (h round).next (h round).places (turns round) (h (round + 1)) := by
    obtain ⟨now, hturned, -⟩ := hturns round hlt
    exact hturned
  refine ⟨turns, fun round hlt => ⟨(hturned round hlt).pairs, (hturned round hlt).came⟩,
    fun round hlt => ?_, ?_⟩
  · obtain ⟨now, -, hpublished⟩ := hturns round hlt
    obtain ⟨-, htells⟩ := hboard.tells hturned (round + 1) hlt
    exact ⟨now, fun x => by rw [hpublished]; exact mem_snapshot_of_tells hkeeps now htells x⟩
  · intro round hlt hlong pair hpair
    obtain ⟨place, hplace, hat⟩ := exists_pairAt hpair
    have hfair := hboard.ran.fair
    -- Every place has its turn within the first rounds that go round the matrix.
    obtain ⟨turn, -, hturn, hmem⟩ := hfair.turns 0 (by omega) place hplace
    have htransports : (h turn).transports = (h 0).transports :=
      eq_first transports (fun one hone => by
        obtain ⟨snapshot, hcomes⟩ := hboard.ran.next one hone
        exact ((yields_tick E D (h one)).of_comes hcomes).1) turn (by omega)
    have hsame : (h turn).pairAt place = (h 0).pairAt place := by rw [pairAt, pairAt, htransports]
    have hcarried : pair ∈ (turns turn).map Prod.fst := by
      rw [(hturned turn (by omega)).pairs]
      exact List.mem_filterMap.mpr ⟨place, hmem, hsame.trans hat⟩
    rw [before, List.map_flatMap]
    exact List.mem_flatMap.mpr ⟨turn, List.mem_range.mpr (by omega), hcarried⟩

/-- Of twenty pairs seven are carried a round, and the third round has every one of them on its
board. -/
theorem board_tells_third : ∃ (h : Nat → HeavyLoad) (published : Nat → Records),
    Board Records plainEstate.rig ⟨fun _ => [], fun _ _ _ _ => []⟩ 7 3 h published ∧
      ∀ contract, ∃ x ∈ Snapshot.healthRecords (published 2), x.scope =
        pairScope ['n'] (['t'], contract) := by
  -- three rounds of seven pairs: the turn comes round to every one of them
  let first : HeavyLoad := { onePair 64 0 with perRound := some 7 }
  choose ticked hticked using fun h : HeavyLoad => Prog.exists_comes RelayOp.nonempty
    (h.tick plainEstate.rig ⟨fun _ => [], fun _ _ _ _ => []⟩ : Prog RelayOp (Records × HeavyLoad))
  let h : Nat → HeavyLoad := fun round => round.rec first fun _ h => (ticked h).2
  have hboard : Board Records plainEstate.rig ⟨fun _ => [], fun _ _ _ _ => []⟩ 7 3 h fun round =>
    (ticked (h round)).1 :=
    ⟨rfl, by decide, rfl, show 0 < first.matrix by decide,
      show first.cursor < first.matrix by decide, fun round _ => hticked (h round)⟩
  refine ⟨h, _, hboard, fun contract => ?_⟩
  obtain ⟨turns, -, hpublished, hevery⟩ := board_tells Records.keeps hboard
  obtain ⟨now, hall⟩ := hpublished 2 (by decide)
  have hpair : (['t'], contract) ∈ allPairs (h 0).transports :=
    List.mem_flatMap.mpr ⟨['t'], List.mem_singleton_self _,
      List.mem_map.mpr ⟨contract, Contract.mem_contracts contract, rfl⟩⟩
  exact ⟨_, (hall _).mpr ⟨_, hevery 2 (by decide) (show first.matrix ⌈/⌉ 7 ≤ 3 by decide) _ hpair,
    rfl⟩, rfl⟩

end HeavyLoad

end XmipEssentials
