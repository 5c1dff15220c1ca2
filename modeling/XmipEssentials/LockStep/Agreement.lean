import XmipEssentials.LockStep.Crew
import XmipEssentials.Schedule

/-!
# The run across nodes agrees with the run in one process

A tick of a schedule, with nothing failing, adds to each stage's figures what the whole matrix is
worth there (`Schedule.ends_tick_plain`), and so does a round of the cluster's relays in lock step
(`Rounded.tallied`). After as many of either the figures published are the same (`agrees`).
-/

namespace XmipEssentials

open Text Conc Files Inbox

variable {κ S : Type} [Capability κ] [Snapshot S]

/-- What the whole matrix adds to a stage's figure. -/
def tallied (E : Estate) (refusal : Text → List UInt8 → Option Text) (transports : List Text)
    (stage : Stage) (transport : Text) (counted : Counted) : Nat :=
  ((allPairs transports).map (worth E refusal stage stage transport counted)).sum

variable {E : Estate} {refusal : Text → List UInt8 → Option Text} {roster : Roster κ}
    {transports : List Text}
  {own stage : Stage} {transport : Text} {counted : Counted}

/-! ### What a stage takes of the matrix -/

/-- A stage's verdict adds to no other's figures. -/
theorem worth_ne (hne : own ≠ stage) (pair : Text × Contract) :
    worth E refusal own stage transport counted pair = 0 := by
  apply ite_eq_right_iff.mpr
  intro _
  exact if_neg fun hall => hne hall.2.1

private theorem sum_worth_ne (hne : own ≠ stage) (pairs : List (Text × Contract)) :
    (pairs.map (worth E refusal own stage transport counted)).sum = 0 := by
  apply List.sum_eq_zero
  intro n hn
  obtain ⟨pair, -, rfl⟩ := List.mem_map.mp hn
  exact worth_ne hne pair

/-- What is not handed on was worth nothing. -/
theorem sum_worth_handedOn {before : Stage} (hbefore : before ≠ .send)
    (pairs : List (Text × Contract)) :
    ((Relay.handedOn E refusal before pairs).map
      (worth E refusal own stage transport counted)).sum =
      (pairs.map (worth E refusal own stage transport counted)).sum := by
  induction pairs with
  | nil => rfl
  | cons pair pairs ih =>
    rw [List.map_cons, List.sum_cons, ← ih]
    by_cases hconveys : Conveys E refusal pair
    · have hgoes : Relay.handedOn E refusal before (pair :: pairs) =
        pair :: Relay.handedOn E refusal before pairs :=
        List.filter_cons_of_pos (decide_eq_true ⟨hconveys, hbefore⟩)
      rw [hgoes, List.map_cons, List.sum_cons]
    · have hstays : Relay.handedOn E refusal before (pair :: pairs) =
        Relay.handedOn E refusal before pairs :=
        List.filter_cons_of_neg fun hgoes => hconveys (of_decide_eq_true hgoes).1
      have hnothing : worth E refusal own stage transport counted pair = 0 := if_neg hconveys
      rw [hstays, hnothing, Nat.zero_add]

/-- What the matrix is worth at each stage on the way is what it is worth at the stage itself. -/
theorem tallied_eq : tallied E refusal transports stage transport counted =
    ((allPairs transports).map (worth E refusal .receive stage transport counted)).sum +
      ((allPairs transports).map (worth E refusal .process stage transport counted)).sum +
        ((allPairs transports).map (worth E refusal .send stage transport counted)).sum := by
  have helse (own : Stage) (hne : own ≠ stage) :
      ((allPairs transports).map (worth E refusal own stage transport counted)).sum = 0 :=
      sum_worth_ne hne _
  unfold tallied
  cases stage with
  | receive => rw [helse .process (by decide), helse .send (by decide), Nat.add_zero]
  | process => rw [helse .receive (by decide), helse .send (by decide), Nat.zero_add, Nat.add_zero]
  | send => rw [helse .receive (by decide), helse .process (by decide), Nat.zero_add]

omit [Capability κ] in
/-- Handoffs of single words read back as they were. -/
theorem legible_of_word (hnames : ∀ name ∈ roster.names, Handoff.Word name)
    (htransports : ∀ transport ∈ transports, Handoff.Word transport) :
    Legible roster transports := by
  intro handoff back hsender htransport hback
  rw [Handoff.decode_encode (htransports _ htransport) (hnames _ hsender)] at hback
  exact Option.some.inj hback

/-- **A round of the cluster** adds what the matrix is worth. -/
theorem Rounded.tallied {f f' : Fleet κ} {log : List (Ticked κ S)} {s' : Store Inbox UInt8}
    {received processed sent : List (Text × Contract)} {handed forwarded : List Given}
    (h : Rounded E refusal roster transports f f' log s' received processed sent handed forwarded)
    (hnames : ∀ name ∈ roster.names, Handoff.Word name)
    (htransports : ∀ transport ∈ transports, Handoff.Word transport) (stage : Stage)
      (transport : Text) (counted : Counted) :
    f'.figures stage transport counted =
      f.figures stage transport counted + XmipEssentials.tallied E refusal transports stage
        transport counted := by
  -- words decode as they were encoded, so a handoff read back is the one given
  have hback : ∀ g ∈ handed ++ forwarded, g.back = some g.handoff := by
    intro g hg
    obtain ⟨hsender, htransport⟩ := h.sender g hg
    exact Handoff.decode_encode (htransports _ htransport) (hnames _ hsender)
  have hread (given : List Given) (hgiven : ∀ g ∈ given, g.back = some g.handoff) :
      (given.filterMap Given.back).map Handoff.pair = given.map fun g => g.handoff.pair := by
    have hall : given.filterMap Given.back = given.map Given.handoff := by
      rw [← List.filterMap_eq_map]
      exact List.filterMap_congr hgiven
    rw [hall, List.map_map]
    rfl
  -- what a stage took is what was handed to it, in some order
  have hprocessed := h.processed_perm
  rw [hread handed fun g hg => hback g (List.mem_append_left _ hg)] at hprocessed
  have hsent := h.sent_perm
  rw [hread forwarded fun g hg => hback g (List.mem_append_right _ hg)] at hsent
  have hreceive : (received.map (worth E refusal .receive stage transport counted)).sum =
      ((allPairs transports).map (worth E refusal .receive stage transport counted)).sum :=
    (h.received_perm.map _).sum_eq
  -- each stage's pairs are the matrix again, as handing on keeps what can be conveyed
  have htaken (own : Stage) : (processed.map (worth E refusal own stage transport counted)).sum =
      ((allPairs transports).map (worth E refusal own stage transport counted)).sum := by
    calc (processed.map (worth E refusal own stage transport counted)).sum
        =
          ((Relay.handedOn E refusal .receive received).map
            (worth E refusal own stage transport counted)).sum :=
          ((hprocessed.trans h.handed_perm).map _).sum_eq
      _ = (received.map (worth E refusal own stage transport counted)).sum :=
        sum_worth_handedOn (by decide) _
      _ = ((allPairs transports).map (worth E refusal own stage transport counted)).sum :=
          (h.received_perm.map _).sum_eq
  have hsend : (sent.map (worth E refusal .send stage transport counted)).sum =
      ((allPairs transports).map (worth E refusal .send stage transport counted)).sum := by
    calc (sent.map (worth E refusal .send stage transport counted)).sum
        =
          ((Relay.handedOn E refusal .process processed).map
            (worth E refusal .send stage transport counted)).sum :=
          ((hsent.trans h.forwarded_perm).map _).sum_eq
      _ = (processed.map (worth E refusal .send stage transport counted)).sum :=
        sum_worth_handedOn (by decide) _
      _ = ((allPairs transports).map (worth E refusal .send stage transport counted)).sum :=
        htaken .send
  -- so each stage of the fleet adds just what the one process does
  rw [h.figures, tallied_eq, hreceive, htaken .process, hsend]

/-! ### One process -/

namespace Schedule

/-- A schedule over these transports with nothing injected, no level and no bound. -/
structure Plain (transports : List Text) (plan : Schedule) : Prop where
  transports : plan.transports = transports
  faults : plan.faults = .none
  rotation : plan.rotation = none
  stress : plan.stress = none
  perRound : plan.perRound = none

variable {plan : Schedule} {exec : Exec Unit RelayOp (Store Inbox UInt8)} {E : Rig}
    {s : Store Inbox UInt8}

private theorem plain_new (node : Text) (transports : List Text) (identity : Identity) :
    (new node transports identity).Plain transports := ⟨rfl, rfl, rfl, rfl, rfl⟩

/-- What each stage comes to, where nothing is injected. -/
theorem outcome_plain (h : plan.Plain transports) (stage : Stage) (transport : Text)
    (contract : Contract) (now : Int) (base : Outcome × Nat) :
    plan.outcome stage transport contract now base = stageOutcome stage base.1 base.2 := by
  have hnone : plan.fault stage transport contract now = none := by
    rw [fault, h.faults, h.rotation]
    rfl
  rw [outcome, hnone]

private theorem point_identityVerdicts (plan : Schedule) (transport : Text) (contract : Contract)
    (now : Int) :
    ∀ v ∈ plan.identityVerdicts transport contract now, v.point ≠ none := by
  intro v hv
  rcases List.mem_append.mp hv with hv | hv
  · obtain ⟨step, -, rfl⟩ := List.mem_map.mp hv
    exact Option.some_ne_none _
  · rw [List.mem_singleton.mp hv]
    exact Option.some_ne_none _

/-- What a pair's three verdicts add to a stage's figure is what the stage's own adds. -/
theorem added_stages (plan : Schedule) (pair : Text × Contract) (now : Int) (base : Outcome × Nat) :
    added stage transport counted (Stage.all.map (plan.verdict pair.1 pair.2 now base)) =
      (plan.verdict pair.1 pair.2 now base stage).adds stage transport counted := by
  have helse (own : Stage) (hne : own ≠ stage) :
      (plan.verdict pair.1 pair.2 now base own).adds stage transport counted = 0 :=
      if_neg fun hall => hne hall.2.1
  -- The sum over the three stages, written out.
  change _ + (_ + (_ + 0)) = _
  cases stage with
  | receive => rw [helse .process (by decide), helse .send (by decide)]; rfl
  | process => rw [helse .receive (by decide), helse .send (by decide), Nat.zero_add]; rfl
  | send => rw [helse .receive (by decide), helse .process (by decide), Nat.zero_add,
      Nat.zero_add]; rfl

/-- **One pair's exchange** adds to each stage's figure what the pair is worth there. -/
theorem ends_judge_plain (hexec : Perfect refusal exec)
    (hholds : ∀ contract : Contract, E.validate contract (contract.payload E.enc) = .ok ())
    (h : plan.Plain transports) (now : Int) (pair : Text × Contract) :
    (plan.judge E now pair).Ends exec () (fun verdicts t => t = s ∧ ∀ stage transport counted,
      added stage transport counted verdicts = worth E.toEstate refusal stage stage transport
        counted pair) s := by
  unfold judge exchange
  rw [h.stress]
  -- a perfect environment returns what it is handed, or refuses it
  have hbase : (E.roundTrip pair.1 pair.2).Ends exec () (fun base t => t = s ∧ base =
      (refusal pair.1 (pair.2.payload E.enc)).elim (.delivered, (pair.2.payload E.enc).length)
        fun why => (.oneSided why, 0)) s := by
    refine (ends_carried hexec _ _).bind fun back t hback => Prog.ends_pure.mpr ?_
    obtain ⟨rfl, rfl⟩ := hback
    refine ⟨rfl, ?_⟩
    cases refusal pair.1 (pair.2.payload E.enc) with
    | some why => rfl
    | none =>
      have hheld : roundOutcome E.toEstate pair.2 (.ok (pair.2.payload E.enc)) = .delivered := by
        rw [roundOutcome, held, hholds]
      dsimp only
      rw [hheld, if_pos rfl]
      rfl
  refine hbase.bind fun base t hbase => Prog.ends_pure.mpr ?_
  obtain ⟨rfl, hcame⟩ := hbase
  refine ⟨rfl, fun stage transport counted => ?_⟩
  -- the verdicts of the identity count nothing; the stages' verdicts count the pair once each
  rw [added_append, added_points (point_identityVerdicts plan pair.1 pair.2 now), Nat.add_zero,
    added_stages, worth, verdict, outcome_plain h]
  by_cases hconveys : Conveys E.toEstate refusal pair
  · have hnone : refusal pair.1 (pair.2.payload E.enc) = none := hconveys
    rw [hnone] at hcame
    rw [if_pos hconveys, hcame]
    rfl
  · obtain ⟨why, hwhy⟩ := Option.ne_none_iff_exists'.mp hconveys
    rw [hwhy] at hcame
    rw [if_neg hconveys, hcame]
    exact Verdict.adds_oneSided rfl

/-- What the verdicts of each of some pairs add, they add together. -/
theorem added_judged {value : Text × Contract → Nat} {pairs : List (Text × Contract)}
    {judged : List (List Verdict)}
    (h : List.Forall₂ (fun pair verdicts => added stage transport counted verdicts = value pair)
      pairs judged) :
    added stage transport counted judged.flatten = (pairs.map value).sum := by
  rw [added_flatten]
  induction h with
  | nil => rfl
  | cons hone _ ih => rw [List.map_cons, List.map_cons, List.sum_cons, List.sum_cons, hone, ih]

/-- What a schedule's tick leaves, where it publishes its ledger's figures. -/
structure Counts (E : Estate) (refusal : Text → List UInt8 → Option Text) (transports : List Text)
    (plan : Schedule) (snapshot : S) (plan' : Schedule) : Prop where
  plain : plan'.Plain transports
  node : plan'.ledger.node = plan.ledger.node
  figure : ∀ stage transport counted, plan'.ledger.figure stage transport counted =
    plan.ledger.figure stage transport counted + tallied E refusal transports stage transport
      counted
  published : ∀ stage transport counted,
    Snapshot.figure (throughputScope plan.ledger.node stage transport) counted snapshot =
      plan'.ledger.figure stage transport counted

/-- **A tick** adds what the matrix is worth. -/
theorem ends_tick_plain (keeps : Snapshot.Keeps S) (hexec : Perfect refusal exec)
    (hholds : ∀ contract : Contract, E.validate contract (contract.payload E.enc) = .ok ())
    (h : plan.Plain transports) :
    (plan.tick E : Prog RelayOp (S × Schedule)).Ends exec ()
      (fun res _ => plan.Counts E.toEstate refusal transports res.1 res.2) s := by
  refine (ends_still hexec.alone ⟨trivial, fun _ => trivial⟩ :
    (Prog.perform .now : Prog RelayOp Int).Ends exec () _ s).bind fun now t ht => ?_
  -- a round changes the count alone, so it is still plain and takes every pair
  have hround : ({ plan with round := plan.round + 1 } : Schedule).Plain transports :=
    ⟨h.transports, h.faults, h.rotation, h.stress, h.perRound⟩
  have hpairs : ({ plan with round := plan.round + 1 } : Schedule).pairs = allPairs transports := by
    rw [Schedule.pairs, hround.perRound, hround.transports]
    rfl
  have hrun : (runOnce E { plan with round := plan.round + 1 } now).Ends exec () (fun verdicts _ =>
      ∀ stage transport counted, added stage transport counted verdicts =
        tallied E.toEstate refusal transports stage transport counted) t := by
    unfold runOnce
    rw [hpairs]
    -- each pair's verdicts are worth what its judging says
    refine (Relay.ends_driveEach_forall₂ fun pair _ => ends_judge_plain hexec hholds hround now
      pair).bind fun judged u hjudged => Prog.ends_pure.mpr ?_
    obtain ⟨-, hjudged⟩ := hjudged
    intro stage transport counted
    exact added_judged (hjudged.imp fun _ _ hone => hone stage transport counted)
  refine hrun.bind fun verdicts u hadded => Prog.ends_pure.mpr ?_
  obtain ⟨hnode, hshows, hfigure⟩ :=
    Ledger.folded_figure keeps now verdicts (Ledger.underWay_new (S := S) keeps plan.ledger now)
  -- the ledger's figures grow by what was added, and the snapshot closes over them
  refine ⟨⟨h.transports, h.faults, h.rotation, h.stress, h.perRound⟩, hnode,
    fun stage transport counted => ?_, fun stage transport counted => ?_⟩
  · exact (hfigure stage transport counted).trans (congrArg _ (hadded stage transport counted))
  · have hclosed := Ledger.figure_close keeps hshows stage transport counted
    rw [hnode] at hclosed
    exact hclosed

/-- So many ticks of a schedule. -/
inductive Ticked (S : Type) [Snapshot S] (E : Rig) (exec : Exec Unit RelayOp (Store Inbox UInt8))
    (first : Schedule) (begun : Store Inbox UInt8) : Nat → Schedule → Store Inbox UInt8 → Prop where
  | none : Ticked S E exec first begun 0 first begun
  | one {n : Nat} {plan plan' : Schedule} {t t' : Store Inbox UInt8} {snapshot : S}
      (before : Ticked S E exec first begun n plan t)
      (tick : (plan.tick E).Runs exec () t (snapshot, plan') t') :
      Ticked S E exec first begun (n + 1) plan' t'

/-- **Any number of ticks.** -/
theorem Ticked.figures (keeps : Snapshot.Keeps S) (hexec : Perfect refusal exec)
    (hholds : ∀ contract : Contract, E.validate contract (contract.payload E.enc) = .ok ())
    {first : Schedule}
    (hfirst : first.Plain transports) {n : Nat} {t : Store Inbox UInt8}
      (h : Ticked S E exec first s n plan t) :
    plan.Plain transports ∧ plan.ledger.node = first.ledger.node ∧ ∀ stage transport counted,
      plan.ledger.figure stage transport counted = first.ledger.figure stage transport counted +
        n * tallied E.toEstate refusal transports stage transport counted := by
  induction h with
  | none => exact ⟨hfirst, rfl, fun _ _ _ => by rw [Nat.zero_mul, Nat.add_zero]⟩
  | one before tick ih =>
    obtain ⟨hplain, hnode, hfigure⟩ := ih
    have hcounts := ends_tick_plain keeps hexec hholds hplain _ _ tick
    refine ⟨hcounts.plain, hcounts.node.trans hnode, fun stage transport counted => ?_⟩
    rw [hcounts.figure, hfigure, Nat.succ_mul, Nat.add_assoc]

end Schedule

/-! ### Across nodes -/

/-- The relay of a node at a stage, over these transports, with nothing injected and no
Subscription, and bounded by the matrix at least. -/
def MadeAt (roster : Roster κ) (transports : List Text) (stage : Stage) (name : Text)
    (r : Relay κ) : Prop :=
  ∃ setup node process, Relay.new setup name node stage roster process = some r ∧
    setup.transports = transports ∧
    setup.faults = .none ∧ setup.rotation = none ∧ setup.subscribing = false ∧
      transports.length * contracts.length ≤ setup.perRound

/-- Every node's relay at every stage it serves. -/
structure Fleet.Made (roster : Roster κ) (transports : List Text) (f : Fleet κ) : Prop where
  receiving : List.Forall₂ (MadeAt roster transports .receive) (roster.withStage .receive)
    f.receiving
  processing : List.Forall₂ (MadeAt roster transports .process) (roster.withStage .process)
    f.processing
  sending : List.Forall₂ (MadeAt roster transports .send) (roster.withStage .send) f.sending

omit [Snapshot S] in
/-- A relay made is steady, and has counted nothing. -/
theorem MadeAt.steady {name : Text} {r : Relay κ} (h : MadeAt roster transports stage name r) :
    r.Steady roster transports stage ∧ r.name = name ∧
      ∀ stage transport counted, r.ledger.figure stage transport counted = 0 := by
  obtain ⟨setup, node, process, hnew, htransports, hfaults, hrotation, hsubscribing, hbound⟩ := h
  unfold Relay.new at hnew
  split at hnew
  · cases hnew
  · next hserves =>
    obtain rfl := Option.some.inj hnew
    have hnamed : name ∈ roster.withStage stage := by
      by_contra hnot
      apply hserves
      rw [Bool.or_eq_true, Bool.not_eq_true', List.contains_eq_mem, decide_eq_false hnot]
      exact .inr rfl
    refine ⟨⟨rfl, hnamed, hbound.trans (Nat.le_max_left _ _), rfl, fun hother => ?_, hfaults,
      hrotation, ?_⟩, rfl, fun stage transport counted => Ledger.figure_new node⟩
    · exact (if_neg hother).trans htransports
    · change (setup.subscribing && _) = false
      rw [hsubscribing, Bool.false_and]

omit [Snapshot S] in
/-- The relays made of a stage are its crew, and have counted nothing. -/
theorem crew_of_made {rs : List (Relay κ)}
    (h : List.Forall₂ (MadeAt roster transports stage) (roster.withStage stage) rs) :
    Crew roster transports stage rs ∧ ∀ stage transport counted, figures stage transport counted
      rs = 0 := by
  have hmade : ∀ r ∈ rs, r.Steady roster transports stage :=
    forall_of_forall₂ (fun name r (hone : MadeAt roster transports stage name r) => hone.steady.1) h
  have hzero : ∀ r ∈ rs, ∀ stage transport counted, r.ledger.figure stage transport counted = 0 :=
    forall_of_forall₂ (fun name r (hone : MadeAt roster transports stage name r) => hone.steady.2.2)
      h
  have hnames : rs.map Relay.name = roster.withStage stage := by
    generalize roster.withStage stage = names at h
    clear hmade hzero
    induction h with
    | nil => rfl
    | cons hone _ ih => rw [List.map_cons, ih, (MadeAt.steady hone).2.1]
  refine ⟨⟨hmade, hnames ▸ .refl _⟩, fun stage transport counted => List.sum_eq_zero fun n hn => ?_⟩
  obtain ⟨r, hr, rfl⟩ := List.mem_map.mp hn
  exact hzero r hr stage transport counted

omit [Snapshot S] in
private theorem Fleet.Made.crewed {f : Fleet κ} (h : f.Made roster transports) :
    f.Crewed roster transports ∧ ∀ stage transport counted, f.figures stage transport counted =
      0 := by
  obtain ⟨hreceiving, hreceived⟩ := crew_of_made h.receiving
  obtain ⟨hprocessing, hprocessed⟩ := crew_of_made h.processing
  obtain ⟨hsending, hsent⟩ := crew_of_made h.sending
  refine ⟨⟨hreceiving, hprocessing, hsending⟩, fun stage transport counted => ?_⟩
  rw [Fleet.figures, hreceived, hprocessed, hsent]

variable {exec : Exec Unit RelayOp (Store Inbox UInt8)} {s s' : Store Inbox UInt8} {f f' : Fleet κ}
    {n : Nat}
  {log : List (Ticked κ S)}

/-- **Any number of rounds.** -/
theorem Rounds.figures (keeps : Snapshot.Keeps S) (hexec : Perfect refusal exec)
    (hset : Setting E roster transports) (hnames : ∀ name ∈ roster.names, Handoff.Word name)
    (h : Rounds exec E f s n f' s' log) (hf : f.Crewed roster transports) (hempty : Holding s []) :
    f'.Crewed roster transports ∧ Holding s' [] ∧ ∀ stage transport counted,
      f'.figures stage transport counted =
        f.figures stage transport counted + n * tallied E refusal transports stage transport
          counted := by
  have hwords : ∀ transport ∈ transports, Handoff.Word transport := fun transport htransport =>
    (hset.tokens transport htransport).1
  induction h with
  | none => exact ⟨hf, hempty, fun _ _ _ => by rw [Nat.zero_mul, Nat.add_zero]⟩
  | one before round ih =>
    obtain ⟨hcrewed, hheld, hfigures⟩ := ih
    obtain ⟨received, processed, sent, handed, forwarded, hrounded⟩ :=
      round.rounded keeps hexec hset (legible_of_word hnames hwords) hcrewed hheld
    refine ⟨hrounded.crewed, hrounded.empty, fun stage transport counted => ?_⟩
    rw [hrounded.tallied hnames hwords, hfigures, Nat.succ_mul, Nat.add_assoc]

/-- **The run across nodes agrees with the run in one process**: after as many rounds in lock step
as ticks, the figures the cluster's relays publish together are those the schedule publishes. -/
theorem agrees (keeps : Snapshot.Keeps S) {E : Rig} (hexec : Perfect refusal exec)
    (hset : Setting E.toEstate roster transports)
    (hnames : ∀ name ∈ roster.names, Handoff.Word name)
    (hmade : f.Made roster transports) (hempty : ∀ d, waits s d = ∅) {f'' : Fleet κ}
      {s'' : Store Inbox UInt8}
    {now : List (Ticked κ S)} (hrounds : Rounds exec E.toEstate f s n f' s' log)
    (hround : Round exec E.toEstate f' s' f'' s'' now) {node : Text} {identity : Identity}
      {plan plan' : Schedule}
    {t t' t'' : Store Inbox UInt8} {snapshot : S}
    (hticked : Schedule.Ticked S E exec (.new node transports identity) t n plan t')
    (htick : (plan.tick E).Runs exec () t' (snapshot, plan') t'') (stage : Stage) (transport : Text)
    (counted : Counted) :
    publishedFigures stage transport counted now =
      Snapshot.figure (throughputScope node stage transport) counted snapshot := by
  -- on the fleet's side: its figures after the rounds before, and what the last round adds
  obtain ⟨hcrewed, hzero⟩ := hmade.crewed
  obtain ⟨hcrewed', hheld, hfigures⟩ :=
    hrounds.figures keeps hexec hset hnames hcrewed (Holding.nil hempty)
  have hwords : ∀ transport ∈ transports, Handoff.Word transport := fun transport htransport =>
    (hset.tokens transport htransport).1
  obtain ⟨received, processed, sent, handed, forwarded, hrounded⟩ :=
    hround.rounded keeps hexec hset (legible_of_word hnames hwords) hcrewed' hheld
  -- on the one process's side the same, tick by tick
  obtain ⟨hplain, hnode, hbefore⟩ :=
    hticked.figures keeps hexec hset.holds (Schedule.plain_new node transports identity)
  have hcounts := Schedule.ends_tick_plain keeps hexec hset.holds hplain _ _ htick
  have hpublished := hcounts.published stage transport counted
  rw [hnode] at hpublished
  have hnew : (Schedule.new node transports identity).ledger.figure stage transport counted = 0 :=
    Ledger.figure_new node
  refine Eq.trans ?_ hpublished.symm
  -- both begin at nothing and grow by one `tallied` a round
  rw [hrounded.published, hrounded.tallied hnames hwords, hfigures, hzero, hcounts.figure, hbefore,
    hnew]

/-! ### Runs there are -/

/-- What nothing failing answers of transports. -/
def Carrying (refusal : Text → List UInt8 → Option Text) : {β : Type} → RelayOp β → β → Prop
  | _, .refuses transport payload, b => b = refusal transport payload
  | _, .exchange _ payload, b => b = .returned payload
  | _, _, _ => True

/-- Nothing fails. -/
def faultless (refusal : Text → List UInt8 → Option Text) : Exec Unit RelayOp (Store Inbox UInt8) :=
  fun _ _ op s b s' => Alone op s b s' ∧ Carrying refusal op b

private theorem perfect_faultless (refusal : Text → List UInt8 → Option Text) :
    Perfect refusal (faultless refusal) :=
  ⟨fun _ _ _ _ _ did => did.1, fun _ _ _ _ _ did => did.2, fun _ _ _ _ _ did => did.2⟩

private theorem faultless_total (refusal : Text → List UInt8 → Option Text) :
    (faultless refusal).Total := by
  intro _ β op s
  cases op with
  | refuses transport payload => exact ⟨refusal transport payload, s, rfl, rfl⟩
  | exchange transport payload => exact ⟨.returned payload, s, rfl, rfl⟩
  | _ =>
    obtain ⟨b, s', did⟩ := alone_total () _ s
    exact ⟨b, s', did, trivial⟩

omit [Snapshot S] in
/-- A roster that covers the path has its relays. -/
theorem exists_madeAt (hcovers : roster.coversThePath = true) (transports : List Text)
    (stage : Stage) :
    ∃ rs, List.Forall₂ (MadeAt roster transports stage) (roster.withStage stage) rs := by
  let setup : Setup := ⟨transports, .none, ⟨fun _ _ _ => [], fun _ _ _ => .delivered⟩, none,
    transports.length * contracts.length, false⟩
  refine exists_relays hcovers setup stage fun name made hmade => ⟨made, ?_⟩
  exact ⟨setup, name, 1, hmade, rfl, rfl, rfl, rfl, le_rfl⟩

omit [Snapshot S] in
private theorem exists_made (hcovers : roster.coversThePath = true) (transports : List Text) :
    ∃ f : Fleet κ, f.Made roster transports := by
  obtain ⟨rs, hrs⟩ := exists_madeAt hcovers transports .receive
  obtain ⟨ps, hps⟩ := exists_madeAt hcovers transports .process
  obtain ⟨ss, hss⟩ := exists_madeAt hcovers transports .send
  exact ⟨⟨rs, ps, ss⟩, hrs, hps, hss⟩

/-- Each tick of a schedule is made. -/
theorem Schedule.exists_ticked {E : Rig} {exec : Exec Unit RelayOp (Store Inbox UInt8)}
    (htotal : exec.Total) (first : Schedule) (s : Store Inbox UInt8) (n : Nat) :
    ∃ plan t, Schedule.Ticked S E exec first s n plan t := by
  induction n with
  | zero => exact ⟨first, s, .none⟩
  | succ n ih =>
    obtain ⟨plan, t, before⟩ := ih
    obtain ⟨⟨snapshot, plan'⟩, t', tick⟩ :=
      (plan.tick E : Prog RelayOp (S × Schedule)).exists_runs htotal t
    exact ⟨plan', t', .one before tick⟩

private theorem token_t : Handoff.Token ['t'] :=
  Handoff.token_of_short ⟨by decide, by decide⟩ (by decide)

/-- One transport, over a roster that covers the path. -/
theorem setting_t {roster : Roster Roles} (hcovers : roster.coversThePath = true)
    (hdistinct : roster.names.Pairwise fun a b => eqIgnoreAsciiCase a b = false) :
    Setting Schedule.anyRig.toEstate roster [['t']] where
  holds _ := rfl
  executes := Roles.lawful.can_of_executes
  covers := hcovers
  distinct := hdistinct
  tokens _ htransport := List.mem_singleton.mp htransport ▸ token_t

/-- Two rounds of a relay to each stage, beside two ticks of a schedule. -/
theorem agrees_path : ∃ (now : List (Ticked Roles Records)) (snapshot : Records), now.length = 3 ∧
    ∀ stage transport counted, publishedFigures stage transport counted now =
      Snapshot.figure (throughputScope ['n'] stage transport) counted snapshot := by
  have htotal := faultless_total fun _ _ => none
  -- three nodes of one role each, and one process of them all
  have hwords : ∀ name ∈ Roles.path.names, Handoff.Word name := by
    unfold Handoff.Word
    decide
  obtain ⟨f, hmade⟩ := @exists_made Roles _ Roles.path (by decide) [['t']]
  -- a round before the one compared, so what is compared is not the first
  obtain ⟨f', s', log, hrounds, hsize, -⟩ :=
    exists_rounds (S := Records) (E := Schedule.anyRig.toEstate) htotal f
    (fun _ => none) 1
  obtain ⟨f'', s'', now, hround, -, hlength⟩ :=
    exists_round (S := Records) (E := Schedule.anyRig.toEstate) htotal f' s'
  obtain ⟨plan, t, hticked⟩ := Schedule.exists_ticked (S := Records) (E := Schedule.anyRig) htotal
    (.new ['n'] [['t']] ⟨fun _ _ _ => [], fun _ _ _ => .delivered⟩) (fun _ => none) 1
  obtain ⟨⟨snapshot, plan'⟩, t', htick⟩ :=
    (plan.tick Schedule.anyRig : Prog RelayOp (Records × Schedule)).exists_runs (i := ()) htotal t
  refine ⟨now, snapshot, ?_, ?_⟩
  · rw [hlength, hsize, Fleet.size, ← hmade.receiving.length_eq, ← hmade.processing.length_eq,
      ← hmade.sending.length_eq]
    decide
  · exact agrees Records.keeps (perfect_faultless _) (setting_t (by decide) (by decide)) hwords
      hmade waits_none hrounds hround hticked htick

/-! ### A name of two words -/

/-- One executing node whose name has a space. -/
def Roles.spaced : Roster Roles := ⟨[(['a', ' ', 'b'], { Roles.nothing with executing := true })]⟩

/-- What such a node hands on does not read back. -/
theorem decode_two_words {handoff : Handoff} (hsender : handoff.sender = ['a', ' ', 'b'])
    (htransport : Handoff.Word handoff.transport) : Handoff.decode handoff.encode = none := by
  set words : List Text :=
    [magic, handoff.transport, handoff.contract.name, decimal handoff.round, ['a'], ['b'],
      decimal handoff.bytes.length] with hwords
  have hword : ∀ word ∈ words, Handoff.Word word := by
    simp only [hwords, List.mem_cons, List.not_mem_nil, or_false]
    rintro word (rfl | rfl | rfl | rfl | rfl | rfl | rfl)
    · exact ⟨by decide, by decide⟩
    · exact htransport
    · exact Handoff.word_contract _
    · exact Handoff.word_decimal _
    · exact ⟨by decide, by decide⟩
    · exact ⟨by decide, by decide⟩
    · exact Handoff.word_decimal _
  have hline : [' '].intercalate handoff.header = [' '].intercalate words := by
    simp [Handoff.header, hwords, hsender, List.intercalate]
  have hbreak : '\n' ∉ [' '].intercalate words := by
    intro hmem
    rcases mem_intercalate hmem with hc | ⟨word, hin, hc⟩
    · exact absurd (List.mem_singleton.mp hc) (by decide)
    · exact (hword word hin).2 hc
  -- The name's second word stands where the length should.
  have hlength : parseNat ['b'] = none := by decide
  rw [Handoff.encode, hline, Handoff.decode_line hbreak,
    List.splitOn_intercalate ' ' (fun word hin => (hword word hin).1) (List.cons_ne_nil _ _),
    hwords]
  simp [Handoff.ofWords, Contract.find_name, parseNat_decimal, hlength]

/-- **A node of two words disagrees**: in its first round it processes none of what it received, and
a schedule every pair. -/
theorem disagrees_spaced : Roles.spaced.coversThePath = true ∧
    (Roles.spaced.names.Pairwise fun a b => eqIgnoreAsciiCase a b = false) ∧
    ∃ (f f' : Fleet Roles) (s' t : Store Inbox UInt8) (now : List (Ticked Roles Records))
    (plan : Schedule)
      (snapshot : Records), f.Made Roles.spaced [['t']] ∧
      Round (faultless fun _ _ => none) Schedule.anyRig.toEstate f (fun _ => none) f' s' now ∧
      (Schedule.lone.tick Schedule.anyRig).Runs (faultless fun _ _ => none) () (fun _ => none)
      (snapshot, plan) t ∧
      publishedFigures .process ['t'] .journeys now = 0 ∧
      Snapshot.figure (throughputScope ['n'] .process ['t']) .journeys snapshot = 20 := by
  refine ⟨by decide, by decide, ?_⟩
  have htotal := faultless_total fun _ _ => none
  have hexec := perfect_faultless fun _ _ => none
  have hset : Setting Schedule.anyRig.toEstate Roles.spaced [['t']] :=
    setting_t (by decide) (by decide)
  have hnames : ∀ handoff : Handoff, handoff.sender ∈ Roles.spaced.names →
    handoff.transport ∈ [['t']] →
      Handoff.decode handoff.encode = none := fun handoff hsender htransport =>
    decode_two_words (List.mem_singleton.mp hsender) (List.mem_singleton.mp htransport ▸ token_t.1)
  obtain ⟨f, hmade⟩ := @exists_made Roles _ Roles.spaced (by decide) [['t']]
  obtain ⟨f', s', now, hround, -, -⟩ :=
    exists_round (S := Records) (E := Schedule.anyRig.toEstate) htotal f
    (fun _ => none)
  obtain ⟨⟨snapshot, plan⟩, t, htick⟩ :=
    (Schedule.lone.tick Schedule.anyRig : Prog RelayOp (Records × Schedule)).exists_runs (i := ())
      htotal fun _ => none
  refine ⟨f, f', s', t, now, plan, snapshot, hmade, hround, htick, ?_, ?_⟩
  · obtain ⟨hcrewed, hzero⟩ := hmade.crewed
    have hlegible : Legible Roles.spaced [['t']] := by
      intro handoff back hsender htransport hback
      rw [hnames handoff hsender htransport] at hback
      cases hback
    obtain ⟨received, processed, sent, handed, forwarded, hrounded⟩ :=
      hround.rounded Records.keeps hexec hset hlegible hcrewed (Holding.nil waits_none)
    -- What was handed on was claimed, and none of it reads back.
    have hnone : handed.filterMap Given.back = [] := List.filterMap_eq_nil_iff.mpr fun g hg =>
      hnames g.handoff (hrounded.sender g (List.mem_append_left _ hg)).1
        (hrounded.sender g (List.mem_append_left _ hg)).2
    have hprocessed : processed = [] := by
      have hperm := hrounded.processed_perm
      rw [hnone] at hperm
      exact hperm.eq_nil
    rw [hrounded.published, hrounded.figures, hzero, hprocessed, sum_worth_ne (by decide) received,
      sum_worth_ne (by decide) sent]
    rfl
  · have hcounts := Schedule.ends_tick_plain Records.keeps hexec hset.holds
      (Schedule.plain_new _ _ _) _ _ htick
    have hpublished := hcounts.published .process ['t'] .journeys
    rw [hcounts.figure] at hpublished
    exact hpublished.trans (by decide)

end XmipEssentials
