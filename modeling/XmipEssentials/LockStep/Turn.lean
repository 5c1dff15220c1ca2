import XmipEssentials.Placement
import XmipEssentials.LockStep.Perfect

/-!
# A relay's turn while nothing fails

What a tick leaves where a relay judged these pairs (`Relay.Turn`): its ledger is richer by what
they are worth, its snapshot publishes the ledger's figures, and each pair its transport carries was
given to a node that serves the next stage, under a name none of its inbox waits under.
-/

namespace XmipEssentials

open Text Conc Files Inbox

variable {κ S : Type} [Capability κ] [Snapshot S]

/-- What a run in lock step is over: contracts that hold over their own payloads, nodes of which the
executing ones serve every stage, a roster that covers the path, of names that differ whatever their
case, and transports that are tokens. -/
structure Setting (E : Estate) (roster : Roster κ) (transports : List Text) : Prop where
  holds : ∀ contract : Contract, E.validate contract (contract.payload E.enc) = .ok ()
  executes : ∀ c : κ, Capability.executes c = true → ∀ stage, Capability.can c stage = true
  covers : roster.coversThePath = true
  distinct : roster.names.Pairwise fun a b => eqIgnoreAsciiCase a b = false
  tokens : ∀ transport ∈ transports, Handoff.Token transport

variable {E : Estate} {refusal : Text → List UInt8 → Option Text} {roster : Roster κ}
    {transports : List Text}
  {own next : Stage} {r r' : Relay κ} {given : List Given} {s : Store Inbox UInt8}

/-- A pair is handed to a node that serves the stage. -/
theorem Setting.target_serves (hset : Setting E roster transports) {source dest transport : Text}
    {stage : Stage} {contract : Contract} (hsource : source ∈ roster.names)
    (htarget : roster.target source stage transport contract = some dest) :
    dest ∈ roster.withStage stage := by
  cases hexecutes : Capability.executes (roster.capability source) with
  | false => exact Roster.target_mem hexecutes htarget
  | true =>
    rw [Roster.target_of_executes hexecutes] at htarget
    obtain rfl := Option.some.inj htarget
    obtain ⟨node, hnode, rfl⟩ := List.mem_map.mp hsource
    rw [Roster.capability_of_mem hset.distinct hnode] at hexecutes
    exact Roster.mem_withStage.mpr ⟨node.2, hnode, hset.executes node.2 hexecutes stage⟩

/-- Where a pair goes next. -/
theorem Setting.exists_target (hset : Setting E roster transports) {source : Text}
    (hsource : source ∈ roster.names) (stage : Stage) (transport : Text) (contract : Contract) :
    ∃ dest, roster.target source stage transport contract = some dest ∧
    dest ∈ roster.withStage stage := by
  have hsome : (roster.target source stage transport contract).isSome = true :=
    Roster.target_isSome (Roster.coversThePath_iff.mp hset.covers stage)
  obtain ⟨dest, hdest⟩ := Option.isSome_iff_exists.mp hsome
  exact ⟨dest, hdest, hset.target_serves hsource hdest⟩

namespace Relay

/-- What a relay has given so far is counted by its sequence. -/
structure Ahead (transports : List Text) (r : Relay κ) (given : List Given) : Prop where
  transport : ∀ g ∈ given, g.handoff.transport ∈ transports
  fresh : ∀ g ∈ given, some g.dest.2 = r.stage.next → g.handoff.sender = r.name →
    g.sequence ≤ r.sequence

/-- The pairs a stage hands on of those it judged. -/
def handedOn (E : Estate) (refusal : Text → List UInt8 → Option Text) (own : Stage)
    (pairs : List (Text × Contract)) : List (Text × Contract) :=
  pairs.filter fun pair => Conveys E refusal pair ∧ own ≠ .send

/-- What a relay gave: of these pairs, each by itself to the stage that follows. -/
structure Gave (E : Estate) (refusal : Text → List UInt8 → Option Text) (roster : Roster κ)
    (transports : List Text) (own : Stage) (name : Text) (pairs : List (Text × Contract))
    (new : List Given) : Prop where
  pairs : (new.map fun g => g.handoff.pair).Perm (handedOn E refusal own pairs)
  sender : ∀ g ∈ new, g.handoff.sender = name
  sound : ∀ g ∈ new, ∃ next, own.next = some next ∧ g.Conveyed E refusal roster transports next

omit [Capability κ] in
private theorem Ahead.congr (hsame : r.Same r') (hsequence : r'.sequence = r.sequence)
    (h : r.Ahead transports given) :
    r'.Ahead transports given := by
  refine ⟨h.transport, fun g hg hstage hsender => ?_⟩
  rw [hsequence]
  exact h.fresh g hg (hsame.stage ▸ hstage) (hsame.name ▸ hsender)

private theorem Gave.cons {name : Text} {pair : Text × Contract} {pairs : List (Text × Contract)}
    {first rest : List Given} (h : Gave E refusal roster transports own name [pair] first)
    (h' : Gave E refusal roster transports own name pairs rest) :
    Gave E refusal roster transports own name (pair :: pairs) (rest ++ first) := by
  have hsplit : handedOn E refusal own (pair :: pairs) = handedOn E refusal own [pair] ++
    handedOn E refusal own pairs :=
    List.filter_append [pair] pairs
  refine ⟨?_, fun g hg => ?_, fun g hg => ?_⟩
  · rw [List.map_append, hsplit]
    exact List.perm_append_comm.trans (h.pairs.append h'.pairs)
  · exact (List.mem_append.mp hg).elim (h'.sender g) (h.sender g)
  · exact (List.mem_append.mp hg).elim (h'.sound g) (h.sound g)

private theorem Gave.nothing {name : Text} {pairs : List (Text × Contract)}
    (hnone : handedOn E refusal own pairs = []) :
    Gave E refusal roster transports own name pairs [] := by
  refine ⟨?_, fun _ hg => absurd hg List.not_mem_nil, fun _ hg => absurd hg List.not_mem_nil⟩
  rw [hnone]
  exact .nil

variable {exec : Exec Unit RelayOp (Store Inbox UInt8)} (hexec : Perfect refusal exec)

include hexec

/-- **One pair handed on**: it is given to a node that serves the next stage. -/
theorem ends_handOn_given (hset : Setting E roster transports) (h : r.Steady roster transports own)
    (hnext : own.next = some next) (hholding : Holding s given) (hahead : r.Ahead transports given)
    (now : Int) {pair : Text × Contract} (hcarries : Conveys E refusal pair)
    (hpair : pair.1 ∈ transports) (round : Nat) :
    (r.handOn ⟨pair.1, pair.2, round, r.name, pair.2.payload E.enc⟩ now).Ends exec () (fun res t =>
      res.1 = .ok () ∧ r.Same res.2 ∧ res.2.ledger = r.ledger ∧ ∃ g : Given,
        g.handoff = ⟨pair.1, pair.2, round, r.name, pair.2.payload E.enc⟩ ∧
          g.Conveyed E refusal roster transports next ∧ Holding t (g :: given) ∧
          res.2.Ahead transports (g :: given)) s := by
  have hsender : r.name ∈ roster.names := Roster.withStage_subset_names h.named
  obtain ⟨dest, hdest, hserves⟩ := hset.exists_target hsender next pair.1 pair.2
  set g : Given :=
    ⟨(dest, next), ⟨pair.1, pair.2, round, r.name, pair.2.payload E.enc⟩, r.sequence + 1⟩ with hg
  -- A file of this name would be the relay's own, of a count it has not come to yet.
  have hfresh : ∀ g' ∈ given, g'.dest = g.dest → g'.name ≠ g.name := by
    intro g' hg' hsame hname
    have hfile := List.append_cancel_right hname
    obtain ⟨-, hsender', hsequence, -, -⟩ :=
      Handoff.fileName_injective (hset.tokens _ (hahead.transport g' hg'))
      (hset.tokens _ hpair) hfile
    have hle := hahead.fresh g' hg' (hsame ▸ (h.stage ▸ hnext).symm) hsender'
    rw [hsequence] at hle
    exact absurd hle (Nat.not_succ_le_self _)
  have hstage : r.stage.next = some next := h.stage ▸ hnext
  have htarget : r.roster.target r.name next pair.1 pair.2 = some dest := h.roster ▸ hdest
  unfold handOn
  rw [hstage]
  dsimp only
  rw [htarget]
  refine (hholding.ends_deliver hexec.alone g hfresh).bind fun b t hdelivered => ?_
  obtain ⟨rfl, hheld⟩ := hdelivered
  refine Prog.ends_pure.mpr ⟨rfl, ⟨rfl, rfl, rfl, rfl⟩, rfl, g, rfl,
    ⟨rfl, hserves, hsender, hpair, hcarries, rfl⟩, hheld, ?_, ?_⟩
  · exact List.forall_mem_cons.mpr ⟨hpair, hahead.transport⟩
  · refine List.forall_mem_cons.mpr ⟨fun _ _ => le_rfl, fun g' hg' hstage hname => ?_⟩
    exact (hahead.fresh g' hg' hstage hname).trans (Nat.le_succ _)

/-- **What was judged of a pair concluded**: its verdicts stand, and it is handed on where its
transport carries it. -/
theorem ends_handOnJudged_given (hset : Setting E roster transports)
    (h : r.Steady roster transports own) (hholding : Holding s given)
    (hahead : r.Ahead transports given) (now : Int) {pair : Text × Contract}
    (hpair : pair.1 ∈ transports) {one : Judged} (hfits : one.Fits E refusal own r.name pair) :
    (r.handOnJudged now one).Ends exec () (fun res t =>
      res.1 = one.verdicts ∧ r.Same res.2 ∧ res.2.ledger = r.ledger ∧ ∃ new : List Given,
        Gave E refusal roster transports own r.name [pair] new ∧ Holding t (new ++ given) ∧
          res.2.Ahead transports (new ++ given)) s := by
  obtain ⟨verdicts, forward⟩ := one
  obtain ⟨hverdicts, -, round, hforward⟩ := hfits
  dsimp only at hverdicts hforward ⊢
  obtain ⟨verdict, identity, rfl⟩ := List.exists_cons_of_ne_nil hverdicts
  -- it is conveyed and the stage is not the last, so it is handed on
  by_cases hgoes : Conveys E refusal pair ∧ own ≠ .send
  · rw [if_pos hgoes] at hforward
    obtain ⟨next, hnext⟩ : ∃ next, own.next = some next := by
      cases own with
      | receive => exact ⟨_, rfl⟩
      | process => exact ⟨_, rfl⟩
      | send => exact absurd rfl hgoes.2
    subst hforward
    unfold handOnJudged
    dsimp only
    -- no Subscription, so everything is picked
    have hpicks : (r.picks ⟨pair.1, pair.2, round, r.name, pair.2.payload E.enc⟩).Ends exec ()
        (fun picked t => picked = .ok true ∧ t = s) s := by
      unfold picks
      rw [h.subscribing]
      exact Prog.ends_pure.mpr ⟨rfl, rfl⟩
    refine hpicks.bind fun picked t hpicked => ?_
    obtain ⟨rfl, rfl⟩ := hpicked
    -- handed on: one file given, and its round and content are this one's
    refine (ends_handOn_given hexec hset h hnext hholding hahead now hgoes.1 hpair round).bind
      fun res u hhanded => ?_
    obtain ⟨handed, r'⟩ := res
    obtain ⟨rfl, hsame, hledger, g, hhandoff, hsound, hheld, hahead'⟩ := hhanded
    refine Prog.ends_pure.mpr ⟨rfl, hsame, hledger, [g], ⟨?_, ?_, ?_⟩, hheld, hahead'⟩
    · rw [List.map_singleton, hhandoff, handedOn, List.filter_singleton, decide_eq_true hgoes]
      exact .refl _
    · exact List.forall_mem_singleton.mpr (by rw [hhandoff])
    · exact List.forall_mem_singleton.mpr ⟨next, hnext, hsound⟩
  · -- it is refused, or the last stage has it: nothing is given
    rw [if_neg hgoes] at hforward
    subst hforward
    refine Prog.ends_pure.mpr ⟨rfl, .refl r, rfl, [], .nothing ?_, hholding, hahead⟩
    rw [handedOn, List.filter_singleton, decide_eq_false hgoes]
    rfl

/-- **What was judged concluded**, pair by pair. -/
theorem ends_conclude_given (keeps : Snapshot.Keeps S) (hset : Setting E roster transports)
    (h : r.Steady roster transports own) (hholding : Holding s given)
    (hahead : r.Ahead transports given) (now : Int) {name : Text} (hname : r.name = name)
    {pairs : List (Text × Contract)} (hpairs : ∀ pair ∈ pairs, pair.1 ∈ transports)
    {judged : List Judged} (hfits : List.Forall₂ (Judged.Fits E refusal own name) pairs judged)
    {snapshot : S}
    (hshows : r.ledger.UnderWay snapshot now) :
    (conclude now judged r snapshot).Ends exec () (fun res t =>
      r.Same res.1 ∧ res.1.ledger.node = r.ledger.node ∧ res.1.ledger.UnderWay res.2 now ∧
        (∀ stage transport counted, res.1.ledger.figure stage transport counted =
          r.ledger.figure stage transport counted +
            (pairs.map (worth E refusal own stage transport counted)).sum) ∧
        ∃ new : List Given, Gave E refusal roster transports own name pairs new ∧
          Holding t (new ++ given) ∧
          res.1.Ahead transports (new ++ given)) s := by
  induction hfits generalizing r given s snapshot with
  | nil =>
    exact Prog.ends_pure.mpr ⟨.refl r, rfl, hshows, fun _ _ _ => rfl, [], .nothing rfl, hholding,
      hahead⟩
  | @cons pair one pairs judged hone _ ih =>
    obtain ⟨hpair, hpairs⟩ := List.forall_mem_cons.mp hpairs
    -- the pair's own handing on, then the rest after it
    refine (ends_handOnJudged_given hexec hset h hholding hahead now hpair (hname ▸ hone)).bind
      fun res t hhanded => ?_
    obtain ⟨verdicts, r'⟩ := res
    obtain ⟨rfl, hsame, hledger, first, hgave, hheld, hahead'⟩ := hhanded
    have htell :
      (one.verdicts.head?.forM fun v =>
        (Prog.perform (.tell (.verdict v)) : Prog RelayOp PUnit)).Only Still := by
      cases one.verdicts.head? with
      | none => trivial
      | some v => exact ⟨trivial, fun _ => trivial⟩
    refine (ends_still hexec.alone htell).bind fun _ u hu => ?_
    obtain rfl : u = t := hu
    obtain ⟨hnode, hshows', hfigure⟩ :=
      Ledger.folded_figure keeps now one.verdicts
        (hledger ▸ hshows : r'.ledger.UnderWay snapshot now)
    -- folding its verdicts changes the ledger and nothing the handing on reads
    have hfold : r'.Same (r'.foldVerdicts now one.verdicts snapshot).1 := ⟨rfl, rfl, rfl, rfl⟩
    have hall := hsame.trans hfold
    have hrest := ih (h.same hall) hheld (hahead'.congr hfold rfl) (hall.name.trans hname) hpairs
      hshows'
    refine hrest.mono fun res v hrest => ?_
    obtain ⟨hsame', hnode', hshows'', hfigure', rest, hgave', hheld', hahead''⟩ := hrest
    refine ⟨hall.trans hsame', ?_, hshows'', fun stage transport counted => ?_, rest ++ first,
      (hname ▸ hgave).cons hgave', ?_, ?_⟩
    · calc res.1.ledger.node
          = (r'.foldVerdicts now one.verdicts snapshot).1.ledger.node := hnode'
        _ = r'.ledger.node := hnode
        _ = r.ledger.node := congrArg Ledger.node hledger
    · -- the ledger grows by this pair's worth and then by the rest's
      rw [hfigure' stage transport counted, List.map_cons, List.sum_cons, ← Nat.add_assoc]
      refine congrArg (· + _) ((hfigure stage transport counted).trans ?_)
      rw [hone.adds, hledger]
    · rwa [List.append_assoc]
    · rwa [List.append_assoc]

/-! ### A tick -/

omit hexec

/-- The pairs a relay takes: a receive stage its share, and any other what was given to its inbox
and reads back. -/
def takes (r : Relay κ) (given : List Given) : List (Text × Contract) :=
  if r.stage = .receive then r.share else ((givenTo r.inbox given).filterMap Given.back).map
    Handoff.pair

/-- What was given before a relay's tick: by others, to the stage it hands on to, and to its own
inbox no more than the matrix, each as it reads back. -/
structure Before (E : Estate) (refusal : Text → List UInt8 → Option Text) (roster : Roster κ)
    (transports : List Text) (own : Stage) (r : Relay κ) (given : List Given) : Prop where
  transport : ∀ g ∈ given, g.handoff.transport ∈ transports
  others : ∀ g ∈ given, some g.dest.2 = own.next → g.handoff.sender ≠ r.name
  free : own = .receive → ∀ g ∈ given, g.dest ≠ r.inbox
  few : own ≠ .receive → (givenTo r.inbox given).length ≤ transports.length * contracts.length
  reads : own ≠ .receive → ∀ g ∈ givenTo r.inbox given, g.Reads E refusal roster transports own

/-- What a tick leaves of a relay: its ledger richer by what the pairs it took are worth, and
published; and what it gave. -/
structure Turn (E : Estate) (refusal : Text → List UInt8 → Option Text) (roster : Roster κ)
    (transports : List Text) (own : Stage) (r : Relay κ) (given : List Given) (snapshot : S)
    (r' : Relay κ) (t : Store Inbox UInt8) (pairs : List (Text × Contract)) (new : List Given) :
    Prop where
  same : r.Same r'
  node : r'.ledger.node = r.ledger.node
  took : pairs.Perm (r.takes given)
  figure : ∀ stage transport counted, r'.ledger.figure stage transport counted =
    r.ledger.figure stage transport counted +
      (pairs.map (worth E refusal own stage transport counted)).sum
  published : ∀ stage transport counted,
    Snapshot.figure (throughputScope r'.ledger.node stage transport) counted snapshot =
      r'.ledger.figure stage transport counted
  gave : Gave E refusal roster transports own r.name pairs new
  holding : Holding t (new ++ givenElse r.inbox given)

/-- A relay that gave nothing to the stage it hands on to is ahead of all that was given. -/
theorem Before.ahead (h : Before E refusal roster transports own r given) (hstage : r.stage = own)
    (hsame : r.Same r') :
    r'.Ahead transports (givenElse r.inbox given) := by
  refine ⟨fun g hg => h.transport g (mem_givenElse.mp hg).1, fun g hg hnext hsender => ?_⟩
  rw [hsame.stage, hstage] at hnext
  exact absurd (hsender.trans hsame.name) (h.others g (mem_givenElse.mp hg).1 hnext)

include hexec

/-- **What a relay judges** in a round: what it takes. -/
theorem ends_drive_given (hset : Setting E roster transports) (h : r.Steady roster transports own)
    (hholding : Holding s given) (hbefore : Before E refusal roster transports own r given)
    (now : Int) :
    (r.drive E now).Ends exec () (fun res t => Holding t (givenElse r.inbox given) ∧ r.Same res.2 ∧
      res.2.ledger = r.ledger ∧ ∃ pairs : List (Text × Contract), pairs.Perm (r.takes given) ∧
        (∀ pair ∈ pairs, pair.1 ∈ transports) ∧
          List.Forall₂ (Judged.Fits E refusal own r.name) pairs res.1) s := by
  unfold drive takes
  by_cases hreceive : own = .receive
  · subst hreceive
    rw [if_pos h.stage, if_pos h.stage]
    refine (ends_receive_share hexec h now).mono fun res t hreceived => ?_
    obtain ⟨rfl, hsame, hledger, pairs, hperm, hfits⟩ := hreceived
    -- a receiving node has no inbox of its own in which anything was given
    have hall : givenElse r.inbox given = given :=
      List.filter_eq_self.mpr fun g hg => decide_eq_true (hbefore.free rfl g hg)
    refine ⟨hall.symm ▸ hholding, hsame, hledger, pairs, hperm, fun pair hpair => ?_, hfits⟩
    have hin := share_sublist.subset (hperm.mem_iff.mp hpair)
    exact mem_transports_of_mem_allPairs (h.transports (by decide) ▸ hin)
  · -- what the other stages take is what was given to them and can be read
    have hother : r.stage ≠ .receive := h.stage ▸ hreceive
    rw [if_neg hother, if_neg hother]
    refine (ends_drain_given hexec hset.holds h hreceive now hholding (hbefore.few hreceive)
      (hbefore.reads hreceive)).mono fun res t hdrained => ?_
    obtain ⟨hheld, hsame, hledger, pairs, hperm, hfits⟩ := hdrained
    refine ⟨hheld, hsame, hledger, pairs, hperm, fun pair hpair => ?_, hfits⟩
    obtain ⟨handoff, hhandoff, rfl⟩ := List.mem_map.mp (hperm.mem_iff.mp hpair)
    obtain ⟨g, hg, hback⟩ := List.mem_filterMap.mp hhandoff
    obtain ⟨rfl, hsound⟩ := hbefore.reads hreceive g hg handoff hback
    exact hsound.transport

omit [Capability κ] in
/-- What is taken of the drop box is recorded beside the stages' throughput. -/
theorem ends_take_given (keeps : Snapshot.Keeps S) (r : Relay κ) (now : Int) (snapshot : S) :
    (r.take now snapshot).Ends exec () (fun snapshot' t => t = s ∧ ∀ stage transport counted,
      Snapshot.figure (throughputScope r.ledger.node stage transport) counted snapshot' =
        Snapshot.figure (throughputScope r.ledger.node stage transport) counted snapshot) s := by
  unfold take
  split_ifs with hreceive
  · refine Prog.ends_call.mpr fun taken t did => ?_
    obtain rfl : t = s := hexec.alone _ _ _ _ did
    refine Prog.ends_pure.mpr ⟨rfl, fun stage transport counted => ?_⟩
    clear did
    induction taken generalizing snapshot with
    | nil => rfl
    | cons one taken ih =>
      obtain ⟨protocol, party, value⟩ := one
      refine (ih _).trans (Snapshot.figure_recordCount keeps ?_)
      change r.ledger.node ++ "/drop-box/".toList ++ protocol ++ '/' :: party ≠ _
      rw [List.append_assoc _ protocol]
      exact throughputScope_ne_dropBox _ _ _ _
  · exact Prog.ends_pure.mpr ⟨rfl, fun _ _ _ => rfl⟩

/-- **A tick.** -/
theorem ends_tick_given (keeps : Snapshot.Keeps S) (hset : Setting E roster transports)
    (h : r.Steady roster transports own) (hholding : Holding s given)
    (hbefore : Before E refusal roster transports own r given) :
    (r.tick E : Prog RelayOp (S × Relay κ)).Ends exec () (fun res t => ∃ pairs new,
      Turn E refusal roster transports own r given res.1 res.2 t pairs new) s := by
  have hwork : (r.work E : Prog RelayOp (Ticked κ S)).Ends exec () (fun res t => ∃ pairs new,
      Turn E refusal roster transports own r given res.snapshot res.relay t pairs new) s := by
    refine (ends_still hexec.alone ⟨trivial, fun _ => trivial⟩ :
      (Prog.perform .now : Prog RelayOp Int).Ends exec () _ s).bind fun now t ht => ?_
    obtain rfl : t = s := ht
    -- the count alone changed, so the relay is as steady as before
    have hround : r.Same { r with round := r.round + 1 } := ⟨rfl, rfl, rfl, rfl⟩
    have hsteady : ({ r with round := r.round + 1 } : Relay κ).Steady roster transports own :=
      h.same hround
    refine (ends_drive_given hexec hset hsteady hholding
      ⟨hbefore.transport, hbefore.others, hbefore.free, hbefore.few, hbefore.reads⟩ now).bind
        fun res u hdriven => ?_
    obtain ⟨judged, r₁⟩ := res
    obtain ⟨hheld, hsame, hledger, pairs, hperm, hpairs, hfits⟩ := hdriven
    have hsame₁ : r.Same r₁ := hround.trans hsame
    refine (ends_conclude_given hexec keeps hset (h.same hsame₁) hheld
      (hbefore.ahead h.stage hsame₁) now hsame₁.name hpairs hfits
        (Ledger.underWay_new keeps _ now)).bind fun res v hconcluded => ?_
    obtain ⟨r₂, snapshot⟩ := res
    obtain ⟨hsame₂, hnode, hshows, hfigure, new, hgave, hholding', -⟩ := hconcluded
    refine (ends_letGo hexec.alone r₂).bind fun released w hreleased => ?_
    obtain ⟨rfl, rfl⟩ := hreleased
    refine (ends_take_given hexec keeps r₂ now _).bind fun snapshot' x htaken => ?_
    obtain ⟨rfl, htaken⟩ := htaken
    refine (ends_inboxCounts hexec.alone r₂).bind fun inbox y hy => Prog.ends_pure.mpr ?_
    obtain rfl : y = x := hy
    -- neither publishing nor taking records touches the ledger
    have hledger₁ : r₁.ledger = r.ledger := hledger
    refine ⟨pairs, new, hsame₁.trans hsame₂, hnode.trans (congrArg Ledger.node hledger₁), hperm,
      fun stage transport counted => ?_, fun stage transport counted => ?_, hgave, hholding'⟩
    · -- the figures of the round are those of the pairs taken
      exact hledger₁ ▸ hfigure stage transport counted
    · -- and the snapshot shows them, whatever it took from the Ledger's stream
      exact (htaken stage transport counted).trans
        (Ledger.figure_close keeps hshows stage transport counted)
  refine hwork.bind fun ticked t hturn => Prog.ends_pure.mpr ?_
  obtain ⟨pairs, new, hturn⟩ := hturn
  refine ⟨pairs, new, { hturn with published := fun stage transport counted => ?_ }⟩
  exact (figure_published keeps ticked _).trans (hturn.published stage transport counted)

end Relay

end XmipEssentials
