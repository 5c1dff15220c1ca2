import XmipEssentials.FairRotation
import XmipEssentials.LockStep.Figures
import XmipEssentials.LockStep.Held

/-!
# What a stage judges while nothing fails

Transports refuse some payloads and carry every other, contracts hold over their own payloads, and
no fault is injected. Then what a stage comes to on a pair is told by the pair (`Judged.Fits`): what
its verdicts add to the figures (`worth`), and what is handed on. A receive stage bounded by the
matrix judges its whole share (`Relay.ends_receive_share`), and any other all that was given to its
inbox (`Relay.ends_drain_given`).
-/

namespace XmipEssentials

open Text Conc Files Inbox

/-- Calls that come to what they come to alone, over transports that carry what they do not
refuse. -/
structure Perfect (refusal : Text → List UInt8 → Option Text)
    (exec : Exec Unit RelayOp (Store Inbox UInt8)) :
    Prop where
  alone : WithinAlone exec
  refuses : ∀ transport payload s b s', exec () (.refuses transport payload) s b s' →
    b = refusal transport payload
  exchange : ∀ transport payload s b s', exec () (.exchange transport payload) s b s' →
    b = .returned payload

/-! ### What a pair comes to -/

/-- The pair's transport carries the contract's payload. -/
def Conveys (E : Estate) (refusal : Text → List UInt8 → Option Text) (pair : Text × Contract) :
    Prop :=
  refusal pair.1 (pair.2.payload E.enc) = none

instance (E : Estate) (refusal : Text → List UInt8 → Option Text) :
    DecidablePred (Conveys E refusal) :=
  fun _ => inferInstanceAs (Decidable (_ = none))

/-- What a stage's verdict on a pair adds to a figure. -/
def worth (E : Estate) (refusal : Text → List UInt8 → Option Text) (own : Stage) (stage : Stage)
    (transport : Text) (counted : Counted) (pair : Text × Contract) : Nat :=
  if Conveys E refusal pair then
    (⟨own, pair.1, pair.2, .delivered, if own = .send then (pair.2.payload E.enc).length else 0,
      none, 0⟩ :
      Verdict).adds stage transport counted
  else 0

/-- What the node of this name comes to on a pair at a stage. -/
structure Judged.Fits (E : Estate) (refusal : Text → List UInt8 → Option Text) (own : Stage)
    (name : Text) (pair : Text × Contract) (one : Judged) : Prop where
  verdicts : one.verdicts ≠ []
  adds : ∀ stage transport counted,
    added stage transport counted one.verdicts = worth E refusal own stage transport counted pair
  forward : ∃ round, one.forward = if Conveys E refusal pair ∧ own ≠ .send then
    some ⟨pair.1, pair.2, round, name, pair.2.payload E.enc⟩ else none

variable {stage : Stage} {transport : Text} {counted : Counted}

/-- A step beneath a stage's verdict adds nothing. -/
theorem Verdict.adds_point {v : Verdict} (hpoint : v.point ≠ none) :
    v.adds stage transport counted = 0 :=
  if_neg fun hall => hpoint hall.1

theorem added_points {verdicts : List Verdict} (hpoints : ∀ v ∈ verdicts, v.point ≠ none) :
    added stage transport counted verdicts = 0 := by
  apply List.sum_eq_zero
  intro n hn
  obtain ⟨v, hv, rfl⟩ := List.mem_map.mp hn
  exact Verdict.adds_point (hpoints v hv)

/-- A transport of one direction adds nothing. -/
theorem Verdict.adds_oneSided {v : Verdict} {why : Text} (houtcome : v.outcome = .oneSided why) :
    v.adds stage transport counted = 0 := by
  unfold Verdict.adds Ledger.Throughput.count
  rw [houtcome]
  dsimp only [Throughput.figure]
  split_ifs <;> rfl

private theorem added_cons (v : Verdict) (verdicts : List Verdict) :
    added stage transport counted (v :: verdicts) =
      v.adds stage transport counted + added stage transport counted verdicts := by
  rw [added, List.map_cons, List.sum_cons, added]

variable {E : Estate} {refusal : Text → List UInt8 → Option Text} {own : Stage} {name : Text}

/-- A pair that is delivered fits where it is carried. -/
theorem Judged.Fits.delivered {pair : Text × Contract} {bytes : Nat} {now : Int}
    {identity : List Verdict} {forward : Option Handoff} (hcarries : Conveys E refusal pair)
    (hbytes : bytes = if own = .send then (pair.2.payload E.enc).length else 0)
    (hidentity : ∀ v ∈ identity, v.point ≠ none) (hforward : ∃ round, forward = if own ≠ .send then
      some ⟨pair.1, pair.2, round, name, pair.2.payload E.enc⟩ else none) :
    Judged.Fits E refusal own name pair
      ⟨⟨own, pair.1, pair.2, .delivered, bytes, none, now⟩ :: identity, forward⟩ := by
  refine ⟨List.cons_ne_nil _ _, fun stage transport counted => ?_, ?_⟩
  · rw [added_cons, added_points hidentity, Nat.add_zero, worth, if_pos hcarries, ← hbytes]
    rfl
  · obtain ⟨round, rfl⟩ := hforward
    exact ⟨round, by simp only [hcarries, true_and]⟩

/-- A pair that is refused fits where it is not. -/
theorem Judged.Fits.refused {pair : Text × Contract} {why : Text} {now : Int}
    {identity : List Verdict} (hrefused : ¬Conveys E refusal pair)
    (hidentity : ∀ v ∈ identity, v.point ≠ none) :
    Judged.Fits E refusal own name pair
      ⟨⟨own, pair.1, pair.2, .oneSided why, 0, none, now⟩ :: identity, none⟩ := by
  refine ⟨List.cons_ne_nil _ _, fun stage transport counted => ?_, 0, ?_⟩
  · rw [added_cons, added_points hidentity, Nat.add_zero, Verdict.adds_oneSided rfl, worth,
      if_neg hrefused]
  · rw [if_neg fun h => hrefused h.1]

/-- What a handoff on its way to a stage is: a pair's whole payload, of a transport that carries it,
given by a node to one that serves the stage. -/
structure Given.Conveyed {κ : Type} [Capability κ] (E : Estate)
    (refusal : Text → List UInt8 → Option Text) (roster : Roster κ) (transports : List Text)
    (stage : Stage) (g : Given) : Prop where
  stage : g.dest.2 = stage
  serves : g.dest.1 ∈ roster.withStage g.dest.2
  sender : g.handoff.sender ∈ roster.names
  transport : g.handoff.transport ∈ transports
  carries : Conveys E refusal (g.handoff.transport, g.handoff.contract)
  bytes : g.handoff.bytes = g.handoff.contract.payload E.enc

/-- Where a handoff on its way to a stage reads back, it is a pair's. -/
def Given.Reads {κ : Type} [Capability κ] (E : Estate) (refusal : Text → List UInt8 → Option Text)
    (roster : Roster κ) (transports : List Text) (stage : Stage) (g : Given) : Prop :=
  ∀ handoff, g.back = some handoff →
    g.handoff = handoff ∧ g.Conveyed E refusal roster transports stage

/-- The pair a handoff is of. -/
def Handoff.pair (handoff : Handoff) : Text × Contract := (handoff.transport, handoff.contract)

/-! ### A pair judged -/

variable {exec : Exec Unit RelayOp (Store Inbox UInt8)} (hexec : Perfect refusal exec)
    {s : Store Inbox UInt8}

include hexec in
/-- The transport's half of a round. -/
theorem ends_carried (transport : Text) (payload : List UInt8) :
    (carried transport payload).Ends exec () (fun back t => t = s ∧ back =
      match refusal transport payload with
      | some why => .error (.oneSided why)
      | none => .ok payload) s := by
  refine Prog.ends_call.mpr fun why t did => ?_
  obtain rfl : t = s := hexec.alone _ _ _ _ did
  obtain rfl := hexec.refuses _ _ _ _ _ did
  cases hrefusal : refusal transport payload with
  | some why => exact Prog.ends_pure.mpr ⟨rfl, rfl⟩
  | none =>
    refine Prog.ends_call.mpr fun back u did => ?_
    obtain rfl : u = t := hexec.alone _ _ _ _ did
    obtain rfl := hexec.exchange _ _ _ _ _ did
    change Prog.Ends exec () _ (if payload = payload then _ else _) u
    rw [if_pos rfl]
    exact Prog.ends_pure.mpr ⟨rfl, rfl⟩

namespace Relay

variable {κ : Type} [Capability κ]

/-- A relay of a node at a stage it serves, over these transports, with nothing injected and no
Subscription, and bounded by the matrix at least. -/
structure Steady (roster : Roster κ) (transports : List Text) (own : Stage) (r : Relay κ) :
    Prop where
  stage : r.stage = own
  named : r.name ∈ roster.withStage own
  bound : transports.length * contracts.length ≤ r.perRound
  roster : r.roster = roster
  transports : own ≠ .process → r.transports = transports
  faults : r.faults = .none
  rotation : r.rotation = none
  subscribing : r.subscribing = false

variable {roster : Roster κ} {transports : List Text} {r r' : Relay κ}

theorem Steady.same (hsame : r.Same r') (h : r.Steady roster transports own) :
    r'.Steady roster transports own where
  stage := hsame.stage.trans h.stage
  roster := hsame.roster.trans h.roster
  named := hsame.name ▸ h.named
  transports hne := hsame.setup ▸ h.transports hne
  faults := hsame.setup ▸ h.faults
  rotation := hsame.setup ▸ h.rotation
  subscribing := hsame.setup ▸ h.subscribing
  bound := hsame.setup ▸ h.bound

omit [Capability κ] in
private theorem fault_eq_none (hfaults : r.faults = .none) (hrotation : r.rotation = none)
    (transport : Text) (contract : Contract) (round : Nat) (now : Int) :
    r.fault transport contract round now = none := by
  rw [fault, hfaults, hrotation]
  rfl

omit [Capability κ] in
private theorem point_receiveVerdicts (transport : Text) (contract : Contract) (now : Int) :
    ∀ v ∈ r.receiveVerdicts transport contract now, v.point ≠ none := by
  intro v hv
  obtain ⟨step, -, rfl⟩ := List.mem_map.mp hv
  exact Option.some_ne_none _

include hexec

/-- **A pair that arrives.** -/
theorem ends_arrive (h : r.Steady roster transports .receive) (now : Int) (pair : Text × Contract) :
    (r.arrive E now pair).Ends exec () (fun one t => t = s ∧
      one.Fits E refusal .receive r.name pair) s := by
  have hidentity := r.point_receiveVerdicts pair.1 pair.2 now
  -- no fault strikes, so the carrying alone decides
  have harrival : (r.arrival E now pair.1 pair.2).Ends exec () (fun back t => t = s ∧ back =
      match refusal pair.1 (pair.2.payload E.enc) with
      | some why => .error (.oneSided why)
      | none => .ok (pair.2.payload E.enc)) s := by
    rw [arrival, fault_eq_none h.faults h.rotation]
    exact ends_carried hexec _ _
  refine harrival.bind fun back t hback => ?_
  obtain ⟨rfl, rfl⟩ := hback
  -- refused, it is conveyed to no stage; carried, it fits as it was sent
  cases hrefusal : refusal pair.1 (pair.2.payload E.enc) with
  | some why =>
    refine Prog.ends_pure.mpr ⟨rfl, ?_⟩
    have hrefused : ¬Conveys E refusal pair := fun hcarries =>
      Option.some_ne_none why (hrefusal.symm.trans hcarries)
    have hfits : Judged.Fits E refusal r.stage r.name pair
        ⟨⟨r.stage, pair.1, pair.2, .oneSided why, 0, none, now⟩ :: r.receiveVerdicts pair.1 pair.2
          now, none⟩ :=
      .refused hrefused hidentity
    exact h.stage ▸ hfits
  | none =>
    refine Prog.ends_pure.mpr ⟨rfl, ?_⟩
    have hfits : Judged.Fits E refusal r.stage r.name pair
        ⟨⟨r.stage, pair.1, pair.2, .delivered, 0, none, now⟩ :: r.receiveVerdicts pair.1 pair.2 now,
          if r.stage ≠ .send then some ⟨pair.1, pair.2, r.round, r.name, pair.2.payload E.enc⟩
            else none⟩ :=
      .delivered hrefusal (by rw [h.stage]; rfl) hidentity ⟨r.round, rfl⟩
    rw [if_pos (by rw [h.stage]; decide)] at hfits
    exact h.stage ▸ hfits

/-- **A claimed handoff judged**, where it is a pair's whole payload. -/
theorem ends_judge
    (hholds : ∀ contract : Contract, E.validate contract (contract.payload E.enc) = .ok ())
    (h : r.Steady roster transports own) (hstage : own ≠ .receive) (now : Int) {handoff : Handoff}
    (hcarries : Conveys E refusal (handoff.transport, handoff.contract))
    (hbytes : handoff.bytes = handoff.contract.payload E.enc)
    (htransport : handoff.transport ∈ transports) :
    (r.judge E now handoff).Ends exec ()
      (fun one t => t = s ∧ one.Fits E refusal own r.name (handoff.transport, handoff.contract))
        s := by
  refine (ends_tell hexec.alone).bind fun _ t ht => ?_
  obtain rfl : t = s := ht
  dsimp only
  rw [fault_eq_none h.faults h.rotation]
  dsimp only
  cases own with
  | receive => exact absurd rfl hstage
  | process =>
    -- what was encoded here holds
    have hheld : held E handoff.contract handoff.bytes = .delivered := by
      rw [held, hbytes, hholds]
    rw [if_pos h.stage, hheld, if_pos rfl]
    refine Prog.ends_pure.mpr ⟨rfl, ?_⟩
    have hfits : Judged.Fits E refusal r.stage r.name handoff.pair
        ⟨[⟨r.stage, handoff.transport, handoff.contract, .delivered, 0, none, now⟩],
          if r.stage ≠ .send then
            some ⟨handoff.transport, handoff.contract, handoff.round, r.name,
              handoff.contract.payload E.enc⟩
          else none⟩ :=
      .delivered hcarries (by rw [h.stage]; rfl) (fun _ hv => absurd hv List.not_mem_nil)
        ⟨handoff.round, rfl⟩
    rw [← hbytes, if_pos (by rw [h.stage]; decide)] at hfits
    exact h.stage ▸ hfits
  -- the send stage sends it on, and what comes back is what was sent
  | send =>
    have hsent : (r.sent handoff.transport handoff.bytes).Ends exec ()
        (fun back u => u = t ∧ back = .ok (handoff.contract.payload E.enc).length) t := by
      unfold sent
      rw [h.transports (by decide), if_pos htransport, hbytes]
      refine (ends_carried hexec _ _).bind fun back u hback => ?_
      obtain ⟨rfl, rfl⟩ := hback
      rw [hcarries]
      exact Prog.ends_pure.mpr ⟨rfl, rfl⟩
    rw [if_neg (by rw [h.stage]; decide)]
    refine hsent.bind fun back u hback => ?_
    obtain ⟨rfl, rfl⟩ := hback
    refine Prog.ends_pure.mpr ⟨rfl, ?_⟩
    have hfits : Judged.Fits E refusal r.stage r.name handoff.pair
        ⟨[⟨r.stage, handoff.transport, handoff.contract, .delivered,
          (handoff.contract.payload E.enc).length, none, now⟩,
          r.sendVerdict handoff.transport handoff.contract handoff.round now], none⟩ :=
      .delivered hcarries (by rw [h.stage, if_pos rfl]; rfl)
        (fun v hv => List.mem_singleton.mp hv ▸ Option.some_ne_none _)
        ⟨0, by rw [h.stage]; rfl⟩
    exact h.stage ▸ hfits

omit hexec in
/-- Each of the items judged, in the items' order, where judging leaves the inboxes as they are. -/
theorem ends_driveEach_forall₂ {α β : Type} {judge : α → Prog RelayOp β} {R : α → β → Prop}
    {l : List α} (hjudge : ∀ a ∈ l, (judge a).Ends exec () (fun b t => t = s ∧ R a b) s) :
    (driveEach l judge).Ends exec () (fun bs t => t = s ∧ List.Forall₂ R l bs) s := by
  induction l with
  | nil => exact Prog.ends_pure.mpr ⟨rfl, .nil⟩
  | cons a l ih =>
    obtain ⟨hfirst, hrest⟩ := List.forall_mem_cons.mp hjudge
    refine hfirst.bind fun b t hb => ?_
    obtain ⟨rfl, hb⟩ := hb
    refine (ih hrest).bind fun bs u hbs => ?_
    obtain ⟨rfl, hbs⟩ := hbs
    exact Prog.ends_pure.mpr ⟨rfl, .cons hb hbs⟩

omit hexec [Capability κ] in
theorem mem_transports_of_mem_allPairs {pair : Text × Contract} (h : pair ∈ allPairs transports) :
    pair.1 ∈ transports := by
  obtain ⟨transport, htransport, hpair⟩ := List.mem_flatMap.mp h
  obtain ⟨contract, -, rfl⟩ := List.mem_map.mp hpair
  exact htransport

omit hexec in
theorem share_sublist : r.share.Sublist (allPairs r.transports) := by
  have hsub : r.share.Sublist ((allPairs r.transports).zipIdx.map Prod.fst) :=
    List.filter_sublist.map Prod.fst
  rwa [List.zipIdx_map_fst] at hsub

/-- **A receive stage bounded by the matrix judges its whole share.** -/
theorem ends_receive_share (h : r.Steady roster transports .receive) (now : Int) :
    (r.receive E now).Ends exec () (fun res t => t = s ∧ r.Same res.2 ∧ res.2.ledger = r.ledger ∧
      ∃ pairs : List (Text × Contract), pairs.Perm r.share ∧
        List.Forall₂ (Judged.Fits E refusal .receive r.name) pairs res.1) s := by
  have hlength : r.share.length ≤ r.perRound := by
    have hle := (share_sublist (r := r)).length_le
    rw [length_allPairs, h.transports (by decide)] at hle
    exact hle.trans h.bound
  refine (ends_driveEach_forall₂ (R := Judged.Fits E refusal .receive r.name) fun pair _ =>
    ends_arrive hexec h now pair).bind fun judged t hjudged => ?_
  obtain ⟨rfl, hjudged⟩ := hjudged
  exact Prog.ends_pure.mpr ⟨rfl, ⟨rfl, rfl, rfl, rfl⟩, rfl, _, slice_perm r.share r.cursor hlength,
    hjudged⟩

/-- **Any other stage so bounded judges all that was given to its inbox** and reads back. -/
theorem ends_drain_given
    (hholds : ∀ contract : Contract, E.validate contract (contract.payload E.enc) = .ok ())
    (h : r.Steady roster transports own) (hstage : own ≠ .receive) (now : Int) {given : List Given}
    (hholding : Holding s given)
    (hfew : (givenTo r.inbox given).length ≤ transports.length * contracts.length)
    (hreads : ∀ g ∈ givenTo r.inbox given, g.Reads E refusal roster transports own) :
    (r.drainInbox E now).Ends exec () (fun res t => Holding t (givenElse r.inbox given) ∧
      r.Same res.2 ∧
      res.2.ledger = r.ledger ∧ ∃ pairs : List (Text × Contract),
        pairs.Perm (((givenTo r.inbox given).filterMap Given.back).map Handoff.pair) ∧
          List.Forall₂ (Judged.Fits E refusal own r.name) pairs res.1) s := by
  refine (hholding.ends_claim hexec.alone r.process (hfew.trans h.bound)).bind
    fun claimed t hclaimed => ?_
  obtain ⟨hread, hleft⟩ := hclaimed
  -- unreadable files are counted and nothing else of the relay changes
  have hsame : r.Same { r with unreadable := r.unreadable + claimed.2 } := ⟨rfl, rfl, rfl, rfl⟩
  have hjudge : ∀ handoff ∈ claimed.1,
    ({ r with unreadable := r.unreadable + claimed.2 }.judge E now handoff).Ends exec ()
      (fun one u => u = t ∧ Judged.Fits E refusal own r.name handoff.pair one) t := by
    -- each handoff claimed was given by this fleet, and is what it was encoded from
    intro handoff hhandoff
    obtain ⟨g, hg, hback⟩ := List.mem_filterMap.mp (hread.mem_iff.mp hhandoff)
    obtain ⟨rfl, hgood⟩ := hreads g hg handoff hback
    exact ends_judge hexec hholds (h.same hsame) hstage now hgood.carries hgood.bytes
      hgood.transport
  refine (ends_driveEach_forall₂ hjudge).bind fun judged u hjudged => ?_
  obtain ⟨rfl, hjudged⟩ := hjudged
  refine Prog.ends_pure.mpr ⟨hleft, hsame, rfl, claimed.1.map Handoff.pair, hread.map Handoff.pair,
    ?_⟩
  exact List.forall₂_map_left_iff.mpr hjudged

end Relay

end XmipEssentials
