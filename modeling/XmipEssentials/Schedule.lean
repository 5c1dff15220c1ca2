import XmipEssentials.Relay

/-!
# The schedule: the whole test in one process

A schedule ticks: each tick runs one round over its pairs, expands each pair's one exchange into a
verdict at each stage of the message path, and folds them into its ledger. What a pair's exchange
came to is a base outcome (`Estate.roundTripWith`), and which stage a failure belongs to is worked
out from it (`stageOutcome`): a contract's from the way its text begins, any other to Receive.

* `Schedule.attributed_iff` — a failure is marked at the stage it belongs to, just where no text a
  transport reports begins as a contract's does.
-/

namespace XmipEssentials

open Text Conc

/-! ### The payload of a round -/

/-- The payload sizes a level cycles through, one per round. -/
def Stress.sizes : Stress → List Nat
  | .calm => [64]
  | .realistic => [64, 1000, 3000]
  | .harsh => [0, 1, 1471, 1472, 1473, 8192, 65507, 65537]
  | .brutal => [0, 1, 255, 256, 1472, 1473, 65507, 65536, 65537, 1048576]

/-- The size a level uses in `round`. -/
def Stress.sizeFor (stress : Stress) (round : Nat) : Nat :=
  (stress.sizes[round % stress.sizes.length]?).getD 0

/-- What a process's tests run on: the estate, and the large payloads of each contract, by size. -/
structure Rig extends Estate where
  /-- A valid payload of a contract's shape, at least so many bytes. -/
  large : Contract → Nat → List UInt8

/-- A payload of about `size` bytes that still holds `contract`. -/
def Rig.payload (E : Rig) (contract : Contract) (size : Nat) : List UInt8 :=
  if size = 0 then contract.payload E.enc else E.large contract size

/-! ### One round over one transport -/

/-- What a round came to of what arrived: the contract held over it, or the outcome when it did
not. -/
def roundOutcome (E : Estate) (contract : Contract) : Except Outcome (List UInt8) → Outcome
  | .ok back => held E contract back
  | .error outcome => outcome

/-- One round with a chosen payload: what came back must equal what went out, and the contract must
hold over it. The base outcome, and the bytes that moved. -/
def Estate.roundTripWith (E : Estate) (transport : Text) (contract : Contract)
    (payload : List UInt8) :
    Prog RelayOp (Outcome × Nat) := do
  let back ← carried transport payload
  let outcome := roundOutcome E contract back
  pure (outcome, if outcome = .delivered then payload.length else 0)

/-- One round with the contract's own payload. -/
def Estate.roundTrip (E : Estate) (transport : Text) (contract : Contract) :
    Prog RelayOp (Outcome × Nat) :=
  E.roundTripWith transport contract (contract.payload E.enc)

/-- How the text of a contract's failure begins. -/
def notHeld : Text := "contract not held".toList

/-- The stage a failure of the base outcome belongs to, by its text. -/
def owner (why : Text) : Stage := if notHeld.isPrefixOf why then .process else .receive

/-- One stage's outcome from the base result of the real exchange. Bytes are counted once, at
Send. -/
def stageOutcome (stage : Stage) (base : Outcome) (bytes : Nat) : Outcome × Nat :=
  match base with
  | .delivered => (.delivered, if stage = .send then bytes else 0)
  | .oneSided why => (.oneSided why, 0)
  | .failed why =>
    if stage = owner why then (.failed why, 0)
    else (.delivered, if stage = .send then bytes else 0)

/-! ### The schedule -/

/-- A scheduled exercise of the estate's transports over the message path. -/
structure Schedule where
  transports : List Text
  faults : FaultPlan
  identity : Identity
  /-- What the rotation strikes at a stage, a pair and a second. -/
  rotation : Option (Stage → Text → Contract → Nat → Option Fault)
  /-- The level, when one was set: its payload sizes. -/
  stress : Option Stress
  round : Nat
  ledger : Ledger
  /-- How many pairs one round drives, when bounded. -/
  perRound : Option Nat
  /-- Where the next bounded round starts in the matrix. -/
  cursor : Nat

/-- The same schedule injecting these faults, identity faults with them. -/
def Schedule.withFaults (L : Leveling) (faults : FaultPlan) (s : Schedule) : Schedule :=
  { s with faults, identity := L.identity !faults.isEmpty }

/-- The same schedule at a level: the level's faults and its payload for each round. -/
def Schedule.at (L : Leveling) (stress : Stress) (s : Schedule) : Schedule :=
  let (faults, rotating) := leveled stress
  { s.withFaults L faults with
    stress := some stress, rotation := if rotating then some L.rotation else none }

namespace Schedule

/-- A schedule publishing under `node` over these transports, with no injected faults. -/
def new (node : Text) (transports : List Text) (identity : Identity) : Schedule where
  transports := transports
  faults := .none
  identity := identity
  rotation := none
  stress := none
  round := 0
  ledger := .new node
  perRound := none
  cursor := 0

/-- Drive at most so many pairs a round, the matrix rotating under it. -/
def pairsPerRound (pairs : Nat) (s : Schedule) : Schedule :=
  { s with perRound := some (max pairs 1) }

/-- How many pairs there are: every transport by every contract. -/
def matrix (s : Schedule) : Nat := s.transports.length * contracts.length

/-- The injected fault at a stage of the pair: what the rotation strikes first. -/
def fault (s : Schedule) (stage : Stage) (transport : Text) (contract : Contract) (now : Int) :
    Option Fault :=
  (s.rotation.bind fun rotation => rotation stage transport contract (seconds now)).or
    (s.faults.faultFor stage transport contract s.round)

/-- A stage's outcome: the fault injected there, or what the exchange came to. -/
def outcome (s : Schedule) (stage : Stage) (transport : Text) (contract : Contract) (now : Int)
    (base : Outcome × Nat) : Outcome × Nat :=
  match s.fault stage transport contract now with
  | some fault => (.failed fault.evidence, 0)
  | none => stageOutcome stage base.1 base.2

/-- A stage's verdict on a pair. -/
def verdict (s : Schedule) (transport : Text) (contract : Contract) (now : Int)
    (base : Outcome × Nat) (stage : Stage) : Verdict :=
  let (outcome, bytes) := s.outcome stage transport contract now base
  ⟨stage, transport, contract, outcome, bytes, none, now⟩

/-- The identity steps' verdicts on a pair: those on Receive, and the presentation on Send. -/
def identityVerdicts (s : Schedule) (transport : Text) (contract : Contract) (now : Int) :
    List Verdict :=
  ((s.identity.receive transport contract s.round).map fun (step, outcome) =>
    ⟨.receive, transport, contract, outcome, 0, some step, now⟩) ++
    [⟨.send, transport, contract, s.identity.send transport contract s.round, 0,
      some "identity".toList, now⟩]

/-- The real exchange of a pair: the probe, or the level's payload at the round's size. -/
def exchange (E : Rig) (s : Schedule) (transport : Text) (contract : Contract) :
    Prog RelayOp (Outcome × Nat) :=
  match s.stress with
  | some level => E.roundTripWith transport contract (E.payload contract (level.sizeFor s.round))
  | none => E.roundTrip transport contract

/-- One pair's verdicts this round: the real exchange expanded across the three stages with the
round's faults, then the identity steps. -/
def judge (E : Rig) (s : Schedule) (now : Int) (pair : Text × Contract) :
    Prog RelayOp (List Verdict) := do
  let base ← s.exchange E pair.1 pair.2
  pure (Stage.all.map (s.verdict pair.1 pair.2 now base) ++ s.identityVerdicts pair.1 pair.2 now)

/-- The pairs a round drives: all of them, or the bounded slice. -/
def pairs (s : Schedule) : List (Text × Contract) :=
  slice (allPairs s.transports) s.cursor s.perRound

/-- The verdicts of one round, in the pairs' order. -/
def runOnce (E : Rig) (s : Schedule) (now : Int) : Prog RelayOp (List Verdict) := do
  let judged ← driveEach s.pairs (s.judge E now)
  pure judged.flatten

/-- Where the next round starts. -/
def advanced (s : Schedule) : Nat :=
  match s.perRound with
  | some perRound => (s.cursor + min perRound (max s.matrix 1)) % max s.matrix 1
  | none => s.cursor

variable {S : Type} [Snapshot S]

/-- One tick: every pair of the round driven, each verdict folded, and the snapshot to publish. -/
def tick (E : Rig) (s : Schedule) : Prog RelayOp (S × Schedule) := do
  let s := { s with round := s.round + 1 }
  let now ← Prog.perform .now
  let verdicts ← s.runOnce E now
  let (ledger, snapshot) := verdicts.foldl (fun (l, snapshot) v => l.fold v snapshot now)
    (s.ledger, (Snapshot.new : S))
  pure (ledger.close snapshot now, { s with ledger, cursor := s.advanced })

end Schedule

/-! ### Whose a failure is -/

/-- A transport's answers to one payload: whether it refuses it, and what comes back of it. -/
def Replying (refusal : Option Text) (reply : Exchange) : Exec Unit RelayOp Unit
  | _, _, .refuses .., _, b, _ => b = refusal
  | _, _, .exchange .., _, b, _ => b = reply
  | _, _, _, _, _, _ => True

/-- The bytes came back whole, and the contract did not hold over them. -/
def Broken (E : Estate) (contract : Contract) (payload : List UInt8) (refusal : Option Text)
    (reply : Exchange) :
    Prop :=
  refusal = none ∧ reply = .returned payload ∧ ∃ why, E.validate contract payload = .error why

/-- The transport failed, or returned other bytes. -/
def Lost (payload : List UInt8) (refusal : Option Text) (reply : Exchange) : Prop :=
  refusal = none ∧ ((∃ why, reply = .failed why) ∨ ∃ back, reply = .returned back ∧ back ≠ payload)

/-- A stage is marked failed: its own verdict is, the identity steps beneath it aside. -/
def FailedAt (verdicts : List Verdict) (stage : Stage) : Prop :=
  ∃ v ∈ verdicts, v.point = none ∧ v.stage = stage ∧ ∃ why, v.outcome = .failed why

/-- A failed exchange is marked at the one stage it belongs to. -/
structure Attributed (E : Estate) (contract : Contract) (payload : List UInt8)
    (refusal : Option Text) (reply : Exchange) (verdicts : List Verdict) : Prop where
  one : Broken E contract payload refusal reply ∨ Lost payload refusal reply →
    ∃! stage, FailedAt verdicts stage
  process : FailedAt verdicts .process ↔ Broken E contract payload refusal reply
  receive : FailedAt verdicts .receive ↔ Lost payload refusal reply

/-- What a transport so answering carries. -/
def carriedAs (payload : List UInt8) : Option Text → Exchange → Except Outcome (List UInt8)
  | some why, _ => .error (.oneSided why)
  | none, .returned back =>
    if back = payload then .ok back
    else .error (.failed "what came back did not match what was sent".toList)
  | none, .oneSided why => .error (.oneSided why)
  | none, .failed why => .error (.failed why)

/-- The text of a contract's own failure says whose it is. -/
theorem owner_notHeld (why : Text) : owner ("contract not held: ".toList ++ why) = .process :=
  if_pos (List.isPrefixOf_iff_prefix.mpr ⟨": ".toList ++ why, rfl⟩)

section

variable {refusal : Option Text} {reply : Exchange} {E : Estate} {contract : Contract}
    {bytes : List UInt8}

private theorem eq_of_carried {transport : Text} {back : Except Outcome (List UInt8)}
    (h : (carried transport bytes).Runs (Replying refusal reply) () () back ()) :
    back = carriedAs bytes refusal reply := by
  unfold carried at h
  rw [Prog.perform_bind, Prog.runs_call] at h
  obtain ⟨refused, u, hrefused, h⟩ := h
  obtain rfl : refused = refusal := hrefused
  -- the environment refuses as the hypothesis says
  cases refused with
  | some why => exact (Prog.runs_pure.mp h).1
  | none =>
    dsimp only at h
    rw [Prog.perform_bind, Prog.runs_call] at h
    obtain ⟨answer, u', hanswer, h⟩ := h
    obtain rfl : answer = reply := hanswer
    -- and replies so: what came back is what was sent, or another text
    cases answer with
    | returned back' =>
      dsimp only [carriedAs] at h ⊢
      split at h
      · next hsame =>
        rw [if_pos hsame]
        exact (Prog.runs_pure.mp h).1
      · next hother =>
        rw [if_neg hother]
        exact (Prog.runs_pure.mp h).1
    | oneSided why => exact (Prog.runs_pure.mp h).1
    | failed why => exact (Prog.runs_pure.mp h).1

private theorem fst_of_roundTripWith {transport : Text} {base : Outcome × Nat}
    (h : (E.roundTripWith transport contract bytes).Runs (Replying refusal reply) () () base ()) :
    base.1 = roundOutcome E contract (carriedAs bytes refusal reply) := by
  unfold Estate.roundTripWith at h
  rw [Prog.runs_bind] at h
  obtain ⟨back, u, hback, h⟩ := h
  obtain rfl := eq_of_carried hback
  rw [(Prog.runs_pure.mp h).1]

end

namespace Schedule

/-- The payload of a pair's exchange this round. -/
def payload (E : Rig) (s : Schedule) (contract : Contract) : List UInt8 :=
  match s.stress with
  | some level => E.payload contract (level.sizeFor s.round)
  | none => contract.payload E.enc

private theorem exchange_eq (E : Rig) (s : Schedule) (transport : Text) (contract : Contract) :
    s.exchange E transport contract = E.roundTripWith transport contract
      (s.payload E contract) := by
  unfold exchange payload
  cases s.stress with
  | some level => rfl
  | none => rfl

/-- Where no fault is injected, a stage is marked failed just where the exchange failed and its text
says the failure is the stage's. -/
theorem failedAt_iff {refusal : Option Text} {reply : Exchange} {E : Rig} {s : Schedule} {now : Int}
    {pair : Text × Contract} {verdicts : List Verdict}
    (hclean : ∀ stage, s.fault stage pair.1 pair.2 now = none)
    (hruns : (s.judge E now pair).Runs (Replying refusal reply) () () verdicts ()) (stage : Stage) :
    FailedAt verdicts stage ↔
      ∃ why, roundOutcome E.toEstate pair.2 (carriedAs (s.payload E pair.2) refusal reply) =
        .failed why ∧
        stage = owner why := by
  unfold judge at hruns
  rw [Prog.runs_bind, exchange_eq] at hruns
  obtain ⟨base, u, hbase, hruns⟩ := hruns
  obtain ⟨rfl, -⟩ := Prog.runs_pure.mp hruns
  rw [← fst_of_roundTripWith hbase]
  -- without a fault of its own a stage's outcome is the round's
  have houtcome : (s.verdict pair.1 pair.2 now base stage).outcome =
    (stageOutcome stage base.1 base.2).1 := by
    unfold verdict outcome
    rw [hclean stage]
  have hstage : (∃ why, (stageOutcome stage base.1 base.2).1 = .failed why) ↔
      ∃ why, base.1 = .failed why ∧ stage = owner why := by
    unfold stageOutcome
    cases base.1 with
    | delivered => simp
    | oneSided why => simp
    | failed why =>
      by_cases howner : stage = owner why
      · simp [howner]
      · simp [howner]
  rw [← hstage, ← houtcome]
  constructor
  · -- of the verdicts of the stages the one at this stage is it
    rintro ⟨v, hv, hpoint, hof, hfailed⟩
    rcases List.mem_append.mp hv with hv | hv
    · obtain ⟨stage', -, rfl⟩ := List.mem_map.mp hv
      obtain rfl : stage' = stage := hof
      exact hfailed
    · -- An identity step's verdict is at a point of its own.
      rcases List.mem_append.mp hv with hv | hv
      · obtain ⟨step, -, rfl⟩ := List.mem_map.mp hv
        cases hpoint
      · rw [List.mem_singleton.mp hv] at hpoint
        cases hpoint
  · intro hfailed
    refine ⟨s.verdict pair.1 pair.2 now base stage, ?_, rfl, rfl, hfailed⟩
    exact List.mem_append_left _ (List.mem_map_of_mem (Stage.mem_all stage))

/-- A transport's own words begin as a contract's failure does. -/
def Mistaken (refusal : Option Text) (reply : Exchange) : Prop :=
  refusal = none ∧ ∃ why, reply = .failed why ∧ notHeld <+: why

private theorem owner_eq_process {why : Text} : owner why = .process ↔ notHeld <+: why := by
  unfold owner
  split
  · next h => exact iff_of_true rfl (List.isPrefixOf_iff_prefix.mp h)
  · next h =>
      exact iff_of_false (by decide) fun hprefix => h (List.isPrefixOf_iff_prefix.mpr hprefix)

private theorem owner_ne_send (why : Text) : owner why ≠ .send := by
  unfold owner
  split <;> decide

section

variable {E : Estate} {contract : Contract} {bytes : List UInt8} {refusal : Option Text}
    {reply : Exchange}
  {verdicts : List Verdict}

/-- The stage marked failed is the one the text of a failed outcome says. -/
def Marked (verdicts : List Verdict) (outcome : Outcome) : Prop :=
  ∀ stage, FailedAt verdicts stage ↔ ∃ why, outcome = .failed why ∧ stage = owner why

/-- An exchange that did not fail is marked nowhere. -/
theorem attributed_of_none {outcome : Outcome} (hmarked : Marked verdicts outcome)
    (hnone : ∀ why, outcome ≠ .failed why) (hbroken : ¬Broken E contract bytes refusal reply)
    (hlost : ¬Lost bytes refusal reply) : Attributed E contract bytes refusal reply verdicts := by
  have hunmarked (stage : Stage) : ¬FailedAt verdicts stage := by
    rw [hmarked]
    rintro ⟨why, hwhy, _⟩
    exact hnone why hwhy
  exact ⟨fun h => absurd h (not_or.mpr ⟨hbroken, hlost⟩), iff_of_false (hunmarked .process) hbroken,
    iff_of_false (hunmarked .receive) hlost⟩

/-- One that failed is marked at the stage its text says, which is the right one or not. -/
theorem attributed_of_failed {why : Text} (hmarked : Marked verdicts (.failed why)) :
    Attributed E contract bytes refusal reply verdicts ↔
      (owner why = .process ↔ Broken E contract bytes refusal reply) ∧
        (owner why = .receive ↔ Lost bytes refusal reply) := by
  have hstage (stage : Stage) : FailedAt verdicts stage ↔ owner why = stage := by
    rw [hmarked]
    constructor
    · rintro ⟨why', heq, rfl⟩
      cases heq
      rfl
    · intro h
      exact ⟨why, rfl, h.symm⟩
  constructor
  · intro h
    rw [← h.process, ← h.receive, hstage, hstage]
    exact ⟨.rfl, .rfl⟩
  · rintro ⟨hprocess, hreceive⟩
    exact ⟨fun _ => ⟨owner why, (hstage _).mpr rfl, fun stage h => ((hstage stage).mp h).symm⟩,
      (hstage _).trans hprocess, (hstage _).trans hreceive⟩

/-- The bytes came back whole: the contract holds over them, or its failure is marked at Process. -/
theorem attributed_whole (hmarked : Marked verdicts (held E contract bytes)) :
    Attributed E contract bytes none (.returned bytes) verdicts := by
  -- what comes back as it was sent is not lost
  have hlost : ¬Lost bytes none (.returned bytes) := by
    rintro ⟨-, ⟨why', heq⟩ | ⟨back', heq, hne⟩⟩
    · cases heq
    · cases heq
      exact hne rfl
  unfold held at hmarked
  cases hvalid : E.validate contract bytes with
  -- delivered: nothing failed and nothing was broken
  | ok u =>
    rw [hvalid] at hmarked
    refine attributed_of_none hmarked nofun ?_ hlost
    rintro ⟨-, -, why, hbroken⟩
    rw [hvalid] at hbroken
    cases hbroken
  -- refused by its contract: the stage that validates is the owner
  | error why =>
    rw [hvalid] at hmarked
    apply (attributed_of_failed hmarked).mpr
    rw [owner_notHeld]
    exact ⟨iff_of_true rfl ⟨rfl, rfl, why, hvalid⟩, iff_of_false (by decide) hlost⟩

/-- Other bytes came back: the failure is marked at Receive. -/
theorem attributed_other {back : List UInt8} (hother : back ≠ bytes)
    (hmarked : Marked verdicts (.failed "what came back did not match what was sent".toList)) :
    Attributed E contract bytes none (.returned back) verdicts := by
  refine (attributed_of_failed hmarked).mpr ⟨iff_of_false (by decide) ?_,
    iff_of_true (by decide) ?_⟩
  · rintro ⟨-, heq, -⟩
    cases heq
    exact hother rfl
  · exact ⟨rfl, .inr ⟨back, rfl, hother⟩⟩

/-- The transport failed: its text says whether the failure is marked at Receive. -/
theorem attributed_words {why : Text} (hmarked : Marked verdicts (.failed why)) :
    Attributed E contract bytes none (.failed why) verdicts ↔ ¬Mistaken none (.failed why) := by
  have hbroken : ¬Broken E contract bytes none (.failed why) := fun h => nomatch h.2.1
  have hlost : Lost bytes none (.failed why) := ⟨rfl, .inl ⟨why, rfl⟩⟩
  have hmistaken : Mistaken none (.failed why) ↔ owner why = .process := by
    rw [owner_eq_process]
    constructor
    · rintro ⟨-, why', heq, hprefix⟩
      cases heq
      exact hprefix
    · intro hprefix
      exact ⟨rfl, why, rfl, hprefix⟩
  rw [attributed_of_failed hmarked, iff_false_right hbroken, iff_true_right hlost, hmistaken]
  apply and_iff_left_of_imp
  intro hprocess
  cases howner : owner why with
  | receive => rfl
  | process => exact absurd howner hprocess
  | send => exact absurd howner (owner_ne_send why)

end

/-- **A failed exchange is marked at the stage it belongs to** just where the transport's own words
do not begin as a contract's failure does. -/
theorem attributed_iff {refusal : Option Text} {reply : Exchange} {E : Rig} {s : Schedule}
    {now : Int} {pair : Text × Contract} {verdicts : List Verdict}
    (hclean : ∀ stage, s.fault stage pair.1 pair.2 now = none)
    (hruns : (s.judge E now pair).Runs (Replying refusal reply) () () verdicts ()) :
    Attributed E.toEstate pair.2 (s.payload E pair.2) refusal reply verdicts ↔
    ¬Mistaken refusal reply := by
  have hmarked :
    Marked verdicts
      (roundOutcome E.toEstate pair.2 (carriedAs (s.payload E pair.2) refusal reply)) :=
    failedAt_iff hclean hruns
  cases refusal with
  -- refused before it was sent: no stage failed
  | some why =>
    refine iff_of_true (attributed_of_none hmarked nofun ?_ ?_) fun h => nomatch h.1
    · exact fun h => nomatch h.1
    · exact fun h => nomatch h.1
  | none =>
    cases reply with
    | oneSided why =>
      refine iff_of_true (attributed_of_none hmarked nofun (fun h => nomatch h.2.1) ?_) ?_
      · rintro ⟨-, ⟨why', heq⟩ | ⟨back, heq, -⟩⟩
        · cases heq
        · cases heq
      · rintro ⟨-, why', heq, -⟩
        cases heq
    -- a failure in words: the stage its words name has it
    | failed why => exact attributed_words hmarked
    | returned back =>
      have hmistaken : ¬Mistaken none (.returned back) := by
        rintro ⟨-, why', heq, -⟩
        cases heq
      refine iff_of_true ?_ hmistaken
      dsimp only [carriedAs] at hmarked
      split at hmarked
      · -- the bytes came back, whole or others
        next hsame =>
        subst hsame
        exact attributed_whole hmarked
      · next hother => exact attributed_other hother hmarked

/-- A rig whose contracts hold over anything. -/
def anyRig : Rig := ⟨⟨⟨fun _ _ => [], fun _ _ => []⟩, fun _ _ => .ok ()⟩, fun _ _ => []⟩

/-- A schedule of one transport, without faults. -/
def lone : Schedule := new ['n'] [['t']] ⟨fun _ _ _ => [], fun _ _ _ => .delivered⟩

private theorem runs_lone (why : Text) : ∃ verdicts,
    (lone.judge anyRig 0 (['t'], .bytes)).Runs (Replying none (.failed why)) () () verdicts () :=
  ⟨Stage.all.map (lone.verdict ['t'] .bytes 0 (.failed why, 0)) ++
    lone.identityVerdicts ['t'] .bytes 0,
    .call (s := ()) (b := none) rfl (.call (s := ()) (b := Exchange.failed why) rfl .pure)⟩

/-- A connection that was reset is marked at Receive. -/
theorem attributed_reset : ∃ verdicts,
    Attributed anyRig.toEstate .bytes (lone.payload anyRig .bytes) none
      (.failed ['r', 'e', 's', 'e', 't']) verdicts := by
  obtain ⟨verdicts, hruns⟩ := runs_lone ['r', 'e', 's', 'e', 't']
  refine ⟨verdicts, (attributed_iff (fun _ => rfl) hruns).mpr ?_⟩
  rintro ⟨-, why, heq, hprefix⟩
  cases heq
  exact absurd hprefix (by decide)

/-- **A far end that answers `contract not held`** is marked at Process, its bytes never having come
back. -/
theorem misattributed :
    ¬∀ (E : Rig) (s : Schedule) (now : Int) (pair : Text × Contract) (refusal : Option Text)
    (reply : Exchange) (verdicts : List Verdict),
    (∀ stage, s.fault stage pair.1 pair.2 now = none) →
    (s.judge E now pair).Runs (Replying refusal reply) () () verdicts () →
    Attributed E.toEstate pair.2 (s.payload E pair.2) refusal reply verdicts := by
  intro h
  obtain ⟨verdicts, hruns⟩ := runs_lone notHeld
  have hattributed := h anyRig lone 0 (['t'], .bytes) none (.failed notHeld) verdicts (fun _ => rfl)
    hruns
  have hmarked : Marked verdicts (.failed notHeld) := failedAt_iff (fun _ => rfl) hruns
  exact (attributed_words hmarked).mp hattributed ⟨rfl, notHeld, rfl, List.prefix_rfl⟩

end Schedule

end XmipEssentials
