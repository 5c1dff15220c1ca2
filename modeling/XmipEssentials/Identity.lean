import XmipEssentials.Firing

/-!
# The identity pipeline's faults, and the rules that never decide

A Receive Location identifies, authenticates and authorizes, and a Send Location presents an
identity; the rig faults a step by the first rule of its table that fires. Two rules of one key fire
in nested sets of rounds, so one at a rate no higher than an earlier one's never decides, and every
other rule does in some round (`live_iff_not_overshadowed`).
-/

namespace XmipEssentials

open Text

/-! ### The two tables -/

/-- The steps a Receive Location runs, in order. -/
inductive IdentityStep where
  | identification
  | authentication
  | authorization
  deriving DecidableEq, Repr

/-- The token as it appears in the scope. -/
def IdentityStep.name : IdentityStep → Text
  | .identification => "identification".toList
  | .authentication => "authentication".toList
  | .authorization => "authorization".toList

/-- The key a step of a pair is hashed by. -/
def identityKey (step transport : Text) (contract : Contract) : Text :=
  step ++ '/' :: transport ++ '/' :: contract.name

/-- A row of a table: what fails (a step, where there are several), over which transport, how often
and why. -/
structure IdentityRule (What : Type) where
  what : What
  transport : Text
  rate : UInt8
  reason : Text
  deriving DecidableEq, Repr

/-- The identity faults the rig injects, or none. -/
structure IdentityFaults where
  enabled : Bool

namespace IdentityFaults

/-- No injected identity faults. -/
def none : IdentityFaults := ⟨false⟩

/-- A realistic spread of identity faults across the pipeline. -/
def realistic : IdentityFaults := ⟨true⟩

/-- The rules of the three steps of a Receive. -/
def RECEIVE_RULES : List (IdentityRule IdentityStep) :=
  [⟨.identification, "http".toList, 3, "no client certificate presented".toList⟩,
    ⟨.authentication, "http".toList, 4, "client certificate rejected".toList⟩,
    ⟨.authentication, "http".toList, 3,
      "Let's Encrypt certificate expired; renewal pending".toList⟩,
    ⟨.authentication, "smtp".toList, 3, "STARTTLS certificate not trusted".toList⟩,
    ⟨.authorization, "tcp".toList, 3, "the party is not permitted on this Receive Location".toList⟩]

/-- The rules of a Send's presentation. -/
def SEND_RULES : List (IdentityRule Unit) :=
  [⟨(), "http".toList, 4, "no certificate to present".toList⟩,
    ⟨(), "smtp".toList, 3, "the presented certificate has expired".toList⟩,
    ⟨(), "websocket".toList, 3, "ACME renewal pending; cannot present a certificate".toList⟩]

/-- The step a pair's Receive fails this round, if any, and why: that of the first rule that
fires. -/
def receiveFault (faults : IdentityFaults) (transport : Text) (contract : Contract) (round : Nat) :
    Option (IdentityStep × Text) :=
  if faults.enabled = false ∨ transport = STEADY then Option.none
  else
    (RECEIVE_RULES.find? fun rule =>
      rule.transport = transport &&
        firesKeyed rule.rate (identityKey rule.what.name transport contract) round).map
      fun rule => (rule.what, rule.reason)

/-- Why a pair's Send cannot present an identity this round, if it cannot. -/
def sendFault (faults : IdentityFaults) (transport : Text) (contract : Contract) (round : Nat) :
    Option Text :=
  if faults.enabled = false ∨ transport = STEADY then Option.none
  else
    (SEND_RULES.find? fun rule =>
      rule.transport = transport &&
        firesKeyed rule.rate (identityKey "send-identity".toList transport contract) round).map
          IdentityRule.reason

/-- Rules as a table: what a rule selects is what fails and the transport, and the steady one is
never asked of. -/
def table {What : Type} (rules : List (IdentityRule What)) (name : What → Text) :
    Table (IdentityRule What) (What × Text) (Text × Contract) where
  rules := rules
  selector rule := (rule.what, rule.transport)
  rate := IdentityRule.rate
  covers := fun (_, transport) (asked, _) => asked ≠ STEADY ∧ transport = asked
  key := fun (what, _) (asked, contract) => identityKey (name what) asked contract

/-- The Receive rules as a table. -/
def receiveTable : Table (IdentityRule IdentityStep) (IdentityStep × Text) (Text × Contract) :=
  table RECEIVE_RULES IdentityStep.name

/-- The Send rules as a table. -/
def sendTable : Table (IdentityRule Unit) (Unit × Text) (Text × Contract) :=
  table SEND_RULES fun _ => "send-identity".toList

/-- The first row that strikes, behind the guard both faults make. -/
theorem find_guarded {What : Type} (rules : List (IdentityRule What)) (name : What → Text)
    (transport : Text) (contract : Contract) (round : Nat) :
    (if realistic.enabled = false ∨ transport = STEADY then Option.none
      else rules.find? fun rule =>
        rule.transport = transport &&
          firesKeyed rule.rate (identityKey (name rule.what) transport contract) round) =
      ((table rules name).deciding (transport, contract) round).bind (rules[·]?) := by
  unfold Table.deciding
  change _ = (rules.findIdx? _).bind (rules[·]?)
  rw [← List.find?_eq_bind_findIdx?_getElem?]
  -- No row is of the steady transport, so behind the guard none strikes either way.
  split_ifs with hguard
  · have hsteady : transport = STEADY := hguard.resolve_left Bool.noConfusion
    refine (List.find?_eq_none.mpr fun rule _ hstrikes => ?_).symm
    exact (of_decide_eq_true (Bool.and_eq_true_iff.mp hstrikes).1).1 hsteady
  · congr 1
    -- Past the guard the table asks for what the row's own test does, and for no more.
    funext rule
    change _ = (decide (transport ≠ STEADY ∧ rule.transport = transport) && _)
    rw [decide_eq_decide.mpr (and_iff_right fun hsteady => hguard (.inr hsteady))]
    rfl

private theorem receiveFault_eq (transport : Text) (contract : Contract) (round : Nat) :
    realistic.receiveFault transport contract round =
      ((receiveTable.deciding (transport, contract) round).bind (RECEIVE_RULES[·]?)).map
        fun rule => (rule.what, rule.reason) := by
  unfold receiveTable
  rw [← find_guarded, apply_ite (Option.map _)]
  rfl

private theorem sendFault_eq (transport : Text) (contract : Contract) (round : Nat) :
    realistic.sendFault transport contract round =
      ((sendTable.deciding (transport, contract) round).bind (SEND_RULES[·]?)).map
        IdentityRule.reason := by
  unfold sendTable
  rw [← find_guarded, apply_ite (Option.map _)]
  rfl

end IdentityFaults

/-! ### Rules that never decide -/

/-- In some round the rule at the place decides, and what is asked is answered as it says. -/
def Table.Answers {Rule Selector Query Answer : Type} (t : Table Rule Selector Query)
    (asked : Query → Nat → Option Answer) (answer : Rule → Answer) (place : Nat) : Prop :=
  ∃ q, ∃ round < 2 ^ 64, ∃ rule, t.deciding q round = some place ∧ t.rules[place]? = some rule ∧
    asked q round = some (answer rule)

/-- Where what is asked is answered by the rule that decides, the rules so answered are the live
ones. -/
theorem Table.answers_iff {Rule Selector Query Answer : Type} {t : Table Rule Selector Query}
    {asked : Query → Nat → Option Answer} {answer : Rule → Answer}
    (h : ∀ q round, asked q round =
      ((t.deciding q round).bind (t.rules[·]?)).map answer) {place : Nat} :
    t.Answers asked answer place ↔ t.Live place := by
  constructor
  · rintro ⟨q, round, hround, rule, hdeciding, -, -⟩
    exact ⟨q, round, hround, hdeciding⟩
  · rintro ⟨q, round, hround, hdeciding⟩
    obtain ⟨rule, hrule, -⟩ := deciding_eq_some.mp hdeciding
    refine ⟨q, round, hround, rule, hdeciding, hrule, ?_⟩
    rw [h, hdeciding, Option.bind_some, hrule, Option.map_some]

/-- Where a table's rules are each overshadowed or unrivalled, those overshadowed are the dead
ones. -/
theorem Table.live_iff {Rule Selector Query : Type} [DecidableEq Selector]
    {t : Table Rule Selector Query} {place : Nat} (hlive : t.overshadowed place = false →
      t.Live place) : t.Live place ↔ t.overshadowed place = false :=
  ⟨fun h => Bool.eq_false_iff.mpr fun hover => not_live_of_overshadowed hover h, hlive⟩

/-- What a rule of a plan may be asked of. -/
def FaultRule.ask (rule : FaultRule) : Stage × Text × Contract :=
  (rule.stage, rule.transport.getD STEADY, rule.contract.getD .bytes)

private theorem FaultPlan.unrivalled_realistic : ∀ stress : Stress, stress ≠ .calm →
    ∀ place < (realistic.at stress).rules.length, (realistic.at stress).table.overshadowed place =
      false →
      (realistic.at stress).table.unrivalled FaultRule.ask place = true
  | .calm => fun h => absurd rfl h
  | .realistic | .harsh | .brutal => by decide

/-- What a row of an identity table may be asked of. -/
def IdentityRule.ask {What : Type} (rule : IdentityRule What) : Text × Contract :=
  (rule.transport, .bytes)

namespace IdentityFaults

/-- The rule of a Receive that an earlier one of its transport only sometimes comes before: the two
are hashed by different keys, and this round fires the one and not the other. -/
theorem live_rejected : receiveTable.Live 1 :=
  ⟨("http".toList, .bytes), 19, by decide, by decide +kernel⟩

private theorem unrivalled_receive :
    ∀ place < RECEIVE_RULES.length, receiveTable.overshadowed place = false →
    place = 1 ∨ receiveTable.unrivalled IdentityRule.ask place = true := by decide

private theorem unrivalled_send :
    ∀ place < SEND_RULES.length, sendTable.overshadowed place = false →
    sendTable.unrivalled IdentityRule.ask place = true := by decide

end IdentityFaults

open IdentityFaults in
/-- **A rule decides in some round just where no earlier one selects the same at a rate as high**:
of the plan at every level above calm, and of both identity tables; and just then some round's fault
is the one the rule says. -/
theorem live_iff_not_overshadowed (stress : Stress) (hstress : stress ≠ .calm) (place : Nat) :
    (place < (FaultPlan.realistic.at stress).rules.length →
      ((FaultPlan.realistic.at stress).table.Live place ↔
        (FaultPlan.realistic.at stress).table.overshadowed place = false) ∧
      ((FaultPlan.realistic.at stress).table.Answers
          (fun q => (FaultPlan.realistic.at stress).faultFor q.1 q.2.1 q.2.2) FaultRule.fault
          place ↔
        (FaultPlan.realistic.at stress).table.overshadowed place = false)) ∧
    (place < RECEIVE_RULES.length →
      (receiveTable.Live place ↔ receiveTable.overshadowed place = false) ∧
      (receiveTable.Answers (fun q => realistic.receiveFault q.1 q.2)
          (fun rule => (rule.what, rule.reason)) place ↔
        receiveTable.overshadowed place = false)) ∧
    (place < SEND_RULES.length →
      (sendTable.Live place ↔ sendTable.overshadowed place = false) ∧
      (sendTable.Answers (fun q => realistic.sendFault q.1 q.2) IdentityRule.reason place ↔
        sendTable.overshadowed place = false)) := by
  refine ⟨fun hplace => ?_, fun hplace => ?_, fun hplace => ?_⟩
  · -- Of the plan no earlier rule covers what one not overshadowed can be asked of.
    have hlive := Table.live_iff fun hclear => Table.live_of_unrivalled
      (FaultPlan.unrivalled_realistic stress hstress place hplace hclear)
    have hasked := fun (q : Stage × Text × Contract) =>
      (FaultPlan.realistic.at stress).faultFor_eq q.1 q.2.1 q.2.2
    exact ⟨hlive, (Table.answers_iff hasked).trans hlive⟩
  · -- One Receive rule shares its transport with an earlier one, and decides in a round of its own.
    have hlive := Table.live_iff fun hclear =>
      (unrivalled_receive place hplace hclear).elim (fun h => h ▸ live_rejected)
        Table.live_of_unrivalled
    have hasked := fun (q : Text × Contract) => receiveFault_eq q.1 q.2
    exact ⟨hlive, (Table.answers_iff hasked).trans hlive⟩
  · -- no two Send rules share a transport, so none overshadows
    have hlive := Table.live_iff fun hclear =>
      Table.live_of_unrivalled (unrivalled_send place hplace hclear)
    have hasked := fun (q : Text × Contract) => sendFault_eq q.1 q.2
    exact ⟨hlive, (Table.answers_iff hasked).trans hlive⟩

/-- At harsh the first rule of the plan decides in some round, and its datagram is lost there; of
the Receive rules of one transport the second decides, and the third never does. -/
theorem live_iff_not_overshadowed_harsh : (FaultPlan.realistic.at .harsh).table.Live 0 ∧
    (∃ stage transport contract round,
      (FaultPlan.realistic.at .harsh).faultFor stage transport contract round =
        some ⟨.transport, "the datagram never arrived".toList⟩) ∧
    IdentityFaults.receiveTable.Live 1 ∧ ¬IdentityFaults.receiveTable.Live 2 := by
  have hplan := (live_iff_not_overshadowed .harsh (by decide) 0).1 (by decide)
  have hsecond := (live_iff_not_overshadowed .harsh (by decide) 1).2.1 (by decide)
  have hthird := (live_iff_not_overshadowed .harsh (by decide) 2).2.1 (by decide)
  obtain ⟨q, round, -, rule, -, hrule, hfault⟩ := hplan.2.mpr (by decide)
  cases hrule
  exact ⟨hplan.1.mpr (by decide), ⟨q.1, q.2.1, q.2.2, round, hfault⟩, hsecond.1.mpr (by decide),
    fun h => absurd (hthird.1.mp h) (by decide)⟩

/-- The unresolved host is never what a Send suffers, nor the expired certificate what a Receive
does. -/
theorem dead_rules : ¬(FaultPlan.realistic.at .realistic).table.Live 7 ∧
    ¬IdentityFaults.receiveTable.Live 2 :=
  ⟨Table.not_live_of_overshadowed (by decide), Table.not_live_of_overshadowed (by decide)⟩

end XmipEssentials
