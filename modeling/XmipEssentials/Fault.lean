import XmipEssentials.Verdict

/-!
# Injected faults

A rule fires for a percentage of rounds on a stage, for a transport or any and a contract or any.
Firing is a hash of the stage, the pair and the round, so the same round faults the same way. The
identity pipeline and the exclusive-claim exercise fire by the same hash (`firesKeyed`).
-/

namespace XmipEssentials

open Text

/-- The transport whose Receive and Send carry no injected fault at any level. -/
def STEADY : Text := "file".toList

/-- The kind of fault an operator triages by. -/
inductive FaultKind where
  | transport
  | addressing
  | contract
  deriving DecidableEq, Repr

/-- The token as it appears in the evidence line. -/
def FaultKind.name : FaultKind → Text
  | .transport => "transport".toList
  | .addressing => "addressing".toList
  | .contract => "contract".toList

/-- An injected fault: its kind and the line an operator reads. -/
structure Fault where
  kind : FaultKind
  reason : Text
  deriving DecidableEq, Repr

/-- The evidence line: the kind, then what happened. -/
def Fault.evidence (f : Fault) : Text := f.kind.name ++ " fault — ".toList ++ f.reason

/-- On a stage, for a transport (or any) and a contract (or any), a fault fires for `rate` percent
of rounds. -/
structure FaultRule where
  stage : Stage
  transport : Option Text
  contract : Option Contract
  rate : UInt8
  fault : Fault

/-- The faults the rig injects. -/
structure FaultPlan where
  rules : List FaultRule

/-- Whether a rule of the given rate fires for a key this round. -/
def firesKeyed (rate : UInt8) (key : Text) (round : Nat) : Bool :=
  if rate = 0 then false
  else
    let hash := (utf8 key).foldl (fun hash byte => (hash ^^^ byte.toUInt64) * 0x100000001b3)
      (UInt64.ofNat round * 0x9e3779b97f4a7c15)
    hash % 100 < rate.toUInt64

/-- Whether a rule of the given rate fires for this stage and pair this round. -/
def fires (rate : UInt8) (stage : Stage) (transport : Text) (contract : Contract) (round : Nat) :
    Bool :=
  firesKeyed rate (stage.name ++ transport ++ contract.name) round

namespace FaultPlan

/-- No injected faults. -/
def none : FaultPlan := ⟨[]⟩

/-- The fault this stage and pair suffers this round, if any: the first matching rule that fires. -/
def faultFor (p : FaultPlan) (stage : Stage) (transport : Text) (contract : Contract)
    (round : Nat) : Option Fault :=
  (((p.rules.filter fun rule => rule.stage = stage).filter fun rule =>
      rule.transport.all (· = transport)).filter fun rule =>
      rule.contract.all (· = contract)).find? (fun rule =>
        fires rule.rate stage transport contract round)
    |>.map FaultRule.fault

/-- Whether the plan injects nothing. -/
def isEmpty (p : FaultPlan) : Bool := p.rules.isEmpty

/-- A realistic spread of faults over the three stages: rates are low, and `file` carries none. -/
def realistic : FaultPlan :=
  ⟨[⟨.receive, some "udp".toList, Option.none, 9,
    ⟨.transport, "the datagram never arrived".toList⟩⟩,
    ⟨.receive, some "tcp".toList, some .bytes, 5,
      ⟨.transport, "bind failed: the receive port is already in use".toList⟩⟩,
    ⟨.receive, some "smtp".toList, Option.none, 4, ⟨.transport, "connection reset by peer".toList⟩⟩,
    ⟨.process, Option.none, some .xml, 6,
      ⟨.contract, "schema validation failed: unexpected element".toList⟩⟩,
    ⟨.process, Option.none, some .json, 4,
      ⟨.contract, "malformed content: unexpected token".toList⟩⟩,
    ⟨.send, some "http".toList, Option.none, 5,
      ⟨.transport, "the send target refused the connection".toList⟩⟩,
    ⟨.send, some "websocket".toList, Option.none, 3, ⟨.transport, "send timed out".toList⟩⟩,
    ⟨.send, some "http".toList, Option.none, 5,
      ⟨.addressing, "the target host did not resolve".toList⟩⟩,
    ⟨.send, some "tcp".toList, Option.none, 3, ⟨.addressing, "no route to the target host".toList⟩⟩,
    ⟨.send, some "smtp".toList, Option.none, 3,
      ⟨.addressing, "recipient address rejected (550 no such user)".toList⟩⟩]⟩

@[simp] theorem faultFor_none (stage : Stage) (transport : Text) (contract : Contract)
    (round : Nat) : none.faultFor stage transport contract round = Option.none := rfl

end FaultPlan

/-- How hard a test runs. -/
inductive Stress where
  | calm
  | realistic
  | harsh
  | brutal
  deriving DecidableEq, Repr

/-- Every level's name. -/
def Stress.NAMES : List Text := ["calm".toList, "realistic".toList, "harsh".toList, "brutal".toList]

/-- The level a name means, in any case. -/
def Stress.parse (name : Text) : Option Stress :=
  let named := (trim name).map Char.toLower
  if named = "calm".toList then some .calm
  else if named = "realistic".toList then some .realistic
  else if named = "harsh".toList then some .harsh
  else if named = "brutal".toList then some .brutal
  else none

/-- The level's name. -/
def Stress.name : Stress → Text
  | .calm => "calm".toList
  | .realistic => "realistic".toList
  | .harsh => "harsh".toList
  | .brutal => "brutal".toList

/-- A level's name means the level. -/
theorem Stress.parse_name (stress : Stress) : parse stress.name = some stress := by
  cases stress <;> decide

/-- What every fault rate is multiplied by at a level. -/
def Stress.faultMultiplier : Stress → UInt8
  | .calm => 0
  | .realistic => 1
  | .harsh => 3
  | .brutal => 10

/-- No rate is above this, whatever the level. -/
def MAX_RATE : UInt8 := 90

/-- A rate under a level: multiplied, without overflow, and capped. -/
def scaledRate (rate : UInt8) (stress : Stress) : UInt8 :=
  min (UInt8.ofNat (min 255 (rate.toNat * stress.faultMultiplier.toNat))) MAX_RATE

/-- The same rules with every rate scaled to a level. -/
def FaultPlan.at (p : FaultPlan) (stress : Stress) : FaultPlan :=
  ⟨p.rules.map fun rule => { rule with rate := scaledRate rule.rate stress }⟩

/-- The cores the tests may drive: never fewer than one. -/
abbrev Cores : Type := { count : Nat // 0 < count }

/-- How many pairs run at once at a level. -/
def Stress.workers (cores : Cores) : Stress → Nat
  | .calm => 1
  | .realistic => 1
  | .harsh => min 4 cores.val
  | .brutal => cores.val

theorem Stress.workers_pos (cores : Cores) (stress : Stress) : 0 < stress.workers cores := by
  have hcores := cores.property
  cases stress with
  | calm => exact Nat.one_pos
  | realistic => exact Nat.one_pos
  | harsh => exact Nat.lt_min.mpr ⟨by decide, hcores⟩
  | brutal => exact hcores

/-- The faults a level injects, and whether the rotation strikes. -/
def leveled (stress : Stress) : FaultPlan × Bool :=
  match stress with
  | .calm => (.none, false)
  | .realistic => (.none, true)
  | _ => (FaultPlan.realistic.at stress, true)

/-- No rule of rate zero fires. -/
@[simp] theorem firesKeyed_zero (key : Text) (round : Nat) : firesKeyed 0 key round = false := rfl

end XmipEssentials
