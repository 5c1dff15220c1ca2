import XmipEssentials.Lib.Window
import XmipEssentials.Loads
import XmipEssentials.Schedule
import XmipEssentials.Standing

/-!
# A large payload round-trips whole

Every transport by every contract carries a large payload, a bounded slice of the matrix a round,
and is judged on whether it came back whole with its contract held at size. The standing of every
pair stays on the board between its turns. How a size and a rate are written for an operator is left
to `Shown`.
-/

namespace XmipEssentials

open Text Conc

/-- How often, in percent of rounds at `Stress.realistic`, a pressured transfer is dropped
mid-flight. -/
def DROP_RATE : UInt8 := 4

/-- The default size of one load, in bytes. -/
def TARGET_BYTES : Nat := 1048576

/-- Above this size the structural contract is not parsed. -/
def VALIDATE_CEILING : Nat := 16777216

/-- How sizes and rates are written for an operator. -/
structure Shown where
  human : Nat → Text
  /-- A size carried whole from one instant to another, and whether its contract was run. -/
  carried : Nat → Int → Int → Bool → Text

/-- One round's result for one pair. -/
structure Line where
  delivered : Bool
  oneSided : Bool
  bytes : Nat
  evidence : Text
  deriving DecidableEq, Repr

namespace Line

def done (bytes : Nat) (evidence : Text) : Line := ⟨true, false, bytes, evidence⟩

def failed (evidence : Text) : Line := ⟨false, false, 0, evidence⟩

def warned (evidence : Text) : Line := ⟨false, true, 0, evidence⟩

/-- How the round went for the pair. -/
def mark (l : Line) : Mark := if l.delivered then .pass else if l.oneSided then .warn else .fail

end Line

/-- A scheduled size exercise. -/
structure HeavyLoad where
  node : Text
  transports : List Text
  /-- The most a transport declares it can carry, where it declares one. -/
  ceiling : Text → Option Nat
  bytes : Nat
  stress : Option Stress
  round : Nat
  standings : AList fun _ : Text => Standing
  movedBytes : Nat
  /-- How many pairs one round carries, when bounded. -/
  perRound : Option Nat
  /-- Where the next round starts in the matrix. -/
  cursor : Nat

namespace HeavyLoad

/-- A size exercise publishing under `node`, with no injected drops. -/
def new (node : Text) (transports : List Text) (ceiling : Text → Option Nat) : HeavyLoad where
  node := node
  transports := transports
  ceiling := ceiling
  bytes := TARGET_BYTES
  stress := none
  round := 0
  standings := ∅
  movedBytes := 0
  perRound := none
  cursor := 0

/-- Carry at most so many pairs a round, the matrix rotating under it. -/
def pairsPerRound (pairs : Nat) (h : HeavyLoad) : HeavyLoad :=
  { h with perRound := some (max pairs 1) }

/-- The payload size this round: the load's own size leading a cycle of the level's non-empty
sizes. -/
def sizeThisRound (h : HeavyLoad) : Nat :=
  match h.stress with
  | none => h.bytes
  | some stress =>
    let edges := stress.sizes.filter (0 < ·)
    (h.bytes :: edges)[(h.round - 1) % (edges.length + 1)]?.getD h.bytes

/-- Whether an injected drop hits this pair this round. -/
def dropped (h : HeavyLoad) (transport : Text) (contract : Contract) : Bool :=
  match h.stress with
  | none => false
  | some stress =>
    if transport = "file".toList ∨ transport = "udp".toList then false
    else firesKeyed (scaledRate DROP_RATE stress)
      ("drop/".toList ++ transport ++ '/' :: contract.name) h.round

/-- What an exchange of a load came to. -/
def judge (E : Rig) (D : Shown) (h : HeavyLoad) (transport : Text) (contract : Contract)
    (payload : List UInt8) (started ended : Int) : Exchange → Line
  | .returned back =>
    let size := h.sizeThisRound
    if back ≠ payload then .failed "returned bytes did not match — corrupted in transit".toList
    else if h.dropped transport contract then
      .failed ("connection dropped at ".toList ++ D.human (size / 2) ++ " of ".toList ++
        D.human size)
    else if size ≤ VALIDATE_CEILING then
      match E.validate contract back with
      | .error why => .failed ("contract not held at size: ".toList ++ why)
      | .ok () => .done size (D.carried size started ended true)
    else .done size (D.carried size started ended false)
  | .oneSided why => .warned why
  | .failed why => .failed why

/-- Carry one load over one transport, and judge it. -/
def carry (E : Rig) (D : Shown) (h : HeavyLoad) (transport : Text) (contract : Contract) :
    Prog RelayOp Line :=
  let size := h.sizeThisRound
  match (h.ceiling transport).filter (· < size) with
  -- what its transport would not take is not handed to it
  | some limit =>
    pure (.failed (D.human size ++ " exceeds the transport's ceiling of ".toList ++ D.human limit))
  | none => do
    -- past the ceiling nothing is validated, so bytes of no contract will do
    let payload := if size ≤ VALIDATE_CEILING then E.payload contract size else filler size
    let started ← Prog.perform .now
    let exchange ← Prog.perform (.exchange transport payload)
    let ended ← Prog.perform .now
    pure (h.judge E D transport contract payload started ended exchange)

/-- The pair at a place of the matrix. -/
def pairAt (h : HeavyLoad) (place : Nat) : Option (Text × Contract) := do
  let transport ← h.transports[place / contracts.length]?
  let contract ← contracts[place % contracts.length]?
  some (transport, contract)

/-- How many pairs there are: every transport by every contract. -/
def matrix (h : HeavyLoad) : Nat := h.transports.length * contracts.length

/-- How many pairs this round carries. -/
def carried (h : HeavyLoad) : Nat := h.perRound.elim h.matrix (min · h.matrix)

/-- The places of the matrix this round carries. -/
def places (h : HeavyLoad) : List Nat := Window.places (max h.matrix 1) h.cursor h.carried

/-- The exercise with one more result of a pair. -/
def recorded (h : HeavyLoad) (transport : Text) (contract : Contract) (line : Line) : HeavyLoad :=
  let scope := h.node ++ '/' :: transport ++ '/' :: contract.name
  { h with
    movedBytes := if line.delivered then h.movedBytes + line.bytes else h.movedBytes
    standings := h.standings.insert scope
      (((h.standings.lookup scope).getD .default).record line.mark line.evidence) }

/-- The pairs at these places carried, one at a time. -/
def carryEach (E : Rig) (D : Shown) : List Nat → HeavyLoad → Prog RelayOp HeavyLoad
  | [], h => pure h
  | place :: rest, h =>
    match h.pairAt place with
    -- no such place: no transport was given
    | none => carryEach E D rest h
    | some (transport, contract) => do
      let line ← h.carry E D transport contract
      carryEach E D rest (h.recorded transport contract line)

variable {S : Type} [Snapshot S]

/-- Every pair's standing, and the bytes moved so far. -/
def snapshot (h : HeavyLoad) (now : Int) : S :=
  Snapshot.recordCount ⟨h.node, .bytes, h.movedBytes, now, now, now⟩
    (h.standings.entries.foldl (fun s pair => Snapshot.recordHealth (pair.2.health pair.1 now) s)
      Snapshot.new)

/-- Run this round's pairs with a large payload; the snapshot has every pair's standing on it. -/
def tick (E : Rig) (D : Shown) (h : HeavyLoad) : Prog RelayOp (S × HeavyLoad) := do
  let h := { h with round := h.round + 1 }
  let now ← Prog.perform .now
  let after ← carryEach E D h.places h
  -- the cursor moves by what was carried, whatever came of it
  let after := { after with cursor := (h.cursor + h.carried) % max h.matrix 1 }
  pure (after.snapshot now, after)

end HeavyLoad

end XmipEssentials
