import XmipEssentials.Fault
import XmipEssentials.Handoff
import XmipEssentials.Ledger
import XmipEssentials.Roster

/-!
# The relay: one stage of the test a node declared it can serve

A node that declared **receive** takes its share of the (transport × contract) matrix and, a bounded
rotating slice per round, lets the Stream arrive through the transport; what arrived whole is handed
to a node that declared process. A node that declared **process** claims what is in its inbox, holds
the content contract over it, and hands it to one that declared send. A node that declared **send**
claims what is in its inbox and sends it out through the same transport.

A relay's round is a program of calls (`Relay.tick`); the relay itself is the program's own, so what
a relay has counted is read where its round has ended. The pairs of a round are judged one after
another: they share nothing but the relay, which a judgment does not change.
-/

namespace XmipEssentials

open Text Conc Files

/-! ### One exchange, judged -/

/-- What the rig's contracts and codecs of other crates come to. -/
structure Estate where
  enc : Encoders
  /-- Whether the contract holds over the bytes, or why not. -/
  validate : Contract → List UInt8 → Except Text Unit

/-- The transport's half of a round: `payload` through `transport`, and what arrived when it arrived
whole, or the outcome to publish when it did not. -/
def carried (transport : Text) (payload : List UInt8) :
    Prog RelayOp (Except Outcome (List UInt8)) := do
  match ← Prog.perform (.refuses transport payload) with
  | some why => pure (.error (.oneSided why))
  | none =>
    match ← Prog.perform (.exchange transport payload) with
    | .returned back =>
      if back = payload then pure (.ok back)
      else pure (.error (.failed "what came back did not match what was sent".toList))
    | .oneSided why => pure (.error (.oneSided why))
    | .failed why => pure (.error (.failed why))

/-- The contract's half of a round: the contract held over the bytes that arrived. -/
def held (E : Estate) (contract : Contract) (arrived : List UInt8) : Outcome :=
  match E.validate contract arrived with
  | .ok () => .delivered
  | .error why => .failed ("contract not held: ".toList ++ why)

/-! ### The pairs of a round -/

/-- Every transport by every contract, in matrix order. -/
def allPairs (transports : List Text) : List (Text × Contract) :=
  transports.flatMap fun transport => contracts.map fun contract => (transport, contract)

/-- The pairs a round drives when it is bounded: `count` of them from `cursor`, wrapping. -/
def slice (pairs : List (Text × Contract)) (cursor : Nat) (count : Option Nat) :
    List (Text × Contract) :=
  match count.map (min · pairs.length) with
  | none => pairs
  | some count =>
    if pairs.isEmpty then []
    else (List.range count).filterMap fun step => pairs[(cursor + step) % pairs.length]?

/-- Every one of the items judged, the results in the items' order. -/
def driveEach {α β : Type} (items : List α) (judge : α → Prog RelayOp β) :
    Prog RelayOp (List β) := Prog.each judge items

/-- The whole seconds of `now`, in nanoseconds since the epoch. -/
def seconds (now : Int) : Nat := (now.tdiv 1000000000).toNat

/-! ### The relay -/

/-- The identity pipeline's steps on a pair: on Receive each step's name and outcome, on Send the
presentation's. -/
structure Identity where
  receive : Text → Contract → Nat → List (Text × Outcome)
  send : Text → Contract → Nat → Outcome

/-- What a relay is set up with. -/
structure Setup where
  transports : List Text
  faults : FaultPlan
  identity : Identity
  /-- What the rotation strikes at a stage, a pair and a second. -/
  rotation : Option (Stage → Text → Contract → Nat → Option Fault)
  perRound : Nat
  /-- Whether the node's Subscriptions route what its process stage hands on. -/
  subscribing : Bool

/-- What one pair came to at a stage: the stage's verdict first, then any identity steps, and what
to hand on when the stage delivered. -/
structure Judged where
  verdicts : List Verdict
  forward : Option Handoff

/-- One node's part in `RoundTrip` at one stage it declared. -/
structure Relay (κ : Type) extends Setup where
  name : Text
  stage : Stage
  roster : Roster κ
  /-- The process the relay runs in. -/
  process : Nat
  ledger : Ledger
  hops : Hops
  round : Nat
  cursor : Nat
  sequence : Nat
  unreadable : Nat

/-- What a level sets beside the bound: the identity pipeline without its faults and with them, and
the rotation over the relay's transports. -/
structure Leveling where
  identity : Bool → Identity
  rotation : Stage → Text → Contract → Nat → Option Fault

/-- The same relay injecting these faults, identity faults with them. -/
def Relay.withFaults {κ : Type} (L : Leveling) (faults : FaultPlan) (r : Relay κ) : Relay κ :=
  { r with faults, identity := L.identity !faults.isEmpty }

/-- Drive at most so many pairs a round. -/
def Relay.bounded {κ : Type} (pairs : Nat) (r : Relay κ) : Relay κ :=
  { r with perRound := max pairs 1 }

/-- The same relay at a level: the level's faults, and a round bounded to four pairs per worker — a
receive stage's from its share; any other stage's times the count of receiving nodes. -/
def Relay.at {κ : Type} [Capability κ] (L : Leveling) (cores : Cores) (stress : Stress)
    (r : Relay κ) : Relay κ :=
  let (faults, rotating) := leveled stress
  -- a receive stage drives its own share; what the others take comes of every receiving node
  let senders := if r.stage = .receive then 1 else max (r.roster.withStage .receive).length 1
  let workers := stress.workers cores
  let bounded := (r.withFaults L faults).bounded (workers * 4 * senders)
  { bounded with rotation := if rotating then some L.rotation else none }

namespace Relay

variable {κ : Type} [Capability κ]

/-- The relay of the node called `name` at `stage`, publishing under `node`. None where the roster
says this node did not declare the stage, or cannot run the path. A process stage touches no
transport, and no other has its pairs routed. -/
def new (setup : Setup) (name node : Text) (stage : Stage) (roster : Roster κ) (process : Nat) :
    Option (Relay κ) :=
  if roster.refusal.isSome || !(roster.withStage stage).contains name then none
  else some
    { setup with
      -- a process stage reads an inbox and writes one, and touches no transport
      transports := if stage = .process then [] else setup.transports
      perRound := max setup.perRound 1
      -- only what a process stage has held is routed by Subscriptions
      subscribing := setup.subscribing && stage = .process
      name, stage, roster, process
      ledger := .new node
      hops := .default
      round := 0
      cursor := 0
      sequence := 0
      unreadable := 0 }

/-- The inbox the relay drains. -/
def inbox (r : Relay κ) : Inbox := (r.name, r.stage)

/-- The injected fault for this stage of the pair in `round` at `now`, as the outcome to publish:
what the rotation strikes first. -/
def fault (r : Relay κ) (transport : Text) (contract : Contract) (round : Nat) (now : Int) :
    Option Outcome :=
  -- the rotation's strike goes before the plan's
  ((r.rotation.bind fun rotation => rotation r.stage transport contract (seconds now)).or
      (r.faults.faultFor r.stage transport contract round)).map
    fun fault => .failed fault.evidence

/-- The stage's verdict on a pair. -/
def verdict (r : Relay κ) (transport : Text) (contract : Contract) (outcome : Outcome)
    (bytes : Nat) (now : Int) : Verdict :=
  ⟨r.stage, transport, contract, outcome, bytes, none, now⟩

/-- What the stage hands on of a pair. -/
def handoff (r : Relay κ) (transport : Text) (contract : Contract) (round : Nat)
    (bytes : List UInt8) : Handoff :=
  ⟨transport, contract, round, r.name, bytes⟩

/-- The Receive steps of the identity pipeline, each a verdict at its own point. -/
def receiveVerdicts (r : Relay κ) (transport : Text) (contract : Contract) (now : Int) :
    List Verdict :=
  (r.identity.receive transport contract r.round).map fun (step, outcome) =>
    ⟨.receive, transport, contract, outcome, 0, some step, now⟩

/-- The Send presentation, a verdict at the `identity` point. -/
def sendVerdict (r : Relay κ) (transport : Text) (contract : Contract) (round : Nat) (now : Int) :
    Verdict :=
  ⟨.send, transport, contract, r.identity.send transport contract round, 0,
    some "identity".toList, now⟩

variable (E : Estate)

/-- What arrives of a pair where its payload goes through its transport, or what is published where
a fault strikes or it does not. -/
def arrival (r : Relay κ) (now : Int) (transport : Text) (contract : Contract) :
    Prog RelayOp (Except Outcome (List UInt8)) :=
  match r.fault transport contract r.round now with
  -- the fault is published in place of what the transport would say
  | some outcome => pure (.error outcome)
  | none => carried transport (contract.payload E.enc)

/-- One pair arriving through its transport. -/
def arrive (r : Relay κ) (now : Int) (pair : Text × Contract) : Prog RelayOp Judged := do
  let (name, contract) := pair
  let identity := r.receiveVerdicts name contract now
  match ← r.arrival E now name contract with
  | .ok bytes =>
    -- nothing is counted in bytes at Receive
    pure ⟨r.verdict name contract .delivered 0 now :: identity,
      some (r.handoff name contract r.round bytes)⟩
  | .error outcome => pure ⟨r.verdict name contract outcome 0 now :: identity, none⟩

/-- This node's share of the matrix. -/
def share (r : Relay κ) : List (Text × Contract) :=
  ((allPairs r.transports).zipIdx.filter fun one => r.roster.receives r.name one.2).map Prod.fst

/-- This round's slice of this node's share of the matrix, each pair arriving through its
transport. -/
def receive (r : Relay κ) (now : Int) : Prog RelayOp (List Judged × Relay κ) := do
  let pairs := slice r.share r.cursor (some r.perRound)
  let judged ← driveEach pairs (r.arrive E now)
  pure (judged, { r with cursor := (r.cursor + pairs.length) % max r.share.length 1 })

/-- `bytes` out through the transport called `name`: how many went, or the outcome when they did
not. -/
def sent (r : Relay κ) (name : Text) (bytes : List UInt8) : Prog RelayOp (Except Outcome Nat) :=
  if name ∈ r.transports then do
    let back ← carried name bytes
    pure (back.map List.length)
  else
    pure (.error (.failed ("no transport named ".toList ++ name ++ " on this node".toList)))

/-- A claimed handoff judged: a process stage holds the contract over it and hands it on, a send
stage sends it out. -/
def judge (r : Relay κ) (now : Int) (handoff : Handoff) : Prog RelayOp Judged := do
  Prog.perform (.tell (.judged handoff))
  let name := handoff.transport
  let contract := handoff.contract
  match r.fault name contract handoff.round now with
  | some outcome => pure ⟨[r.verdict name contract outcome 0 now], none⟩
  | none =>
    if r.stage = .process then
      -- the bytes are held as they came in, and go on as they came
      let outcome := held E contract handoff.bytes
      pure ⟨[r.verdict name contract outcome 0 now],
        if outcome = .delivered then
          some (r.handoff name contract handoff.round handoff.bytes)
        else none⟩
    else
      let identity := r.sendVerdict name contract handoff.round now
      match ← r.sent name handoff.bytes with
      | .ok bytes => pure ⟨[r.verdict name contract .delivered bytes now, identity], none⟩
      | .error outcome => pure ⟨[r.verdict name contract outcome 0 now, identity], none⟩

/-- What is in the inbox, up to the round's bound, each claimed handoff judged. -/
def drainInbox (r : Relay κ) (now : Int) : Prog RelayOp (List Judged × Relay κ) := do
  let (claimed, unreadable) ← r.inbox.claim r.process r.perRound
  -- files that could not be read are counted and gone
  let r := { r with unreadable := r.unreadable + unreadable }
  let judged ← driveEach claimed (r.judge E now)
  pure (judged, r)

/-- Deliver `handoff` to a node that declared the next stage — the one the pair hashes to — and
record the hop. -/
def handOn (r : Relay κ) (handoff : Handoff) (now : Int) :
    Prog RelayOp (Except Text Unit × Relay κ) :=
  match r.stage.next with
  | none => pure (.error "no stage to hand on to".toList, r)
  | some next =>
    match r.roster.target r.name next handoff.transport handoff.contract with
    | none => pure (.error "no node declares the role the next stage needs".toList, r)
    | some dest => do
      -- the count goes up for every delivery tried, so no two files of one process share it
      let r := { r with sequence := r.sequence + 1 }
      match ← Inbox.deliver (dest, next) handoff r.sequence with
      | .error error =>
        pure (.error ("handoff to ".toList ++ dest ++ " failed: ".toList ++ error), r)
      | .ok () => pure (.ok (), { r with hops := r.hops.record (r.name, r.stage) (dest, next) now })

/-- Whether a Subscription of the node picks a pair up; where none routes, it goes on. -/
def picks (r : Relay κ) (handoff : Handoff) : Prog RelayOp (Except Text Bool) :=
  if r.subscribing then Prog.perform (.route handoff) else pure (.ok true)

/-- A pair handed on where it was picked up. -/
def handOnPicked (r : Relay κ) (now : Int) (handoff : Handoff) :
    Except Text Bool → Prog RelayOp (Except Text Unit × Relay κ)
  | .ok true => r.handOn handoff now
  | .ok false => pure (.ok (), r)
  | .error why => pure (.error why, r)

/-- A pair that delivered handed on, where a Subscription of the node does not hold it; one that
could not be fails here, in words. -/
def handOnJudged (r : Relay κ) (now : Int) (one : Judged) :
    Prog RelayOp (List Verdict × Relay κ) :=
  match one.forward, one.verdicts with
  | some handoff, verdict :: identity => do
    let picked ← r.picks handoff
    let (handed, r) ← r.handOnPicked now handoff picked
    match handed with
    | .ok () => pure (verdict :: identity, r)
    | .error why => pure ({ verdict with outcome := .failed why, bytes := 0 } :: identity, r)
  | _, verdicts => pure (verdicts, r)

variable {S : Type} [Snapshot S]

/-- Every verdict of one pair folded into the ledger. -/
def foldVerdicts (r : Relay κ) (now : Int) (verdicts : List Verdict) (snapshot : S) :
    Relay κ × S :=
  let folded := verdicts.foldl (fun (l, s) v => l.fold v s now) (r.ledger, snapshot)
  ({ r with ledger := folded.1 }, folded.2)

/-- What was judged concluded, pair by pair: handed on, and every verdict folded. -/
def conclude (now : Int) : List Judged → Relay κ → S → Prog RelayOp (Relay κ × S)
  | [], r, snapshot => pure (r, snapshot)
  | one :: rest, r, snapshot => do
    let (verdicts, r) ← r.handOnJudged now one
    -- no call of the source: what is noted of the stage's own verdict
    verdicts.head?.forM fun v => Prog.perform (.tell (.verdict v))
    let (r, snapshot) := r.foldVerdicts now verdicts snapshot
    conclude now rest r snapshot

/-- What a resume let go of handed on, oldest first; what could not be stays held. -/
def handOnReleased (now : Int) : List Handoff → Relay κ → Prog RelayOp (Relay κ)
  | [], r => pure r
  | picked :: rest, r => do
    let (handed, r) ← r.handOn picked now
    Prog.perform (.done picked handed)
    handOnReleased now rest r

/-- What was taken of the Parties' drop box, recorded by a receive stage at
`<node>/drop-box/<protocol>/<party>`. -/
def take (r : Relay κ) (now : Int) (snapshot : S) : Prog RelayOp S := do
  if r.stage = .receive then
    let taken ← Prog.perform .taken
    pure (taken.foldl (fun s (protocol, party, value) =>
      Snapshot.recordCount ⟨r.ledger.node ++ "/drop-box/".toList ++ protocol ++ '/' :: party,
        .streams, value, now, now, now⟩ s) snapshot)
  else pure snapshot

/-- What a round leaves to publish: the snapshot of what was judged, and, where the stage takes
handoffs, how many wait and how many were unreadable. -/
structure Ticked (κ S : Type) where
  snapshot : S
  inbox : Option (Nat × Nat)
  now : Int
  relay : Relay κ

/-- What a round judges: a receive stage its slice of the matrix, any other its inbox. -/
def drive (r : Relay κ) (now : Int) : Prog RelayOp (List Judged × Relay κ) :=
  if r.stage = .receive then r.receive E now else r.drainInbox E now

/-- What a resume let go of, where the node's Subscriptions route. -/
def letGo (r : Relay κ) : Prog RelayOp (List Handoff) :=
  if r.subscribing then Prog.perform .released else pure []

/-- How many handoffs wait in the inbox and how many were unreadable, where the stage takes
handoffs. -/
def inboxCounts (r : Relay κ) : Prog RelayOp (Option (Nat × Nat)) :=
  if r.stage = .receive then pure none
  else do
    let waiting ← r.inbox.waiting
    pure (some (waiting, r.unreadable))

/-- The round up to its links: judge, hand on what delivered, and fold every verdict. -/
def work (r : Relay κ) : Prog RelayOp (Ticked κ S) := do
  let r := { r with round := r.round + 1 }
  let now ← Prog.perform .now
  let (judged, r) ← r.drive E now
  let (r, snapshot) ← conclude now judged r (Snapshot.new : S)
  let released ← r.letGo
  let r ← handOnReleased now released r
  let snapshot ← r.take now (r.ledger.close snapshot now)
  let inbox ← r.inboxCounts
  pure ⟨snapshot, inbox, now, r⟩

/-- The records of the relay's links and of its inbox. -/
def Ticked.records (t : Ticked κ S) : List HealthRecord :=
  t.relay.hops.records t.relay.ledger.node t.inbox t.now

/-- The snapshot to publish. -/
def Ticked.published (t : Ticked κ S) : S :=
  t.records.foldl (fun s record => Snapshot.recordHealth record s) t.snapshot

/-- One round of this node's stage: judge, hand on what delivered, fold every verdict, and the
snapshot to publish. -/
def tick (r : Relay κ) : Prog RelayOp (S × Relay κ) := do
  let ticked ← r.work E
  pure (ticked.published, ticked.relay)

end Relay

end XmipEssentials
