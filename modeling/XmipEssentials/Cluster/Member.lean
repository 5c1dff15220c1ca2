import XmipEssentials.Cluster.Rollup
import XmipEssentials.Handoff

/-!
# One node of the cluster as the cluster holds it

The process, the file it publishes to, and what was last read from it. The cluster asks the machine
by calls (`ClusterOp`): the node's beat, its publication, whether its process has exited. What a
beat and a publication say is read by other crates (`Reading`).
-/

namespace XmipEssentials

open Text Conc

/-- How a process left. -/
structure ExitStatus where
  success : Bool
  said : Text
  deriving DecidableEq, Repr

/-- One beat: when the node said it is alive, and how many rounds it had finished by then. -/
structure Beat where
  unixNanos : Int
  rounds : Nat
  deriving DecidableEq, Repr

/-- One node process and its published state. -/
structure Member (S : Type) where
  name : Text
  /-- Whether a child process is held. -/
  alive : Bool
  exit : Option ExitStatus
  published : S
  hops : List Hop
  fresh : Bool
  restarts : Nat
  /-- When the running process was started. -/
  since : Nat
  /-- When the cluster last saw it beat. -/
  beat : Option Nat
  /-- The beat as last read. -/
  beatText : Text
  /-- How many rounds it said it had finished. -/
  rounds : Nat
  /-- The round count the published snapshot was last read at. -/
  readAt : Option Nat
  /-- How many times the published file was read and parsed. -/
  parses : Nat

/-- A call the cluster makes, by what it answers. -/
inductive ClusterOp (S : Type) : Type → Type where
  /-- The node's beat file, where there is one to read. -/
  | beatText (name : Text) : ClusterOp S (Option Text)
  /-- The node's published file, where there is one to read. -/
  | publication (name : Text) : ClusterOp S (Option Text)
  /-- The time since some start, in nanoseconds. -/
  | instant : ClusterOp S Nat
  /-- The time, in nanoseconds since the epoch. -/
  | now : ClusterOp S Int
  /-- How the node's process exited, if it has. -/
  | tryWait (name : Text) : ClusterOp S (Option ExitStatus)
  /-- Kill the node's process and wait for it. -/
  | kill (name : Text) : ClusterOp S (Option ExitStatus)
  /-- Start the node's process: whether it could be. -/
  | start (name : Text) : ClusterOp S Bool
  /-- Wait a little. -/
  | sleep : ClusterOp S Unit
  /-- No call at all: the node was read, and was `listened` after its beat was. -/
  | read (listened after : Member S) : ClusterOp S Unit

/-- What other crates read of the files, and say of a process. -/
structure Reading (S : Type) where
  beat : Text → Option Beat
  node : Text → Option (S × List Hop)
  /-- What is said of a process that runs. -/
  alive : Text
  /-- Where what is said of a node's process is published, beneath the node. -/
  systemProcess : Text → Text

/-- How the cluster judges a node's liveness. -/
structure Liveness where
  beat : Nat
  missed : Nat
  starting : Nat

/-- Whether a node started `running` ago is hung, given how long ago it last beat. -/
def Liveness.hung (l : Liveness) (running : Nat) (quiet : Option Nat) : Bool :=
  match quiet with
  | some quiet => quiet > l.beat * l.missed
  -- nothing heard yet: it is given its time to start
  | none => running > l.starting

namespace Member

/-- A node just started. -/
def started {S : Type} [Snapshot S] (name : Text) (since : Nat) : Member S where
  name := name
  alive := true
  exit := none
  published := Snapshot.new
  hops := []
  fresh := false
  restarts := 0
  since := since
  beat := none
  beatText := []
  rounds := 0
  readAt := none
  parses := 0

variable {S : Type}

/-- The node runs again, restarted: it has not beaten yet. -/
def restarted (m : Member S) (since : Nat) : Member S :=
  { m with alive := true, exit := none, since := since, beat := none, rounds := 0 }

/-- Read the node's beat alone. A changed beat — even one caught half-written — is a sign of
life. -/
def listen (R : Reading S) (m : Member S) : Prog (ClusterOp S) (Member S) := do
  match ← Prog.perform (.beatText m.name) with
  | none => pure m
  | some text =>
    if text = m.beatText then pure m
    else
      let heard ← Prog.perform .instant
      -- a text that is no beat is a sign of life, and says nothing of the rounds
      let rounds := (R.beat text).elim m.rounds Beat.rounds
      pure { m with rounds, beat := some heard, beatText := text }

/-- The published file read, where the beat says a round was finished since it was last read: then
it is parsed once and marks the node fresh. -/
def readPublished (R : Reading S) (m : Member S) : Prog (ClusterOp S) (Member S) := do
  if m.rounds = 0 ∨ m.readAt = some m.rounds then pure m
  else
    match ← Prog.perform (.publication m.name) with
    | none => pure m
    | some text =>
      match R.node text with
      | none => pure m
      -- parsed once a beat: what it says now is what it said at this count
      | some (snapshot, hops) =>
        pure { m with
          published := snapshot, hops, readAt := some m.rounds, parses := m.parses + 1,
          fresh := true }

/-- Read the node's beat, and its published file only when the beat says so. -/
def read (R : Reading S) (m : Member S) : Prog (ClusterOp S) (Member S) := do
  let listened ← m.listen R
  let after ← listened.readPublished R
  Prog.perform (.read listened after)
  pure after

/-- An exit taken note of. -/
def reap (m : Member S) : Prog (ClusterOp S) (Member S) := do
  if m.alive then
    match ← Prog.perform (.tryWait m.name) with
    | some status => pure { m with exit := some status, alive := false }
    | none => pure m
  else pure m

/-- The process killed, where one is held. -/
def kill (m : Member S) : Prog (ClusterOp S) (Member S) := do
  if m.alive then
    let exit ← Prog.perform (.kill m.name)
    pure { m with exit, alive := false }
  else pure m

/-- Alive as a process and hung by its beats. -/
def hung (liveness : Liveness) (m : Member S) : Prog (ClusterOp S) Bool := do
  if m.alive then
    let now ← Prog.perform .instant
    pure (liveness.hung (now - m.since) (m.beat.map (now - ·)))
  else pure false

/-- What the cluster says of a process that was restarted. -/
def restartedLine (restarts : Nat) : Text :=
  "restarted ".toList ++ decimal restarts ++ " time(s) after it stopped beating (hung)".toList

/-- How the process stands, and why: exited with its code, starting, alive, or restarted. -/
def standing (R : Reading S) (m : Member S) : Health × Text :=
  match m.exit with
  | some status =>
    -- what it exited with goes before all that was heard of it
    if !status.success then (.done, "exited with ".toList ++ status.said)
    else if m.restarts = 0 then (.fine, "exited 0 after its rounds".toList)
    else (.stressed, "exited 0; ".toList ++ restartedLine m.restarts)
  | none =>
    -- a restart is never forgotten
    if m.restarts ≠ 0 then (.stressed, R.alive ++ "; ".toList ++ restartedLine m.restarts)
    else if m.beat.isNone then (.working, "starting, no beat yet".toList)
    else if m.rounds = 0 then
      (.working, "starting: beating, its first round under way".toList)
    else (.fine, R.alive)

/-- The severity of a standing of a process, which stands in one of these ways or is fine. -/
def severity : Health → Nat
  | .done => 90
  | .stressed => 60
  | .working => 20
  | _ => 0

/-- What the cluster knows about the process itself, which the node cannot say. -/
def processRecord (R : Reading S) (root : Text) (m : Member S) (now : Int) : HealthRecord :=
  let (health, evidence) := m.standing R
  ⟨R.systemProcess (nodeScope root m.name), health, severity health, evidence, now⟩

/-- Reap an exit, and restart a node that stopped beating. -/
def judgeProcess (R : Reading S) (liveness : Liveness) (m : Member S) :
    Prog (ClusterOp S) (Member S) := do
  let m ← m.reap
  let m ← m.listen R
  if ← m.hung liveness then
    let m ← m.kill
    let m := { m with restarts := m.restarts + 1 }
    if ← Prog.perform (.start m.name) then
      let since ← Prog.perform .instant
      pure (m.restarted since)
    else pure m
  else pure m

end Member

end XmipEssentials
