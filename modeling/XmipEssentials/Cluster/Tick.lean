import XmipEssentials.Cluster.Member

/-!
# The cluster: its node processes, and the view of them

Each tick the cluster reads what its nodes beat and published, restarts the hung, and, where
anything changed, merges what each published and adds the record of each process and the rollup
(`Cluster.tick`). The view is kept between ticks.
-/

namespace XmipEssentials

open Text Conc Keyed Snapshot

/-- The node processes, and what the cluster knows about each. -/
structure Cluster (S : Type) where
  liveness : Liveness
  nodes : List (Member S)
  /-- The cluster's view as last assembled. -/
  view : S
  /-- What the cluster last said of each node's process. -/
  said : List (Health × Text)
  /-- Whether the last tick changed the view. -/
  changed : Bool

/-- How long a tick waits for every live node to publish something new, in nanoseconds. -/
def grace : Nat := 2000000000

/-- How many times a tick can sleep a fortieth of a second before its grace is over. -/
def gracePolls : Nat := 81

namespace Cluster

variable {S : Type} [Snapshot S] (R : Reading S) (root : Text)

/-- The nodes of these names started, one after another, as far as they can be. -/
def startAll : List Text → Prog (ClusterOp S) (Option (List (Member S)))
  | [] => pure (some [])
  | name :: names => do
    if ← Prog.perform (.start name) then
      let since ← Prog.perform .instant
      match ← startAll names with
      -- the clock is read once for each, as it is started
      | some nodes => pure (some (Member.started name since :: nodes))
      | none => pure none
    else pure none

/-- A node process spawned for each name, or none where one could not be started. -/
def spawn (liveness : Liveness) (names : List Text) : Prog (ClusterOp S) (Option (Cluster S)) := do
  match ← startAll names with
  | some nodes => pure (some { liveness, nodes, view := new, said := [], changed := false })
  | none => pure none

/-- Every node read, again and again, until each is fresh or no longer alive, or the grace is
over. -/
def awaitFresh (started : Nat) : Nat → List (Member S) → Prog (ClusterOp S) (List (Member S))
  | 0, nodes => Prog.each (Member.read R) nodes
  | polls + 1, nodes => do
    let nodes ← Prog.each (Member.read R) nodes
    -- what exited is not waited for
    if nodes.all fun node => node.fresh || !node.alive then pure nodes
    else
      let now ← Prog.perform .instant
      if now - started > grace then pure nodes
      else
        Prog.perform .sleep
        awaitFresh started polls nodes

/-- The view assembled of what each node published and what is said of its process. -/
def assemble (nodes : List (Member S)) (records : List HealthRecord) (now : Int) : S :=
  let view := (nodes.zip records).foldl
    (fun view one => recordHealth one.2 (merge view one.1.published)) (new : S)
  recordHealth (rollup root view nodes.length now) view

/-- One round of the surface: wait, within a grace period, for every live node to publish anew;
restart the hung; and, where anything changed, assemble the view. -/
def tick (c : Cluster S) : Prog (ClusterOp S) (Cluster S) := do
  let started ← Prog.perform .instant
  let nodes ← awaitFresh R started gracePolls (c.nodes.map fun node => { node with fresh := false })
  let nodes ← Prog.each (Member.judgeProcess R c.liveness) nodes
  let now ← Prog.perform .now
  let records := nodes.map fun node => node.processRecord R root now
  -- their times apart, the records are what was said
  let said := records.map fun record => (record.health, record.evidence)
  if said ≠ c.said ∨ nodes.any Member.fresh then
    pure { c with nodes, view := assemble root nodes records now, said, changed := true }
  else pure { c with nodes, changed := false }

end Cluster

end XmipEssentials
