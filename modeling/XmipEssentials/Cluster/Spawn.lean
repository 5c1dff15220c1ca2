import XmipEssentials.Cluster.Orders
import XmipEssentials.Roles

/-!
# What a cluster starts its nodes as

One process a name, each publishing to a file called after it and told what the roster finds under
its name. The door checks that a name is one a file can carry, not that it is one node's: the roster
looks a name up at the first entry that has it, its case aside, and the files of two nodes of one
name are one.

`spawn_apart_iff` says for which orders the nodes are told apart, and `not_apart_repeated` that the
door takes others.
-/

namespace XmipEssentials

open Text

variable {κ : Type} [Capability κ]

/-! ### Starting the nodes -/

/-- A node as the cluster starts it. -/
structure Spawned (κ : Type) where
  name : Text
  /-- The file it publishes to. -/
  path : Text
  /-- What it is told it can do. -/
  declares : κ

/-- The nodes of the orders, each as it is to be started. -/
def Orders.spawnings (environment : Text → Bool) (o : Orders κ) (snapshots : Text) :
    List (Spawned κ) :=
  o.names.map fun name =>
    ⟨name, snapshots ++ '/' :: name ++ ".xmip".toList, o.capability environment name⟩

namespace Cluster

/-- The nodes started in turn, as `start` says whether one can be; the first that cannot is the
cluster's own failure. -/
def judged (start : Spawned κ → Except Text Unit) :
    List (Spawned κ) → Except Text (List (Spawned κ))
  | [] => .ok []
  | node :: rest => do
    start node
    let spawned ← judged start rest
    pure (node :: spawned)

omit [Capability κ] in
/-- A cluster that is spawned has started every node. -/
theorem judged_eq_ok {start : Spawned κ → Except Text Unit} {nodes spawned : List (Spawned κ)}
    (h : judged start nodes = .ok spawned) : spawned = nodes := by
  induction nodes generalizing spawned with
  | nil => exact (Except.ok.inj h).symm
  | cons node rest ih =>
    unfold judged at h
    -- the start of one is refused: then the start of all is
    cases hstart : start node with
    | error why =>
      rw [hstart] at h
      cases h
    | ok started =>
      rw [hstart] at h
      cases hrest : judged start rest with
      | error why =>
        rw [hrest] at h
        cases h
      | ok others =>
        rw [hrest] at h
        rw [← ih hrest]
        exact (Except.ok.inj h).symm

/-- Two nodes told apart, their case aside: by name, and by the file each publishes to. -/
def Apart (a b : Spawned κ) : Prop :=
  eqIgnoreAsciiCase a.name b.name = false ∧ eqIgnoreAsciiCase a.path b.path = false

/-- The node is the entry's: it has its name, and is told its roles. -/
def IsOf (entry : Text × κ) (node : Spawned κ) : Prop :=
  node.name = entry.1 ∧ SameRoles node.declares entry.2

/-- The files of two nodes are called as the nodes are. -/
theorem eqIgnoreAsciiCase_path (snapshots a b : Text) :
    eqIgnoreAsciiCase (snapshots ++ '/' :: a ++ ".xmip".toList)
      (snapshots ++ '/' :: b ++ ".xmip".toList) = eqIgnoreAsciiCase a b := by
  rw [Bool.eq_iff_iff, eqIgnoreAsciiCase_iff, eqIgnoreAsciiCase_iff]
  simp only [List.map_append, List.map_cons, List.append_left_inj, List.append_right_inj,
    List.cons.injEq, true_and]

variable {start : Spawned κ → Except Text Unit} {environment : Text → Bool} {o : Orders κ}
  {snapshots : Text} {spawned : List (Spawned κ)}

private theorem pairwise_apart_spawnings :
    (o.spawnings environment snapshots).Pairwise Apart ↔
      o.names.Pairwise fun a b => eqIgnoreAsciiCase a b = false := by
  unfold Orders.spawnings
  rw [List.pairwise_map]
  unfold Apart
  simp only [eqIgnoreAsciiCase_path, and_self]

/-- **A cluster told apart.** The nodes a cluster has spawned differ by name and by file, case
aside, and each is told the roles of its own entry of the roster, just where no two entries have the
same name, case aside. -/
theorem spawn_apart_iff (keeps : ∀ online (c : κ), SameRoles (Capability.withOnline online c) c)
    (h : judged start (o.spawnings environment snapshots) = .ok spawned) :
    (spawned.Pairwise Apart ∧ List.Forall₂ IsOf o.roster.nodes spawned) ↔
      o.names.Pairwise fun a b => eqIgnoreAsciiCase a b = false := by
  obtain rfl := judged_eq_ok h
  rw [pairwise_apart_spawnings]
  apply and_iff_left_of_imp
  intro hdistinct
  unfold Orders.spawnings Orders.names Roster.names
  rw [List.map_map, List.forall₂_map_right_iff, List.forall₂_same]
  intro entry hentry
  refine ⟨rfl, ?_⟩
  have hfound : o.roster.capability entry.1 = entry.2 := Roster.capability_of_mem hdistinct hentry
  have hroles := keeps (o.isOnline environment entry.1) (o.roster.capability entry.1)
  rw [hfound] at hroles
  change SameRoles (o.capability environment entry.1) entry.2
  unfold Orders.capability
  rwa [hfound]

/-- The orders of a roster, every node offline. -/
def offline (nodes : List (Text × Roles)) : Orders Roles := ⟨⟨nodes⟩, some [], []⟩

/-- Nodes that cover the path between them. -/
def path : List (Text × Roles) :=
  [(['a'], { Roles.nothing with receiving := true }),
    (['b'], { Roles.nothing with processing := true }),
    (['c'], { Roles.nothing with sending := true })]

theorem spawn_apart_path :
    ((offline path).spawnings (fun _ => false) []).Pairwise Apart ∧
      List.Forall₂ IsOf path ((offline path).spawnings (fun _ => false) []) := by
  have hspawn : judged (fun _ => .ok ()) ((offline path).spawnings (fun _ => false) []) =
      .ok ((offline path).spawnings (fun _ => false) []) := rfl
  have hkeeps (online : Bool) (r : Roles) : SameRoles (Capability.withOnline online r) r :=
    ⟨fun _ => rfl, rfl, rfl⟩
  exact (spawn_apart_iff hkeeps hspawn).mpr (by decide)

/-- The nodes of a path, and one more whose name is the first's but for its case. -/
def repeated : List (Text × Roles) := path ++ [(['A'], { Roles.nothing with sending := true })]

/-- The door takes a roster of two nodes it cannot tell apart, and the second is told the roles of
the first. -/
theorem not_apart_repeated :
    (offline repeated).refusal = none ∧
      ¬((offline repeated).spawnings (fun _ => false) []).Pairwise Apart ∧
      ¬List.Forall₂ IsOf repeated ((offline repeated).spawnings (fun _ => false) []) := by
  refine ⟨by decide, fun happart => ?_, fun hforall => ?_⟩
  · exact absurd (pairwise_apart_spawnings.mp happart) (by decide)
  · have hlast := (List.forall₂_iff_get.mp hforall).2 3 (by decide) (by decide)
    exact absurd (hlast.2.can .receive) (by decide)

end Cluster

end XmipEssentials
