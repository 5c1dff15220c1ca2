import XmipEssentials.Cluster.View

/-!
# What of a node reaches the roll

A node's records go up twice by the same merge: into its cluster's view, and from that into the
roll's snapshot. What a node writes lies beneath its own scope, so nothing of another node's comes
in its place (`beneath_unique`), and `mem_rebuiltOf` carries every kind of which one node's turn
keeps what it found and adds what the node has.

The merge names four of the six kinds a node writes. `carried_iff` is the exact condition: a cluster
loses nothing just where no node has a dead message or an unheard Event.
-/

namespace XmipEssentials

open Text Conc Keyed Snapshot

/-- At a scope, or beneath it. -/
def Beneath (scope place : Text) : Prop := place = scope ∨ scope ++ ['/'] <+: place

/-- The node a scope lies beneath is the piece after the branch the nodes hang under. -/
theorem Beneath.piece {root name place : Text} (h : Beneath (nodeScope root name) place)
    (hname : '/' ∉ name) :
    (place.drop ((nodesScope root).length + 1)).takeWhile (· ≠ '/') = name := by
  have hplain : ∀ c ∈ name, (decide (c ≠ '/')) = true := by
    intro c hc
    rw [decide_eq_true_iff]
    exact ne_of_mem_of_not_mem hc hname
  have hnode : nodeScope root name = (nodesScope root ++ ['/']) ++ name := by
    rw [nodeScope, List.append_assoc, List.singleton_append]
  have hlength : (nodesScope root).length + 1 = (nodesScope root ++ ['/']).length := by simp
  rw [hlength]
  rcases h with h | ⟨rest, h⟩
  · rw [h, hnode, List.drop_left, List.takeWhile_eq_self_iff.mpr hplain]
  · rw [← h, hnode, List.append_assoc, List.append_assoc, List.drop_left,
      List.takeWhile_append_of_pos hplain, List.singleton_append]
    simp

/-- A scope lies beneath one node. -/
theorem beneath_unique {root name name' place : Text} (h : Beneath (nodeScope root name) place)
    (h' : Beneath (nodeScope root name') place) (hname : '/' ∉ name) (hname' : '/' ∉ name') :
    name = name' := by
  rw [← h.piece hname, h'.piece hname']

/-- The branch the nodes hang under lies beneath none of them. -/
theorem Beneath.ne_nodesScope {root name place : Text} (h : Beneath (nodeScope root name) place) :
    place ≠ nodesScope root := by
  intro hplace
  have hlength : (nodeScope root name).length ≤ place.length := by
    rcases h with h | h
    · rw [h]
    · have hle := h.length_le
      rw [List.length_append] at hle
      omega
  rw [hplace, nodeScope, List.length_append, List.length_cons] at hlength
  omega

variable {S : Type} [Snapshot S] {R : Reading S} {root : Text} {nodes : List (Member S)}

variable (R root)

/-- The nodes of a cluster publish apart: no two have a name in common, each writes beneath its own
scope, and none of them where the cluster says how its process stands. -/
structure Apart (nodes : List (Member S)) : Prop where
  names : (nodes.map Member.name).Nodup
  plain : ∀ node ∈ nodes, '/' ∉ node.name
  health : ∀ node ∈ nodes, ∀ r ∈ healthRecords node.published,
    Beneath (nodeScope root node.name) r.scope ∧
      r.scope ≠ R.systemProcess (nodeScope root node.name)
  process : ∀ node ∈ nodes,
    Beneath (nodeScope root node.name) (R.systemProcess (nodeScope root node.name))
  counts : ∀ node ∈ nodes, ∀ c ∈ allCounts node.published,
    Beneath (nodeScope root node.name) c.scope
  rows : ∀ node ∈ nodes, ∀ k, ∀ row ∈ rows k node.published, rowNode row = nodeScope root node.name

variable {R root}

/-- **One kind, over every node.** Where the turn of a node keeps what is beneath other nodes and
adds what the node has of a kind, all that any node has of it is there after every turn. -/
theorem mem_rebuiltOf {α : Type} {all : S → List α} (place : α → Text) (now : Int)
    (hnames : (nodes.map Member.name).Nodup) (hplain : ∀ node ∈ nodes, '/' ∉ node.name)
    (hplace : ∀ node ∈ nodes, ∀ x ∈ all node.published,
      Beneath (nodeScope root node.name) (place x))
    (hturn : ∀ node ∈ nodes, ∀ view x,
      (x ∈ all node.published ∨ (x ∈ all view ∧ ¬Beneath (nodeScope root node.name) (place x))) →
        x ∈ all (recordHealth (node.processRecord R root now) (merge view node.published)))
    {node : Member S} (hnode : node ∈ nodes) {x : α} (hx : x ∈ all node.published) (view : S) :
    x ∈ all (rebuiltOf R root now nodes view) := by
  -- What is beneath none of the nodes to come stays.
  have hstays : ∀ (rest : List (Member S)) (view : S), (∀ m ∈ rest, m ∈ nodes) →
      (∀ m ∈ rest, ¬Beneath (nodeScope root m.name) (place x)) → x ∈ all view →
      x ∈ all (rebuiltOf R root now rest view) := by
    intro rest
    induction rest with
    | nil => exact fun _ _ _ hview => hview
    | cons m rest ih =>
      intro view hrest helsewhere hview
      rw [List.forall_mem_cons] at hrest helsewhere
      exact ih _ hrest.2 helsewhere.2 (hturn m hrest.1 view x (.inr ⟨hview, helsewhere.1⟩))
  obtain ⟨before, rest, rfl⟩ := List.append_of_mem hnode
  have hsplit : rebuiltOf R root now (before ++ node :: rest) view =
      rebuiltOf R root now (node :: rest) (rebuiltOf R root now before view) := by
    clear hnames hplain hplace hturn hnode hstays
    induction before generalizing view with
    | nil => rfl
    | cons m before ih => exact ih _
  rw [hsplit]
  refine hstays rest _ (fun m hm => by simp [hm]) (fun m hm hbeneath => ?_)
    (hturn node hnode _ x (.inl hx))
  -- Another node that it were beneath would have the same name.
  have hm : m ∈ before ++ node :: rest := by simp [hm]
  have hsame := beneath_unique (hplace node hnode x hx) hbeneath (hplain node hnode) (hplain m hm)
  rw [List.map_append, List.map_cons, List.nodup_append] at hnames
  have hnot := (List.nodup_cons.mp hnames.2.1).1
  exact hnot (List.mem_map.mpr ⟨m, ‹m ∈ rest›, hsame.symm⟩)

/-! ### Kind by kind -/

section Kinds

variable (keeps : Snapshot.Keeps S) (apart : Apart R root nodes) {node : Member S}
  (hnode : node ∈ nodes) (now : Int)

include keeps apart hnode

private theorem health_carried {r : HealthRecord} (hr : r ∈ healthRecords node.published) :
    r ∈ healthRecords (Cluster.rebuild R root nodes now) := by
  have hscope := (apart.health node hnode r hr).1
  unfold Cluster.rebuild
  dsimp only
  -- the rollup adds a record of its own scope, which is no node's
  rw [keeps.health.mem_record, rollup_scope]
  refine .inr ⟨?_, hscope.ne_nodesScope⟩
  refine mem_rebuiltOf HealthRecord.scope now apart.names apart.plain
    (fun m hm x hx => (apart.health m hm x hx).1) ?_ hnode hr new
  intro m hm view x hx
  rw [keeps.health.mem_record, mem_health_merge keeps]
  have hprocess : (m.processRecord R root now).scope = R.systemProcess (nodeScope root m.name) :=
    rfl
  rw [hprocess]
  -- merged onto the view it stays; where the view had it already, no other node's record replaces
  -- it
  rcases hx with hx | ⟨hx, helsewhere⟩
  · exact .inr ⟨.inl hx, (apart.health m hm x hx).2⟩
  · refine .inr ⟨.inr ⟨hx, fun hmem => ?_⟩, fun hsame => ?_⟩
    · obtain ⟨y, hy, hsame⟩ := List.mem_map.mp hmem
      rw [← hsame] at helsewhere
      exact helsewhere (apart.health m hm y hy).1
    · rw [hsame] at helsewhere
      exact helsewhere (apart.process m hm)

private theorem counts_carried {c : Count} (hc : c ∈ allCounts node.published) :
    c ∈ allCounts (Cluster.rebuild R root nodes now) := by
  unfold Cluster.rebuild
  dsimp only
  rw [keeps.counts_recordHealth]
  refine mem_rebuiltOf Count.scope now apart.names apart.plain apart.counts ?_ hnode hc
    new
  intro m hm view x hx
  rw [keeps.counts_recordHealth, mem_counts_merge keeps]
  refine hx.imp_right fun ⟨hx, helsewhere⟩ => ⟨hx, fun hmem => ?_⟩
  obtain ⟨y, hy, hsame⟩ := List.mem_map.mp hmem
  have hscope : y.scope = x.scope := congrArg Prod.fst hsame
  rw [← hscope] at helsewhere
  exact helsewhere (apart.counts m hm y hy)

/-- A kind of row that the merge names. -/
theorem rows_carried {k : RowKind}
    (hmerge : ∀ (x : Row S k) (into source : S), x ∈ rows k (merge into source) ↔
      x ∈ rows k source ∨ (x ∈ rows k into ∧ rowKey x ∉ (rows k source).map rowKey))
    {row : Row S k} (hrow : row ∈ rows k node.published) :
    row ∈ rows k (Cluster.rebuild R root nodes now) := by
  unfold Cluster.rebuild
  dsimp only
  rw [keeps.rows_recordHealth]
  refine mem_rebuiltOf rowNode now apart.names apart.plain
    (fun m hm x hx => .inl (apart.rows m hm k x hx)) ?_ hnode hrow new
  intro m hm view x hx
  rw [keeps.rows_recordHealth, hmerge]
  refine hx.imp_right fun ⟨hx, helsewhere⟩ => ⟨hx, fun hmem => ?_⟩
  obtain ⟨y, hy, hsame⟩ := List.mem_map.mp hmem
  have hplace : rowNode y = rowNode x := congrArg Prod.fst hsame
  rw [← hplace] at helsewhere
  exact helsewhere (.inl (apart.rows m hm k y hy))

end Kinds

/-- Of a kind that the merge does not name, a cluster's view holds none. -/
theorem rows_rebuild_of_ne (keeps : Snapshot.Keeps S) {k : RowKind} (hk : k ≠ .subscription)
    (hk' : k ≠ .eventSubscription) (nodes : List (Member S)) (now : Int) :
    rows k (Cluster.rebuild R root nodes now) = [] := by
  have hall : ∀ view : S, rows k (rebuiltOf R root now nodes view) = rows k view := by
    induction nodes with
    | nil => exact fun _ => rfl
    | cons node nodes ih =>
      intro view
      unfold rebuiltOf
      rw [ih, keeps.rows_recordHealth, rows_merge_of_ne keeps hk hk']
  unfold Cluster.rebuild
  dsimp only
  rw [keeps.rows_recordHealth, hall, keeps.rows_new]

/-! ### Nothing lost -/

/-- Every record of every kind that was published is in a view. -/
structure Carried (published view : S) : Prop where
  health : ∀ r ∈ healthRecords published, r ∈ healthRecords view
  counts : ∀ c ∈ allCounts published, c ∈ allCounts view
  rows : ∀ k, ∀ row ∈ rows k published, row ∈ rows k view

/-- The view a cluster assembles of its nodes. -/
abbrev Cluster.assembled (R : Reading S) (root : Text) (nodes : List (Member S)) (now : Int) : S :=
  Cluster.assemble root nodes (nodes.map fun node => node.processRecord R root now) now

/-- **What goes up, and what does not.** Everything every node published is in the cluster's view
and in the roll's snapshot just where no node published a dead message or an unheard Event. -/
theorem carried_iff (keeps : Snapshot.Keeps S) (apart : Apart R root nodes) (now : Int) (base : S) :
    (∀ node ∈ nodes, Carried node.published (Cluster.assembled R root nodes now) ∧
        Carried node.published (merge base (Cluster.assembled R root nodes now))) ↔
      ∀ node ∈ nodes, rows .deadMessage node.published = [] ∧
        rows .unheardEvent node.published = [] := by
  unfold Cluster.assembled
  rw [Cluster.assemble_eq_rebuild]
  constructor
  · intro hall node hnode
    -- a kind the rebuild does not merge is published of no node
    have hnone (k : RowKind) (hk : k ≠ .subscription) (hk' : k ≠ .eventSubscription) :
        rows k node.published = [] := by
      rw [List.eq_nil_iff_forall_not_mem]
      intro row hrow
      have hmem := (hall node hnode).1.rows k row hrow
      rw [rows_rebuild_of_ne keeps hk hk'] at hmem
      exact List.not_mem_nil hmem
    exact ⟨hnone _ nofun nofun, hnone _ nofun nofun⟩
  · intro hnone node hnode
    -- the two kinds merged are carried, and of the two others there is nothing to carry
    have hview : Carried node.published (Cluster.rebuild R root nodes now) := by
      refine ⟨fun r => health_carried keeps apart hnode now,
        fun c => counts_carried keeps apart hnode now, fun k row hrow => ?_⟩
      cases k with
      | subscription =>
        exact rows_carried keeps apart hnode now (mem_subscriptions_merge keeps) hrow
      | eventSubscription =>
        exact rows_carried keeps apart hnode now (mem_eventSubscriptions_merge keeps) hrow
      | deadMessage =>
        rw [(hnone node hnode).1] at hrow
        cases hrow
      | unheardEvent =>
        rw [(hnone node hnode).2] at hrow
        cases hrow
    -- merging onto a base takes nothing away from the view
    refine ⟨hview, fun r hr => ?_, fun c hc => ?_, fun k row hrow => ?_⟩
    · exact (mem_health_merge keeps r base _).mpr (.inl (hview.health r hr))
    · exact (mem_counts_merge keeps c base _).mpr (.inl (hview.counts c hc))
    · cases k with
      | subscription =>
        exact (mem_subscriptions_merge keeps row base _).mpr (.inl (hview.rows _ row hrow))
      | eventSubscription =>
        exact (mem_eventSubscriptions_merge keeps row base _).mpr (.inl (hview.rows _ row hrow))
      | deadMessage =>
        rw [(hnone node hnode).1] at hrow
        cases hrow
      | unheardEvent =>
        rw [(hnone node hnode).2] at hrow
        cases hrow

/-! A node with a Subscription and a dead message: the one goes up, the other does not. -/

section DeadMessage

/-- What the node says of its stage. -/
def deadStage : HealthRecord :=
  ⟨nodeScope "c".toList "a".toList ++ ['/'] ++ "receive".toList, .fine, 0, "3 of 3".toList, 5⟩

def deadSubscription : Row Records .subscription :=
  NodeRow.mk (nodeScope "c".toList "a".toList) "orders".toList "standing".toList

def deadMessage : Row Records .deadMessage :=
  NodeRow.mk (nodeScope "c".toList "a".toList) "1".toList "unmatched".toList

/-- What the node publishes. -/
def deadPublished : Records :=
  recordRow (S := Records) (k := .deadMessage) deadMessage
    (recordRow (S := Records) (k := .subscription) deadSubscription
      (recordHealth deadStage (new : Records)))

def deadNode : Member Records :=
  { (Member.started "a".toList 0 : Member Records) with published := deadPublished }

private theorem apart_deadNode : Apart Cluster.oneReading "c".toList [deadNode] where
  names := List.nodup_singleton _
  plain := by
    rw [List.forall_mem_singleton]
    simp [deadNode, Member.started]
  health := by
    rw [List.forall_mem_singleton]
    intro r hr
    obtain rfl : r = deadStage := List.mem_singleton.mp hr
    exact ⟨.inr ⟨"receive".toList, rfl⟩, by
      simp [deadStage, Cluster.oneReading, nodeScope, deadNode, Member.started]⟩
  process := by
    rw [List.forall_mem_singleton]
    exact .inr ⟨"system-process".toList, by simp [Cluster.oneReading]⟩
  counts := by
    rw [List.forall_mem_singleton]
    intro c hc
    exact absurd hc List.not_mem_nil
  rows := by
    rw [List.forall_mem_singleton]
    intro k row hrow
    cases k with
    | subscription =>
      obtain rfl : row = deadSubscription := List.mem_singleton.mp hrow
      rfl
    | deadMessage =>
      obtain rfl : row = deadMessage := List.mem_singleton.mp hrow
      rfl
    | eventSubscription => cases hrow
    | unheardEvent => cases hrow

theorem not_carried_deadNode :
    Apart Cluster.oneReading "c".toList [deadNode] ∧
      ¬Carried deadNode.published
        (Cluster.assembled Cluster.oneReading "c".toList [deadNode] 7) := by
  refine ⟨apart_deadNode, fun hall => ?_⟩
  have hmem := hall.rows .deadMessage deadMessage (List.mem_singleton.mpr rfl)
  cases hmem

/-- Without its dead message the node loses nothing, its Subscription included. -/
def quietNode : Member Records :=
  { (Member.started "a".toList 0 : Member Records) with
    published := recordRow (S := Records) (k := .subscription) deadSubscription
      (recordHealth deadStage (new : Records)) }

private theorem apart_quietNode : Apart Cluster.oneReading "c".toList [quietNode] where
  names := List.nodup_singleton _
  plain := by
    rw [List.forall_mem_singleton]
    simp [quietNode, Member.started]
  health := by
    rw [List.forall_mem_singleton]
    exact apart_deadNode.health deadNode (List.mem_singleton.mpr rfl)
  process := by
    rw [List.forall_mem_singleton]
    exact apart_deadNode.process deadNode (List.mem_singleton.mpr rfl)
  counts := by
    rw [List.forall_mem_singleton]
    intro c hc
    exact absurd hc List.not_mem_nil
  rows := by
    rw [List.forall_mem_singleton]
    intro k row hrow
    cases k with
    | subscription =>
      obtain rfl : row = deadSubscription := List.mem_singleton.mp hrow
      rfl
    | deadMessage => cases hrow
    | eventSubscription => cases hrow
    | unheardEvent => cases hrow

theorem carried_quietNode :
    Carried quietNode.published (Cluster.assembled Cluster.oneReading "c".toList [quietNode] 7) ∧
      Carried quietNode.published (merge new
        (Cluster.assembled Cluster.oneReading "c".toList [quietNode] 7)) := by
  refine (carried_iff Records.keeps apart_quietNode 7 new).mpr ?_ quietNode
    (List.mem_singleton.mpr rfl)
  rw [List.forall_mem_singleton]
  exact ⟨rfl, rfl⟩

end DeadMessage

end XmipEssentials
