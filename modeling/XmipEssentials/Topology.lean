import XmipEssentials.Handoff
import XmipEssentials.Roles

/-!
# The handoff links a roll draws

Between the stages of different nodes a roll draws the pairs the roster configures and the pairs
handed over, once each. A configured pair is any node of a stage and any of the next; where a pair
goes is the roster's choice (`Roster.target`), which for an executing node is itself.

`configured_agrees_iff` says of which nodes the configured pairs lead where pairs go: of every one
that is not executing, and of an executing one only where no other node serves the next stage.
-/

namespace XmipEssentials

open Text

/-- The stage of that name. -/
def Stage.named (name : Text) : Option Stage := Stage.all.find? fun stage => stage.name = name

/-- A pair of stages a handoff runs between: from a node's stage to a node's stage. -/
structure Pair where
  sender : Text
  source : Stage
  receiver : Text
  dest : Stage
  deriving DecidableEq, Repr

/-- A pair as it is drawn: whether it is configured, and how many handoffs went over it. -/
structure DrawnPair where
  pair : Pair
  configured : Bool
  count : Nat
  deriving DecidableEq, Repr

/-- Where a link is known of. -/
inductive Origin where
  | configured
  | both
  | observed
  deriving DecidableEq, Repr

/-- A handoff link: its ends, where it is known of, its volume, and the state and the words of what
is worst at either end. -/
structure TopologyLink (μ : Type) where
  id : Text
  source : Text
  dest : Text
  origin : Origin
  state : μ
  volume : Nat
  evidence : Text

namespace Topology

variable {κ : Type} [Capability κ] {μ : Type}

/-! ### Drawing -/

/-- Every pair of stages the roster configures a handoff between: receive to process, process to
send, over the nodes that declared each. -/
def configuredPairs (r : Roster κ) : List Pair :=
  [(Stage.receive, Stage.process), (Stage.process, Stage.send)].flatMap fun stages =>
    (r.withStage stages.1).flatMap fun sender =>
      (r.withStage stages.2).map fun receiver => ⟨sender, stages.1, receiver, stages.2⟩

/-- A hop of that pair counted: on the first that is drawn of it, else on one drawn anew. -/
def counted (pair : Pair) (count : Nat) : List DrawnPair → List DrawnPair
  | [] => [⟨pair, false, count⟩]
  | drawn :: rest =>
    if drawn.pair = pair then { drawn with count := drawn.count + count } :: rest
    else drawn :: counted pair count rest

/-- A hop drawn, where its ends are stages. -/
def hopDrawn (pairs : List DrawnPair) (hop : Hop) : List DrawnPair :=
  match Stage.named hop.senderStage, Stage.named hop.receiverStage with
  | some source, some dest => counted ⟨hop.sender, source, hop.receiver, dest⟩ hop.count pairs
  | _, _ => pairs

/-- Every pair to draw. -/
def drawnPairs (configured : Option (Roster κ)) (hops : List Hop) : List DrawnPair :=
  hops.foldl hopDrawn
    (((configured.map configuredPairs).getD []).map fun pair => ⟨pair, true, 0⟩)

/-- One link drawn of what is known of its pair: `worst` says the state and the words of what is
worst at the scopes of its two ends, and `nodeId` what a node is drawn as. -/
def link (root : Text) (nodeId : Text → Text) (worst : List Text → μ × Text) (drawn : DrawnPair) :
    TopologyLink μ :=
  let pair := drawn.pair
  let said := worst [root ++ "/node/".toList ++ pair.sender ++ '/' :: pair.source.name,
    root ++ "/node/".toList ++ pair.receiver ++ '/' :: pair.dest.name]
  let between := pair.sender ++ " to ".toList ++ pair.receiver
  let handed := decimal drawn.count ++ " handoffs ".toList ++ between
  let (origin, words) :=
    if drawn.configured then
      if drawn.count = 0 then
        (Origin.configured, "configured ".toList ++ between ++ "; no handoff observed yet".toList)
      else (.both, handed)
    else (.observed, handed ++ ", which no configuration declares".toList)
  { id := "handoff/".toList ++ pair.sender ++ '/' :: pair.source.name ++ '/' :: pair.receiver ++
      '/' :: pair.dest.name
    source := nodeId pair.sender ++ '/' :: pair.source.name
    dest := nodeId pair.receiver ++ '/' :: pair.dest.name
    origin
    state := said.1
    volume := drawn.count
    evidence := words ++ "; worst leaf at either end: ".toList ++ said.2 }

/-- The handoff links. -/
def handoffLinks (root : Text) (nodeId : Text → Text) (worst : List Text → μ × Text)
    (configured : Option (Roster κ)) (hops : List Hop) : List (TopologyLink μ) :=
  (drawnPairs configured hops).map (link root nodeId worst)

/-! ### What is configured -/

variable {r : Roster κ} {hops : List Hop} {pair : Pair} {node dest : Text} {stage next : Stage}

private theorem mem_configuredPairs : pair ∈ configuredPairs r ↔ pair.source.next = some pair.dest ∧
    pair.sender ∈ r.withStage pair.source ∧ pair.receiver ∈ r.withStage pair.dest := by
  obtain ⟨sender, source, receiver, dest⟩ := pair
  unfold configuredPairs
  rw [List.mem_flatMap]
  constructor
  · rintro ⟨stages, hstages, hpair⟩
    obtain ⟨one, hone, hpair⟩ := List.mem_flatMap.mp hpair
    obtain ⟨other, hother, heq⟩ := List.mem_map.mp hpair
    cases heq
    refine ⟨?_, hone, hother⟩
    -- a pair is of two stages one after the other, and there are two such
    rcases List.mem_cons.mp hstages with rfl | hstages
    · rfl
    · rw [List.mem_singleton.mp hstages]
      rfl
  · rintro ⟨hnext, hsender, hreceiver⟩
    refine ⟨(source, dest), ?_, List.mem_flatMap.mpr ⟨sender, hsender, ?_⟩⟩
    · -- after the last stage there is none, and no pair
      cases source with
      | receive =>
        cases hnext
        exact List.mem_cons_self
      | process =>
        cases hnext
        exact List.mem_cons_of_mem _ List.mem_cons_self
      | send => cases hnext
    · exact List.mem_map_of_mem hreceiver

/-- Counting a hop configures nothing, and loses nothing configured. -/
theorem configured_counted {other : Pair} {count : Nat} {pairs : List DrawnPair} :
    (∃ n, ⟨pair, true, n⟩ ∈ counted other count pairs) ↔ ∃ n, ⟨pair, true, n⟩ ∈ pairs := by
  induction pairs with
  | nil => simp [counted]
  | cons drawn rest ih =>
    obtain ⟨one, configured, m⟩ := drawn
    unfold counted
    -- counted where it is drawn already; else the count says nothing of it
    split
    · simp only [List.mem_cons, DrawnPair.mk.injEq, exists_or]
      apply or_congr_left
      constructor
      · rintro ⟨n, rfl, hconfigured, -⟩
        exact ⟨m, rfl, hconfigured, rfl⟩
      · rintro ⟨n, rfl, hconfigured, -⟩
        exact ⟨m + count, rfl, hconfigured, rfl⟩
    · simp only [List.mem_cons, exists_or]
      exact or_congr_right ih

private theorem configured_hopDrawn {hop : Hop} {pairs : List DrawnPair} :
    (∃ n, ⟨pair, true, n⟩ ∈ hopDrawn pairs hop) ↔ ∃ n, ⟨pair, true, n⟩ ∈ pairs := by
  unfold hopDrawn
  split
  · exact configured_counted
  · rfl

/-- **What is drawn as configured** is what the roster configures, whatever was handed over. -/
theorem configured_drawnPairs :
    (∃ n, ⟨pair, true, n⟩ ∈ drawnPairs (some r) hops) ↔ pair ∈ configuredPairs r := by
  have hfold (pairs : List DrawnPair) : (∃ n, ⟨pair, true, n⟩ ∈ hops.foldl hopDrawn pairs) ↔
      ∃ n, ⟨pair, true, n⟩ ∈ pairs := by
    induction hops generalizing pairs with
    | nil => rfl
    | cons hop hops ih => exact (ih (hopDrawn pairs hop)).trans configured_hopDrawn
  unfold drawnPairs
  rw [hfold, Option.map_some, Option.getD_some]
  simp

/-! ### Where pairs go -/

/-- The links drawn as configured out of `node` at `stage` lead where its pairs go: to itself where
it is executing, else to the nodes of the next stage; and the roster's choice is among them for
every pair. -/
def Agrees (r : Roster κ) (hops : List Hop) (node : Text) (stage next : Stage) : Prop :=
  (∀ dest, (∃ n, ⟨⟨node, stage, dest, next⟩, true, n⟩ ∈ drawnPairs (some r) hops) ↔
      if Capability.executes (r.capability node) then dest = node else dest ∈ r.withStage next) ∧
    ∀ transport contract, ∃ dest, r.target node next transport contract = some dest ∧
      ∃ n, ⟨⟨node, stage, dest, next⟩, true, n⟩ ∈ drawnPairs (some r) hops

/-- The links out of a node of a stage lead to the nodes of the next. -/
theorem configured_iff (hnext : stage.next = some next) (hnode : node ∈ r.withStage stage) :
    (∃ n, ⟨⟨node, stage, dest, next⟩, true, n⟩ ∈ drawnPairs (some r) hops) ↔
      dest ∈ r.withStage next := by
  rw [configured_drawnPairs, mem_configuredPairs]
  exact (and_iff_right hnext).trans (and_iff_right hnode)

/-- **Where the picture agrees with the placement.** On a path that is covered, the configured links
out of a node lead where its pairs go just where the node is not executing, or no other serves the
next stage. -/
theorem configured_agrees_iff (hcovers : r.coversThePath = true) (hnext : stage.next = some next)
    (hnode : node ∈ r.withStage stage) : Agrees r hops node stage next ↔
      (Capability.executes (r.capability node) = true →
        ∀ dest ∈ r.withStage next, dest = node) := by
  unfold Agrees
  simp only [configured_iff hnext hnode]
  constructor
  · intro hagrees hexecutes dest hdest
    have hleads := (hagrees.1 dest).mp hdest
    rwa [if_pos hexecutes] at hleads
  · intro halone
    cases hexecutes : Capability.executes (r.capability node) with
    | true =>
      -- Some node serves the next stage, and it is this one.
      have hself : node ∈ r.withStage next := by
        obtain ⟨dest, hdest⟩ :=
          List.exists_mem_of_ne_nil _ (Roster.coversThePath_iff.mp hcovers next)
        rwa [halone hexecutes dest hdest] at hdest
      refine ⟨fun dest => ?_, fun transport contract => ⟨node, ?_, hself⟩⟩
      · rw [if_pos rfl]
        constructor
        · exact halone hexecutes dest
        · rintro rfl
          exact hself
      · exact Roster.target_of_executes hexecutes
    | false =>
      constructor
      · intro dest
        rw [if_neg Bool.false_ne_true]
      · intro transport contract
        obtain ⟨dest, hdest⟩ := Option.isSome_iff_exists.mp
          (Roster.target_isSome (Roster.coversThePath_iff.mp hcovers next) :
            (r.target node next transport contract).isSome = true)
        exact ⟨dest, hdest, Roster.target_mem hexecutes hdest⟩

/-- Nodes that cover the path between them, one executing. -/
def twoNodes : Roster Roles :=
  ⟨[(['a'], { Roles.nothing with executing := true }),
    (['b'], { Roles.nothing with processing := true })]⟩

theorem configured_agrees_processing : Agrees twoNodes [] ['b'] .process .send ↔
    (Capability.executes (twoNodes.capability ['b']) = true →
      ∀ dest ∈ twoNodes.withStage .send, dest = ['b']) :=
  configured_agrees_iff (by decide) rfl (by decide)

/-- A link is drawn from an executing node to another, over which it hands nothing. -/
theorem not_agrees_executing :
    twoNodes.coversThePath = true ∧ ['a'] ∈ twoNodes.withStage .receive ∧
      ¬Agrees twoNodes [] ['a'] .receive .process := by
  refine ⟨by decide, by decide, fun hagrees => ?_⟩
  have hdrawn : ∃ n, ⟨⟨['a'], .receive, ['b'], .process⟩, true, n⟩ ∈
    drawnPairs (some twoNodes) [] :=
    ⟨0, by decide⟩
  exact absurd ((hagrees.1 ['b']).mp hdrawn) (by decide)

end Topology

end XmipEssentials
