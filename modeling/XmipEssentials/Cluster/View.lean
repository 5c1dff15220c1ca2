import XmipEssentials.Cluster.Tick
import XmipEssentials.Records

/-!
# The kept view is the view rebuilt

A cluster assembles its view only on a tick that changed something. `Cluster.rebuild` is the view
from scratch: every node's snapshot merged in order, each with the record of its process, and the
rollup over the result. The invariant is `Cluster.Current`: what is said of the processes is what
was said when the view was assembled, and the view is the rebuild, apart from observed times.

A tick keeps it for one of two reasons. Where it assembled, the view is the rebuild. Where it did
not, no node was read anew (`Member.Follows`), so every published snapshot is the one the view was
assembled of, and the standings are those it was assembled with; the records then differ in their
times alone.
-/

namespace XmipEssentials

open Text Conc Keyed Snapshot

variable {S ι σ : Type} {exec : Exec ι (ClusterOp S) σ} {i : ι} {s s' : σ}

/-! ### What a tick leaves of a node -/

namespace Member

/-- A node later in a tick: the same node, and where it is not fresh it was not, and holds the
snapshot it held. -/
structure Follows (m m' : Member S) : Prop where
  name : m'.name = m.name
  published : m'.fresh = false → m.fresh = false ∧ m'.published = m.published

private theorem Follows.refl (m : Member S) : m.Follows m := ⟨rfl, fun h => ⟨h, rfl⟩⟩

private theorem Follows.trans {m m' m'' : Member S} (h : m.Follows m') (h' : m'.Follows m'') :
    m.Follows m'' := by
  refine ⟨h'.name.trans h.name, fun hfresh => ?_⟩
  obtain ⟨hfresh', hpublished'⟩ := h'.published hfresh
  obtain ⟨hfresh, hpublished⟩ := h.published hfresh'
  exact ⟨hfresh, hpublished'.trans hpublished⟩

private theorem Follows.all_trans {l l' l'' : List (Member S)} (h : List.Forall₂ Follows l l')
    (h' : List.Forall₂ Follows l' l'') : List.Forall₂ Follows l l'' := by
  induction h generalizing l'' with
  | nil => exact h'
  | cons hm _ ih =>
    cases h' with
    | cons hm' hrest => exact .cons (hm.trans hm') (ih hrest)

variable {R : Reading S} {m m' : Member S}

private theorem follows_listen (h : (m.listen R).Runs exec i s m' s') : m.Follows m' := by
  unfold listen at h
  rw [Prog.perform_bind, Prog.runs_call] at h
  obtain ⟨text, t, -, h⟩ := h
  cases text with
  | none =>
    obtain ⟨rfl, -⟩ := Prog.runs_pure.mp h
    exact .refl _
  | some text =>
    dsimp only at h
    split at h
    · obtain ⟨rfl, -⟩ := Prog.runs_pure.mp h
      exact .refl _
    · rw [Prog.perform_bind, Prog.runs_call] at h
      obtain ⟨heard, u, -, h⟩ := h
      obtain ⟨rfl, -⟩ := Prog.runs_pure.mp h
      exact ⟨rfl, fun hfresh => ⟨hfresh, rfl⟩⟩

/-- Reading the published file either leaves the node as it was or marks it fresh. -/
theorem follows_readPublished (h : (m.readPublished R).Runs exec i s m' s') : m.Follows m' := by
  unfold readPublished at h
  split at h
  · obtain ⟨rfl, -⟩ := Prog.runs_pure.mp h
    exact .refl _
  · rw [Prog.perform_bind, Prog.runs_call] at h
    obtain ⟨text, t, -, h⟩ := h
    cases text with
    | none =>
      obtain ⟨rfl, -⟩ := Prog.runs_pure.mp h
      exact .refl _
    | some text =>
      dsimp only at h
      split at h
      · obtain ⟨rfl, -⟩ := Prog.runs_pure.mp h
        exact .refl _
      · obtain ⟨rfl, -⟩ := Prog.runs_pure.mp h
        exact ⟨rfl, nofun⟩

private theorem follows_read (h : (m.read R).Runs exec i s m' s') : m.Follows m' := by
  unfold read at h
  simp only [Prog.runs_bind, Prog.perform_bind, Prog.runs_call] at h
  obtain ⟨listened, t, hlisten, after, u, hread, -, v, -, hpure⟩ := h
  obtain ⟨rfl, -⟩ := Prog.runs_pure.mp hpure
  exact (follows_listen hlisten).trans (follows_readPublished hread)

private theorem follows_reap (h : m.reap.Runs exec i s m' s') : m.Follows m' := by
  unfold reap at h
  split at h
  · rw [Prog.perform_bind, Prog.runs_call] at h
    obtain ⟨status, t, -, h⟩ := h
    cases status with
    | none =>
      obtain ⟨rfl, -⟩ := Prog.runs_pure.mp h
      exact .refl _
    | some status =>
      obtain ⟨rfl, -⟩ := Prog.runs_pure.mp h
      exact ⟨rfl, fun hfresh => ⟨hfresh, rfl⟩⟩
  · obtain ⟨rfl, -⟩ := Prog.runs_pure.mp h
    exact .refl _

private theorem follows_kill (h : m.kill.Runs exec i s m' s') : m.Follows m' := by
  unfold kill at h
  split at h
  · rw [Prog.perform_bind, Prog.runs_call] at h
    obtain ⟨exit, t, -, h⟩ := h
    obtain ⟨rfl, -⟩ := Prog.runs_pure.mp h
    exact ⟨rfl, fun hfresh => ⟨hfresh, rfl⟩⟩
  · obtain ⟨rfl, -⟩ := Prog.runs_pure.mp h
    exact .refl _

private theorem follows_judgeProcess {liveness : Liveness}
    (h : (m.judgeProcess R liveness).Runs exec i s m' s') : m.Follows m' := by
  unfold judgeProcess at h
  simp only [Prog.runs_bind] at h
  obtain ⟨reaped, t, hreap, listened, u, hlisten, hung, v, -, h⟩ := h
  have hheard := (follows_reap hreap).trans (follows_listen hlisten)
  split at h
  · simp only [Prog.runs_bind, Prog.perform_bind, Prog.runs_call] at h
    obtain ⟨killed, w, hkill, started, x, -, h⟩ := h
    have hkilled := hheard.trans (follows_kill hkill)
    split at h
    · rw [Prog.runs_call] at h
      obtain ⟨since, y, -, h⟩ := h
      obtain ⟨rfl, -⟩ := Prog.runs_pure.mp h
      exact hkilled.trans ⟨rfl, fun hfresh => ⟨hfresh, rfl⟩⟩
    · obtain ⟨rfl, -⟩ := Prog.runs_pure.mp h
      exact hkilled.trans ⟨rfl, fun hfresh => ⟨hfresh, rfl⟩⟩
  · obtain ⟨rfl, -⟩ := Prog.runs_pure.mp h
    exact hheard

end Member

/-! ### What is said of the processes -/

variable {R : Reading S} {root : Text}

/-- What is said of a process determines its record, its time aside. -/
theorem Member.processRecord_untimed {m m' : Member S} (hname : m'.name = m.name)
    (hsaid : m'.standing R = m.standing R) (now now' : Int) :
    (m'.processRecord R root now').untimed = (m.processRecord R root now).untimed := by
  unfold Member.processRecord
  rw [hname, hsaid]
  rfl

private theorem Cluster.said_records (nodes : List (Member S)) (now : Int) :
    ((nodes.map fun node => node.processRecord R root now).map fun record =>
      (record.health, record.evidence)) = nodes.map (Member.standing R) := by
  rw [List.map_map]
  exact List.map_congr_left fun node _ => rfl

/-! ### The view from scratch -/

variable [Snapshot S] (R root)

/-- A snapshot in which every node's was merged in order, each with the record of its process. -/
def rebuiltOf (now : Int) : List (Member S) → S → S
  | [], view => view
  | node :: nodes, view =>
    rebuiltOf now nodes (recordHealth (node.processRecord R root now) (merge view node.published))

/-- The view from scratch. -/
def Cluster.rebuild (nodes : List (Member S)) (now : Int) : S :=
  let view := rebuiltOf R root now nodes new
  recordHealth (rollup root view nodes.length now) view

theorem Cluster.assemble_eq_rebuild (nodes : List (Member S)) (now : Int) :
    Cluster.assemble root nodes (nodes.map fun node => node.processRecord R root now) now =
      Cluster.rebuild R root nodes now := by
  have hfold (view : S) :
      (nodes.zip (nodes.map fun node => node.processRecord R root now)).foldl
        (fun view one => recordHealth one.2 (merge view one.1.published)) view =
      rebuiltOf R root now nodes view := by
    induction nodes generalizing view with
    | nil => rfl
    | cons node nodes ih => exact ih _
  unfold Cluster.assemble Cluster.rebuild
  rw [hfold]

/-! ### Rebuilt alike -/

variable {R root}

section Timeless

variable (timeless : Snapshot.Timeless S)

include timeless

private theorem merge_alike {view view' : S} (h : Alike view view') (source : S) :
    Alike (merge view source) (merge view' source) := by
  have hhealth : Alike (recordAll recordHealth (healthRecords source) view)
      (recordAll recordHealth (healthRecords source) view') := by
    refine h.recorded (fun r hst => ?_) _
    exact timeless.recordHealth hst rfl
  have hcounts := hhealth.recorded timeless.recordCount (allCounts source)
  have hsubscriptions := hcounts.recorded timeless.recordRow (rows .subscription source)
  exact hsubscriptions.recorded timeless.recordRow (rows .eventSubscription source)

/-- The rollup says the same over views that are alike. -/
theorem rollup_untimed {view view' : S} (h : Alike view view') (count : Nat) (now now' : Int) :
    (rollup root view count now).untimed = (rollup root view' count now').untimed := by
  have hbeneath := timeless.health (nodesScope root) h
  have hfine : ∀ records : List HealthRecord,
      (records.filter fun record => record.health = .fine).length =
        ((records.map HealthRecord.untimed).filter fun record => record.health = .fine).length := by
    intro records
    rw [List.filter_map, List.length_map]
    rfl
  have hlength := congrArg List.length hbeneath
  rw [List.length_map, List.length_map] at hlength
  unfold rollup
  dsimp only
  rw [hfine, hbeneath, ← hfine, hlength]
  -- The worst of the one is the worst of the other, its time aside.
  have hworst := congrArg List.head? hbeneath
  rw [List.head?_map, List.head?_map] at hworst
  cases hone : (Snapshot.health (nodesScope root) view).head? with
  | none =>
    rw [hone, Option.map_none, eq_comm, Option.map_eq_none_iff] at hworst
    rw [hworst]
    rfl
  | some worst =>
    rw [hone, Option.map_some, eq_comm, Option.map_eq_some_iff] at hworst
    obtain ⟨worst', hone', hworst⟩ := hworst
    rw [hone']
    obtain ⟨hscope, hhealth, hseverity, hevidence⟩ := HealthRecord.untimed_eq_iff.mp hworst
    dsimp only
    rw [hhealth, hseverity, hscope, hevidence]
    split <;> rfl

/-- Two lists of nodes with the same names, published snapshots and standings are rebuilt alike. -/
theorem rebuiltOf_alike (root : Text) {nodes nodes' : List (Member S)}
    (h : List.Forall₂ (fun m m' : Member S =>
      m'.name = m.name ∧ m'.published = m.published ∧ m'.standing R = m.standing R) nodes nodes')
    {view view' : S} (hview : Alike view view') (now now' : Int) :
    Alike (rebuiltOf R root now nodes view) (rebuiltOf R root now' nodes' view') := by
  induction h generalizing view view' with
  | nil => exact hview
  | @cons m m' nodes nodes' hm hnodes ih =>
    obtain ⟨hname, hpublished, hstanding⟩ := hm
    unfold rebuiltOf
    refine ih (timeless.recordHealth ?_ ?_)
    · rw [hpublished]
      exact merge_alike timeless hview m.published
    · exact (Member.processRecord_untimed hname hstanding now now').symm

private theorem Cluster.rebuild_alike {nodes nodes' : List (Member S)}
    (h : List.Forall₂ (fun m m' : Member S =>
      m'.name = m.name ∧ m'.published = m.published ∧ m'.standing R = m.standing R) nodes nodes')
    (now now' : Int) :
    Alike (Cluster.rebuild R root nodes now) (Cluster.rebuild R root nodes' now') := by
  have hview := rebuiltOf_alike timeless root h (.refl new) now now'
  unfold Cluster.rebuild
  rw [h.length_eq]
  exact timeless.recordHealth hview (rollup_untimed timeless hview _ _ _)

end Timeless

/-! ### The invariant -/

namespace Cluster

variable {c c' : Cluster S} {names : List Text}

variable (R root)

/-- What is said of the processes is what was last said of them, and the view is the rebuild, apart
from observed times. -/
structure Current (c : Cluster S) : Prop where
  said : c.said = c.nodes.map (Member.standing R)
  view : ∀ now, Alike c.view (rebuild R root c.nodes now)

variable {R root}

omit [Snapshot S] in
/-- The nodes after the wait are the nodes before it, later in the tick. -/
theorem follows_awaitFresh {started polls : Nat} {nodes nodes' : List (Member S)}
    (h : (awaitFresh R started polls nodes).Runs exec i s nodes' s') :
    List.Forall₂ Member.Follows nodes nodes' := by
  induction polls generalizing nodes s with
  | zero => exact Prog.forall₂_of_runs_each (fun _ _ _ _ => Member.follows_read) h
  | succ polls ih =>
    unfold awaitFresh at h
    simp only [Prog.runs_bind] at h
    obtain ⟨read, t, hread, h⟩ := h
    -- what is read of each member follows what was read before
    have hfollows : List.Forall₂ Member.Follows nodes read :=
      Prog.forall₂_of_runs_each (fun _ _ _ _ => Member.follows_read) hread
    split at h
    · obtain ⟨rfl, -⟩ := Prog.runs_pure.mp h
      exact hfollows
    · rw [Prog.perform_bind, Prog.runs_call] at h
      obtain ⟨now, u, -, h⟩ := h
      split at h
      · obtain ⟨rfl, -⟩ := Prog.runs_pure.mp h
        exact hfollows
      · -- not all are fresh and there is time left: slept, and read again
        rw [Prog.perform_bind, Prog.runs_call] at h
        obtain ⟨-, v, -, h⟩ := h
        exact Member.Follows.all_trans hfollows (ih h)

/-- **What a tick comes to.** The nodes are the nodes before it, later in the tick; where anything
changed the view is assembled of them, and where nothing did it is as it was. -/
theorem runs_tick (h : (c.tick R root).Runs exec i s c' s') :
    List.Forall₂ Member.Follows (c.nodes.map fun node => { node with fresh := false }) c'.nodes ∧
      ((∃ now, c'.changed = true ∧ c'.said = c'.nodes.map (Member.standing R) ∧
          c'.view = rebuild R root c'.nodes now) ∨
        (c'.changed = false ∧ c'.view = c.view ∧ c'.said = c.said ∧
          c.said = c'.nodes.map (Member.standing R) ∧ ∀ node ∈ c'.nodes, node.fresh = false)) := by
  unfold tick at h
  simp only [Prog.perform_bind, Prog.runs_call, Prog.runs_bind] at h
  obtain ⟨started, t, -, nodes, u, hawait, judged, v, hjudge, now, w, -, h⟩ := h
  have hfollows : List.Forall₂ Member.Follows nodes judged :=
    Prog.forall₂_of_runs_each (fun _ _ _ _ => Member.follows_judgeProcess) hjudge
  -- read, then judged, member by member
  have hall := Member.Follows.all_trans (follows_awaitFresh hawait) hfollows
  rw [said_records] at h
  split at h
  · -- something changed: the view is the rebuild of what the members say
    obtain ⟨rfl, -⟩ := Prog.runs_pure.mp h
    exact ⟨hall, .inl ⟨now, rfl, rfl, assemble_eq_rebuild R root _ now⟩⟩
  · -- nothing did: the members say what was said, and none is fresh
    next hunchanged =>
    obtain ⟨rfl, -⟩ := Prog.runs_pure.mp h
    rw [not_or, not_not, List.any_eq_true] at hunchanged
    refine ⟨hall, .inr ⟨rfl, rfl, rfl, hunchanged.1.symm, fun node hnode => ?_⟩⟩
    by_contra hfresh
    exact hunchanged.2 ⟨node, hnode, by simpa using hfresh⟩

omit [Snapshot S] in
/-- Nodes later in a tick, none of them fresh and said of as before, are those the view was
assembled of. -/
theorem kept_of_follows {nodes nodes' : List (Member S)}
    (h : List.Forall₂ Member.Follows (nodes.map fun node => { node with fresh := false }) nodes')
    (hfresh : ∀ node ∈ nodes', node.fresh = false)
    (hsaid : nodes.map (Member.standing R) = nodes'.map (Member.standing R)) :
    List.Forall₂ (fun m m' : Member S =>
      m'.name = m.name ∧ m'.published = m.published ∧ m'.standing R = m.standing R)
      nodes nodes' := by
  rw [List.forall₂_map_left_iff] at h
  induction h with
  | nil => exact .nil
  | @cons m m' nodes nodes' hm hnodes ih =>
    rw [List.map_cons, List.map_cons, List.cons.injEq] at hsaid
    rw [List.forall_mem_cons] at hfresh
    have hpublished := (hm.published hfresh.1).2
    exact .cons ⟨hm.name, hpublished, hsaid.1.symm⟩ (ih hfresh.2 hsaid.2)

/-- A tick that changed nothing leaves the invariant, and one that changed the view establishes
it. -/
theorem current_of_tick (timeless : Snapshot.Timeless S) (h : (c.tick R root).Runs exec i s c' s')
    (hc : c'.changed = false → c.Current R root) : c'.Current R root := by
  obtain ⟨hfollows, ⟨now, -, hsaid, hview⟩ | ⟨hunchanged, hview, hsaid, hsaid', hfresh⟩⟩ :=
    runs_tick h
  · refine ⟨hsaid, fun now' => ?_⟩
    rw [hview]
    exact rebuild_alike timeless (List.forall₂_same.mpr fun _ _ => ⟨rfl, rfl, rfl⟩) now now'
  · have hc := hc hunchanged
    refine ⟨hsaid.trans hsaid', fun now => ?_⟩
    rw [hview]
    have hsame := kept_of_follows hfollows hfresh (hc.said.symm.trans hsaid')
    exact (hc.view now).trans (rebuild_alike timeless hsame now now)

/-! ### Over a run -/

variable (R root exec i)

/-- What a cluster of these names comes to: spawned, and then ticked any number of times. -/
inductive Reached (liveness : Liveness) (names : List Text) (start : σ) : Cluster S → σ → Prop where
  | spawned {c : Cluster S} {s : σ}
      (h : (spawn liveness names).Runs exec i start (some c) s) : Reached liveness names start c s
  | ticked {c c' : Cluster S} {s s' : σ} (h : Reached liveness names start c s)
      (tick : (c.tick R root).Runs exec i s c' s') : Reached liveness names start c' s'

variable {R root exec i} {liveness : Liveness} {start : σ}

private theorem length_startAll {nodes : List (Member S)}
    (h : (startAll names).Runs exec i s (some nodes) s') : nodes.length = names.length := by
  induction names generalizing nodes s s' with
  | nil =>
    obtain ⟨hnodes, -⟩ := Prog.runs_pure.mp h
    cases hnodes
    rfl
  | cons name names ih =>
    unfold startAll at h
    rw [Prog.perform_bind, Prog.runs_call] at h
    obtain ⟨started, t, -, h⟩ := h
    -- one is started, and then the others
    split at h
    · simp only [Prog.perform_bind, Prog.runs_call, Prog.runs_bind] at h
      obtain ⟨since, u, -, rest, v, hrest, h⟩ := h
      cases rest with
      | none => cases (Prog.runs_pure.mp h).1
      | some rest =>
        obtain ⟨hnodes, -⟩ := Prog.runs_pure.mp h
        cases hnodes
        rw [List.length_cons, List.length_cons, ih hrest]
    · cases (Prog.runs_pure.mp h).1

/-- What a spawned cluster of some nodes says of them is not yet what it last said: its first tick
changes the view. -/
theorem said_of_spawn (hnames : names ≠ [])
    (h : (spawn liveness names).Runs exec i s (some c) s') : c.nodes ≠ [] ∧ c.said = [] := by
  unfold spawn at h
  rw [Prog.runs_bind] at h
  obtain ⟨nodes, t, hstart, h⟩ := h
  cases nodes with
  | none => cases (Prog.runs_pure.mp h).1
  | some nodes =>
    obtain ⟨hc, -⟩ := Prog.runs_pure.mp h
    cases hc
    refine ⟨fun (hnil : nodes = []) => hnames ?_, rfl⟩
    have hlength := length_startAll hstart
    rwa [hnil, List.length_nil, eq_comm, List.length_eq_zero_iff] at hlength

/-- Every tick of a run leaves the invariant. -/
theorem Reached.current (timeless : Snapshot.Timeless S) (hnames : names ≠ [])
    (h : Reached exec i R root liveness names start c s)
    (htick : (c.tick R root).Runs exec i s c' s') :
    c'.Current R root := by
  induction h generalizing c' s' with
  | spawned hspawn =>
    apply current_of_tick timeless htick
    intro hunchanged
    obtain ⟨hnodes, hsaid⟩ := said_of_spawn hnames hspawn
    obtain ⟨hfollows, ⟨-, hchanged, -⟩ | ⟨-, -, -, hsame, -⟩⟩ := runs_tick htick
    · rw [hunchanged] at hchanged
      cases hchanged
    · rw [hsaid, eq_comm, List.map_eq_nil_iff] at hsame
      rw [hsame, List.forall₂_nil_right_iff, List.map_eq_nil_iff] at hfollows
      exact absurd hfollows hnodes
  | ticked _ hbefore ih => exact current_of_tick timeless htick fun _ => ih hbefore

/-- **The incremental view equals a full rebuild.** After each tick the view kept is the view
rebuilt from scratch, apart from observed times, and a tick that reports no change leaves a view
which that rebuild equals. -/
theorem view_eq_rebuild (timeless : Snapshot.Timeless S) (hnames : names ≠ [])
    (h : Reached exec i R root liveness names start c s)
    (htick : (c.tick R root).Runs exec i s c' s')
    (now : Int) :
    Alike c'.view (rebuild R root c'.nodes now) ∧
      (c'.changed = false → Alike c.view (rebuild R root c'.nodes now)) := by
  have hview := (h.current timeless hnames htick).view now
  refine ⟨hview, fun hunchanged => ?_⟩
  obtain ⟨-, ⟨-, hchanged, -⟩ | ⟨-, hkept, -⟩⟩ := runs_tick htick
  · rw [hunchanged] at hchanged
    cases hchanged
  · rwa [hkept] at hview

/-! A cluster of one node, which publishes one round and exits: its first tick reads the round and
reaps the process, its second finds nothing new. -/

section OneNode

/-- What the one node publishes. -/
def onePublished : Records :=
  recordHealth ⟨"c/node/a/receive".toList, .fine, 0, "3 of 3".toList, 5⟩ new

/-- How the one node's files are read. -/
def oneReading : Reading Records where
  beat _ := some ⟨1, 1⟩
  node _ := some (onePublished, [])
  alive := "alive".toList
  systemProcess node := node ++ "/system-process".toList

/-- What each call about the one node answers. -/
def oneAnswer : ⦃β : Type⦄ → ClusterOp Records β → Unit → β × Unit
  | _, .beatText _, s => (some "1".toList, s)
  | _, .publication _, s => (some "round 1".toList, s)
  | _, .instant, s => (0, s)
  | _, .now, s => (7, s)
  | _, .tryWait _, s => (some ⟨true, "exit code: 0".toList⟩, s)
  | _, .kill _, s => (none, s)
  | _, .start _, s => (true, s)
  | _, .sleep, s => ((), s)
  | _, .read _ _, s => ((), s)

def oneSpawned : Cluster Records :=
  ⟨⟨100, 3, 10000⟩, [Member.started "a".toList 0], new, [], false⟩

def oneTicked : Cluster Records := ((oneSpawned.tick oneReading "c".toList).played oneAnswer ()).1

def oneTickedAgain : Cluster Records :=
  ((oneTicked.tick oneReading "c".toList).played oneAnswer ()).1

theorem view_eq_rebuild_one_node :
    oneTicked.changed = true ∧ oneTickedAgain.changed = false ∧
      Alike oneTicked.view (rebuild oneReading "c".toList oneTickedAgain.nodes 9) := by
  have hplayed {α : Type} (p : Prog (ClusterOp Records) α) :
      p.Runs (fun _ _ op s b s' => (b, s') = oneAnswer op s) () () (p.played oneAnswer ()).1 () :=
    Prog.runs_played (fun _ _ _ => rfl) p ()
  have hspawn : Reached (fun _ _ op s b s' => (b, s') = oneAnswer op s) () oneReading "c".toList
      ⟨100, 3, 10000⟩ ["a".toList] () oneSpawned () :=
    .spawned (hplayed (spawn ⟨100, 3, 10000⟩ ["a".toList]))
  have hrebuild := view_eq_rebuild Records.timeless (List.cons_ne_nil _ _)
    (hspawn.ticked (hplayed _)) (hplayed _) 9
  exact ⟨rfl, rfl, hrebuild.2 rfl⟩

end OneNode

end Cluster

end XmipEssentials
