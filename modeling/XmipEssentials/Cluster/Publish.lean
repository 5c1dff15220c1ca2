import XmipEssentials.Cluster.View

/-!
# What a cluster's process publishes

The process ticks its cluster round after round, and where a tick changed the view it writes the
view down in one file, whole or not at all. A write that fails is audited and not tried again: the
view in memory has moved on, and a tick that changes nothing more is not published. So the file
describes the view at the end of a quiet round as long as the last write tried had not failed
(`published_follows_view`); and where it had, the file may be of an earlier view for as long as the
cluster is quiet (`published_stale`).
-/

namespace XmipEssentials

open Text Conc Snapshot

variable {S ι σ : Type} [Snapshot S]

/-- How other crates write a publication down. -/
structure Writing (S : Type) where
  /-- A snapshot whole, under the scope it is published at. -/
  whole : Text → S → Text
  handoffs : List Hop → Text

omit [Snapshot S] in
/-- A publication, and the handoffs delivered beneath it. -/
def Writing.nodeToml (W : Writing S) (node : Text) (snapshot : S) (hops : List Hop) : Text :=
  W.whole node snapshot ++ if hops = [] then [] else '\n' :: W.handoffs hops

/-- The handoffs every node says it delivered. -/
def Cluster.hops (c : Cluster S) : List Hop := c.nodes.flatMap Member.hops

/-- A call the cluster's process makes, by what it answers. -/
inductive ProcessOp (S : Type) : Type → Type where
  /-- Whether the stop file is there. -/
  | stopExists : ProcessOp S Bool
  /-- The cluster ticked once. -/
  | tick (c : Cluster S) : ProcessOp S (Cluster S)
  /-- The text written to the published file, whole: whether it could be. -/
  | writeAtomic (text : Text) : ProcessOp S Bool

namespace Cluster

variable (W : Writing S) (R : Reading S) (root : Text)

/-- One round of the process: the cluster as it left it, or none where it was told to stop.
Published only when the view changed; a failed write is audited, and the process goes on. -/
def round (c : Cluster S) : Prog (ProcessOp S) (Option (Cluster S)) := do
  if ← Prog.perform .stopExists then pure none
  else
    let c ← Prog.perform (.tick c)
    if !c.changed then pure (some c)
    else
      let _ ← Prog.perform (.writeAtomic (W.nodeToml root c.view c.hops))
      pure (some c)

/-- The world of the cluster, and the file the process publishes. -/
structure Desk (σ : Type) where
  world : σ
  /-- The text last written. -/
  file : Option Text
  /-- Whether the last write tried failed. -/
  failed : Bool

/-- What a call of the process does. -/
def desk (exec : Exec ι (ClusterOp S) σ) (i : ι) : Exec Unit (ProcessOp S) (Desk σ) :=
  fun _ _ op d b d' =>
    match op, b with
    | .stopExists, _ => d' = d
    | .tick c, c' =>
      (c.tick R root).Runs exec i d.world c' d'.world ∧ d'.file = d.file ∧ d'.failed = d.failed
    | .writeAtomic text, ok =>
      d' = { d with file := if ok then some text else d.file, failed := !ok }

/-- The text describes the view, apart from when its standings were observed. -/
def Describes (text : Text) (view : S) : Prop :=
  ∃ view' hops, Alike view' view ∧ text = W.nodeToml root view' hops

variable {exec : Exec ι (ClusterOp S) σ} {i : ι}

variable (exec i) in
/-- What the process comes to, round after round. -/
inductive Rounds (start : Cluster S) (d₀ : Desk σ) : Cluster S → Desk σ → Prop where
  | begun : Rounds start d₀ start d₀
  | again {c c' : Cluster S} {d d' : Desk σ} (h : Rounds start d₀ c d)
      (round : (c.round W root).Runs (desk R root exec i) () d (some c') d') : Rounds start d₀ c' d'

/-- Nothing was published yet, and the first tick will change the view; or where the last write
tried did not fail, the file describes the view. -/
def Follows (c : Cluster S) (d : Desk σ) : Prop :=
  (c.said = [] ∧ c.nodes ≠ []) ∨
    (d.failed = false → ∃ text, d.file = some text ∧ Describes W root text c.view)

variable {W R root} {c c' : Cluster S} {d d' : Desk σ}

/-- A tick is a round, whether or not what it has to publish can be written. -/
theorem round_of_tick {s : σ} (htick : (c.tick R root).Runs exec i d.world c' s) (ok : Bool) :
    (c.round W root).Runs (desk R root exec i) () d (some c')
      (if c'.changed then
        ⟨s, if ok then some (W.nodeToml root c'.view c'.hops) else d.file, !ok⟩
      else { d with world := s }) := by
  unfold round
  rw [Prog.perform_bind, Prog.runs_call]
  refine ⟨false, d, rfl, ?_⟩
  rw [if_neg Bool.false_ne_true, Prog.perform_bind, Prog.runs_call]
  refine ⟨c', { d with world := s }, ⟨htick, rfl, rfl⟩, ?_⟩
  cases c'.changed with
  | false => exact Prog.Runs.pure
  | true => exact Prog.Runs.call rfl Prog.Runs.pure

/-- A round that publishes nothing leaves the file and the view as they were. -/
theorem runs_round (h : (c.round W root).Runs (desk R root exec i) () d (some c') d') :
    ∃ s, (c.tick R root).Runs exec i d.world c' s ∧
      (c'.changed = false ∧ d'.file = d.file ∧ d'.failed = d.failed ∨
        c'.changed = true ∧ (d'.failed = true ∨
          d'.failed = false ∧ d'.file = some (W.nodeToml root c'.view c'.hops))) := by
  unfold round at h
  rw [Prog.perform_bind, Prog.runs_call] at h
  obtain ⟨stop, u, hstop, h⟩ := h
  change u = d at hstop
  subst hstop
  -- told to leave, a round is none
  cases stop with
  | true => cases (Prog.runs_pure.mp h).1
  | false =>
    rw [if_neg Bool.false_ne_true, Prog.perform_bind, Prog.runs_call] at h
    obtain ⟨ticked, v, ⟨htick, hfile, hfailed⟩, h⟩ := h
    refine ⟨v.world, ?_⟩
    cases hchanged : ticked.changed with
    -- nothing changed, and nothing is written
    | false =>
      rw [hchanged, Bool.not_false, if_pos rfl] at h
      obtain ⟨hc, rfl⟩ := Prog.runs_pure.mp h
      cases hc
      exact ⟨htick, Or.inl ⟨hchanged, hfile, hfailed⟩⟩
    | true =>
      rw [hchanged, Bool.not_true, if_neg Bool.false_ne_true, Prog.perform_bind,
        Prog.runs_call] at h
      -- the write may fail; then the file is as it was
      obtain ⟨ok, w, hwrite, h⟩ := h
      change w = { v with file := if ok then some _ else v.file, failed := !ok } at hwrite
      obtain ⟨hc, rfl⟩ := Prog.runs_pure.mp h
      cases hc
      subst hwrite
      refine ⟨htick, Or.inr ⟨hchanged, ?_⟩⟩
      cases ok with
      | false => exact Or.inl rfl
      | true => exact Or.inr ⟨rfl, rfl⟩

/-- **One round** keeps the file of the view, where the last write tried did not fail. -/
theorem describes_round (hfollows : Follows W root c d)
    (h : (c.round W root).Runs (desk R root exec i) () d (some c') d')
    (hfailed : d'.failed = false) :
    ∃ text, d'.file = some text ∧ Describes W root text c'.view := by
  obtain ⟨s, htick, ⟨hquiet, hfile, hsame⟩ | ⟨-, hfail | ⟨-, hfile⟩⟩⟩ := runs_round h
  · obtain ⟨hnodes, ⟨-, hchanged, -⟩ | ⟨-, hview, -, hsaid, -⟩⟩ := runs_tick htick
    · exact absurd (hchanged.symm.trans hquiet) Bool.noConfusion
    · rcases hfollows with ⟨hnone, hsome⟩ | hdescribed
      · -- The first tick of some nodes says something of them.
        rw [hnone, eq_comm, List.map_eq_nil_iff] at hsaid
        rw [hsaid, List.forall₂_nil_right_iff, List.map_eq_nil_iff] at hnodes
        exact absurd hnodes hsome
      · rw [hfile, hview]
        exact hdescribed (hsame.symm.trans hfailed)
  · exact absurd (hfail.symm.trans hfailed) Bool.noConfusion
  · exact ⟨_, hfile, c'.view, c'.hops, .refl _, rfl⟩

private theorem Rounds.follows {start : Cluster S} {d₀ : Desk σ} (hsome : start.nodes ≠ [])
    (hnone : start.said = []) (h : Rounds W R root exec i start d₀ c d) : Follows W root c d := by
  induction h with
  | begun => exact Or.inl ⟨hnone, hsome⟩
  | again _ hround ih => exact Or.inr (describes_round ih hround)

/-- **The published file follows the view** in every run of the process, as long as no quiet round
comes while the last write tried had failed: at the end of a round that publishes nothing the file
describes the view. -/
theorem published_follows_view {liveness : Liveness} {names : List Text} {start : Cluster S}
    {s₀ s₁ : σ} {before : Option Text} (hnames : names ≠ [])
    (hspawn : (spawn liveness names).Runs exec i s₀ (some start) s₁)
    (hrun : Rounds W R root exec i start ⟨s₁, before, false⟩ c d)
    (hround : (c.round W root).Runs (desk R root exec i) () d (some c') d')
    (hquiet : c'.changed = false) (hwritten : d.failed = false) : ∃ text, d'.file = some text ∧
    Describes W root text c'.view := by
  obtain ⟨hsome, hnone⟩ := said_of_spawn hnames hspawn
  apply describes_round (hrun.follows hsome hnone) hround
  obtain ⟨s, -, ⟨-, -, hsame⟩ | ⟨hchanged, -⟩⟩ := runs_round hround
  · exact hsame.trans hwritten
  · exact absurd (hchanged.symm.trans hquiet) Bool.noConfusion

/-!  A cluster of one node, which publishes two rounds and exits: its first two ticks change the
view, its third finds nothing new. -/

section TwoRounds

/-- How the one node's files are read. -/
def twoReading : Reading Records where
  beat text := some ⟨1, if text = ['1'] then 1 else 2⟩
  node text := some (recordHealth ⟨"c/node/a/receive".toList, .fine, 0, text, 5⟩ new, [])
  alive := "alive".toList
  systemProcess node := node ++ "/system-process".toList

/-- What each call about the one node answers, after so many ticks. -/
def twoAnswer : ⦃β : Type⦄ → ClusterOp Records β → Nat → β × Nat
  | _, .beatText _, n => (some (if n = 0 then ['1'] else ['2']), n)
  | _, .publication _, n => (some (if n = 0 then ['1'] else ['2']), n)
  | _, .instant, n => (0, n)
  | _, .now, n => (7, n + 1)
  | _, .tryWait _, n => (if n = 0 then none else some ⟨true, "exit code: 0".toList⟩, n)
  | _, .kill _, n => (none, n)
  | _, .start _, n => (true, n)
  | _, .sleep, n => ((), n)
  | _, .read _ _, n => ((), n)

/-- A publication written down as the evidence it holds. -/
def twoWriting : Writing Records where
  whole _ view := (healthRecords view).flatMap HealthRecord.evidence
  handoffs _ := []

def twoExec : Exec Unit (ClusterOp Records) Nat := fun _ _ op n b n' => (b, n') = twoAnswer op n

def twoTicked : Nat → Cluster Records × Nat
  | 0 => (⟨⟨100, 3, 10000⟩, [Member.started ['a'] 0], new, [], false⟩, 0)
  | n + 1 => ((twoTicked n).1.tick twoReading ['c']).played twoAnswer (twoTicked n).2

private theorem runs_two {α : Type} (p : Prog (ClusterOp Records) α) (n : Nat) :
    p.Runs twoExec () n (p.played twoAnswer n).1 (p.played twoAnswer n).2 :=
  Prog.runs_played (fun _ _ _ => rfl) p n

/-- The file after so many rounds, of which the first is written, and the second where it can be. -/
def twoDesk (ok : Bool) : Nat → Desk Nat
  | 0 => ⟨(twoTicked 0).2, none, false⟩
  | 1 =>
    ⟨(twoTicked 1).2, some (twoWriting.nodeToml ['c'] (twoTicked 1).1.view (twoTicked 1).1.hops),
      false⟩
  | n => ⟨(twoTicked n).2, some (twoWriting.nodeToml ['c'] (twoTicked (if ok then 2 else 1)).1.view
      (twoTicked (if ok then 2 else 1)).1.hops), !ok⟩

theorem twoTick (n : Nat) : ((twoTicked n).1.tick twoReading ['c']).Runs twoExec () (twoTicked n).2
    (twoTicked (n + 1)).1 (twoTicked (n + 1)).2 :=
  runs_two ((twoTicked n).1.tick twoReading ['c']) (twoTicked n).2

/-- The run of the first two rounds. -/
theorem twoRounds (ok : Bool) :
    Rounds twoWriting twoReading ['c'] twoExec () (twoTicked 0).1 (twoDesk ok 0) (twoTicked 2).1
      (twoDesk ok 2) := by
  have hfirst := round_of_tick (W := twoWriting) (d := twoDesk ok 0) (twoTick 0) true
  have hsecond := round_of_tick (W := twoWriting) (d := twoDesk ok 1) (twoTick 1) ok
  refine .again (.again .begun hfirst) ?_
  cases ok with
  | true => exact hsecond
  | false => exact hsecond

/-- The third round changes nothing. -/
theorem twoThird (ok : Bool) : ((twoTicked 2).1.round twoWriting ['c']).Runs
    (desk twoReading ['c'] twoExec ()) () (twoDesk ok 2) (some (twoTicked 3).1) (twoDesk ok 3) := by
  have hthird := round_of_tick (W := twoWriting) (d := twoDesk ok 2) (twoTick 2) true
  cases ok with
  | true => exact hthird
  | false => exact hthird

private theorem twoSpawned :
    (spawn ⟨100, 3, 10000⟩ [['a']]).Runs twoExec () 0 (some (twoTicked 0).1) (twoTicked 0).2 :=
  runs_two (spawn ⟨100, 3, 10000⟩ [['a']]) 0

/-- Both views written: the file describes the second. -/
theorem published_follows_view_written :
    ∃ text, (twoDesk true 3).file = some text ∧
    Describes twoWriting ['c'] text (twoTicked 3).1.view :=
  published_follows_view (List.cons_ne_nil _ _) twoSpawned (twoRounds true) (twoThird true) rfl rfl

/-- **The file is stale** where the second view could not be written: it still says what the first
did, and a quiet round leaves it so. -/
theorem published_stale :
    ¬∀ (names : List Text) (start c c' : Cluster Records) (n : Nat) (d d' : Desk Nat), names ≠ [] →
      (spawn ⟨100, 3, 10000⟩ names).Runs twoExec () 0 (some start) n →
      Rounds twoWriting twoReading ['c'] twoExec () start ⟨n, none, false⟩ c d →
      (c.round twoWriting ['c']).Runs (desk twoReading ['c'] twoExec ()) () d (some c') d' →
      c'.changed = false → ∃ text, d'.file = some text ∧
      Describes twoWriting ['c'] text c'.view := by
  intro hclaim
  obtain ⟨text, hfile, view, hops, halike, rfl⟩ := hclaim [['a']] _ _ _ _ _ _ (List.cons_ne_nil _ _)
    twoSpawned (twoRounds false) (twoThird false) rfl
  have hevidence : (healthRecords view).map HealthRecord.evidence =
      (healthRecords (twoTicked 3).1.view).map HealthRecord.evidence := by
    have huntimed := congrArg (List.map HealthRecord.evidence) halike.health
    rwa [List.map_map, List.map_map] at huntimed
  have hwhole : twoWriting.whole ['c'] view = twoWriting.whole ['c'] (twoTicked 3).1.view := by
    change ((healthRecords view).flatMap HealthRecord.evidence) = _
    rw [List.flatMap_def, hevidence]
    rfl
  -- The file begins with what the first round says, the view with what the second does.
  have hfirst : (twoDesk false 3).file.bind List.head? = some '1' := by decide
  obtain ⟨rest, hsecond⟩ : ∃ rest, twoWriting.whole ['c'] (twoTicked 3).1.view = '2' :: rest :=
    ⟨_, rfl⟩
  rw [hfile] at hfirst
  unfold Writing.nodeToml at hfirst
  rw [hwhole, hsecond] at hfirst
  exact absurd (Option.some.inj hfirst) (by decide)

end TwoRounds

end Cluster

end XmipEssentials
