import XmipEssentials.Cluster.Lives
import XmipEssentials.Cluster.View

/-!
# Whose round a node was last read at

A cluster reads a publication again only when the beat says another round was finished than it was
last read at. The count it compares with outlives the process that said it: a restart forgets the
rounds and the beat and leaves `readAt` standing. So a read is of the running process's own round
(`Seen.Own`) unless the count heard is one left over from an earlier process (`Seen.LeftOver`), and
`Cluster.own_of_not_leftOver` says so of every read of every run.

* `Site.Sound` — a node and its files: what is counted was published, a beat says no more than was
  counted, and the file is the last round published.
* `Knows` — what a cluster holds of a node, against the node: a count heard from the running process
  is one it has, and a snapshot read at its count is one of its own.
* `Turn` — a piece of the cluster's work on one node keeps both, and moves no other node but as the
  others move by themselves.
-/

namespace XmipEssentials

open Text Conc

variable {S : Type} {R : Reading S} {n n' : Site} {m m' m'' : Member S} {w w' w'' : World S}

/-! ### A node and its files -/

variable (R)

structure Site.Sound (n : Site) : Prop where
  counted_le : n.counted ≤ n.done
  beat : 0 < n.life → ∀ text b, n.beatFile = some (n.life, text) → R.beat text = some b →
    b.rounds ≤ n.counted
  file : 1 ≤ n.done → ∃ p ∈ n.publications, p.life = n.life ∧ p.round = n.done ∧
    n.file = some p.text ∧ (R.node p.text).isSome
  beatFile_le : ∀ life text, n.beatFile = some (life, text) → life ≤ n.life
  roundsOf_le : n.roundsOf ≤ n.life
  readOf_le : n.readOf ≤ n.life

/-- What a cluster holds of a node, against the node. -/
structure Knows (m : Member S) (n : Site) : Prop where
  started : 0 < n.life
  heard : m.beatText = n.heard
  rounds : 1 ≤ m.rounds → n.roundsOf = n.life → m.rounds ≤ n.counted
  published : ∀ r, m.readAt = some r → n.readOf = n.life →
    ∃ p ∈ n.publications, p.life = n.life ∧ r ≤ p.round ∧
      (R.node p.text).map Prod.fst = some m.published

variable {R}

namespace Site

private theorem Sound.move (h : n.Sound R) (hmove : Move R n n') : n'.Sound R := by
  cases hmove with
  | publish text running due reads =>
    refine ⟨Nat.le_succ_of_le h.counted_le, h.beat, fun _ => ?_, h.beatFile_le, h.roundsOf_le,
      h.readOf_le⟩
    exact ⟨_, List.mem_cons_self, rfl, rfl, rfl, reads⟩
  | count running =>
    refine ⟨Nat.le_refl _, fun hlife text b hfile hread => ?_, h.file, h.beatFile_le,
      h.roundsOf_le, h.readOf_le⟩
    -- The beat on file said no more than was counted, and the count has only grown.
    exact (h.beat hlife text b hfile hread).trans h.counted_le
  | beat text running honest =>
    refine ⟨h.counted_le, fun _ text' b hfile hread => ?_, h.file, fun life text' hfile => ?_,
      h.roundsOf_le, h.readOf_le⟩
    · cases hfile
      exact honest b hread
    · cases hfile
      exact Nat.le_refl _
  | exit => exact ⟨h.counted_le, h.beat, h.file, h.beatFile_le, h.roundsOf_le, h.readOf_le⟩

/-- A move leaves what the cluster has made of the files, and takes no publication away. -/
theorem Move.keeps (h : Move R n n') :
    n'.life = n.life ∧ n'.heard = n.heard ∧ n'.roundsOf = n.roundsOf ∧ n'.readOf = n.readOf ∧
      (n.counted ≤ n.done → n.counted ≤ n'.counted) ∧ n.publications ⊆ n'.publications := by
  cases h with
  | publish => exact ⟨rfl, rfl, rfl, rfl, fun _ => Nat.le_refl _, List.subset_cons_self _ _⟩
  | count => exact ⟨rfl, rfl, rfl, rfl, id, List.Subset.refl _⟩
  | beat => exact ⟨rfl, rfl, rfl, rfl, fun _ => Nat.le_refl _, List.Subset.refl _⟩
  | exit => exact ⟨rfl, rfl, rfl, rfl, fun _ => Nat.le_refl _, List.Subset.refl _⟩

private theorem beatRead_none (h : n.beatFile = none) : n.beatRead R = n := by
  unfold beatRead
  rw [h]

private theorem beatRead_same {life : Nat} {text : Text} (h : n.beatFile = some (life, text))
    (hsame : text = n.heard) : n.beatRead R = n := by
  unfold beatRead
  rw [h]
  dsimp only
  rw [if_pos hsame]

private theorem beatRead_new {life : Nat} {text : Text} (h : n.beatFile = some (life, text))
    (hnew : text ≠ n.heard) :
    n.beatRead R =
      { n with heard := text, roundsOf := if (R.beat text).isSome then life else n.roundsOf } := by
  unfold beatRead
  rw [h]
  dsimp only
  rw [if_neg hnew]

end Site

private theorem Knows.move (h : Knows R m n) (hn : n.Sound R) (hmove : n.Move R n') :
    Knows R m n' := by
  obtain ⟨hlife, hheard, hroundsOf, hreadOf, hcounted, hpublications⟩ := hmove.keeps
  refine ⟨hlife ▸ h.started, h.heard.trans hheard.symm, fun hrounds hof => ?_, fun r hr hof => ?_⟩
  · rw [hroundsOf, hlife] at hof
    exact (h.rounds hrounds hof).trans (hcounted hn.counted_le)
  · rw [hreadOf, hlife] at hof
    obtain ⟨p, hp, hplife, hround, hread⟩ := h.published r hr hof
    exact ⟨p, hpublications hp, hplife.trans hlife.symm, hround, hread⟩

/-- Any moves leave what the cluster has made of the files, and take no publication away. -/
theorem Site.Moves.keeps (h : n.Moves R n') :
    n'.life = n.life ∧ n'.heard = n.heard ∧ n'.roundsOf = n.roundsOf ∧ n'.readOf = n.readOf ∧
      n.publications ⊆ n'.publications := by
  induction h with
  | refl => exact ⟨rfl, rfl, rfl, rfl, List.Subset.refl _⟩
  | tail _ hmove ih =>
    obtain ⟨hlife, hheard, hroundsOf, hreadOf, hpublications⟩ := ih
    obtain ⟨hlife', hheard', hroundsOf', hreadOf', -, hpublications'⟩ := hmove.keeps
    exact ⟨hlife'.trans hlife, hheard'.trans hheard, hroundsOf'.trans hroundsOf,
      hreadOf'.trans hreadOf, List.Subset.trans hpublications hpublications'⟩

private theorem Site.Sound.moves (h : n.Sound R) (hmoves : n.Moves R n') : n'.Sound R := by
  induction hmoves with
  | refl => exact h
  | tail _ hmove ih => exact ih.move hmove

private theorem Knows.moves (h : Knows R m n) (hn : n.Sound R) (hmoves : n.Moves R n') :
    Knows R m n' := by
  induction hmoves with
  | refl => exact h
  | tail hmoves hmove ih => exact ih.move (hn.moves hmoves) hmove

/-! ### The cluster's calls, one node at a time -/

variable (R)

/-- Every node is sound, and every read but of a count left over was of the process's own round. -/
structure World.Good (w : World S) : Prop where
  sound : ∀ name, (w.sites name).Sound R
  own : ∀ e ∈ w.reads, e.Hears → ¬e.LeftOver → e.Own R

/-- A piece of the cluster's work on one node: the world is good after it, the cluster knows the
node, and the other nodes have moved by themselves alone. -/
structure Turn (m' : Member S) (name : Text) (w w' : World S) : Prop where
  good : w'.Good R
  called : m'.name = name
  knows : Knows R m' (w'.sites name)
  others : ∀ other, other ≠ name → (w.sites other).Moves R (w'.sites other)

variable {R} {name : Text}

private theorem World.Good.passes (h : w.Good R) (hpass : w.Passes R w') : w'.Good R := by
  refine ⟨fun name => (h.sound name).moves (hpass.2 name), ?_⟩
  rw [hpass.1]
  exact h.own

private theorem World.at_self (w : World S) (name : Text) (change : Site → Site) :
    (w.at name change).sites name = change (w.sites name) := Function.update_self ..

private theorem World.at_other (w : World S) (change : Site → Site) {other : Text}
    (hne : other ≠ name) :
    (w.at name change).sites other = w.sites other := Function.update_of_ne hne ..

theorem World.Good.at (h : w.Good R) {change : Site → Site}
    (hsound : (change (w.sites name)).Sound R) : (w.at name change).Good R := by
  refine ⟨fun other => ?_, h.own⟩
  by_cases hne : other = name
  · rw [hne, w.at_self]
    exact hsound
  · rw [w.at_other change hne]
    exact h.sound other

/-- Nothing was done yet. -/
theorem Turn.start (hgood : w.Good R) (hknows : Knows R m (w.sites m.name)) :
    Turn R m m.name w w :=
  ⟨hgood, rfl, hknows, fun _ _ => .refl⟩

/-- The nodes moved, and nothing else. -/
theorem Turn.passes (h : Turn R m name w w') (hpass : w'.Passes R w'') : Turn R m name w w'' := by
  refine ⟨h.good.passes hpass, h.called, ?_, fun other hother => ?_⟩
  · exact h.knows.moves (h.good.sound name) (hpass.2 name)
  · exact (h.others other hother).trans (hpass.2 other)

/-- The node was changed, and with it what is held of it. -/
theorem Turn.at (h : Turn R m name w w') {change : Site → Site}
    (hsound : (change (w'.sites name)).Sound R) (hcalled : m'.name = name)
    (hknows : Knows R m' (change (w'.sites name))) : Turn R m' name w (w'.at name change) := by
  refine ⟨h.good.at hsound, hcalled, ?_, fun other hne => ?_⟩
  · rwa [w'.at_self]
  · rw [w'.at_other change hne]
    exact h.others other hne

/-- What is held of the node has changed, in nothing that rests on the node. -/
theorem Turn.become (h : Turn R m name w w') (hcalled : m'.name = m.name)
    (hheard : m'.beatText = m.beatText) (hrounds : m'.rounds = m.rounds)
    (hreadAt : m'.readAt = m.readAt) (hpublished : m'.published = m.published) :
    Turn R m' name w w' := by
  refine ⟨h.good, hcalled.trans h.called, ⟨h.knows.started, hheard.trans h.knows.heard, ?_, ?_⟩,
    h.others⟩
  · rw [hrounds]
    exact h.knows.rounds
  · rw [hreadAt, hpublished]
    exact h.knows.published

namespace Member

/-- **Listening.** The count heard is one the process has, where it is the running one that
beat. -/
theorem turn_listen (h : Turn R m name w w') (hrun : (m.listen R).Runs (machine R) () w' m' w'') :
    Turn R m' name w w'' ∧ m'.readAt = m.readAt := by
  obtain rfl := h.called
  unfold listen at hrun
  rw [Prog.perform_bind, Prog.runs_call] at hrun
  obtain ⟨text, v, ⟨u, hpass, rfl, rfl⟩, hrun⟩ := hrun
  have hu := h.passes hpass
  have hsound := hu.good.sound m.name
  -- What the beat file holds, by what the call makes of it.
  cases hfile : (u.sites m.name).beatFile with
  | none =>
    have hread := Site.beatRead_none (R := R) hfile
    rw [hfile] at hrun
    obtain ⟨rfl, rfl⟩ := Prog.runs_pure.mp hrun
    exact ⟨hu.at (hread.symm ▸ hsound) rfl (hread.symm ▸ hu.knows), rfl⟩
  | some left =>
    obtain ⟨life, text⟩ := left
    rw [hfile] at hrun
    dsimp only [Option.map_some] at hrun
    by_cases hsame : text = m.beatText
    · have hread := Site.beatRead_same (R := R) hfile (hsame.trans hu.knows.heard)
      rw [if_pos hsame] at hrun
      obtain ⟨rfl, rfl⟩ := Prog.runs_pure.mp hrun
      exact ⟨hu.at (hread.symm ▸ hsound) rfl (hread.symm ▸ hu.knows), rfl⟩
    · have hread := Site.beatRead_new (R := R) hfile (hu.knows.heard ▸ hsame)
      rw [if_neg hsame, Prog.perform_bind, Prog.runs_call] at hrun
      obtain ⟨heard, x, ⟨y, hpass', rfl⟩, hrun⟩ := hrun
      obtain ⟨rfl, rfl⟩ := Prog.runs_pure.mp hrun
      refine ⟨Turn.passes (hu.at ?_ rfl ?_) hpass', rfl⟩
      · rw [hread]
        refine ⟨hsound.counted_le, hsound.beat, hsound.file, hsound.beatFile_le, ?_,
          hsound.readOf_le⟩
        dsimp only
        split
        · exact hsound.beatFile_le life text hfile
        · exact hsound.roundsOf_le
      · rw [hread]
        refine ⟨hu.knows.started, rfl, fun hrounds hof => ?_, hu.knows.published⟩
        dsimp only at hrounds hof ⊢
        -- A text that is no beat leaves the count as it was, and one that is says a count of the
        -- life that wrote it.
        cases hbeat : R.beat text with
        | none =>
          rw [hbeat] at hrounds hof
          exact hu.knows.rounds hrounds hof
        | some b =>
          rw [hbeat] at hof
          obtain rfl : life = (u.sites m.name).life := hof
          exact hsound.beat hu.knows.started text b hfile hbeat

/-- What reading the publication comes to, where the count heard is the running process's and none
is left over: the snapshot is held at that count, read at a count of its own. -/
def ReadAtOwn (m m' : Member S) (n : Site) : Prop :=
  1 ≤ m.rounds → n.roundsOf = n.life → ¬(m.readAt = some m.rounds ∧ n.readOf ≠ n.life) →
    m'.readAt = some m.rounds ∧ n.readOf = n.life

/-- **Reading the publication.** -/
theorem turn_readPublished (h : Turn R m name w w')
    (hrun : (m.readPublished R).Runs (machine R) () w' m' w'') :
    Turn R m' name w w'' ∧ ReadAtOwn m m' (w''.sites name) := by
  obtain rfl := h.called
  unfold readPublished at hrun
  by_cases hskip : m.rounds = 0 ∨ m.readAt = some m.rounds
  · rw [if_pos hskip] at hrun
    obtain ⟨rfl, rfl⟩ := Prog.runs_pure.mp hrun
    refine ⟨h, fun hrounds _ hleft => ?_⟩
    have hreadAt := hskip.resolve_left (by omega)
    rw [not_and, not_not] at hleft
    exact ⟨hreadAt, hleft hreadAt⟩
  rw [if_neg hskip, Prog.perform_bind, Prog.runs_call] at hrun
  obtain ⟨text, v, ⟨u, hpass, rfl, rfl⟩, hrun⟩ := hrun
  have hu := h.passes hpass
  have hsound := hu.good.sound m.name
  have hself := u.at_self m.name (Site.fileRead R)
  -- A count of the running process was published before: then the file is its own, and reads.
  have hown : 1 ≤ m.rounds → (u.sites m.name).roundsOf = (u.sites m.name).life →
      ∃ p ∈ (u.sites m.name).publications, p.life = (u.sites m.name).life ∧ m.rounds ≤ p.round ∧
        (u.sites m.name).file = some p.text ∧ (R.node p.text).isSome := by
    intro hrounds hof
    have hcounted := (hu.knows.rounds hrounds hof).trans hsound.counted_le
    obtain ⟨p, hp, hlife, hround, hfile⟩ := hsound.file (hrounds.trans hcounted)
    exact ⟨p, hp, hlife, hround ▸ hcounted, hfile⟩
  -- Where nothing could be read, no count of the running process was heard.
  have hnothing (hread : (u.sites m.name).fileRead R = u.sites m.name)
      (hno : ∀ text, (u.sites m.name).file = some text → R.node text = none) :
      Turn R m m.name w (u.at m.name (Site.fileRead R)) ∧
        ReadAtOwn m m ((u.at m.name (Site.fileRead R)).sites m.name) := by
    refine ⟨hu.at (hread.symm ▸ hsound) rfl (hread.symm ▸ hu.knows), ?_⟩
    rw [hself, hread]
    intro hrounds hof _
    obtain ⟨p, -, -, -, hfile, hreads⟩ := hown hrounds hof
    rw [hno p.text hfile] at hreads
    cases hreads
  cases hfile : (u.sites m.name).file with
  | none =>
    rw [hfile] at hrun
    obtain ⟨rfl, rfl⟩ := Prog.runs_pure.mp hrun
    refine hnothing ?_ fun text htext => ?_
    · unfold Site.fileRead
      rw [hfile]
    · rw [hfile] at htext
      cases htext
  | some text =>
    rw [hfile] at hrun
    dsimp only at hrun
    cases hnode : R.node text with
    | none =>
      rw [hnode] at hrun
      obtain ⟨rfl, rfl⟩ := Prog.runs_pure.mp hrun
      refine hnothing ?_ fun text' htext => ?_
      · unfold Site.fileRead
        rw [hfile]
        dsimp only
        rw [hnode]
        rfl
      · rw [hfile] at htext
        cases htext
        exact hnode
    | some said =>
      obtain ⟨snapshot, hops⟩ := said
      rw [hnode] at hrun
      obtain ⟨rfl, rfl⟩ := Prog.runs_pure.mp hrun
      have hread : (u.sites m.name).fileRead R =
          { u.sites m.name with readOf := (u.sites m.name).roundsOf } := by
        unfold Site.fileRead
        rw [hfile]
        dsimp only
        rw [hnode, hfile]
        rfl
      refine ⟨hu.at ?_ rfl ?_, ?_⟩
      · rw [hread]
        exact ⟨hsound.counted_le, hsound.beat, hsound.file, hsound.beatFile_le, hsound.roundsOf_le,
          hsound.roundsOf_le⟩
      · rw [hread]
        refine ⟨hu.knows.started, hu.knows.heard, hu.knows.rounds, fun r hr hof => ?_⟩
        cases hr
        obtain ⟨p, hp, hlife, hround, hpfile, -⟩ := hown (by omega) hof
        rw [hfile] at hpfile
        cases hpfile
        exact ⟨p, hp, hlife, hround, by rw [hnode]; rfl⟩
      · rw [hself, hread]
        intro _ hof _
        exact ⟨rfl, hof⟩

/-- **Reading a node.** The read that is noted is of the process's own round, unless of a count left
over. -/
theorem turn_read (h : Turn R m name w w') (hrun : (m.read R).Runs (machine R) () w' m' w'') :
    Turn R m' name w w'' := by
  unfold read at hrun
  simp only [Prog.runs_bind, Prog.perform_bind, Prog.runs_call] at hrun
  obtain ⟨listened, v, hlisten, after, u, hread, _, x, ⟨y, hpass, rfl⟩, hpure⟩ := hrun
  obtain ⟨rfl, rfl⟩ := Prog.runs_pure.mp hpure
  obtain ⟨hheard, -⟩ := turn_listen h hlisten
  obtain ⟨hafter, hown⟩ := turn_readPublished hheard hread
  have hy := hafter.passes hpass
  obtain ⟨hlife, -, hroundsOf, hreadOf, -⟩ := Site.Moves.keeps (hpass.2 name)
  refine ⟨⟨hy.good.sound, ?_⟩, hy.called, hy.knows, hy.others⟩
  rw [List.forall_mem_cons]
  refine ⟨fun ⟨hof, hrounds⟩ hleft => ?_, hy.good.own⟩
  unfold Seen.LeftOver at hleft
  dsimp only at hof hrounds hleft
  rw [hheard.called] at hof hleft
  -- The files moved between the reading and the note, not what the cluster made of them.
  rw [hroundsOf, hlife] at hof
  rw [hreadOf, hlife] at hleft
  obtain ⟨hreadAt, hreadOfLife⟩ := hown hrounds hof hleft
  rw [← hlife, ← hreadOf] at hreadOfLife
  have hheld := hy.knows.published _ hreadAt hreadOfLife
  rwa [← hheard.called] at hheld

private theorem turn_reap (h : Turn R m name w w') (hrun : m.reap.Runs (machine R) () w' m' w'') :
    Turn R m' name w w'' := by
  unfold reap at hrun
  split at hrun
  · rw [Prog.perform_bind, Prog.runs_call] at hrun
    obtain ⟨status, v, ⟨u, hpass, -, rfl⟩, hrun⟩ := hrun
    have hu := h.passes hpass
    cases status with
    | none =>
      obtain ⟨rfl, rfl⟩ := Prog.runs_pure.mp hrun
      exact hu
    | some status =>
      obtain ⟨rfl, rfl⟩ := Prog.runs_pure.mp hrun
      exact hu.become rfl rfl rfl rfl rfl
  · obtain ⟨rfl, rfl⟩ := Prog.runs_pure.mp hrun
    exact h

private theorem turn_kill (h : Turn R m name w w') (hrun : m.kill.Runs (machine R) () w' m' w'') :
    Turn R m' name w w'' := by
  obtain rfl := h.called
  unfold kill at hrun
  split at hrun
  · rw [Prog.perform_bind, Prog.runs_call] at hrun
    obtain ⟨exit, v, ⟨u, hpass, rfl⟩, hrun⟩ := hrun
    obtain ⟨rfl, rfl⟩ := Prog.runs_pure.mp hrun
    have hu := h.passes hpass
    have hsound := hu.good.sound m.name
    refine Turn.become (hu.at ?_ rfl ?_) rfl rfl rfl rfl rfl
    · exact ⟨hsound.counted_le, hsound.beat, hsound.file, hsound.beatFile_le, hsound.roundsOf_le,
        hsound.readOf_le⟩
    · exact ⟨hu.knows.started, hu.knows.heard, hu.knows.rounds, hu.knows.published⟩
  · obtain ⟨rfl, rfl⟩ := Prog.runs_pure.mp hrun
    exact h

private theorem turn_hung {liveness : Liveness} {b : Bool} (h : Turn R m name w w')
    (hrun : (m.hung liveness).Runs (machine R) () w' b w'') : Turn R m name w w'' := by
  unfold hung at hrun
  split at hrun
  · rw [Prog.perform_bind, Prog.runs_call] at hrun
    obtain ⟨now, v, ⟨u, hpass, rfl⟩, hrun⟩ := hrun
    obtain ⟨-, rfl⟩ := Prog.runs_pure.mp hrun
    exact h.passes hpass
  · obtain ⟨-, rfl⟩ := Prog.runs_pure.mp hrun
    exact h

end Member

/-- A process just started has no count and no publication yet: nothing that was heard or read of
the node before it is its own. -/
theorem Site.Sound.started (h : n.Sound R) : n.started.Sound R := by
  refine ⟨Nat.le_refl _, fun _ text b hfile => ?_, fun hdone => ?_, fun life text hfile => ?_, ?_,
    ?_⟩
  · have hle := h.beatFile_le _ _ hfile
    exact absurd hle (Nat.not_succ_le_self _)
  · exact absurd hdone (Nat.not_succ_le_zero _)
  · exact Nat.le_succ_of_le (h.beatFile_le life text hfile)
  · exact Nat.le_succ_of_le h.roundsOf_le
  · exact Nat.le_succ_of_le h.readOf_le

/-- What is held of a node whose process was just started, no rounds heard of it yet, is nothing of
its own, whatever else it is. -/
theorem Knows.of_started (h : n.Sound R) (hheard : m.beatText = n.heard) (hrounds : m.rounds = 0) :
    Knows R m n.started := by
  refine ⟨Nat.succ_pos _, hheard, fun hpos => ?_, fun r _ hof => ?_⟩
  · rw [hrounds] at hpos
    exact absurd hpos (Nat.not_succ_le_zero _)
  · have hle := h.readOf_le
    have hof : n.readOf = n.life + 1 := hof
    omega

namespace Member

/-- **Judging a process.** Restarted, a node keeps the count its publication was last read at; what
it says is of an earlier process. -/
theorem turn_judgeProcess {liveness : Liveness} (h : Turn R m name w w')
    (hrun : (m.judgeProcess R liveness).Runs (machine R) () w' m' w'') : Turn R m' name w w'' := by
  unfold judgeProcess at hrun
  simp only [Prog.runs_bind] at hrun
  obtain ⟨reaped, t, hreap, listened, u, hlisten, hung, v, hhung, hrun⟩ := hrun
  have hreaped := turn_reap h hreap
  have hheard := turn_hung (turn_listen hreaped hlisten).1 hhung
  split at hrun
  · simp only [Prog.runs_bind, Prog.perform_bind, Prog.runs_call] at hrun
    obtain ⟨killed, x, hkill, started, y, ⟨z, hpass, hstart⟩, hrun⟩ := hrun
    have hkilled := (turn_kill hheard hkill).passes hpass
    change y = if started then z.at killed.name Site.started else z at hstart
    rw [hkilled.called] at hstart
    split at hrun
    · next hok =>
      rw [if_pos hok] at hstart
      subst hstart
      rw [Prog.runs_call] at hrun
      obtain ⟨since, y', ⟨z', hpass', rfl⟩, hrun⟩ := hrun
      obtain ⟨rfl, rfl⟩ := Prog.runs_pure.mp hrun
      -- The new process has no round of its own yet, so the count and the reading kept are an
      -- earlier one's.
      have hsound := hkilled.good.sound name
      exact Turn.passes (hkilled.at hsound.started hkilled.called
        (Knows.of_started hsound hkilled.knows.heard rfl)) hpass'
    · next hno =>
      rw [if_neg hno] at hstart
      subst hstart
      obtain ⟨rfl, rfl⟩ := Prog.runs_pure.mp hrun
      exact hkilled.become rfl rfl rfl rfl rfl
  · obtain ⟨rfl, rfl⟩ := Prog.runs_pure.mp hrun
    exact hheard

end Member

/-! ### The cluster's work on every node -/

variable (R) in
/-- The cluster knows each of some nodes of distinct names, in a good world. -/
structure KnowsAll (nodes : List (Member S)) (w : World S) : Prop where
  good : w.Good R
  names : (nodes.map Member.name).Nodup
  knows : ∀ m ∈ nodes, Knows R m (w.sites m.name)

private theorem KnowsAll.passes {nodes : List (Member S)} (h : KnowsAll R nodes w)
    (hpass : w.Passes R w') : KnowsAll R nodes w' :=
  ⟨h.good.passes hpass, h.names, fun m hm => (h.knows m hm).moves (h.good.sound _) (hpass.2 _)⟩

/-- **One piece of work on each node in turn.** What is known of a node stays known through the
turns of the others. -/
theorem knowsAll_each {f : Member S → Prog (ClusterOp S) (Member S)}
    {nodes nodes' : List (Member S)} (hf : ∀ m m' w w' w'', Turn R m m.name w w' →
      (f m).Runs (machine R) () w' m' w'' →
      Turn R m' m.name w w'')
    (h : KnowsAll R nodes w) (hrun : (Prog.each f nodes).Runs (machine R) () w nodes' w') :
    KnowsAll R nodes' w' ∧ nodes'.map Member.name = nodes.map Member.name ∧
      ∀ other, other ∉ nodes.map Member.name → (w.sites other).Moves R (w'.sites other) := by
  induction nodes generalizing w nodes' with
  | nil =>
    obtain ⟨rfl, rfl⟩ := Prog.runs_each_nil.mp hrun
    exact ⟨h, rfl, fun _ _ => .refl⟩
  | cons m nodes ih =>
    obtain ⟨m', u, rest, hm, hrest, rfl⟩ := Prog.runs_each_cons.mp hrun
    have hnames := List.nodup_cons.mp h.names
    have hturn := hf m m' w w u (Turn.start h.good (h.knows m List.mem_cons_self)) hm
    -- The nodes still to come have only moved by themselves, so what is held of them stands.
    have hothers : KnowsAll R nodes u := by
      refine ⟨hturn.good, hnames.2, fun o ho => ?_⟩
      have hne : o.name ≠ m.name := fun heq => hnames.1 (heq ▸ List.mem_map_of_mem ho)
      exact (h.knows o (List.mem_cons_of_mem _ ho)).moves (h.good.sound _) (hturn.others _ hne)
    obtain ⟨hall, hsame, hmoves⟩ := ih hothers hrest
    refine ⟨⟨hall.good, ?_, ?_⟩, ?_, fun other hother => ?_⟩
    · rw [List.map_cons, hsame, hturn.called]
      exact h.names
    · rw [List.forall_mem_cons]
      refine ⟨?_, hall.knows⟩
      rw [hturn.called]
      exact hturn.knows.moves (hturn.good.sound _) (hmoves _ hnames.1)
    · rw [List.map_cons, List.map_cons, hsame, hturn.called]
    · rw [List.map_cons, List.mem_cons, not_or] at hother
      exact (hturn.others other hother.1).trans (hmoves other hother.2)

namespace Cluster

variable [Snapshot S] {root : Text} {liveness : Liveness} {names : List Text}
  {nodes nodes' : List (Member S)} {c c' : Cluster S}

omit [Snapshot S] in
private theorem knowsAll_awaitFresh {started polls : Nat} (h : KnowsAll R nodes w)
    (hrun : (awaitFresh R started polls nodes).Runs (machine R) () w nodes' w') :
    KnowsAll R nodes' w' := by
  induction polls generalizing nodes w with
  | zero => exact (knowsAll_each (fun _ _ _ _ _ => Member.turn_read) h hrun).1
  | succ polls ih =>
    unfold awaitFresh at hrun
    simp only [Prog.runs_bind] at hrun
    obtain ⟨read, u, hread, hrun⟩ := hrun
    -- each member that is read is told of what was read of it
    have hknows := (knowsAll_each (fun _ _ _ _ _ => Member.turn_read) h hread).1
    split at hrun
    · obtain ⟨rfl, rfl⟩ := Prog.runs_pure.mp hrun
      exact hknows
    · rw [Prog.perform_bind, Prog.runs_call] at hrun
      obtain ⟨now, v, ⟨v', hpass, rfl⟩, hrun⟩ := hrun
      -- what they know stays known as time passes
      have hv := hknows.passes hpass
      split at hrun
      · obtain ⟨rfl, rfl⟩ := Prog.runs_pure.mp hrun
        exact hv
      · rw [Prog.perform_bind, Prog.runs_call] at hrun
        obtain ⟨_, x, ⟨x', hpass', rfl⟩, hrun⟩ := hrun
        exact ih (hv.passes hpass') hrun

/-- **A tick** leaves a good world, in which the cluster knows its nodes. -/
theorem knowsAll_tick (h : KnowsAll R c.nodes w)
    (hrun : (c.tick R root).Runs (machine R) () w c' w') : KnowsAll R c'.nodes w' := by
  unfold tick at hrun
  simp only [Prog.perform_bind, Prog.runs_call, Prog.runs_bind] at hrun
  obtain ⟨started, t, ⟨t', hpass, rfl⟩, nodes, u, hawait, judged, v, hjudge, now, x,
    ⟨x', hpass', rfl⟩, hrun⟩ := hrun
  have ht := h.passes hpass
  -- Marking a node stale changes nothing that rests on the node.
  have hstale : KnowsAll R (c.nodes.map fun node => { node with fresh := false }) t := by
    refine ⟨ht.good, ?_, ?_⟩
    · rw [List.map_map]
      exact ht.names
    · rw [List.forall_mem_map]
      intro m hm
      have hknows := ht.knows m hm
      exact ⟨hknows.started, hknows.heard, hknows.rounds, hknows.published⟩
  have hawaited := knowsAll_awaitFresh hstale hawait
  have hjudged := (knowsAll_each (fun _ _ _ _ _ => Member.turn_judgeProcess) hawaited hjudge).1
  have hx := hjudged.passes hpass'
  split at hrun
  · obtain ⟨rfl, rfl⟩ := Prog.runs_pure.mp hrun
    exact hx
  · obtain ⟨rfl, rfl⟩ := Prog.runs_pure.mp hrun
    exact hx

private theorem knowsAll_startAll (hgood : w.Good R) (hnames : names.Nodup)
    (hheard : ∀ name ∈ names, (w.sites name).heard = [])
    (hrun : (startAll names).Runs (machine R) () w (some nodes) w') :
    KnowsAll R nodes w' ∧ nodes.map Member.name = names ∧
      ∀ other, other ∉ names → (w.sites other).Moves R (w'.sites other) := by
  induction names generalizing w nodes with
  | nil =>
    obtain ⟨hnodes, rfl⟩ := Prog.runs_pure.mp hrun
    cases hnodes
    exact ⟨⟨hgood, List.nodup_nil, nofun⟩, rfl, fun _ _ => .refl⟩
  | cons name names ih =>
    unfold startAll at hrun
    rw [Prog.perform_bind, Prog.runs_call] at hrun
    obtain ⟨started, v, ⟨u, hpass, hstart⟩, hrun⟩ := hrun
    split at hrun
    · next hok =>
      change v = if started then u.at name Site.started else u at hstart
      rw [if_pos hok] at hstart
      subst hstart
      simp only [Prog.perform_bind, Prog.runs_call, Prog.runs_bind] at hrun
      obtain ⟨since, x, ⟨x', hpass', rfl⟩, rest, y, hrest, hrun⟩ := hrun
      cases rest with
      | none => cases (Prog.runs_pure.mp hrun).1
      | some rest =>
        obtain ⟨hnodes, rfl⟩ := Prog.runs_pure.mp hrun
        cases hnodes
        rw [List.nodup_cons] at hnames
        rw [List.forall_mem_cons] at hheard
        have hu := hgood.passes hpass
        have hstarted := hu.at (hu.sound name).started
        -- Of the others, starting this one changes nothing.
        have hother (other : Text) (hne : other ≠ name) :
            (w.sites other).Moves R (x.sites other) := by
          have hmoves := hpass'.2 other
          rw [u.at_other Site.started hne] at hmoves
          exact (hpass.2 other).trans hmoves
        have hknows : Knows R (Member.started name since : Member S) (x.sites name) := by
          have hheardName : (u.sites name).heard = [] :=
            (Site.Moves.keeps (hpass.2 name)).2.1.trans hheard.1
          refine Knows.moves ?_ (hstarted.sound name) (hpass'.2 name)
          rw [u.at_self]
          exact Knows.of_started (hu.sound name) hheardName.symm rfl
        have hrestHeard : ∀ other ∈ names, (x.sites other).heard = [] := fun other hmem =>
          (Site.Moves.keeps (hother other (ne_of_mem_of_not_mem hmem hnames.1))).2.1.trans
            (hheard.2 other hmem)
        obtain ⟨hall, hsame, hmoves⟩ :=
          ih (hstarted.passes hpass') hnames.2 hrestHeard hrest
        refine ⟨⟨hall.good, ?_, ?_⟩, ?_, fun other hmem => ?_⟩
        · rw [List.map_cons, hsame]
          exact List.nodup_cons.mpr hnames
        · rw [List.forall_mem_cons]
          exact ⟨hknows.moves ((hstarted.passes hpass').sound name) (hmoves name hnames.1),
            hall.knows⟩
        · rw [List.map_cons, hsame]
          rfl
        · rw [List.mem_cons, not_or] at hmem
          exact (hother other hmem.1).trans (hmoves other hmem.2)
    · cases (Prog.runs_pure.mp hrun).1

omit [Snapshot S] in
private theorem good_of_unstarted (h : w.Unstarted) : w.Good R := by
  constructor
  · intro name
    have hsite := h.sites name
    refine ⟨by rw [hsite.done, hsite.counted], fun hlife => ?_, fun hdone => ?_,
      fun life text hfile => ?_, ?_, ?_⟩
    · rw [hsite.life] at hlife
      exact absurd hlife (Nat.lt_irrefl 0)
    · rw [hsite.done] at hdone
      exact absurd hdone (Nat.not_succ_le_zero 0)
    · rw [hsite.life, hsite.beatFile life text hfile]
    · rw [hsite.life, hsite.roundsOf]
    · rw [hsite.life, hsite.readOf]
  · intro e he
    rw [h.reads] at he
    cases he

/-- What holds of every read of a run. -/
theorem Reached.knowsAll (hnames : names.Nodup) (hstart : w.Unstarted)
    (h : Reached (machine R) () R root liveness names w c w') : KnowsAll R c.nodes w' := by
  induction h with
  | spawned hspawn =>
    unfold spawn at hspawn
    rw [Prog.runs_bind] at hspawn
    obtain ⟨nodes, u, hrun, hspawn⟩ := hspawn
    cases nodes with
    | none => cases (Prog.runs_pure.mp hspawn).1
    | some nodes =>
      obtain ⟨hc, rfl⟩ := Prog.runs_pure.mp hspawn
      cases hc
      exact (knowsAll_startAll (good_of_unstarted hstart) hnames
        (fun name _ => (hstart.sites name).heard) hrun).1
  | ticked _ htick ih => exact knowsAll_tick ih htick

/-- **Freshness across restarts.** A read that hears a beat of the process now running leaves the
cluster a snapshot that process published in the round heard or later, unless the count heard is
the one the publication was last read at for an earlier process. -/
theorem own_of_not_leftOver (hnames : names.Nodup) (hstart : w.Unstarted)
    (h : Reached (machine R) () R root liveness names w c w') {e : Seen S} (he : e ∈ w'.reads)
    (hears : e.Hears) (hleft : ¬e.LeftOver) : e.Own R :=
  (h.knowsAll hnames hstart).good.own e he hears hleft

/-! ### A node that falls silent and is started again

Each process of the one node publishes and counts so many rounds just before the cluster looks at
its beat, beats once, and then falls silent. The cluster reads what the first process left, kills it
as hung, and hears the second. Where both do one round, it is heard at the count its predecessor was
read at, and what is held is the snapshot of the killed process. -/

section Restarted

/-- What a publication says is the process that wrote it. -/
def silentPublished (text : Text) : Records :=
  Snapshot.recordHealth ⟨"c/node/a/receive".toList, .fine, 0, text, 0⟩ Snapshot.new

/-- A process of so many letters beats once it has counted `rounds` of that many. -/
def silentReading (rounds : Nat → Nat) : Reading Records where
  beat text := some ⟨0, rounds text.length⟩
  node text := some (silentPublished text, [])
  alive := "alive".toList
  systemProcess node := node ++ "/system-process".toList

/-- The process publishes a round, and counts it. -/
def roundDone (n : Site) : Site :=
  { n with
    done := n.done + 1, counted := n.done + 1, file := some (List.replicate n.life 'i'),
    publications := ⟨n.life, n.done + 1, List.replicate n.life 'i'⟩ :: n.publications }

/-- A process that has done nothing does its rounds, and beats. -/
def silentRound (rounds : Nat → Nat) (n : Site) : Site :=
  if n.running = true ∧ n.done = 0 ∧ n.counted = 0 then
    let done := roundDone^[rounds n.life] n
    { done with beatFile := some (done.life, List.replicate n.life 'i') }
  else n

/-- What each call does: ten seconds pass with every read. -/
def silentDoes (rounds : Nat → Nat) :
    ⦃β : Type⦄ → ClusterOp Records β → World Records → β × World Records
  | _, .beatText name, w =>
    (((w.at name (silentRound rounds)).sites name).beatFile.map Prod.snd,
      (w.at name (silentRound rounds)).at name (Site.beatRead (silentReading rounds)))
  | _, .publication name, w =>
    ((w.sites name).file, w.at name (Site.fileRead (silentReading rounds)))
  | _, .instant, w => (10000000000 * w.reads.length, w)
  | _, .now, w => (0, w)
  | _, .tryWait _, w => (none, w)
  | _, .kill name, w => (none, w.at name Site.killed)
  | _, .start name, w => (true, w.at name Site.started)
  | _, .sleep, w => ((), w)
  | _, .read listened after, w =>
    ((), { w with reads := ⟨w.sites listened.name, listened, after⟩ :: w.reads })

/-- Rounds published and counted are moves of the process, which runs on. -/
theorem moves_roundsDone {n : Site} (hrunning : n.running = true) (hdone : n.done = n.counted)
    (rounds : Nat → Nat) (k : Nat) :
    n.Moves (silentReading rounds) (roundDone^[k] n) ∧ (roundDone^[k] n).running = true ∧
      (roundDone^[k] n).life = n.life ∧ (roundDone^[k] n).done = n.done + k ∧
      (roundDone^[k] n).counted = n.counted + k := by
  induction k with
  | zero => exact ⟨.refl, hrunning, rfl, rfl, rfl⟩
  | succ k ih =>
    obtain ⟨hmoves, hrunning, hlife, hmade, hcounted⟩ := ih
    rw [Function.iterate_succ_apply']
    have hdue : (roundDone^[k] n).done = (roundDone^[k] n).counted := by rw [hmade, hcounted, hdone]
    refine ⟨(hmoves.tail (.publish _ _ hrunning hdue rfl)).tail (.count _ hrunning), hrunning,
      hlife, congrArg (· + 1) hmade, ?_⟩
    change (roundDone^[k] n).done + 1 = n.counted + k + 1
    rw [hmade, hdone]

private theorem moves_silentRound (rounds : Nat → Nat) (n : Site) :
    n.Moves (silentReading rounds) (silentRound rounds n) := by
  unfold silentRound
  split
  · next h =>
    obtain ⟨hrunning, hdone, hcounted⟩ := h
    obtain ⟨hmoves, hruns, -, -, hcount⟩ :=
      moves_roundsDone hrunning (hdone.trans hcounted.symm) rounds (rounds n.life)
    have hhonest : ∀ b, (silentReading rounds).beat (List.replicate n.life 'i') = some b →
        b.rounds ≤ (roundDone^[rounds n.life] n).counted := by
      intro b hb
      obtain rfl := Option.some.inj hb
      change rounds (List.replicate n.life 'i').length ≤ _
      rw [List.length_replicate, hcount]
      exact Nat.le_add_left _ _
    exact hmoves.tail (.beat _ (List.replicate n.life 'i') hruns hhonest)
  · exact .refl

private theorem machine_silentDoes (rounds : Nat → Nat) ⦃β : Type⦄ (op : ClusterOp Records β)
    (w : World Records) :
    machine (silentReading rounds) () op w (silentDoes rounds op w).1
      (silentDoes rounds op w).2 := by
  have hstay : w.Passes (silentReading rounds) w := ⟨rfl, fun _ => .refl⟩
  cases op with
  | beatText name =>
    refine ⟨w.at name (silentRound rounds), ⟨rfl, fun other => ?_⟩, rfl, rfl⟩
    by_cases hne : other = name
    · rw [hne, w.at_self]
      exact moves_silentRound rounds _
    · rw [w.at_other (silentRound rounds) hne]
  | tryWait name => exact ⟨w, hstay, nofun, rfl⟩
  | publication name => exact ⟨w, hstay, rfl, rfl⟩
  | _ => exact ⟨w, hstay, rfl⟩

/-- Before the first process: no file, nothing read. -/
def silentBefore : World Records :=
  ⟨fun _ => ⟨0, false, 0, 0, [], none, none, [], 0, 0⟩, []⟩

def silentSpawned : Cluster Records :=
  ⟨⟨100000000, 3, 10000000000⟩, [Member.started ['a'] 0], Snapshot.new, [], false⟩

/-- The world after the spawn, and the cluster and the world after each of two ticks. -/
def silentWorld (rounds : Nat → Nat) : World Records :=
  ((spawn (S := Records) silentSpawned.liveness [['a']]).played (silentDoes rounds) silentBefore).2

def silentTicked (rounds : Nat → Nat) : Cluster Records × World Records :=
  (silentSpawned.tick (silentReading rounds) ['c']).played (silentDoes rounds) (silentWorld rounds)

def silentTickedAgain (rounds : Nat → Nat) : Cluster Records × World Records :=
  ((silentTicked rounds).1.tick (silentReading rounds) ['c']).played (silentDoes rounds)
    (silentTicked rounds).2

private theorem reached_silentTickedAgain (rounds : Nat → Nat) :
    Reached (machine (silentReading rounds)) () (silentReading rounds) ['c'] silentSpawned.liveness
      [['a']] silentBefore (silentTickedAgain rounds).1 (silentTickedAgain rounds).2 := by
  have hdoes := machine_silentDoes rounds
  have hspawn : Reached (machine (silentReading rounds)) () (silentReading rounds) ['c']
      silentSpawned.liveness [['a']] silentBefore silentSpawned (silentWorld rounds) :=
    .spawned (Prog.runs_played hdoes _ silentBefore)
  have hticked : Reached (machine (silentReading rounds)) () (silentReading rounds) ['c']
      silentSpawned.liveness [['a']] silentBefore (silentTicked rounds).1 (silentTicked rounds).2 :=
    hspawn.ticked (Prog.runs_played hdoes (silentSpawned.tick (silentReading rounds) ['c'])
      (silentWorld rounds))
  exact hticked.ticked (Prog.runs_played hdoes
    ((silentTicked rounds).1.tick (silentReading rounds) ['c']) (silentTicked rounds).2)

private theorem unstarted_silentBefore : silentBefore.Unstarted :=
  ⟨fun _ => ⟨rfl, rfl, rfl, rfl, rfl, nofun, rfl, rfl, rfl⟩, rfl⟩

/-- A second process of two rounds is heard at two, where its predecessor was read at one, and what
is read is its own. -/
theorem own_silentTickedAgain : ∃ e ∈ (silentTickedAgain id).2.reads, e.Hears ∧ e.site.life = 2 ∧
    e.listened.readAt = some 1 ∧ e.listened.rounds = 2 ∧ e.site.readOf = 2 ∧
      e.Own (silentReading id) := by
  have hread : ∃ e, (silentTickedAgain id).2.reads.head? = some e ∧ e.site.life = 2 ∧
      e.site.roundsOf = 2 ∧ e.site.readOf = 2 ∧ e.listened.rounds = 2 ∧
      e.listened.readAt = some 1 := ⟨_, rfl, rfl, rfl, rfl, rfl, rfl⟩
  obtain ⟨e, he, hlife, hof, hreadOf, hrounds, hreadAt⟩ := hread
  have hmem := List.mem_of_head? he
  have hears : e.Hears := ⟨hof.trans hlife.symm, by omega⟩
  refine ⟨e, hmem, hears, hlife, hreadAt, hrounds, hreadOf, own_of_not_leftOver
    (List.nodup_singleton _) unstarted_silentBefore (reached_silentTickedAgain id) hmem hears
    fun hleft => ?_⟩
  -- One round, which is left over, is not the two that are heard.
  have hsame := hreadAt.symm.trans hleft.1
  rw [hrounds] at hsame
  cases hsame

/-- The second process is heard at the round its predecessor was read at, and the snapshot held is
its predecessor's. -/
theorem not_own_silentTickedAgain :
    silentBefore.Unstarted ∧
      Reached (machine (silentReading fun _ => 1)) () (silentReading fun _ => 1) ['c']
        silentSpawned.liveness [['a']] silentBefore (silentTickedAgain fun _ => 1).1
        (silentTickedAgain fun _ => 1).2 ∧
      ∃ e ∈ (silentTickedAgain fun _ => 1).2.reads, e.Hears ∧ e.site.life = 2 ∧
        ¬e.Own (silentReading fun _ => 1) := by
  have hread : ∃ e, (silentTickedAgain fun _ => 1).2.reads.head? = some e ∧ e.site.life = 2 ∧
      e.site.roundsOf = 2 ∧ e.listened.rounds = 1 ∧
      e.site.publications = [⟨2, 1, ['i', 'i']⟩, ⟨1, 1, ['i']⟩] ∧
      e.after.published = silentPublished ['i'] := ⟨_, rfl, rfl, rfl, rfl, rfl, rfl⟩
  obtain ⟨e, he, hlife, hof, hrounds, hpublications, hheld⟩ := hread
  refine ⟨unstarted_silentBefore, reached_silentTickedAgain _, e, List.mem_of_head? he,
    ⟨hof.trans hlife.symm, hrounds.ge⟩, hlife, ?_⟩
  rintro ⟨p, hp, hplife, -, hsaid⟩
  rw [hpublications, List.mem_cons, List.mem_singleton] at hp
  rw [hheld] at hsaid
  -- The round of the process now running says other letters, and the one held is of a process
  -- killed.
  rcases hp with rfl | rfl
  · have hevidence : [['i', 'i']] = [['i']] :=
      congrArg (fun s : Records => s.health.all.map HealthRecord.evidence)
        (Option.some.inj hsaid)
    cases hevidence
  · rw [hlife] at hplife
    cases hplife

end Restarted

end Cluster

end XmipEssentials
