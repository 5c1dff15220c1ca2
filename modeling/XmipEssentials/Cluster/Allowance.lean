import XmipEssentials.Cluster.Member
import XmipEssentials.Records

/-!
# When a node is judged hung

A cluster hears a node's beat, reads what it published, and judges its process, in whatever order
its ticks bring. A `Vigil` is what its calls and their answers show of the node: when its process
was started, when its beat was last seen to have changed since, when it was last judged. The clock
answers whatever it likes.

`Vigil.Of` says that the node as the cluster holds it is what the vigil shows; every visit keeps it
(`of_visit`). A judgement then kills just where the vigil no longer spares the node (`settled`):
where its beat has not changed for longer than it may be silent, or it has not beaten for longer
than it may take to start, at the one reading of the clock that the judgement makes.
-/

namespace XmipEssentials

open Text Conc

/-- What the next reading of the clock is for. -/
inductive Due where
  /-- A changed beat was read. -/
  | change
  /-- A process was started. -/
  | start
  deriving DecidableEq, Repr

/-- What the calls about a node, and their answers, show of it. -/
structure Vigil where
  /-- The clock as last read. -/
  clock : Nat
  due : Option Due
  /-- The beat as last read. -/
  heard : Text
  /-- When the process held was started. -/
  start : Nat
  /-- When its beat was last seen to have changed, where it was since the start. -/
  change : Option Nat
  /-- When a judgement last asked the time. -/
  judged : Option Nat
  kills : Nat
  deriving DecidableEq, Repr

variable {S : Type}

/-- The owner's numbers: a beat every tenth of a second, a hundred of them missed, and ten seconds
to start. -/
def Liveness.OWNERS : Liveness := ⟨100000000, 100, 10000000000⟩

namespace Vigil

/-- A process started, and nothing heard of it. -/
def started (since : Nat) : Vigil where
  clock := since
  due := none
  heard := []
  start := since
  change := none
  judged := none
  kills := 0

/-- The beat was read. -/
def read (w : Vigil) : Option Text → Vigil
  | some text => if text = w.heard then w else { w with heard := text, due := some .change }
  | none => w

/-- The clock was read. -/
def timed (w : Vigil) (now : Nat) : Vigil :=
  match w.due with
  | some .change => { w with clock := now, due := none, change := some now }
  | some .start => { w with clock := now, due := none, start := now, change := none }
  | none => { w with clock := now, judged := some now }

/-- What a call and its answer show. -/
def Seen : {β : Type} → ClusterOp S β → Vigil → β → Vigil → Prop
  | _, .beatText _, w, b, w' => w' = w.read b
  | _, .publication _, w, _, w' => w' = w
  | _, .instant, w, b, w' => w' = w.timed b
  | _, .now, w, _, w' => w' = w
  | _, .tryWait _, w, _, w' => w' = w
  | _, .kill _, w, _, w' => w' = { w with kills := w.kills + 1 }
  | _, .start _, w, b, w' => w' = if b then { w with due := some .start } else w
  | _, .sleep, w, _, w' => w' = w
  | _, .read _ _, w, _, w' => w' = w

/-- Every call answers as it likes. -/
def kept : Exec Unit (ClusterOp S) Vigil := fun _ _ op w b w' => Seen op w b w'

/-- At this time the node has an allowance left: to be silent since its beat last changed, or to
start. -/
def Spared (liveness : Liveness) (w : Vigil) (now : Nat) : Prop :=
  match w.change with
  | some change => now - change ≤ liveness.beat * liveness.missed
  | none => now - w.start ≤ liveness.starting

/-- The node is held as the vigil shows it. -/
structure Of (w : Vigil) (m : Member S) : Prop where
  due : w.due = none
  text : m.beatText = w.heard
  since : m.since = w.start
  beat : m.beat = w.change
  kills : m.restarts = w.kills

end Vigil

namespace Member

variable (R : Reading S) (liveness : Liveness)

/-- What a judgement looks at: whether the process has exited, and its beat as it is now. -/
def look (m : Member S) : Prog (ClusterOp S) (Member S) := do
  let m ← m.reap
  m.listen R

/-- A node judged hung: its process killed, and another started where it can be. -/
def replace (m : Member S) : Prog (ClusterOp S) (Member S) := do
  let m ← m.kill
  let m := { m with restarts := m.restarts + 1 }
  if ← Prog.perform (.start m.name) then
    let since ← Prog.perform .instant
    pure (m.restarted since)
  else pure m

/-- What a judgement does with what it saw. -/
def settle (m : Member S) : Prog (ClusterOp S) (Member S) := do
  if ← m.hung liveness then m.replace else pure m

/-- A judgement looks, and settles. -/
theorem judgeProcess_eq (m : Member S) : m.judgeProcess R liveness = m.look R >>= settle liveness :=
  (Prog.bind_assoc ..).symm

/-- What a tick does to a node. -/
inductive Visit where
  /-- It begins, and the node is not fresh yet. -/
  | begin
  | read
  | judge
  deriving DecidableEq, Repr

def visit (m : Member S) : Visit → Prog (ClusterOp S) (Member S)
  | .begin => pure { m with fresh := false }
  | .read => m.read R
  | .judge => m.judgeProcess R liveness

/-- Visit after visit. -/
def visits (m : Member S) : List Visit → Prog (ClusterOp S) (Member S)
  | [] => pure m
  | one :: rest => do
    let m ← m.visit R liveness one
    m.visits rest

end Member

namespace Vigil

variable {R : Reading S} {liveness : Liveness} {m m' : Member S} {w w' : Vigil}

private theorem of_started [Snapshot S] (name : Text) (since : Nat) :
    (started since).Of (Member.started name since : Member S) :=
  ⟨rfl, rfl, rfl, rfl, rfl⟩

/-- Hearing a beat: a changed one is a sign of life at the time it was read. -/
theorem of_listen (h : w.Of m) (hrun : (m.listen R).Runs kept () w m' w') :
    w'.Of m' ∧ m'.alive = m.alive ∧ m'.restarts = m.restarts ∧ w'.kills = w.kills ∧
    w'.start = w.start ∧
      (w'.heard = w.heard → w'.change = w.change) ∧
      (w'.heard ≠ w.heard → w'.change = some w'.clock) := by
  unfold Member.listen at hrun
  rw [Prog.perform_bind, Prog.runs_call] at hrun
  obtain ⟨text, u, hread, hrun⟩ := hrun
  change u = w.read text at hread
  -- Nothing on file, or what was there before, tells nothing new.
  cases text with
  | none =>
    obtain ⟨rfl, rfl⟩ := Prog.runs_pure.mp hrun
    subst hread
    exact ⟨h, rfl, rfl, rfl, rfl, fun _ => rfl, fun hne => absurd rfl hne⟩
  | some text =>
    unfold Vigil.read at hread
    rw [← h.text] at hread
    dsimp only at hrun hread
    by_cases hsame : text = m.beatText
    · rw [if_pos hsame] at hrun hread
      obtain ⟨rfl, rfl⟩ := Prog.runs_pure.mp hrun
      subst hread
      exact ⟨h, rfl, rfl, rfl, rfl, fun _ => rfl, fun hne => absurd rfl hne⟩
    · -- A new text is the beat heard now.
      rw [if_neg hsame] at hrun hread
      rw [Prog.perform_bind, Prog.runs_call] at hrun
      obtain ⟨heard, v, htold, hrun⟩ := hrun
      obtain ⟨rfl, rfl⟩ := Prog.runs_pure.mp hrun
      change w' = u.timed heard at htold
      subst hread
      subst htold
      refine ⟨⟨rfl, rfl, h.since, rfl, h.kills⟩, rfl, rfl, rfl, rfl, fun heq => ?_, fun _ => rfl⟩
      exact absurd (heq.trans h.text.symm) hsame

private theorem of_readPublished (h : w.Of m) (hrun : (m.readPublished R).Runs kept () w m' w') :
    w'.Of m' ∧ m'.restarts = m.restarts := by
  unfold Member.readPublished at hrun
  -- A round already shown, or nothing published, leaves the member as it was.
  split at hrun
  · obtain ⟨rfl, rfl⟩ := Prog.runs_pure.mp hrun
    exact ⟨h, rfl⟩
  · rw [Prog.perform_bind, Prog.runs_call] at hrun
    obtain ⟨text, u, hshows, hrun⟩ := hrun
    change u = w at hshows
    subst hshows
    cases text with
    | none =>
      obtain ⟨rfl, rfl⟩ := Prog.runs_pure.mp hrun
      exact ⟨h, rfl⟩
    | some text =>
      -- What does not parse leaves it too; what does is shown, and touches nothing the allowance
      -- rests on.
      dsimp only at hrun
      split at hrun
      · obtain ⟨rfl, rfl⟩ := Prog.runs_pure.mp hrun
        exact ⟨h, rfl⟩
      · obtain ⟨rfl, rfl⟩ := Prog.runs_pure.mp hrun
        exact ⟨⟨h.due, h.text, h.since, h.beat, h.kills⟩, rfl⟩

private theorem of_read (h : w.Of m) (hrun : (m.read R).Runs kept () w m' w') :
    w'.Of m' ∧ m'.restarts = m.restarts := by
  unfold Member.read at hrun
  simp only [Prog.runs_bind, Prog.perform_bind, Prog.runs_call] at hrun
  obtain ⟨listened, u, hlisten, after, v, hread, _, x, hshows, hpure⟩ := hrun
  change x = v at hshows
  subst hshows
  obtain ⟨rfl, rfl⟩ := Prog.runs_pure.mp hpure
  have hlistened := of_listen h hlisten
  have hafter := of_readPublished hlistened.1 hread
  exact ⟨hafter.1, hafter.2.trans hlistened.2.2.1⟩

private theorem of_reap (h : w.Of m) (hrun : m.reap.Runs kept () w m' w') :
    w' = w ∧ w.Of m' ∧ m'.restarts = m.restarts := by
  unfold Member.reap at hrun
  split at hrun
  · rw [Prog.perform_bind, Prog.runs_call] at hrun
    obtain ⟨status, u, hshows, hrun⟩ := hrun
    change u = w at hshows
    subst hshows
    cases status with
    | none =>
      obtain ⟨rfl, rfl⟩ := Prog.runs_pure.mp hrun
      exact ⟨rfl, h, rfl⟩
    | some status =>
      obtain ⟨rfl, rfl⟩ := Prog.runs_pure.mp hrun
      exact ⟨rfl, ⟨h.due, h.text, h.since, h.beat, h.kills⟩, rfl⟩
  · obtain ⟨rfl, rfl⟩ := Prog.runs_pure.mp hrun
    exact ⟨rfl, h, rfl⟩

/-- What a look sees: the beat changed, or it did not. -/
structure Looked (w : Vigil) (m : Member S) (w' : Vigil) (m' : Member S) : Prop where
  held : w'.Of m'
  restarts : m'.restarts = m.restarts
  kills : w'.kills = w.kills
  start : w'.start = w.start
  unchanged : w'.heard = w.heard → w'.change = w.change
  changed : w'.heard ≠ w.heard → w'.change = some w'.clock

private theorem looked (h : w.Of m) (hrun : (m.look R).Runs kept () w m' w') :
    Looked w m w' m' := by
  unfold Member.look at hrun
  obtain ⟨reaped, u, hreap, hlisten⟩ := Prog.runs_bind.mp hrun
  obtain ⟨rfl, hreaped, hrestarts⟩ := of_reap h hreap
  obtain ⟨hheld, -, hcount, hkills, hstart, hunchanged, hchanged⟩ := of_listen hreaped hlisten
  exact ⟨hheld, hcount.trans hrestarts, hkills, hstart, hunchanged, hchanged⟩

/-- What a judgement comes to. -/
structure Settled (liveness : Liveness) (w : Vigil) (m : Member S) (w' : Vigil) (m' : Member S) :
    Prop where
  held : w'.Of m'
  /-- A process that is not held is not judged. -/
  gone : m.alive = false → m' = m ∧ w' = w
  /-- A judgement asks the time once, and kills where the node has no allowance left by then. -/
  judged : m.alive = true → ∃ now, w'.judged = some now ∧
    (w.Spared liveness now → w'.kills = w.kills ∧ m' = m) ∧
    (¬w.Spared liveness now → w'.kills = w.kills + 1 ∧ m'.restarts = m.restarts + 1 ∧
      (m'.alive = true → w'.change = none ∧ w'.start = w'.clock))

private theorem hung_iff (h : w.Of m) (now : Nat) :
    liveness.hung (now - m.since) (m.beat.map (now - ·)) = true ↔ ¬w.Spared liveness now := by
  unfold Liveness.hung Spared
  rw [h.beat, h.since]
  cases w.change with
  | none => exact decide_eq_true_iff.trans not_le.symm
  | some change => exact decide_eq_true_iff.trans not_le.symm

/-- A node killed as hung is started again, where it can be, with a starting allowance of its
own. -/
theorem replaced (h : w.Of m) (halive : m.alive = true)
    (hrun : (m.replace).Runs kept () w m' w') :
    w'.Of m' ∧ w'.judged = w.judged ∧ w'.kills = w.kills + 1 ∧ m'.restarts = m.restarts + 1 ∧
      (m'.alive = true → w'.change = none ∧ w'.start = w'.clock) := by
  unfold Member.replace Member.kill at hrun
  rw [if_pos halive] at hrun
  -- The process is killed first, and a new one started in its place.
  simp only [Prog.runs_bind, Prog.perform_bind, Prog.runs_call] at hrun
  obtain ⟨killed, x, ⟨exit, y, hkill, hpure⟩, ok, z, hstart, hrun⟩ := hrun
  obtain ⟨rfl, rfl⟩ := Prog.runs_pure.mp hpure
  change x = { w with kills := w.kills + 1 } at hkill
  change z = if ok then { x with due := some .start } else x at hstart
  have hcount : m.restarts + 1 = w.kills + 1 := congrArg (· + 1) h.kills
  -- Where one was started the wait begins anew.
  cases ok with
  | true =>
    rw [if_pos rfl] at hrun hstart
    rw [Prog.runs_call] at hrun
    obtain ⟨since, v, htold, hrun⟩ := hrun
    obtain ⟨rfl, rfl⟩ := Prog.runs_pure.mp hrun
    change w' = z.timed since at htold
    subst hstart hkill htold
    exact ⟨⟨rfl, h.text, rfl, rfl, hcount⟩, rfl, rfl, rfl, fun _ => ⟨rfl, rfl⟩⟩
  -- Where none could be, nobody is waited for.
  | false =>
    rw [if_neg Bool.false_ne_true] at hrun hstart
    obtain ⟨rfl, rfl⟩ := Prog.runs_pure.mp hrun
    subst hstart hkill
    exact ⟨⟨h.due, h.text, h.since, h.beat, hcount⟩, rfl, rfl, rfl,
      fun halive => absurd halive Bool.false_ne_true⟩

theorem settled (h : w.Of m) (hrun : (m.settle liveness).Runs kept () w m' w') :
    Settled liveness w m w' m' := by
  unfold Member.settle at hrun
  simp only [Prog.runs_bind] at hrun
  obtain ⟨hung, u, hhung, hrun⟩ := hrun
  unfold Member.hung at hhung
  by_cases halive : m.alive = true
  · rw [if_pos halive, Prog.perform_bind, Prog.runs_call] at hhung
    obtain ⟨now, v, htold, hhung⟩ := hhung
    obtain ⟨rfl, rfl⟩ := Prog.runs_pure.mp hhung
    change u = w.timed now at htold
    unfold timed at htold
    rw [h.due] at htold
    dsimp only at htold
    subst htold
    have hasked : Of { w with clock := now, due := none, judged := some now } m :=
      ⟨rfl, h.text, h.since, h.beat, h.kills⟩
    by_cases hspared : w.Spared liveness now
    · -- An allowance is left.
      rw [if_neg (fun hhung => (hung_iff h now).mp hhung hspared)] at hrun
      obtain ⟨rfl, rfl⟩ := Prog.runs_pure.mp hrun
      refine ⟨hasked, fun hgone => ?_, fun _ => ?_⟩
      · exact absurd (halive.symm.trans hgone) Bool.noConfusion
      · exact ⟨now, rfl, fun _ => ⟨rfl, rfl⟩, fun hnot => absurd hspared hnot⟩
    · -- None is left, so it is killed, and one started in its place.
      rw [if_pos ((hung_iff h now).mpr hspared)] at hrun
      obtain ⟨hheld, hjudged, hkills, hrestarts, hstarted⟩ :=
        replaced hasked halive hrun
      refine ⟨hheld, fun hgone => ?_, fun _ => ?_⟩
      · exact absurd (halive.symm.trans hgone) Bool.noConfusion
      · exact ⟨now, hjudged, fun hyes => absurd hyes hspared,
          fun _ => ⟨hkills, hrestarts, hstarted⟩⟩
  · -- Nothing is running, so nothing is judged.
    have hgone : m.alive = false := Bool.eq_false_of_not_eq_true halive
    rw [if_neg halive] at hhung
    obtain ⟨rfl, rfl⟩ := Prog.runs_pure.mp hhung
    rw [if_neg Bool.false_ne_true] at hrun
    obtain ⟨rfl, rfl⟩ := Prog.runs_pure.mp hrun
    exact ⟨h, fun _ => ⟨rfl, rfl⟩, fun halive => absurd (halive.symm.trans hgone) Bool.noConfusion⟩

/-- A visit keeps the node as the vigil shows it, and its restarts never fall. -/
theorem of_visit {one : Member.Visit} (h : w.Of m)
    (hrun : (m.visit R liveness one).Runs kept () w m' w') : w'.Of m' ∧
    m.restarts ≤ m'.restarts := by
  -- Only what judges may restart it.
  cases one with
  | begin =>
    obtain ⟨rfl, rfl⟩ := Prog.runs_pure.mp hrun
    exact ⟨⟨h.due, h.text, h.since, h.beat, h.kills⟩, Nat.le_refl _⟩
  | read =>
    obtain ⟨hheld, hrestarts⟩ := of_read h hrun
    exact ⟨hheld, hrestarts.ge⟩
  | judge =>
    unfold Member.visit at hrun
    rw [Member.judgeProcess_eq] at hrun
    obtain ⟨seen, u, hlook, hsettle⟩ := Prog.runs_bind.mp hrun
    have hlooked := looked h hlook
    have hsettled := settled hlooked.held hsettle
    refine ⟨hsettled.held, ?_⟩
    cases halive : seen.alive with
    | false =>
      rw [(hsettled.gone halive).1, hlooked.restarts]
    | true =>
      obtain ⟨now, -, hspared, hkilled⟩ := hsettled.judged halive
      by_cases hallowed : u.Spared liveness now
      · rw [(hspared hallowed).2, hlooked.restarts]
      · rw [(hkilled hallowed).2.1, hlooked.restarts]
        exact Nat.le_succ _

/-- **Visit after visit** keeps the node as the vigil shows it. -/
theorem of_visits {all : List Member.Visit} (h : w.Of m)
    (hrun : (m.visits R liveness all).Runs kept () w m' w') : w'.Of m' ∧
    m.restarts ≤ m'.restarts := by
  induction all generalizing m w with
  | nil =>
    obtain ⟨rfl, rfl⟩ := Prog.runs_pure.mp hrun
    exact ⟨h, Nat.le_refl _⟩
  | cons one rest ih =>
    obtain ⟨m₁, w₁, hone, hrest⟩ := Prog.runs_bind.mp hrun
    obtain ⟨hheld, hle⟩ := of_visit h hone
    obtain ⟨hlast, hle'⟩ := ih hheld hrest
    exact ⟨hlast, hle.trans hle'⟩

/-- A node restarted is never published fine. -/
theorem processRecord_ne_fine (hrestarts : 0 < m.restarts) (R : Reading S) (root : Text)
    (now : Int) :
    (m.processRecord R root now).health ≠ .fine := by
  have hne : m.restarts ≠ 0 := hrestarts.ne'
  unfold Member.processRecord Member.standing
  cases m.exit with
  | none =>
    dsimp only
    rw [if_pos hne]
    exact Health.noConfusion
  | some status =>
    dsimp only
    by_cases hfailed : (!status.success) = true
    · rw [if_pos hfailed]
      exact Health.noConfusion
    · rw [if_neg hfailed, if_neg hne]
      exact Health.noConfusion

variable [Snapshot S]

/-- **The liveness judgement is safe.** Whatever beats were heard of a node, however it was visited
and whatever the clock said: a judgement that finds its process held asks the time, and kills it
just where by then its beat has been unchanged for longer than it may be silent, or it has not
beaten for longer than it may take to start. A beat changed when the judgement listens was changed
at that time. A node killed has one restart more, a process started in its place an allowance from
its start, and nothing fine is said of the node's process from then on. -/
theorem judgement_safe {name : Text} {since : Nat} {all : List Member.Visit} {m₁ m₂ : Member S}
    {w₁ w₂ : Vigil}
    (hrun : (Member.visits R liveness (.started name since) all).Runs kept () (started since) m w)
    (hlook : (m.look R).Runs kept () w m₁ w₁)
      (hsettle : (m₁.settle liveness).Runs kept () w₁ m₂ w₂) :
    (w₁.heard = w.heard → w₁.change = w.change) ∧
    (w₁.heard ≠ w.heard → w₁.change = some w₁.clock ∧
      ∀ now, w₂.judged = some now → now - w₁.clock ≤ liveness.beat * liveness.missed →
        w₂.kills = w.kills) ∧
    (m₁.alive = false → w₂.kills = w.kills ∧ m₂.restarts = m.restarts) ∧
    (m₁.alive = true → ∃ now, w₂.judged = some now ∧
      (w₁.Spared liveness now → w₂.kills = w.kills ∧ m₂.alive = true ∧ m₂.restarts = m.restarts) ∧
      (¬w₁.Spared liveness now → w₂.kills = w.kills + 1 ∧ m₂.restarts = m.restarts + 1 ∧
        (m₂.alive = true → w₂.change = none ∧ w₂.start = w₂.clock))) ∧
    (0 < w₂.kills → ∀ (later : List Member.Visit) (m' : Member S) (w' : Vigil),
      (m₂.visits R liveness later).Runs kept () w₂ m' w' →
        ∀ root now, (m'.processRecord R root now).health ≠ .fine) := by
  have hheld := (of_visits (of_started name since) hrun).1
  have hlooked := looked hheld hlook
  have hsettled := settled hlooked.held hsettle
  have hjudged (halive : m₁.alive = true) : ∃ now, w₂.judged = some now ∧
      (w₁.Spared liveness now → w₂.kills = w.kills ∧ m₂.alive = true ∧ m₂.restarts = m.restarts) ∧
      (¬w₁.Spared liveness now → w₂.kills = w.kills + 1 ∧ m₂.restarts = m.restarts + 1 ∧
        (m₂.alive = true → w₂.change = none ∧ w₂.start = w₂.clock)) := by
    obtain ⟨now, hasked, hspared, hkilled⟩ := hsettled.judged halive
    refine ⟨now, hasked, fun hyes => ?_, fun hnot => ?_⟩
    · obtain ⟨hkills, rfl⟩ := hspared hyes
      exact ⟨hkills.trans hlooked.kills, halive, hlooked.restarts⟩
    · obtain ⟨hkills, hrestarts, hstarted⟩ := hkilled hnot
      rw [hlooked.kills] at hkills
      rw [hlooked.restarts] at hrestarts
      exact ⟨hkills, hrestarts, hstarted⟩
  have hgone (hnone : m₁.alive = false) : w₂.kills = w.kills ∧ m₂.restarts = m.restarts := by
    obtain ⟨rfl, rfl⟩ := hsettled.gone hnone
    exact ⟨hlooked.kills, hlooked.restarts⟩
  refine ⟨hlooked.unchanged,
    fun hchanged => ⟨hlooked.changed hchanged, fun now hasked hquiet => ?_⟩, hgone, hjudged,
    fun hkills later m' w' hlater root now => ?_⟩
  · cases halive : m₁.alive with
    | false => exact (hgone halive).1
    | true =>
      obtain ⟨now', hasked', hspared, -⟩ := hjudged halive
      -- A judgement asks the time once.
      obtain rfl := Option.some.inj (hasked'.symm.trans hasked)
      refine (hspared ?_).1
      unfold Spared
      rw [hlooked.changed hchanged]
      exact hquiet
  · have hrestarted : 0 < m₂.restarts := by
      rw [hsettled.held.kills]
      exact hkills
    have hle := (of_visits hsettled.held hlater).2
    exact processRecord_ne_fine (hrestarted.trans_le hle) R root now

/-!  A node that beats anew at every reading of its beat, under a clock that moves so far between
any two readings. -/

section Paced

/-- How the node's files are read. -/
def pacedReading : Reading Records where
  beat _ := some ⟨1, 1⟩
  node _ := none
  alive := ['a']
  systemProcess node := node

/-- What each call about the node answers, and shows. -/
def pacedAnswer (pace : Nat) : ⦃β : Type⦄ → ClusterOp Records β → Vigil → β × Vigil
  | _, .beatText _, w => (some ('b' :: w.heard), w.read (some ('b' :: w.heard)))
  | _, .publication _, w => (none, w)
  | _, .instant, w => (w.clock + pace, w.timed (w.clock + pace))
  | _, .now, w => (0, w)
  | _, .tryWait _, w => (none, w)
  | _, .kill _, w => (none, { w with kills := w.kills + 1 })
  | _, .start _, w => (true, { w with due := some .start })
  | _, .sleep, w => ((), w)
  | _, .read _ _, w => ((), w)

private theorem runs_paced {α : Type} (pace : Nat) (p : Prog (ClusterOp Records) α) (w : Vigil) :
    p.Runs kept () w (p.played (pacedAnswer pace) w).1 (p.played (pacedAnswer pace) w).2 := by
  refine Prog.runs_played (fun β op w => ?_) p w
  cases op <;> rfl

/-- What a look at a node just started sees, and what a judgement of it comes to. -/
def pacedLook (pace : Nat) : Member Records × Vigil :=
  ((Member.started ['n'] 0).look pacedReading).played (pacedAnswer pace) (started 0)

def pacedSettle (pace : Nat) : Member Records × Vigil :=
  ((pacedLook pace).1.settle .OWNERS).played (pacedAnswer pace) (pacedLook pace).2

/-- A second between the readings: the node is spared. -/
theorem judgement_safe_second : (pacedSettle 1000000000).2.kills = 0 := by
  have hsafe := judgement_safe
    (runs_paced 1000000000 (Member.visits pacedReading .OWNERS (.started ['n'] 0) []) (started 0))
    (runs_paced 1000000000 ((Member.started ['n'] 0).look pacedReading) (started 0))
    (runs_paced 1000000000 ((pacedLook 1000000000).1.settle .OWNERS) (pacedLook 1000000000).2)
  exact (hsafe.2.1 (by decide)).2 2000000000 rfl (by decide)

/-- **A node is killed though its beat changed** when the judgement listened: where the clock moves
eleven seconds before it asks the time. -/
theorem killed_though_changed :
    ¬∀ (name : Text) (since : Nat) (all : List Member.Visit) (m m₁ m₂ : Member Records)
    (w w₁ w₂ : Vigil),
      (Member.visits pacedReading .OWNERS (.started name since) all).Runs kept () (started since) m
        w →
      (m.look pacedReading).Runs kept () w m₁ w₁ → (m₁.settle .OWNERS).Runs kept () w₁ m₂ w₂ →
      w₁.heard ≠ w.heard → w₂.kills = w.kills := by
  intro hclaim
  -- The beat is new at every reading, and the clock has moved on by the one that asks the time.
  have hkept := hclaim ['n'] 0 [] _ _ _ _ _ _ Prog.Runs.pure
    (runs_paced 11000000000 ((Member.started ['n'] 0).look pacedReading) (started 0))
    (runs_paced 11000000000 ((pacedLook 11000000000).1.settle .OWNERS) (pacedLook 11000000000).2)
    (by decide)
  exact absurd hkept (by decide)

end Paced

end Vigil

end XmipEssentials
