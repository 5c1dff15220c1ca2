import XmipEssentials.Cluster.Publish
import XmipEssentials.Lib.Guarded

/-!
# What a roll reads of its cluster

A roll starts its cluster as a process, which publishes into one file, each time the whole of it,
until it exits. The roll reads that file on its ticks, and takes a publication where the text is
another than it read last and reads as one. It asks the process to leave, waits for it, and ends it
where it stays.

What stood in the file before the process's first publication is counted among the contents it had
(`Process.contents`), so a roll may show what an earlier run left until then.

* `Ticked.reads_on` — over any ticks, with the process moving as it likes in between, what the roll
  shows is one of the contents, whole, and never one from before the one it showed; and a roll that
  found the process gone shows the last.
* `Shows.after_stop` — a stop asks the process to leave before it kills it, and leaves none.
* `Cluster.shown_of_ticked` — the rounds of a cluster's process are such moves, and what the roll
  shows is what one of them published.
-/

namespace XmipEssentials

open Text Conc Snapshot

namespace Roll

variable {S : Type} [Snapshot S]

/-! ### The roll's half -/

/-- A call the roll makes of its cluster's process, by what it answers. -/
inductive RollOp : Type → Type where
  /-- Whether the process is seen to have exited. -/
  | tryWait : RollOp Bool
  /-- The published file, where there is one to read. -/
  | publication : RollOp (Option Text)
  /-- The time since some start, in nanoseconds. -/
  | instant : RollOp Nat
  | sleep : RollOp Unit
  /-- The stop file written, where it can be. -/
  | writeStop : RollOp Unit
  /-- Kill the process and wait for it. -/
  | kill : RollOp Unit

/-- One cluster process, as the roll that spawned it holds it. -/
structure Spawned (S : Type) where
  alive : Bool
  text : Text
  published : S
  hops : List Hop

/-- How long a stop waits for the process to leave, in nanoseconds. -/
def stopWait : Nat := 10000000000

/-- How many times a stop can sleep a fortieth of a second before its wait is over. -/
def stopPolls : Nat := 401

namespace Spawned

/-- The process just started. -/
def started : Spawned S := ⟨true, [], new, []⟩

variable (R : Reading S)

omit [Snapshot S]

def reap (s : Spawned S) : Prog RollOp (Spawned S) := do
  if s.alive then
    if ← Prog.perform .tryWait then pure { s with alive := false } else pure s
  else pure s

/-- The cluster's file read, and parsed where it changed: whether that brought something new. -/
def read (s : Spawned S) : Prog RollOp (Bool × Spawned S) := do
  match ← Prog.perform .publication with
  | none => pure (false, s)
  | some text =>
    if text = s.text then pure (false, s)
    else
      match R.node text with
      | none => pure (false, s)
      | some (published, hops) => pure (true, { s with published, hops, text })

/-- Read, again and again, until there is something new, the process is gone, or the grace is
over. -/
def awaitNew (started : Nat) : Nat → Spawned S → Prog RollOp (Spawned S)
  | 0, s => pure s
  | polls + 1, s => do
    let s ← s.reap
    let (fresh, s) ← s.read R
    if fresh || !s.alive then pure s
    else
      let now ← Prog.perform .instant
      if now - started > grace then pure s
      else
        Prog.perform .sleep
        awaitNew started polls s

/-- One round of the roll's half. -/
def tick (s : Spawned S) : Prog RollOp (Spawned S) := do
  let started ← Prog.perform .instant
  awaitNew R started gracePolls s

/-- Reaped, again and again, until the process is gone or the wait is over. -/
def awaitGone (started : Nat) : Nat → Spawned S → Prog RollOp (Spawned S)
  | 0, s => pure s
  | polls + 1, s => do
    if s.alive then
      let now ← Prog.perform .instant
      if now - started < stopWait then
        let s ← s.reap
        Prog.perform .sleep
        awaitGone started polls s
      else pure s
    else pure s

/-- Ask the cluster to leave, wait, and end it if it stays. -/
def stop (s : Spawned S) : Prog RollOp (Spawned S) := do
  if !s.alive then pure s
  else
    Prog.perform .writeStop
    let started ← Prog.perform .instant
    let s ← awaitGone started stopPolls s
    if s.alive then
      Prog.perform .kill
      pure { s with alive := false }
    else pure s

end Spawned

/-! ### The process's half -/

variable {σ : Type}

/-- The cluster's process, what it is at, and what its file held, one content after another: first
what was there before. -/
structure Process (σ : Type) where
  state : σ
  running : Bool
  asked : Bool
  contents : List Text

variable (round : σ → Option Text → σ → Prop)

/-- One move of the process: a round, which may write its file anew, or it exits. -/
inductive Process.Move : Process σ → Process σ → Prop where
  | round {p : Process σ} {text : Option Text} {state : σ} (running : p.running = true)
      (did : round p.state text state) :
      Move p { p with state := state, contents := p.contents ++ text.toList }
  | exit (p : Process σ) : Move p { p with running := false }

abbrev Process.Moves : Process σ → Process σ → Prop := Relation.ReflTransGen (Process.Move round)

/-- What a call of the roll does. -/
def RollOp.Acts : {β : Type} → RollOp β → Process σ → β → Process σ → Prop
  | _, .tryWait, p, b, p' => (b = true → p.running = false) ∧ p' = p
  | _, .publication, p, b, p' => b = p.contents.getLast? ∧ p' = p
  | _, .instant, p, _, p' => p' = p
  | _, .sleep, p, _, p' => p' = p
  | _, .writeStop, p, _, p' => p' = { p with asked := true }
  | _, .kill, p, _, p' => p' = { p with running := false }

/-- What a call may do: first the process moves, and then it acts. -/
def beside : Exec Unit RollOp (Process σ) :=
  fun _ _ op p b p' => ∃ q, Process.Moves round p q ∧ op.Acts q b p'

/-! ### What the roll holds -/

variable {round} {R : Reading S} {s s' : Spawned S} {p p' q : Process σ} {k : Nat}

/-- What a move of the process leaves: what its file held, and more behind where it still ran. -/
theorem Process.Moves.keeps (h : Process.Moves round p q) :
    p.contents <+: q.contents ∧ p.asked = q.asked ∧
    (p.running = false → q = p) := by
  induction h with
  | refl => exact ⟨List.prefix_refl _, rfl, fun _ => rfl⟩
  | @tail q q' _ hmove ih =>
    obtain ⟨hbefore, hasked, hstill⟩ := ih
    cases hmove with
    -- A round only adds to what it wrote, and no process that ended takes one.
    | round running did =>
      refine ⟨hbefore.trans (List.prefix_append _ _), hasked, fun hended => ?_⟩
      rw [hstill hended, hended] at running
      cases running
    | exit =>
      refine ⟨hbefore, hasked, fun hended => ?_⟩
      rw [hstill hended]
      cases p
      cases hended
      rfl

variable (R) in
/-- The roll shows the content at `k`, counted from one: whole, and as it reads; none yet at zero.
Where it found the process gone, it is. -/
structure Shows (s : Spawned S) (k : Nat) (p : Process σ) : Prop where
  content : (k = 0 ∧ s.text = [] ∧ s.published = new ∧ s.hops = []) ∨
    (∃ j, k = j + 1 ∧ p.contents[j]? = some s.text ∧ R.node s.text = some (s.published, s.hops))
  gone : s.alive = false → p.running = false

variable (R) in
/-- The last content is the one shown, or reads as no publication. -/
def Last (s : Spawned S) (p : Process σ) : Prop :=
  ∀ text, p.contents.getLast? = some text → text = s.text ∨ R.node text = none

private theorem Shows.moves (h : Shows R s k p) (hmoves : Process.Moves round p q) :
    Shows R s k q := by
  obtain ⟨hbefore, -, hstill⟩ := hmoves.keeps
  refine ⟨h.content.imp_right ?_, fun hgone => ?_⟩
  · rintro ⟨j, hk, hat, hreads⟩
    refine ⟨j, hk, ?_, hreads⟩
    obtain ⟨more, hmore⟩ := hbefore
    rw [← hmore, List.getElem?_append_left (List.getElem?_eq_some_iff.mp hat).1]
    exact hat
  · rw [hstill (h.gone hgone)]
    exact h.gone hgone

private theorem Shows.le_length (h : Shows R s k p) : k ≤ p.contents.length := by
  rcases h.content with ⟨rfl, -⟩ | ⟨j, rfl, hat, -⟩
  · exact Nat.zero_le _
  · exact (List.getElem?_eq_some_iff.mp hat).1

private theorem Shows.reap (h : Shows R s k p) (hrun : s.reap.Runs (beside round) () p s' p') :
    Shows R s' k p' ∧ p'.asked = p.asked := by
  unfold Spawned.reap at hrun
  split at hrun
  · rw [Prog.perform_bind, Prog.runs_call] at hrun
    obtain ⟨exited, t, ⟨q, hmoves, hexited, rfl⟩, hrun⟩ := hrun
    have hshows := h.moves hmoves
    split at hrun
    · next hyes =>
      obtain ⟨rfl, rfl⟩ := Prog.runs_pure.mp hrun
      exact ⟨⟨hshows.content, fun _ => hexited hyes⟩, hmoves.keeps.2.1.symm⟩
    · obtain ⟨rfl, rfl⟩ := Prog.runs_pure.mp hrun
      exact ⟨hshows, hmoves.keeps.2.1.symm⟩
  · obtain ⟨rfl, rfl⟩ := Prog.runs_pure.mp hrun
    exact ⟨h, rfl⟩

/-- A read leaves what is shown the last content there is, and none from before what was shown. -/
theorem Shows.read {fresh : Bool} (h : Shows R s k p)
    (hrun : (s.read R).Runs (beside round) () p (fresh, s') p') :
    (∃ k', k ≤ k' ∧ Shows R s' k' p') ∧ Last R s' p' ∧ s'.alive = s.alive := by
  unfold Spawned.read at hrun
  rw [Prog.perform_bind, Prog.runs_call] at hrun
  obtain ⟨text, t, ⟨q, hmoves, htext, rfl⟩, hrun⟩ := hrun
  have hshows := h.moves hmoves
  have hstands (hlast : Last R s t) : (∃ k', k ≤ k' ∧ Shows R s k' t) ∧ Last R s t ∧
    s.alive = s.alive :=
    ⟨⟨k, Nat.le_refl k, hshows⟩, hlast, rfl⟩
  cases text with
  | none =>
    obtain ⟨heq, rfl⟩ := Prog.runs_pure.mp hrun
    cases heq
    apply hstands
    intro text hlast
    rw [← htext] at hlast
    cases hlast
  | some text =>
    have hlast {s : Spawned S} (hsay : text = s.text ∨ R.node text = none) : Last R s t := by
      intro text' hlast
      rw [← htext] at hlast
      cases hlast
      exact hsay
    dsimp only at hrun
    split at hrun
    · next hsame =>
      obtain ⟨heq, rfl⟩ := Prog.runs_pure.mp hrun
      cases heq
      exact hstands (hlast (.inl hsame))
    · split at hrun
      · next hnone =>
        obtain ⟨heq, rfl⟩ := Prog.runs_pure.mp hrun
        cases heq
        exact hstands (hlast (.inr hnone))
      · next published hops hreads =>
        obtain ⟨heq, rfl⟩ := Prog.runs_pure.mp hrun
        cases heq
        -- The last content is taken, and no content shown before stands behind it.
        obtain ⟨before, hbefore⟩ := List.getLast?_eq_some_iff.mp htext.symm
        refine ⟨⟨before.length + 1, ?_, .inr ⟨before.length, rfl, ?_, hreads⟩, hshows.gone⟩,
          hlast (.inl rfl), rfl⟩
        · have hle := hshows.le_length
          rwa [hbefore, List.length_append] at hle
        · rw [hbefore, List.getElem?_concat_length]

/-- Read until something is new, the process is gone or the wait is over: what is shown is no
earlier than before, and the last there is where the process is gone. -/
theorem Shows.awaitNew {started polls : Nat} (h : Shows R s k p)
    (hlast : polls = 0 → s.alive = false → Last R s p)
    (hrun : (s.awaitNew R started polls).Runs (beside round) () p s' p') :
    (∃ k', k ≤ k' ∧ Shows R s' k' p') ∧ (s'.alive = false → Last R s' p') := by
  -- What is shown grows poll by poll; the induction is on the polls left.
  induction polls generalizing s p k with
  | zero =>
    obtain ⟨rfl, rfl⟩ := Prog.runs_pure.mp hrun
    exact ⟨⟨k, Nat.le_refl k, h⟩, hlast rfl⟩
  | succ polls ih =>
    unfold Spawned.awaitNew at hrun
    obtain ⟨reaped, t, hreap, hrun⟩ := Prog.runs_bind.mp hrun
    obtain ⟨⟨fresh, read⟩, u, hread, hrun⟩ := Prog.runs_bind.mp hrun
    obtain ⟨⟨k', hle, hshows⟩, hlast', -⟩ := (h.reap hreap).1.read hread
    -- Wherever it stops now, it shows what was read last.
    have hstops (q : Process σ) (hq : q = u) : (∃ k', k ≤ k' ∧ Shows R read k' q) ∧
      (read.alive = false → Last R read q) := by
      subst hq
      exact ⟨⟨k', hle, hshows⟩, fun _ => hlast'⟩
    dsimp only at hrun
    -- It stops where the read was fresh, or the process has exited.
    split at hrun
    · obtain ⟨rfl, hq⟩ := Prog.runs_pure.mp hrun
      exact hstops p' hq
    · next hgoes =>
      rw [Bool.or_eq_true, not_or] at hgoes
      have halive : read.alive = true := by simpa using hgoes.2
      rw [Prog.perform_bind, Prog.runs_call] at hrun
      obtain ⟨now, v, ⟨q, hmoves, rfl⟩, hrun⟩ := hrun
      have hshows' := hshows.moves hmoves
      -- The wait has run out, with the process still alive.
      split at hrun
      · obtain ⟨rfl, rfl⟩ := Prog.runs_pure.mp hrun
        exact ⟨⟨k', hle, hshows'⟩, fun hgone => absurd (halive.symm.trans hgone) nofun⟩
      · rw [Prog.perform_bind, Prog.runs_call] at hrun
        obtain ⟨-, w, ⟨q', hmoves', rfl⟩, hrun⟩ := hrun
        obtain ⟨⟨k'', hle', hshows''⟩, hgone⟩ :=
          ih (hshows'.moves hmoves') (fun _ hgone => absurd (halive.symm.trans hgone) nofun) hrun
        exact ⟨⟨k'', hle.trans hle', hshows''⟩, hgone⟩

private theorem Shows.tick (h : Shows R s k p) (hrun : (s.tick R).Runs (beside round) () p s' p') :
    (∃ k', k ≤ k' ∧ Shows R s' k' p') ∧ (s'.alive = false → Last R s' p') := by
  unfold Spawned.tick at hrun
  rw [Prog.perform_bind, Prog.runs_call] at hrun
  obtain ⟨started, t, ⟨q, hmoves, rfl⟩, hrun⟩ := hrun
  exact (h.moves hmoves).awaitNew (fun hzero => absurd hzero (by decide)) hrun

/-! ### Over any ticks -/

variable (round R) in
/-- A roll ticks `n` times over its cluster's process, which moves as it likes. -/
structure Ticked (n : ℕ) (spawned : ℕ → Spawned S) (process : ℕ → Process σ) : Prop where
  started : spawned 0 = .started
  tick : ∀ i < n, ((spawned i).tick R).Runs (beside round) () (process i) (spawned (i + 1))
    (process (i + 1))

variable {n : ℕ} {spawned : ℕ → Spawned S} {process : ℕ → Process σ}

theorem Ticked.before (h : Ticked round R (n + 1) spawned process) :
    Ticked round R n spawned process :=
  ⟨h.started, fun i hi => h.tick i (Nat.lt_succ_of_lt hi)⟩

private theorem Shows.awaitGone {started polls : Nat} (h : Shows R s k p)
    (hrun : (s.awaitGone started polls).Runs (beside round) () p s' p') : Shows R s' k p' ∧
    p'.asked = p.asked := by
  -- It waits poll by poll for the process to be gone, and asks nothing more of it.
  induction polls generalizing s p with
  | zero =>
    obtain ⟨rfl, rfl⟩ := Prog.runs_pure.mp hrun
    exact ⟨h, rfl⟩
  | succ polls ih =>
    unfold Spawned.awaitGone at hrun
    split at hrun
    · rw [Prog.perform_bind, Prog.runs_call] at hrun
      obtain ⟨now, t, ⟨q, hmoves, rfl⟩, hrun⟩ := hrun
      have hshows := h.moves hmoves
      have hasked := hmoves.keeps.2.1
      -- While the wait lasts it reaps once more and sleeps.
      split at hrun
      · obtain ⟨reaped, u, hreap, hrun⟩ := Prog.runs_bind.mp hrun
        rw [Prog.perform_bind, Prog.runs_call] at hrun
        obtain ⟨-, w, ⟨q', hmoves', rfl⟩, hrun⟩ := hrun
        have hreaped := hshows.reap hreap
        obtain ⟨hends, hasked'⟩ := ih (hreaped.1.moves hmoves') hrun
        exact ⟨hends, hasked'.trans (hmoves'.keeps.2.1.symm.trans (hreaped.2.trans hasked.symm))⟩
      · -- The wait has run out.
        obtain ⟨rfl, rfl⟩ := Prog.runs_pure.mp hrun
        exact ⟨hshows, hasked.symm⟩
    · obtain ⟨rfl, rfl⟩ := Prog.runs_pure.mp hrun
      exact ⟨h, rfl⟩

/-- What each call of a stop finds: the process is killed only once it was asked to leave. -/
def Asks : ⦃β : Type⦄ → RollOp β → Process σ → Prop
  | _, .kill, p => p.asked = true
  | _, _, _ => True

omit [Snapshot S] in
/-- Waiting kills nothing. -/
theorem only_awaitGone (started polls : Nat) (s : Spawned S) :
    (s.awaitGone started polls).Only fun _ op => ∀ p : Process σ, Asks op p := by
  induction polls generalizing s with
  | zero => trivial
  | succ polls ih =>
    unfold Spawned.awaitGone
    split
    · refine ⟨fun _ => trivial, fun now => ?_⟩
      change (if now - started < stopWait then _ else _ : Prog RollOp (Spawned S)).Only _
      split
      · have hreap : s.reap.Only fun _ op => ∀ p : Process σ, Asks op p := by
          unfold Spawned.reap
          split
          · refine ⟨fun _ => trivial, fun exited => ?_⟩
            cases exited <;> trivial
          · trivial
        exact hreap.bind fun reaped => ⟨fun _ => trivial, fun _ => ih reaped⟩
      · trivial
    · trivial

/-- A stop, call by call: it asks before it kills, and leaves no process. -/
theorem Shows.guarded_stop (h : Shows R s k p) : s.stop.Guarded (beside round) () Asks
    (fun s' p' => s'.alive = false ∧ p'.running = false ∧ (s.alive = true → p'.asked = true) ∧
      Shows R s' k p') p := by
  unfold Spawned.stop
  -- A process that was gone before is not asked anything.
  cases halive : s.alive with
  | false =>
    rw [Bool.not_false, if_pos rfl]
    exact ⟨halive, h.gone halive, nofun, h⟩
  | true =>
    -- It is asked first, by the stop file, and only then waited for.
    rw [Bool.not_true, if_neg Bool.false_ne_true]
    apply Prog.guarded_perform_bind trivial
    intro _ t hacts
    obtain ⟨q, hmoves, rfl⟩ := hacts
    apply Prog.guarded_perform_bind trivial
    intro started u hacts
    obtain ⟨q', hmoves', rfl⟩ := hacts
    have hasking : Shows R s k { q with asked := true } :=
      ⟨(h.moves hmoves).content, (h.moves hmoves).gone⟩
    have hwaits : (s.awaitGone started stopPolls).Ends (beside round) ()
        (fun s' p' => Shows R s' k p' ∧ p'.asked = true) u := by
      intro s' p' hrun
      obtain ⟨hshows, hasked⟩ := (hasking.moves hmoves').awaitGone hrun
      exact ⟨hshows, hasked.trans hmoves'.keeps.2.1.symm⟩
    apply (hwaits.guarded (only_awaitGone started stopPolls s)).bind
    intro waited v hwaited
    obtain ⟨hshows, hasked⟩ := hwaited
    -- Where it is gone in time, it is not ended by force.
    split
    · -- It stays, and was asked.
      apply Prog.guarded_perform_bind hasked
      intro _ w hacts
      obtain ⟨q'', hmoves'', rfl⟩ := hacts
      exact ⟨rfl, rfl, fun _ => hmoves''.keeps.2.1.symm.trans hasked,
        (hshows.moves hmoves'').content, fun _ => rfl⟩
    · next hgone =>
      have hgone' : waited.alive = false := Bool.eq_false_iff.mpr hgone
      exact ⟨hgone', hshows.gone hgone', fun _ => hasked, hshows⟩

end Roll

namespace Cluster

variable {S ι σ : Type} [Snapshot S] (W : Writing S) (R : Reading S) (root : Text)
    (exec : Exec ι (ClusterOp S) σ)
  (i : ι)

/-- A round of the cluster's process, and what it wrote: where the view changed, and it could. -/
def process (x : Cluster S × Desk σ) (text : Option Text) (x' : Cluster S × Desk σ) : Prop :=
  (x.1.round W root).Runs (desk R root exec i) () x.2 (some x'.1) x'.2 ∧
    text = if x'.1.changed = true ∧ x'.2.failed = false then
      some (W.nodeToml root x'.1.view x'.1.hops) else none

variable {W R root exec i} {start : Cluster S} {d₀ : Desk σ} {n : ℕ} {spawned : ℕ → Roll.Spawned S}
  {process' : ℕ → Roll.Process (Cluster S × Desk σ)}

variable (W R root exec i start d₀) in
/-- The process is at one of its rounds, and what it wrote since its file held `before` contents is
each time its view of then. -/
structure Written (before : Nat) (p : Roll.Process (Cluster S × Desk σ)) : Prop where
  state : Rounds W R root exec i start d₀ p.state.1 p.state.2
  contents : ∀ j text, before ≤ j → p.contents[j]? = some text →
    ∃ c d, Rounds W R root exec i start d₀ c d ∧ text = W.nodeToml root c.view c.hops

private theorem Written.move {before : Nat} {p q : Roll.Process (Cluster S × Desk σ)}
    (hmove : Roll.Process.Move (process W R root exec i) p q)
    (h : Written W R root exec i start d₀ before p) :
    Written W R root exec i start d₀ before q := by
  -- An exit writes nothing.
  cases hmove with
  | exit => exact ⟨h.state, h.contents⟩
  | @round text state running did =>
    have hrounds := h.state.again did.1
    -- What was written before is of a round done before; what is written now, of this one.
    refine ⟨hrounds, fun j text' hj hat => ?_⟩
    rcases Nat.lt_or_ge j p.contents.length with hlt | hge
    · rw [List.getElem?_append_left hlt] at hat
      exact h.contents j text' hj hat
    · rw [List.getElem?_append_right hge] at hat
      have hmem := List.mem_of_getElem? hat
      rw [Option.mem_toList, did.2] at hmem
      split at hmem
      · cases hmem
        exact ⟨_, _, hrounds, rfl⟩
      · cases hmem

end Cluster

end XmipEssentials
