import XmipEssentials.Cluster.Rollup
import XmipEssentials.Placement

/-!
# A node's round

A node drives one relay per stage its roles serve, one after another, and merges what each publishes
into its own snapshot. Each relay builds its scopes alone: what it judged lies beneath its own
stage, its links and its inbox beneath `<node>/handoff`, which all the relays of the node share.

* `Relay.Continues` — a round leaves a relay what it was: its node, its name, its stage, its tallies
  beneath that stage and its links from it to the next.
* `Relay.runs_work` — what a round leaves to publish.
-/

namespace XmipEssentials

open Text Conc Files Keyed Snapshot

variable {κ S ι σ : Type} [Capability κ] [Snapshot S] {exec : Exec ι RelayOp σ} {i : ι} {s s' : σ}

/-! ### Beneath a stage -/

/-- A scope beneath a stage of a node. -/
def StageScope (node : Text) (stage : Stage) (scope : Text) : Prop :=
  ∃ rest, scope = node ++ '/' :: stage.name ++ '/' :: rest

private theorem Verdict.stageScope (v : Verdict) (node : Text) :
    StageScope node v.stage (v.scope node) := by
  unfold scope
  dsimp only
  split
  · next point _ =>
    exact ⟨v.transport ++ '/' :: v.contract.name ++ '/' :: point, by simp⟩
  · exact ⟨v.transport ++ '/' :: v.contract.name, by simp⟩

namespace Ledger

/-- A verdict folded is tallied at its own scope, and no other scope with it. -/
theorem mem_fold_tallies {l : Ledger} {v : Verdict} {snapshot : S} {now : Int} {scope : Text} :
    scope ∈ (l.fold v snapshot now).1.tallies ↔ scope = v.scope l.node ∨ scope ∈ l.tallies :=
  AList.mem_insert _

/-- The standings a closed round publishes are those published before and those of the tallies. -/
theorem scope_of_mem_close (keeps : Snapshot.Keeps S) {l : Ledger} {snapshot : S} {now : Int}
    {r : HealthRecord} (h : r ∈ healthRecords (l.close snapshot now)) :
    r ∈ healthRecords snapshot ∨ r.scope ∈ l.tallies := by
  unfold close at h
  dsimp only at h
  have hcounts := recordAll_unchanged keeps.health_recordCount
  -- What stands over time is recorded pair by pair, as a fold over the list of them.
  have hstood : ∀ waited : List (Sigma fun _ : Text => Tally),
      waited.foldl (fun s pair => recordHealth (overTime pair.1 pair.2 now) s) snapshot =
        recordAll recordHealth (waited.map fun pair => overTime pair.1 pair.2 now) snapshot := by
    intro waited
    unfold recordAll
    rw [List.foldl_map]
  unfold recordAll at hcounts
  rw [hcounts, hstood] at h
  -- What a close records is of a scope whose tally is kept.
  rcases keeps.health.of_mem_recordAll h with h | h
  · obtain ⟨pair, hpair, rfl⟩ := List.mem_map.mp h
    refine .inr ?_
    rw [overTime_scope]
    exact List.mem_map_of_mem (List.mem_filter.mp hpair).1
  · exact .inl h

end Ledger

/-! ### What a round leaves a relay -/

namespace Relay

variable {r r' r'' : Relay κ}

/-- A relay keeps to itself: what it tallied lies beneath its own stage, and its links lead from
there to the next. -/
structure Local (r : Relay κ) : Prop where
  tallies : ∀ scope ∈ r.ledger.tallies, StageScope r.ledger.node r.stage scope
  links : ∀ ends hop, r.hops.links.lookup ends = some hop →
    ∃ next, r.stage.next = some next ∧
      ends = (Hops.endpoint (r.name, r.stage), Hops.endpoint (hop.receiver, next))

/-- A relay later in its run: where it was local it is, and it is of the same node and stage. -/
structure Continues (r r' : Relay κ) : Prop where
  name : r'.name = r.name
  stage : r'.stage = r.stage
  node : r'.ledger.node = r.ledger.node
  loc : r.Local → r'.Local

omit [Capability κ] in
private theorem Continues.refl (r : Relay κ) : r.Continues r := ⟨rfl, rfl, rfl, id⟩

omit [Capability κ] in
private theorem Continues.trans (h : r.Continues r') (h' : r'.Continues r'') : r.Continues r'' :=
  ⟨h'.name.trans h.name, h'.stage.trans h.stage, h'.node.trans h.node, h'.loc ∘ h.loc⟩

private theorem continues_handOn {handoff : Handoff} {now : Int} {handed : Except Text Unit}
    (h : (r.handOn handoff now).Runs exec i s (handed, r') s') : r.Continues r' := by
  unfold handOn at h
  -- A stage with no next hands on nothing.
  cases hnext : r.stage.next with
  | none =>
    rw [hnext] at h
    obtain ⟨hr, -⟩ := Prog.runs_pure.mp h
    cases hr
    exact .refl r
  | some next =>
    rw [hnext] at h
    dsimp only at h
    -- Without a node to hand it to, the relay stays as it was.
    split at h
    · obtain ⟨hr, -⟩ := Prog.runs_pure.mp h
      cases hr
      exact .refl r
    · next dest _ =>
      rw [Prog.runs_bind] at h
      obtain ⟨delivered, t, -, h⟩ := h
      -- What was counted is the delivery, whether it was made or not.
      have hcounted : r.Continues { r with sequence := r.sequence + 1 } :=
        ⟨rfl, rfl, rfl, fun h => ⟨h.tallies, h.links⟩⟩
      cases delivered with
      | error why =>
        obtain ⟨hr, -⟩ := Prog.runs_pure.mp h
        cases hr
        exact hcounted
      | ok =>
        obtain ⟨hr, -⟩ := Prog.runs_pure.mp h
        cases hr
        refine ⟨rfl, rfl, rfl, fun hlocal => ⟨hlocal.tallies, fun ends hop hlookup => ?_⟩⟩
        -- A delivery that was made is recorded in the hops.
        by_cases hends : ends = (Hops.endpoint (r.name, r.stage), Hops.endpoint (dest, next))
        · -- The link just gone over: a new one ends at the node handed to, an old one where it did.
          subst hends
          refine ⟨next, hnext, ?_⟩
          unfold Hops.record at hlookup
          dsimp only at hlookup
          rw [AList.lookup_insert, Option.some_inj] at hlookup
          subst hlookup
          cases hold : r.hops.links.lookup
              (Hops.endpoint (r.name, r.stage), Hops.endpoint (dest, next)) with
          | none => rfl
          | some old =>
            obtain ⟨next', hnext', hends⟩ := hlocal.links _ old hold
            rw [hnext] at hnext'
            cases hnext'
            exact hends
        · unfold Hops.record at hlookup
          dsimp only at hlookup
          rw [AList.lookup_insert_ne hends] at hlookup
          exact hlocal.links ends hop hlookup

private theorem continues_handOnPicked {handoff : Handoff} {now : Int} {picked : Except Text Bool}
    {handed : Except Text Unit}
    (h : (r.handOnPicked now handoff picked).Runs exec i s (handed, r') s') : r.Continues r' := by
  unfold handOnPicked at h
  split at h
  · exact continues_handOn h
  all_goals
    obtain ⟨hr, -⟩ := Prog.runs_pure.mp h
    cases hr
    exact .refl r

/-- What a pair handed on leaves: its verdicts are of the stage they were of. -/
theorem continues_handOnJudged {one : Judged} {now : Int} {verdicts : List Verdict}
    (hstage : ∀ v ∈ one.verdicts, v.stage = r.stage)
    (h : (r.handOnJudged now one).Runs exec i s (verdicts, r') s') :
    r.Continues r' ∧ ∀ v ∈ verdicts, v.stage = r.stage := by
  unfold handOnJudged at h
  -- A verdict that failed to be handed on keeps its stage.
  split at h
  · next handoff verdict identity _ hverdicts =>
    rw [hverdicts, List.forall_mem_cons] at hstage
    simp only [Prog.runs_bind] at h
    obtain ⟨picked, t, -, ⟨handed, after⟩, u, hhanded, h⟩ := h
    have hcontinues := continues_handOnPicked hhanded
    cases handed with
    | ok =>
      obtain ⟨hr, -⟩ := Prog.runs_pure.mp h
      cases hr
      exact ⟨hcontinues, List.forall_mem_cons.mpr hstage⟩
    | error why =>
      obtain ⟨hr, -⟩ := Prog.runs_pure.mp h
      cases hr
      exact ⟨hcontinues, List.forall_mem_cons.mpr hstage⟩
  · obtain ⟨hr, -⟩ := Prog.runs_pure.mp h
    cases hr
    exact ⟨.refl r, hstage⟩

/-- The standings of a snapshot lie beneath a stage. -/
def Standings (node : Text) (stage : Stage) (snapshot : S) : Prop :=
  ∀ one ∈ healthRecords snapshot, StageScope node stage one.scope

omit [Capability κ] in
private theorem continues_foldVerdicts (keeps : Snapshot.Keeps S) (now : Int)
    {verdicts : List Verdict} {snapshot : S} (hstage : ∀ v ∈ verdicts, v.stage = r.stage)
    (hsnapshot : Standings r.ledger.node r.stage snapshot) :
    r.Continues (r.foldVerdicts now verdicts snapshot).1 ∧
      Standings r.ledger.node r.stage (r.foldVerdicts now verdicts snapshot).2 := by
  induction verdicts generalizing r snapshot with
  | nil => exact ⟨.refl r, hsnapshot⟩
  -- Each verdict is folded into the ledger, and its standing recorded at its own scope.
  | cons v verdicts ih =>
    rw [List.forall_mem_cons] at hstage
    have hv : StageScope r.ledger.node r.stage (v.scope r.ledger.node) :=
      hstage.1 ▸ v.stageScope r.ledger.node
    have hfolded : r.Continues { r with ledger := (r.ledger.fold v snapshot now).1 } := by
      refine ⟨rfl, rfl, rfl, fun hlocal => ⟨fun scope hscope => ?_, hlocal.links⟩⟩
      change scope ∈ (r.ledger.fold v snapshot now).1.tallies at hscope
      rcases Ledger.mem_fold_tallies.mp hscope with rfl | hscope
      · exact hv
      · exact hlocal.tallies scope hscope
    have hstanding : Standings r.ledger.node r.stage (r.ledger.fold v snapshot now).2 := by
      intro one hone
      rcases (keeps.health.mem_record _ _ _).mp hone with rfl | ⟨hone, -⟩
      · rw [overTime_scope]
        exact hv
      · exact hsnapshot one hone
    obtain ⟨hrest, hstandings⟩ :=
      ih (r := { r with ledger := (r.ledger.fold v snapshot now).1 }) hstage.2 hstanding
    exact ⟨hfolded.trans hrest, hstandings⟩

/-- What was judged concluded, pair by pair. -/
theorem continues_conclude (keeps : Snapshot.Keeps S) {now : Int} {judged : List Judged}
    {snapshot snapshot' : S} (hstage : ∀ one ∈ judged, ∀ v ∈ one.verdicts, v.stage = r.stage)
    (hsnapshot : Standings r.ledger.node r.stage snapshot)
    (h : (conclude now judged r snapshot).Runs exec i s (r', snapshot') s') :
    r.Continues r' ∧ Standings r.ledger.node r.stage snapshot' := by
  induction judged generalizing r snapshot s with
  | nil =>
    obtain ⟨hr, -⟩ := Prog.runs_pure.mp h
    cases hr
    exact ⟨.refl _, hsnapshot⟩
  -- What is judged is handed on, and its verdicts are folded, one after another.
  | cons one judged ih =>
    rw [List.forall_mem_cons] at hstage
    unfold conclude at h
    simp only [Prog.runs_bind] at h
    obtain ⟨⟨verdicts, handed⟩, t, hone, -, u, -, h⟩ := h
    obtain ⟨hhanded, hverdicts⟩ := continues_handOnJudged hstage.1 hone
    -- The relay's stage and node are what they were, whatever was handed on.
    rw [← hhanded.stage] at hverdicts hstage hsnapshot
    rw [← hhanded.node] at hsnapshot
    obtain ⟨hfolded, hstandings⟩ := continues_foldVerdicts keeps now hverdicts hsnapshot
    rw [← hfolded.stage] at hstandings hstage
    rw [← hfolded.node] at hstandings
    obtain ⟨hrest, hall⟩ := ih hstage.2 hstandings h
    rw [hfolded.stage, hfolded.node, hhanded.stage, hhanded.node] at hall
    exact ⟨hhanded.trans (hfolded.trans hrest), hall⟩

private theorem continues_handOnReleased {now : Int} {released : List Handoff}
    (h : (handOnReleased now released r).Runs exec i s r' s') : r.Continues r' := by
  induction released generalizing r s with
  | nil =>
    obtain ⟨rfl, -⟩ := Prog.runs_pure.mp h
    exact .refl _
  | cons picked released ih =>
    unfold handOnReleased at h
    simp only [Prog.runs_bind, Prog.perform_bind, Prog.runs_call] at h
    obtain ⟨⟨handed, after⟩, t, hhanded, -, u, -, h⟩ := h
    exact (continues_handOn hhanded).trans (ih h)

/-- **A receive stage's pairs**, each judged at the stage. -/
theorem continues_receive {E : Estate} {now : Int} {judged : List Judged}
    (hstage : r.stage = .receive) (h : (r.receive E now).Runs exec i s (judged, r') s') :
    r.Continues r' ∧ ∀ one ∈ judged, ∀ v ∈ one.verdicts, v.stage = r.stage := by
  unfold receive at h
  rw [Prog.runs_bind] at h
  obtain ⟨judged', t, heach, h⟩ := h
  obtain ⟨hr, -⟩ := Prog.runs_pure.mp h
  cases hr
  refine ⟨⟨rfl, rfl, rfl, fun h => ⟨h.tallies, h.links⟩⟩, ?_⟩
  intro one hmem
  obtain ⟨pair, -, t, t', hone⟩ := Prog.exists_of_runs_each heach hmem
  -- The identity steps beneath a pair are of the stage that receives.
  have hidentity : ∀ v ∈ r.receiveVerdicts pair.1 pair.2 now, v.stage = r.stage := by
    intro v hv
    obtain ⟨step, -, rfl⟩ := List.mem_map.mp hv
    exact hstage.symm
  unfold arrive at hone
  rw [Prog.runs_bind] at hone
  obtain ⟨arrival, u, -, hone⟩ := hone
  -- Whatever arrived, its verdict is of the relay's own stage.
  cases arrival with
  | ok bytes =>
    obtain ⟨rfl, -⟩ := Prog.runs_pure.mp hone
    exact List.forall_mem_cons.mpr ⟨rfl, hidentity⟩
  | error outcome =>
    obtain ⟨rfl, -⟩ := Prog.runs_pure.mp hone
    exact List.forall_mem_cons.mpr ⟨rfl, hidentity⟩

omit [Capability κ] in
/-- A claimed handoff is judged at the relay's own stage. -/
theorem stage_of_judge {E : Estate} {now : Int} {handoff : Handoff} {one : Judged}
    (hstage : r.stage ≠ .receive) (h : (r.judge E now handoff).Runs exec i s one s') :
    ∀ v ∈ one.verdicts, v.stage = r.stage := by
  unfold judge at h
  rw [Prog.perform_bind, Prog.runs_call] at h
  obtain ⟨-, t, -, h⟩ := h
  dsimp only at h
  -- A fault decides the verdict before the stage does.
  cases hfault : r.fault handoff.transport handoff.contract handoff.round now with
  | some outcome =>
    rw [hfault] at h
    obtain ⟨rfl, -⟩ := Prog.runs_pure.mp h
    exact List.forall_mem_singleton.mpr rfl
  | none =>
    rw [hfault] at h
    dsimp only at h
    by_cases hprocess : r.stage = .process
    · rw [if_pos hprocess] at h
      obtain ⟨rfl, -⟩ := Prog.runs_pure.mp h
      exact List.forall_mem_singleton.mpr rfl
    · -- Neither receive nor process: the identity verdict is of the relay's own stage too.
      have hsend : r.stage = .send := by
        cases hs : r.stage with
        | receive => exact absurd hs hstage
        | process => exact absurd hs hprocess
        | send => rfl
      rw [if_neg hprocess, Prog.runs_bind] at h
      obtain ⟨back, u, -, h⟩ := h
      cases back with
      | ok bytes =>
        obtain ⟨rfl, -⟩ := Prog.runs_pure.mp h
        exact List.forall_mem_cons.mpr ⟨rfl, List.forall_mem_singleton.mpr hsend.symm⟩
      | error outcome =>
        obtain ⟨rfl, -⟩ := Prog.runs_pure.mp h
        exact List.forall_mem_cons.mpr ⟨rfl, List.forall_mem_singleton.mpr hsend.symm⟩

omit [Capability κ] in
/-- **What was claimed**, each judged at the stage. -/
theorem continues_drainInbox {E : Estate} {now : Int} {judged : List Judged}
    (hstage : r.stage ≠ .receive) (h : (r.drainInbox E now).Runs exec i s (judged, r') s') :
    r.Continues r' ∧ ∀ one ∈ judged, ∀ v ∈ one.verdicts, v.stage = r.stage := by
  unfold drainInbox at h
  simp only [Prog.runs_bind] at h
  obtain ⟨⟨claimed, unreadable⟩, t, -, judged', u, heach, h⟩ := h
  obtain ⟨hr, -⟩ := Prog.runs_pure.mp h
  cases hr
  refine ⟨⟨rfl, rfl, rfl, fun h => ⟨h.tallies, h.links⟩⟩, ?_⟩
  intro one hmem
  obtain ⟨handoff, -, v, v', hone⟩ := Prog.exists_of_runs_each heach hmem
  exact stage_of_judge (r := { r with unreadable := r.unreadable + unreadable }) hstage hone

omit [Capability κ] in
private theorem standings_take (keeps : Snapshot.Keeps S) {now : Int} {snapshot snapshot' : S}
    (h : (r.take now snapshot).Runs exec i s snapshot' s') :
    healthRecords snapshot' = healthRecords snapshot := by
  unfold take at h
  split at h
  · rw [Prog.perform_bind, Prog.runs_call] at h
    obtain ⟨taken, t, -, h⟩ := h
    obtain ⟨rfl, -⟩ := Prog.runs_pure.mp h
    exact recordAll_unchanged (fun _ _ => keeps.health_recordCount _ _) taken snapshot
  · obtain ⟨rfl, -⟩ := Prog.runs_pure.mp h
    rfl

/-- **What a round leaves to publish**: standings beneath the relay's own stage, and the inbox where
the stage takes handoffs. -/
structure Ticked.Of (t : Ticked κ S) (r : Relay κ) : Prop where
  relay : r.Continues t.relay
  standings : Standings r.ledger.node r.stage t.snapshot
  inbox : if r.stage = .receive then t.inbox = none
    else ∃ waiting, t.inbox = some (waiting, t.relay.unreadable)

theorem runs_work (keeps : Snapshot.Keeps S) {E : Estate} {t : Ticked κ S} (hlocal : r.Local)
    (h : (r.work E).Runs exec i s t s') : t.Of r := by
  unfold work at h
  simp only [Prog.runs_bind, Prog.perform_bind, Prog.runs_call] at h
  obtain ⟨now, u₁, -, ⟨judged, driven⟩, u₂, hdrive, ⟨concluded, snapshot⟩, u₃, hconclude, released,
    u₄, -, handed, u₅, hreleased, taken, u₆, htake, inbox, u₇, hinbox, h⟩ := h
  obtain ⟨rfl, -⟩ := Prog.runs_pure.mp h
  -- The relay, from its round's beginning to its end.
  have hdriven : r.Continues driven ∧ ∀ one ∈ judged, ∀ v ∈ one.verdicts, v.stage = r.stage := by
    have hbegun : r.Continues { r with round := r.round + 1 } :=
      ⟨rfl, rfl, rfl, fun h => ⟨h.tallies, h.links⟩⟩
    unfold drive at hdrive
    split at hdrive
    · next hstage =>
      obtain ⟨hcontinues, hstages⟩ := continues_receive hstage hdrive
      exact ⟨hbegun.trans hcontinues, hstages⟩
    · next hstage =>
      obtain ⟨hcontinues, hstages⟩ := continues_drainInbox hstage hdrive
      exact ⟨hbegun.trans hcontinues, hstages⟩
  obtain ⟨hdriven, hstages⟩ := hdriven
  rw [← hdriven.stage] at hstages
  have hnew : Standings driven.ledger.node driven.stage (Snapshot.new : S) := by
    intro one hone
    rw [keeps.health_new] at hone
    cases hone
  obtain ⟨hconcluded, hstandings⟩ := continues_conclude keeps hstages hnew hconclude
  have hhanded := continues_handOnReleased hreleased
  have hall := hdriven.trans (hconcluded.trans hhanded)
  rw [hdriven.node, hdriven.stage] at hstandings
  refine ⟨hall, ?_, ?_⟩
  · intro one hone
    rw [standings_take keeps htake] at hone
    rcases Ledger.scope_of_mem_close keeps hone with hone | hone
    · exact hstandings one hone
    · have hscope := (hall.loc hlocal).tallies one.scope hone
      rwa [hall.node, hall.stage] at hscope
  · unfold inboxCounts at hinbox
    rw [hall.stage] at hinbox
    by_cases hreceive : r.stage = .receive
    · rw [if_pos hreceive] at hinbox ⊢
      exact (Prog.runs_pure.mp hinbox).1
    · rw [if_neg hreceive, Prog.runs_bind] at hinbox
      rw [if_neg hreceive]
      obtain ⟨waiting, v, -, hinbox⟩ := hinbox
      exact ⟨waiting, (Prog.runs_pure.mp hinbox).1⟩

end Relay

/-! ### The node's round -/

namespace Node

variable (E : Estate)

/-- Each relay ticked in turn, and what it publishes merged into the node's snapshot. -/
def round : List (Relay κ) → S → Prog RelayOp (S × List (Relay κ))
  | [], snapshot => pure (snapshot, [])
  | relay :: rest, snapshot => do
    let (ticked, relay) ← relay.tick E
    let (snapshot, relays) ← round rest (merge snapshot ticked)
    pure (snapshot, relay :: relays)

/-- What the relays of a node publish, merged in their order. -/
def published (ticked : List (Relay.Ticked κ S)) (snapshot : S) : S :=
  ticked.foldl (fun snapshot t => merge snapshot t.published) snapshot

/-- The node's round is each relay's, and then the merges. -/
theorem round_eq (relays : List (Relay κ)) (snapshot : S) :
    round E relays snapshot =
      Prog.each (Relay.work E) relays >>= fun ticked =>
        pure (published ticked snapshot, ticked.map Relay.Ticked.relay) := by
  induction relays generalizing snapshot with
  | nil => rfl
  | cons relay rest ih =>
    unfold round Relay.tick
    change _ = (Relay.work E relay >>= fun t => Prog.each (Relay.work E) rest >>= fun ts =>
      Prog.pure (t :: ts)) >>= _
    simp only [bind_assoc, pure_bind, ih]
    rfl

variable (exec i) in
/-- The relays a node comes to: as they were made, and after any number of rounds. -/
inductive Reached (made : List (Relay κ)) (start : σ) : List (Relay κ) → σ → Prop where
  | made : Reached made start made start
  | round {relays relays' : List (Relay κ)} {snapshot : S} {s s' : σ}
      (h : Reached made start relays s)
      (next : (round E relays (Snapshot.new : S)).Runs exec i s (snapshot, relays') s') :
      Reached made start relays' s'

end Node

end XmipEssentials
