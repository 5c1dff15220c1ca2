import XmipEssentials.Lib.Dealing
import XmipEssentials.LockStep.Drain
import XmipEssentials.LockStep.Turn

/-!
# A stage's ticks while nothing fails

The relays of a stage tick one after another (`Ticks.staged`): each takes what is its own, so
together they take what the stage is there for, once — the whole matrix where they receive
(`perm_share`), and elsewhere all that was given to them (`perm_given`) — and what they hand on
waits, all of it, for the next.
-/

namespace XmipEssentials

open Text Conc Files Inbox

variable {κ S : Type} [Capability κ] [Snapshot S]

/-- The relays' figure of a stage and a transport, together. -/
def figures (stage : Stage) (transport : Text) (counted : Counted) (rs : List (Relay κ)) : Nat :=
  (rs.map fun r => r.ledger.figure stage transport counted).sum

/-- The figure that ticks published, together. -/
def publishedFigures (stage : Stage) (transport : Text) (counted : Counted)
    (log : List (Ticked κ S)) : Nat :=
  (log.map fun one =>
    Snapshot.figure (throughputScope one.relay.ledger.node stage transport) counted
      one.snapshot).sum

variable {E : Estate} {refusal : Text → List UInt8 → Option Text} {roster : Roster κ}
    {transports : List Text}
  {own : Stage} {s s' : Store Inbox UInt8} {rs rs' : List (Relay κ)} {log : List (Ticked κ S)}
  {came waiting new : List Given} {d : Inbox} {r : Relay κ}

/-! ### What is given elsewhere -/

private theorem givenTo_append (hcame : ∀ g ∈ came, g.dest ≠ d) :
    givenTo d (came ++ waiting) = givenTo d waiting := by
  have hnone : came.filter (fun g => g.dest = d) = [] :=
    List.filter_eq_nil_iff.mpr fun g hg hdest => hcame g hg (of_decide_eq_true hdest)
  rw [givenTo, List.filter_append, hnone, List.nil_append, givenTo]

private theorem givenElse_append (hcame : ∀ g ∈ came, g.dest ≠ d) :
    givenElse d (came ++ waiting) = came ++ givenElse d waiting := by
  have hall : came.filter (fun g => g.dest ≠ d) = came :=
    List.filter_eq_self.mpr fun g hg => decide_eq_true (hcame g hg)
  rw [givenElse, List.filter_append, hall, givenElse]

/-- What one inbox is rid of is nothing to another. -/
theorem givenTo_givenElse {d' : Inbox} (hne : d' ≠ d) :
    givenTo d' (givenElse d waiting) = givenTo d' waiting := by
  rw [givenTo, givenElse, List.filter_filter]
  apply List.filter_congr
  intro g _
  rw [Bool.and_eq_left_iff_imp]
  intro hdest
  exact decide_eq_true fun hsame => hne ((of_decide_eq_true hdest).symm.trans hsame)

/-! ### One stage -/

/-- What was given when a stage's relays tick: by earlier ones, to the stage they hand on to, and to
those still to tick, no more than the matrix, each as it reads back. -/
structure Awaited (E : Estate) (refusal : Text → List UInt8 → Option Text) (roster : Roster κ)
    (transports : List Text) (own : Stage) (rs : List (Relay κ)) (came waiting : List Given) :
    Prop where
  earlier : ∀ g ∈ came, some g.dest.2 = own.next ∧ g.handoff.transport ∈ transports ∧
    ∀ r ∈ rs, g.handoff.sender ≠ r.name
  due : ∀ g ∈ waiting, g.handoff.transport ∈ transports ∧ g.Reads E refusal roster transports own ∧
    ∃ r ∈ rs, g.dest = r.inbox
  receive : own = .receive → waiting = []
  few : waiting.length ≤ transports.length * contracts.length

/-- What a stage's ticks leave: every ledger richer by what its relay's pairs are worth, and
published; and what the relays gave. -/
structure Staged (E : Estate) (refusal : Text → List UInt8 → Option Text) (roster : Roster κ)
    (transports : List Text) (own : Stage) (rs rs' : List (Relay κ)) (log : List (Ticked κ S))
    (came waiting : List Given) (s' : Store Inbox UInt8) (pairs : List (Text × Contract))
    (new : List Given) : Prop where
  same : List.Forall₂ Relay.Same rs rs'
  took : pairs.Perm (rs.flatMap fun r => r.takes waiting)
  figures : ∀ stage transport counted, figures stage transport counted rs' =
    figures stage transport counted rs +
      (pairs.map (worth E refusal own stage transport counted)).sum
  published : ∀ stage transport counted,
    publishedFigures stage transport counted log = XmipEssentials.figures stage transport counted
      rs'
  gave : (new.map fun g => g.handoff.pair).Perm (Relay.handedOn E refusal own pairs)
  sender : ∀ g ∈ new, ∃ r ∈ rs, g.handoff.sender = r.name
  sound : ∀ g ∈ new, ∃ next, own.next = some next ∧ g.Conveyed E refusal roster transports next
  holding : Holding s' (new ++ came)

namespace Awaited

/-- What is given elsewhere is nothing to a relay of the stage. -/
theorem ne_inbox (h : Awaited E refusal roster transports own rs came waiting)
    (hstage : r.stage = own) :
    ∀ g ∈ came, g.dest ≠ r.inbox := by
  rintro g hg hdest
  have hnext := (h.earlier g hg).1
  rw [hdest, Relay.inbox, hstage] at hnext
  exact own.next_ne hnext

/-- What was given before the first of the relays ticks. -/
theorem before (h : Awaited E refusal roster transports own (r :: rs) came waiting)
    (hsteady : ∀ r' ∈ r :: rs, r'.Steady roster transports own) :
    r.Before E refusal roster transports own (came ++ waiting) := by
  have hstage := (hsteady r List.mem_cons_self).stage
  -- what comes in this stage is none of its own, so the first takes of what waited
  have hto : givenTo r.inbox (came ++ waiting) = givenTo r.inbox waiting :=
    givenTo_append (h.ne_inbox hstage)
  refine ⟨fun g hg => ?_, fun g hg hnext => ?_, fun hreceive g hg => ?_, fun _ => ?_,
    fun _ g hg => ?_⟩
  · exact (List.mem_append.mp hg).elim (fun hin => (h.earlier g hin).2.1) fun hin => (h.due g hin).1
  · rcases List.mem_append.mp hg with hin | hin
    · exact (h.earlier g hin).2.2 r List.mem_cons_self
    · -- What waits is for the stage itself.
      obtain ⟨r', hr', hdest⟩ := (h.due g hin).2.2
      rw [hdest, Relay.inbox, (hsteady r' hr').stage] at hnext
      exact absurd hnext own.next_ne
  · rw [h.receive hreceive, List.append_nil] at hg
    exact h.ne_inbox hstage g hg
  · rw [hto]
    exact (List.length_filter_le _ _).trans h.few
  · rw [hto] at hg
    exact (h.due g (mem_givenTo.mp hg).1).2.1

/-- What was given when the first of the relays has ticked. -/
theorem after (h : Awaited E refusal roster transports own (r :: rs) came waiting)
    (hnames : ∀ r' ∈ rs, r.name ≠ r'.name) {pairs : List (Text × Contract)}
    (hgave : Relay.Gave E refusal roster transports own r.name pairs new) :
    Awaited E refusal roster transports own rs (new ++ came) (givenElse r.inbox waiting) := by
  refine ⟨fun g hg => ?_, fun g hg => ?_, fun hreceive => ?_, ?_⟩
  · rcases List.mem_append.mp hg with hin | hin
    · obtain ⟨next, hnext, hsound⟩ := hgave.sound g hin
      refine ⟨hnext ▸ congrArg some hsound.stage, hsound.transport, fun r' hr' => ?_⟩
      exact hgave.sender g hin ▸ hnames r' hr'
    · obtain ⟨hnext, htransport, hothers⟩ := h.earlier g hin
      exact ⟨hnext, htransport, fun r' hr' => hothers r' (List.mem_cons_of_mem _ hr')⟩
  · obtain ⟨hin, hne⟩ := mem_givenElse.mp hg
    obtain ⟨htransport, hreads, r', hr', hdest⟩ := h.due g hin
    refine ⟨htransport, hreads, r', (List.mem_cons.mp hr').resolve_left ?_, hdest⟩
    rintro rfl
    exact hne hdest
  · rw [h.receive hreceive]
    rfl
  · exact (List.length_filter_le _ _).trans h.few

end Awaited

/-- What a relay takes of what was given is what it takes of what is given to it. -/
theorem Relay.takes_congr {given given' : List Given}
    (h : givenTo r.inbox given = givenTo r.inbox given') :
    r.takes given = r.takes given' := by
  unfold Relay.takes
  rw [h]

private theorem Relay.handedOn_append (pairs pairs' : List (Text × Contract)) :
    Relay.handedOn E refusal own (pairs ++ pairs') =
      Relay.handedOn E refusal own pairs ++ Relay.handedOn E refusal own pairs' :=
      List.filter_append ..

variable {exec : Exec Unit RelayOp (Store Inbox UInt8)}

/-- **A stage's relays tick**, one after another. -/
theorem Ticks.staged (keeps : Snapshot.Keeps S) (hexec : Perfect refusal exec)
    (hset : Setting E roster transports) (h : Ticks exec E rs s rs' s' log)
    (hsteady : ∀ r ∈ rs, r.Steady roster transports own) (hnames : (rs.map Relay.name).Nodup)
    (hholding : Holding s (came ++ waiting))
    (hgiven : Awaited E refusal roster transports own rs came waiting) :
    ∃ pairs new, Staged E refusal roster transports own rs rs' log came waiting s' pairs new := by
  induction h generalizing came waiting with
  | nil =>
    -- none is left to take: so nothing waits
    have hnone : waiting = [] := List.eq_nil_iff_forall_not_mem.mpr fun g hg => by
      obtain ⟨r, hr, -⟩ := (hgiven.due g hg).2.2
      exact List.not_mem_nil hr
    subst hnone
    refine ⟨[], [], .nil, .nil, fun _ _ _ => rfl, fun _ _ _ => rfl, .nil,
      fun _ hg => absurd hg List.not_mem_nil, fun _ hg => absurd hg List.not_mem_nil, ?_⟩
    rwa [List.append_nil] at hholding
  | @cons r r' snapshot rs rs' s t s' log tick rest ih =>
    have hr := hsteady r List.mem_cons_self
    obtain ⟨hfirst, hnames⟩ := List.nodup_cons.mp hnames
    -- two relays of one stage have two names, and so two inboxes
    have hother : ∀ r' ∈ rs, r.name ≠ r'.name := fun r' hr' heq =>
      hfirst (heq ▸ List.mem_map_of_mem hr')
    have hne := hgiven.ne_inbox hr.stage
    obtain ⟨pairs, new, hturn⟩ :=
      Relay.ends_tick_given hexec keeps hset hr hholding (hgiven.before hsteady) _ _ tick
    -- what the first took is gone from what waits, and what it gave comes on top
    have hheld : Holding t ((new ++ came) ++ givenElse r.inbox waiting) := by
      have hheld := hturn.holding
      rwa [givenElse_append hne, ← List.append_assoc] at hheld
    obtain ⟨pairs', new', hstaged⟩ :=
      ih (fun r' hr' => hsteady r' (List.mem_cons_of_mem _ hr')) hnames hheld
      (hgiven.after hother hturn.gave)
    refine ⟨pairs ++ pairs', new' ++ new, .cons hturn.same hstaged.same, ?_,
      fun stage transport counted => ?_, fun stage transport counted => ?_, ?_, fun g hg => ?_,
      fun g hg => ?_, ?_⟩
    · -- the others take what they would have taken before it
      have htook : pairs.Perm (r.takes waiting) :=
        Relay.takes_congr (givenTo_append hne) ▸ hturn.took
      have hrest : rs.flatMap (fun r' => r'.takes (givenElse r.inbox waiting)) =
        rs.flatMap fun r' => r'.takes waiting :=
        List.flatMap_congr fun r' hr' => Relay.takes_congr (givenTo_givenElse fun heq =>
          hother r' hr' (congrArg Prod.fst heq).symm)
      rw [List.flatMap_cons, ← hrest]
      exact htook.append hstaged.took
    · -- the figures are each relay's own
      have hone := hturn.figure stage transport counted
      have hall := hstaged.figures stage transport counted
      unfold XmipEssentials.figures at hall ⊢
      rw [List.map_cons, List.map_cons, List.sum_cons, List.sum_cons, List.map_append,
        List.sum_append, hone, hall]
      omega
    · have hone := hturn.published stage transport counted
      have hall := hstaged.published stage transport counted
      unfold publishedFigures XmipEssentials.figures at hall ⊢
      rw [List.map_cons, List.map_cons, List.sum_cons, List.sum_cons, hone, hall]
    · rw [List.map_append, Relay.handedOn_append]
      -- what was given is of both, the first's and the others'
      exact List.perm_append_comm.trans (hturn.gave.pairs.append hstaged.gave)
    · rcases List.mem_append.mp hg with hin | hin
      · obtain ⟨r', hr', hsender⟩ := hstaged.sender g hin
        exact ⟨r', List.mem_cons_of_mem _ hr', hsender⟩
      · exact ⟨r, List.mem_cons_self, hturn.gave.sender g hin⟩
    · exact (List.mem_append.mp hg).elim (hstaged.sound g) (hturn.gave.sound g)
    · rw [List.append_assoc]
      exact hstaged.holding

end XmipEssentials
