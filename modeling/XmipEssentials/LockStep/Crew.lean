import XmipEssentials.LockStep.Stages

/-!
# A round while nothing fails

Every node has its relay at every stage it serves (`Crew`), so what a stage takes in a round is the
whole matrix where it receives, and elsewhere all that was given to it and reads back; and of that
it hands on what its transport carries. A round leaves the inboxes empty and every relay's figures
richer by what its pairs are worth (`Round.rounded`).
-/

namespace XmipEssentials

open Text Conc Files Inbox

variable {κ S : Type} [Capability κ] [Snapshot S]

/-- The relays of a stage: one of every node that serves it. -/
structure Crew (roster : Roster κ) (transports : List Text) (own : Stage) (rs : List (Relay κ)) :
    Prop where
  steady : ∀ r ∈ rs, r.Steady roster transports own
  names : (rs.map Relay.name).Perm (roster.withStage own)

/-- A cluster's relays: those of every node at every stage it serves. -/
structure Fleet.Crewed (roster : Roster κ) (transports : List Text) (f : Fleet κ) : Prop where
  receiving : Crew roster transports .receive f.receiving
  processing : Crew roster transports .process f.processing
  sending : Crew roster transports .send f.sending

/-- Where a handoff of the cluster reads back, it reads back as it was. -/
def Legible (roster : Roster κ) (transports : List Text) : Prop :=
  ∀ handoff back : Handoff, handoff.sender ∈ roster.names → handoff.transport ∈ transports →
    Handoff.decode handoff.encode = some back → handoff = back

variable {E : Estate} {refusal : Text → List UInt8 → Option Text} {roster : Roster κ}
    {transports : List Text}
  {own : Stage} {s s' : Store Inbox UInt8} {rs rs' : List (Relay κ)} {log : List (Ticked κ S)}
    {waiting : List Given}
  {f f' : Fleet κ}

private theorem Setting.nodup_withStage (hset : Setting E roster transports) (stage : Stage) :
    (roster.withStage stage).Nodup := by
  have hnames : roster.names.Nodup := hset.distinct.imp fun hdiffer heq => by
    rw [heq, eqIgnoreAsciiCase_self] at hdiffer
    exact Bool.noConfusion hdiffer
  exact hnames.sublist (List.filter_sublist.map Prod.fst)

namespace Crew

omit [Snapshot S] in
private theorem perm (h : Crew roster transports own rs) (hperm : rs.Perm rs') :
    Crew roster transports own rs' :=
  ⟨fun r hr => h.steady r (hperm.mem_iff.mpr hr), ((hperm.map _).symm).trans h.names⟩

private theorem same (h : Crew roster transports own rs) (hsame : List.Forall₂ Relay.Same rs rs') :
    Crew roster transports own rs' := by
  refine ⟨forall_same (fun _ _ => Relay.Steady.same) hsame h.steady, ?_⟩
  have hnames : rs'.map Relay.name = rs.map Relay.name := by
    clear h
    induction hsame with
    | nil => rfl
    | cons hone _ ih => rw [List.map_cons, List.map_cons, hone.name, ih]
  rw [hnames]
  exact h.names

private theorem nodup_names (h : Crew roster transports own rs)
    (hset : Setting E roster transports) :
    (rs.map Relay.name).Nodup := h.names.nodup_iff.mpr (hset.nodup_withStage own)

/-- **The receiving relays take the whole matrix**, each pair once. -/
theorem perm_share (h : Crew roster transports .receive rs) (hset : Setting E roster transports) :
    (rs.flatMap fun r => r.takes waiting).Perm (allPairs transports) := by
  have hnodup := hset.nodup_withStage .receive
  have hne : roster.withStage .receive ≠ [] := Roster.coversThePath_iff.mp hset.covers .receive
  -- each index has one owner among those that receive
  choose owner howner hunique using fun index => (Roster.exists_unique_receives hnodup hne index)
  have hserves (index : Nat) : owner index ∈ roster.withStage .receive :=
    List.mem_of_getElem? ((Roster.receives_iff hnodup _ _).mp (howner index).2)
  -- what a node receives is its hand of the deal by owner
  have hhand : ∀ name ∈ roster.withStage .receive,
      (allPairs transports).zipIdx.filter (fun one => roster.receives name one.2) =
        Dealing.hand (fun one : (Text × Contract) × Nat => owner one.2) (allPairs transports).zipIdx
          name := by
    intro name hname
    apply List.filter_congr
    intro one _
    rw [Bool.eq_iff_iff, decide_eq_true_iff]
    refine ⟨fun hreceives => ?_, fun hsame => hsame ▸ (howner one.2).2⟩
    exact (hunique one.2 name ⟨Roster.withStage_subset_names hname, hreceives⟩).symm
  -- taking a share is taking what one receives
  have hall : rs.flatMap (fun r => r.takes waiting) =
      ((rs.map Relay.name).flatMap fun name =>
        (allPairs transports).zipIdx.filter fun one =>
          roster.receives name one.2).map Prod.fst := by
    rw [List.map_flatMap, List.flatMap_map]
    apply List.flatMap_congr
    intro r hr
    have hr := h.steady r hr
    rw [Relay.takes, if_pos hr.stage, Relay.share, hr.transports (by decide), hr.roster]
  -- the hands of all that receive make up the matrix
  have hperm : ((rs.map Relay.name).flatMap fun name =>
      (allPairs transports).zipIdx.filter fun one =>
        roster.receives name one.2).Perm (allPairs transports).zipIdx := by
    apply (h.names.flatMap_right _).trans
    rw [List.flatMap_congr hhand]
    exact Dealing.perm_hands hnodup fun one _ => hserves one.2
  have hpairs := hperm.map Prod.fst
  rwa [List.zipIdx_map_fst, ← hall] at hpairs

/-- **Any other stage's relays take all that was given to them** and reads back, each once. -/
theorem perm_given (h : Crew roster transports own rs) (hset : Setting E roster transports)
    (hstage : own ≠ .receive) (hdue : ∀ g ∈ waiting, g.Conveyed E refusal roster transports own) :
    (rs.flatMap fun r => r.takes waiting).Perm
      ((waiting.filterMap Given.back).map Handoff.pair) := by
  -- one node to an inbox, so no handoff is dealt twice
  have hinboxes : (rs.map Relay.inbox).Nodup := by
    apply List.Nodup.of_map Prod.fst
    rw [List.map_map]
    exact h.nodup_names hset
  -- each handoff waits for one of the crew
  have hcovered : ∀ g ∈ waiting, g.dest ∈ rs.map Relay.inbox := by
    intro g hg
    have hsound := hdue g hg
    have hname : g.dest.1 ∈ rs.map Relay.name := h.names.mem_iff.mpr (hsound.stage ▸ hsound.serves)
    obtain ⟨r, hr, hsame⟩ := List.mem_map.mp hname
    refine List.mem_map.mpr ⟨r, hr, Prod.ext hsame ?_⟩
    exact (h.steady r hr).stage.trans hsound.stage.symm
  have hall : rs.flatMap (fun r => r.takes waiting) =
      (((rs.map Relay.inbox).flatMap (Dealing.hand Given.dest waiting)).filterMap Given.back).map
        Handoff.pair := by
    rw [List.filterMap_flatMap, List.map_flatMap, List.flatMap_map]
    apply List.flatMap_congr
    intro r hr
    rw [Relay.takes, if_neg ((h.steady r hr).stage ▸ hstage)]
    rfl
  rw [hall]
  exact ((Dealing.perm_hands hinboxes hcovered).filterMap _).map _

/-- What is given to a stage is what its relays await. -/
theorem awaited (h : Crew roster transports own rs) (hlegible : Legible roster transports)
    (hstage : own ≠ .receive) (hdue : ∀ g ∈ waiting, g.Conveyed E refusal roster transports own)
    (hfew : waiting.length ≤ transports.length * contracts.length) :
    Awaited E refusal roster transports own rs [] waiting := by
  refine ⟨fun _ hg => absurd hg List.not_mem_nil, fun g hg => ?_,
    fun hreceive => absurd hreceive hstage, hfew⟩
  have hsound := hdue g hg
  refine ⟨hsound.transport, fun handoff hback => ?_, ?_⟩
  · exact ⟨hlegible _ _ hsound.sender hsound.transport hback, hsound⟩
  · have hname : g.dest.1 ∈ rs.map Relay.name := h.names.mem_iff.mpr (hsound.stage ▸ hsound.serves)
    obtain ⟨r, hr, hsame⟩ := List.mem_map.mp hname
    refine ⟨r, hr, (Prod.ext hsame ?_).symm⟩
    exact (h.steady r hr).stage.trans hsound.stage.symm

end Crew

/-! ### One round -/

/-- A cluster's figure of a stage and a transport. -/
def Fleet.figures (stage : Stage) (transport : Text) (counted : Counted) (f : Fleet κ) : Nat :=
  XmipEssentials.figures stage transport counted f.receiving + XmipEssentials.figures stage
    transport counted f.processing + XmipEssentials.figures stage transport counted f.sending

/-- What a round leaves: every relay's figures richer by what its stage took, and published, and the
inboxes empty. -/
structure Rounded (E : Estate) (refusal : Text → List UInt8 → Option Text) (roster : Roster κ)
    (transports : List Text) (f f' : Fleet κ) (log : List (Ticked κ S)) (s' : Store Inbox UInt8)
    (received processed sent : List (Text × Contract)) (handed forwarded : List Given) : Prop where
  crewed : f'.Crewed roster transports
  empty : Holding s' []
  received_perm : received.Perm (allPairs transports)
  handed_perm : (handed.map fun g => g.handoff.pair).Perm
    (Relay.handedOn E refusal .receive received)
  processed_perm : processed.Perm ((handed.filterMap Given.back).map Handoff.pair)
  forwarded_perm : (forwarded.map fun g => g.handoff.pair).Perm
    (Relay.handedOn E refusal .process processed)
  sent_perm : sent.Perm ((forwarded.filterMap Given.back).map Handoff.pair)
  sender : ∀ g ∈ handed ++ forwarded, g.handoff.sender ∈ roster.names ∧
    g.handoff.transport ∈ transports
  figures : ∀ stage transport counted, f'.figures stage transport counted =
    f.figures stage transport counted +
    ((received.map (worth E refusal .receive stage transport counted)).sum +
      (processed.map (worth E refusal .process stage transport counted)).sum +
        (sent.map (worth E refusal .send stage transport counted)).sum)
  published : ∀ stage transport counted,
    publishedFigures stage transport counted log = f'.figures stage transport counted

omit [Snapshot S] [Capability κ] in
private theorem figures_perm {stage : Stage} {transport : Text} {counted : Counted}
    (h : rs.Perm rs') :
    figures stage transport counted rs = figures stage transport counted rs' := (h.map _).sum_eq

omit [Capability κ] in
private theorem publishedFigures_append {stage : Stage} {transport : Text} {counted : Counted}
    (log log' : List (Ticked κ S)) :
    publishedFigures stage transport counted (log ++ log') =
      publishedFigures stage transport counted log + publishedFigures stage transport counted
        log' := by
  rw [publishedFigures, List.map_append, List.sum_append, publishedFigures, publishedFigures]

/-- What a stage hands on is no more than it took. -/
theorem length_given_le {given : List Given} {pairs : List (Text × Contract)}
    (h : (given.map fun g => g.handoff.pair).Perm (Relay.handedOn E refusal own pairs)) :
    given.length ≤ pairs.length := by
  calc given.length = (given.map fun g => g.handoff.pair).length := (List.length_map _).symm
    _ = (Relay.handedOn E refusal own pairs).length := h.length_eq
    _ ≤ pairs.length := List.length_filter_le _ _

/-- What a stage hands on is for the next. -/
theorem Staged.sound_next {came : List Given} {pairs : List (Text × Contract)} {new : List Given}
    {next : Stage} (h : Staged E refusal roster transports own rs rs' log came waiting s' pairs new)
    (hnext : own.next = some next) :
    ∀ g ∈ new, g.Conveyed E refusal roster transports next := by
  intro g hg
  obtain ⟨next', hnext', hsound⟩ := h.sound g hg
  exact Option.some.inj (hnext.symm.trans hnext') ▸ hsound

variable {exec : Exec Unit RelayOp (Store Inbox UInt8)}

/-- **A round in lock step.** -/
theorem Round.rounded (keeps : Snapshot.Keeps S) (hexec : Perfect refusal exec)
    (hset : Setting E roster transports) (hlegible : Legible roster transports)
    (h : Round exec E f s f' s' log) (hf : f.Crewed roster transports) (hempty : Holding s []) :
    ∃ received processed sent handed forwarded,
      Rounded E refusal roster transports f f' log s' received processed sent handed forwarded := by
  obtain ⟨receiving, receive, processing, process, sending, send⟩ := h
  have hrs := hf.receiving.perm receiving
  have hps := hf.processing.perm processing
  have hss := hf.sending.perm sending
  -- The receiving relays take the matrix, from empty inboxes.
  obtain ⟨received, handed, hreceived⟩ :=
    receive.staged keeps hexec hset hrs.steady (hrs.nodup_names hset)
    (show Holding s ([] ++ []) from hempty)
    ⟨fun _ hg => absurd hg List.not_mem_nil, fun _ hg => absurd hg List.not_mem_nil, fun _ => rfl,
      Nat.zero_le _⟩
  have hwhole : received.Perm (allPairs transports) := hreceived.took.trans (hrs.perm_share hset)
  have hhanded : ∀ g ∈ handed, g.Conveyed E refusal roster transports .process :=
    hreceived.sound_next rfl
  have hfew : handed.length ≤ transports.length * contracts.length := by
    rw [← length_allPairs, ← hwhole.length_eq]
    exact length_given_le hreceived.gave
  -- The processing relays take what they handed on.
  have hheld := hreceived.holding
  rw [List.append_nil, ← List.nil_append handed] at hheld
  obtain ⟨processed, forwarded, hprocessed⟩ :=
    process.staged keeps hexec hset hps.steady (hps.nodup_names hset) hheld
    (hps.awaited hlegible (by decide) hhanded hfew)
  have htook := hprocessed.took.trans (hps.perm_given hset (by decide) hhanded)
  have hforwarded : ∀ g ∈ forwarded, g.Conveyed E refusal roster transports .send :=
    hprocessed.sound_next rfl
  have hfewer : forwarded.length ≤ transports.length * contracts.length := by
    have htaken := length_given_le hprocessed.gave
    rw [htook.length_eq, List.length_map] at htaken
    exact htaken.trans ((List.length_filterMap_le _ _).trans hfew)
  -- The sending relays take what these did, and hand nothing on.
  have hheld' := hprocessed.holding
  rw [List.append_nil, ← List.nil_append forwarded] at hheld'
  obtain ⟨sent, none, hsent⟩ :=
    send.staged keeps hexec hset hss.steady (hss.nodup_names hset) hheld'
    (hss.awaited hlegible (by decide) hforwarded hfewer)
  have hnone : none = [] := List.eq_nil_iff_forall_not_mem.mpr fun g hg => by
    obtain ⟨next, hnext, -⟩ := hsent.sound g hg
    cases hnext
  refine ⟨received, processed, sent, handed, forwarded,
    ⟨hrs.same hreceived.same, hps.same hprocessed.same, hss.same hsent.same⟩, ?_, hwhole,
    hreceived.gave, htook, hprocessed.gave,
    hsent.took.trans (hss.perm_given hset (by decide) hforwarded), fun g hg => ?_,
    fun stage transport counted => ?_, fun stage transport counted => ?_⟩
  · have hheld'' := hsent.holding
    rwa [hnone] at hheld''
  · rcases List.mem_append.mp hg with hin | hin
    · exact ⟨(hhanded g hin).sender, (hhanded g hin).transport⟩
    · exact ⟨(hforwarded g hin).sender, (hforwarded g hin).transport⟩
  · rw [Fleet.figures, Fleet.figures, figures_perm receiving, figures_perm processing,
      figures_perm sending, hreceived.figures, hprocessed.figures, hsent.figures]
    omega
  · rw [publishedFigures_append, publishedFigures_append, hreceived.published, hprocessed.published,
      hsent.published, Fleet.figures]

end XmipEssentials
