import XmipEssentials.Cluster.Orders
import XmipEssentials.Node
import XmipEssentials.Records
import XmipEssentials.Roles

/-!
# One scope, one writer

The relays of a node write beneath one scope of their own each and beneath `<node>/handoff`, which
they share: there each writes a peer's name for every link it handed over, and the word `inbox`
where its stage takes handoffs (`Node.words`). Two writers of one scope are two equal words, and the
merge keeps the later record and says nothing of the other.

`Node.oneWriter_iff` is the exact condition, in every round of every run: no two relays of the node
take handoffs, no two hand over to one peer, and none hands over to a node called `inbox` where one
takes handoffs.
-/

namespace XmipEssentials

open Text Conc Files Keyed Snapshot

variable {κ S ι σ : Type} [Capability κ] [Snapshot S] {exec : Exec ι RelayOp σ} {i : ι} {s s' : σ}

/-- The scope of a word beneath what the relays of a node share. -/
def handoffScope (node word : Text) : Text := node ++ "/handoff/".toList ++ word

private theorem handoffScope_injective (node : Text) : Function.Injective (handoffScope node) :=
  fun _ _ h => List.append_cancel_left h

/-- What lies beneath a stage says the stage. -/
theorem StageScope.piece {node scope : Text} {stage : Stage} (h : StageScope node stage scope) :
    (scope.drop (node.length + 1)).takeWhile (· ≠ '/') = stage.name := by
  obtain ⟨rest, rfl⟩ := h
  refine takeWhile_piece ?_ rest
  cases stage <;> decide

/-- What the relays share lies beneath no stage. -/
theorem not_stageScope_handoffScope {node word : Text} {stage : Stage} :
    ¬StageScope node stage (handoffScope node word) := by
  intro h
  have hpiece : ((handoffScope node word).drop (node.length + 1)).takeWhile (· ≠ '/') =
      "handoff".toList := by
    have hform : handoffScope node word = node ++ '/' :: "handoff".toList ++ '/' :: word := by
      simp [handoffScope]
    rw [hform]
    exact takeWhile_piece (by decide) word
  rw [h.piece] at hpiece
  revert hpiece
  cases stage <;> decide

namespace Node

/-- What a relay names beneath the scope the relays share: the peers it handed over to, and its
inbox. -/
def words (t : Relay.Ticked κ S) : List Text :=
  t.relay.hops.all.map Hop.receiver ++
    if t.relay.stage = .receive then [] else ["inbox".toList]

/-- Every health record a relay publishes: its standings, its links and its inbox. -/
def written (t : Relay.Ticked κ S) : List HealthRecord := healthRecords t.snapshot ++ t.records

/-- **One scope, one writer**: the records of the relays have distinct scopes, the node's snapshot
holds them all, and says so where an inbox has held an unreadable handoff. -/
structure OneWriter (node : Text) (ticked : List (Relay.Ticked κ S)) : Prop where
  distinct : ((ticked.flatMap written).map HealthRecord.scope).Nodup
  kept : ∀ t ∈ ticked, ∀ r ∈ written t, r ∈ healthRecords (published ticked (new : S))
  unreadable : ∀ t ∈ ticked, t.relay.stage ≠ .receive → 0 < t.relay.unreadable →
    ∃ r ∈ healthRecords (published ticked (new : S)), r.scope = handoffScope node "inbox".toList ∧
      r.health ≠ .fine ∧ ∃ waiting, r.evidence = decimal waiting ++ " waiting, ".toList ++
        decimal t.relay.unreadable ++ " unreadable".toList

/-- No two relays of the node take handoffs, no two hand over to one peer, and none hands over to a
node called `inbox` where one takes handoffs. -/
structure Unshared (ticked : List (Relay.Ticked κ S)) : Prop where
  takers : ticked.Pairwise fun t t' => t.relay.stage = .receive ∨ t'.relay.stage = .receive
  peers : ticked.Pairwise fun t t' =>
    ∀ hop ∈ t.relay.hops.all, ∀ hop' ∈ t'.relay.hops.all, hop.receiver ≠ hop'.receiver
  inbox : (∃ t ∈ ticked, t.relay.stage ≠ .receive) →
    ∀ t ∈ ticked, ∀ hop ∈ t.relay.hops.all, hop.receiver ≠ "inbox".toList

/-! ### What one relay writes -/

/-- A round of a relay of the node, as far as its scopes rest on it. -/
structure Ours (node : Text) (t : Relay.Ticked κ S) : Prop where
  under : t.relay.ledger.node = node
  loc : t.relay.Local
  standings : Relay.Standings node t.relay.stage t.snapshot
  inbox : if t.relay.stage = .receive then t.inbox = none
    else ∃ waiting, t.inbox = some (waiting, t.relay.unreadable)

variable {node : Text} {t t' : Relay.Ticked κ S}

omit [Capability κ] in
private theorem scopes_records (h : Ours node t) :
    t.records.map HealthRecord.scope = (words t).map (handoffScope node) := by
  have hinbox := h.inbox
  unfold Relay.Ticked.records Hops.records words
  rw [h.under, List.map_append, List.map_map]
  -- A relay that receives keeps no inbox; any other records its own.
  by_cases hreceive : t.relay.stage = .receive
  · rw [if_pos hreceive] at hinbox ⊢
    rw [hinbox]
    dsimp only
    rw [List.map_map, List.map_nil, List.append_nil]
    rfl
  · rw [if_neg hreceive] at hinbox ⊢
    obtain ⟨waiting, hinbox⟩ := hinbox
    rw [hinbox]
    dsimp only
    rw [List.map_append, List.map_map]
    have hword : handoffScope node "inbox".toList = node ++ "/handoff/inbox".toList := by
      simp [handoffScope]
    rw [List.map_singleton, List.map_singleton, hword]
    rfl

omit [Capability κ] in
/-- The peers a relay handed over to are distinct: its links all lead from it to its next stage. -/
theorem nodup_receivers (h : Ours node t) : (t.relay.hops.all.map Hop.receiver).Nodup := by
  have hends : ∀ entry ∈ t.relay.hops.links.entries, ∃ next, t.relay.stage.next = some next ∧
      entry.1 = (Hops.endpoint (t.relay.name, t.relay.stage),
        -- Every link begins at the relay itself and ends at its next stage.
        Hops.endpoint (entry.2.receiver, next)) :=
    fun entry hentry => h.loc.links entry.1 entry.2 (AList.mem_lookup_iff.mpr hentry)
  have hkeys : (t.relay.hops.links.entries.map Sigma.fst).Nodup := t.relay.hops.links.nodupKeys
  unfold Hops.all
  rw [List.map_map]
  -- Where there is no next stage there is no link.
  cases hnext : t.relay.stage.next with
  | none =>
    have hnil : t.relay.hops.links.entries = [] := by
      rw [List.eq_nil_iff_forall_not_mem]
      intro entry hentry
      obtain ⟨next, hsome, -⟩ := hends entry hentry
      rw [hnext] at hsome
      cases hsome
    rw [hnil]
    exact List.nodup_nil
  | some next =>
    -- So each link's key is told by its receiver alone.
    have hform : t.relay.hops.links.entries.map Sigma.fst =
        (t.relay.hops.links.entries.map fun entry => entry.2.receiver).map fun receiver =>
          (Hops.endpoint (t.relay.name, t.relay.stage), Hops.endpoint (receiver, next)) := by
      rw [List.map_map]
      apply List.map_congr_left
      intro entry hentry
      obtain ⟨next', hsome, heq⟩ := hends entry hentry
      rw [hnext] at hsome
      cases hsome
      exact heq
    rw [hform] at hkeys
    exact hkeys.of_map

omit [Capability κ] in
/-- The scopes a relay writes are distinct just where the words it names are. -/
theorem nodup_scopes_iff (keeps : Snapshot.Keeps S) (h : Ours node t) :
    ((written t).map HealthRecord.scope).Nodup ↔ (words t).Nodup := by
  unfold written
  rw [List.map_append, scopes_records h, List.nodup_append',
    List.nodup_map_iff (handoffScope_injective node)]
  refine ⟨fun hall => hall.2.1, fun hwords => ⟨keeps.health.nodup t.snapshot, hwords, ?_⟩⟩
  intro scope hstanding hword
  obtain ⟨one, hone, rfl⟩ := List.mem_map.mp hstanding
  obtain ⟨word, -, hscope⟩ := List.mem_map.mp hword
  have hstage := h.standings one hone
  rw [← hscope] at hstage
  exact not_stageScope_handoffScope hstage

omit [Capability κ] in
/-- Two relays of different stages write apart just where they name different words. -/
theorem disjoint_scopes_iff (h : Ours node t) (h' : Ours node t')
    (hne : t.relay.stage ≠ t'.relay.stage) :
    List.Disjoint ((written t).map HealthRecord.scope) ((written t').map HealthRecord.scope) ↔
      List.Disjoint (words t) (words t') := by
  unfold written
  rw [List.map_append, List.map_append, scopes_records h, scopes_records h',
    List.disjoint_append_left, List.disjoint_append_right, List.disjoint_append_right]
  -- Standings lie beneath their stages, and so apart from each other and from what is shared.
  have hshared {u : Relay.Ticked κ S} (hu : Ours node u) (l : List Text) :
      List.Disjoint ((healthRecords u.snapshot).map HealthRecord.scope)
        (l.map (handoffScope node)) := by
    intro scope hstanding hword
    obtain ⟨one, hone, rfl⟩ := List.mem_map.mp hstanding
    obtain ⟨word, -, hscope⟩ := List.mem_map.mp hword
    have hstage := hu.standings one hone
    rw [← hscope] at hstage
    exact not_stageScope_handoffScope hstage
  have hstandings : List.Disjoint ((healthRecords t.snapshot).map HealthRecord.scope)
      ((healthRecords t'.snapshot).map HealthRecord.scope) := by
    intro scope hmem hmem'
    obtain ⟨one, hone, rfl⟩ := List.mem_map.mp hmem
    obtain ⟨other, hother, hscope⟩ := List.mem_map.mp hmem'
    have hstage := (h.standings one hone).piece
    have hstage' := (h'.standings other hother).piece
    rw [hscope] at hstage'
    exact hne (Stage.name_injective (hstage.symm.trans hstage'))
  rw [List.Disjoint.map_iff (handoffScope_injective node)]
  exact ⟨fun hall => hall.2.2, fun hwords =>
    ⟨⟨hstandings, hshared h _⟩, (hshared h' _).symm, hwords⟩⟩

variable {ticked : List (Relay.Ticked κ S)}

omit [Capability κ] in
/-- The scopes of a node's relays are distinct just where the words they name are. -/
theorem distinct_iff (keeps : Snapshot.Keeps S) (hours : ∀ t ∈ ticked, Ours node t)
    (hstages : (ticked.map fun t => t.relay.stage).Nodup) :
    ((ticked.flatMap written).map HealthRecord.scope).Nodup ↔ (ticked.flatMap words).Nodup := by
  rw [List.map_flatMap, List.nodup_flatMap, List.nodup_flatMap]
  have hpairs : ticked.Pairwise fun t t' => t.relay.stage ≠ t'.relay.stage :=
    List.pairwise_map.mp hstages
  constructor
  · rintro ⟨hone, htwo⟩
    refine ⟨fun t ht => (nodup_scopes_iff keeps (hours t ht)).mp (hone t ht), ?_⟩
    refine (htwo.and hpairs).imp_of_mem fun {t t'} ht ht' ⟨hdisjoint, hne⟩ => ?_
    exact (disjoint_scopes_iff (hours t ht) (hours t' ht') hne).mp hdisjoint
  · rintro ⟨hone, htwo⟩
    refine ⟨fun t ht => (nodup_scopes_iff keeps (hours t ht)).mpr (hone t ht), ?_⟩
    refine (htwo.and hpairs).imp_of_mem fun {t t'} ht ht' ⟨hdisjoint, hne⟩ => ?_
    exact (disjoint_scopes_iff (hours t ht) (hours t' ht') hne).mpr hdisjoint

omit [Capability κ] [Snapshot S] in
/-- A word a relay names is a peer it handed over to, or its inbox. -/
theorem mem_words {word : Text} : word ∈ words t ↔
    (∃ hop ∈ t.relay.hops.all, hop.receiver = word) ∨
      (t.relay.stage ≠ .receive ∧ word = "inbox".toList) := by
  unfold words
  rw [List.mem_append, List.mem_map]
  apply or_congr_right
  by_cases hreceive : t.relay.stage = .receive
  · rw [if_pos hreceive]
    simp [hreceive]
  · rw [if_neg hreceive]
    simp [hreceive]

omit [Capability κ] [Snapshot S] in
private theorem nodup_words (hreceivers : (t.relay.hops.all.map Hop.receiver).Nodup) :
    (words t).Nodup ↔ (t.relay.stage ≠ .receive →
      ∀ hop ∈ t.relay.hops.all, hop.receiver ≠ "inbox".toList) := by
  unfold words
  by_cases hreceive : t.relay.stage = .receive
  · rw [if_pos hreceive, List.append_nil]
    exact ⟨fun _ hne => absurd hreceive hne, fun _ => hreceivers⟩
  · rw [if_neg hreceive, List.nodup_append']
    constructor
    · intro hall _ hop hhop hinbox
      exact hall.2.2 (List.mem_map.mpr ⟨hop, hhop, hinbox⟩) (List.mem_singleton.mpr rfl)
    · intro hinbox
      refine ⟨hreceivers, List.nodup_singleton _, fun word hword hsame => ?_⟩
      obtain ⟨hop, hhop, hreceiver⟩ := List.mem_map.mp hword
      exact hinbox hreceive hop hhop (hreceiver.trans (List.mem_singleton.mp hsame))

omit [Capability κ] in
/-- The words are distinct just where nothing is shared. -/
theorem nodup_words_iff (hours : ∀ t ∈ ticked, Ours node t) :
    (ticked.flatMap words).Nodup ↔ Unshared ticked := by
  rw [List.nodup_flatMap]
  -- Where all words are apart, no two relays take handoffs and no two hand on to one node.
  constructor
  · rintro ⟨hone, htwo⟩
    refine ⟨htwo.imp fun {t t'} hdisjoint => ?_, htwo.imp fun {t t'} hdisjoint => ?_, ?_⟩
    · by_contra hboth
      rw [not_or] at hboth
      exact hdisjoint (mem_words.mpr (.inr ⟨hboth.1, rfl⟩)) (mem_words.mpr (.inr ⟨hboth.2, rfl⟩))
    · intro hop hhop hop' hhop' heq
      exact hdisjoint (mem_words.mpr (.inl ⟨hop, hhop, rfl⟩))
        (mem_words.mpr (.inl ⟨hop', hhop', heq.symm⟩))
    · -- Nor does a relay hand on to a node called as the inbox is.
      rintro ⟨t, ht, htakes⟩ t' ht' hop hhop hinbox
      by_cases hsame : t = t'
      · subst hsame
        exact (nodup_words (nodup_receivers (hours t ht))).mp (hone t ht) htakes hop hhop hinbox
      · have hsymm : Std.Symm (Function.onFun List.Disjoint (@words κ S)) :=
          ⟨fun _ _ h => h.symm⟩
        exact htwo.forall ht ht' hsame (mem_words.mpr (.inr ⟨htakes, rfl⟩))
          (mem_words.mpr (.inl ⟨hop, hhop, hinbox⟩))
  · intro hunshared
    -- The other way, a word both have is a receiver both have, or the inbox both take from.
    refine ⟨fun t ht => (nodup_words (nodup_receivers (hours t ht))).mpr fun htakes =>
      hunshared.inbox ⟨t, ht, htakes⟩ t ht, ?_⟩
    apply (hunshared.takers.and hunshared.peers).imp_of_mem
    intro t t' ht ht' ⟨htakers, hpeers⟩ word hword hword'
    rcases mem_words.mp hword with ⟨hop, hhop, rfl⟩ | ⟨htakes, rfl⟩
    · rcases mem_words.mp hword' with ⟨hop', hhop', hsame⟩ | ⟨htakes', hinbox⟩
      · exact hpeers hop hhop hop' hhop' hsame.symm
      · exact hunshared.inbox ⟨t', ht', htakes'⟩ t ht hop hhop hinbox
    · rcases mem_words.mp hword' with ⟨hop', hhop', hinbox⟩ | ⟨htakes', -⟩
      · exact hunshared.inbox ⟨t, ht, htakes⟩ t' ht' hop' hhop' hinbox
      · exact htakers.elim htakes htakes'

/-! ### What the node's snapshot keeps -/

omit [Capability κ] in
/-- A relay publishes every record it writes, where their scopes are distinct. -/
theorem mem_published (keeps : Snapshot.Keeps S)
    (hdistinct : ((written t).map HealthRecord.scope).Nodup) (r : HealthRecord) :
    r ∈ healthRecords t.published ↔ r ∈ written t := by
  unfold written at hdistinct ⊢
  rw [List.map_append, List.nodup_append'] at hdistinct
  have hrecorded := keeps.health.mem_recordAll hdistinct.2.1 r t.snapshot
  unfold Relay.Ticked.published
  change r ∈ healthRecords (recordAll recordHealth t.records t.snapshot) ↔ _
  rw [hrecorded, List.mem_append, or_comm]
  refine or_congr_left (and_iff_left_of_imp fun hr => ?_)
  intro hmem
  exact hdistinct.2.2 (List.mem_map_of_mem hr) hmem

omit [Capability κ] in
/-- Every record of every relay is in the node's snapshot, where their scopes are distinct. -/
theorem kept_of_distinct (keeps : Snapshot.Keeps S)
    (hdistinct : ((ticked.flatMap written).map HealthRecord.scope).Nodup)
    (snapshot : S) :
    (∀ t ∈ ticked, ∀ r ∈ written t, r ∈ healthRecords (published ticked snapshot)) ∧
      ∀ r ∈ healthRecords snapshot, r.scope ∉ (ticked.flatMap written).map HealthRecord.scope →
        r ∈ healthRecords (published ticked snapshot) := by
  induction ticked generalizing snapshot with
  | nil => exact ⟨nofun, fun r hr _ => hr⟩
  -- What the first relay wrote stays, as none of the others writes at its scopes.
  | cons t ticked ih =>
    rw [List.flatMap_cons, List.map_append, List.nodup_append'] at hdistinct
    obtain ⟨hone, hrest, hdisjoint⟩ := hdistinct
    obtain ⟨hkept, hstays⟩ := ih hrest (merge snapshot t.published)
    have hpublished := mem_published keeps hone
    refine ⟨?_, fun r hr hnot => ?_⟩
    · rw [List.forall_mem_cons]
      refine ⟨fun r hr => hstays r ?_ (hdisjoint (List.mem_map_of_mem hr)), hkept⟩
      rw [mem_health_merge keeps]
      exact .inl ((hpublished r).mpr hr)
    · rw [List.flatMap_cons, List.map_append, List.mem_append, not_or] at hnot
      refine hstays r ?_ hnot.2
      rw [mem_health_merge keeps]
      refine .inr ⟨hr, fun hmem => hnot.1 ?_⟩
      obtain ⟨other, hother, hscope⟩ := List.mem_map.mp hmem
      rw [← hscope]
      exact List.mem_map_of_mem ((hpublished other).mp hother)

omit [Capability κ] in
/-- **The records of one round.** -/
theorem oneWriter_iff_unshared (keeps : Snapshot.Keeps S) (hours : ∀ t ∈ ticked, Ours node t)
    (hstages : (ticked.map fun t => t.relay.stage).Nodup) :
    OneWriter node ticked ↔ Unshared ticked := by
  rw [← nodup_words_iff hours, ← distinct_iff keeps hours hstages]
  refine ⟨OneWriter.distinct, fun hdistinct => ?_⟩
  have hkept := (kept_of_distinct keeps hdistinct (Snapshot.new : S)).1
  refine ⟨hdistinct, hkept, fun t ht htakes hunreadable => ?_⟩
  have hinbox := (hours t ht).inbox
  rw [if_neg htakes] at hinbox
  obtain ⟨waiting, hinbox⟩ := hinbox
  -- The record of the inbox stands last among those of the links.
  have hrecord : (⟨handoffScope node "inbox".toList, .stressed, 50,
      decimal waiting ++ " waiting, ".toList ++ decimal t.relay.unreadable ++ " unreadable".toList,
      t.now⟩ : HealthRecord) ∈ written t := by
    unfold written Relay.Ticked.records Hops.records
    rw [hinbox, (hours t ht).under]
    dsimp only
    rw [if_pos hunreadable]
    refine List.mem_append_right _ (List.mem_append_right _ (List.mem_singleton.mpr ?_))
    simp [handoffScope]
  exact ⟨_, hkept t ht _ hrecord, rfl, nofun, waiting, rfl⟩

/-! ### In every round of every run -/

/-- The relays of a node: each keeps to itself and publishes beneath the node, and no two have a
stage in common. -/
structure Relays (node : Text) (relays : List (Relay κ)) : Prop where
  loc : ∀ r ∈ relays, r.Local
  under : ∀ r ∈ relays, r.ledger.node = node
  stages : (relays.map Relay.stage).Nodup

/-- The relays a node makes, where its declaration lists each stage once. -/
theorem relays_made {setup : Setup} {name : Text} {capability : κ} {roster : Roster κ}
    {process : Nat} (hstages : (Capability.stages capability).Nodup) :
    Relays node (relays setup name node capability roster process) := by
  have hnew : ∀ r ∈ relays setup name node capability roster process,
      ∃ stage, Relay.new setup name node stage roster process = some r := by
    intro r hr
    obtain ⟨stage, -, hnew⟩ := List.mem_filterMap.mp hr
    exact ⟨stage, hnew⟩
  refine ⟨fun r hr => ?_, fun r hr => ?_, ?_⟩
  · -- A relay just made has neither tallies nor links.
    obtain ⟨stage, hnew⟩ := hnew r hr
    unfold Relay.new at hnew
    split at hnew
    · cases hnew
    · cases hnew
      exact ⟨nofun, nofun⟩
  · -- it publishes under the node it was made for
    obtain ⟨stage, hnew⟩ := hnew r hr
    unfold Relay.new at hnew
    split at hnew
    · cases hnew
    · cases hnew
      rfl
  · -- A stage makes one relay, or none.
    have hsublist : ∀ stages : List Stage,
        ((stages.filterMap fun stage =>
          Relay.new setup name node stage roster process).map Relay.stage).Sublist stages := by
      intro stages
      induction stages with
      | nil => exact .slnil
      | cons stage stages ih =>
        rw [List.filterMap_cons]
        cases hnew : Relay.new setup name node stage roster process with
        | none => exact ih.cons stage
        | some r =>
          rw [List.map_cons, Relay.new_stage hnew]
          exact ih.cons_cons stage
    exact hstages.sublist (hsublist _)

/-- The relays after a round are the node's, and what each leaves to publish is its own. -/
theorem Relays.each {E : Estate} {made : List (Relay κ)} (keeps : Snapshot.Keeps S)
    (h : Relays node made)
    (hrun : (Prog.each (Relay.work E) made).Runs exec i s ticked s') :
    Relays node (ticked.map Relay.Ticked.relay) ∧ ∀ t ∈ ticked, Ours node t := by
  -- Each relay ticks by itself, and leaves its stage, its node and its own scopes.
  have hof := Prog.forall₂_of_runs_each (R := fun (r : Relay κ) (t : Relay.Ticked κ S) =>
    r.Local → t.Of r) (fun r t u u' hrun hlocal => Relay.runs_work keeps hlocal hrun) hrun
  have hours : ∀ t ∈ ticked, ∃ r ∈ made, t.Of r := by
    intro t ht
    obtain ⟨r, hr, u, u', hrun⟩ := Prog.exists_of_runs_each hrun ht
    exact ⟨r, hr, Relay.runs_work keeps (h.loc r hr) hrun⟩
  -- So the stages ticked are the stages made.
  have hstages : ticked.map (fun t => t.relay.stage) = made.map Relay.stage := by
    clear hours hrun
    have hlocal := h.loc
    clear h
    induction hof with
    | nil => rfl
    | cons ht _ ih =>
      rw [List.forall_mem_cons] at hlocal
      rw [List.map_cons, List.map_cons, ih hlocal.2, (ht hlocal.1).relay.stage]
  refine ⟨⟨?_, ?_, ?_⟩, fun t ht => ?_⟩
  · rw [List.forall_mem_map]
    intro t ht
    obtain ⟨r, hr, hof⟩ := hours t ht
    exact hof.relay.loc (h.loc r hr)
  · rw [List.forall_mem_map]
    intro t ht
    obtain ⟨r, hr, hof⟩ := hours t ht
    exact hof.relay.node.trans (h.under r hr)
  · rw [List.map_map]
    exact hstages ▸ h.stages
  · obtain ⟨r, hr, hof⟩ := hours t ht
    have hstandings := hof.standings
    have hinbox := hof.inbox
    rw [h.under r hr, ← hof.relay.stage] at hstandings
    rw [← hof.relay.stage] at hinbox
    exact ⟨hof.relay.node.trans (h.under r hr), hof.relay.loc (h.loc r hr), hstandings, hinbox⟩

theorem Reached.relays {E : Estate} {made rs : List (Relay κ)} {start : σ}
    (keeps : Snapshot.Keeps S) (hmade : Relays node made)
    (h : Reached (S := S) exec i E made start rs s) : Relays node rs := by
  induction h with
  | made => exact hmade
  | round _ next ih =>
    rw [round_eq, Prog.runs_bind] at next
    obtain ⟨ticked, t, heach, hpure⟩ := next
    obtain ⟨heq, -⟩ := Prog.runs_pure.mp hpure
    cases heq
    exact (ih.each keeps heach).1

/-- **One scope, one writer, and when.** In every round of every run of a node's relays, the scopes
they write are distinct and the node's snapshot keeps every record just where no two of them take
handoffs, no two have handed over to one peer, and none has to a node called `inbox` where one takes
handoffs. -/
theorem oneWriter_iff (keeps : Snapshot.Keeps S) {E : Estate} {setup : Setup} {name node : Text}
    {capability : κ} {roster : Roster κ} {process : Nat} {start : σ} {rs : List (Relay κ)}
    (hstages : (Capability.stages capability).Nodup)
    (reached : Reached (S := S) exec i E (relays setup name node capability roster process) start
      rs s)
    (hrun : (Prog.each (Relay.work E) rs).Runs exec i s ticked s') :
    OneWriter node ticked ↔ Unshared ticked := by
  obtain ⟨hrelays, hours⟩ := (reached.relays keeps (relays_made hstages)).each keeps hrun
  have hdistinct := hrelays.stages
  rw [List.map_map] at hdistinct
  exact oneWriter_iff_unshared keeps hours hdistinct

/-! ### A process inbox that held what is no handoff

A node that receives and processes says so, and to whom it handed a payload over. One that sends as
well does not say so: its send inbox is empty, and the send relay's record of an inbox stands where
the process relay's was. -/

section UnreadableHandoff

/-- The second node receives and processes, and where `both` is set it sends as well. -/
def unreadableOrders (both : Bool) : Orders Roles :=
  ⟨⟨[(['a'], { Roles.nothing with receiving := true }),
    (['b'], { Roles.nothing with receiving := true, processing := true, sending := both }),
    (['c'], { Roles.nothing with sending := true })]⟩, none, []⟩

def unreadableSetup : Setup where
  transports := [['t']]
  faults := ⟨[]⟩
  identity := ⟨fun _ _ _ => [], fun _ _ _ => .delivered⟩
  rotation := none
  perRound := 1
  subscribing := false

def unreadableEstate : Estate := ⟨⟨fun _ _ => [], fun _ _ => []⟩, fun _ _ => .ok ()⟩

/-- The relays of the second node. -/
def unreadableRelays (both : Bool) : List (Relay Roles) :=
  let own := (unreadableOrders both).capability (fun _ => false) ['b']
  relays unreadableSetup ['b'] ['n'] own ((unreadableOrders both).roster.declared ['b'] own) 1

/-- What each call answers: the process inbox lists one file, which reads as nothing. -/
def unreadableDoes : ⦃β : Type⦄ → RelayOp β → Unit → β × Unit
  | _, .now, s => (5, s)
  | _, .file (.makeDir _) _, s => (.ok (), s)
  | _, .file (.create _ _) _, s => (.ok (), s)
  | _, .file (.createNew _ _) _, s => (.ok (), s)
  | _, .file (.write _ _ _) _, s => (.ok (), s)
  | _, .file (.rename _ _ _) _, s => (.ok (), s)
  | _, .file (.list dir) _, s =>
    (.ok (if dir.2 = .process then [['x', '.'] ++ ready] else []), s)
  | _, .file (.read _ _) _, s => (.ok [], s)
  | _, .file (.remove _ _) _, s => (.ok (), s)
  | _, .refuses _ _, s => (none, s)
  | _, .exchange _ payload, s => (.returned payload, s)
  | _, .route _, s => (.ok true, s)
  | _, .released, s => ([], s)
  | _, .done _ _, s => ((), s)
  | _, .taken, s => ([], s)
  | _, .tell _, s => ((), s)

def unreadableTicked (both : Bool) : List (Relay.Ticked Roles Records) :=
  ((Prog.each (Relay.work unreadableEstate) (unreadableRelays both)).played unreadableDoes ()).1

private theorem runs_unreadable (both : Bool) :
    (Prog.each (Relay.work unreadableEstate) (unreadableRelays both)).Runs
      (fun _ _ op s b s' => (b, s') = unreadableDoes op s) () () (unreadableTicked both) () :=
  Prog.runs_played (fun _ _ _ => rfl) _ ()

theorem not_oneWriter_both :
    (unreadableOrders true).refusal = none ∧
      (∃ t ∈ unreadableTicked true, t.relay.stage ≠ .receive ∧ 0 < t.relay.unreadable) ∧
      ¬OneWriter ['n'] (unreadableTicked true) := by
  have hheld : ∃ t, (unreadableTicked true)[1]? = some t ∧ t.relay.stage = .process ∧
      t.relay.unreadable = 1 := ⟨_, rfl, rfl, rfl⟩
  obtain ⟨t, ht, hstage, hunreadable⟩ := hheld
  have hmem := List.mem_of_getElem? ht
  have htakes : t.relay.stage ≠ .receive := by
    rw [hstage]
    decide
  have hpos : 0 < t.relay.unreadable := by
    rw [hunreadable]
    exact Nat.one_pos
  refine ⟨by decide, ⟨t, hmem, htakes, hpos⟩, fun hwriter => ?_⟩
  obtain ⟨r, hr, -, hfine, -⟩ := hwriter.unreadable t hmem htakes hpos
  -- The node's snapshot says one thing of its inboxes.
  have hall : (healthRecords (published (unreadableTicked true) (Snapshot.new : Records))).map
      HealthRecord.health = List.replicate 3 .fine := rfl
  have hmap := List.mem_map_of_mem (f := HealthRecord.health) hr
  rw [hall] at hmap
  exact hfine (List.eq_of_mem_replicate hmap)

/-- Two relays of one node write apart: the one names the peer it handed over to, the other its
inbox. -/
theorem oneWriter_two :
    (unreadableTicked false).map (fun t => t.relay.stage) = [.receive, .process] ∧
      (unreadableTicked false).flatMap words = [['b'], "inbox".toList] ∧
      OneWriter ['n'] (unreadableTicked false) := by
  have hticked : ∃ t t', unreadableTicked false = [t, t'] ∧ t.relay.stage = .receive ∧
      t.relay.hops.all.map Hop.receiver = [['b']] ∧ t'.relay.hops.all = [] :=
    ⟨_, _, rfl, rfl, rfl, rfl⟩
  -- The first relay receives, and the second hands on nothing.
  obtain ⟨t, t', hticked, hstage, hpeers, hnone⟩ := hticked
  refine ⟨rfl, rfl, (oneWriter_iff (S := Records) Records.keeps (by decide) .made
    (runs_unreadable false)).mpr ?_⟩
  rw [hticked]
  refine ⟨List.pairwise_pair.mpr (.inl hstage), List.pairwise_pair.mpr fun hop _ hop' hhop' => ?_,
    fun _ u hu hop hhop => ?_⟩
  · rw [hnone] at hhop'
    exact absurd hhop' List.not_mem_nil
  · rcases List.mem_pair.mp hu with rfl | rfl
    · have hpeer := List.mem_map_of_mem (f := Hop.receiver) hhop
      rw [hpeers, List.mem_singleton] at hpeer
      rw [hpeer]
      decide
    · rw [hnone] at hhop
      exact absurd hhop List.not_mem_nil

end UnreadableHandoff

end Node

end XmipEssentials
