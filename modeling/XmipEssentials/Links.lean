import XmipEssentials.Topology

/-!
# What the handoff links carry

A link is drawn of each pair configured and each pair handed over, once, and every hop whose ends
are stages is counted on one: so what a link carries is what was handed over between its ends, and
the links together carry it all (`volume_preserved`). `Tallied` is what holds of the pairs drawn
after any of the hops.
-/

namespace XmipEssentials.Topology

open Text

variable {κ : Type} [Capability κ] {μ : Type}

/-! ### Hops and their pairs -/

/-- The pair a hop is over, where its ends are stages. -/
def hopPair (hop : Hop) : Option Pair :=
  match Stage.named hop.senderStage, Stage.named hop.receiverStage with
  | some source, some dest => some ⟨hop.sender, source, hop.receiver, dest⟩
  | _, _ => none

/-- What was handed over a pair. -/
def handedOver (hops : List Hop) (pair : Pair) : Nat :=
  ((hops.filter fun hop => hopPair hop = some pair).map Hop.count).sum

/-- What was handed over between stages. -/
def handedOverAll (hops : List Hop) : Nat :=
  ((hops.filter fun hop => (hopPair hop).isSome).map Hop.count).sum

variable {pairs : List DrawnPair} {pair other : Pair} {count : Nat} {hops : List Hop} {hop : Hop}

private theorem hopDrawn_eq (pairs : List DrawnPair) (hop : Hop) :
    hopDrawn pairs hop = (hopPair hop).elim pairs fun pair => counted pair hop.count pairs := by
  unfold hopDrawn hopPair
  cases Stage.named hop.senderStage with
  | none => rfl
  | some source =>
    cases Stage.named hop.receiverStage with
    | none => rfl
    | some dest => rfl

/-- Of some hops and one more, those to be counted. -/
theorem sum_filter_append (p : Hop → Bool) (hops : List Hop) (hop : Hop) :
    (((hops ++ [hop]).filter p).map Hop.count).sum =
      ((hops.filter p).map Hop.count).sum + if p hop then hop.count else 0 := by
  rw [List.filter_append, List.map_append, List.sum_append, List.filter_singleton]
  cases p hop with
  | true => rfl
  | false => rfl

private theorem handedOver_append (hops : List Hop) (hop : Hop) (pair : Pair) :
    handedOver (hops ++ [hop]) pair = handedOver hops pair + if hopPair hop = some pair then
      hop.count else 0 := by
  simp only [handedOver, sum_filter_append, decide_eq_true_iff]

private theorem handedOverAll_append (hops : List Hop) (hop : Hop) :
    handedOverAll (hops ++ [hop]) = handedOverAll hops + if (hopPair hop).isSome then hop.count
      else 0 :=
  sum_filter_append _ hops hop

/-! ### One hop counted -/

/-- A hop is counted on the first link of its pair, or on one of its own behind the others. -/
theorem counted_of_mem (count : Nat) (h : pair ∈ pairs.map DrawnPair.pair) : ∃ before drawn after,
    pairs = before ++ drawn :: after ∧ drawn.pair = pair ∧
      counted pair count pairs = before ++ { drawn with count := drawn.count + count } ::
      after := by
  induction pairs with
  | nil => exact absurd h List.not_mem_nil
  | cons drawn rest ih =>
    unfold counted
    by_cases hpair : drawn.pair = pair
    · rw [if_pos hpair]
      exact ⟨[], drawn, rest, rfl, hpair, rfl⟩
    · rw [if_neg hpair]
      obtain ⟨before, one, after, hrest, hone, hcounted⟩ :=
        ih ((List.mem_cons.mp h).resolve_left (Ne.symm hpair))
      exact ⟨drawn :: before, one, after, congrArg _ hrest, hone, congrArg _ hcounted⟩

private theorem counted_of_not_mem (h : pair ∉ pairs.map DrawnPair.pair) :
    counted pair count pairs = pairs ++ [⟨pair, false, count⟩] := by
  induction pairs with
  | nil => rfl
  | cons drawn rest ih =>
    rw [List.map_cons, List.mem_cons, not_or] at h
    rw [counted, if_neg (Ne.symm h.1), ih h.2]
    rfl

/-- What holds of the pairs drawn of the configured ones and some hops: each is drawn once, the
configured ones are and are marked so, and each counts what was handed over it. -/
structure Tallied (configured : List Pair) (hops : List Hop) (pairs : List DrawnPair) : Prop where
  once : (pairs.map DrawnPair.pair).Nodup
  covers : ∀ pair ∈ configured, pair ∈ pairs.map DrawnPair.pair
  marked : ∀ drawn ∈ pairs, drawn.configured = true ↔ drawn.pair ∈ configured
  count : ∀ drawn ∈ pairs, drawn.count = handedOver hops drawn.pair
  handed : ∀ pair, pair ∉ pairs.map DrawnPair.pair → handedOver hops pair = 0
  total : (pairs.map DrawnPair.count).sum = handedOverAll hops

namespace Tallied

variable {configured : List Pair}

/-- Nothing handed over yet. -/
theorem start (h : configured.Nodup) :
    Tallied configured [] (configured.map fun pair => ⟨pair, true, 0⟩) := by
  have hpairs : (configured.map fun pair => (⟨pair, true, 0⟩ : DrawnPair)).map DrawnPair.pair =
    configured := by
    rw [List.map_map]
    exact List.map_id _
  refine ⟨hpairs.symm ▸ h, fun pair hpair => hpairs.symm ▸ hpair, fun drawn hdrawn => ?_,
    fun drawn hdrawn => ?_, fun _ _ => rfl, ?_⟩
  · obtain ⟨pair, hpair, rfl⟩ := List.mem_map.mp hdrawn
    exact iff_of_true rfl hpair
  · obtain ⟨pair, -, rfl⟩ := List.mem_map.mp hdrawn
    rfl
  · apply List.sum_eq_zero
    intro n hn
    obtain ⟨drawn, hdrawn, rfl⟩ := List.mem_map.mp hn
    obtain ⟨pair, -, rfl⟩ := List.mem_map.mp hdrawn
    rfl

/-- A hop whose ends are no stages is not counted at all. -/
theorem skip (h : Tallied configured hops pairs) (hnone : hopPair hop = none) :
    Tallied configured (hops ++ [hop]) pairs := by
  have hsame (pair : Pair) : handedOver (hops ++ [hop]) pair = handedOver hops pair := by
    rw [handedOver_append, hnone, if_neg (Option.some_ne_none pair).symm, Nat.add_zero]
  refine ⟨h.once, h.covers, h.marked, fun drawn hdrawn => ?_, fun pair hpair => ?_, ?_⟩
  · rw [hsame]
    exact h.count drawn hdrawn
  · rw [hsame]
    exact h.handed pair hpair
  · rw [handedOverAll_append, hnone]
    exact h.total

/-- A hop over a pair that is drawn is counted on its link. -/
theorem merge (h : Tallied configured hops pairs) (hsome : hopPair hop = some pair)
    (hmem : pair ∈ pairs.map DrawnPair.pair) :
    Tallied configured (hops ++ [hop]) (counted pair hop.count pairs) := by
  obtain ⟨before, drawn, after, rfl, rfl, hcounted⟩ := counted_of_mem hop.count hmem
  rw [hcounted]
  have hkeys : (before ++ { drawn with count := drawn.count + hop.count } :: after).map
    DrawnPair.pair =
      (before ++ drawn :: after).map DrawnPair.pair := by
    rw [List.map_append, List.map_append, List.map_cons, List.map_cons]
  -- No other link is of the pair, so no other counts the hop.
  have honce := h.once
  rw [List.map_append, List.map_cons, List.nodup_middle, List.nodup_cons, List.mem_append,
    not_or] at honce
  have hother : ∀ one ∈ before ++ after, handedOver (hops ++ [hop]) one.pair =
    handedOver hops one.pair := by
    intro one hone
    have hne : drawn.pair ≠ one.pair := by
      intro heq
      rcases List.mem_append.mp hone with hin | hin
      · exact honce.1.1 (heq ▸ List.mem_map_of_mem hin)
      · exact honce.1.2 (heq ▸ List.mem_map_of_mem hin)
    rw [handedOver_append, hsome, if_neg fun heq => hne (Option.some.inj heq), Nat.add_zero]
  refine ⟨hkeys.symm ▸ h.once, fun one hone => hkeys.symm ▸ h.covers one hone, fun one hone => ?_,
    fun one hone => ?_, fun one hone => ?_, ?_⟩
  · rcases List.mem_append.mp hone with hin | hin
    · exact h.marked one (List.mem_append_left _ hin)
    · rcases List.mem_cons.mp hin with rfl | hin
      · exact h.marked drawn (List.mem_append_right _ List.mem_cons_self)
      · exact h.marked one (List.mem_append_right _ (List.mem_cons_of_mem _ hin))
  · rcases List.mem_append.mp hone with hin | hin
    · rw [hother one (List.mem_append_left _ hin)]
      exact h.count one (List.mem_append_left _ hin)
    · rcases List.mem_cons.mp hin with rfl | hin
      · rw [handedOver_append, hsome, if_pos rfl,
          ← h.count drawn (List.mem_append_right _ List.mem_cons_self)]
      · rw [hother one (List.mem_append_right _ hin)]
        exact h.count one (List.mem_append_right _ (List.mem_cons_of_mem _ hin))
  · rw [hkeys] at hone
    rw [handedOver_append, hsome, if_neg, Nat.add_zero]
    · exact h.handed one hone
    · rintro heq
      rw [← Option.some.inj heq] at hone
      exact hone hmem
  · have htotal := h.total
    rw [handedOverAll_append, hsome, ← htotal]
    simp only [List.map_append, List.map_cons, List.sum_append, List.sum_cons, Option.isSome_some,
      if_true]
    omega

/-- A hop over a pair not drawn yet is drawn anew, and no configured pair is such. -/
theorem add (h : Tallied configured hops pairs) (hsome : hopPair hop = some pair)
    (hnew : pair ∉ pairs.map DrawnPair.pair) :
    Tallied configured (hops ++ [hop]) (counted pair hop.count pairs) := by
  rw [counted_of_not_mem hnew]
  have hkeys : (pairs ++ [(⟨pair, false, hop.count⟩ : DrawnPair)]).map DrawnPair.pair =
      pairs.map DrawnPair.pair ++ [pair] := List.map_append
  -- Nothing was handed over a pair that has no link, so the new link counts this hop alone.
  refine ⟨?_, fun one hone => ?_, fun one hone => ?_, fun one hone => ?_, fun one hone => ?_, ?_⟩
  · rw [hkeys, List.nodup_append_comm]
    exact List.nodup_cons.mpr ⟨hnew, h.once⟩
  · rw [hkeys]
    exact List.mem_append_left _ (h.covers one hone)
  · rcases List.mem_append.mp hone with hin | hin
    · exact h.marked one hin
    · rw [List.mem_singleton.mp hin]
      exact iff_of_false Bool.false_ne_true fun hconfigured => hnew (h.covers pair hconfigured)
  · rcases List.mem_append.mp hone with hin | hin
    · have hne : pair ≠ one.pair := fun heq => hnew (heq ▸ List.mem_map_of_mem hin)
      rw [handedOver_append, hsome, if_neg fun heq => hne (Option.some.inj heq), Nat.add_zero]
      exact h.count one hin
    · rw [List.mem_singleton.mp hin, handedOver_append, hsome, if_pos rfl, h.handed pair hnew,
        Nat.zero_add]
  · rw [hkeys, List.mem_append, List.mem_singleton, not_or] at hone
    rw [handedOver_append, hsome, if_neg fun heq => hone.2 (Option.some.inj heq).symm, Nat.add_zero]
    exact h.handed one hone.1
  · rw [handedOverAll_append, hsome, List.map_append, List.sum_append, h.total]
    rfl

/-- **One hop more.** -/
theorem next (h : Tallied configured hops pairs) (hop : Hop) :
    Tallied configured (hops ++ [hop]) (hopDrawn pairs hop) := by
  rw [hopDrawn_eq]
  cases hpair : hopPair hop with
  | none => exact h.skip hpair
  | some pair =>
    by_cases hmem : pair ∈ pairs.map DrawnPair.pair
    · exact h.merge hpair hmem
    · exact h.add hpair hmem

/-- **Any hops.** -/
theorem ofAll (h : configured.Nodup) (hops : List Hop) :
    Tallied configured hops (hops.foldl hopDrawn (configured.map fun pair => ⟨pair, true, 0⟩)) := by
  -- Induction on the hops from the last: each is counted on the links drawn of those before it.
  induction hops using List.reverseRecOn with
  | nil => exact start h
  | append_singleton hops one ih =>
    rw [List.foldl_append]
    exact ih.next one

end Tallied

/-! ### Every link -/

/-- Nodes of distinct names are configured to hand over between each two stages once. -/
theorem nodup_configuredPairs {r : Roster κ} (h : r.names.Nodup) : (configuredPairs r).Nodup := by
  have hstage (stage : Stage) : (r.withStage stage).Nodup :=
    h.sublist (List.filter_sublist.map Prod.fst)
  unfold configuredPairs
  refine List.nodup_flatMap.mpr ⟨fun stages _ => List.nodup_flatMap.mpr ⟨fun sender _ => ?_, ?_⟩,
    ?_⟩
  · -- pairs of one sender differ by their receivers
    exact (hstage stages.2).map fun receiver other heq => (Pair.mk.inj heq).2.2.1
  · -- Pairs of different senders differ.
    refine (hstage stages.1).imp fun {sender other} hne =>
      List.disjoint_left.mpr fun pair hin hother => ?_
    obtain ⟨one, -, rfl⟩ := List.mem_map.mp hin
    obtain ⟨two, -, heq⟩ := List.mem_map.mp hother
    exact hne (Pair.mk.inj heq).1.symm
  · -- And those out of different stages.
    refine List.pairwise_pair.mpr (List.disjoint_left.mpr fun pair hin hother => ?_)
    obtain ⟨sender, -, hin⟩ := List.mem_flatMap.mp hin
    obtain ⟨other, -, hother⟩ := List.mem_flatMap.mp hother
    obtain ⟨one, -, rfl⟩ := List.mem_map.mp hin
    obtain ⟨two, -, heq⟩ := List.mem_map.mp hother
    exact absurd (Pair.mk.inj heq).2.1 (by decide)

/-- The pairs configured, if any are. -/
def configuredOf (configured : Option (Roster κ)) : List Pair :=
  (configured.map configuredPairs).getD []

/-- What holds of the links drawn. -/
structure Preserved (root : Text) (nodeId : Text → Text) (worst : List Text → μ × Text)
    (configured : Option (Roster κ)) (hops : List Hop) : Prop where
  /-- A pair of stages has one link at the most. -/
  once : ((drawnPairs configured hops).map DrawnPair.pair).Nodup
  /-- A link's volume is what was handed over its pair. -/
  volume : ∀ drawn ∈ drawnPairs configured hops,
    (link root nodeId worst drawn).volume = handedOver hops drawn.pair
  /-- It is said to be configured, both or observed as it is. -/
  origin : ∀ drawn ∈ drawnPairs configured hops, (link root nodeId worst drawn).origin =
    if drawn.pair ∈ configuredOf configured then
      if handedOver hops drawn.pair = 0 then Origin.configured else .both
    else .observed
  /-- Every configured pair is drawn. -/
  covers : ∀ pair ∈ configuredOf configured, ∃ drawn ∈ drawnPairs configured hops, drawn.pair = pair
  /-- The links together carry what was handed over between stages. -/
  total : ((handoffLinks root nodeId worst configured hops).map TopologyLink.volume).sum =
    handedOverAll hops

private theorem origin_link (root : Text) (nodeId : Text → Text) (worst : List Text → μ × Text)
    (drawn : DrawnPair) :
    (link root nodeId worst drawn).origin =
      if drawn.configured then if drawn.count = 0 then Origin.configured else .both
        else .observed := by
  unfold link
  split_ifs <;> rfl

/-- **Volume is preserved**, over any roster of distinct names or none and whatever hops there
were. -/
theorem volume_preserved (root : Text) (nodeId : Text → Text) (worst : List Text → μ × Text)
    (configured : Option (Roster κ)) (hdistinct : ∀ r ∈ configured, r.names.Nodup)
    (hops : List Hop) :
    Preserved root nodeId worst configured hops := by
  have hnodup : (configuredOf configured).Nodup := by
    cases configured with
    | none => exact List.nodup_nil
    | some r => exact nodup_configuredPairs (hdistinct r rfl)
  have htallied : Tallied (configuredOf configured) hops (drawnPairs configured hops) :=
    Tallied.ofAll hnodup hops
  refine ⟨htallied.once, htallied.count, fun drawn hdrawn => ?_, fun pair hpair => ?_, ?_⟩
  · rw [origin_link, htallied.count drawn hdrawn]
    exact if_congr (htallied.marked drawn hdrawn) rfl rfl
  · exact List.mem_map.mp (htallied.covers pair hpair)
  · rw [handoffLinks, List.map_map]
    exact htallied.total

/-- Hops of a restarted node, between unknown ones and out of no stage. -/
def someHops : List Hop :=
  [⟨['a'], "receive".toList, ['b'], "process".toList, 2, 0⟩,
    ⟨['x'], "send".toList, ['y'], "receive".toList, 5, 0⟩,
    ⟨['a'], "receive".toList, ['b'], "process".toList, 3, 1⟩,
    ⟨['a'], "nowhere".toList, ['b'], [], 7, 0⟩]

theorem volume_preserved_two : Preserved [] id (fun _ => ((), [])) (some twoNodes) someHops ∧
    handedOver someHops ⟨['a'], .receive, ['b'], .process⟩ = 5 ∧ handedOverAll someHops = 10 :=
  ⟨volume_preserved _ _ _ _ (fun r hr => by cases hr; decide) _, by decide, by decide⟩

end XmipEssentials.Topology
