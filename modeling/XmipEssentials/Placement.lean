import Mathlib.Data.Int.CardIntervalMod
import XmipEssentials.Relay

/-!
# Placement: each node decides alone, and all agree

Every node parses the same `--nodes` text and makes its own `--role` the last word on itself
(`Roster.declared`); from that view alone it takes its share of the matrix and picks whom it hands a
pair to. This module shows that the views agree. What carries it is `Roster.Alike`: two rosters that
name the same nodes in the same order, each with a declaration of the same roles. A text parses to a
roster alike to the one it was written of (`parse_text`), a node's own declaration spliced in keeps
it alike (`Alike.declared`), and alike rosters place alike (`Alike.withStage`, `Alike.target`).
-/

namespace XmipEssentials

open Text

variable {κ : Type} [Capability κ]

/-- What the `node` crate keeps of a declaration: an entry is the name, and after it the roles
where there are any; it reads back as the name and the same roles; a node that is executing can
serve every stage; and the stages a declaration lists are those it can serve. -/
structure Capability.Lawful (κ : Type) [Capability κ] : Prop where
  entry_form : ∀ (c : κ) (name : Text), ∃ roles : List Text,
    (∀ role ∈ roles, ∀ ch ∈ role, ch.isAlpha) ∧
      Capability.entry c name =
        name ++ if roles = [] then [] else '=' :: ['+'].intercalate roles
  fromEntry_entry : ∀ (c : κ) (name : Text), Image.refusal name = Option.none →
    ∃ d : κ, Capability.fromEntry (Capability.entry c name) = (name, .ok d) ∧ SameRoles d c
  can_of_executes : ∀ c : κ, Capability.executes c = true → ∀ stage, Capability.can c stage = true
  mem_stages : ∀ (c : κ) (stage : Stage),
    stage ∈ Capability.stages c ↔ Capability.can c stage = true

private theorem SameRoles.refl (c : κ) : SameRoles c c := ⟨fun _ => rfl, rfl, rfl⟩

theorem SameRoles.trans {c d e : κ} (h : SameRoles c d) (h' : SameRoles d e) : SameRoles c e :=
  ⟨fun s => (h.can s).trans (h'.can s), h.executes.trans h'.executes, h.stages.trans h'.stages⟩

namespace Roster

/-! ### Alike rosters -/

/-- The same nodes in the same order, each declaring the same roles. -/
def Alike (a b : Roster κ) : Prop :=
  List.Forall₂ (fun x y => x.1 = y.1 ∧ SameRoles x.2 y.2) a.nodes b.nodes

theorem Alike.withStage {a b : Roster κ} (h : a.Alike b) (stage : Stage) :
    a.withStage stage = b.withStage stage := by
  obtain ⟨xs⟩ := a
  obtain ⟨ys⟩ := b
  change List.Forall₂ _ xs ys at h
  induction h with
  | nil => rfl
  | @cons x y xs ys hxy _ ih =>
    simp only [Roster.withStage, List.filter_cons, ← hxy.2.can stage] at ih ⊢
    cases Capability.can x.2 stage with
    | false => exact ih
    | true => simp only [if_true, List.map_cons, hxy.1, ih]

theorem Alike.names {a b : Roster κ} (h : a.Alike b) : a.names = b.names := by
  obtain ⟨xs⟩ := a
  obtain ⟨ys⟩ := b
  change List.Forall₂ _ xs ys at h
  induction h with
  | nil => rfl
  | cons hxy _ ih =>
    simp only [Roster.names, List.map_cons] at ih ⊢
    rw [hxy.1, ih]

theorem Alike.capability {a b : Roster κ} (h : a.Alike b) (name : Text) :
    SameRoles (a.capability name) (b.capability name) := by
  obtain ⟨xs⟩ := a
  obtain ⟨ys⟩ := b
  change List.Forall₂ _ xs ys at h
  induction h with
  | nil => exact .refl _
  | @cons x y xs ys hxy _ ih =>
    simp only [Roster.capability, List.find?_cons, hxy.1] at ih ⊢
    cases eqIgnoreAsciiCase y.1 name with
    | false => exact ih
    | true => exact hxy.2

private theorem Alike.receives {a b : Roster κ} (h : a.Alike b) (name : Text) (index : Nat) :
    a.receives name index = b.receives name index := by
  rw [Roster.receives, Roster.receives, h.withStage]

theorem Alike.target {a b : Roster κ} (h : a.Alike b) (source : Text) (stage : Stage)
    (transport : Text) (contract : Contract) :
    a.target source stage transport contract = b.target source stage transport contract := by
  rw [Roster.target, Roster.target, h.withStage, (h.capability source).executes]

/-- A node's own declaration, of the roles the roster says it has, spliced in. -/
theorem Alike.declared {a b : Roster κ} (h : a.Alike b) {name : Text} {own : κ}
    (hmem : name ∈ b.names)
    (hown : ∀ node ∈ b.nodes, eqIgnoreAsciiCase node.1 name = true → SameRoles own node.2) :
    (a.declared name own).Alike b := by
  obtain ⟨xs⟩ := a
  obtain ⟨ys⟩ := b
  change List.Forall₂ _ xs ys at h
  change List.Forall₂ _ (declareIn name own xs) ys
  induction h with
  | nil => cases hmem
  | @cons x y xs ys hxy hrest ih =>
    -- the entries go name by name, alike in both
    simp only [declareIn, hxy.1]
    by_cases hname : eqIgnoreAsciiCase y.1 name = true
    · rw [if_pos hname]
      exact .cons ⟨rfl, hown y List.mem_cons_self hname⟩ hrest
    · -- not this entry: the name is one of the others
      rw [if_neg hname]
      refine .cons hxy (ih ?_ fun node hnode => hown node (List.mem_cons_of_mem _ hnode))
      rcases List.mem_cons.mp hmem with rfl | hin
      · exact absurd (eqIgnoreAsciiCase_self _) hname
      · exact hin

/-! ### The text reads back -/

variable (law : Capability.Lawful κ)

include law in
/-- An entry of a node no door refuses is one entry of the text: no comma splits it and no white
space is trimmed off it. -/
theorem entry_plain {c : κ} {name : Text} (hname : Image.refusal name = none) :
    ',' ∉ Capability.entry c name ∧ trim (Capability.entry c name) = Capability.entry c name ∧
      -- letters, digits, hyphens, the sign of equality and the plus: no comma among them
      Capability.entry c name ≠ [] := by
  obtain ⟨roles, hroles, hentry⟩ := law.entry_form c name
  have hchars : ∀ ch ∈ Capability.entry c name,
      ch.isAlphanum = true ∨ ch = '-' ∨ ch = '=' ∨ ch = '+' := by
    intro ch hch
    -- the name is as the door lets it in; the roles are words joined by pluses
    rw [hentry, List.mem_append] at hch
    rcases hch with hch | hch
    · rcases (Image.refusal_eq_none.mp hname).2 ch hch with h | h
      · exact .inl h
      · exact .inr (.inl h)
    · split at hch
      · cases hch
      · rcases List.mem_cons.mp hch with rfl | hch
        · exact .inr (.inr (.inl rfl))
        · rcases mem_intercalate hch with hin | ⟨role, hrole, hin⟩
          · exact .inr (.inr (.inr (List.mem_singleton.mp hin)))
          · exact .inl (by simp [Char.isAlphanum, hroles role hrole ch hin])
  have hne : Capability.entry c name ≠ [] := by
    rw [hentry]
    -- none of those characters is whitespace, so nothing is trimmed
    simp [Image.ne_nil hname]
  refine ⟨fun hcomma => absurd (hchars _ hcomma) (by decide), trim_eq_self fun ch hch => ?_, hne⟩
  rcases hchars ch hch with h | rfl | rfl | rfl
  · exact isWhitespace_of_isAlphanum h
  all_goals decide

include law in
/-- The entries of the nodes parse to a roster alike. -/
theorem parseEntries_entries (nodes : List (Text × κ))
    (hnames : ∀ node ∈ nodes, Image.refusal node.1 = none) :
    ∃ parsed : List (Text × κ),
      parseEntries (nodes.map fun node => Capability.entry node.2 node.1) = .ok parsed ∧
        Alike ⟨parsed⟩ ⟨nodes⟩ := by
  induction nodes with
  | nil => exact ⟨[], rfl, .nil⟩
  | cons node rest ih =>
    obtain ⟨parsed, hparsed, halike⟩ := ih fun n hn => hnames n (List.mem_cons_of_mem _ hn)
    have hname := hnames node List.mem_cons_self
    obtain ⟨d, hd, hsame⟩ := law.fromEntry_entry node.2 node.1 hname
    refine ⟨(node.1, d) :: parsed, ?_, .cons ⟨rfl, hsame⟩ halike⟩
    rw [List.map_cons, parseEntries, if_neg (entry_plain law hname).2.2, hd]
    dsimp only
    rw [hparsed]
    rfl

include law in
/-- **What a cluster tells its nodes reads back as the roster it was written of.** -/
theorem parse_text {r : Roster κ} (hne : r.nodes ≠ [])
    (hnames : ∀ name ∈ r.names, Image.refusal name = none) :
    ∃ parsed : Roster κ, parse r.text = .ok parsed ∧ parsed.Alike r := by
  have hrefusal : ∀ node ∈ r.nodes, Image.refusal node.1 = none :=
    fun node hnode => hnames _ (List.mem_map_of_mem hnode)
  obtain ⟨parsed, hparsed, halike⟩ := parseEntries_entries law r.nodes hrefusal
  refine ⟨⟨parsed⟩, ?_, halike⟩
  have hsplit : r.text.splitOn ',' = r.nodes.map fun node => Capability.entry node.2 node.1 := by
    refine List.splitOn_intercalate ',' (fun entry hentry => ?_) (by simpa using hne)
    obtain ⟨node, hnode, rfl⟩ := List.mem_map.mp hentry
    exact (entry_plain law (hrefusal node hnode)).1
  have htrim : (r.nodes.map fun node => Capability.entry node.2 node.1).map trim =
      r.nodes.map fun node => Capability.entry node.2 node.1 := by
    rw [List.map_map]
    apply List.map_congr_left
    intro node hnode
    exact (entry_plain law (hrefusal node hnode)).2.1
  rw [parse, hsplit, htrim, hparsed]
  rfl

/-! ### A node's own declaration -/

/-- Where names differ, their case aside, the roster finds under a node's name what it declares. -/
theorem capability_of_mem {r : Roster κ} {node : Text × κ}
    (hdistinct : r.names.Pairwise fun a b => eqIgnoreAsciiCase a b = false)
    (hnode : node ∈ r.nodes) :
    r.capability node.1 = node.2 := by
  obtain ⟨nodes⟩ := r
  unfold names at hdistinct
  unfold capability
  dsimp only at hdistinct hnode ⊢
  induction nodes with
  | nil => cases hnode
  | cons head rest ih =>
    rw [List.map_cons, List.pairwise_cons] at hdistinct
    rcases List.mem_cons.mp hnode with rfl | hrest
    · have hself := eqIgnoreAsciiCase_self node.1
      simp only [List.find?_cons, hself]
    · have hother := hdistinct.1 node.1 (List.mem_map_of_mem hrest)
      simp only [List.find?_cons, hother]
      exact ih hdistinct.2 hrest

/-! ### The partition of the matrix -/

/-- A receiving node takes the pairs whose index falls on its own place. -/
theorem receives_iff {r : Roster κ} (hnodup : (r.withStage .receive).Nodup) (name : Text)
    (index : Nat) :
    r.receives name index = true ↔
      (r.withStage .receive)[index % (r.withStage .receive).length]? = some name := by
  rw [receives]
  cases hplace : (r.withStage .receive).idxOf? name with
  | none =>
    rw [List.idxOf?_eq_none_iff] at hplace
    refine ⟨fun h => absurd h Bool.false_ne_true, fun h => ?_⟩
    exact absurd (List.mem_of_getElem? h) hplace
  | some place =>
    obtain ⟨hlt, hat⟩ := List.idxOf?_eq_some_iff.mp hplace |>.imp fun _ h => h.1
    have hget : (r.withStage .receive)[place]? = some name := by
      rw [List.getElem?_eq_getElem hlt]
      simpa using hat
    rw [beq_iff_eq]
    refine ⟨fun h => by rw [h, hget], fun h => ?_⟩
    exact ((List.getElem?_inj hlt hnodup).mp (hget.trans h.symm)).symm

/-- **Every index falls to exactly one receiving node.** -/
theorem exists_unique_receives {r : Roster κ} (hnodup : (r.withStage .receive).Nodup)
    (hne : r.withStage .receive ≠ []) (index : Nat) :
    ∃! name, name ∈ r.names ∧ r.receives name index = true := by
  have hlt : index % (r.withStage .receive).length < (r.withStage .receive).length :=
    Nat.mod_lt _ (List.length_pos_of_ne_nil hne)
  refine ⟨(r.withStage .receive)[index % (r.withStage .receive).length], ⟨?_, ?_⟩, ?_⟩
  · exact withStage_subset_names (List.getElem_mem hlt)
  · rw [receives_iff hnodup, List.getElem?_eq_getElem hlt]
  · rintro name ⟨-, hname⟩
    rw [receives_iff hnodup, List.getElem?_eq_getElem hlt] at hname
    exact (Option.some.inj hname).symm

/-- How many indices of a matrix of `size` pairs a node takes. -/
def shareOf (r : Roster κ) (name : Text) (size : Nat) : Nat :=
  ((List.range size).filter fun index => r.receives name index).length

/-- The indices a receiving node takes are those of one remainder. -/
theorem shareOf_eq_count {r : Roster κ} (hnodup : (r.withStage .receive).Nodup) {place : Nat}
    {name : Text} (hplace : (r.withStage .receive)[place]? = some name) (size : Nat) :
    r.shareOf name size =
      Nat.count (fun index => index ≡ place [MOD (r.withStage .receive).length]) size := by
  -- an index is this node's where it falls on its place, round after round
  obtain ⟨hlt, -⟩ := List.getElem?_eq_some_iff.mp hplace
  have hpos : 0 < (r.withStage .receive).length := Nat.lt_of_le_of_lt (Nat.zero_le _) hlt
  have htakes : ∀ index, r.receives name index = true ↔
      index ≡ place [MOD (r.withStage .receive).length] := by
    intro index
    rw [receives_iff hnodup, ← hplace, List.getElem?_inj (Nat.mod_lt _ hpos) hnodup, Nat.ModEq,
      Nat.mod_eq_of_lt hlt]
  induction size with
  | zero => rfl
  | succ size ih =>
    -- one index more is counted just where it is taken
    rw [Nat.count_succ, ← ih, shareOf, shareOf, List.range_succ, List.filter_append,
      List.length_append]
    by_cases h : r.receives name size = true
    · rw [if_pos ((htakes size).mp h), List.filter_cons_of_pos h]
      rfl
    · rw [if_neg (mt (htakes size).mpr h), List.filter_cons_of_neg h]
      rfl

/-- **The shares of two receiving nodes differ by one at most.** -/
theorem shareOf_le {r : Roster κ} (hnodup : (r.withStage .receive).Nodup) {a b : Text}
    (ha : a ∈ r.withStage .receive) (hb : b ∈ r.withStage .receive) (size : Nat) :
    r.shareOf a size ≤ r.shareOf b size + 1 := by
  obtain ⟨i, hi⟩ := List.mem_iff_getElem?.mp ha
  obtain ⟨j, hj⟩ := List.mem_iff_getElem?.mp hb
  have hpos : 0 < (r.withStage .receive).length := List.length_pos_of_mem ha
  rw [shareOf_eq_count hnodup hi, shareOf_eq_count hnodup hj, Nat.count_modEq_card _ hpos,
    Nat.count_modEq_card _ hpos]
  split_ifs <;> omega

end Roster

/-! ### The views agree -/

/-- The relays of a node: one per stage its own declaration lists, where its roster gives it one. -/
def relays (setup : Setup) (name node : Text) (capability : κ) (roster : Roster κ) (process : Nat) :
    List (Relay κ) :=
  (Capability.stages capability).filterMap fun stage =>
    Relay.new setup name node stage roster process

theorem Relay.new_stage {setup : Setup} {name node : Text} {stage : Stage} {roster : Roster κ}
    {process : Nat} {r : Relay κ} (h : Relay.new setup name node stage roster process = some r) :
    r.stage = stage := by
  rw [Relay.new] at h
  split at h
  · cases h
  · cases h
    rfl

/-- A node that serves a stage of a path that is covered has a relay for it. -/
theorem exists_relay (law : Capability.Lawful κ) {roster : Roster κ} {name : Text} {capability : κ}
    {stage : Stage} (hcovers : roster.coversThePath = true)
    (hserves : name ∈ roster.withStage stage)
    (hcan : Capability.can capability stage = true) (setup : Setup) (node : Text) (process : Nat) :
    ∃ relay ∈ relays setup name node capability roster process, relay.stage = stage := by
  have hcond : (roster.refusal.isSome || !(roster.withStage stage).contains name) = false := by
    rw [Roster.refusal_of_coversThePath hcovers]
    simpa using hserves
  cases hnew : Relay.new setup name node stage roster process with
  | none =>
    rw [Relay.new, hcond] at hnew
    cases hnew
  | some relay =>
    refine ⟨relay, ?_, Relay.new_stage hnew⟩
    exact List.mem_filterMap.mpr ⟨stage, (law.mem_stages _ _).mpr hcan, hnew⟩

/-- **Placement agreement.** Of one text, every node parses a roster and makes its own declaration
the last word on itself. In those views each index of the matrix falls to exactly one node, the
shares of two receiving nodes differ by one at most, and whoever asks, a pair goes from a node at a
stage to one and the same node, which has a relay for the stage, and is the node itself where it is
executing. -/
theorem placement_agreement (law : Capability.Lawful κ) (r : Roster κ) (own : Text → κ)
    (hdistinct : r.names.Pairwise fun a b => eqIgnoreAsciiCase a b = false)
    (hnames : ∀ name ∈ r.names, Image.refusal name = none) (hcovers : r.coversThePath = true)
    (hown : ∀ node ∈ r.nodes, SameRoles (own node.1) node.2) :
    ∃ parsed : Roster κ, Roster.parse r.text = .ok parsed ∧
      let view := fun name => parsed.declared name (own name)
      (∀ index, ∃! name, name ∈ r.names ∧ (view name).receives name index = true) ∧
      (∀ size, ∀ a ∈ r.withStage .receive, ∀ b ∈ r.withStage .receive,
        (view a).shareOf a size ≤ (view b).shareOf b size + 1) ∧
      ∀ source ∈ r.names, ∀ stage transport contract, ∃ dest ∈ r.names,
        (∀ name ∈ r.names, (view name).target source stage transport contract = some dest) ∧
        (∀ setup node process, ∃ relay ∈
          relays setup dest node (own dest) (view dest) process, relay.stage = stage) ∧
        (Capability.executes (own source) = true → dest = source) := by
  have hne : r.nodes ≠ [] := by
    intro hnil
    have hnone := Roster.coversThePath_iff.mp hcovers .receive
    simp [Roster.withStage, hnil] at hnone
  obtain ⟨parsed, hparsed, halike⟩ := Roster.parse_text law hne hnames
  refine ⟨parsed, hparsed, ?_⟩
  have hlower : (r.names.map (List.map Char.toLower)).Nodup := by
    refine List.pairwise_map.mpr (hdistinct.imp fun {a b} hab heq => ?_)
    rw [eqIgnoreAsciiCase_iff.mpr heq] at hab
    cases hab
  have hnodup : (r.withStage .receive).Nodup :=
    (List.Nodup.of_map _ hlower).sublist (List.Sublist.map _ List.filter_sublist)
  -- A name is found, its case aside, at the node of that very name.
  have hfound : ∀ node ∈ r.nodes, ∀ name ∈ r.names, eqIgnoreAsciiCase node.1 name = true →
      node.1 = name := fun node hnode name hname heq =>
    List.inj_on_of_nodup_map hlower (List.mem_map_of_mem hnode) hname (eqIgnoreAsciiCase_iff.mp heq)
  have hview : ∀ name ∈ r.names, (parsed.declared name (own name)).Alike r := by
    intro name hname
    apply halike.declared hname
    intro node hnode heq
    rw [← hfound node hnode name hname heq]
    exact hown node hnode
  -- What the roster finds of a node's name is what the node declares of itself.
  have hroles : ∀ name ∈ r.names, SameRoles (own name) (r.capability name) := by
    intro name hname
    rw [Roster.capability]
    cases hfind : r.nodes.find? fun node => eqIgnoreAsciiCase node.1 name with
    | none =>
      obtain ⟨node, hnode, rfl⟩ := List.mem_map.mp hname
      have hno := List.find?_eq_none.mp hfind node hnode
      exact absurd (eqIgnoreAsciiCase_self _) hno
    | some node =>
      have hnode := List.mem_of_find?_eq_some hfind
      have heq : eqIgnoreAsciiCase node.1 name = true := by simpa using List.find?_some hfind
      rw [← hfound node hnode name hname heq]
      exact hown node hnode
  dsimp only
  refine ⟨fun index => ?_, fun size a ha b hb => ?_, fun source hsource stage transport contract =>
    ?_⟩
  · obtain ⟨name, ⟨hname, htakes⟩, honly⟩ := Roster.exists_unique_receives hnodup
      (Roster.coversThePath_iff.mp hcovers .receive) index
    refine ⟨name, ⟨hname, ?_⟩, fun other hother => honly other ⟨hother.1, ?_⟩⟩
    · rw [(hview name hname).receives, htakes]
    · rw [← (hview other hother.1).receives, hother.2]
  · have hshare : ∀ name ∈ r.names,
        (parsed.declared name (own name)).shareOf name size = r.shareOf name size := by
      intro name hname
      simp only [Roster.shareOf, (hview name hname).receives]
    rw [hshare a (Roster.withStage_subset_names ha), hshare b (Roster.withStage_subset_names hb)]
    exact Roster.shareOf_le hnodup ha hb size
  · have hsome : (r.target source stage transport contract).isSome = true :=
      Roster.target_isSome (Roster.coversThePath_iff.mp hcovers stage)
    obtain ⟨dest, hdest⟩ := Option.isSome_iff_exists.mp hsome
    -- The node handed to serves the stage: an executing one serves every stage.
    have hserves : dest ∈ r.withStage stage ∧
        (Capability.executes (own source) = true → dest = source) := by
      cases hexec : Capability.executes (r.capability source) with
      | true =>
        rw [Roster.target_of_executes hexec, Option.some.injEq] at hdest
        subst hdest
        obtain ⟨node, hnode, rfl⟩ := List.mem_map.mp hsource
        have hcan := law.can_of_executes (own node.1)
          ((hroles _ hsource).executes.trans hexec) stage
        rw [(hown node hnode).can] at hcan
        exact ⟨Roster.mem_withStage.mpr ⟨node.2, hnode, hcan⟩, fun _ => rfl⟩
      | false =>
        refine ⟨Roster.target_mem hexec hdest, fun h => ?_⟩
        rw [(hroles _ hsource).executes, hexec] at h
        cases h
    have hnamed := Roster.withStage_subset_names hserves.1
    refine ⟨dest, hnamed, fun name hname => ?_, fun setup node process => ?_, hserves.2⟩
    · rw [(hview name hname).target, hdest]
    · obtain ⟨c, hc, hcan⟩ := Roster.mem_withStage.mp hserves.1
      rw [← (hown _ hc).can] at hcan
      have hcovered : (parsed.declared dest (own dest)).coversThePath = true := by
        rw [Roster.coversThePath_iff] at hcovers ⊢
        intro stage
        rw [(hview dest hnamed).withStage]
        exact hcovers stage
      refine exists_relay law hcovered ?_ hcan setup node process
      rw [(hview dest hnamed).withStage]
      exact hserves.1

end XmipEssentials
