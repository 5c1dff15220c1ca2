import XmipEssentials.Passage.Conserved

/-!
# Handoffs overwritten

A handoff's file is called after its sender, the sender's round and its count, and both start over
with the sender's process; the inbox does not. Where a node is started again while something it
handed on still waits, its next process comes to the same rounds and counts, and a rename replaces
what waits. Two entries of one name do so to one another with no process started again.

* `Net.intact_of_lives` — no delivery replaces a handoff that waits, over a cluster's whole life, as
  long as the nodes are distinctly named and no node is started again while something it handed on
  waits.
* `Net.overwritten_pair`, `Net.overwritten_twins` — without the one and without the other one does.
-/

namespace XmipEssentials

open Text Conc Files Inbox

namespace Net

/-- No delivery was onto a handoff that waits, and of each inbox what was given to it is what was
claimed and what waits. -/
structure Intact (s : Net) : Prop where
  vacant : ∀ e ∈ s.log, ∀ g stood, e.event = .given g stood → stood = false
  counted : ∀ d, (s.given d : Multiset Text) = (s.claimed d : Multiset Text) + (waits s.store d).val

private theorem intact_of_good {w : Ways} {s : Net} (hgood : Good w s) : Intact s where
  vacant e he g stood hevent := by
    have hsound := hgood.sound e he
    rw [hevent] at hsound
    exact hsound.2.2
  counted := hgood.counted

/-- **No handoff is overwritten over a cluster's whole life**, calls on the store failing or not and
Subscriptions holding pairs or not, where the nodes are distinctly named and none is started again
while something that its processes handed on still waits to be claimed. -/
theorem intact_of_lives {κ S : Type} [Capability κ] [Snapshot S] (E : Estate) (roster : Roster κ)
    (setup : Nat → roster.Seat → Setup) (node : Nat → Fin roster.nodes.length → Text)
    (process : Nat → Fin roster.nodes.length → Nat) (hdistinct : roster.names.Nodup)
    (hnames : ∀ name ∈ roster.names, Image.refusal name = none)
    (htransports : ∀ life seat, ∀ t ∈ (setup life seat).transports, Handoff.Token t)
    {store : Store Inbox UInt8} (hclear : ∀ d, waits store d = ∅)
    {c : Config roster.Seat RelayOp (Option (S × Relay κ)) Net}
    (hlives : Lives roster.called (fun s name => ¬s.Leaves name) ⟨True, True, roster.target⟩ E
      (relaysOfLives roster setup node process)
      (begun E (relaysOfLives roster setup node process 0) store) c) : Intact c.shared := by
  have hholds := holds_roster hdistinct hnames htransports hclear hlives
  exact intact_of_good hholds.inv

/-- A delivery onto a file of its very name is onto a handoff that waits. -/
theorem not_intact_delivered {s : Net} {i d : Inbox} {h : Handoff} {sequence : Nat}
    {dir : Dir UInt8} (hs : s.store d = some (filed dir (h.fileName sequence) h.encode)) :
    ¬(s.delivered i d h sequence).Intact := by
  intro hintact
  have hstood := hintact.vacant _ List.mem_cons_self _ _ rfl
  have hmade : s.made d = filed dir (h.fileName sequence) h.encode := congrArg (·.getD ∅) hs
  rw [hmade, lookup_filed] at hstood
  cases hstood

/-! ### A node started again -/

section Restarted

/-- The two nodes' life, each started again where `calm` lets it be. -/
abbrev PairLives (calm : Net → Text → Prop) :
    Config pairOf.Seat RelayOp (Option (Records × Relay Roles)) Net →
      Config pairOf.Seat RelayOp (Option (Records × Relay Roles)) Net → Prop :=
  Lives pairOf.called calm ⟨True, True, pairOf.target⟩ lenient pairMade

/-- The receiving node started again, where it may be: its new process comes to deliver what its
first one made first. -/
theorem again_pair (calm : Net → Text → Prop)
    {c : Config pairOf.Seat RelayOp (Option (Records × Relay Roles)) Net}
    (hcalm : calm c.shared ['a']) :
    ∃ c', PairLives calm c c' ∧
      c'.shared = (c.shared.again ['a']).delivered front back repeated 1 := by
  have hagain : PairLives calm c _ := .single (.restart frontSeat.1 hcalm)
  obtain ⟨c', hsteps, hshared, -⟩ := steps_of_passes lenient pairOf.called frontSeat
    (c := ⟨c.shared.again ['a'], fun i => if i.1 = frontSeat.1 then
      started lenient (pairMade (c.shared.lives ['a'] + 1) i) else c.prog i⟩)
    (passes_front ⟨True, True, pairOf.target⟩ (c.shared.lives ['a'] + 1) _)
  exact ⟨c', hagain.trans (lives_of_steps hsteps), hshared⟩

/-- With its first handoff claimed nothing of the receiving node's waits. -/
theorem not_leaves_pairTaken : ¬pairTaken.Leaves ['a'] := by
  rintro ⟨e, -, g, -, -, -, hwaits⟩
  have hmine : extension repeatedMine ≠ some ready :=
    (extension_claimed 1 (Handoff.extension_ready repeated 1)).1
  have hfirst (d : Inbox) (name : Text)
      (hname : name ∈ waits ((start bare).delivered front back repeated 1).store d) :
      d = back ∧ name = repeatedName := by
    rw [mem_waits] at hname
    unfold lies Store.file at hname
    by_cases hd : d = back
    · subst hd
      rw [store_delivered, Option.bind_some] at hname
      split at hname
      · have hkey := AList.lookup_isSome.mp hname
        rw [AList.mem_keys, show (start bare).made back = ∅ from rfl, keys_filed] at hkey
        exact ⟨rfl, List.mem_singleton.mp hkey⟩
      · cases hname
    · have hnone : ((start bare).delivered front back repeated 1).store d = none :=
        Store.set_of_ne (s := bare) hd
      rw [hnone] at hname
      split at hname <;> cases hname
  have hstore : ((start bare).delivered front back repeated 1).store back =
      some (filed ∅ (repeated.fileName 1) repeated.encode) := store_delivered _ _ _ _ _
  unfold pairTaken at hwaits
  rw [waits_drained _ hstore hmine] at hwaits
  split at hwaits
  · next hback =>
    obtain ⟨hne, hat⟩ := Finset.mem_erase.mp hwaits
    exact hne (hfirst back _ hat).2
  · next hback => exact hback (hfirst _ _ hwaits).1

/-- A handoff delivered, claimed and read back, its sender started again, and the same one delivered
anew by its second process. -/
theorem intact_pair : ∃ c : Config pairOf.Seat RelayOp (Option (Records × Relay Roles)) Net,
    PairLives (fun s name => ¬s.Leaves name) pairBegun c ∧
      (∃ e ∈ c.shared.log, e.life = 1 ∧ ∃ stood, e.event = .given ⟨back, repeated, 1⟩ stood) ∧
      (c.shared.given back).length = 2 ∧ Intact c.shared := by
  obtain ⟨c, hsteps, hshared⟩ := steps_pairTaken ⟨True, True, pairOf.target⟩
  have hcalm : ¬c.shared.Leaves ['a'] := hshared ▸ not_leaves_pairTaken
  obtain ⟨c', hlives, hshared'⟩ := again_pair (fun s name => ¬s.Leaves name) hcalm
  have hall : PairLives (fun s name => ¬s.Leaves name) pairBegun c' :=
    (lives_of_steps hsteps).trans hlives
  have hintact := intact_of_lives lenient pairOf (fun _ _ => single) (fun _ => pairOf.called)
    (fun life entry => 2 * life + entry) (by decide) (by decide)
    (fun _ _ t ht => List.mem_singleton.mp ht ▸ token_single) waits_bare hall
  rw [hshared] at hshared'
  refine ⟨c', hall, ?_, ?_, hintact⟩
  · rw [hshared']
    exact ⟨_, List.mem_cons_self, rfl, _, rfl⟩
  · rw [hshared']
    rfl

/-- **A handoff is overwritten** where its sender is started again before it is claimed. -/
theorem overwritten_pair : ∃ c : Config pairOf.Seat RelayOp (Option (Records × Relay Roles)) Net,
    PairLives (fun _ _ => True) pairBegun c ∧ ¬Intact c.shared := by
  obtain ⟨c, hsteps, hshared, -⟩ := steps_of_passes (c := pairBegun) lenient pairOf.called frontSeat
    (passes_front ⟨True, True, pairOf.target⟩ 0 (start bare))
  obtain ⟨c', hlives, hshared'⟩ := again_pair (fun _ _ => True) (c := c) trivial
  -- The file the first process left is still there.
  refine ⟨c', (lives_of_steps hsteps).trans hlives, ?_⟩
  rw [hshared', hshared]
  exact not_intact_delivered (store_delivered (start bare) front back repeated 1)

end Restarted

/-! ### Two nodes of one name -/

section Twins

/-- Two receiving nodes called the same, and one that processes and sends. -/
def twinsOf : Roster Roles :=
  ⟨[(['a'], { Roles.nothing with receiving := true }),
    (['a'], { Roles.nothing with receiving := true }),
    (['b'], { Roles.nothing with processing := true, sending := true })]⟩

/-- Their relays. -/
def twinsMade : twinsOf.Seat → Option (Relay Roles) :=
  relaysOf twinsOf (fun _ => single) twinsOf.called fun entry => entry

/-- The receiving relay of either. -/
def twinSeat (second : Bool) : twinsOf.Seat :=
  (if second then ⟨1, by decide⟩ else ⟨0, by decide⟩, .receive)

/-- Either comes to deliver the same handoff, from wherever the cluster stands. -/
theorem passes_twin (w : Ways) (second : Bool) (s : Net) :
    (started lenient (twinsMade (twinSeat second)) :
      Prog RelayOp (Option (Records × Relay Roles))).Passes (acts w) front s
        (s.delivered front back repeated 1) := by
  have htarget : twinsOf.target ['a'] .process ['t'] .bytes = some ['b'] := by decide
  obtain ⟨r, hr, hplain, hfirst, hzero⟩ : ∃ r : Relay Roles,
      twinsMade (twinSeat second) = some r ∧ Plain r (['t'], .bytes) ['b'] ∧
      r.handoff ['t'] .bytes (r.round + 1) (Contract.payload lenient.enc .bytes) = repeated ∧
      r.sequence = 0 := by
    cases second with
    | false => exact ⟨_, rfl, ⟨rfl, rfl, rfl, rfl, rfl, htarget⟩, rfl, rfl⟩
    | true => exact ⟨_, rfl, ⟨rfl, rfl, rfl, rfl, rfl, htarget⟩, rfl, rfl⟩
  have htick := passes_tick (E := lenient) (S := Records) (w := w) (i := front) (s := s) hplain
  rw [hfirst, hzero, Nat.zero_add] at htick
  exact passes_started hr htick

/-- **Two nodes of one name** deliver onto one another, and none is started again. -/
theorem overwritten_twins : twinsOf.coversThePath = true ∧
    ∃ c : Config twinsOf.Seat RelayOp (Option (Records × Relay Roles)) Net,
      Steps (calls twinsOf.called ⟨True, True, twinsOf.target⟩) (anew lenient)
        (begun lenient twinsMade bare) c ∧ ¬Intact c.shared := by
  refine ⟨by decide, ?_⟩
  set w : Ways := ⟨True, True, twinsOf.target⟩
  obtain ⟨c, hsteps, hshared, hstand⟩ := steps_of_passes (c := begun lenient twinsMade bare) lenient
    twinsOf.called (twinSeat false) (passes_twin w false (start bare))
  have hsecond : c.prog (twinSeat true) = started lenient (twinsMade (twinSeat true)) :=
    hstand (twinSeat true) (by decide)
  have hpasses := passes_twin w true c.shared
  rw [← hsecond] at hpasses
  obtain ⟨c', hsteps', hshared', -⟩ :=
    steps_of_passes lenient twinsOf.called (twinSeat true) hpasses
  refine ⟨c', hsteps.trans hsteps', ?_⟩
  rw [hshared', hshared]
  exact not_intact_delivered (store_delivered (start bare) front back repeated 1)

end Twins

end Net

end XmipEssentials
