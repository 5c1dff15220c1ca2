import XmipEssentials.Passage.Alone
import XmipEssentials.Records
import XmipEssentials.Roles

/-!
# Relay conservation

Every handoff given over is in one place: it waits in the inbox of its target, or its target claimed
it, once. That holds between any two calls, whatever order the relays make them in, and where a
node's process is killed and started again too, as long as nothing it handed on waits at that moment
(`Net.holds_lives`). With no process started again nothing is in the way of it (`Net.conserved`).

A cluster starts a process for every entry of its roster, and a process has a relay for each stage
it serves (`Roster.Seat`): two entries of one name are two processes. Where the names are distinct
the relays are told apart by the inboxes they drain, which is how the argument goes
(`Net.inboxed_lives`).
-/

namespace XmipEssentials

open Text Conc Files Inbox

/-! ### The relays of a roster -/

/-- A relay of a cluster: of the process of which of the roster's entries, at which stage. -/
abbrev Roster.Seat {κ : Type} (roster : Roster κ) : Type := Fin roster.nodes.length × Stage

/-- What the node of an entry is called. -/
def Roster.called {κ : Type} (roster : Roster κ) (entry : Fin roster.nodes.length) : Text :=
  (roster.nodes.get entry).1

/-- Distinctly named entries are called apart. -/
theorem Roster.called_injective {κ : Type} {roster : Roster κ} (h : roster.names.Nodup) :
    Function.Injective roster.called := by
  intro entry entry' hcalled
  have hsame := List.inj_on_of_nodup_map h (List.get_mem roster.nodes entry)
    (List.get_mem roster.nodes entry') hcalled
  exact (List.nodup_iff_injective_get.mp (List.Nodup.of_map _ h)) hsame

namespace Net

variable {κ S : Type} [Capability κ] [Snapshot S]

/-- The relays of a roster's entries, one to each stage a node serves. -/
def relaysOf (roster : Roster κ) (setup : roster.Seat → Setup)
    (node : Fin roster.nodes.length → Text) (process : Fin roster.nodes.length → Nat)
    (seat : roster.Seat) : Option (Relay κ) :=
  Relay.new (setup seat) (roster.called seat.1) (node seat.1) seat.2 roster (process seat.1)

/-! ### Runs -/

section Runs

variable {ν : Type}

/-- A relay's round, and what it leaves. -/
def running (E : Estate) (r : Relay κ) : Prog RelayOp (Option (S × Relay κ)) :=
  (r.tick E : Prog RelayOp (S × Relay κ)) >>= fun ticked => Prog.pure (some ticked)

/-- What runs where a node has a relay at a stage, or has none. -/
def started (E : Estate) (made : Option (Relay κ)) : Prog RelayOp (Option (S × Relay κ)) :=
  made.elim (Prog.pure none) (running E)

/-- Round after round. -/
def anew (E : Estate) (_ : ν × Stage) (ended : Option (S × Relay κ)) :
    Option (Prog RelayOp (Option (S × Relay κ))) :=
  ended.map fun ticked => running E ticked.2

/-- Nothing seen yet. -/
def start (store : Store Inbox UInt8) : Net := ⟨store, fun _ => 0, []⟩

/-- Every relay before its first round. -/
def begun (E : Estate) (made : ν × Stage → Option (Relay κ)) (store : Store Inbox UInt8) :
    Config (ν × Stage) RelayOp (Option (S × Relay κ)) Net :=
  ⟨start store, fun i => started E (made i)⟩

variable [DecidableEq ν]

/-- A call of a relay, or the process of a node killed and started again, where `calm` lets it be:
`called` says what the nodes are called, and `made` which relays each of a node's processes has. -/
inductive Life (called : ν → Text) (calm : Net → Text → Prop) (w : Ways) (E : Estate)
    (made : Nat → ν × Stage → Option (Relay κ)) :
    Config (ν × Stage) RelayOp (Option (S × Relay κ)) Net →
      Config (ν × Stage) RelayOp (Option (S × Relay κ)) Net → Prop where
  | call {c c'} (step : Step (calls called w) (anew E) c c') : Life called calm w E made c c'
  | restart {c} (n : ν) (hcalm : calm c.shared (called n)) : Life called calm w E made c
      ⟨c.shared.again (called n), fun i =>
        if i.1 = n then started E (made (c.shared.lives (called n) + 1) i) else c.prog i⟩

/-- A cluster's whole life. -/
abbrev Lives (called : ν → Text) (calm : Net → Text → Prop) (w : Ways) (E : Estate)
    (made : Nat → ν × Stage → Option (Relay κ)) :
    Config (ν × Stage) RelayOp (Option (S × Relay κ)) Net →
      Config (ν × Stage) RelayOp (Option (S × Relay κ)) Net → Prop :=
  Relation.ReflTransGen (Life called calm w E made)

/-- A run in which no process is started again is a cluster's life. -/
theorem lives_of_steps {called : ν → Text} {calm : Net → Text → Prop} {w : Ways} {E : Estate}
    {made : Nat → ν × Stage → Option (Relay κ)}
    {c c' : Config (ν × Stage) RelayOp (Option (S × Relay κ)) Net}
    (h : Steps (calls called w) (anew E) c c') : Lives called calm w E made c c' := by
  induction h with
  | refl => exact .refl
  | tail _ step ih => exact ih.tail (.call step)

end Runs

/-! ### Relays told apart by their inboxes -/

section Under

variable {ν : Type} [DecidableEq ν] {called : ν → Text} {calm : Net → Text → Prop} {w : Ways}
  {E : Estate} {made : Nat → ν × Stage → Option (Relay κ)}
  {c c' : Config (ν × Stage) RelayOp (Option (S × Relay κ)) Net}

omit [DecidableEq ν] in
/-- Nodes called apart have their relays drain an inbox each. -/
theorem inboxOf_injective (hcalled : Function.Injective called) :
    Function.Injective (inboxOf called) := by
  rintro ⟨n, stage⟩ ⟨n', stage'⟩ hsame
  obtain ⟨hname, hstage⟩ := Prod.mk.inj hsame
  exact Prod.ext (hcalled hname) hstage

/-- The relay that drains an inbox, where there is one. -/
noncomputable def byInbox (called : ν → Text) (made : Nat → ν × Stage → Option (Relay κ))
    (life : Nat) (d : Inbox) : Option (Relay κ) :=
  (Function.partialInv (inboxOf called) d).bind (made life)

omit [Capability κ] [DecidableEq ν] in
/-- The relay of an inbox is one of those made. -/
theorem made_of_byInbox (hcalled : Function.Injective called) {life : Nat} {d : Inbox} {r : Relay κ}
    (h : byInbox called made life d = some r) : ∃ i, inboxOf called i = d ∧
    made life i = some r := by
  obtain ⟨i, hat, hmade⟩ := Option.bind_eq_some_iff.mp h
  exact ⟨i, ((inboxOf_injective hcalled).isPartialInv i d).mp hat, hmade⟩

/-- The same cluster, its relays told apart by the inboxes they drain. -/
noncomputable def inboxed (called : ν → Text)
    (c : Config (ν × Stage) RelayOp (Option (S × Relay κ)) Net) :
    Config Inbox RelayOp (Option (S × Relay κ)) Net :=
  c.under (inboxOf called) (Prog.pure none)

omit [DecidableEq ν] in
private theorem inboxed_begun (store : Store Inbox UInt8) :
    inboxed called (begun E (made 0) store : Config _ _ (Option (S × Relay κ)) _) =
      begun E (byInbox called made 0) store := by
  refine congrArg (Config.mk (start store)) (funext fun d => ?_)
  change (Function.partialInv (inboxOf called) d).elim _ _ =
    started E ((Function.partialInv (inboxOf called) d).bind (made 0))
  cases Function.partialInv (inboxOf called) d with
  | none => rfl
  | some i => rfl

/-- **One step** of distinctly called nodes is one of the relays told apart by their inboxes. -/
theorem inboxed_life (hcalled : Function.Injective called) (h : Life called calm w E made c c') :
    Life id calm w E (byInbox called made) (inboxed called c) (inboxed called c') := by
  have hinj := inboxOf_injective hcalled
  -- Threads told apart by name and stage are the seats themselves, as names are distinct.
  cases h with
  | call step => exact .call (step.under hinj (fun _ _ _ _ _ _ did => did) (fun _ _ => rfl) _)
  -- A node started again begins its own seats anew, and no other's.
  | restart n hcalm =>
    have hagain : Life id calm w E (byInbox called made) (inboxed called c) _ :=
      .restart (called n) hcalm
    refine (congrArg (Life id calm w E _ _) (congrArg (Config.mk _) (funext fun d => ?_))).mp hagain
    change (if d.1 = called n then started E (byInbox called made _ d) else
      (Function.partialInv (inboxOf called) d).elim _ c.prog) =
        (Function.partialInv (inboxOf called) d).elim _ _
    unfold byInbox
    cases hat : Function.partialInv (inboxOf called) d with
    | none => exact ite_self _
    | some i =>
      have hd : d.1 = called i.1 := congrArg Prod.fst ((hinj.isPartialInv i d).mp hat).symm
      by_cases hn : i.1 = n
      · rw [if_pos (hd.trans (congrArg called hn))]
        exact (if_pos hn).symm
      · rw [if_neg fun hsame => hn (hcalled (hd.symm.trans hsame))]
        exact (if_neg hn).symm

/-- **A cluster's whole life**, its relays told apart by their inboxes. -/
theorem inboxed_lives (hcalled : Function.Injective called)
    (h : Lives called calm w E made c c') :
    Lives id calm w E (byInbox called made) (inboxed called c) (inboxed called c') := by
  induction h with
  | refl => exact .refl
  | tail _ hlife ih => exact ih.tail (inboxed_life hcalled hlife)

omit [Capability κ] [Snapshot S] [DecidableEq ν] in
/-- A relay at its end is at it told apart by its inbox. -/
theorem inboxed_ended (hcalled : Function.Injective called) {i : ν × Stage}
    {ended : Option (S × Relay κ)} (h : c.prog i = .pure ended) :
    (inboxed called c).prog (inboxOf called i) = .pure ended :=
  (c.under_prog (inboxOf_injective hcalled) _ i).trans h

end Under

/-! ### What holds throughout -/

variable {w : Ways} {s : Net} {i : Inbox} {E : Estate} {made : Nat → Inbox → Option (Relay κ)}

/-- A node started again that left nothing. -/
theorem good_again {name : Text} (h : Good w s) (hleft : ¬s.Leaves name) :
    Good w (s.again name) where
  counted := h.counted
  content d file c hc := by
    -- What waits was given by a life of a node that still is as it was.
    obtain ⟨g, ⟨e, he, hlife, stood, hevent⟩, rfl, rfl, hcontent⟩ := h.content d file c hc
    -- Had the node that is started again given it, something it handed on would still wait.
    have hne : e.place.1 ≠ name := by
      intro hname
      refine hleft ⟨e, he, g, stood, hevent, hname, mem_waits.mpr ?_⟩
      rw [show lies s.store g.dest g.name = some c from hc]
      rfl
    exact ⟨g, ⟨e, he, hlife.trans (Function.update_of_ne hne ..).symm, stood, hevent⟩, rfl, rfl,
      hcontent⟩
  sound := h.sound
  lived e he := by
    apply (h.lived e he).trans
    change s.lives e.place.1 ≤ Function.update s.lives name (s.lives name + 1) e.place.1
    by_cases hname : e.place.1 = name
    · rw [hname, Function.update_self]
      exact Nat.le_succ _
    · rw [Function.update_of_ne hname]
  apart := h.apart
  decoded := h.decoded
  ordered := h.ordered
  told := h.told

/-- A process that starts has done nothing. -/
theorem own_again_self (h : Good w s) (i : Inbox) : (s.again i.1).own i = [] := by
  have hlife : (s.again i.1).lives i.1 = s.lives i.1 + 1 := Function.update_self ..
  rw [own, hlife]
  refine List.map_eq_nil_iff.mpr (List.filter_eq_nil_iff.mpr fun e he hat => ?_)
  obtain ⟨rfl, hat⟩ := of_decide_eq_true hat
  exact absurd (h.lived e he) (by omega)

/-- What a relay has come to between two rounds. -/
def Ended (w : Ways) (i : Inbox) (ended : Option (S × Relay κ)) (s : Net) : Prop :=
  ∀ ticked, ended = some ticked → Accounts w i ticked.2 (s.own i)

omit [Snapshot S] in
private theorem stable_ended (ended : Option (S × Relay κ)) : Stable w i (Ended w i ended) :=
  stable_of_own fun l => ∀ ticked, ended = some ticked → Accounts w i ticked.2 l

private theorem safe_running {r : Relay κ} (h : Accounts w i r (s.own i)) (hgood : Good w s) :
    (outline w).Safe i (Ended w i) (running E r : Prog RelayOp (Option (S × Relay κ))) s := by
  apply (safe_tick E h hgood rfl).bind hgood
  intro ticked t _ hticked
  apply safe_pure (stable_ended _)
  intro ticked' hsome
  obtain rfl := Option.some.inj hsome
  exact hticked

private theorem safe_started {fresh : Option (Relay κ)}
    (h : ∀ r, fresh = some r → Accounts w i r (s.own i)) (hgood : Good w s) :
    (outline w).Safe i (Ended w i) (started E fresh : Prog RelayOp (Option (S × Relay κ))) s := by
  cases fresh with
  | none => exact safe_pure (stable_ended _) fun _ hsome => by cases hsome
  | some r => exact safe_running (h r rfl) hgood

variable {c c' : Config Inbox RelayOp (Option (S × Relay κ)) Net}

private theorem safe_again (i : Inbox) (ended : Option (S × Relay κ))
    (p : Prog RelayOp (Option (S × Relay κ))) (s : Net) (hgood : (outline w).inv s)
    (hended : Ended w i ended s) (h : anew E i ended = some p) :
    (outline w).Safe i (Ended w i) p s := by
  cases ended with
  | none => cases h
  | some ticked =>
    obtain rfl := Option.some.inj h
    exact safe_running (hended ticked rfl) hgood

/-- **One step** of a cluster's life. -/
theorem holds_life (hmade : ∀ life i r, made life i = some r → Accounts w i r [])
    (h : (outline w).Holds (Ended w) c)
    (hlife : Life id (fun s name => ¬s.Leaves name) w E made c c') :
    (outline w).Holds (Ended w) c' := by
  have hgood : Good w c.shared := h.inv
  -- A call keeps what holds, and so does a restart that leaves nothing waiting.
  cases hlife with
  | call step => exact h.step safe_again step
  | restart name hleft =>
    have hgood' := good_again hgood hleft
    refine ⟨hgood', fun i => ?_⟩
    dsimp only
    -- The node's own seats begin again; for all others the restart is another's step.
    by_cases hname : i.1 = name
    · subst hname
      rw [if_pos rfl]
      refine safe_started (fun r hr => ?_) hgood'
      rw [id, own_again_self hgood i]
      exact hmade _ i r hr
    · rw [if_neg hname]
      exact (h.safe i).rely (.single ⟨hgood, hgood', .inr ⟨name, Ne.symm hname, rfl⟩⟩)

private theorem good_start {store : Store Inbox UInt8} (hclear : ∀ d, waits store d = ∅) :
    Good w (start store) where
  counted d := by
    change (([] : List Text) : Multiset Text) = (([] : List Text) : Multiset Text) +
      (waits store d).val
    rw [hclear]
    rfl
  content d name c hc := by
    -- Nothing waits, so nothing has to be accounted for.
    have hwaits : name ∈ waits store d :=
      mem_waits.mpr (by rw [show lies store d name = some c from hc]; rfl)
    rw [hclear] at hwaits
    exact absurd hwaits (Finset.notMem_empty name)
  sound _ he := absurd he List.not_mem_nil
  lived _ he := absurd he List.not_mem_nil
  apart := List.nodup_nil
  decoded _ _ he := absurd he List.not_mem_nil
  ordered _ _ := ⟨List.suffix_rfl, List.suffix_rfl⟩
  told _ _ _ := trivial

/-- **A cluster's whole life**, from inboxes in which nothing waits, no node started again while
something it handed on waits. -/
theorem holds_lives (hmade : ∀ life i r, made life i = some r → Accounts w i r [])
    {store : Store Inbox UInt8} (hclear : ∀ d, waits store d = ∅)
    (h : Lives id (fun s name => ¬s.Leaves name) w E made (begun E (made 0) store) c) :
    (outline w).Holds (Ended w) c := by
  induction h with
  | refl => exact ⟨good_start hclear, fun i => safe_started (hmade 0 i) (good_start hclear)⟩
  | tail _ hlife ih => exact holds_life hmade ih hlife

/-! ### Relays of a roster -/

/-- A name no door refuses is one word. -/
theorem word_of_refusal {name : Text} (h : Image.refusal name = none) : Handoff.Word name :=
  ⟨Image.not_mem h (by decide) (by decide), Image.not_mem h (by decide) (by decide)⟩

/-- A relay as it is made: nothing is seen of it, and it has counted nothing. -/
theorem accounts_new {fails resumes : Prop} {roster : Roster κ} {setup : Setup} {node : Text}
    {process : Nat} {r : Relay κ} (hnew : Relay.new setup i.1 node i.2 roster process = some r)
    (hword : Handoff.Word i.1) (htokens : ∀ t ∈ setup.transports, Handoff.Token t) :
    Accounts ⟨fails, resumes, roster.target⟩ i r [] := by
  unfold Relay.new at hnew
  split at hnew
  · cases hnew
  · obtain rfl := Option.some.inj hnew
    refine ⟨⟨rfl, hword, fun t ht => ?_, rfl, fun _ hg => absurd hg List.not_mem_nil, fun _ => rfl,
      rfl⟩, rfl, fun _ => rfl⟩
    dsimp only at ht
    split at ht
    · exact absurd ht List.not_mem_nil
    · exact htokens t ht

/-! ### Relay conservation -/

/-- A handoff waits in the inbox of its target, and no one claimed it. -/
def Waiting (s : Net) (g : Given) : Prop :=
  lies s.store g.dest g.name = some g.handoff.encode ∧ g.name ∉ s.claimed g.dest

/-- A handoff waits no more, and its target claimed it, once. -/
def Taken (s : Net) (g : Given) : Prop :=
  lies s.store g.dest g.name = none ∧ (s.claimed g.dest).count g.name = 1

instance (s : Net) (g : Given) : Decidable (s.Waiting g) := inferInstanceAs (Decidable (_ ∧ _))

instance (s : Net) (g : Given) : Decidable (s.Taken g) := inferInstanceAs (Decidable (_ ∧ _))

/-- **No handoff is lost, and none is handled twice.** -/
structure Conserved (w : Ways) (s : Net) : Prop where
  /-- Each handoff given over is in exactly one place. -/
  placed : ∀ g, s.Gives g → Xor (s.Waiting g) (s.Taken g)
  /-- It went to its target's inbox for its stage. -/
  bound : ∀ e ∈ s.log, ∀ g stood, e.event = .given g stood → Bound w e.place g.handoff g.dest
  /-- No two of an inbox have one name, and nothing else waits or is claimed. -/
  apart : ∀ d, (s.given d).Nodup
  waiting : ∀ d name, name ∈ waits s.store d → name ∈ s.given d
  claimed : ∀ e ∈ s.log, ∀ d name, e.event = .claimed d name → e.place = d ∧ name ∈ s.given d
  /-- What is claimed reads back as what was given over; each is judged after that, in its turn. -/
  decoded : ∀ e ∈ s.log, ∀ name found, e.event = .decoded name found →
    ∃ g, s.Gives g ∧ g.dest = e.place ∧ g.name = name ∧ found = some g.handoff
  ordered : ∀ i, Event.Ordered (s.own i)
  /-- Those a relay gave over to an inbox are those of them that wait and those claimed. -/
  linked : ∀ i d, (Event.gifts (s.own i)).countP (·.dest = d) =
    (Event.gifts (s.own i)).countP (fun g => g.dest = d ∧ s.Waiting g) +
      (Event.gifts (s.own i)).countP (fun g => g.dest = d ∧ s.Taken g)
  /-- Nothing is handed on for a pair whose verdict is not that it delivered. -/
  told : ∀ i, Event.Accounted (s.own i)

private theorem key_of_event {e : Entry} {g : Given} {stood : Bool} (h : e.event = .given g stood) :
    e.key = some (e.place, e.life, g.sequence) := by
  rw [Entry.key, h]

section Conserved

variable (hgood : Good w s) (hlives : ∀ name, s.lives name = 0)

include hgood

private theorem given_of_claimed {d : Inbox} {name : Text} (h : name ∈ s.claimed d) :
    name ∈ s.given d := by
  have hmem : name ∈ (s.given d : Multiset Text) := by
    rw [hgood.counted]
    exact Multiset.mem_add.mpr (.inl h)
  exact hmem

private theorem given_of_waits {d : Inbox} {name : Text} (h : name ∈ waits s.store d) :
    name ∈ s.given d := by
  have hmem : name ∈ (s.given d : Multiset Text) := by
    rw [hgood.counted]
    exact Multiset.mem_add.mpr (.inr h)
  exact hmem

include hlives

/-- With no process started again, what is given to one inbox under one name is of one relay and one
count. -/
theorem key_of_name {e e' : Entry} {g g' : Given} {stood stood' : Bool} (he : e ∈ s.log)
    (he' : e' ∈ s.log) (hevent : e.event = .given g stood) (hevent' : e'.event = .given g' stood')
    (hdest : g.dest = g'.dest) (hname : g.name = g'.name) : e.key = e'.key := by
  have hsound := hgood.sound e he
  have hsound' := hgood.sound e' he'
  rw [hevent] at hsound
  rw [hevent'] at hsound'
  obtain ⟨hplace, hsequence, -⟩ :=
    fileName_at hsound.1 hsound'.1 hsound.2.1.next (hdest ▸ hsound'.2.1.next)
    (.inr rfl) (.inr rfl) hname
  have hlife : e.life = e'.life := by
    have hold := hgood.lived e he
    have hold' := hgood.lived e' he'
    rw [hlives] at hold hold'
    omega
  rw [key_of_event hevent, key_of_event hevent', hplace, hlife, hsequence]

/-- And it is one handoff. -/
theorem gives_unique {g g' : Given} (h : s.Gives g) (h' : s.Gives g') (hdest : g.dest = g'.dest)
    (hname : g.name = g'.name) : g = g' := by
  obtain ⟨e, he, stood, hevent⟩ := h
  obtain ⟨e', he', stood', hevent'⟩ := h'
  have hkey := key_of_name hgood hlives he he' hevent hevent' hdest hname
  have hsame : e = e' := by
    by_contra hne
    have hapart := List.pairwise_filterMap.mp hgood.apart
    have hsymm : Std.Symm fun e e' : Entry => ∀ key, e.key = some key → ∀ key', e'.key = some key' →
      key ≠ key' :=
      ⟨fun _ _ hkeys key hk key' hk' => (hkeys key' hk' key hk).symm⟩
    exact hapart.forall he he' hne _ (key_of_event hevent) _ (hkey ▸ key_of_event hevent) rfl
  subst hsame
  rw [hevent] at hevent'
  exact (Event.given.inj hevent').1

/-- No two handoffs of an inbox have one name. -/
theorem nodup_given (d : Inbox) : (s.given d).Nodup := by
  have hapart := List.pairwise_filterMap.mp hgood.apart
  refine List.pairwise_filterMap.mpr
    (hapart.imp_of_mem fun {e e'} he he' hkeys name hname name' hname' heq => ?_)
  subst heq
  obtain ⟨g, stood, hevent, hdest, hname⟩ := gift_eq_some.mp hname
  obtain ⟨g', stood', hevent', hdest', hname'⟩ := gift_eq_some.mp hname'
  have hkey := key_of_name hgood hlives he he' hevent hevent' (hdest.trans hdest'.symm)
    (hname.trans hname'.symm)
  exact hkeys _ (key_of_event hevent) _ (hkey ▸ key_of_event hevent) rfl

omit hgood hlives in
private theorem count_coe (l : List Text) (name : Text) :
    Multiset.count name (l : Multiset Text) = l.count name := by
  rw [Multiset.coe_count]
  exact List.countP_congr fun other _ => (@beq_iff_eq Text instBEqOfDecidableEq _ other name).trans
    beq_iff_eq.symm

/-- **Each handoff given over is in exactly one place.** -/
theorem placed_of_good {g : Given} (h : s.Gives g) : Xor (s.Waiting g) (s.Taken g) := by
  -- Among what was given the name stands once, so it waits or was claimed, and not both.
  have hmem : g.name ∈ s.given g.dest := mem_given.mpr ⟨g, h, rfl, rfl⟩
  have hcount := congrArg (Multiset.count g.name) (hgood.counted g.dest)
  have hone : Multiset.count g.name (s.given g.dest : Multiset Text) = 1 :=
    Multiset.count_eq_one_of_mem (Multiset.coe_nodup.mpr (nodup_given hgood hlives g.dest)) hmem
  rw [Multiset.count_add, hone, count_coe] at hcount
  by_cases hwaits : g.name ∈ waits s.store g.dest
  · rw [Multiset.count_eq_one_of_mem (waits s.store g.dest).nodup hwaits] at hcount
    have hnone : g.name ∉ s.claimed g.dest := List.count_eq_zero.mp (by omega)
    obtain ⟨c, hc⟩ := Option.isSome_iff_exists.mp (mem_waits.mp hwaits)
    obtain ⟨g', hrecent, hdest, hname, hcontent⟩ := hgood.content _ _ c hc
    obtain rfl := gives_unique hgood hlives hrecent.gives h hdest hname
    refine .inl ⟨⟨hc.trans (congrArg some hcontent.symm), hnone⟩, fun htaken => ?_⟩
    rw [htaken.1] at hc
    cases hc
  · have hzero : Multiset.count g.name (waits s.store g.dest).val = 0 :=
      Multiset.count_eq_zero.mpr hwaits
    have hlies : lies s.store g.dest g.name = none := by
      by_contra hsome
      exact hwaits (mem_waits.mpr (Option.isSome_iff_ne_none.mpr hsome))
    refine .inr ⟨⟨hlies, by omega⟩, fun hwaiting => ?_⟩
    have hfile := hwaiting.1
    rw [hlies] at hfile
    cases hfile

omit hgood hlives in
/-- What is counted of one kind is counted of the one or the other of two that exclude each
other. -/
theorem countP_xor {α : Type} (l : List α) (P Q R : α → Prop) [DecidablePred P] [DecidablePred Q]
    [DecidablePred R] (h : ∀ a ∈ l, Xor (Q a) (R a)) :
    l.countP P = l.countP (fun a => P a ∧ Q a) + l.countP (fun a => P a ∧ R a) := by
  induction l with
  | nil => rfl
  | cons a l ih =>
    obtain ⟨ha, hl⟩ := List.forall_mem_cons.mp h
    rw [List.countP_cons, List.countP_cons, List.countP_cons, ih hl]
    -- Each counted element is on one side, and on one side only.
    by_cases hP : P a
    · rcases ha with ⟨hQ, hR⟩ | ⟨hR, hQ⟩
      · rw [if_pos (decide_eq_true hP), if_pos (decide_eq_true ⟨hP, hQ⟩),
          if_neg fun hat => hR (of_decide_eq_true hat).2]
        omega
      · rw [if_pos (decide_eq_true hP), if_neg fun hat => hQ (of_decide_eq_true hat).2,
          if_pos (decide_eq_true ⟨hP, hR⟩)]
        omega
    · rw [if_neg fun hat => hP (of_decide_eq_true hat),
        if_neg fun hat => hP (of_decide_eq_true hat).1, if_neg fun hat =>
        hP (of_decide_eq_true hat).1]
      omega

/-- **No handoff is lost, and none is handled twice**, where no process was started again, no call
on the store failed and no Subscription let a pair go. -/
theorem conserved_of_good (hfails : ¬w.fails) (hresumes : ¬w.resumes) : Conserved w s where
  placed _ h := placed_of_good hgood hlives h
  bound e he g stood hevent := by
    have hsound := hgood.sound e he
    rw [hevent] at hsound
    exact hsound.2.1
  apart := nodup_given hgood hlives
  waiting _ _ h := given_of_waits hgood h
  claimed e he d name hevent := by
    have hsound := hgood.sound e he
    rw [hevent] at hsound
    exact ⟨hsound.symm, given_of_claimed hgood (mem_claimed he hevent)⟩
  decoded := hgood.decoded hfails
  ordered i := hgood.ordered i _
  linked i d := by
    apply countP_xor _ _ _ _
    intro g hg
    obtain ⟨stood, hmem⟩ := Event.mem_gifts.mp hg
    obtain ⟨e, he, -, -, hevent⟩ := mem_of.mp hmem
    exact placed_of_good hgood hlives ⟨e, he, stood, hevent⟩
  told i := hgood.told hresumes i _

end Conserved

/-! ### Every run -/

private theorem kept_note (event : Option Event) :
    (s.note i event).lives = s.lives ∧ s.log <:+ (s.note i event).log := by
  cases event with
  | none => exact ⟨rfl, List.suffix_rfl⟩
  | some event => exact ⟨rfl, List.suffix_cons _ _⟩

/-- No call starts a process again, and what was seen stays seen. -/
theorem kept_of_acts {β : Type} {op : RelayOp β} {b : β} {s' : Net} (h : Acts w i op s b s') :
    s'.lives = s.lives ∧ s.log <:+ s'.log := by
  -- Every operation leaves the lives alone and only adds to the log.
  cases op with
  | file op note =>
    obtain ⟨store, -, rfl⟩ := h
    exact kept_note (s := s.leave store) _
  | tell note =>
    obtain rfl : s' = s.note i (said note) := h
    exact kept_note _
  | route handoff =>
    obtain rfl : s' = s.push i (.routed handoff) := h
    exact ⟨rfl, List.suffix_cons _ _⟩
  | released =>
    obtain rfl := h.1
    exact ⟨rfl, List.suffix_rfl⟩
  | now | refuses | exchange | done | taken =>
    obtain rfl : s' = s := h
    exact ⟨rfl, List.suffix_rfl⟩

/-- Nor does a run of calls. -/
theorem kept_of_steps {ν : Type} [DecidableEq ν] {called : ν → Text}
    {c c' : Config (ν × Stage) RelayOp (Option (S × Relay κ)) Net}
    (h : Steps (calls called w) (anew E) c c') :
    c'.shared.lives = c.shared.lives ∧ c.shared.log <:+ c'.shared.log := by
  induction h with
  | refl => exact ⟨rfl, List.suffix_rfl⟩
  | tail _ step ih =>
    cases step with
    | call i now did =>
      obtain ⟨hlives, hlog⟩ := kept_of_acts did
      exact ⟨hlives.trans ih.1, ih.2.trans hlog⟩
    | again i now anew => exact ih

/-- The relays of each of the processes of a roster's entries. -/
def relaysOfLives (roster : Roster κ) (setup : Nat → roster.Seat → Setup)
    (node : Nat → Fin roster.nodes.length → Text) (process : Nat → Fin roster.nodes.length → Nat)
    (life : Nat) : roster.Seat → Option (Relay κ) :=
  relaysOf roster (setup life) (node life) (process life)

/-- Each of them counts nothing yet, whichever of its node's processes it is of. -/
theorem accounts_byInbox {fails resumes : Prop} {roster : Roster κ}
    {setup : Nat → roster.Seat → Setup} {node : Nat → Fin roster.nodes.length → Text}
    {process : Nat → Fin roster.nodes.length → Nat} (hdistinct : roster.names.Nodup)
    (hnames : ∀ name ∈ roster.names, Image.refusal name = none)
    (htransports : ∀ life seat, ∀ t ∈ (setup life seat).transports, Handoff.Token t) {life : Nat}
    {d : Inbox} {r : Relay κ}
    (hr : byInbox roster.called (relaysOfLives roster setup node process) life d = some r) :
    Accounts ⟨fails, resumes, roster.target⟩ d r [] := by
  obtain ⟨seat, rfl, hnew⟩ := made_of_byInbox (Roster.called_injective hdistinct) hr
  have hname : roster.called seat.1 ∈ roster.names := List.mem_map_of_mem (List.get_mem _ _)
  exact accounts_new hnew (word_of_refusal (hnames _ hname)) (htransports life seat)

/-- **A roster's whole life**: its relays told apart by their inboxes, none of its nodes started
again while something it handed on waits. -/
theorem holds_roster {fails resumes : Prop} {roster : Roster κ} {setup : Nat → roster.Seat → Setup}
    {node : Nat → Fin roster.nodes.length → Text} {process : Nat → Fin roster.nodes.length → Nat}
    (hdistinct : roster.names.Nodup) (hnames : ∀ name ∈ roster.names, Image.refusal name = none)
    (htransports : ∀ life seat, ∀ t ∈ (setup life seat).transports, Handoff.Token t)
    {store : Store Inbox UInt8} (hclear : ∀ d, waits store d = ∅)
    {c : Config roster.Seat RelayOp (Option (S × Relay κ)) Net}
    (hlives : Lives roster.called (fun s name => ¬s.Leaves name) ⟨fails, resumes, roster.target⟩ E
      (relaysOfLives roster setup node process)
      (begun E (relaysOfLives roster setup node process 0) store) c) :
    (outline ⟨fails, resumes, roster.target⟩).Holds (Ended ⟨fails, resumes, roster.target⟩)
      (inboxed roster.called c) := by
  have hinboxed := inboxed_lives (Roster.called_injective hdistinct) hlives
  rw [inboxed_begun] at hinboxed
  exact holds_lives (fun _ _ _ => accounts_byInbox hdistinct hnames htransports) hclear hinboxed

/-- **Relay conservation.** For every roster whose nodes are distinctly named, by names the doors
let in, every transports that are tokens, every fault plan, whatever the transports and the
contracts come to, and every interleaving of the calls of its entries' relays over any number of
rounds: no handoff is lost and none is handled twice, and a relay between two rounds has counted the
hops it delivered, has read back all it claimed, and has judged each of those once, in their
order. -/
theorem conserved (S : Type) [Snapshot S] (E : Estate) (roster : Roster κ)
    (setup : roster.Seat → Setup) (node : Fin roster.nodes.length → Text)
    (process : Fin roster.nodes.length → Nat) (hdistinct : roster.names.Nodup)
    (hnames : ∀ name ∈ roster.names, Image.refusal name = none)
    (htransports : ∀ seat, ∀ t ∈ (setup seat).transports, Handoff.Token t)
    {store : Store Inbox UInt8} (hclear : ∀ d, waits store d = ∅)
    {c : Config roster.Seat RelayOp (Option (S × Relay κ)) Net}
    (hsteps : Steps (calls roster.called ⟨False, False, roster.target⟩) (anew E)
      (begun E (relaysOf roster setup node process) store) c) :
    Conserved ⟨False, False, roster.target⟩ c.shared ∧
      ∀ seat snapshot r, c.prog seat = .pure (some (snapshot, r)) →
        let i := inboxOf roster.called seat
        (∀ d, r.hops.count i d = (Event.gifts (c.shared.own i)).countP (·.dest = d)) ∧
          Event.decodes (c.shared.own i) = Event.claims (c.shared.own i) ∧
          Event.judgedOf (c.shared.own i) = Event.found (c.shared.own i) := by
  -- What holds of the roster's seats holds of the inboxes they work on, name by name.
  have hlife : Lives roster.called (fun s name => ¬s.Leaves name) ⟨False, False, roster.target⟩ E
      (relaysOfLives roster (fun _ => setup) (fun _ => node) fun _ => process)
      (begun E (relaysOfLives roster (fun _ => setup) (fun _ => node) (fun _ => process) 0) store)
      c := lives_of_steps hsteps
  have hholds := holds_roster hdistinct hnames (fun _ => htransports) hclear hlife
  have hlives (name : Text) : c.shared.lives name = 0 := congrFun (kept_of_steps hsteps).1 name
  refine ⟨conserved_of_good hholds.inv hlives not_false not_false,
    fun seat snapshot r hended => ?_⟩
  have hended' := inboxed_ended (Roster.called_injective hdistinct) hended
  have haccounts := hholds.ended hended' (snapshot, r) rfl
  exact ⟨haccounts.books.hops, haccounts.books.settled, haccounts.judged⟩

/-! ### Relays that run while the others stand -/

/-- What a relay comes to alone, a cluster comes to while its other relays stand. -/
theorem steps_of_passes {ν : Type} [DecidableEq ν] (E : Estate) (called : ν → Text)
    {c : Config (ν × Stage) RelayOp (Option (S × Relay κ)) Net} (i : ν × Stage) {t : Net}
    (h : (c.prog i).Passes (acts w) (inboxOf called i) c.shared t) :
    ∃ c', Steps (calls called w) (anew E) c c' ∧ c'.shared = t ∧ ∀ j, j ≠ i →
    c'.prog j = c.prog j := by
  obtain ⟨q, hq⟩ := h
  have hleads : (c.prog i).Leads (calls called w) i c.shared q t :=
    hq.along fun _ op s b s' (did : acts w (inboxOf called i) op s b s') => did
  exact ⟨_, hleads.steps (anew E) (f := c.prog) rfl, rfl, fun j hj => Function.update_of_ne hj ..⟩

/-- A relay's own round passes where its first does. -/
theorem passes_started {made : Option (Relay κ)} {r : Relay κ} {t : Net} (hmade : made = some r)
    (h : (r.tick E : Prog RelayOp (S × Relay κ)).Passes (acts w) i s t) :
    (started E made : Prog RelayOp (Option (S × Relay κ))).Passes (acts w) i s t := by
  subst hmade
  exact h.bind _

/-- One transport, one pair a round. -/
def single : Setup := ⟨[['t']], .none, ⟨fun _ _ _ => [], fun _ _ _ => .delivered⟩, none, 1, false⟩

theorem token_single : Handoff.Token ['t'] :=
  Handoff.token_of_short ⟨by decide, by decide⟩ (by decide)

/-- Contracts that hold over anything. -/
def lenient : Estate := ⟨⟨fun _ _ => [], fun _ _ => []⟩, fun _ _ => .ok ()⟩

/-- No directory yet. -/
def bare : Store Inbox UInt8 := fun _ => none

theorem waits_bare (d : Inbox) : waits bare d = ∅ := waits_none d

/-! ### A cluster of two nodes -/

section Pair

/-- A node that receives, and one that processes and sends. -/
def pairOf : Roster Roles :=
  ⟨[(['a'], { Roles.nothing with receiving := true }),
    (['b'], { Roles.nothing with processing := true, sending := true })]⟩

/-- Its relays: each process of a node is set up as the one before it. -/
def pairMade : Nat → pairOf.Seat → Option (Relay Roles) :=
  relaysOfLives pairOf (fun _ _ => single) (fun _ => pairOf.called) fun life entry =>
    2 * life + entry

/-- The cluster before its first round. -/
def pairBegun : Config pairOf.Seat RelayOp (Option (Records × Relay Roles)) Net :=
  begun lenient (pairMade 0) bare

/-- The receiving node's relay, and those of the other. -/
def frontSeat : pairOf.Seat := (⟨0, Nat.zero_lt_two⟩, .receive)

def backSeat (stage : Stage) : pairOf.Seat := (⟨1, Nat.one_lt_two⟩, stage)

/-- The inboxes they work from. -/
def front : Inbox := (['a'], .receive)

def back : Inbox := (['b'], .process)

/-- The handoff the receiving node makes first, whichever of its processes makes it. -/
def repeated : Handoff := ⟨['t'], .bytes, 1, ['a'], Contract.payload lenient.enc .bytes⟩

/-- What it waits under. -/
def repeatedName : Text := repeated.fileName 1 ++ '.' :: ready

/-- What the processing node's first process claims it under. -/
def repeatedMine : Text := withExtension repeatedName ("claimed-".toList ++ decimal 1)

/-- A process of the receiving node comes to deliver it, from wherever the cluster stands. -/
theorem passes_front (w : Ways) (life : Nat) (s : Net) :
    (started lenient (pairMade life frontSeat) :
      Prog RelayOp (Option (Records × Relay Roles))).Passes (acts w) front s
        (s.delivered front back repeated 1) := by
  have htarget : pairOf.target ['a'] .process ['t'] .bytes = some ['b'] := by decide
  obtain ⟨r, hr, hplain, hfirst, hzero⟩ : ∃ r : Relay Roles, pairMade life frontSeat = some r ∧
      Plain r (['t'], .bytes) ['b'] ∧
      r.handoff ['t'] .bytes (r.round + 1) (Contract.payload lenient.enc .bytes) = repeated ∧
      r.sequence = 0 :=
    ⟨_, rfl, ⟨rfl, rfl, rfl, rfl, rfl, htarget⟩, rfl, rfl⟩
  have htick := passes_tick (E := lenient) (S := Records) (w := w) (i := front) (s := s) hplain
  rw [hfirst, hzero, Nat.zero_add] at htick
  exact passes_started hr htick

/-- The processing node's first process comes to claim it, where nothing else waits. -/
theorem passes_back (w : Ways) {s : Net}
    (hs : s.store back = some (filed ∅ (repeated.fileName 1) repeated.encode)) :
    (started lenient (pairMade 0 (backSeat .process)) :
      Prog RelayOp (Option (Records × Relay Roles))).Passes (acts w) back s
        (s.drained back back (filed ∅ (repeated.fileName 1) repeated.encode) repeatedName
          repeatedMine
          repeated.encode) := by
  obtain ⟨r, hr, hstage, hbound, hinbox, hprocess⟩ : ∃ r : Relay Roles,
      pairMade 0 (backSeat .process) = some r ∧ r.stage ≠ .receive ∧ 0 < r.perRound ∧
      r.inbox = back ∧
        r.process = 1 :=
    ⟨_, rfl, by decide, by decide, rfl, rfl⟩
  have htick := passes_tick_claim (E := lenient) (S := Records) (w := w) (i := back) (s := s) hstage
    hbound
    (hinbox ▸ hs) (keys_filed _ _) (Handoff.extension_ready repeated 1) (lookup_filed ..)
  rw [hinbox, hprocess] at htick
  exact passes_started hr htick

/-- The cluster with its first handoff delivered and claimed. -/
def pairTaken : Net :=
  ((start bare).delivered front back repeated 1).drained back back
    (filed ∅ (repeated.fileName 1) repeated.encode) repeatedName repeatedMine repeated.encode

/-- It comes to that. -/
theorem steps_pairTaken (w : Ways) :
    ∃ c : Config pairOf.Seat RelayOp (Option (Records × Relay Roles)) Net,
    Steps (calls pairOf.called w) (anew lenient) pairBegun c ∧ c.shared = pairTaken := by
  obtain ⟨c, hsteps, hshared, hstand⟩ :=
    steps_of_passes (c := pairBegun) lenient pairOf.called frontSeat
    (passes_front w 0 (start bare))
  have hback : c.prog (backSeat .process) = started lenient (pairMade 0 (backSeat .process)) :=
    hstand (backSeat .process) (by decide)
  have hstore : c.shared.store back = some (filed ∅ (repeated.fileName 1) repeated.encode) := by
    rw [hshared]
    exact store_delivered _ _ _ _ _
  have hclaim := passes_back w hstore
  rw [← hback] at hclaim
  obtain ⟨c', hsteps', hshared', -⟩ :=
    steps_of_passes lenient pairOf.called (backSeat .process) hclaim
  exact ⟨c', hsteps.trans hsteps', by rw [hshared', hshared]; rfl⟩

/-- The handoff of one node claimed by another and read back, and every round then come to its
end. -/
theorem conserved_pair : ∃ c : Config pairOf.Seat RelayOp (Option (Records × Relay Roles)) Net,
    Steps (calls pairOf.called ⟨False, False, pairOf.target⟩) (anew lenient) pairBegun c ∧
      (∀ seat ∈ [frontSeat, backSeat .process, backSeat .send], ∃ ended, c.prog seat =
        .pure ended) ∧
      c.shared.Taken ⟨back, repeated, 1⟩ ∧ Conserved ⟨False, False, pairOf.target⟩ c.shared := by
  set w : Ways := ⟨False, False, pairOf.target⟩
  -- The pair is handed over and claimed; then all three threads come to their ends.
  obtain ⟨c, hsteps, hshared⟩ := steps_pairTaken w
  have htotal : (calls pairOf.called w).Total := fun i => acts_total w (inboxOf pairOf.called i)
  obtain ⟨c', hsteps', hended, -⟩ := exists_ended htotal (anew lenient) c
    [frontSeat, backSeat .process, backSeat .send]
  have hall := hsteps.trans hsteps'
  have hconserved := (conserved Records lenient pairOf (fun _ => single) pairOf.called
    (fun entry => 2 * 0 + entry) (by decide) (by decide)
    (fun _ t ht => List.mem_singleton.mp ht ▸ token_single) waits_bare hall).1
  have hlog := (kept_of_steps hsteps').2
  rw [hshared] at hlog
  have hgives : c'.shared.Gives ⟨back, repeated, 1⟩ :=
    ⟨⟨front, 0, .given ⟨back, repeated, 1⟩ _⟩, hlog.subset (.tail _ (.tail _ (.head _))), _, rfl⟩
  have hclaimed : repeatedName ∈ c'.shared.claimed back :=
    -- What was claimed no longer waits.
    mem_claimed (hlog.subset (.tail _ (.head _))) rfl
  refine ⟨c', hall, hended, ?_, hconserved⟩
  exact ((hconserved.placed _ hgives).or).resolve_left fun hwaiting => hwaiting.2 hclaimed

end Pair

/-! ### A cluster of one executing node -/

section OneNode

/-- One node, which is executing. -/
def lone (name : Text) : Roster Roles := ⟨[(name, { Roles.nothing with executing := true })]⟩

/-- The relays of one executing node. -/
def loneMade (name : Text) : (lone name).Seat → Option (Relay Roles) :=
  relaysOf (lone name) (fun _ => single) (lone name).called fun _ => 1

def loneSeat (name : Text) (stage : Stage) : (lone name).Seat := (⟨0, Nat.zero_lt_one⟩, stage)

/-- The cluster before its first round. -/
def loneBegun (name : Text) :
    Config (lone name).Seat RelayOp (Option (Records × Relay Roles)) Net :=
  begun lenient (loneMade name) bare

/-- The handoff its receive stage makes first. -/
def spaced : Handoff := ⟨['t'], .bytes, 1, ['a', ' ', 'b'], Contract.payload lenient.enc .bytes⟩

/-- A name of two words is no word of the header line. -/
theorem decode_spaced : Handoff.decode spaced.encode = none := by
  unfold Handoff.encode
  rw [Handoff.decode_line (by decide)]
  decide

/-- **A handoff of a node whose name has a space is lost**: what its target claims does not read
back. -/
theorem lost_spaced : (lone ['a', ' ', 'b']).names.Nodup ∧
    (lone ['a', ' ', 'b']).coversThePath = true ∧
    ∃ c, Steps (calls (lone ['a', ' ', 'b']).called ⟨False, False, (lone ['a', ' ', 'b']).target⟩)
      (anew lenient) (loneBegun ['a', ' ', 'b']) c ∧
      ¬Conserved ⟨False, False, (lone ['a', ' ', 'b']).target⟩ c.shared := by
  refine ⟨by decide, by decide, ?_⟩
  set w : Ways := ⟨False, False, (lone ['a', ' ', 'b']).target⟩
  obtain ⟨r, hr, hplain, hfirst, hzero⟩ : ∃ r : Relay Roles,
      loneMade ['a', ' ', 'b'] (loneSeat _ .receive) = some r ∧
      Plain r (['t'], .bytes) ['a', ' ', 'b'] ∧
      r.handoff ['t'] .bytes (r.round + 1) (Contract.payload lenient.enc .bytes) = spaced ∧
      r.sequence = 0 :=
    ⟨_, rfl, ⟨rfl, rfl, rfl, rfl, by decide, by decide⟩, rfl, rfl⟩
  obtain ⟨r', hr', hstage', hbound', hinbox'⟩ : ∃ r' : Relay Roles,
      loneMade ['a', ' ', 'b'] (loneSeat _ .process) = some r' ∧ r'.stage ≠ .receive ∧
      0 < r'.perRound ∧
      r'.inbox = (['a', ' ', 'b'], .process) :=
    ⟨_, rfl, by decide, by decide, rfl⟩
  set here : Inbox := (['a', ' ', 'b'], .receive)
  set there : Inbox := (['a', ' ', 'b'], .process)
  -- The receive stage delivers.
  have hreceive := passes_tick (E := lenient) (S := Records) (w := w) (i := here) (s := start bare)
    hplain
  rw [hfirst, hzero, Nat.zero_add] at hreceive
  obtain ⟨c, hsteps, hshared, hstand⟩ := steps_of_passes (c := loneBegun ['a', ' ', 'b'])
    lenient (lone _).called (loneSeat _ .receive) (passes_started hr hreceive)
  -- The process stage claims.
  have hstore : c.shared.store r'.inbox = some (filed ∅ (spaced.fileName 1) spaced.encode) := by
    rw [hinbox', hshared]
    exact store_delivered _ _ _ _ _
  have hclaims := passes_tick_claim (E := lenient) (S := Records) (w := w) (i := there) hstage'
    hbound' hstore (keys_filed _ _) (Handoff.extension_ready spaced 1) (lookup_filed ..)
  have hthere : c.prog (loneSeat _ .process) = started lenient
    (loneMade ['a', ' ', 'b'] (loneSeat _ .process)) :=
    hstand (loneSeat _ .process) (by decide)
  have hstarted := passes_started hr' hclaims
  rw [← hthere] at hstarted
  obtain ⟨c', hsteps', hshared', -⟩ :=
    steps_of_passes lenient (lone _).called (loneSeat _ .process) hstarted
  refine ⟨c', hsteps.trans hsteps', fun hconserved => ?_⟩
  rw [hshared'] at hconserved
  obtain ⟨g, -, -, -, hfound⟩ := hconserved.decoded _ List.mem_cons_self _ _ rfl
  rw [decode_spaced] at hfound
  cases hfound

end OneNode

end Net

end XmipEssentials
