import XmipEssentials.LockStep.Inboxes

/-!
# The passage of handoffs

Relays deliver to one another's inboxes and claim from their own, each call one atomic step among
the others'. The shared store is watched (`Net`): a log says which relay delivered what where, which
file it claimed, what that read back as, what it judged, and what its verdicts were. A node's
process may be killed and started again; the log tells its lives apart, and the store outlives them.

* `Good` — what holds between any two calls: the handoffs given to an inbox are those claimed from
  it and those that wait, and what waits was given by a process that still runs.
* `Net.Leaves` — what a node's processes handed on, or some of it, still waits.
-/

namespace XmipEssentials

open Text Conc Files Inbox

/-! ### What is seen -/

/-- What a relay is seen to do. -/
inductive Event where
  /-- It delivered; `stood` says whether a file was there under the name. -/
  | given (g : Given) (stood : Bool)
  | claimed (dir : Inbox) (name : Text)
  | decoded (name : Text) (found : Option Handoff)
  | judged (handoff : Handoff)
  | verdict (v : Verdict)
  | routed (handoff : Handoff)

/-- A line of the log: which relay, in which of its node's lives, did what. -/
structure Entry where
  place : Inbox
  life : Nat
  event : Event

/-- The name under which a line gives a handoff to an inbox, where it does. -/
def Entry.gift (d : Inbox) (e : Entry) : Option Text :=
  match e.event with
  | .given g _ => if g.dest = d then some g.name else none
  | _ => none

/-- The name a line claims from an inbox, where it does. -/
def Entry.claim (d : Inbox) (e : Entry) : Option Text :=
  match e.event with
  | .claimed dir name => if dir = d then some name else none
  | _ => none

/-- The store, how often each node was started again, and the log, newest first. -/
structure Net where
  store : Store Inbox UInt8
  lives : Text → Nat
  log : List Entry

/-- What a cluster's relays run under: whether calls on the store fail, whether Subscriptions hold a
pair and let it go, and which node a node's pair goes to for a stage. -/
structure Ways where
  fails : Prop
  resumes : Prop
  target : Text → Stage → Text → Contract → Option Text

namespace Event

/-- The handoffs given over. -/
def gifts (l : List Event) : List Given := l.filterMap fun
  | .given g _ => some g
  | _ => none

def claims (l : List Event) : List Text := l.filterMap fun
  | .claimed _ name => some name
  | _ => none

def decodes (l : List Event) : List Text := l.filterMap fun
  | .decoded name _ => some name
  | _ => none

/-- The claimed handoffs, as they read back. -/
def found (l : List Event) : List Handoff := l.filterMap fun
  | .decoded _ found => found
  | _ => none

def judgedOf (l : List Event) : List Handoff := l.filterMap fun
  | .judged handoff => some handoff
  | _ => none

/-- The handoff given over since the last verdict. -/
def pending : List Event → Option Handoff
  | [] => none
  | .given g _ :: _ => some g.handoff
  | .verdict _ :: _ => none
  | _ :: l => pending l

/-- Of each pair one handoff at most is given over, before its verdict, which is that it
delivered. -/
def Accounted : List Event → Prop
  | [] => True
  | .given _ _ :: l => pending l = none ∧ Accounted l
  | .verdict v :: l => (∀ h, pending l = some h →
      v.outcome = .delivered ∧ v.transport = h.transport ∧ v.contract = h.contract) ∧ Accounted l
  | _ :: l => Accounted l

/-- A file is claimed before it reads back, and what reads back is judged after that, each in its
turn. -/
structure Ordered (l : List Event) : Prop where
  decoded : decodes l <:+ claims l
  judged : judgedOf l <:+ found l

end Event

namespace Net

/-- The log with a line more: what the relay of inbox `i` does, in the life its node is in. -/
def push (s : Net) (i : Inbox) (event : Event) : Net :=
  { s with log := ⟨i, s.lives i.1, event⟩ :: s.log }

/-- The log with what the relay of inbox `i` is seen to do, where it is seen to do anything. -/
def note (s : Net) (i : Inbox) : Option Event → Net
  | none => s
  | some event => s.push i event

/-- The store become `store`, lives and log as they were. -/
def leave (s : Net) (store : Store Inbox UInt8) : Net := { s with store := store }

/-- What a relay did in one of its node's lives. -/
def of (s : Net) (i : Inbox) (life : Nat) : List Event :=
  (s.log.filter fun e => e.place = i ∧ e.life = life).map Entry.event

/-- What a relay did in the life its node is in. -/
def own (s : Net) (i : Inbox) : List Event := s.of i (s.lives i.1)

/-- The names of the handoffs given to an inbox. -/
def given (s : Net) (d : Inbox) : List Text := s.log.filterMap (Entry.gift d)

/-- The names claimed from an inbox. -/
def claimed (s : Net) (d : Inbox) : List Text := s.log.filterMap (Entry.claim d)

/-- A handoff was given over. -/
def Gives (s : Net) (g : Given) : Prop := ∃ e ∈ s.log, ∃ stood, e.event = .given g stood

/-- A handoff was given over by a process that still runs. -/
def Recent (s : Net) (g : Given) : Prop :=
  ∃ e ∈ s.log, e.life = s.lives e.place.1 ∧ ∃ stood, e.event = .given g stood

/-- Something that a process of the node called `name` gave over still waits to be claimed. -/
def Leaves (s : Net) (name : Text) : Prop :=
  ∃ e ∈ s.log, ∃ g stood, e.event = .given g stood ∧ e.place.1 = name ∧
    g.name ∈ waits s.store g.dest

end Net

/-! ### The calls -/

/-- What a call on the store shows, by its note and its answer. -/
def witnessed (s : Net) : {β : Type} → FileOp Inbox UInt8 β → Note → Except Text β → Option Event
  | _, .rename d _ new, .deliver handoff sequence, .ok _ =>
    some (.given ⟨d, handoff, sequence⟩ (s.store.file d new).isSome)
  | _, .rename d old _, .claim, .ok _ => some (.claimed d old)
  | _, _, _, _ => none

/-- What a relay says of itself. -/
def said : Note → Option Event
  | .decoded name found => some (.decoded name found)
  | .judged handoff => some (.judged handoff)
  | .verdict v => some (.verdict v)
  | _ => none

/-- What a call of a relay does. A resume lets go of pairs the node published, if it lets go of
any. -/
def Acts (w : Ways) (i : Inbox) : {β : Type} → RelayOp β → Net → β → Net → Prop
  | _, .file op note, s, b, s' =>
    ∃ store, op.May w.fails s.store b store ∧ s' = (s.leave store).note i (witnessed s op note b)
  | _, .tell note, s, _, s' => s' = s.note i (said note)
  | _, .route handoff, s, _, s' => s' = s.push i (.routed handoff)
  | _, .released, s, b, s' =>
    s' = s ∧ ∀ handoff ∈ b, w.resumes ∧ ∃ e ∈ s.log, e.place = i ∧ e.event = .routed handoff
  | _, _, s, _, s' => s' = s

/-- The inbox a relay drains: of its node, which `called` names, at its stage. -/
def Net.inboxOf {ν : Type} (called : ν → Text) (i : ν × Stage) : Inbox := (called i.1, i.2)

/-- The calls of relays told apart by their nodes and their stages. -/
def calls {ν : Type} (called : ν → Text) (w : Ways) : Exec (ν × Stage) RelayOp Net :=
  fun i _ op s b s' => Acts w (Net.inboxOf called i) op s b s'

/-- Every call of any relay, each known by the inbox it drains. -/
def acts (w : Ways) : Exec Inbox RelayOp Net := fun i _ op s b s' => Acts w i op s b s'

/-! ### What holds between any two calls -/

/-- A handoff of a relay's node, of a transport the rig drives. -/
structure Carries (i : Inbox) (h : Handoff) : Prop where
  sender : h.sender = i.1
  word : Handoff.Word h.sender
  token : Handoff.Token h.transport

/-- The inbox a relay's handoff is for: that of the next stage, at the node the pair goes to. -/
structure Bound (w : Ways) (i : Inbox) (h : Handoff) (d : Inbox) : Prop where
  next : i.2.next = some d.2
  target : w.target i.1 d.2 h.transport h.contract = some d.1

/-- What a relay can be seen to do. -/
def Event.Apt (w : Ways) (i : Inbox) : Event → Prop
  | .given g stood => Carries i g.handoff ∧ Bound w i g.handoff g.dest ∧ stood = false
  | .claimed dir _ => dir = i
  | .routed h => Carries i h
  | _ => True

/-- What tells what was given over apart: the relay, its node's life, and the count. -/
def Entry.key (e : Entry) : Option (Inbox × Nat × Nat) :=
  match e.event with
  | .given g _ => some (e.place, e.life, g.sequence)
  | _ => none

/-- What holds between any two calls of the relays. -/
structure Good (w : Ways) (s : Net) : Prop where
  counted : ∀ d, (s.given d : Multiset Text) = (s.claimed d : Multiset Text) + (waits s.store d).val
  /-- What waits was given over by a process that still runs. -/
  content : ∀ d name c, lies s.store d name = some c →
    ∃ g, s.Recent g ∧ g.dest = d ∧ g.name = name ∧ g.handoff.encode = c
  sound : ∀ e ∈ s.log, e.event.Apt w e.place
  lived : ∀ e ∈ s.log, e.life ≤ s.lives e.place.1
  apart : (s.log.filterMap Entry.key).Nodup
  decoded : ¬w.fails → ∀ e ∈ s.log, ∀ name found, e.event = .decoded name found →
    ∃ g, s.Gives g ∧ g.dest = e.place ∧ g.name = name ∧ found = some g.handoff
  ordered : ∀ i life, Event.Ordered (s.of i life)
  told : ¬w.resumes → ∀ i life, Event.Accounted (s.of i life)

/-! ### What is seen, line by line -/

namespace Event

@[simp] theorem gifts_given (g : Given) (stood : Bool) (l : List Event) :
    gifts (.given g stood :: l) = g :: gifts l := rfl

@[simp] theorem mem_gifts {l : List Event} {g : Given} :
    g ∈ gifts l ↔ ∃ stood, .given g stood ∈ l := by
  rw [gifts, List.mem_filterMap]
  constructor
  · rintro ⟨event, hmem, hg⟩
    cases event with
    | given g' stood =>
      obtain rfl := Option.some.inj hg
      exact ⟨stood, hmem⟩
    | claimed | decoded | judged | verdict | routed => cases hg
  · rintro ⟨stood, hmem⟩
    exact ⟨_, hmem, rfl⟩

end Event

namespace Net

variable {s : Net} {i j : Inbox} {life : Nat} {event : Event}

theorem mem_of : event ∈ s.of i life ↔ ∃ e ∈ s.log, e.place = i ∧ e.life = life ∧
    e.event = event := by
  rw [of, List.mem_map]
  constructor
  · rintro ⟨e, he, hevent⟩
    obtain ⟨hmem, hat⟩ := List.mem_filter.mp he
    obtain ⟨hplace, hlife⟩ := decide_eq_true_iff.mp hat
    exact ⟨e, hmem, hplace, hlife, hevent⟩
  · rintro ⟨e, hmem, hplace, hlife, hevent⟩
    exact ⟨e, List.mem_filter.mpr ⟨hmem, decide_eq_true ⟨hplace, hlife⟩⟩, hevent⟩

theorem of_push_self : (s.push i event).of i (s.lives i.1) = event :: s.own i := by
  have hmine : decide (i = i ∧ s.lives i.1 = s.lives i.1) = true := decide_eq_true ⟨rfl, rfl⟩
  change ((⟨i, s.lives i.1, event⟩ :: s.log).filter _).map Entry.event = _
  rw [List.filter_cons, if_pos hmine, List.map_cons, own, of]

theorem of_push_of_ne (h : ¬(j = i ∧ life = s.lives i.1)) :
    (s.push i event).of j life = s.of j life := by
  have hnot : ¬decide (i = j ∧ s.lives i.1 = life) = true := by
    rw [decide_eq_true_iff]
    rintro ⟨rfl, rfl⟩
    exact h ⟨rfl, rfl⟩
  change ((⟨i, s.lives i.1, event⟩ :: s.log).filter _).map Entry.event = _
  rw [List.filter_cons, if_neg hnot, of]

/-- What a relay did is added to what it did. -/
theorem own_push_self : (s.push i event).own i = event :: s.own i := of_push_self

/-- And to what no other did. -/
theorem own_push_of_ne (h : j ≠ i) : (s.push i event).own j = s.own j :=
  of_push_of_ne fun hat => h hat.1

theorem Recent.gives {g : Given} (h : s.Recent g) : s.Gives g := by
  obtain ⟨e, he, -, hevent⟩ := h
  exact ⟨e, he, hevent⟩

/-- What a running process gave over, it still did whatever is seen next. -/
theorem Recent.push {g : Given} (h : s.Recent g) : (s.push i event).Recent g := by
  obtain ⟨e, he, hlife, hevent⟩ := h
  exact ⟨e, List.mem_cons_of_mem _ he, hlife, hevent⟩

theorem recent_given {g : Given} {stood : Bool} : (s.push i (.given g stood)).Recent g :=
  ⟨_, List.mem_cons_self, rfl, stood, rfl⟩

theorem gives_push {g : Given} :
    (s.push i event).Gives g ↔ (∃ stood, event = .given g stood) ∨ s.Gives g := by
  constructor
  · rintro ⟨e, he, stood, hevent⟩
    rcases List.mem_cons.mp he with rfl | he
    · exact .inl ⟨stood, hevent⟩
    · exact .inr ⟨e, he, stood, hevent⟩
  · rintro (⟨stood, rfl⟩ | ⟨e, he, stood, hevent⟩)
    · exact ⟨_, List.mem_cons_self, stood, rfl⟩
    · exact ⟨e, List.mem_cons_of_mem _ he, stood, hevent⟩

theorem gift_eq_some {d : Inbox} {e : Entry} {name : Text} : e.gift d = some name ↔
    ∃ g stood, e.event = .given g stood ∧ g.dest = d ∧ g.name = name := by
  unfold Entry.gift
  cases e.event with
  | given g stood =>
    dsimp only
    constructor
    · intro hat
      split at hat
      · next hdest => exact ⟨g, stood, rfl, hdest, Option.some.inj hat⟩
      · cases hat
    · rintro ⟨g, stood, heq, rfl, rfl⟩
      cases heq
      exact if_pos rfl
  | claimed | decoded | judged | verdict | routed =>
    constructor
    · intro hat
      cases hat
    · rintro ⟨g, stood, heq, -⟩
      cases heq

/-- What is given to an inbox is what some line of the log says. -/
theorem mem_given {d : Inbox} {name : Text} :
    name ∈ s.given d ↔ ∃ g, s.Gives g ∧ g.dest = d ∧ g.name = name := by
  rw [given, List.mem_filterMap]
  constructor
  · rintro ⟨e, he, hat⟩
    obtain ⟨g, stood, hevent, hat⟩ := gift_eq_some.mp hat
    exact ⟨g, ⟨e, he, stood, hevent⟩, hat⟩
  · rintro ⟨g, ⟨e, he, stood, hevent⟩, hat⟩
    exact ⟨e, he, gift_eq_some.mpr ⟨g, stood, hevent, hat⟩⟩

/-- Claims are of names that are claimed. -/
theorem mem_claimed {e : Entry} {d : Inbox} {name : Text} (he : e ∈ s.log)
    (hevent : e.event = .claimed d name) :
    name ∈ s.claimed d := by
  refine List.mem_filterMap.mpr ⟨e, he, ?_⟩
  rw [Entry.claim, hevent]
  exact if_pos rfl

/-- What is given to an inbox, with one handoff more. -/
theorem given_push_given {g : Given} {stood : Bool} {d : Inbox} :
    (s.push i (.given g stood)).given d = if g.dest = d then g.name :: s.given d
      else s.given d := by
  change List.filterMap _ (_ :: s.log) = _
  rw [List.filterMap_cons]
  unfold Entry.gift
  by_cases hd : g.dest = d
  · dsimp only
    rw [if_pos hd, if_pos hd]
    rfl
  · dsimp only
    rw [if_neg hd, if_neg hd]
    rfl

/-- What is claimed from an inbox, with one file more. -/
theorem claimed_push_claimed {dir d : Inbox} {name : Text} :
    (s.push i (.claimed dir name)).claimed d = if dir = d then name :: s.claimed d
      else s.claimed d := by
  change List.filterMap _ (_ :: s.log) = _
  rw [List.filterMap_cons]
  unfold Entry.claim
  by_cases hd : dir = d
  · dsimp only
    rw [if_pos hd, if_pos hd]
    rfl
  · dsimp only
    rw [if_neg hd, if_neg hd]
    rfl

/-- The key of what was given is of its relay, its life and its count. -/
theorem mem_keys {sequence : Nat} : (i, life, sequence) ∈ s.log.filterMap Entry.key ↔
    ∃ g ∈ Event.gifts (s.of i life), g.sequence = sequence := by
  rw [List.mem_filterMap]
  constructor
  · rintro ⟨⟨place, life', event⟩, he, hkey⟩
    cases event with
    | given g stood =>
      obtain ⟨hplace, hrest⟩ := Prod.mk.inj (Option.some.inj hkey)
      obtain ⟨hlife, hsequence⟩ := Prod.mk.inj hrest
      subst hplace hlife hsequence
      exact ⟨g, Event.mem_gifts.mpr ⟨stood, mem_of.mpr ⟨_, he, rfl, rfl, rfl⟩⟩, rfl⟩
    | claimed | decoded | judged | verdict | routed => cases hkey
  · rintro ⟨g, hg, rfl⟩
    obtain ⟨stood, hmem⟩ := Event.mem_gifts.mp hg
    obtain ⟨e, he, rfl, rfl, hevent⟩ := mem_of.mp hmem
    exact ⟨e, he, by rw [Entry.key, hevent]⟩

end Net

end XmipEssentials
