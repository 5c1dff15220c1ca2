import Mathlib.Data.List.AList
import Mathlib.Data.List.Sort
import XmipEssentials.Records
import XmipEssentials.Relay

/-!
# A round trip arrives in time

Every transport by every contract carries one small message a round, timed, and its latency is kept
in a ring, so a pair's health is a percentile of its recent rounds. A round may drive a slice of the
pairs only; one that waits is published again from its ring (`LowLatency.health`), and what came of
the last exchange is in no ring but that of a message which came back whole.

* `LowLatency.waits_iff` — a pair that waits keeps what it was last published as, just where it came
  back whole, or failed in the very words its ring reads.

What each exchange of a round came to, and how many microseconds it took, is given to the round in
the pairs' order (`Turn`). How a latency is written for an operator is left open.
-/

namespace XmipEssentials

open Keyed Text

namespace LowLatency

/-- How many recent latencies each pair keeps for its percentiles. -/
def RING : Nat := 256

/-- How often, in percent of rounds at `Stress.realistic`, a pressured pair spikes. -/
def SPIKE_RATE : UInt8 := 4

/-- Rounds skipped before latencies are recorded. -/
def WARMUP : Nat := 3

/-! ### The ring -/

/-- A bounded ring of latencies in microseconds, newest overwriting oldest. -/
structure Ring where
  samples : List Nat
  next : Nat
  bounded : samples.length ≤ RING
  inside : next < RING

namespace Ring

/-- No latency yet. -/
def empty : Ring := ⟨[], 0, by decide, by decide⟩

def record (micros : Nat) (r : Ring) : Ring :=
  if h : r.samples.length < RING then
    ⟨r.samples ++ [micros], r.next, by rw [List.length_append]; exact h, r.inside⟩
  else
    ⟨r.samples.set r.next micros, (r.next + 1) % RING, by rw [List.length_set]; exact r.bounded,
      Nat.mod_lt _ (by decide)⟩

def len (r : Ring) : Nat := r.samples.length

/-- The `p`-th percentile of what is held, in microseconds. -/
def percentile (r : Ring) (p : Nat) : Nat :=
  if r.samples = [] then 0
  else
    let sorted := r.samples.insertionSort (· ≤ ·)
    sorted[p * (sorted.length - 1) / 100]?.getD 0

end Ring

/-- The latency each transport is expected to stay under, in microseconds. -/
def budgetMicros (transport : Text) : Nat :=
  if transport = "file".toList ∨ transport = "udp".toList ∨ transport = "tcp".toList then 100000
  else if transport = "websocket".toList ∨ transport = "http".toList then 120000
  else 160000

end LowLatency

/-! ### The exercise -/

/-- A scheduled latency exercise. -/
structure LowLatency where
  node : Text
  transports : List Text
  /-- The level, when one was set: its spike rate. -/
  stress : Option Stress
  round : Nat
  rings : AList fun _ : Text => LowLatency.Ring
  /-- The transport behind every scope seen, for the budget of a pair that waits this round. -/
  seen : AList fun _ : Text => Text
  /-- How many pairs one round times, when bounded. -/
  perRound : Option Nat
  /-- Where the next bounded round starts in the matrix. -/
  cursor : Nat

/-- What one round is given: what each exchange came to and how many microseconds it took, in the
pairs' order, and the time. -/
structure LowLatency.Turn where
  answer : Nat → Exchange × Nat
  now : Int

/-- The same exercise at a level: spikes at the level's rate. -/
def LowLatency.at (stress : Stress) (l : LowLatency) : LowLatency :=
  { l with stress := some stress }

namespace LowLatency

/-- A latency exercise publishing under `node`, with no injected spikes. -/
def new (node : Text) (transports : List Text) : LowLatency where
  node := node
  transports := transports
  stress := none
  round := 0
  rings := ∅
  seen := ∅
  perRound := none
  cursor := 0

/-- Time at most so many pairs a round, the matrix rotating under it. -/
def pairsPerRound (pairs : Nat) (l : LowLatency) : LowLatency :=
  { l with perRound := some (max pairs 1) }

/-- The scope a pair is published under. -/
def scopeOf (node : Text) (pair : Text × Contract) : Text :=
  node ++ '/' :: pair.1 ++ '/' :: pair.2.name

/-- The latency to record: the real measurement, or an injected spike three times the budget. -/
def sample (l : LowLatency) (transport : Text) (contract : Contract) (measured : Nat) : Nat :=
  match l.stress with
  | none => measured
  | some stress =>
    if transport ≠ "file".toList ∧ firesKeyed (scaledRate SPIKE_RATE stress)
        ("spike/".toList ++ transport ++ '/' :: contract.name) l.round then
      budgetMicros transport * 3
    else measured

/-- The ring of a scope: an empty one where it has none. -/
def ring (l : LowLatency) (scope : Text) : Ring := (l.rings.lookup scope).getD .empty

variable (millis : Nat → Text)

/-- What a ring reads, for an operator. -/
def Ring.line (r : Ring) (budget : Nat) : Text :=
  "p50 ".toList ++ millis (r.percentile 50) ++ " p99 ".toList ++ millis (r.percentile 99) ++
    " (budget ".toList ++ millis budget ++ ") over ".toList ++ decimal r.len

/-- The pair's health from the percentiles of its ring against the budget. -/
def health (l : LowLatency) (scope transport : Text) (now : Int) : HealthRecord :=
  let ring := l.ring scope
  let budget := budgetMicros transport
  if ring.len = 0 then ⟨scope, .fine, 0, "warming up".toList, now⟩
  else
    let (health, severity) :=
      if ring.percentile 99 ≤ budget then (Health.fine, 0)
      else if ring.percentile 99 ≤ budget * 2 then (.stressed, 45)
      else (.done, 90)
    ⟨scope, health, severity, ring.line millis budget, now⟩

def yellow (scope why : Text) (now : Int) : HealthRecord := ⟨scope, .stressed, 40, why, now⟩

def red (scope why : Text) (now : Int) : HealthRecord := ⟨scope, .done, 90, why, now⟩

variable (enc : Encoders)

/-- The exercise with a pair's latency folded into its ring, where it came back whole after the
warm-up. -/
def folded (l : LowLatency) (pair : Text × Contract) (answer : Exchange × Nat) : LowLatency :=
  let scope := scopeOf l.node pair
  if answer.1 = .returned (pair.2.payload enc) ∧ WARMUP < l.round then
    { l with rings := l.rings.insert scope ((l.ring scope).record (l.sample pair.1 pair.2 answer.2))
      }
  else l

/-- What a driven pair is published as: from its ring where it came back whole, else what came of
it. -/
def judged (l : LowLatency) (pair : Text × Contract) (exchange : Exchange) (now : Int) :
    HealthRecord :=
  let scope := scopeOf l.node pair
  match exchange with
  | .returned back =>
    if back = pair.2.payload enc then l.health millis scope pair.1 now
    else red scope "what came back did not match".toList now
  | .oneSided why => yellow scope why now
  | .failed why => red scope why now

/-- One pair run, timed and folded into its ring. -/
def drive (now : Int) (l : LowLatency) (pair : Text × Contract) (answer : Exchange × Nat) :
    LowLatency × HealthRecord :=
  let l := { l with seen := l.seen.insert (scopeOf l.node pair) pair.1 }
  let l := l.folded enc pair answer
  (l, l.judged millis enc pair answer.1 now)

/-- These pairs run in order, and what each is published as. -/
def driveEach (now : Int) : List ((Text × Contract) × Exchange × Nat) → LowLatency →
    LowLatency × List HealthRecord
  | [], l => (l, [])
  | (pair, answer) :: rest, l =>
    let one := l.drive millis enc now pair answer
    let after := driveEach now rest one.1
    (after.1, one.2 :: after.2)

/-- The pairs a round times: all of them, or the bounded slice. -/
def pairs (l : LowLatency) : List (Text × Contract) :=
  slice (allPairs l.transports) l.cursor l.perRound

/-- Where the round after starts. -/
def advanced (l : LowLatency) : Nat :=
  match l.perRound with
  | none => l.cursor
  | some perRound =>
    let matrix := max (l.transports.length * contracts.length) 1
    (l.cursor + min perRound matrix) % matrix

/-- The pairs a round times, each with what its exchange came to. -/
def answered (l : LowLatency) (turn : Turn) : List ((Text × Contract) × Exchange × Nat) :=
  l.pairs.zipIdx.map fun (pair, place) => (pair, turn.answer place)

/-- What the pairs that wait are published as: their rings again. -/
def waiting (l : LowLatency) (driven : List Text) (now : Int) : List HealthRecord :=
  (l.seen.entries.filter fun entry => entry.1 ∉ driven).map fun entry =>
    l.health millis entry.1 entry.2 now

variable {S : Type} [Snapshot S]

/-- The round's pairs run. -/
def driven (l : LowLatency) (turn : Turn) : LowLatency × List HealthRecord :=
  driveEach millis enc turn.now (l.answered turn) { l with round := l.round + 1 }

/-- Every pair of the round run and timed, the ones that wait published from their rings. -/
def tick (l : LowLatency) (turn : Turn) : S × LowLatency :=
  let driven := l.driven millis enc turn
  let waited := driven.1.waiting millis (l.pairs.map (scopeOf l.node)) turn.now
  (recordAll Snapshot.recordHealth (driven.2 ++ waited) Snapshot.new,
    { driven.1 with cursor := l.advanced })

/-! ### What a drive leaves of the other pairs -/

variable {millis enc} {l l' : LowLatency} {pair : Text × Contract} {answer : Exchange × Nat}
    {scope : Text}
  {now : Int}

/-- Two states of an exercise read the same of a scope. -/
structure SameAt (scope : Text) (l l' : LowLatency) : Prop where
  node : l'.node = l.node
  ring : l'.ring scope = l.ring scope
  seen : l'.seen.lookup scope = l.seen.lookup scope

private theorem SameAt.refl (scope : Text) (l : LowLatency) : SameAt scope l l := ⟨rfl, rfl, rfl⟩

private theorem SameAt.trans {l'' : LowLatency} (h : SameAt scope l l') (h' : SameAt scope l' l'') :
    SameAt scope l l'' :=
  ⟨h'.node.trans h.node, h'.ring.trans h.ring, h'.seen.trans h.seen⟩

/-- The same ring reads the same. -/
theorem health_congr (h : l'.ring scope = l.ring scope) (transport : Text) (now : Int) :
    l'.health millis scope transport now = l.health millis scope transport now := by
  unfold health
  rw [h]

@[simp] theorem health_scope (transport : Text) :
    (l.health millis scope transport now).scope = scope := by
  unfold health
  dsimp only
  split <;> rfl

@[simp] theorem folded_node : (l.folded enc pair answer).node = l.node := by
  unfold folded
  dsimp only
  split <;> rfl

@[simp] theorem folded_seen : (l.folded enc pair answer).seen = l.seen := by
  unfold folded
  dsimp only
  split <;> rfl

private theorem ring_folded (h : scope ≠ scopeOf l.node pair) :
    (l.folded enc pair answer).ring scope = l.ring scope := by
  unfold folded ring
  dsimp only
  split
  · rw [AList.lookup_insert_ne h]
  · rfl

private theorem judged_scope (exchange : Exchange) :
    (l.judged millis enc pair exchange now).scope = scopeOf l.node pair := by
  unfold judged
  cases exchange with
  | returned back =>
    dsimp only
    split
    · exact health_scope _
    · rfl
  | oneSided why => rfl
  | failed why => rfl

private theorem drive_scope :
    (l.drive millis enc now pair answer).2.scope = scopeOf l.node pair := by
  unfold drive
  dsimp only
  rw [judged_scope, folded_node]

/-- A pair driven leaves what is read of every other scope. -/
theorem sameAt_drive (h : scope ≠ scopeOf l.node pair) :
    SameAt scope l (l.drive millis enc now pair answer).1 where
  node := folded_node
  ring := ring_folded h
  seen := by
    unfold drive
    dsimp only
    rw [folded_seen, AList.lookup_insert_ne h]

@[simp] theorem drive_node : (l.drive millis enc now pair answer).1.node = l.node := folded_node

/-- The transport a driven pair is seen under. -/
theorem seen_drive :
    (l.drive millis enc now pair answer).1.seen.lookup (scopeOf l.node pair) = some pair.1 := by
  unfold drive
  dsimp only
  rw [folded_seen, AList.lookup_insert]

private theorem driveEach_append (now : Int)
    (some' rest : List ((Text × Contract) × Exchange × Nat)) (l : LowLatency) :
    driveEach millis enc now (some' ++ rest) l =
      ((driveEach millis enc now rest (driveEach millis enc now some' l).1).1,
        (driveEach millis enc now some' l).2 ++
          (driveEach millis enc now rest (driveEach millis enc now some' l).1).2) := by
  induction some' generalizing l with
  | nil => rfl
  | cons one some' ih =>
    obtain ⟨pair, answer⟩ := one
    rw [List.cons_append, driveEach, driveEach]
    dsimp only
    rw [ih]
    rfl

@[simp] theorem driveEach_node (driven : List ((Text × Contract) × Exchange × Nat)) :
    (driveEach millis enc now driven l).1.node = l.node := by
  induction driven generalizing l with
  | nil => rfl
  | cons one driven ih => exact ih.trans drive_node

/-- Pairs driven leave what is read of the scopes none of them is published under. -/
theorem sameAt_driveEach {driven : List ((Text × Contract) × Exchange × Nat)}
    (h : ∀ one ∈ driven, scopeOf l.node one.1 ≠ scope) :
    SameAt scope l (driveEach millis enc now driven l).1 := by
  induction driven generalizing l with
  | nil => exact .refl scope l
  | cons one driven ih =>
    rw [List.forall_mem_cons] at h
    refine (sameAt_drive h.1.symm).trans (ih ?_)
    rw [drive_node]
    exact h.2

/-- Every record of driven pairs is at the scope of one of them. -/
theorem map_scope_driveEach (driven : List ((Text × Contract) × Exchange × Nat)) (l : LowLatency) :
    (driveEach millis enc now driven l).2.map HealthRecord.scope = driven.map fun one =>
    scopeOf l.node one.1 := by
  induction driven generalizing l with
  | nil => rfl
  | cons one driven ih =>
    rw [driveEach]
    dsimp only
    rw [List.map_cons, List.map_cons, drive_scope, ih, drive_node]

/-! ### What a round publishes of a pair -/

/-- The last pair a round times that is published under a scope, with what its exchange came to. -/
def lastAt (l : LowLatency) (turn : Turn) (scope : Text) :
    Option ((Text × Contract) × Exchange × Nat) :=
  (l.answered turn).reverse.find? fun one => scopeOf l.node one.1 = scope

variable {turn : Turn} {one : (Text × Contract) × Exchange × Nat}

private theorem lastAt_eq_some (h : l.lastAt turn scope = some one) :
    scopeOf l.node one.1 = scope ∧ ∃ earlier later, l.answered turn = earlier ++ one :: later ∧
      ∀ other ∈ later, scopeOf l.node other.1 ≠ scope := by
  obtain ⟨hone, later, earlier, hsplit, hlater⟩ := List.find?_eq_some_iff_append.mp h
  refine ⟨of_decide_eq_true hone, earlier.reverse, later.reverse, ?_, fun other hother heq => ?_⟩
  · rw [← List.reverse_reverse (l.answered turn), hsplit, List.reverse_append, List.reverse_cons,
      List.append_assoc, List.singleton_append]
  · have hnot := hlater other (List.mem_reverse.mp hother)
    rw [decide_eq_true heq] at hnot
    exact Bool.false_ne_true hnot

private theorem lastAt_eq_none :
    l.lastAt turn scope = none ↔ ∀ other ∈ l.answered turn, scopeOf l.node other.1 ≠ scope := by
  unfold lastAt
  rw [List.find?_eq_none]
  simp

/-- A pair's record rests on its ring. -/
theorem judged_congr (hnode : l'.node = l.node)
    (hring : l'.ring (scopeOf l.node pair) = l.ring (scopeOf l.node pair)) (exchange : Exchange) :
    l'.judged millis enc pair exchange now = l.judged millis enc pair exchange now := by
  unfold judged
  rw [hnode]
  dsimp only
  rw [health_congr hring]

/-- The last drive at a scope says what the round's drives leave and publish there. -/
theorem driveEach_last {earlier later : List ((Text × Contract) × Exchange × Nat)}
    (hlater : ∀ other ∈ later, scopeOf l.node other.1 ≠ scopeOf l.node one.1) :
    ∃ records records', (driveEach millis enc now (earlier ++ one :: later) l).2 =
        records ++ (driveEach millis enc now (earlier ++ one :: later) l).1.judged millis enc one.1
          one.2.1 now ::
          records' ∧
      (∀ r ∈ records', r.scope ≠ scopeOf l.node one.1) ∧
      (driveEach millis enc now (earlier ++ one :: later) l).1.seen.lookup (scopeOf l.node one.1) =
        some one.1.1 := by
  obtain ⟨pair, answer⟩ := one
  have hmid : (driveEach millis enc now earlier l).1.node = l.node := driveEach_node earlier
  have hnode : ((driveEach millis enc now earlier l).1.drive millis enc now pair answer).1.node =
    l.node :=
    drive_node.trans hmid
  have hsame : SameAt (scopeOf l.node pair)
    ((driveEach millis enc now earlier l).1.drive millis enc now pair answer).1
      (driveEach millis enc now later
        ((driveEach millis enc now earlier l).1.drive millis enc now pair answer).1).1 := by
    apply sameAt_driveEach
    intro other hother
    rw [hnode]
    exact hlater other hother
  -- The drives behind it are at other scopes, so its record reads the ring they leave.
  have hjudged : (driveEach millis enc now later
        ((driveEach millis enc now earlier l).1.drive millis enc now pair answer).1).1.judged millis
          enc pair answer.1 now =
      ((driveEach millis enc now earlier l).1.drive millis enc now pair answer).2 := by
    refine judged_congr hsame.node ?_ answer.1
    rw [hnode]
    exact hsame.ring
  refine ⟨(driveEach millis enc now earlier l).2, (driveEach millis enc now later
    ((driveEach millis enc now earlier l).1.drive millis enc now pair answer).1).2, ?_,
      fun r hr => ?_, ?_⟩
  · rw [driveEach_append, driveEach]
    dsimp only
    rw [hjudged]
  · have hscope := List.mem_map_of_mem (f := HealthRecord.scope) hr
    rw [map_scope_driveEach, hnode] at hscope
    obtain ⟨other, hother, heq⟩ := List.mem_map.mp hscope
    rw [← heq]
    exact hlater other hother
  · rw [driveEach_append, driveEach]
    dsimp only
    rw [hsame.seen, ← hmid, seen_drive]

variable (keeps : Snapshot.Keeps S)

include keeps

/-- A driven pair is published as what came of it. -/
theorem publishes_driven (h : l.lastAt turn scope = some one) :
    Snapshot.Publishes (l.tick millis enc turn : S × LowLatency).1 scope
        ((l.driven millis enc turn).1.judged millis enc one.1 one.2.1 turn.now) ∧
      (l.driven millis enc turn).1.seen.lookup scope = some one.1.1 := by
  obtain ⟨rfl, earlier, later, hsplit, hlater⟩ := lastAt_eq_some h
  -- of the exchanges at the scope the last one decides, and no record after it is of the scope
  have hlast : ∃ records records', (l.driven millis enc turn).2 =
        records ++ (l.driven millis enc turn).1.judged millis enc one.1 one.2.1 turn.now ::
        records' ∧
      (∀ r ∈ records', r.scope ≠ scopeOf l.node one.1) ∧
      (l.driven millis enc turn).1.seen.lookup (scopeOf l.node one.1) = some one.1.1 := by
    unfold driven
    rw [hsplit]
    exact driveEach_last (l := { l with round := l.round + 1 }) hlater
  obtain ⟨records, records', hrecords, hafter, hseen⟩ := hlast
  have hnode : (l.driven millis enc turn).1.node = l.node := driveEach_node _
  have hscope : ((l.driven millis enc turn).1.judged millis enc one.1 one.2.1 turn.now).scope =
      scopeOf l.node one.1 := by
    rw [judged_scope, hnode]
  -- the driven pairs are recorded before those that wait
  refine ⟨fun x => ?_, hseen⟩
  unfold tick
  dsimp only
  rw [hrecords, List.append_assoc, List.cons_append, ← hscope, keeps.health.mem_recordAll_last]
  intro r hr
  rw [hscope]
  rcases List.mem_append.mp hr with hr | hr
  · exact hafter r hr
  · -- A pair that waits is none of the driven.
    obtain ⟨entry, hentry, rfl⟩ := List.mem_map.mp hr
    have hwaits := of_decide_eq_true (List.mem_filter.mp hentry).2
    rw [health_scope]
    rintro heq
    have hdriven : one.1 ∈ l.pairs := by
      have hmem : one ∈ l.answered turn := by
        rw [hsplit]
        exact List.mem_append_right _ List.mem_cons_self
      obtain ⟨⟨pair, place⟩, hpair, rfl⟩ := List.mem_map.mp hmem
      exact List.fst_mem_of_mem_zipIdx hpair
    exact hwaits (heq ▸ List.mem_map_of_mem hdriven)

omit keeps in
theorem map_scope_waiting (driven : List Text) :
    (l.waiting millis driven now).map HealthRecord.scope =
      (l.seen.entries.filter fun entry => entry.1 ∉ driven).map Sigma.fst := by
  unfold waiting
  rw [List.map_map]
  exact List.map_congr_left fun entry _ => health_scope entry.2

/-- A pair that waits is published from its ring, which the round leaves as it was. -/
theorem publishes_waiting (h : l.lastAt turn scope = none) {transport : Text}
    (hseen : l.seen.lookup scope = some transport) :
    SameAt scope l (l.driven millis enc turn).1 ∧
      Snapshot.Publishes (l.tick millis enc turn : S × LowLatency).1 scope
        ((l.driven millis enc turn).1.health millis scope transport turn.now) := by
  have hsame : SameAt scope l (l.driven millis enc turn).1 := by
    have hround : SameAt scope { l with round := l.round + 1 } (l.driven millis enc turn).1 :=
      sameAt_driveEach (lastAt_eq_none.mp h)
    exact ⟨hround.node, hround.ring, hround.seen⟩
  refine ⟨hsame, fun x => ?_⟩
  have hentry : (⟨scope, transport⟩ : Sigma fun _ : Text => Text) ∈
    (l.driven millis enc turn).1.seen.entries := by
    rw [← AList.mem_lookup_iff, hsame.seen]
    exact hseen
  -- A pair that is driven would be the last at its scope.
  have hwaits : scope ∉ l.pairs.map (scopeOf l.node) := by
    intro hmem
    obtain ⟨pair, hpair, heq⟩ := List.mem_map.mp hmem
    obtain ⟨place, hplace⟩ := List.mem_iff_getElem?.mp hpair
    have hturn : (pair, turn.answer place) ∈ l.answered turn :=
      List.mem_map_of_mem (List.mk_mem_zipIdx_iff_getElem?.mpr hplace)
    exact lastAt_eq_none.mp h _ hturn heq
  have hwaited : (l.driven millis enc turn).1.health millis scope transport turn.now ∈
      (l.driven millis enc turn).1.waiting millis (l.pairs.map (scopeOf l.node)) turn.now :=
    List.mem_map_of_mem (List.mem_filter.mpr ⟨hentry, decide_eq_true hwaits⟩)
  have hnodup :
    (((l.driven millis enc turn).1.waiting millis (l.pairs.map (scopeOf l.node)) turn.now).map
      HealthRecord.scope).Nodup := by
    rw [map_scope_waiting]
    have hkeys : ((l.driven millis enc turn).1.seen.entries.map Sigma.fst).Nodup :=
      (l.driven millis enc turn).1.seen.nodupKeys
    exact hkeys.sublist (List.filter_sublist.map Sigma.fst)
  unfold tick
  dsimp only
  rw [recordAll_append, keeps.health.mem_recordAll hnodup]
  constructor
  · rintro ⟨hx | ⟨-, hnot⟩, heq⟩
    · exact List.inj_on_of_nodup_map hnodup hx hwaited (heq.trans (health_scope transport).symm)
    · rw [heq] at hnot
      exact absurd (List.mem_map.mpr ⟨_, hwaited, health_scope transport⟩) hnot
  · rintro rfl
    exact ⟨.inl hwaited, health_scope transport⟩

omit keeps

/-! ### Over rounds -/

/-- What a pair was published as is what its ring reads: its message came back whole, or its
transport failed in those very words while the ring reads twice its budget. -/
def Kept (millis : Nat → Text) (enc : Encoders) (ring : Ring)
    (one : (Text × Contract) × Exchange × Nat) : Prop :=
  match one.2.1 with
  | .returned back => back = one.1.2.payload enc
  | .oneSided _ => False
  | .failed why =>
    ring.len ≠ 0 ∧ budgetMicros one.1.1 * 2 < ring.percentile 99 ∧
      why = ring.line millis (budgetMicros one.1.1)

/-- A ring reads a line that begins with its median, which no mismatch does. -/
theorem line_ne_mismatch (r : Ring) (budget : Nat) :
    r.line millis budget ≠ "what came back did not match".toList := by
  -- The first letters differ.
  have hline : ∃ rest, r.line millis budget = 'p' :: rest := ⟨_, rfl⟩
  obtain ⟨rest, hrest⟩ := hline
  have hmismatch : ∃ rest, "what came back did not match".toList = 'w' :: rest := ⟨_, rfl⟩
  obtain ⟨rest', hrest'⟩ := hmismatch
  rw [hrest, hrest']
  intro heq
  exact absurd (List.cons.inj heq).1 (by decide)

/-- A record of health, severity and evidence as another's. -/
def Reads (r r' : HealthRecord) : Prop :=
  r.health = r'.health ∧ r.severity = r'.severity ∧ r.evidence = r'.evidence

private theorem reads_health (transport : Text) (now now' : Int) :
    Reads (l.health millis scope transport now) (l.health millis scope transport now') := by
  unfold health
  dsimp only
  split
  · exact ⟨rfl, rfl, rfl⟩
  · exact ⟨rfl, rfl, rfl⟩

/-- A ring reads what a failure says just where it reads twice the budget, in the same words. -/
theorem reads_red_iff {transport why : Text} {now' : Int} :
    Reads (l.health millis scope transport now') (red scope why now) ↔
      (l.ring scope).len ≠ 0 ∧ budgetMicros transport * 2 < (l.ring scope).percentile 99 ∧
        why = (l.ring scope).line millis (budgetMicros transport) := by
  unfold health Reads red
  dsimp only
  split_ifs with hnone hfine hstressed
  · exact iff_of_false (fun h => nomatch h.1) fun h => h.1 hnone
  · exact iff_of_false (fun h => nomatch h.1) fun h => by omega
  · exact iff_of_false (fun h => nomatch h.1) fun h => by omega
  · constructor
    · intro h
      exact ⟨hnone, by omega, h.2.2.symm⟩
    · intro h
      exact ⟨rfl, rfl, h.2.2.symm⟩

/-- A ring never reads what one-sidedness says. -/
theorem not_reads_yellow {transport why : Text} {now' : Int} :
    ¬Reads (l.health millis scope transport now') (yellow scope why now) := by
  unfold health Reads yellow
  dsimp only
  split_ifs
  · exact fun h => nomatch h.1
  · exact fun h => nomatch h.1
  · exact fun h => nomatch h.2.1
  · exact fun h => nomatch h.1

private theorem reads_judged_iff {now' : Int} :
    Reads (l.health millis (scopeOf l.node one.1) one.1.1 now')
    (l.judged millis enc one.1 one.2.1 now) ↔
      Kept millis enc (l.ring (scopeOf l.node one.1)) one := by
  unfold Kept judged
  cases one.2.1 with
  | returned back =>
    dsimp only
    split_ifs with hwhole
    · exact iff_of_true (reads_health ..) hwhole
    · refine iff_of_false (fun h => ?_) hwhole
      exact line_ne_mismatch _ _ (reads_red_iff.mp h).2.2.symm
  | oneSided why => exact iff_of_false not_reads_yellow id
  | failed why => exact reads_red_iff

variable (millis enc) (S)

/-- The exercise before round `k` of these turns. -/
def before (turns : ℕ → Turn) (l : LowLatency) : ℕ → LowLatency
  | 0 => l
  | k + 1 => ((before turns l k).tick millis enc (turns k) : S × LowLatency).2

/-- What round `k` publishes. -/
def published (turns : ℕ → Turn) (l : LowLatency) (k : ℕ) : S :=
  ((before millis enc S turns l k).tick millis enc (turns k)).1

variable {millis enc S} {turns : ℕ → Turn} {j k : ℕ}

/-- Rounds a pair waits in leave what is read of it. -/
theorem sameAt_before (hjk : j ≤ k)
    (hwaits : ∀ i, j ≤ i → i < k → (before millis enc S turns l i).lastAt (turns i) scope = none) :
    SameAt scope (before millis enc S turns l j) (before millis enc S turns l k) := by
  -- Induction on the rounds waited: each drives other scopes only.
  induction k, hjk using Nat.le_induction with
  | base => exact .refl scope _
  | succ k hle ih =>
    have hsame := ih fun i hi hlt => hwaits i hi (Nat.lt_succ_of_lt hlt)
    have hround :
      SameAt scope { before millis enc S turns l k with round :=
        (before millis enc S turns l k).round + 1 }
        ((before millis enc S turns l k).driven millis enc (turns k)).1 :=
      sameAt_driveEach (lastAt_eq_none.mp (hwaits k hle (Nat.lt_succ_self k)))
    exact hsame.trans ⟨hround.node, hround.ring, hround.seen⟩

/-- **A pair that waits is published as at the last round it was driven in** just where its message
came back whole then, or its transport failed in the very words its ring reads. -/
theorem waits_iff (keeps : Snapshot.Keeps S) (hjk : j < k)
    (hdriven : (before millis enc S turns l j).lastAt (turns j) scope = some one)
    (hwaits : ∀ i, j < i → i ≤ k → (before millis enc S turns l i).lastAt (turns i) scope = none) :
    ∃ r r', Snapshot.Publishes (published millis enc S turns l j) scope r ∧
      Snapshot.Publishes (published millis enc S turns l k) scope r' ∧
      (Reads r' r ↔ Kept millis enc ((before millis enc S turns l k).ring scope) one) := by
  have hlast : Snapshot.Publishes (published millis enc S turns l j) scope
        (((before millis enc S turns l j).driven millis enc (turns j)).1.judged millis enc one.1
          one.2.1
          (turns j).now) ∧
      (before millis enc S turns l (j + 1)).seen.lookup scope = some one.1.1 :=
    publishes_driven keeps hdriven
  have hsame : SameAt scope (before millis enc S turns l (j + 1)) (before millis enc S turns l k) :=
    sameAt_before hjk fun i hi hlt => hwaits i hi hlt.le
  -- nothing between the two rounds touched the scope, so ring and transport are as they were
  have hseen : (before millis enc S turns l k).seen.lookup scope = some one.1.1 :=
    hsame.seen.trans hlast.2
  obtain ⟨hround, hwaited⟩ := publishes_waiting keeps (hwaits k hjk le_rfl) hseen
  refine ⟨_, _, hlast.1, hwaited, ?_⟩
  have hscope : scopeOf (before millis enc S turns l j).node one.1 = scope :=
    (lastAt_eq_some hdriven).1
  have hnode : ((before millis enc S turns l j).driven millis enc (turns j)).1.node =
      (before millis enc S turns l j).node := driveEach_node _
  have hring : ((before millis enc S turns l j).driven millis enc (turns j)).1.ring scope =
      (before millis enc S turns l k).ring scope := hsame.ring.symm
  -- the record of waiting is computed of that ring, so it is the one before where that says the
  -- same
  rw [health_congr (hround.ring.trans hring.symm), ← hring, ← hscope, ← hnode]
  exact reads_judged_iff

/-- An exercise of one transport, a pair a round. -/
def narrow : LowLatency := (new ['n'] [['t']]).pairsPerRound 1

/-- The scope of its first pair. -/
def first : Text := ['n', '/', 't', '/', 'b', 'y', 't', 'e', 's']

/-- Encoders that write nothing: none of the pairs here is theirs. -/
def noCodec : Encoders := ⟨fun _ _ => [], fun _ _ => []⟩

/-- Turns on which every exchange comes to the same, at once. -/
def always (exchange : Exchange) : ℕ → Turn := fun _ => ⟨fun _ => (exchange, 0), 0⟩

/-- A message that came back whole keeps its standing through the round it waits. -/
theorem waits_whole : ∃ r r',
    Snapshot.Publishes
      (published decimal noCodec Records (always (.returned (Contract.bytes.payload noCodec)))
        narrow 0) first r ∧
      Snapshot.Publishes
        (published decimal noCodec Records (always (.returned (Contract.bytes.payload noCodec)))
          narrow 1) first
        r' ∧
      Reads r' r := by
  -- the one pair a round: the first round drives this pair, the second another
  have hdriven : narrow.lastAt (always (.returned (Contract.bytes.payload noCodec)) 0) first =
      some ((['t'], .bytes), .returned (Contract.bytes.payload noCodec), 0) := by decide
  have hwaits : ∀ i, 0 < i → i ≤ 1 →
      (before decimal noCodec Records (always (.returned (Contract.bytes.payload noCodec))) narrow
        i).lastAt
        (always (.returned (Contract.bytes.payload noCodec)) i) first = none := by
    intro i hpos hle
    obtain rfl : i = 1 := Nat.le_antisymm hle hpos
    decide
  obtain ⟨r, r', hr, hr', hiff⟩ := waits_iff Records.keeps Nat.one_pos hdriven hwaits
  exact ⟨r, r', hr, hr', hiff.mpr rfl⟩

/-- **A pair whose exchange failed turns fine for waiting**: no ring holds a failure. -/
theorem failed_turns_fine :
    narrow.lastAt (always (.failed ['x']) 0) first = some ((['t'], .bytes), .failed ['x'], 0) ∧
      (before decimal noCodec Records (always (.failed ['x'])) narrow 1).lastAt
        (always (.failed ['x']) 1) first = none ∧
      Snapshot.Publishes (published decimal noCodec Records (always (.failed ['x'])) narrow 0) first
        (red first ['x'] 0) ∧
      Snapshot.Publishes (published decimal noCodec Records (always (.failed ['x'])) narrow 1) first
        ⟨first, .fine, 0, "warming up".toList, 0⟩ := by
  -- the failure empties no ring: the ring was empty
  have hdriven : narrow.lastAt (always (.failed ['x']) 0) first =
    some ((['t'], .bytes), .failed ['x'], 0) := by
    decide
  have hwaits : (before decimal noCodec Records (always (.failed ['x'])) narrow 1).lastAt
    (always (.failed ['x']) 1)
      first = none := by decide
  have hlast :
    Snapshot.Publishes (published decimal noCodec Records (always (.failed ['x'])) narrow 0) first
        (red first ['x'] 0) ∧
      (before decimal noCodec Records (always (.failed ['x'])) narrow 1).seen.lookup first =
        some ['t'] :=
    publishes_driven Records.keeps hdriven
  exact ⟨hdriven, hwaits, hlast.1, (publishes_waiting Records.keeps hwaits hlast.2).2⟩

end LowLatency

end XmipEssentials
