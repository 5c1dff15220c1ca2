import XmipEssentials.Lib.Transcript
import XmipEssentials.Relay

/-!
# What a resume lets go of

A process stage's Subscriptions hold pairs while they are paused, and a resume lets go of them. The
pass that follows reads each back from the Ledger, hands on those that are pairs and settles each of
these with its Subscription's queue. The pickup and the Storage node are other crates': their calls
are answered in any way at all, and what is proved is of every transcript.

* `Settled.comes` — what a pass does to the relay is what the relay's round has it do, which is one
  part of a `Pass`.
* `told_handOnReleased_iff` — the transcripts of a pass are exactly those that deal with each entry
  in one way: put back from its Subscription's first reading error on, marked where it is no pair,
  and otherwise handed on and settled once.
-/

namespace XmipEssentials

open Text Conc

/-! ### What is held -/

/-- An entry a Subscription's queue let go of: its Subscription, its Journey, and what the node kept
beside it. -/
structure Released where
  subscription : Text
  journey : Nat
  body : List UInt8
  deriving DecidableEq

/-- The states a settled pair's Journey is left in. -/
inductive JourneyState where
  | completed
  | failed
  deriving DecidableEq

/-- What the journey crate makes of a Ledger's record, and its codec of a text. -/
class JourneyRecord (J : Type) where
  fromRecord : List UInt8 → Option J
  /-- The Streams of the Journey's Messages, in order. -/
  messages : J → List Nat
  /-- The Journey in another state. -/
  marked : JourneyState → J → J
  /-- A text read, and what is left after it. -/
  readText : List UInt8 → Option (Text × List UInt8)

/-- A call of the pass, by what it answers. -/
inductive PickupOp (J : Type) : Type → Type 1 where
  /-- What was let go of, oldest first: of any age, however many. -/
  | released : PickupOp J (List Released)
  /-- The record of a Journey, where the Ledger has one. -/
  | readJourney (id : Nat) : PickupOp J (Except Text (Option (List UInt8)))
  /-- A Stream read whole. -/
  | readWhole (stream : Nat) : PickupOp J (Except Text (List UInt8))
  | unreadable (released : Released) (why : Text) : PickupOp J Unit
  | again (released : Released) : PickupOp J Unit
  | delivered (released : Released) (journey : J) : PickupOp J (Except Text Unit)
  | kept (released : Released) (journey : J) : PickupOp J (Except Text Unit)
  /-- A call of the relay's own. -/
  | relay {β : Type} (op : RelayOp β) : PickupOp J β

/-- A held pair let go of to hand on, and its Journey. -/
structure Picked (J : Type) where
  handoff : Handoff
  released : Released
  journey : J

namespace Subscribing

variable {J : Type} [JourneyRecord J]

/-- The pair a held one was, its Stream's `bytes` with what was said of it. -/
def pair (J : Type) [JourneyRecord J] (said bytes : List UInt8) : Option Handoff := do
  let (transport, said) ← JourneyRecord.readText J said
  let (name, said) ← JourneyRecord.readText J said
  let (round, said) ← JourneyRecord.readText J said
  let (sender, _) ← JourneyRecord.readText J said
  let contract ← contracts.find? fun known => known.name == name
  let round ← (parseNat round).filter (· < 2 ^ 64)
  some ⟨transport, contract, round, sender, bytes⟩

/-- Marked as not to be read again, and passed over. -/
def passOver (released : Released) (why : String) :
    Prog (PickupOp J) (Except Text (Option (Handoff × J))) := do
  Prog.perform (.unreadable released why.toList)
  pure (.ok none)

/-- The pair `released` is and its Journey, read back from the Ledger; none where it is not a pair,
which is passed over. -/
def readBack (released : Released) : Prog (PickupOp J) (Except Text (Option (Handoff × J))) := do
  match ← Prog.perform (.readJourney released.journey) with
  | .error why => pure (.error why)
  | .ok record =>
    match record.bind (JourneyRecord.fromRecord (J := J)) with
    | none => passOver released "its Journey does not read"
    | some journey =>
      match (JourneyRecord.messages journey).getLast? with
      | none => passOver released "its Journey holds no Message"
      | some stream =>
        match ← Prog.perform (.readWhole stream) with
        | .error why => pure (.error why)
        | .ok bytes =>
          match pair J released.body bytes with
          | none => passOver released "it is not a pair this node held"
          | some handoff => pure (.ok (some (handoff, journey)))

/-- Each entry read back, but none after one of its Subscription that could not be. -/
def readEach : List Released → List Text → Prog (PickupOp J) (List (Picked J))
  | [], _ => pure []
  | released :: rest, stalled =>
    if released.subscription ∈ stalled then do
      Prog.perform (.again released)
      readEach rest stalled
    else do
      match ← readBack released with
      | .ok (some (handoff, journey)) => do
        let picked ← readEach rest stalled
        pure (⟨handoff, released, journey⟩ :: picked)
      | .ok none => readEach rest stalled
      | .error _ => do
        Prog.perform (.again released)
        readEach rest (stalled ++ [released.subscription])

/-- What a resume let go of, oldest first, as the pairs to hand on. -/
def released : Prog (PickupOp J) (List (Picked J)) := do
  let released ← Prog.perform .released
  readEach released []

/-- The node handed `picked` on, or could not: released from its queue where it was, kept Failed
where not. A write the Storage node did not take leaves it to be read again. -/
def done (picked : Picked J) (handed : Except Text Unit) : Prog (PickupOp J) Unit := do
  let written ← match handed with
    | .ok () =>
      Prog.perform (.delivered picked.released (JourneyRecord.marked .completed picked.journey))
    | .error _ => Prog.perform (.kept picked.released (JourneyRecord.marked .failed picked.journey))
  match written with
  | .ok () => pure ()
  | .error _ => Prog.perform (.again picked.released)

variable {κ : Type} [Capability κ]

/-- Each of the pairs handed on, and settled. -/
def handOnEach (now : Int) : List (Picked J) → Relay κ → Prog (PickupOp J) (Relay κ)
  | [], r => pure r
  | picked :: rest, r => do
    let (handed, r) ← (r.handOn picked.handoff now).lift fun _ => .relay
    done picked handed
    handOnEach now rest r

/-- Hand on what a resume let go of, oldest first; what could not be handed on stays held,
Failed. -/
def handOnReleased (J : Type) [JourneyRecord J] (now : Int) (r : Relay κ) :
    Prog (PickupOp J) (Relay κ) :=
  if r.subscribing then do
    let picked ← released (J := J)
    handOnEach now picked r
  else pure r

/-! ### One entry read back -/

/-- How an entry is read back: the calls, and what they come to. -/
inductive Read (one : Released) :
    List (Answered (PickupOp J)) → Except Text (Option (Handoff × J)) → Prop
  | unrecorded (why : Text) : Read one [⟨.readJourney one.journey, .error why⟩] (.error why)
  | noJourney {record : Option (List UInt8)}
      (hjourney : record.bind (JourneyRecord.fromRecord (J := J)) = none) :
      Read one [⟨.readJourney one.journey, .ok record⟩,
        ⟨.unreadable one "its Journey does not read".toList, ()⟩]
        (.ok none)
  | noMessage {record : Option (List UInt8)} {journey : J}
      (hjourney : record.bind JourneyRecord.fromRecord = some journey)
      (hmessage : (JourneyRecord.messages journey).getLast? = none) :
      Read one [⟨.readJourney one.journey, .ok record⟩,
        ⟨.unreadable one "its Journey holds no Message".toList, ()⟩]
        (.ok none)
  | unstreamed {record : Option (List UInt8)} {journey : J} {stream : Nat}
      (hjourney : record.bind JourneyRecord.fromRecord = some journey)
      (hmessage : (JourneyRecord.messages journey).getLast? = some stream) (why : Text) :
      Read one [⟨.readJourney one.journey, .ok record⟩, ⟨.readWhole stream, .error why⟩]
      (.error why)
  | noPair {record : Option (List UInt8)} {journey : J} {stream : Nat} {bytes : List UInt8}
      (hjourney : record.bind JourneyRecord.fromRecord = some journey)
      (hmessage : (JourneyRecord.messages journey).getLast? = some stream)
        (hpair : pair J one.body bytes = none) :
      Read one [⟨.readJourney one.journey, .ok record⟩, ⟨.readWhole stream, .ok bytes⟩,
        ⟨.unreadable one "it is not a pair this node held".toList, ()⟩] (.ok none)
  | pair {record : Option (List UInt8)} {journey : J} {stream : Nat} {bytes : List UInt8}
      {handoff : Handoff}
      (hjourney : record.bind JourneyRecord.fromRecord = some journey)
      (hmessage : (JourneyRecord.messages journey).getLast? = some stream)
      (hpair : pair J one.body bytes = some handoff) :
      Read one [⟨.readJourney one.journey, .ok record⟩, ⟨.readWhole stream, .ok bytes⟩]
      (.ok (some (handoff, journey)))

omit [JourneyRecord J] in
private theorem told_passOver {one : Released} {why : String} {calls : List (Answered (PickupOp J))}
    {found : Except Text (Option (Handoff × J))} :
    (passOver one why).Told calls found ↔ calls = [⟨.unreadable one why.toList, ()⟩] ∧
    found = .ok none := by
  refine Prog.told_perform_bind.trans ⟨?_, ?_⟩
  · rintro ⟨⟨⟩, rest, rfl, h⟩
    obtain ⟨rfl, rfl⟩ := Prog.told_pure.mp h
    exact ⟨rfl, rfl⟩
  · rintro ⟨rfl, rfl⟩
    exact ⟨(), [], rfl, .pure⟩

/-- A Stream read whole, and what it makes of the pair. -/
theorem read_of_told_stream {one : Released} {record : Option (List UInt8)} {journey : J}
    {stream : Nat} {calls : List (Answered (PickupOp J))}
    {found : Except Text (Option (Handoff × J))} {read : Except Text (List UInt8)}
    (hjourney : record.bind JourneyRecord.fromRecord = some journey)
    (hmessage : (JourneyRecord.messages journey).getLast? = some stream)
    (h : Prog.Told (match read with
      | .error why => pure (.error why)
      | .ok bytes =>
        match Subscribing.pair J one.body bytes with
        | none => passOver one "it is not a pair this node held"
        | some handoff => pure (.ok (some (handoff, journey)))) calls found) :
    Read one (⟨.readJourney one.journey, .ok record⟩ :: ⟨.readWhole stream, read⟩ :: calls)
      found := by
  cases read with
  | error why =>
    -- the stream could not be read: what is found is the error
    obtain ⟨rfl, rfl⟩ := Prog.told_pure.mp h
    exact .unstreamed hjourney hmessage why
  | ok bytes =>
    cases hpair : Subscribing.pair J one.body bytes with
    -- read, and no pair this node held: passed over
    | none =>
      simp only [hpair] at h
      obtain ⟨rfl, rfl⟩ := told_passOver.mp h
      exact .noPair hjourney hmessage hpair
    -- read, and the pair it was put in as
    | some handoff =>
      simp only [hpair] at h
      obtain ⟨rfl, rfl⟩ := Prog.told_pure.mp h
      exact .pair hjourney hmessage hpair

/-- **Reading back** makes the calls of one of its ways, and comes to what it comes to. -/
theorem told_readBack {one : Released} {calls : List (Answered (PickupOp J))}
    {found : Except Text (Option (Handoff × J))} : (readBack one).Told calls found ↔
    Read one calls found := by
  constructor
  · intro h
    -- The Journey is read first; what it holds decides whether a Stream is read at all.
    obtain ⟨answer, rest, rfl, hrest⟩ := Prog.told_perform_bind.mp h
    cases answer with
    | error why =>
      obtain ⟨rfl, rfl⟩ := Prog.told_pure.mp hrest
      exact .unrecorded why
    | ok record =>
      cases hjourney : record.bind (JourneyRecord.fromRecord (J := J)) with
      | none =>
        simp only [hjourney] at hrest
        obtain ⟨rfl, rfl⟩ := told_passOver.mp hrest
        exact .noJourney hjourney
      | some journey =>
        simp only [hjourney] at hrest
        cases hmessage : (JourneyRecord.messages journey).getLast? with
        | none =>
          simp only [hmessage] at hrest
          obtain ⟨rfl, rfl⟩ := told_passOver.mp hrest
          exact .noMessage hjourney hmessage
        | some stream =>
          simp only [hmessage] at hrest
          obtain ⟨read, later, rfl, hlater⟩ := Prog.told_perform_bind.mp hrest
          exact read_of_told_stream hjourney hmessage hlater
  · intro h
    -- Each way fixes what the calls answered, and so the branch taken.
    unfold readBack
    apply Prog.told_perform_bind.mpr
    cases h with
    | unrecorded why => exact ⟨.error why, [], rfl, .pure⟩
    | @noJourney record hjourney =>
      refine ⟨.ok record, _, rfl, ?_⟩
      simp only [hjourney]
      exact told_passOver.mpr ⟨rfl, rfl⟩
    | @noMessage record journey hjourney hmessage =>
      refine ⟨.ok record, _, rfl, ?_⟩
      simp only [hjourney, hmessage]
      exact told_passOver.mpr ⟨rfl, rfl⟩
    | @unstreamed record journey stream hjourney hmessage why =>
      refine ⟨.ok record, _, rfl, ?_⟩
      simp only [hjourney, hmessage]
      exact Prog.told_perform_bind.mpr ⟨.error why, [], rfl, .pure⟩
    | @noPair record journey stream bytes hjourney hmessage hpair =>
      refine ⟨.ok record, _, rfl, ?_⟩
      simp only [hjourney, hmessage]
      refine Prog.told_perform_bind.mpr ⟨.ok bytes, _, rfl, ?_⟩
      simp only [hpair]
      exact told_passOver.mpr ⟨rfl, rfl⟩
    | @pair record journey stream bytes handoff hjourney hmessage hpair =>
      refine ⟨.ok record, _, rfl, ?_⟩
      simp only [hjourney, hmessage]
      refine Prog.told_perform_bind.mpr ⟨.ok bytes, [], rfl, ?_⟩
      simp only [hpair]
      exact .pure

/-! ### What an entry comes to -/

/-- What one of the entries let go of comes to: each comes to one of these. -/
inductive Fate (J : Type) where
  /-- Not read, an earlier one of its Subscription having failed to read. -/
  | stalled
  /-- It could not be read. -/
  | unread (reading : List (Answered (PickupOp J))) (why : Text)
  /-- It is no pair. -/
  | passedOver (reading : List (Answered (PickupOp J)))
  /-- It is a pair, to hand on. -/
  | picked (reading : List (Answered (PickupOp J))) (handoff : Handoff) (journey : J)

namespace Fate

/-- The calls made of the entry before any pair is handed on. -/
def calls (one : Released) : Fate J → List (Answered (PickupOp J))
  | .stalled => [⟨.again one, ()⟩]
  | .unread reading _ => reading ++ [⟨.again one, ()⟩]
  | .passedOver reading => reading
  | .picked reading _ _ => reading

/-- What the entry is to hand on, if it is. -/
def handed (one : Released) : Fate J → Option (Picked J)
  | .picked _ handoff journey => some ⟨handoff, one, journey⟩
  | _ => none

/-- Reading the entry back came to its fate. -/
def Came (one : Released) : Fate J → Prop
  | .stalled => True
  | .unread reading why => Read one reading (.error why)
  | .passedOver reading => Read one reading (.ok none)
  | .picked reading handoff journey => Read one reading (.ok (some (handoff, journey)))

/-- The entry was read, and could not be. -/
def IsUnread : Fate J → Prop
  | .unread _ _ => True
  | _ => False

/-- The Subscriptions that are stalled once the entry has been dealt with. -/
def stalling (one : Released) (stalled : List Text) : Fate J → List Text
  | .unread _ _ => stalled ++ [one.subscription]
  | _ => stalled

omit [JourneyRecord J] in
private theorem mem_stalling {one : Released} {stalled : List Text} {fate : Fate J}
    {subscription : Text} :
    subscription ∈ fate.stalling one stalled ↔
      subscription ∈ stalled ∨ (one.subscription = subscription ∧ fate.IsUnread) := by
  cases fate with
  | unread reading why =>
    rw [stalling, List.mem_append, List.mem_singleton, eq_comm]
    exact or_congr_right (and_iff_left trivial).symm
  | stalled => exact (or_iff_left fun h => h.2).symm
  | passedOver reading => exact (or_iff_left fun h => h.2).symm
  | picked reading handoff journey => exact (or_iff_left fun h => h.2).symm

end Fate

/-- The first of the entries comes to one fate, and the rest are read with what that stalls. -/
theorem told_readEach_cons {one : Released} {rest : List Released} {stalled : List Text}
    {calls : List (Answered (PickupOp J))} {picked : List (Picked J)} :
    (readEach (one :: rest) stalled).Told calls picked ↔
      ∃ (fate : Fate J) (later : List (Answered (PickupOp J))) (more : List (Picked J)),
        (fate = .stalled ↔ one.subscription ∈ stalled) ∧ fate.Came one ∧
          (readEach rest (fate.stalling one stalled)).Told later more ∧
          calls = fate.calls one ++ later ∧ picked = (fate.handed one).toList ++ more := by
  rw [readEach]
  -- A stalled entry is put back unread; any other is read back first.
  split_ifs with hstalled
  · refine Prog.told_perform_bind.trans ⟨?_, ?_⟩
    · rintro ⟨⟨⟩, later, rfl, hlater⟩
      exact ⟨.stalled, later, picked, iff_of_true rfl hstalled, trivial, hlater, rfl, rfl⟩
    · rintro ⟨fate, later, more, hfate, -, hlater, rfl, rfl⟩
      obtain rfl := hfate.mpr hstalled
      exact ⟨(), later, rfl, hlater⟩
  · refine Prog.told_bind.trans ⟨?_, ?_⟩
    · rintro ⟨found, reading, later, hread, hlater, rfl⟩
      have hsound := told_readBack.mp hread
      -- What was found decides the fate; each case reads the rest its own way.
      cases found with
      | error why =>
        obtain ⟨⟨⟩, after, rfl, hafter⟩ := Prog.told_perform_bind.mp hlater
        refine ⟨.unread reading why, after, picked, iff_of_false nofun hstalled, hsound, hafter, ?_,
          rfl⟩
        exact (List.append_cons reading _ after)
      | ok found =>
        cases found with
        | none =>
          exact ⟨.passedOver reading, later, picked, iff_of_false nofun hstalled, hsound, hlater,
            rfl, rfl⟩
        | some pair =>
          obtain ⟨more, after, tail, hafter, hend, rfl⟩ := Prog.told_bind.mp hlater
          obtain ⟨rfl, rfl⟩ := Prog.told_pure.mp hend
          refine ⟨.picked reading pair.1 pair.2, after, more, iff_of_false nofun hstalled, hsound,
            hafter, ?_, rfl⟩
          rw [List.append_nil]
          rfl
    · rintro ⟨fate, later, more, hfate, hsound, hlater, rfl, rfl⟩
      cases fate with
      | stalled => exact absurd (hfate.mp rfl) hstalled
      | unread reading why =>
        refine ⟨.error why, reading, _, told_readBack.mpr hsound, ?_, List.append_assoc ..⟩
        exact Prog.told_perform_bind.mpr ⟨(), later, rfl, hlater⟩
      | passedOver reading =>
        exact ⟨.ok none, reading, later, told_readBack.mpr hsound, hlater, rfl⟩
      | picked reading handoff journey =>
        refine ⟨.ok (some (handoff, journey)), reading, later, told_readBack.mpr hsound, ?_, rfl⟩
        exact Prog.told_bind.mpr ⟨more, later, [], hlater, .pure, (List.append_nil _).symm⟩

/-- The entries and their fates, as one pass comes to them: an entry stalls just where one of its
Subscription before it failed to read. -/
def Fared : List Text → List (Released × Fate J) → Prop
  | _, [] => True
  | stalled, (one, fate) :: rest =>
    (fate = .stalled ↔ one.subscription ∈ stalled) ∧ fate.Came one ∧
      Fared (fate.stalling one stalled) rest

/-- **Reading what was let go of** comes to one fate for each entry, in order. -/
theorem told_readEach {l : List Released} {stalled : List Text}
    {calls : List (Answered (PickupOp J))} {picked : List (Picked J)} :
    (readEach l stalled).Told calls picked ↔
      ∃ deals : List (Released × Fate J), deals.map Prod.fst = l ∧ Fared stalled deals ∧
        calls = deals.flatMap (fun d => d.2.calls d.1) ∧ picked = deals.filterMap fun d =>
        d.2.handed d.1 := by
  induction l generalizing stalled calls picked with
  | nil =>
    -- No entry, no fate.
    refine Prog.told_pure.trans ⟨?_, ?_⟩
    · rintro ⟨rfl, rfl⟩
      exact ⟨[], rfl, trivial, rfl, rfl⟩
    · rintro ⟨deals, hdeals, -, rfl, rfl⟩
      obtain rfl := List.map_eq_nil_iff.mp hdeals
      exact ⟨rfl, rfl⟩
  | cons one rest ih =>
    refine told_readEach_cons.trans ⟨?_, ?_⟩
    · rintro ⟨fate, later, more, hfate, hsound, hlater, rfl, rfl⟩
      -- The induction carries what is stalled, which the first entry's fate may add to.
      obtain ⟨deals, rfl, hfared, rfl, rfl⟩ := ih.mp hlater
      refine ⟨(one, fate) :: deals, rfl, ⟨hfate, hsound, hfared⟩, rfl, ?_⟩
      rw [List.filterMap_cons]
      cases fate.handed one with
      | none => rfl
      | some picked => rfl
    · rintro ⟨deals, hdeals, hfared, rfl, rfl⟩
      obtain ⟨⟨one', fate⟩, deals, rfl, rfl, rfl⟩ := List.map_eq_cons_iff.mp hdeals
      obtain ⟨hfate, hsound, hrest⟩ := hfared
      refine ⟨fate, _, _, hfate, hsound, ih.mpr ⟨deals, rfl, hrest, rfl, rfl⟩, rfl, ?_⟩
      rw [List.filterMap_cons]
      cases fate.handed one' with
      | none => rfl
      | some picked => rfl

/-- An entry is stalled just where one of its Subscription before it failed to read. -/
def InOrder (stalled : List Text) (deals : List (Released × Fate J)) : Prop :=
  ∀ before one fate after, deals = before ++ (one, fate) :: after →
    (fate = .stalled ↔
      one.subscription ∈ stalled ∨ ∃ d ∈ before, d.1.subscription = one.subscription ∧ d.2.IsUnread)

omit [JourneyRecord J] in
private theorem inOrder_cons {stalled : List Text} {one : Released} {fate : Fate J}
    {rest : List (Released × Fate J)} :
    InOrder stalled ((one, fate) :: rest) ↔
      (fate = .stalled ↔ one.subscription ∈ stalled) ∧
      InOrder (fate.stalling one stalled) rest := by
  constructor
  · -- An entry of the rest has the first before it as well, and that is what the first stalls.
    refine fun h => ⟨?_, fun before other otherFate after hrest => ?_⟩
    · simpa using h [] one fate rest rfl
    · have hother := h ((one, fate) :: before) other otherFate after (congrArg _ hrest)
      rwa [List.exists_mem_cons_iff, ← or_assoc, ← Fate.mem_stalling] at hother
  · rintro ⟨hfirst, hrest⟩ before other otherFate after hdeals
    cases before with
    | nil =>
      obtain ⟨⟨rfl, rfl⟩, rfl⟩ := List.cons.inj hdeals
      simpa using hfirst
    | cons d before =>
      obtain ⟨rfl, rfl⟩ := List.cons.inj hdeals
      rw [List.exists_mem_cons_iff, ← or_assoc, ← Fate.mem_stalling]
      exact hrest before other otherFate after rfl

/-- **One pass in order**: each entry's reading came to its fate, and the stalled are those after a
failed one. -/
theorem fared_iff {stalled : List Text} {deals : List (Released × Fate J)} :
    Fared stalled deals ↔ (∀ d ∈ deals, d.2.Came d.1) ∧ InOrder stalled deals := by
  induction deals generalizing stalled with
  | nil =>
    refine iff_of_true trivial ⟨fun d hd => absurd hd List.not_mem_nil,
      fun before one fate after h => ?_⟩
    exact absurd h.symm (List.append_ne_nil_of_right_ne_nil _ (List.cons_ne_nil _ _))
  | cons d rest ih =>
    obtain ⟨one, fate⟩ := d
    rw [Fared, ih, List.forall_mem_cons, inOrder_cons]
    tauto

/-! ### What was picked, handed on and settled -/

/-- The calls that settle a pair: what its queue is told of it, and another go where that was not
written. -/
def settling (picked : Picked J) (handed written : Except Text Unit) :
    List (Answered (PickupOp J)) :=
  (match handed with
    | .ok () => ⟨.delivered picked.released (JourneyRecord.marked .completed picked.journey),
        written⟩
    | .error _ => ⟨.kept picked.released (JourneyRecord.marked .failed picked.journey), written⟩) ::
  match written with
  | .ok () => []
  | .error _ => [⟨.again picked.released, ()⟩]

/-- **Settling a pair** is one write to its queue, and its entry put back just where that failed. -/
theorem told_done {picked : Picked J} {handed : Except Text Unit}
    {calls : List (Answered (PickupOp J))} {u : Unit} :
    (done picked handed).Told calls u ↔ ∃ written, calls = settling picked handed written := by
  -- Either write ends alike: nothing more where it was taken, the entry put back where not.
  have hend (written : Except Text Unit) (rest : List (Answered (PickupOp J))) :
      Prog.Told (match written with
        | .ok () => pure ()
        | .error _ => Prog.perform (.again picked.released)) rest u ↔
      rest = match written with
        | .ok () => []
        | .error _ => [⟨.again picked.released, ()⟩] := by
    cases written with
    | ok => exact Prog.told_pure.trans (and_iff_left rfl)
    | error why => exact Prog.told_perform
  cases handed with
  | ok =>
    refine Prog.told_perform_bind.trans (exists_congr fun written => ?_)
    simp only [hend, exists_eq_right]
    rfl
  | error why =>
    refine Prog.told_perform_bind.trans (exists_congr fun written => ?_)
    simp only [hend, exists_eq_right]
    rfl

variable {κ : Type} [Capability κ]

/-- Pairs handed on in their order, each settled before the next is handed on: the calls, and the
relay after them. -/
inductive Settled (now : Int) :
    Relay κ → List (Picked J) → List (Answered (PickupOp J)) → Relay κ → Prop
  | nil {r : Relay κ} : Settled now r [] [] r
  | cons {r r' r'' : Relay κ} {picked : Picked J} {rest : List (Picked J)}
      {handing : List (Answered RelayOp)} {later : List (Answered (PickupOp J))}
      {handed : Except Text Unit} (written : Except Text Unit)
      (hhanded : (r.handOn picked.handoff now).Told handing (handed, r'))
        (hrest : Settled now r' rest later r'') :
      Settled now r (picked :: rest)
        (handing.map (Answered.lift fun _ => .relay) ++ (settling picked handed written ++ later))
          r''

/-- **Handing on what was picked** settles each pair once, in order. -/
theorem told_handOnEach {now : Int} {picked : List (Picked J)} {r r' : Relay κ}
    {calls : List (Answered (PickupOp J))} :
    (handOnEach now picked r).Told calls r' ↔ Settled now r picked calls r' := by
  induction picked generalizing r calls with
  | nil =>
    constructor
    · intro h
      obtain ⟨rfl, rfl⟩ := Prog.told_pure.mp h
      exact .nil
    · rintro ⟨⟩
      exact .pure
  | cons picked rest ih =>
    constructor
    · intro h
      -- The relay's own calls come first, then what settles the pair, then the rest's.
      obtain ⟨⟨handed, s⟩, first, later, hhanded, hlater, rfl⟩ := Prog.told_bind.mp h
      obtain ⟨handing, hhanding, rfl⟩ := Prog.told_lift.mp hhanded
      obtain ⟨u, settled, after, hsettled, hafter, rfl⟩ := Prog.told_bind.mp hlater
      obtain ⟨written, rfl⟩ := told_done.mp hsettled
      exact .cons written hhanding (ih.mp hafter)
    · intro h
      cases h with
      | cons written hhanded hrest =>
        refine Prog.told_bind.mpr ⟨_, _, _, Prog.told_lift.mpr ⟨_, hhanded, rfl⟩, ?_, rfl⟩
        exact Prog.told_bind.mpr ⟨(), _, _, told_done.mpr ⟨written, rfl⟩, ih.mpr hrest, rfl⟩

/-- What a pass did to the relay is what the relay's round says of the handoffs picked. -/
theorem Settled.comes {now : Int} {r r' : Relay κ} {picked : List (Picked J)}
    {calls : List (Answered (PickupOp J))} (h : Settled now r picked calls r') :
    (Relay.handOnReleased now (picked.map Picked.handoff) r).Comes r' := by
  induction h with
  | nil => exact .pure
  | cons written hhanded hrest ih =>
    -- A round of the relay alone has the same calls, its `done` answered in the settling's place.
    refine Prog.runs_bind.mpr ⟨_, (), hhanded.comes, ?_⟩
    exact Prog.runs_perform_bind.mpr ⟨(), (), trivial, ih⟩

/-- One pass, call by call: every entry read to its fate in order, then every pair handed on and
settled in order, which leaves the relay as its own round does. -/
structure Pass (now : Int) (r : Relay κ) (calls : List (Answered (PickupOp J))) (r' : Relay κ)
    (deals : List (Released × Fate J)) (settling : List (Answered (PickupOp J))) : Prop where
  calls_eq : calls = ⟨.released, deals.map Prod.fst⟩ :: deals.flatMap (fun d => d.2.calls d.1) ++
    settling
  came : ∀ d ∈ deals, d.2.Came d.1
  inOrder : InOrder [] deals
  settled : Settled now r (deals.filterMap fun d => d.2.handed d.1) settling r'
  comes : (Relay.handOnReleased now ((deals.filterMap fun d => d.2.handed d.1).map Picked.handoff)
    r).Comes r'

/-- **The transcripts of a pass** are those that deal with each entry let go of in exactly one
way. -/
theorem told_handOnReleased_iff {now : Int} {r r' : Relay κ}
    {calls : List (Answered (PickupOp J))} :
    (handOnReleased J now r).Told calls r' ↔
      if r.subscribing then ∃ deals settling, Pass now r calls r' deals settling else calls = [] ∧
      r' = r := by
  unfold handOnReleased
  split_ifs with hsubscribing
  · -- All is read before anything is handed on: the calls of the one stand before those of the
    -- other.
    refine Prog.told_bind.trans ⟨?_, ?_⟩
    · rintro ⟨picked, first, settling, hread, hsettled, rfl⟩
      obtain ⟨l, reading, rfl, hreading⟩ := Prog.told_perform_bind.mp hread
      obtain ⟨deals, rfl, hfared, rfl, rfl⟩ := told_readEach.mp hreading
      obtain ⟨hsound, hinOrder⟩ := fared_iff.mp hfared
      have hsettled := told_handOnEach.mp hsettled
      exact ⟨deals, settling, rfl, hsound, hinOrder, hsettled, hsettled.comes⟩
    · rintro ⟨deals, settling, rfl, hsound, hinOrder, hsettled, -⟩
      have hread := told_readEach.mpr ⟨deals, rfl, fared_iff.mpr ⟨hsound, hinOrder⟩, rfl, rfl⟩
      refine ⟨_, _, settling, ?_, told_handOnEach.mpr hsettled, rfl⟩
      exact Prog.told_perform_bind.mpr ⟨_, _, rfl, hread⟩
  · exact Prog.told_pure

end Subscribing

end XmipEssentials
