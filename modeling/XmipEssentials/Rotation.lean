import XmipEssentials.Fault
import XmipEssentials.Lib.Window

/-!
# The fault every fifty seconds

The Parties of a configuration are spread over the transports in both directions (`Spread`): each
sends over the transports whose place in the list falls to it, and is delivered to over those of the
next one's share. Each turn of fifty seconds strikes one target for its first ten: a Party's
transport on one turn, one stream of another's on the next, the Parties in order and each second
round of them on the side delivered to (`Rotation.turn`). The seconds and the turns are natural
numbers here; a turn is mixed in its low 64 bits.

* `Rotation.regular_of_distinct` — what is struck, when, and that every relay asked of it is told
  the same.
-/

namespace XmipEssentials

open Text

/-! ### The Parties over the transports -/

/-- The Parties a configuration declares: none is refused. -/
structure Parties (ρ : Type) where
  all : List ρ
  declared : all ≠ []

/-- Which Party is on which transport, on each side. -/
structure Spread (ρ : Type) where
  parties : Parties ρ
  transports : List Text

namespace Spread

variable {ρ : Type}

/-- How many Parties there are. -/
def count (s : Spread ρ) : Nat := s.parties.all.length

theorem count_pos (s : Spread ρ) : 0 < s.count := List.length_pos_iff.mpr s.parties.declared

/-- The place of a transport in the list: the first, where it is not in it. -/
def place (s : Spread ρ) (transport : Text) : Nat := (s.transports.idxOf? transport).getD 0

/-- The place of the Party that sends into the Receive Locations of a transport. -/
def sender (s : Spread ρ) (transport : Text) : Nat := s.place transport % s.count

/-- The place of the Party the Send Locations of a transport deliver to: the next Party's. -/
def receiver (s : Spread ρ) (transport : Text) : Nat := (s.place transport + 1) % s.count

/-- The transports whose Party is the one at `place`. -/
def overWhose (s : Spread ρ) (place : Nat) (whose : Text → Nat) : List Text :=
  s.transports.filter fun transport => whose transport = place

/-- The transports the Party at `place` sends over. -/
def sends (s : Spread ρ) (place : Nat) : List Text := s.overWhose place s.sender

/-- The transports the Party at `place` is delivered to over. -/
def receives (s : Spread ρ) (place : Nat) : List Text := s.overWhose place s.receiver

end Spread

/-! ### The rotation -/

/-- Seconds from one fault to the next. -/
def PERIOD : Nat := 50

/-- Seconds a fault lasts from the start of its turn. -/
def STRIKE : Nat := 10

/-- What one turn strikes. -/
structure Strike where
  /-- The place of the Party struck. -/
  party : Nat
  /-- Receive where it sends into the cluster, Send where it is delivered to. -/
  stage : Stage
  transport : Text
  /-- The one stream struck, or every stream over the transport. -/
  contract : Option Contract
  fault : Fault
  deriving DecidableEq, Repr

/-- The rotation over a run's Parties and their transports. -/
structure Rotation (ρ : Type) where
  spread : Spread ρ

/-- A turn mixed into bits that look varied from one turn to the next. -/
def mix (turn : Nat) : UInt64 :=
  let bits := UInt64.ofNat turn + 0x9E3779B97F4A7C15
  let bits := (bits ^^^ (bits >>> 30)) * 0xBF58476D1CE4E5B9
  let bits := (bits ^^^ (bits >>> 27)) * 0x94D049BB133111EB
  bits ^^^ (bits >>> 31)

/-- The fault a turn strikes with: a transport's connection or address, or a stream's content. -/
def turnFault (stage : Stage) (stream : Bool) (turn : Nat) : Fault :=
  match stage, stream, turn / 2 % 2 with
  | .send, false, 0 => ⟨.addressing, "the target host did not resolve".toList⟩
  | .send, false, _ => ⟨.transport, "the send target refused the connection".toList⟩
  | .send, true, _ => ⟨.contract, "the Party refused the content: its contract was not held".toList⟩
  | _, false, _ => ⟨.transport, "connection reset by peer".toList⟩
  | _, true, _ => ⟨.contract, "schema validation failed: unexpected element".toList⟩

/-- The stream a mixed turn strikes, when it strikes one. -/
def turnContract (mixed : UInt64) : Contract :=
  contracts.get ⟨(mixed >>> 16).toNat % contracts.length, Nat.mod_lt _ (by decide)⟩

namespace Rotation

variable {ρ : Type}

/-- The Party a turn addresses: the Parties in order. -/
def party (r : Rotation ρ) (turn : Nat) : Nat := turn % r.spread.count

/-- The side a turn addresses: each second round of the Parties the one delivered to. -/
def stage (r : Rotation ρ) (turn : Nat) : Stage :=
  if turn / r.spread.count % 2 = 0 then .receive else .send

/-- What a turn may strike: the Party's transports on that side but the steady one. -/
def candidates (r : Rotation ρ) (turn : Nat) : List Text :=
  (if r.stage turn = .send then r.spread.receives (r.party turn)
    else r.spread.sends (r.party turn)).filter
    (· ≠ STEADY)

/-- What turn `turn` strikes: every other turn one stream rather than a whole transport. None where
the Party has no transport on that side but the steady one. -/
def turn (r : Rotation ρ) (turn : Nat) : Option Strike := do
  let stage := r.stage turn
  let candidates := r.candidates turn
  let mixed := mix turn
  let transport ← candidates[mixed.toNat % max candidates.length 1]?
  let stream := turn % 2 == 1
  some ⟨r.party turn, stage, transport, if stream then some (turnContract mixed) else none,
    turnFault stage stream turn⟩

/-- What is struck at a second: its turn's target during the first seconds, nothing for the rest. -/
def striking (r : Rotation ρ) (unixSeconds : Nat) : Option Strike :=
  if unixSeconds % PERIOD < STRIKE then r.turn (unixSeconds / PERIOD) else none

/-- The fault a pair suffers at a stage and a second, if it is what is struck. -/
def faultFor (r : Rotation ρ) (stage : Stage) (transport : Text) (contract : Contract)
    (unixSeconds : Nat) :
    Option Fault :=
  (((r.striking unixSeconds).filter fun strike => strike.stage = stage ∧
    strike.transport = transport).filter fun strike =>
      strike.contract.all (· = contract)).map Strike.fault

end Rotation

/-! ### What a Party uses -/

namespace Spread

variable {ρ : Type} {s : Spread ρ} {transport : Text} {party : Nat}

/-- A Party uses a transport on a side: the transports fall to the Parties in order, and on the side
delivered to each has the share of the one before it. -/
def Uses (s : Spread ρ) (party : Nat) (stage : Stage) (transport : Text) : Prop :=
  ∃ place, s.transports[place]? = some transport ∧
    (place + if stage = .send then 1 else 0) % s.count = party

theorem place_of_getElem? (h : s.transports.Nodup) {place : Nat}
    (hplace : s.transports[place]? = some transport) : s.place transport = place := by
  obtain ⟨hlt, rfl⟩ := List.getElem?_eq_some_iff.mp hplace
  -- No place before holds the same transport, so the first found is this one.
  have hfound : s.transports.idxOf? s.transports[place] = some place := by
    refine List.idxOf?_eq_some_iff.mpr ⟨hlt, rfl, fun earlier hearlier heq => ?_⟩
    have hsame := h.getElem_inj_iff.mp heq
    omega
  rw [Spread.place, hfound]
  rfl

private theorem mem_overWhose (h : s.transports.Nodup) {whose : Text → Nat} {share : Nat}
    (hwhose : ∀ transport, whose transport = (s.place transport + share) % s.count) :
    transport ∈ s.overWhose party whose ↔
      ∃ place, s.transports[place]? = some transport ∧ (place + share) % s.count = party := by
  rw [overWhose, List.mem_filter, decide_eq_true_iff, hwhose]
  constructor
  · rintro ⟨hmem, hparty⟩
    obtain ⟨place, hplace⟩ := List.mem_iff_getElem?.mp hmem
    rw [place_of_getElem? h hplace] at hparty
    exact ⟨place, hplace, hparty⟩
  · rintro ⟨place, hplace, hparty⟩
    refine ⟨List.mem_of_getElem? hplace, ?_⟩
    rwa [place_of_getElem? h hplace]

private theorem mem_sends (h : s.transports.Nodup) :
    transport ∈ s.sends party ↔ s.Uses party .receive transport := mem_overWhose h fun _ => rfl

private theorem mem_receives (h : s.transports.Nodup) :
    transport ∈ s.receives party ↔ s.Uses party .send transport := mem_overWhose h fun _ => rfl

end Spread

/-! ### What a turn strikes -/

namespace Rotation

variable {ρ : Type} {r : Rotation ρ} {turn : Nat} {strike : Strike}

private theorem stage_eq (r : Rotation ρ) (turn : Nat) :
    r.stage turn = .receive ∨ r.stage turn = .send := by
  unfold stage
  split
  · exact .inl rfl
  · exact .inr rfl

/-- What a turn may strike is what the Party it addresses uses on the side it addresses, but the
steady transport. -/
theorem mem_candidates (h : r.spread.transports.Nodup) {transport : Text} :
    transport ∈ r.candidates turn ↔
      r.spread.Uses (r.party turn) (r.stage turn) transport ∧ transport ≠ STEADY := by
  rw [candidates, List.mem_filter, decide_eq_true_iff]
  rcases stage_eq r turn with hstage | hstage
  · rw [hstage, if_neg (by decide), Spread.mem_sends h]
  · rw [hstage, if_pos rfl, Spread.mem_receives h]

/-- What a turn strikes is one of its candidates, and there is one where there are any. -/
theorem of_turn (h : r.turn turn = some strike) :
    strike.party = r.party turn ∧ strike.stage = r.stage turn ∧
    strike.transport ∈ r.candidates turn := by
  rw [Rotation.turn] at h
  obtain ⟨transport, htransport, hstrike⟩ := Option.bind_eq_some_iff.mp h
  rw [← Option.some.inj hstrike]
  exact ⟨rfl, rfl, List.mem_of_getElem? htransport⟩

private theorem isSome_turn (r : Rotation ρ) (turn : Nat) :
    (r.turn turn).isSome ↔ r.candidates turn ≠ [] := by
  constructor
  · intro h
    obtain ⟨strike, hstrike⟩ := Option.isSome_iff_exists.mp h
    exact List.ne_nil_of_mem (of_turn hstrike).2.2
  · intro h
    have hpos : 0 < (r.candidates turn).length := List.length_pos_iff.mpr h
    have hlt : (mix turn).toNat % max (r.candidates turn).length 1 <
      (r.candidates turn).length := by
      rw [Nat.max_eq_left hpos]
      exact Nat.mod_lt _ hpos
    rw [Rotation.turn, List.getElem?_eq_getElem hlt]
    rfl

/-- What is struck at a second is its turn's, in the turn's first seconds. -/
theorem striking_eq_some {second : Nat} :
    r.striking second = some strike ↔ second % PERIOD < STRIKE ∧
    r.turn (second / PERIOD) = some strike := by
  unfold striking
  split
  · next hlt => exact (and_iff_right hlt).symm
  · next hlt => exact iff_of_false (Option.not_mem_none strike) fun h => hlt h.1

private theorem faultFor_eq_some {stage : Stage} {transport : Text} {contract : Contract}
    {second : Nat} {fault : Fault} :
    r.faultFor stage transport contract second = some fault ↔
      ∃ strike, r.striking second = some strike ∧ strike.stage = stage ∧
      strike.transport = transport ∧
        (strike.contract = none ∨ strike.contract = some contract) ∧ strike.fault = fault := by
  unfold faultFor
  rw [Option.map_eq_some_iff]
  apply exists_congr
  intro strike
  rw [Option.filter_eq_some_iff, Option.filter_eq_some_iff, decide_eq_true_iff]
  -- A strike of no one stream is of every stream.
  have hcontract : strike.contract.all (fun only => decide (only = contract)) = true ↔
      strike.contract = none ∨ strike.contract = some contract := by
    cases strike.contract with
    | none => exact iff_of_true rfl (.inl rfl)
    | some only => simp
  rw [hcontract]
  tauto

/-- A turn's number, round the Parties on both sides. -/
theorem addressed_iff {party : Nat} (hparty : party < r.spread.count) {stage : Stage}
    (hstage : stage = .receive ∨ stage = .send) :
    r.party turn = party ∧ r.stage turn = stage ↔
      turn % (2 * r.spread.count) = party + r.spread.count * (if stage = .send then 1 else 0) := by
  have hside : turn / r.spread.count % 2 < 2 := Nat.mod_lt _ Nat.two_pos
  -- Modulo twice the count a turn is its Party's place, and the count once more on the second side.
  rw [Nat.mul_comm 2, Nat.mod_mul, Rotation.party, Rotation.stage]
  have hmod : turn % r.spread.count < r.spread.count := Nat.mod_lt _ r.spread.count_pos
  generalize turn % r.spread.count = place at hmod ⊢
  generalize turn / r.spread.count % 2 = side at hside ⊢
  -- Two sides against two stages: they agree, or the count apart is too much for a place.
  obtain rfl | rfl : side = 0 ∨ side = 1 := by omega
  all_goals
    rcases hstage with rfl | rfl <;> simp
    omega

/-! ### The rotation is regular -/

/-- What holds of a rotation over distinct transports, at every second and over all its turns. -/
structure Regular (r : Rotation ρ) : Prop where
  /-- A strike is active in the first ten seconds of a fifty-second turn only. -/
  first_seconds : ∀ second, (r.striking second).isSome → second % 50 < 10
  /-- There it is just where the Party addressed has another transport than the steady one on the
  side addressed. -/
  active_iff : ∀ second, second % 50 < 10 → ((r.striking second).isSome ↔
    ∃ transport, r.spread.Uses (r.party (second / 50)) (r.stage (second / 50)) transport ∧
    transport ≠ STEADY)
  /-- What is struck is of the Party and side addressed, and is never the steady transport. -/
  struck : ∀ second strike, r.striking second = some strike →
    strike.party = r.party (second / 50) ∧ strike.stage = r.stage (second / 50) ∧
      r.spread.Uses strike.party strike.stage strike.transport ∧ strike.transport ≠ STEADY
  /-- A pair suffers a fault at a stage just while its transport is struck there, in whole or in its
  stream. -/
  fault_iff : ∀ stage transport contract second fault,
    r.faultFor stage transport contract second = some fault ↔
      ∃ strike, r.striking second = some strike ∧ strike.stage = stage ∧
      strike.transport = transport ∧
        (strike.contract = none ∨ strike.contract = some contract) ∧ strike.fault = fault
  /-- As many turns in a row as there are Parties on both sides address each Party on each side
  once. -/
  each_once : ∀ first, ∀ party < r.spread.count, ∀ stage, stage = .receive ∨ stage = .send →
    ∃! turn, (first ≤ turn ∧ turn < first + 2 * r.spread.count) ∧ r.party turn = party ∧
    r.stage turn = stage

/-- **The rotation is sound**, over any Parties and any distinct transports. -/
theorem regular_of_distinct (r : Rotation ρ) (h : r.spread.transports.Nodup) : r.Regular where
  first_seconds second hsome := by
    obtain ⟨strike, hstrike⟩ := Option.isSome_iff_exists.mp hsome
    exact (striking_eq_some.mp hstrike).1
  active_iff second hlt := by
    have hstriking : r.striking second = r.turn (second / 50) := if_pos hlt
    rw [hstriking, isSome_turn]
    constructor
    · intro hne
      obtain ⟨transport, hmem⟩ := List.exists_mem_of_ne_nil _ hne
      exact ⟨transport, (mem_candidates h).mp hmem⟩
    · rintro ⟨transport, huses⟩
      exact List.ne_nil_of_mem ((mem_candidates h).mpr huses)
  struck second strike hstrike := by
    obtain ⟨hparty, hstage, hmem⟩ := of_turn (striking_eq_some.mp hstrike).2
    refine ⟨hparty, hstage, ?_⟩
    rw [hparty, hstage]
    exact (mem_candidates h).mp hmem
  fault_iff _ _ _ _ _ := faultFor_eq_some
  each_once first party hparty stage hstage := by
    have hplace : party + r.spread.count * (if stage = .send then 1 else 0) <
      2 * r.spread.count := by
      split <;> omega
    obtain ⟨turn, ⟨hle, hlt, hmod⟩, honly⟩ := Window.existsUnique_place hplace first
    refine ⟨turn, ⟨⟨hle, hlt⟩, (addressed_iff hparty hstage).mpr hmod⟩, ?_⟩
    rintro other ⟨⟨hle', hlt'⟩, haddressed⟩
    exact honly other ⟨hle', hlt', (addressed_iff hparty hstage).mp haddressed⟩

/-- Two Parties over three transports: a stream of the first one's is struck, and the steady one
never. -/
theorem regular_of_three :
    Regular
      (⟨⟨⟨["one", "two"], by decide⟩, [['f', 'i', 'l', 'e'], ['t', 'c', 'p'], ['u', 'd', 'p']]⟩⟩ :
      Rotation String) :=
  regular_of_distinct _ (by decide)

/-! ### The kinds of bad day a Party meets -/

/-- The Party has another transport than the steady one on the side. -/
def Strikable (r : Rotation ρ) (party : Nat) (stage : Stage) : Prop :=
  ∃ transport ∈ if stage = .send then r.spread.receives party else r.spread.sends party, transport ≠
    STEADY

instance (r : Rotation ρ) (party : Nat) (stage : Stage) : Decidable (r.Strikable party stage) :=
  inferInstanceAs (Decidable (∃ transport ∈ _, transport ≠ STEADY))

/-- A whole transport is struck on the even turns. -/
theorem contract_of_turn (h : r.turn turn = some strike) :
    strike.contract = none ↔ turn % 2 = 0 := by
  rw [Rotation.turn] at h
  obtain ⟨transport, -, hstrike⟩ := Option.bind_eq_some_iff.mp h
  rw [← Option.some.inj hstrike]
  by_cases hodd : turn % 2 = 1
  · simp [hodd]
  · simp [Nat.mod_two_ne_one.mp hodd]

/-- The turns that strike a Party on a side are all even or all odd, the Party's place and the
number of Parties say which. -/
theorem contract_eq_none_iff (h : r.turn turn = some strike) :
    strike.contract = none ↔ (strike.party + if strike.stage = .send then r.spread.count else 0) %
      2 = 0 := by
  obtain ⟨hparty, hstage, -⟩ := of_turn h
  have hlt : r.party turn < r.spread.count := Nat.mod_lt _ r.spread.count_pos
  -- A turn's parity is that of its place round the Parties on both sides, an even number of turns.
  have hplace := (addressed_iff hlt (stage_eq r turn)).mp ⟨rfl, rfl⟩
  have hturn : turn % 2 = turn % (2 * r.spread.count) % 2 := (Nat.mod_mul_right_mod turn 2 _).symm
  rw [contract_of_turn h, hturn, hplace, hparty, hstage, mul_ite, Nat.mul_one, Nat.mul_zero]

/-- The turn of a Party and a side, the first that addresses the two. -/
theorem exists_turn {party : Nat} (hparty : party < r.spread.count) {stage : Stage}
    (hstage : stage = .receive ∨ stage = .send) (hstrikable : r.Strikable party stage) :
    ∃ turn < 2 * r.spread.count, ∃ strike, r.turn turn = some strike ∧ strike.party = party ∧
    strike.stage = stage := by
  have hplace : party + r.spread.count * (if stage = .send then 1 else 0) < 2 * r.spread.count := by
    split <;> omega
  obtain ⟨haddressed, hside⟩ := (addressed_iff hparty hstage).mpr (Nat.mod_eq_of_lt hplace)
  obtain ⟨transport, htransport, hsteady⟩ := hstrikable
  -- That turn addresses the Party and the side, so the transport is among its candidates.
  have hcandidate : r.candidates (party + r.spread.count * if stage = .send then 1 else 0) ≠
    [] := by
    refine List.ne_nil_of_mem (a := transport) (List.mem_filter.mpr ⟨?_, decide_eq_true hsteady⟩)
    rwa [haddressed, hside]
  obtain ⟨strike, hstrike⟩ := Option.isSome_iff_exists.mp ((isSome_turn r _).mpr hcandidate)
  obtain ⟨hp, hs, -⟩ := of_turn hstrike
  exact ⟨_, hplace, strike, hstrike, hp.trans haddressed, hs.trans hside⟩

/-- **A Party meets one kind of bad day on a side**, and over an odd number of Parties the other
kind on the other side. -/
theorem kinds_of_party (r : Rotation ρ) {party : Nat} (hparty : party < r.spread.count) :
    (∀ stage, stage = .receive ∨ stage = .send → r.Strikable party stage →
      ∃ turn strike, r.turn turn = some strike ∧ strike.party = party ∧ strike.stage = stage) ∧
      (∀ turn strike, r.turn turn = some strike → strike.party = party →
        (strike.contract = none ↔ (party + if strike.stage = .send then r.spread.count else 0) % 2 =
          0)) ∧
      (r.spread.count % 2 = 1 → r.Strikable party .receive → r.Strikable party .send →
        (∃ turn strike, r.turn turn = some strike ∧ strike.party = party ∧ strike.contract = none) ∧
          ∃ turn strike, r.turn turn = some strike ∧ strike.party = party ∧
          strike.contract ≠ none) := by
  refine ⟨fun stage hstage hstrikable => ?_, fun turn strike hturn hstruck => ?_,
    fun hodd hreceive hsend => ?_⟩
  · obtain ⟨turn, -, strike, hstrike⟩ := exists_turn hparty hstage hstrikable
    exact ⟨turn, strike, hstrike⟩
  · rw [contract_eq_none_iff hturn, hstruck]
  · obtain ⟨first, -, one, hfirst, hsame, hside⟩ := exists_turn hparty (.inl rfl) hreceive
    obtain ⟨second, -, other, hsecond, hother, hacross⟩ := exists_turn hparty (.inr rfl) hsend
    have hwhole := contract_eq_none_iff hfirst
    have hstream := contract_eq_none_iff hsecond
    rw [hsame, hside, if_neg (by decide)] at hwhole
    rw [hother, hacross, if_pos rfl] at hstream
    -- The two sides' turns differ by the number of Parties, an odd one.
    rcases Nat.mod_two_eq_zero_or_one party with heven | hodd'
    · exact ⟨⟨first, one, hfirst, hsame, hwhole.mpr heven⟩,
        ⟨second, other, hsecond, hother, fun hnone => by have := hstream.mp hnone; omega⟩⟩
    · exact ⟨⟨second, other, hsecond, hother, hstream.mpr (by omega)⟩,
        ⟨first, one, hfirst, hsame, fun hnone => by have := hwhole.mp hnone; omega⟩⟩

/-- Of three Parties over five transports, the second meets both kinds. -/
theorem kinds_of_second :
    let r : Rotation String := ⟨⟨⟨["one", "two", "three"], by decide⟩,
      ["file".toList, "tcp".toList, "udp".toList, "http".toList, "smtp".toList]⟩⟩
    (∃ turn strike, r.turn turn = some strike ∧ strike.party = 1 ∧ strike.contract = none) ∧
      ∃ turn strike, r.turn turn = some strike ∧ strike.party = 1 ∧ strike.contract ≠ none :=
  (kinds_of_party _ (by decide)).2.2 (by decide) (by decide) (by decide)

/-- Of two Parties, the first sends over a transport and no turn strikes a single stream of it. -/
theorem no_stream_of_first :
    let r : Rotation String :=
      ⟨⟨⟨["one", "two"], by decide⟩, ["tcp".toList, "udp".toList, "http".toList]⟩⟩
    r.Strikable 0 .receive ∧
      ¬∃ turn strike, r.turn turn = some strike ∧ strike.party = 0 ∧ strike.stage = .receive ∧
        strike.contract ≠ none := by
  refine ⟨by decide, ?_⟩
  rintro ⟨turn, strike, hturn, hparty, hstage, hstream⟩
  refine hstream ((contract_eq_none_iff hturn).mpr ?_)
  rw [hparty, hstage]
  rfl

end Rotation

end XmipEssentials
