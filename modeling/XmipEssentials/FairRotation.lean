import Mathlib.Algebra.Order.Floor.Div
import XmipEssentials.HeavyLoad
import XmipEssentials.LockStep.Ticks
import XmipEssentials.Records
import XmipEssentials.Roles

/-!
# Bounded rounds rotate fairly

The schedule, a receiving relay and the heavy-load test each drive a window of their pairs a round
and move a cursor of their own past it. Each cursor goes as a window's does (`Fair.of_windows`), so
over any rounds every pair has its turn, and none has two more than another.

* `fair_rotation` — of the three, whatever their calls answer.
-/

namespace XmipEssentials

open Conc

/-- So many rounds over `n` pairs go round them fairly: where each starts, and which it picks. -/
structure Fair (n bound rounds : Nat) (cursor : Nat → Nat) (picks : Nat → List Nat) : Prop where
  /-- Each round picks as many pairs as its bound and their number allow, none of them twice. -/
  each : ∀ round < rounds,
    (picks round).length = min bound n ∧ (picks round).Nodup ∧ ∀ place ∈ picks round, place < n
  /-- After any number of rounds no pair was picked two times more than another. -/
  balanced : ∀ upto ≤ rounds, ∀ place < n, ∀ place' < n,
    ((List.range upto).map picks).flatten.count place ≤ ((List.range upto).map picks).flatten.count
      place' + 1
  /-- Every pair is picked in any `⌈n / bound⌉` rounds in a row. -/
  turns : ∀ first, first + n ⌈/⌉ bound ≤ rounds → ∀ place < n,
    ∃ round, first ≤ round ∧ round < first + n ⌈/⌉ bound ∧ place ∈ picks round
  within : ∀ round ≤ rounds, cursor round < n

variable {n bound rounds : Nat} {cursor : Nat → Nat} {picks : Nat → List Nat}

/-- A list is gone through in as many windows of its bound, the bound no longer than the list. -/
theorem le_ceilDiv_mul (hn : 0 < n) (hbound : 0 < bound) : n ≤ n ⌈/⌉ bound * min bound n := by
  have hlong : n ≤ n ⌈/⌉ bound * bound := by
    rw [Nat.mul_comm]
    exact le_smul_ceilDiv hbound
  rcases Nat.le_total bound n with hle | hle
  · rwa [Nat.min_eq_left hle]
  · rw [Nat.min_eq_right hle]
    have hpos : 0 < n ⌈/⌉ bound := Nat.pos_of_mul_pos_right (Nat.lt_of_lt_of_le hn hlong)
    exact Nat.le_mul_of_pos_left n hpos

/-- **A cursor that goes as a window's does goes round fairly.** -/
theorem Fair.of_windows (hn : 0 < n) (hbound : 0 < bound) (hstart : cursor 0 < n)
    (hnext : ∀ round < rounds, cursor (round + 1) = (cursor round + min bound n) % n)
    (hpicks : ∀ round < rounds, picks round = Window.places n (cursor round) (min bound n)) :
    Fair n bound rounds cursor picks := by
  -- every cursor is the window's own, so every round's picks are one window of it
  have hcursor : ∀ round ≤ rounds, cursor round = Window.cursorAt n (cursor 0) (min bound n)
    round := by
    intro round
    induction round with
    | zero => exact fun _ => (Window.cursorAt_zero hstart _).symm
    | succ round ih =>
      intro hle
      rw [hnext round hle, ih (Nat.le_of_succ_le hle), Window.cursorAt_succ]
  have hwindow (round : Nat) (hlt : round < rounds) :
      picks round = Window.places n (Window.cursorAt n (cursor 0) (min bound n) round)
      (min bound n) := by
    rw [hpicks round hlt, hcursor round hlt.le]
  refine ⟨fun round hlt => ?_, fun upto hle place hplace place' hplace' => ?_,
    fun first hle place hplace => ?_, fun round hle => ?_⟩
  · -- no place twice within a round
    rw [hwindow round hlt]
    exact ⟨Window.length_places .., Window.nodup_places (Nat.min_le_right _ _) _,
      fun place hplace => Window.lt_of_mem_places hn hplace⟩
  · -- between two places the counts of any span differ by one at most
    have hrounds : (List.range upto).map picks = Window.rounds n (cursor 0) (min bound n) 0
      upto := by
      apply List.map_congr_left
      intro round hround
      rw [hwindow round (Nat.lt_of_lt_of_le (List.mem_range.mp hround) hle), Nat.zero_add]
    rw [hrounds]
    exact Window.count_rounds_le hplace hplace' _ _ _ _
  · -- any span of `n / bound` rounds, rounded up, comes to every place
    obtain ⟨round, hfirst, hlast, hmem⟩ :=
      Window.exists_mem_of_le hplace (le_ceilDiv_mul hn hbound) (cursor 0) first
    refine ⟨round, hfirst, hlast, ?_⟩
    rwa [hwindow round (Nat.lt_of_lt_of_le hlast hle)]
  · rw [hcursor round hle]
    exact Window.cursorAt_lt hn _ _ _

/-- What no round changes is as it was at the first. -/
theorem eq_first {α β : Type} {x : Nat → α} (f : α → β)
    (h : ∀ round < rounds, f (x (round + 1)) = f (x round)) :
    ∀ round ≤ rounds, f (x round) = f (x 0) := by
  intro round
  induction round with
  | zero => exact fun _ => rfl
  | succ round ih => exact fun hle => (h round hle).trans (ih (Nat.le_of_succ_le hle))

/-! ### The slice of a round -/

/-- The pairs a round drives, by their places. -/
def picked (pairs : List (Text × Contract)) (places : List Nat) : List (Text × Contract) :=
  places.filterMap (pairs[·]?)

/-- A slice is the window of its places. -/
theorem slice_eq (pairs : List (Text × Contract)) (cursor bound : Nat) :
    slice pairs cursor (some bound) =
      picked pairs (Window.places pairs.length cursor (min bound pairs.length)) := by
  unfold slice picked Window.places
  rw [Option.map_some, List.filterMap_map]
  dsimp only
  split
  · next hempty =>
    rw [List.isEmpty_iff.mp hempty, List.length_nil, Nat.min_zero]
    rfl
  · rfl

private theorem length_picked {pairs : List (Text × Contract)} {places : List Nat}
    (h : ∀ place ∈ places, place < pairs.length) :
    (picked pairs places).length = places.length := by
  unfold picked
  induction places with
  | nil => rfl
  | cons place places ih =>
    rw [List.forall_mem_cons] at h
    rw [List.filterMap_cons_some (List.getElem?_eq_getElem h.1), List.length_cons, List.length_cons,
      ih h.2]

private theorem length_slice {pairs : List (Text × Contract)} (hpairs : 0 < pairs.length)
    (cursor bound : Nat) :
    (slice pairs cursor (some bound)).length = min bound pairs.length := by
  rw [slice_eq, length_picked fun place hplace => Window.lt_of_mem_places hpairs hplace,
    Window.length_places]

private theorem picked_range (pairs : List (Text × Contract)) :
    picked pairs (List.range pairs.length) = pairs := by
  unfold picked
  induction pairs with
  | nil => rfl
  | cons pair pairs ih =>
    rw [List.length_cons, List.range_succ_eq_map, List.filterMap_cons_some List.getElem?_cons_zero,
      List.filterMap_map]
    exact congrArg (pair :: ·) ih

/-- A slice that may be as long as the pairs takes each of them once. -/
theorem slice_perm (pairs : List (Text × Contract)) (cursor : Nat) {bound : Nat}
    (hbound : pairs.length ≤ bound) :
    (slice pairs cursor (some bound)).Perm pairs := by
  rw [slice_eq, Nat.min_eq_right hbound]
  have hplaces : (Window.places pairs.length cursor pairs.length).Perm
    (List.range pairs.length) := by
    rcases Nat.eq_zero_or_pos pairs.length with hnone | hpairs
    · rw [hnone]
      exact .refl _
    · refine (List.perm_ext_iff_of_nodup (Window.nodup_places le_rfl cursor) List.nodup_range).mpr
        fun place => ?_
      rw [List.mem_range]
      exact ⟨Window.lt_of_mem_places hpairs, fun hlt => Window.mem_places_of_le hlt le_rfl cursor⟩
  have hpicked : (picked pairs (Window.places pairs.length cursor pairs.length)).Perm
      (picked pairs (List.range pairs.length)) := hplaces.filterMap _
  rwa [picked_range] at hpicked

theorem length_allPairs (transports : List Text) :
    (allPairs transports).length = transports.length * contracts.length := by
  rw [allPairs, List.length_flatMap]
  simp

variable {S : Type} [Snapshot S]

/-! ### The schedule -/

namespace Schedule

/-- What a tick leaves of the schedule's rounds. -/
theorem yields_tick (E : Rig) (s : Schedule) :
    (s.tick E : Prog RelayOp (S × Schedule)).Yields fun res =>
      res.2.transports = s.transports ∧ res.2.perRound = s.perRound ∧
        res.2.cursor = s.advanced := by
  apply (Prog.Yields.trivial (Prog.perform .now)).bind
  intro now _
  apply (Prog.Yields.trivial _).bind
  intro verdicts _
  exact And.intro rfl (And.intro rfl rfl)

/-- One tick after another, whatever the calls answer. -/
def Next (S : Type) [Snapshot S] (E : Rig) (s s' : Schedule) : Prop :=
  ∃ snapshot : S, (s.tick E).Comes (snapshot, s')

/-- The places of the pairs a bounded round drives. -/
def places (s : Schedule) (bound : Nat) : List Nat :=
  Window.places s.matrix s.cursor (min bound s.matrix)

/-- So many ticks of a schedule that drives at most `bound` pairs a round, from a cursor within its
matrix, as a new one's is. -/
structure Rounds (S : Type) [Snapshot S] (E : Rig) (bound rounds : Nat) (s : Nat → Schedule) :
    Prop where
  bound_pos : 0 < bound
  perRound : (s 0).perRound = some bound
  pairs : 0 < (s 0).matrix
  start : (s 0).cursor < (s 0).matrix
  next : ∀ round < rounds, Next S E (s round) (s (round + 1))

/-- **The schedule's bounded rounds** drive the pairs at their places, and go round fairly. -/
theorem Rounds.fair {E : Rig} {s : Nat → Schedule} (h : Rounds S E bound rounds s) :
    (∀ round ≤ rounds, (s round).pairs = picked (allPairs (s 0).transports)
    ((s round).places bound)) ∧
      Fair (s 0).matrix bound rounds (fun round => (s round).cursor) fun round =>
      (s round).places bound := by
  have hticked (round : Nat) (hlt : round < rounds) :
      (s (round + 1)).transports = (s round).transports ∧
      (s (round + 1)).perRound = (s round).perRound ∧
        (s (round + 1)).cursor = (s round).advanced := by
    obtain ⟨snapshot, hcomes⟩ := h.next round hlt
    exact (yields_tick E (s round)).of_comes hcomes
  -- a tick leaves the transports and the bound alone, so the matrix is one throughout
  have htransports := eq_first transports fun round hlt => (hticked round hlt).1
  have hperRound := eq_first Schedule.perRound fun round hlt => (hticked round hlt).2.1
  rw [h.perRound] at hperRound
  have hmatrix (round : Nat) (hle : round ≤ rounds) : (s round).matrix = (s 0).matrix := by
    rw [matrix, htransports round hle, matrix]
  refine ⟨fun round hle => ?_, Fair.of_windows h.pairs h.bound_pos h.start (fun round hlt => ?_)
    fun round hlt => ?_⟩
  · -- the pairs run are those at the places
    rw [Schedule.pairs, hperRound round hle, slice_eq, length_allPairs, htransports round hle,
      places, matrix, htransports round hle]
  · -- the cursor moves on by the window
    rw [(hticked round hlt).2.2, advanced, hperRound round hlt.le, hmatrix round hlt.le,
      Nat.max_eq_left h.pairs]
  · rw [places, hmatrix round hlt.le]

end Schedule

/-! ### The heavy-load test -/

namespace HeavyLoad

private theorem yields_carryEach (E : Rig) (D : Shown) (places : List Nat) (h : HeavyLoad) :
    (carryEach E D places h).Yields fun after => after.transports = h.transports ∧
    after.perRound = h.perRound := by
  induction places generalizing h with
  | nil => exact ⟨rfl, rfl⟩
  | cons place places ih =>
    unfold carryEach
    cases h.pairAt place with
    | none => exact ih h
    | some pair =>
      exact (Prog.Yields.trivial _).bind fun line _ => ih (h.recorded pair.1 pair.2 line)

/-- What a tick leaves of the test's rounds. -/
theorem yields_tick (E : Rig) (D : Shown) (h : HeavyLoad) :
    (h.tick E D : Prog RelayOp (S × HeavyLoad)).Yields fun res =>
      res.2.transports = h.transports ∧ res.2.perRound = h.perRound ∧
        res.2.cursor = (h.cursor + h.carried) % max h.matrix 1 := by
  apply (Prog.Yields.trivial (Prog.perform .now)).bind
  intro now _
  exact (yields_carryEach E D _ _).bind fun after hkept => And.intro hkept.1 (And.intro hkept.2 rfl)

/-- One tick after another, whatever the calls answer. -/
def Next (S : Type) [Snapshot S] (E : Rig) (D : Shown) (h h' : HeavyLoad) : Prop :=
  ∃ snapshot : S, (h.tick E D).Comes (snapshot, h')

/-- So many ticks of a test that carries at most `bound` pairs a round, from a cursor within its
matrix, as a new one's is. -/
structure Rounds (S : Type) [Snapshot S] (E : Rig) (D : Shown) (bound rounds : Nat)
    (h : Nat → HeavyLoad) :
    Prop where
  bound_pos : 0 < bound
  perRound : (h 0).perRound = some bound
  pairs : 0 < (h 0).matrix
  start : (h 0).cursor < (h 0).matrix
  next : ∀ round < rounds, Next S E D (h round) (h (round + 1))

/-- **The heavy-load test's bounded rounds** go round fairly. -/
theorem Rounds.fair {E : Rig} {D : Shown} {h : Nat → HeavyLoad}
    (hrounds : Rounds S E D bound rounds h) :
    Fair (h 0).matrix bound rounds (fun round => (h round).cursor) fun round =>
    (h round).places := by
  have hticked (round : Nat) (hlt : round < rounds) :
      (h (round + 1)).transports = (h round).transports ∧
      (h (round + 1)).perRound = (h round).perRound ∧
        (h (round + 1)).cursor = ((h round).cursor + (h round).carried) % max (h round).matrix
          1 := by
    obtain ⟨snapshot, hcomes⟩ := hrounds.next round hlt
    exact (yields_tick E D (h round)).of_comes hcomes
  -- what a tick leaves alone is what it started with
  have htransports := eq_first transports fun round hlt => (hticked round hlt).1
  have hperRound := eq_first HeavyLoad.perRound fun round hlt => (hticked round hlt).2.1
  rw [hrounds.perRound] at hperRound
  have hmatrix (round : Nat) (hle : round ≤ rounds) : (h round).matrix = (h 0).matrix := by
    rw [matrix, htransports round hle, matrix]
  have hcarried (round : Nat) (hle : round ≤ rounds) : (h round).carried =
    min bound (h 0).matrix := by
    rw [carried, hperRound round hle, hmatrix round hle]
    rfl
  have hpairs := hrounds.pairs
  refine Fair.of_windows hpairs hrounds.bound_pos hrounds.start (fun round hlt => ?_)
    fun round hlt => ?_
  · rw [(hticked round hlt).2.2, hcarried round hlt.le, hmatrix round hlt.le,
      Nat.max_eq_left hpairs]
  · rw [places, hcarried round hlt.le, hmatrix round hlt.le, Nat.max_eq_left hpairs]

end HeavyLoad

/-! ### A receiving relay -/

namespace Relay

variable {κ : Type} [Capability κ] {r r' r'' : Relay κ}

/-- The relay later in its round: set up as it was, its cursor where it was. -/
def Stays (r r' : Relay κ) : Prop := r.Same r' ∧ r'.cursor = r.cursor

omit [Capability κ] in
private theorem Stays.trans (h : r.Stays r') (h' : r'.Stays r'') : r.Stays r'' :=
  ⟨h.1.trans h'.1, h'.2.trans h.2⟩

omit [Capability κ] in
private theorem Stays.refl (r : Relay κ) : r.Stays r := ⟨.refl r, rfl⟩

private theorem yields_handOn (r : Relay κ) (handoff : Handoff) (now : Int) :
    (r.handOn handoff now).Yields fun res => r.Stays res.2 := by
  unfold handOn
  cases r.stage.next with
  | none => exact Stays.refl r
  | some next =>
    dsimp only
    cases r.roster.target r.name next handoff.transport handoff.contract with
    | none => exact Stays.refl r
    | some dest =>
      apply (Prog.Yields.trivial _).bind
      intro delivered _
      cases delivered with
      | error why => exact ⟨⟨rfl, rfl, rfl, rfl⟩, rfl⟩
      | ok u => exact ⟨⟨rfl, rfl, rfl, rfl⟩, rfl⟩

private theorem yields_handOnJudged (r : Relay κ) (now : Int) (one : Judged) :
    (r.handOnJudged now one).Yields fun res => r.Stays res.2 := by
  unfold handOnJudged
  split
  · next handoff verdict identity _ _ =>
    apply (Prog.Yields.trivial _).bind
    intro picked _
    have hpicked : (r.handOnPicked now handoff picked).Yields fun res => r.Stays res.2 := by
      rcases picked with why | ⟨_ | _⟩
      · exact Stays.refl r
      · exact Stays.refl r
      · exact yields_handOn r handoff now
    apply hpicked.bind
    intro res hres
    obtain ⟨handed, after⟩ := res
    cases handed with
    | error why => exact hres
    | ok u => exact hres
  · exact Stays.refl r

private theorem yields_conclude (now : Int) (judged : List Judged) (r : Relay κ) (snapshot : S) :
    (conclude now judged r snapshot).Yields fun res => r.Stays res.1 := by
  induction judged generalizing r snapshot with
  | nil => exact Stays.refl r
  | cons one judged ih =>
    apply (yields_handOnJudged r now one).bind
    intro res hres
    apply (Prog.Yields.trivial _).bind
    intro _ _
    have hfolded : res.2.Stays (res.2.foldVerdicts now res.1 snapshot).1 :=
      ⟨⟨rfl, rfl, rfl, rfl⟩, rfl⟩
    exact (ih _ _).mono fun after hafter => hres.trans (hfolded.trans hafter)

private theorem yields_handOnReleased (now : Int) (released : List Handoff) (r : Relay κ) :
    (handOnReleased now released r).Yields fun after => r.Stays after := by
  induction released generalizing r with
  | nil => exact Stays.refl r
  | cons one released ih =>
    apply (yields_handOn r one now).bind
    intro res hres
    exact fun _ => (ih res.2).mono fun after hafter => hres.trans hafter

/-- What a tick of a receive stage leaves of its rounds: the cursor past what it picked. -/
theorem yields_tick (E : Estate) (hstage : r.stage = .receive) :
    (r.tick E : Prog RelayOp (S × Relay κ)).Yields fun res =>
      r.Same res.2 ∧ res.2.cursor =
        (r.cursor + (slice r.share r.cursor (some r.perRound)).length) % max r.share.length 1 := by
  -- only `drive` moves the cursor; what follows it leaves the relay the same
  have hwork : (r.work E : Prog RelayOp (Ticked κ S)).Yields fun t =>
      r.Same t.relay ∧ t.relay.cursor =
        (r.cursor + (slice r.share r.cursor (some r.perRound)).length) % max r.share.length 1 := by
    intro now
    have hdrive :
      ({ r with round := r.round + 1 }.drive E now : Prog RelayOp (List Judged × Relay κ)).Yields
        fun res => r.Same res.2 ∧ res.2.cursor =
          (r.cursor + (slice r.share r.cursor (some r.perRound)).length) % max r.share.length
            1 := by
      unfold drive
      rw [if_pos hstage]
      -- whatever the exchanges come to, the cursor moves by the length of the slice
      exact (Prog.Yields.trivial _).bind fun judged _ => ⟨⟨rfl, rfl, rfl, rfl⟩, rfl⟩
    apply hdrive.bind
    intro driven hdriven
    refine (yields_conclude now driven.1 driven.2 (Snapshot.new : S)).bind
      fun concluded hconcluded => ?_
    apply (Prog.Yields.trivial _).bind
    intro released _
    apply (yields_handOnReleased now released concluded.1).bind
    intro after hafter
    apply (Prog.Yields.trivial _).bind
    intro snapshot _
    apply (Prog.Yields.trivial _).bind
    intro inbox _
    have hstays := hconcluded.trans hafter
    exact ⟨hdriven.1.trans hstays.1, hstays.2.trans hdriven.2⟩
  exact hwork.bind fun t ht => ht

/-- One tick after another, whatever the calls answer. -/
def Next (S : Type) [Snapshot S] (E : Estate) (r r' : Relay κ) : Prop :=
  ∃ snapshot : S, (r.tick E).Comes (snapshot, r')

/-- The places, in the relay's share, of the pairs its round receives. -/
def places (r : Relay κ) : List Nat :=
  Window.places r.share.length r.cursor (min r.perRound r.share.length)

/-- So many ticks of a receiving relay with a share of the pairs, from a cursor within its share, as
a new one's is. -/
structure Rounds (S : Type) [Snapshot S] (E : Estate) (rounds : Nat) (r : Nat → Relay κ) :
    Prop where
  stage : (r 0).stage = .receive
  bound_pos : 0 < (r 0).perRound
  pairs : 0 < (r 0).share.length
  start : (r 0).cursor < (r 0).share.length
  next : ∀ round < rounds, Next S E (r round) (r (round + 1))

/-- **A receiving relay's rounds** receive the pairs of its share at their places, and go round
fairly. -/
theorem Rounds.fair {E : Estate} {r : Nat → Relay κ} (h : Rounds S E rounds r) :
    (∀ round ≤ rounds, slice (r round).share (r round).cursor (some (r round).perRound) =
        picked (r 0).share (r round).places) ∧
      Fair (r 0).share.length (r 0).perRound rounds (fun round => (r round).cursor) fun round =>
        (r round).places := by
  -- a relay keeps its roster, its name and its bound over the rounds, so its share is one list
  have hsame : ∀ round ≤ rounds, (r 0).Same (r round) := by
    intro round
    induction round with
    | zero => exact fun _ => .refl _
    | succ round ih =>
      intro hle
      have hbefore := ih (Nat.le_of_succ_le hle)
      obtain ⟨snapshot, hcomes⟩ := h.next round hle
      exact hbefore.trans ((yields_tick E (hbefore.stage.trans h.stage)).of_comes hcomes).1
  have hshare (round : Nat) (hle : round ≤ rounds) : (r round).share = (r 0).share := by
    have hkept := hsame round hle
    rw [share, share, hkept.setup, hkept.roster, hkept.name]
  have hperRound (round : Nat) (hle : round ≤ rounds) : (r round).perRound = (r 0).perRound :=
    congrArg Setup.perRound (hsame round hle).setup
  refine ⟨fun round hle => ?_, Fair.of_windows h.pairs h.bound_pos h.start (fun round hlt => ?_)
    fun round hlt => ?_⟩
  · rw [slice_eq, places, hshare round hle]
  · obtain ⟨snapshot, hcomes⟩ := h.next round hlt
    have hcursor := ((yields_tick E ((hsame round hlt.le).stage.trans h.stage)).of_comes hcomes).2
    rw [hcursor, hshare round hlt.le, hperRound round hlt.le, length_slice h.pairs,
      Nat.max_eq_left h.pairs]
  · rw [places, hshare round hlt.le, hperRound round hlt.le]

end Relay

/-! ### The three together -/

/-- **Bounded rounds rotate fairly**: those of the schedule over its matrix, those of a receiving
relay over its share, and those of the heavy-load test over its matrix, each by the cursor it
advances itself and whatever its calls answer. -/
theorem fair_rotation {κ : Type} [Capability κ] (E : Rig) (D : Shown) (rounds : Nat) :
    (∀ (bound : Nat) (s : Nat → Schedule), Schedule.Rounds S E bound rounds s →
      (∀ round ≤ rounds, (s round).pairs = picked (allPairs (s 0).transports)
      ((s round).places bound)) ∧
        Fair (s 0).matrix bound rounds (fun round => (s round).cursor) fun round =>
        (s round).places bound) ∧
    (∀ r : Nat → Relay κ, Relay.Rounds S E.toEstate rounds r →
      (∀ round ≤ rounds, slice (r round).share (r round).cursor (some (r round).perRound) =
          picked (r 0).share (r round).places) ∧
        Fair (r 0).share.length (r 0).perRound rounds (fun round => (r round).cursor)
          fun round => (r round).places) ∧
    ∀ (bound : Nat) (h : Nat → HeavyLoad), HeavyLoad.Rounds S E D bound rounds h →
      Fair (h 0).matrix bound rounds (fun round => (h round).cursor) fun round =>
      (h round).places :=
  ⟨fun _ _ => Schedule.Rounds.fair, fun _ => Relay.Rounds.fair, fun _ _ => HeavyLoad.Rounds.fair⟩

omit [Snapshot S] in
/-- Tick after tick, without an end. -/
theorem exists_ticks_from {α : Type} (tick : α → Prog RelayOp (S × α)) (start : α) :
    ∃ x : Nat → α, x 0 = start ∧ ∀ round, ∃ snapshot : S, (tick (x round)).Comes
      (snapshot, x (round + 1)) := by
  choose next hnext using fun a => Prog.exists_comes RelayOp.nonempty (tick a)
  let x := fun round => (fun a => (next a).2)^[round] start
  refine ⟨x, rfl, fun round => ⟨(next (x round)).1, ?_⟩⟩
  have hx : x (round + 1) = (next (x round)).2 := Function.iterate_succ_apply' _ _ _
  rw [hx]
  exact hnext (x round)

/-- A relay alone with the whole matrix of one transport, three pairs a round. -/
def loneReceiver : Relay Roles where
  transports := [['t']]
  faults := .none
  identity := ⟨fun _ _ _ => [], fun _ _ _ => .delivered⟩
  rotation := none
  perRound := 3
  subscribing := false
  name := ['a']
  stage := .receive
  roster := ⟨[(['a'], { Roles.nothing with receiving := true })]⟩
  process := 1
  ledger := .new ['n']
  hops := .default
  round := 0
  cursor := 0
  sequence := 0
  unreadable := 0

/-- Over one transport, a hundred rounds of three pairs. -/
theorem fair_rotation_lone : ∃ (s : Nat → Schedule) (r : Nat → Relay Roles) (h : Nat → HeavyLoad),
    Fair 20 3 100 (fun round => (s round).cursor) (fun round => (s round).places 3) ∧
    Fair 20 3 100 (fun round => (r round).cursor) (fun round => (r round).places) ∧
    Fair 20 3 100 (fun round => (h round).cursor) fun round => (h round).places := by
  let D : Shown := ⟨fun _ => [], fun _ _ _ _ => []⟩
  -- a tick comes to something whatever it is answered, so an endless run of each exists
  obtain ⟨s, hs, hsnext⟩ := exists_ticks_from (S := Records) (Schedule.tick Schedule.anyRig)
    (Schedule.lone.pairsPerRound 3)
  obtain ⟨r, hr, hrnext⟩ := exists_ticks_from (S := Records) (Relay.tick Schedule.anyRig.toEstate)
    loneReceiver
  obtain ⟨h, hh, hhnext⟩ := exists_ticks_from (S := Records) (HeavyLoad.tick Schedule.anyRig D)
    ((HeavyLoad.new ['n'] [['t']] fun _ => none).pairsPerRound 3)
  have hfair := fair_rotation (S := Records) (κ := Roles) Schedule.anyRig D 100
  have hshare : (r 0).share.length = 20 := by rw [hr]; decide
  have hschedule :=
    (hfair.1 3 s ⟨by decide, by rw [hs]; rfl, by rw [hs]; decide, by rw [hs]; decide,
      fun round _ => hsnext round⟩).2
  have hrelay := (hfair.2.1 r ⟨by rw [hr]; rfl, by rw [hr]; decide, by rw [hshare]; decide,
    by rw [hshare, hr]; decide, fun round _ => hrnext round⟩).2
  have hheavy := hfair.2.2 3 h ⟨by decide, by rw [hh]; rfl, by rw [hh]; decide, by rw [hh]; decide,
    fun round _ => hhnext round⟩
  rw [hshare, hr] at hrelay
  rw [hs] at hschedule
  rw [hh] at hheavy
  exact ⟨s, r, h, hschedule, hrelay, hheavy⟩

end XmipEssentials
