import XmipEssentials.Fault
import XmipEssentials.Lib.Mixing

/-!
# When a rule fires

A rule fires in a round by the remainder of a hash of its key and the round. The hash loses nothing
of the round, so among all rounds of 64 bits every key meets each remainder as often as the numbers
do (`fires_exactly`), and some round meets any remainder there is (`exists_firing`). A plan's fault
is that of the first rule that covers what is asked of and fires (`FaultPlan.faultFor_eq`), and a
higher level's rates are no lower, so no fault goes missing as the level rises
(`levels_monotone`).
-/

namespace XmipEssentials

open Text

/-! ### The hash of a key and a round -/

/-- The hash of a key and a round. -/
def keyedHash (key : Text) (round : UInt64) : UInt64 :=
  Mixing.mixed 0x100000001b3 (utf8 key) (round * 0x9e3779b97f4a7c15)

/-- **The hash of a key loses nothing of the round.** -/
theorem bijective_keyedHash (key : Text) : Function.Bijective (keyedHash key) :=
  -- Both factors have an inverse modulo 2 ^ 64, so no step of the hash loses anything.
  have hprime : (0x100000001b3 : UInt64) * 0xce965057aff6957b = 1 := by decide
  have hgolden : (0x9e3779b97f4a7c15 : UInt64) * 0xf1de83e19937733d = 1 := by decide
  (Mixing.bijective_mixed hprime (utf8 key)).comp (Mixing.bijective_mul hgolden)

private theorem firesKeyed_iff {rate : UInt8} {key : Text} {round : Nat} :
    firesKeyed rate key round = true ↔ (keyedHash key (UInt64.ofNat round)).toNat % 100 <
      rate.toNat := by
  unfold firesKeyed
  -- A rate of nothing never fires, and no remainder is below it.
  split_ifs with hzero
  · subst hzero
    exact iff_of_false not_false (Nat.not_lt_zero _)
  · rw [decide_eq_true_iff, UInt64.lt_iff_toNat_lt, UInt64.toNat_mod, UInt8.toNat_toUInt64]
    rfl

/-- **A rate is honoured exactly**: among all rounds of 64 bits a key of whatever length fires in
`rate` of every hundred, and in those of the last sixteen whose remainder is below the rate. -/
theorem fires_exactly (rate : UInt8) (hrate : rate ≤ 100) (key : Text) :
    Function.Bijective (keyedHash key) ∧
      (∀ round, firesKeyed rate key round = true ↔
        (keyedHash key (UInt64.ofNat round)).toNat % 100 < rate.toNat) ∧
      Nat.count (fun round => firesKeyed rate key round = true) (2 ^ 64) =
        rate.toNat * (2 ^ 64 / 100) + min rate.toNat 16 := by
  refine ⟨bijective_keyedHash key, fun _ => firesKeyed_iff, ?_⟩
  have hcount := Mixing.count_of_bijective (bijective_keyedHash key) fun k => k % 100 < rate.toNat
  have hle : rate.toNat ≤ 100 := UInt8.le_iff_toNat_le.mp hrate
  -- The hash only reorders the rounds, so they are counted by the numbers below 2 ^ 64 themselves.
  rw [Mixing.count_mod_lt (by decide) hle] at hcount
  simp only [firesKeyed_iff]
  exact hcount

/-- The rate the runner drops datagrams at. -/
theorem fires_exactly_udp : (9 : UInt8) ≤ 100 ∧
    Nat.count (fun round => firesKeyed 9 "receiveudpbytes".toList round = true) (2 ^ 64) =
      9 * (2 ^ 64 / 100) + 9 :=
  ⟨by decide, (fires_exactly 9 (by decide) "receiveudpbytes".toList).2.2⟩

/-- Some round meets a remainder, whatever the key. -/
theorem exists_firing (key : Text) {remainder : Nat} (h : remainder < 100) :
    ∃ round < 2 ^ 64, ∀ rate, firesKeyed rate key round = true ↔ remainder < rate.toNat := by
  obtain ⟨round, hround, hhash⟩ :=
    Mixing.exists_of_bijective (bijective_keyedHash key) (h.trans (by decide))
  refine ⟨round, hround, fun rate => ?_⟩
  rw [firesKeyed_iff, hhash, Nat.mod_eq_of_lt h]

private theorem firesKeyed_mono {lower higher : UInt8} (h : lower.toNat ≤ higher.toNat) {key : Text}
    {round : Nat} (hfires : firesKeyed lower key round = true) :
    firesKeyed higher key round = true :=
  firesKeyed_iff.mpr ((firesKeyed_iff.mp hfires).trans_le h)

/-! ### The first rule that fires -/

/-- A table of rules read from its top: what a rule selects, whether that covers what is asked of,
and the key the two are hashed by. -/
structure Table (Rule Selector Query : Type) where
  rules : List Rule
  selector : Rule → Selector
  rate : Rule → UInt8
  covers : Selector → Query → Bool
  key : Selector → Query → Text

namespace Table

variable {Rule Selector Query : Type} (t : Table Rule Selector Query)

/-- The rule covers what is asked of and fires. -/
def strikes (rule : Rule) (q : Query) (round : Nat) : Bool :=
  t.covers (t.selector rule) q && firesKeyed (t.rate rule) (t.key (t.selector rule) q) round

/-- The place of the rule that decides: the first that strikes. -/
def deciding (q : Query) (round : Nat) : Option Nat :=
  t.rules.findIdx? fun rule => t.strikes rule q round

/-- The rule at a place decides in some round, whatever it takes to be asked of. -/
def Live (place : Nat) : Prop := ∃ q, ∃ round < 2 ^ 64, t.deciding q round = some place

/-- An earlier rule selects what the one at this place does, at a rate as high. -/
def overshadowed [DecidableEq Selector] (place : Nat) : Bool :=
  t.rules[place]?.any fun rule => (t.rules.take place).any fun earlier =>
    t.selector earlier = t.selector rule ∧ t.rate rule ≤ t.rate earlier

/-- No earlier rule covers what the one at this place may be asked of. -/
def unrivalled (ask : Rule → Query) (place : Nat) : Bool :=
  t.rules[place]?.any fun rule => t.covers (t.selector rule) (ask rule) ∧ 0 < t.rate rule ∧
    (t.rules.take place).all fun earlier => t.covers (t.selector earlier) (ask rule) = false

variable {t}

theorem deciding_eq_some {q : Query} {round place : Nat} :
    t.deciding q round = some place ↔ ∃ rule, t.rules[place]? = some rule ∧
    t.strikes rule q round = true ∧
      ∀ earlier ∈ t.rules.take place, t.strikes earlier q round = false := by
  unfold deciding
  rw [List.findIdx?_eq_some_iff_getElem]
  constructor
  · rintro ⟨hplace, hstrikes, hfirst⟩
    refine ⟨t.rules[place], List.getElem?_eq_getElem hplace, hstrikes, fun earlier hearlier => ?_⟩
    obtain ⟨j, hj, rfl⟩ := List.mem_take_iff_getElem.mp hearlier
    exact Bool.eq_false_iff.mpr (hfirst j (Nat.lt_min.mp hj).1)
  · rintro ⟨rule, hrule, hstrikes, hfirst⟩
    obtain ⟨hplace, rfl⟩ := List.getElem?_eq_some_iff.mp hrule
    refine ⟨hplace, hstrikes, fun j hj => ?_⟩
    exact Bool.eq_false_iff.mp
      (hfirst _ (List.mem_take_iff_getElem.mpr ⟨j, Nat.lt_min.mpr ⟨hj, hj.trans hplace⟩, rfl⟩))

/-- **A rule overshadowed decides in no round**: whenever it strikes, the earlier one has. -/
theorem not_live_of_overshadowed [DecidableEq Selector] {place : Nat}
    (h : t.overshadowed place = true) :
    ¬ t.Live place := by
  rintro ⟨q, round, -, hdecides⟩
  obtain ⟨rule, hrule, hstrikes, hfirst⟩ := deciding_eq_some.mp hdecides
  unfold overshadowed at h
  rw [hrule, Option.any_some, List.any_eq_true] at h
  obtain ⟨earlier, hearlier, hover⟩ := h
  obtain ⟨hselector, hrate⟩ := of_decide_eq_true hover
  obtain ⟨hcovers, hfires⟩ := Bool.and_eq_true_iff.mp hstrikes
  -- The earlier rule has the same selector, so the same key and remainder, and a rate as high.
  have hstruck : t.strikes earlier q round = true := by
    unfold strikes
    rw [hselector, hcovers, firesKeyed_mono (UInt8.le_iff_toNat_le.mp hrate) hfires]
    rfl
  exact Bool.false_ne_true ((hfirst earlier hearlier).symm.trans hstruck)

/-- A rule unrivalled decides, in a round every rate fires in. -/
theorem live_of_unrivalled {ask : Rule → Query} {place : Nat} (h : t.unrivalled ask place = true) :
    t.Live place := by
  obtain ⟨rule, hrule, hclear⟩ := (Option.any_eq_true _ _).mp h
  obtain ⟨hcovers, hrate, hearlier⟩ := of_decide_eq_true hclear
  obtain ⟨round, hround, hfires⟩ :=
    exists_firing (t.key (t.selector rule) (ask rule)) (show 0 < 100 by decide)
  -- In that round whatever covers the query fires, and of those before it nothing does.
  refine ⟨ask rule, round, hround, deciding_eq_some.mpr ⟨rule, hrule, ?_, fun earlier hmem => ?_⟩⟩
  · exact Bool.and_eq_true_iff.mpr ⟨hcovers, (hfires _).mpr (UInt8.lt_iff_toNat_lt.mp hrate)⟩
  · unfold strikes
    rw [of_decide_eq_true (List.all_eq_true.mp hearlier earlier hmem), Bool.false_and]

end Table

namespace FaultPlan

/-- A plan as a table: what a rule selects is its stage, its transport or any and its contract or
any. -/
def table (p : FaultPlan) :
    Table FaultRule (Stage × Option Text × Option Contract) (Stage × Text × Contract) where
  rules := p.rules
  selector rule := (rule.stage, rule.transport, rule.contract)
  rate := FaultRule.rate
  covers := fun (stage, transport, contract) (asked, name, held) =>
    stage = asked ∧ transport.all (· = name) ∧ contract.all (· = held)
  key := fun _ (stage, transport, contract) => stage.name ++ transport ++ contract.name

/-- **A plan's fault is that of the first of its rules that covers what is asked of and fires.** -/
theorem faultFor_eq (p : FaultPlan) (stage : Stage) (transport : Text) (contract : Contract)
    (round : Nat) :
    p.faultFor stage transport contract round =
      ((p.table.deciding (stage, transport, contract) round).bind (p.rules[·]?)).map
        FaultRule.fault := by
  unfold faultFor Table.deciding
  rw [List.find?_filter, List.find?_filter, List.find?_filter]
  change _ = ((p.rules.findIdx? _).bind (p.rules[·]?)).map FaultRule.fault
  rw [← List.find?_eq_bind_findIdx?_getElem?]
  congr 2
  -- The three filters and the test that follows are one test.
  funext rule
  change _ = (decide (rule.stage = stage ∧ _ ∧ _) && fires rule.rate stage transport contract round)
  rw [Bool.eq_iff_iff]
  simp only [Bool.and_eq_true, decide_eq_true_iff]
  exact ⟨fun ⟨hstage, htransport, hcontract, hfires⟩ => ⟨⟨hstage, htransport, hcontract⟩, hfires⟩,
    fun ⟨⟨hstage, htransport, hcontract⟩, hfires⟩ => ⟨hstage, htransport, hcontract, hfires⟩⟩

private theorem isSome_faultFor {p : FaultPlan} {stage : Stage} {transport : Text}
    {contract : Contract} {round : Nat} :
    (p.faultFor stage transport contract round).isSome = true ↔
      ∃ rule ∈ p.rules, p.table.strikes rule (stage, transport, contract) round = true := by
  rw [faultFor_eq, Option.isSome_map, Table.deciding]
  change ((p.rules.findIdx? _).bind (p.rules[·]?)).isSome = true ↔ _
  rw [← List.find?_eq_bind_findIdx?_getElem?, List.find?_isSome]

end FaultPlan

/-! ### Levels -/

/-- A level's place among the four. -/
def Stress.rank : Stress → Nat
  | .calm => 0
  | .realistic => 1
  | .harsh => 2
  | .brutal => 3

instance : LT Stress := ⟨fun lower higher => lower.rank < higher.rank⟩

instance (lower higher : Stress) : Decidable (lower < higher) :=
  inferInstanceAs (Decidable (lower.rank < higher.rank))

/-- A higher level multiplies by no less. -/
theorem Stress.faultMultiplier_mono {lower higher : Stress} (h : lower < higher) :
    lower.faultMultiplier.toNat ≤ higher.faultMultiplier.toNat := by
  revert h
  cases lower <;> cases higher <;> decide

private theorem toNat_scaledRate (rate : UInt8) (stress : Stress) :
    (scaledRate rate stress).toNat = min (rate.toNat * stress.faultMultiplier.toNat) 90 := by
  have hsaturated : min 255 (rate.toNat * stress.faultMultiplier.toNat) < 256 := by omega
  unfold scaledRate MAX_RATE
  rw [Std.min_eq_if]
  -- The product saturates at a byte first and is capped after, which the cap of 90 hides.
  split_ifs with hcap
  · have hle := UInt8.le_iff_toNat_le.mp hcap
    rw [UInt8.toNat_ofNat_of_lt' hsaturated] at hle ⊢
    change _ ≤ 90 at hle
    omega
  · have hgt := UInt8.lt_iff_toNat_lt.mp (UInt8.not_le.mp hcap)
    rw [UInt8.toNat_ofNat_of_lt' hsaturated] at hgt
    change 90 < _ at hgt
    change 90 = _
    omega

private theorem FaultPlan.isSome_faultFor_at {p : FaultPlan} {stress : Stress} {stage : Stage}
    {transport : Text} {contract : Contract} {round : Nat} :
    ((p.at stress).faultFor stage transport contract round).isSome = true ↔
      ∃ rule ∈ p.rules, p.table.strikes { rule with rate := scaledRate rule.rate stress }
      (stage, transport, contract)
        round = true := by
  rw [isSome_faultFor]
  unfold FaultPlan.at
  simp only [List.mem_map, exists_exists_and_eq_and]
  rfl

/-- The realistic rules of Receive and Send are each of a transport, and not of the steady one. -/
theorem not_covers_steady :
    ∀ rule ∈ FaultPlan.realistic.rules, rule.stage = .receive ∨ rule.stage = .send →
    rule.transport.all (· = STEADY) = false := by decide

/-- **Levels are monotone**: nothing faults at calm, what faults at a level faults at every higher
one, and the realistic rules leave the steady transport's Receive and Send alone at every level. -/
theorem levels_monotone (p : FaultPlan) (stage : Stage) (transport : Text) (contract : Contract)
    (round : Nat) :
    (p.at .calm).faultFor stage transport contract round = none ∧
      (∀ lower higher : Stress, lower < higher →
        ((p.at lower).faultFor stage transport contract round).isSome = true →
        ((p.at higher).faultFor stage transport contract round).isSome = true) ∧
      ∀ stress : Stress, stage = .receive ∨ stage = .send →
        (FaultPlan.realistic.at stress).faultFor stage STEADY contract round = none := by
  refine ⟨?_, fun lower higher hlevel hfault => ?_, fun stress hstage => ?_⟩
  · rw [← Option.not_isSome_iff_eq_none, FaultPlan.isSome_faultFor_at]
    rintro ⟨rule, -, hstrikes⟩
    -- Whatever its rate, nothing is left of it at calm.
    have hzero : (scaledRate rule.rate .calm).toNat = 0 := by
      rw [toNat_scaledRate, show Stress.calm.faultMultiplier.toNat = 0 from rfl, Nat.mul_zero]
      exact Nat.zero_min 90
    have hbelow := firesKeyed_iff.mp (Bool.and_eq_true_iff.mp hstrikes).2
    change _ < (scaledRate rule.rate .calm).toNat at hbelow
    rw [hzero] at hbelow
    exact Nat.not_lt_zero _ hbelow
  · -- What strikes at the lower level strikes at the higher: the key is the same, the rate no
    -- lower.
    obtain ⟨rule, hrule, hstrikes⟩ := FaultPlan.isSome_faultFor_at.mp hfault
    obtain ⟨hcovers, hfires⟩ := Bool.and_eq_true_iff.mp hstrikes
    have hrate : (scaledRate rule.rate lower).toNat ≤ (scaledRate rule.rate higher).toNat := by
      rw [toNat_scaledRate, toNat_scaledRate]
      exact min_le_min_right 90 (Nat.mul_le_mul_left _ (Stress.faultMultiplier_mono hlevel))
    exact FaultPlan.isSome_faultFor_at.mpr
      ⟨rule, hrule, Bool.and_eq_true_iff.mpr ⟨hcovers, firesKeyed_mono hrate hfires⟩⟩
  · rw [← Option.not_isSome_iff_eq_none, FaultPlan.isSome_faultFor_at]
    rintro ⟨rule, hrule, hstrikes⟩
    obtain ⟨rfl, hsteady, -⟩ := of_decide_eq_true (Bool.and_eq_true_iff.mp hstrikes).1
    exact Bool.false_ne_true ((not_covers_steady rule hrule hstage).symm.trans hsteady)

/-- A datagram lost at realistic is lost at brutal, and the steady transport's Receive is spared
there. -/
theorem levels_monotone_udp :
    ((FaultPlan.realistic.at .brutal).faultFor .receive "udp".toList .bytes 6).isSome = true ∧
      (FaultPlan.realistic.at .brutal).faultFor .receive STEADY .bytes 6 = none :=
  have hlevels := levels_monotone FaultPlan.realistic .receive "udp".toList .bytes 6
  ⟨hlevels.2.1 .realistic .brutal (by decide) (by decide +kernel), hlevels.2.2 .brutal (.inl rfl)⟩

end XmipEssentials
